/-
  Parsing.Proofs.Progress.Elements — A STRETCH IS ITS ELEMENTS, ONE BY ONE.

  A span parser scans ahead for the place where its stretch ends, and cuts the
  input there once.  A repetition of a parser for one element cuts the input at
  every element, tests each time whether anything is left and whether something
  was used up, and `recognize` then tells from two widths what was taken.  Both
  take the same stretch: of the first elements, as many as may be taken, those
  in front of the first one that does not satisfy the predicate.

  Main statements:
    * `exists_maximal_element` — the chain that a repetition of one element follows;
    * `recognize_atLeast` — what is made of that chain, as a stretch;
    * `stretches_are_repetitions`, which goes through the span parsers.
-/
import Parsing.Proofs.Progress.Agreement
import Parsing.Proofs.Span

namespace Parsing.Parser

variable {ε : Type} [Element ε]

/-! ## §1. The chain of single elements. -/

/-- The elements that may be taken, at most `limit` of them, form the maximal chain. -/
theorem exists_maximal_element (kind : Kind) (p : ε → Bool) (limit : Nat) (s : List ε) :
    ∃ steps,
      Maximal (element kind p) limit s steps (s.drop ((s.take limit).takeWhile p).length) ∧
        steps.map Prod.snd = (s.take limit).takeWhile p := by
  induction limit generalizing s with
  | zero => exact ⟨[], .here (.inl rfl), rfl⟩
  | succ limit ih =>
    cases s with
    | nil => exact ⟨[], .here (.inr (.inl rfl)), rfl⟩
    | cons e s =>
      -- the scan and the chain ask the same question about the first element
      rw [List.take_succ_cons, List.takeWhile_cons]
      by_cases he : p e = true
      · obtain ⟨steps, hmax, hvalues⟩ := ih s
        have hmatch : element kind p (e :: s) = .ok s e := by rw [element_cons, if_pos he]
        rw [if_pos he]
        refine ⟨(e :: s, e) :: steps, hmax.step hmatch (Sequence.nativeLen_lt_cons e s), ?_⟩
        rw [List.map_cons, hvalues]
      · have hfail : element kind p (e :: s) = .fail ⟨e :: s, kind⟩ := by
          rw [element_cons, if_neg he]
        rw [if_neg he]
        exact ⟨[], .here (.inr (.inr (.inl ⟨_, hfail⟩))), rfl⟩

/-- Taking one element always gives an answer. -/
theorem element_ne_unfinished (kind : Kind) (p : ε → Bool) (s : List ε) :
    element kind p s ≠ .unfinished := by
  cases s with
  | nil => simp [element_nil]
  | cons e s =>
    rw [element_cons]
    split <;> simp

/-- A repetition of one element lists the elements that may be taken. -/
theorem manyBounded_element (kind : Kind) (p : ε → Bool) (upper : Nat) (s : List ε) :
    manyBounded 0 upper (element kind p) s =
      .ok (s.drop ((s.take upper).takeWhile p).length) ((s.take upper).takeWhile p) := by
  obtain ⟨steps, hmax, hvalues⟩ := exists_maximal_element kind p upper s
  rw [manyBounded_of_maximal hmax, hvalues]
  cases hstop : stopAt (element kind p) (upper - steps.length)
      (s.drop ((s.take upper).takeWhile p).length) with
  | unfinished => exact absurd (stopAt_eq_unfinished_iff.mp hstop).2.2 (element_ne_unfinished _ _ _)
  | _ => rfl

/-! ## §2. The chain as a stretch. -/

/-- What is used up by a repetition of one element is the list of its values. -/
theorem recognize_atLeast {q : Parser ε (List ε)} {kind kind' : Kind} {p : ε → Bool}
    {lower upper : Nat} {s : List ε}
    (h : q s = (manyBounded 0 upper (element kind p) s).atLeast lower kind' s id) :
    recognize q s =
      if ((s.take upper).takeWhile p).length < lower then .fail ⟨s, kind'⟩
      else .ok (s.drop ((s.take upper).takeWhile p).length) ((s.take upper).takeWhile p) := by
  have hprefix : (s.take upper).takeWhile p <+: s :=
    (List.takeWhile_prefix p).trans (List.take_prefix upper s)
  rw [recognize, h, manyBounded_element, Reply.atLeast, Reply.andThen_ok]
  generalize (s.take upper).takeWhile p = found at hprefix
  obtain ⟨t, rfl⟩ := hprefix
  by_cases hless : found.length < lower
  · rw [if_pos hless, if_neg (Nat.not_le_of_lt hless), Reply.andThen_fail]
  · rw [if_neg hless, if_pos (Nat.le_of_not_lt hless), Reply.andThen_ok, List.drop_left,
      Sequence.consumed_append]

omit [Element ε] in
/-- To drop as many elements as were selected is to drop the selected ones. -/
theorem drop_length_takeWhile (p : ε → Bool) (s : List ε) :
    s.drop (s.takeWhile p).length = s.dropWhile p := by
  have hsplit : s.takeWhile p ++ s.dropWhile p = s := List.takeWhile_append_dropWhile
  calc
    s.drop (s.takeWhile p).length
        = (s.takeWhile p ++ s.dropWhile p).drop (s.takeWhile p).length := by rw [hsplit]
    _ = s.dropWhile p := List.drop_left

/-! ## §3. Stretches and repetitions. -/

/-- On `s` both parsers take the same stretch and leave the same rest, or both
fail there, the first one with an error of `kind`. -/
def SameStretch (kind : Kind) (p q : Parser ε (List ε)) (s : List ε) : Prop :=
  (∃ rest stretch, p s = .ok rest stretch ∧ q s = .ok rest stretch) ∨
    p s = .fail ⟨s, kind⟩ ∧ ∃ other, q s = .fail ⟨s, other⟩

omit [Element ε] in
/-- Two parsers that decide by one test whether there is enough. -/
theorem sameStretch_of_ite {kind other : Kind} {p q : Parser ε (List ε)} {s rest stretch : List ε}
    {short : Prop} [Decidable short]
    (hp : p s = if short then .fail ⟨s, kind⟩ else .ok rest stretch)
    (hq : q s = if short then .fail ⟨s, other⟩ else .ok rest stretch) :
    SameStretch kind p q s := by
  by_cases h : short
  · rw [if_pos h] at hp hq
    exact .inr ⟨hp, other, hq⟩
  · rw [if_neg h] at hp hq
    exact .inl ⟨rest, stretch, hp, hq⟩

/-- `many1` takes what satisfies the predicate, if that is something. -/
theorem recognize_many1_element (kind : Kind) (p : ε → Bool) {s : List ε}
    (hs : s.length ≤ maxCount) :
    recognize (many1 (element kind p)) s =
      if s.takeWhile p = [] then .fail ⟨s, kindAt (element kind p) .many1 s⟩
      else .ok (s.dropWhile p) (s.takeWhile p) := by
  rw [recognize_atLeast (many1_eq (element kind p) s), List.take_of_length_le hs,
    drop_length_takeWhile]
  simp only [Nat.lt_one_iff, List.length_eq_zero_iff]

/-- A stretch of at least one element is what `many1` recognizes. -/
theorem sameStretch_takeWhileSome (kind kind' : Kind) (p : ε → Bool) {s : List ε}
    (hs : s.length ≤ maxCount) :
    SameStretch kind (takeWhileSome kind p) (recognize (many1 (element kind' p))) s :=
  sameStretch_of_ite (takeWhileSome_apply kind p s) (recognize_many1_element kind' p hs)

/-- One that may be empty is what `many0` recognizes, and neither fails. -/
theorem takeWhile_eq_recognize (kind : Kind) (p : ε → Bool) {s : List ε}
    (hs : s.length ≤ maxCount) :
    takeWhile p s = recognize (many0 (element kind p)) s := by
  have hmany : many0 (element kind p) s =
      (manyBounded 0 maxCount (element kind p) s).atLeast 0 .manyBounded s id :=
    manyBounded_eq 0 maxCount (element kind p) s
  rw [takeWhile_apply, recognize_atLeast hmany, List.take_of_length_le hs, drop_length_takeWhile,
    if_neg (Nat.not_lt_zero _)]

/-- A stretch with bounds is what the bounded repetition recognizes. -/
theorem sameStretch_takeWhileBounded (kind : Kind) (lower upper : Nat) (p : ε → Bool)
    (s : List ε) :
    SameStretch .takeWhileBounded (takeWhileBounded lower upper p)
      (recognize (manyBounded lower upper (element kind p))) s :=
  sameStretch_of_ite (takeWhileBounded_apply lower upper p s)
    (recognize_atLeast (manyBounded_eq lower upper (element kind p) s))

variable [DecidableEq ε]

/-- **The span parsers are repetitions of a parser for one element**, told by
what they use up.  Without a lower bound both succeed, with the same reply.  With
one, whatever the bounds are, both take the same stretch, or both fail where they
were run; the kind of the failure of a span parser says which one it was. -/
theorem stretches_are_repetitions (s : List ε) (hs : s.length < Nat.pow 2 64) :
    (∀ p : ε → Bool, takeWhile p s = recognize (many0 (satisfy p)) s) ∧
    (∀ (lower upper : Nat) (p : ε → Bool),
      SameStretch .takeWhileBounded (takeWhileBounded lower upper p)
        (recognize (manyBounded lower upper (satisfy p))) s) ∧
    (∀ p : ε → Bool,
      SameStretch .takeWhile (takeWhile1 p) (recognize (many1 (satisfy p))) s) ∧
    (∀ p : ε → Bool,
      SameStretch .takeTill (takeTill1 p) (recognize (many1 (satisfy fun e => !p e))) s) ∧
    (∀ set : List ε, SameStretch .isA (isA set) (recognize (many1 (oneOf set))) s) ∧
    (∀ set : List ε, SameStretch .isNot (isNot set) (recognize (many1 (noneOf set))) s) ∧
    ∀ p : ε → Bool, takeTill p s = takeWhile (fun e => !p e) s := by
  have hmax : s.length ≤ maxCount := le_maxCount hs
  refine ⟨fun p => takeWhile_eq_recognize .satisfy p hmax,
    fun lower upper p => sameStretch_takeWhileBounded .satisfy lower upper p s,
    fun p => sameStretch_takeWhileSome .takeWhile .satisfy p hmax,
    fun p => sameStretch_takeWhileSome .takeTill .satisfy _ hmax, fun set => ?_, fun set => ?_,
    fun p => rfl⟩
  · exact sameStretch_of_ite (isA_apply set s) (recognize_many1_element .oneOf _ hmax)
  · exact sameStretch_of_ite (isNot_apply set s) (recognize_many1_element .noneOf _ hmax)

/-- Letters of one and two bytes in front of a digit: taken by a scan and one by
one; between three and two of them, which there never are; and none at all among
the bytes of the same text. -/
theorem letters_one_element_at_a_time :
    ['é', 'a', '1'].length < Nat.pow 2 64 ∧
    recognize (many0 (satisfy fun c => !c.isDigit)) ['é', 'a', '1'] = .ok ['1'] ['é', 'a'] ∧
    (∃ kind, recognize (manyBounded 3 2 (satisfy fun c => !c.isDigit)) ['é', 'a', '1'] =
      .fail ⟨['é', 'a', '1'], kind⟩) ∧
    ∃ kind, recognize (many1 (oneOf [97, 98])) ([0xC3, 0xA9, 97, 49] : List UInt8) =
      .fail ⟨[0xC3, 0xA9, 97, 49], kind⟩ := by
  have htext : ['é', 'a', '1'].length < Nat.pow 2 64 := by decide
  have hbytes : ([0xC3, 0xA9, 97, 49] : List UInt8).length < Nat.pow 2 64 := by decide
  refine ⟨htext, ?_, ?_, ?_⟩
  · exact ((stretches_are_repetitions _ htext).1 fun c => !c.isDigit).symm
  · rcases (stretches_are_repetitions _ htext).2.1 3 2 fun c => !c.isDigit with
      ⟨rest, stretch, hok, _⟩ | ⟨_, hfail⟩
    · cases hok
    · exact hfail
  · rcases (stretches_are_repetitions _ hbytes).2.2.2.2.1 [97, 98] with
      ⟨rest, stretch, hok, _⟩ | ⟨_, hfail⟩
    · cases hok
    · exact hfail

end Parsing.Parser
