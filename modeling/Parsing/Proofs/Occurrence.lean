/-
  Parsing.Proofs.Occurrence — THE FIRST OCCURRENCE OF A LITERAL.

  A literal occurs at an index of a sequence if the index lies before the end
  and the literal is a prefix of what follows it.  `takeUntil` goes through the
  offsets of the elements, tries the literal at each, and cuts where it first
  matches; that is at the first index where the literal occurs, and the places
  before it are passed over whatever part of the literal matches there.

  The same place is found by a repetition: one element at a time, up to a place
  where the literal matches.  The repetition would try that place also at the
  end of the input, where only the empty literal matches.

  Main statements:
    * `splitBefore?_of_firstAt` — the search stops at the first occurrence;
    * `manyTill_of_firstAt` — so does the repetition;
    * `literal_is_found_at_its_first_occurrence`, which says the rest.
-/
import Mathlib.Data.Nat.Find
import Parsing.Proofs.Progress.Marker
import Parsing.Proofs.Span

namespace Parsing.Parser

variable {ε : Type} {literal s : List ε} {i : Nat}

/-! ## §1. Occurrences. -/

/-- The literal is a prefix of what follows the first `i` elements, and that is
not the end. -/
def OccursAt (literal s : List ε) (i : Nat) : Prop := i < s.length ∧ literal <+: s.drop i

/-- The literal occurs at `i` and at no earlier place. -/
structure FirstAt (literal s : List ε) (i : Nat) : Prop where
  occurs : OccursAt literal s i
  least : ∀ j < i, ¬ literal <+: s.drop j

/-- Of the places where a literal occurs, one is the first. -/
theorem exists_firstAt_iff : (∃ i, FirstAt literal s i) ↔ ∃ i, OccursAt literal s i := by
  classical
  constructor
  · rintro ⟨i, hfirst⟩
    exact ⟨i, hfirst.occurs⟩
  · intro h
    refine ⟨Nat.find h, Nat.find_spec h, fun j hj hprefix => Nat.find_min h hj ⟨?_, hprefix⟩⟩
    exact Nat.lt_trans hj (Nat.find_spec h).1

/-- Nothing occurs in the empty input, not even the empty literal. -/
theorem not_occursAt_nil : ¬ OccursAt literal [] i := fun h => absurd h.1 (Nat.not_lt_zero i)

/-- Behind an element that is passed over, the occurrences are those of the rest. -/
theorem occursAt_cons_succ {e : ε} : OccursAt literal (e :: s) (i + 1) ↔ OccursAt literal s i := by
  rw [OccursAt, OccursAt, List.length_cons, Nat.add_lt_add_iff_right, List.drop_succ_cons]

/-- A first occurrence that is not in front is one of the tail, and none is in front. -/
theorem FirstAt.tail {e : ε} (h : FirstAt literal (e :: s) (i + 1)) :
    ¬ literal <+: e :: s ∧ FirstAt literal s i := by
  refine ⟨h.least 0 (Nat.succ_pos i), occursAt_cons_succ.mp h.occurs, fun j hj => ?_⟩
  exact h.least (j + 1) (Nat.succ_lt_succ hj)

/-! ## §2. The search for a literal. -/

variable [DecidableEq ε]

/-- The places before the first occurrence are passed over, and the search stops there. -/
theorem splitBefore?_of_firstAt (h : FirstAt literal s i) :
    splitBefore? (fun t => decide (literal <+: t)) s = some (s.take i, s.drop i) := by
  induction s generalizing i with
  | nil => exact absurd h.occurs not_occursAt_nil
  | cons e s ih =>
    cases i with
    | zero =>
      have hmatch : literal <+: e :: s := h.occurs.2
      rw [splitBefore?, if_pos (decide_eq_true hmatch)]
      rfl
    | succ i =>
      obtain ⟨hpass, htail⟩ := h.tail
      rw [splitBefore?, decide_eq_false hpass, ih htail]
      rfl

theorem splitBefore?_of_not_occurs (h : ∀ i, ¬ OccursAt literal s i) :
    splitBefore? (fun t => decide (literal <+: t)) s = none := by
  induction s with
  | nil => rfl
  | cons e s ih =>
    have hpass : ¬ literal <+: e :: s := fun hmatch => h 0 ⟨Nat.succ_pos s.length, hmatch⟩
    rw [splitBefore?, decide_eq_false hpass, ih fun i hi => h (i + 1) (occursAt_cons_succ.mpr hi)]
    rfl

variable [Element ε]

/-- What is in front of the first occurrence is taken, and the literal is left. -/
theorem takeUntil_of_firstAt (h : FirstAt literal s i) :
    takeUntil literal s = .ok (s.drop i) (s.take i) := by
  rw [takeUntil_apply, splitBefore?_of_firstAt h]

/-- Without an occurrence the search fails where it started. -/
theorem takeUntil_of_not_occurs (h : ∀ i, ¬ OccursAt literal s i) :
    takeUntil literal s = .fail ⟨s, .takeUntil⟩ := by
  rw [takeUntil_apply, splitBefore?_of_not_occurs h]

/-- Only the first occurrence counts, and it counts only behind the start. -/
theorem takeUntil1_of_firstAt (h : FirstAt literal s i) :
    takeUntil1 literal s =
      if i = 0 then .fail ⟨s, .takeUntil⟩ else .ok (s.drop i) (s.take i) := by
  have hs : s ≠ [] := List.ne_nil_of_length_pos (Nat.lt_of_le_of_lt (Nat.zero_le i) h.occurs.1)
  rw [takeUntil1_apply, splitBefore?_of_firstAt h]
  simp only [List.take_eq_nil_iff, hs, or_false]

theorem takeUntil1_of_not_occurs (h : ∀ i, ¬ OccursAt literal s i) :
    takeUntil1 literal s = .fail ⟨s, .takeUntil⟩ := by
  rw [takeUntil1_apply, splitBefore?_of_not_occurs h]

/-! ## §3. Element by element. -/

/-- One element after another is taken, as long as the literal does not match. -/
theorem advances_take_one (hi : i ≤ s.length) (h : ∀ j < i, ¬ literal <+: s.drop j) :
    ∃ steps, Advances (preceded (negate (peek (tag literal))) (take 1)) s steps (s.drop i) ∧
      steps.map Prod.snd = (s.take i).map fun e => [e] := by
  induction i generalizing s with
  | zero => exact ⟨[], .here s, rfl⟩
  | succ i ih =>
    cases s with
    | nil => exact absurd hi (Nat.not_succ_le_zero i)
    | cons e s =>
      obtain ⟨steps, hsteps, hvalues⟩ := ih (s := s) (Nat.le_of_succ_le_succ hi)
        fun j hj => h (j + 1) (Nat.succ_lt_succ hj)
      -- the marker is not in front, so the turn takes one element
      have hpass : ¬ literal <+: e :: s := h 0 (Nat.succ_pos i)
      have hmarker : peek (tag literal) (e :: s) = .fail ⟨e :: s, .tag⟩ := by
        rw [peek, tag_apply, if_neg hpass, Reply.andThen_fail]
      have hturn : preceded (negate (peek (tag literal))) (take 1) (e :: s) = .ok s [e] := by
        rw [preceded_negate_of_fail hmarker]
        exact take_append [e] s
      refine ⟨(e :: s, [e]) :: steps, .step hturn (Sequence.nativeLen_lt_cons e s) hsteps, ?_⟩
      rw [List.map_cons, hvalues, List.take_succ_cons, List.map_cons]

/-- The repetition stops where the search does. -/
theorem manyTill_of_firstAt (h : FirstAt literal s i) :
    manyTill (take 1) (peek (tag literal)) s =
      .ok (s.drop i) ((s.take i).map fun e => [e], literal) := by
  obtain ⟨steps, hturns, hvalues⟩ := advances_take_one (Nat.le_of_lt h.occurs.1) h.least
  have hmarker : peek (tag literal) (s.drop i) = .ok (s.drop i) literal := by
    rw [peek, tag_apply, if_pos h.occurs.2, Reply.andThen_ok]
  have hstuck := stuck_of_fail (preceded_negate_of_match hmarker (take 1))
  rw [manyTill_of_stuck hturns hstuck, hvalues, tillReply, hmarker]

/-- Without an occurrence the repetition comes to the end, where nothing is left to take. -/
theorem manyTill_of_not_occurs (hne : literal ≠ []) (h : ∀ i, ¬ OccursAt literal s i) :
    manyTill (take 1) (peek (tag literal)) s = .fail ⟨[], .eof⟩ := by
  obtain ⟨steps, hturns, _⟩ := advances_take_one (Nat.le_refl s.length)
    fun j hj hmatch => h j ⟨hj, hmatch⟩
  rw [List.drop_length] at hturns
  have hmarker : peek (tag literal) [] = .fail ⟨[], .tag⟩ := by
    rw [peek, tag_apply, if_neg (by simpa using hne), Reply.andThen_fail]
  rw [manyTill_of_stuck hturns (stuck_nil _), tillReply, hmarker]
  rfl

/-! ## §4. All together. -/

omit [DecidableEq ε] [Element ε] in
/-- Either a literal has a first occurrence or it has none. -/
theorem firstAt_or_not_occurs (literal s : List ε) :
    (∃ i, FirstAt literal s i) ∨ ∀ i, ¬ OccursAt literal s i := by
  by_cases h : ∃ i, OccursAt literal s i
  · exact .inl (exists_firstAt_iff.mpr h)
  · exact .inr (not_exists.mp h)

omit [DecidableEq ε] [Element ε] in
/-- A reply that is a success at a first occurrence, and else a failure. -/
theorem eq_ok_iff_of_firstAt {β : Type} {r : Reply ε β} {value : Nat → β} {error : ParseError ε}
    (hfirst : ∀ i, FirstAt literal s i → r = .ok (s.drop i) (value i))
    (hnone : (∀ i, ¬ OccursAt literal s i) → r = .fail error) {rest : List ε} {v : β} :
    r = .ok rest v ↔ ∃ i, FirstAt literal s i ∧ rest = s.drop i ∧ v = value i := by
  constructor
  · intro hok
    rcases firstAt_or_not_occurs literal s with ⟨i, hi⟩ | h
    · rw [hfirst i hi] at hok
      cases hok
      exact ⟨i, hi, rfl, rfl⟩
    · rw [hnone h] at hok
      cases hok
  · rintro ⟨i, hi, rfl, rfl⟩
    exact hfirst i hi

/-- A search succeeds exactly with the two sides of the first occurrence. -/
theorem takeUntil_eq_ok_iff {rest slice : List ε} :
    takeUntil literal s = .ok rest slice ↔
      ∃ i, FirstAt literal s i ∧ rest = s.drop i ∧ slice = s.take i :=
  eq_ok_iff_of_firstAt (fun _ hi => takeUntil_of_firstAt hi) takeUntil_of_not_occurs

/-- The same for the form that has to take something, if the occurrence is not in front. -/
theorem takeUntil1_eq_ok_iff {rest slice : List ε} :
    takeUntil1 literal s = .ok rest slice ↔
      ∃ i, FirstAt literal s i ∧ 0 < i ∧ rest = s.drop i ∧ slice = s.take i := by
  constructor
  · intro hok
    -- `eq_ok_iff_of_firstAt` does not apply, since at the front the result is a failure
    rcases firstAt_or_not_occurs literal s with ⟨i, hi⟩ | h
    · rw [takeUntil1_of_firstAt hi] at hok
      by_cases hzero : i = 0
      · rw [if_pos hzero] at hok
        cases hok
      · rw [if_neg hzero] at hok
        cases hok
        exact ⟨i, hi, Nat.pos_of_ne_zero hzero, rfl, rfl⟩
    · rw [takeUntil1_of_not_occurs h] at hok
      cases hok
  · rintro ⟨i, hi, hpos, rfl, rfl⟩
    rw [takeUntil1_of_firstAt hi, if_neg (Nat.ne_of_gt hpos)]

/-- Taking single elements until the literal is in front comes to the same split, with
each element as a slice of its own. A literal without elements would stop it at the end
of the input, too. -/
theorem manyTill_take_eq_ok_iff (hne : literal ≠ []) {rest mark : List ε}
    {slices : List (List ε)} :
    manyTill (take 1) (peek (tag literal)) s = .ok rest (slices, mark) ↔
      ∃ i, FirstAt literal s i ∧ rest = s.drop i ∧
        (slices, mark) = ((s.take i).map fun e => [e], literal) :=
  eq_ok_iff_of_firstAt (fun _ hi => manyTill_of_firstAt hi) (manyTill_of_not_occurs hne)

/-- What the search takes is what the repetition has collected, piece by piece. -/
theorem takeUntil_eq_ok_iff_manyTill (hne : literal ≠ []) {rest slice : List ε} :
    takeUntil literal s = .ok rest slice ↔
      ∃ slices mark, manyTill (take 1) (peek (tag literal)) s = .ok rest (slices, mark) ∧
        slices.flatten = slice := by
  have hpieces : ∀ t : List ε, (t.map fun e => [e]).flatten = t := fun t => by
    rw [← List.flatMap_def, List.flatMap_singleton']
  rw [takeUntil_eq_ok_iff]
  constructor
  · rintro ⟨i, hi, rfl, rfl⟩
    exact ⟨_, _, (manyTill_take_eq_ok_iff hne).mpr ⟨i, hi, rfl, rfl⟩, hpieces _⟩
  · rintro ⟨slices, mark, hok, rfl⟩
    obtain ⟨i, hi, rfl, hvalue⟩ := (manyTill_take_eq_ok_iff hne).mp hok
    cases hvalue
    exact ⟨i, hi, rfl, hpieces _⟩

/-- **A literal is found at its first occurrence.**  The search succeeds exactly
if the literal occurs somewhere before the end; it takes what is in front of the
first occurrence and leaves the rest, which begins with the literal, as it does
at no earlier place.  The search that has to take something succeeds exactly if
that first occurrence is not at the start, whether or not there are others.  In
every other case both fail where they were run.  A literal that is not empty is
found just so by taking one element at a time until it matches. -/
theorem literal_is_found_at_its_first_occurrence (literal s : List ε) :
    ((∃ i, FirstAt literal s i) ↔ ∃ i, OccursAt literal s i) ∧
    (∀ rest slice, takeUntil literal s = .ok rest slice ↔
      ∃ i, FirstAt literal s i ∧ rest = s.drop i ∧ slice = s.take i) ∧
    (∀ rest slice, takeUntil1 literal s = .ok rest slice ↔
      ∃ i, FirstAt literal s i ∧ 0 < i ∧ rest = s.drop i ∧ slice = s.take i) ∧
    ((∀ i, ¬ FirstAt literal s i) → takeUntil literal s = .fail ⟨s, .takeUntil⟩) ∧
    ((∀ i, FirstAt literal s i → i = 0) → takeUntil1 literal s = .fail ⟨s, .takeUntil⟩) ∧
    (literal ≠ [] → ∀ rest slice, takeUntil literal s = .ok rest slice ↔
      ∃ slices mark, manyTill (take 1) (peek (tag literal)) s = .ok rest (slices, mark) ∧
        slices.flatten = slice) := by
  refine ⟨exists_firstAt_iff, fun _ _ => takeUntil_eq_ok_iff, fun _ _ => takeUntil1_eq_ok_iff,
    fun h => ?_, fun h => ?_, fun hne _ _ => takeUntil_eq_ok_iff_manyTill hne⟩
  · rcases firstAt_or_not_occurs literal s with ⟨i, hi⟩ | hnone
    · exact absurd hi (h i)
    · exact takeUntil_of_not_occurs hnone
  · rcases firstAt_or_not_occurs literal s with ⟨i, hi⟩ | hnone
    · rw [takeUntil1_of_firstAt hi, if_pos (h i hi)]
    · exact takeUntil1_of_not_occurs hnone

/-- Brackets behind a character of two bytes, and once more further on: found by
the search and one element at a time.  Brackets at the start hide those further
on from the search that has to take something, and brackets that the end of the
input cuts off are none. -/
theorem brackets_are_found :
    ([']', ']'] ≠ ([] : List Char) ∧ ∃ slices mark,
      manyTill (take 1) (peek (tag [']', ']'])) ['é', ']', 'a', ']', ']', ']', ']'] =
        .ok [']', ']', ']', ']'] (slices, mark) ∧ slices.flatten = ['é', ']', 'a']) ∧
    takeUntil1 [']', ']'] [']', ']', 'a', ']', ']'] =
      .fail ⟨[']', ']', 'a', ']', ']'], .takeUntil⟩ ∧
    takeUntil [93, 93] ([97, 93] : List UInt8) = .fail ⟨[97, 93], .takeUntil⟩ := by
  have hne : [']', ']'] ≠ ([] : List Char) := by decide
  refine ⟨⟨hne, ?_⟩, ?_, ?_⟩
  · have hfound := (literal_is_found_at_its_first_occurrence [']', ']']
      ['é', ']', 'a', ']', ']', ']', ']']).2.2.2.2.2 hne
    exact (hfound _ _).mp rfl
  · refine (literal_is_found_at_its_first_occurrence _ _).2.2.2.2.1 fun i hi => ?_
    exact Nat.eq_zero_of_not_pos fun hpos => hi.least 0 hpos (by decide)
  · refine (literal_is_found_at_its_first_occurrence _ _).2.2.2.1 fun i hi => ?_
    have hnone : ∀ j < 2, ¬ [93, 93] <+: ([97, 93] : List UInt8).drop j := by decide
    exact hnone i hi.occurs.1 hi.occurs.2

end Parsing.Parser
