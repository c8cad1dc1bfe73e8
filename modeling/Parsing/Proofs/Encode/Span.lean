/-
  Parsing.Proofs.Encode.Span — STRETCHES AND LITERALS IN AN ENCODED SEQUENCE.

  A stretch of elements that satisfy a predicate goes to the stretch of its
  words, if a second predicate holds throughout a word or nowhere in it as the
  first one holds of the element or does not.

  A literal is compared with what follows a place, and is searched for at all
  places.  The encoded literal matches at an encoded place where the literal
  does, if no word begins with another one.  The encoded sequence has more
  places, inside words; the encoded literal matches at none of them if no word
  goes on with an element that another word begins with.

  Main statements: `takeWhile_sequence`, `sequence_prefix_iff`,
  `splitBefore?_sequence`, and the parsers that they are for.
-/
import Parsing.Proofs.Encode.Combinators

namespace Parsing

variable {ε ζ : Type} {φ : Encoding ε ζ}

/-! ## §1. As long as a predicate holds. -/

section Predicate

variable {p : ε → Bool} {p' : ζ → Bool} (hp : ∀ e, ∀ b ∈ φ.word e, p' b = p e)

include hp

/-- A predicate that every unit of a word answers as its element does selects the word
of what it selects. -/
theorem Encoding.takeWhile_sequence (s : List ε) :
    (φ.sequence s).takeWhile p' = φ.sequence (s.takeWhile p) := by
  induction s with
  | nil => rfl
  | cons e s ih =>
    cases he : p e with
    | true =>
      have hword : ∀ b ∈ φ.word e, p' b = true := fun b hb => (hp e b hb).trans he
      rw [φ.sequence_cons, List.takeWhile_append_of_pos hword, ih,
        List.takeWhile_cons_of_pos he, φ.sequence_cons]
    | false =>
      obtain ⟨b, more, hword⟩ := List.exists_cons_of_ne_nil (φ.word_ne_nil e)
      have hb : ¬ p' b = true := by simp [hp e b (by simp [hword]), he]
      rw [φ.sequence_cons, hword, List.cons_append, List.takeWhile_cons_of_neg hb,
        List.takeWhile_cons_of_neg (by simp [he]), φ.sequence_nil]

theorem Encoding.dropWhile_sequence (s : List ε) :
    (φ.sequence s).dropWhile p' = φ.sequence (s.dropWhile p) := by
  have h := List.takeWhile_append_dropWhile (p := p') (l := φ.sequence s)
  rw [takeWhile_sequence hp] at h
  have h' : φ.sequence (s.takeWhile p) ++ φ.sequence (s.dropWhile p) = φ.sequence s := by
    rw [← φ.sequence_append, List.takeWhile_append_dropWhile]
  exact List.append_cancel_left (h.trans h'.symm)

namespace Parser

variable [Element ε] [Element ζ]

/-- The longest stretch of units encodes the longest stretch of elements. -/
theorem encoded_takeWhile :
    Encoded φ (fun v w => w = φ.sequence v) (takeWhile p) (takeWhile p') := by
  intro s
  rw [takeWhile_apply, takeWhile_apply, Encoding.takeWhile_sequence hp,
    Encoding.dropWhile_sequence hp]
  exact .ok _ rfl

/-- The form that wants at least one element: words are not empty, so one is there on
both sides or on neither. -/
theorem encoded_takeWhileSome (kind : Kind) :
    Encoded φ (fun v w => w = φ.sequence v) (takeWhileSome kind p) (takeWhileSome kind p') := by
  intro s
  rw [takeWhileSome_apply, takeWhileSome_apply, Encoding.takeWhile_sequence hp,
    Encoding.dropWhile_sequence hp]
  simp only [φ.sequence_eq_nil_iff]
  split
  next => exact .fail ⟨s, kind⟩
  next => exact .ok _ rfl

/-- One element goes to one element if those that are wanted have words of one. -/
theorem encoded_element (kind : Kind) (hone : ∀ e, p e = true → ∃ b, φ.word e = [b]) :
    Encoded φ (fun e b => φ.word e = [b]) (element kind p) (element kind p') := by
  intro s
  cases s with
  | nil =>
    rw [φ.sequence_nil, element_nil, element_nil]
    exact .fail ⟨[], kind⟩
  | cons e s =>
    -- the first unit of the word tells whether its element is wanted
    obtain ⟨b, more, hword⟩ := List.exists_cons_of_ne_nil (φ.word_ne_nil e)
    have hb : p' b = p e := hp e b (by simp [hword])
    rw [φ.sequence_cons, hword, List.cons_append, element_cons, element_cons, hb]
    cases he : p e with
    | true =>
      obtain ⟨b', hb'⟩ := hone e he
      rw [hword, List.cons.injEq] at hb'
      obtain ⟨rfl, rfl⟩ := hb'
      exact .ok s hword
    | false =>
      have hseq : b :: (more ++ φ.sequence s) = φ.sequence (e :: s) := by
        rw [φ.sequence_cons, hword, List.cons_append]
      rw [hseq]
      exact .fail ⟨e :: s, kind⟩

end Parser

end Predicate

/-! ## §2. Where a literal matches. -/

namespace Encoding

/-- No word begins with the word of another element. -/
def PrefixFree (φ : Encoding ε ζ) : Prop := ∀ a b, φ.word a <+: φ.word b → a = b

/-- No word goes on with an element that a word begins with. -/
def SelfSynchronizing (φ : Encoding ε ζ) : Prop :=
  ∀ a b first more, φ.word a = first :: more → first ∉ (φ.word b).tail

variable (hfree : φ.PrefixFree)

include hfree

/-- A prefix-free encoding reflects prefixes, so a literal matches its encoding exactly
where it matches. -/
theorem sequence_prefix_iff {s t : List ε} : φ.sequence t <+: φ.sequence s ↔ t <+: s := by
  constructor
  · intro h
    induction t generalizing s with
    | nil => exact List.nil_prefix
    | cons a t ih =>
      cases s with
      | nil => exact absurd (List.prefix_nil.mp h) (by simp [φ.word_ne_nil a])
      | cons b s =>
        rw [φ.sequence_cons, φ.sequence_cons] at h
        -- of two words at the front of one sequence, one begins with the other
        have hab : a = b := by
          rcases List.prefix_or_prefix_of_prefix ((List.prefix_append _ _).trans h)
            (List.prefix_append (φ.word b) _) with hword | hword
          · exact hfree a b hword
          · exact (hfree b a hword).symm
        subst hab
        exact (List.prefix_cons_inj a).mpr (ih ((List.prefix_append_right_inj _).mp h))
  · rintro ⟨t', rfl⟩
    rw [φ.sequence_append]
    exact List.prefix_append _ _

/-- An encoded literal does not match inside a word. -/
theorem not_sequence_prefix (hsync : φ.SelfSynchronizing) {literal s : List ε} {e : ε}
    (h : ¬ literal <+: e :: s) {x y : List ζ} (hxy : φ.word e = x ++ y) (hy : y ≠ []) :
    ¬ φ.sequence literal <+: y ++ φ.sequence s := by
  intro hmatch
  cases x with
  -- at the start of the word a match would be one of the literal itself
  | nil =>
    rw [List.nil_append] at hxy
    rw [← hxy, ← φ.sequence_cons, φ.sequence_prefix_iff hfree] at hmatch
    exact h hmatch
  | cons b x =>
    cases literal with
    | nil => exact h List.nil_prefix
    | cons a literal =>
      -- inside the word it would start with a unit that no word goes on with
      obtain ⟨first, more, hword⟩ := List.exists_cons_of_ne_nil (φ.word_ne_nil a)
      obtain ⟨c, y, rfl⟩ := List.exists_cons_of_ne_nil hy
      rw [φ.sequence_cons, hword, List.cons_append, List.cons_append,
        List.cons_prefix_cons] at hmatch
      obtain ⟨rfl, _⟩ := hmatch
      exact hsync a e first more hword (by simp [hxy])

end Encoding

/-! ## §3. Literals. -/

namespace Parser

/-- A search that holds at the front splits nothing off. -/
theorem splitBefore?_of_front {p : List ε → Bool} {s : List ε} (hs : s ≠ []) (h : p s = true) :
    splitBefore? p s = some ([], s) := by
  obtain ⟨e, s, rfl⟩ := List.exists_cons_of_ne_nil hs
  rw [splitBefore?, if_pos h]

/-- A search passes over a front at no place of which it succeeds. -/
theorem splitBefore?_append {p : List ε → Bool} {s t : List ε}
    (h : ∀ x y, s = x ++ y → y ≠ [] → p (y ++ t) = false) :
    splitBefore? p (s ++ t) = (splitBefore? p t).map fun parts => (s ++ parts.1, parts.2) := by
  induction s with
  | nil => simp
  | cons e s ih =>
    have hfront : p (e :: (s ++ t)) = false := h [] (e :: s) rfl (List.cons_ne_nil _ _)
    have hrest := ih fun x y hxy => h (e :: x) y (by rw [hxy, List.cons_append])
    rw [List.cons_append, splitBefore?, hfront, hrest, Option.map_map]
    rfl

variable (hfree : φ.PrefixFree) (hsync : φ.SelfSynchronizing) [DecidableEq ε] [DecidableEq ζ]

include hfree

/-- A literal and its encoding match at corresponding places. -/
theorem encoded_tag [Element ε] [Element ζ] (literal : List ε) :
    Encoded φ (fun v w => w = φ.sequence v) (tag literal) (tag (φ.sequence literal)) := by
  intro s
  by_cases h : literal <+: s
  · obtain ⟨t, rfl⟩ := h
    rw [φ.sequence_append, tag_append, tag_append]
    exact .ok t rfl
  · rw [tag_apply, tag_apply, if_neg h, if_neg ((φ.sequence_prefix_iff hfree).not.mpr h)]
    exact .fail ⟨s, .tag⟩

include hsync

/-- The first place of an encoded literal is the place of the literal, encoded. -/
theorem splitBefore?_sequence (literal s : List ε) :
    splitBefore? (fun t => decide (φ.sequence literal <+: t)) (φ.sequence s) =
      (splitBefore? (fun t => decide (literal <+: t)) s).map
        fun parts => (φ.sequence parts.1, φ.sequence parts.2) := by
  induction s with
  | nil => rfl
  | cons e s ih =>
    by_cases h : literal <+: e :: s
    · have hne : φ.sequence (e :: s) ≠ [] := by simp [φ.word_ne_nil e]
      rw [splitBefore?_of_front (List.cons_ne_nil e s) (decide_eq_true h),
        splitBefore?_of_front hne (decide_eq_true ((φ.sequence_prefix_iff hfree).mpr h))]
      rfl
    -- no occurrence begins in the word of this element, so the search passes over all of it
    · have hword := fun x y (hxy : φ.word e = x ++ y) hy =>
        decide_eq_false (Encoding.not_sequence_prefix hfree hsync h hxy hy)
      rw [φ.sequence_cons, splitBefore?_append hword, ih, splitBefore?, decide_eq_false h,
        Option.map_map]
      simp only [Bool.false_eq_true, if_false, Option.map_map]
      rfl

variable [Element ε] [Element ζ]

/-- The first occurrence of an encoded literal is at the start of a word, so both
searches stop at the same place. -/
theorem encoded_takeUntil (literal : List ε) :
    Encoded φ (fun v w => w = φ.sequence v) (takeUntil literal)
      (takeUntil (φ.sequence literal)) := by
  intro s
  rw [takeUntil_apply, takeUntil_apply, splitBefore?_sequence hfree hsync]
  cases splitBefore? (fun t => decide (literal <+: t)) s with
  | none => exact .fail ⟨s, .takeUntil⟩
  | some parts => exact .ok parts.2 rfl

/-- The search also fails at the front on both sides alike. -/
theorem encoded_takeUntil1 (literal : List ε) :
    Encoded φ (fun v w => w = φ.sequence v) (takeUntil1 literal)
      (takeUntil1 (φ.sequence literal)) := by
  intro s
  rw [takeUntil1_apply, takeUntil1_apply, splitBefore?_sequence hfree hsync]
  cases splitBefore? (fun t => decide (literal <+: t)) s with
  | none => exact .fail ⟨s, .takeUntil⟩
  | some parts =>
    simp only [Option.map_some, φ.sequence_eq_nil_iff]
    split
    next => exact .fail ⟨s, .takeUntil⟩
    next => exact .ok parts.2 rfl

end Parser

end Parsing
