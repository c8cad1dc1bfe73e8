/-
  Parsing.Proofs.Boundary — CUTS FALL BETWEEN ELEMENTS.

  Offsets are counted in native units, and sequences are lists of elements.
  Every offset that the operations on sequences compute is the width of a
  prefix, and a cut there gives that prefix and what follows it.  So offsets
  can be read as places in a list, and each operation as one on lists.

  Main statements:
    * `splitAt_nativeLen` — a cut at the width of a prefix gives the prefix;
    * `clampOffset_spec` — a clamped offset is the width of the longest prefix
      that is no wider;
    * `offsetOf_append`, `consumed_append` — the place of a suffix is exact;
    * `consumed_trans` — what is used up in two steps;
    * `offsetAt_eq`, `take?_eq` — counting off elements.
-/
import Parsing.Sequence.Basic

namespace Parsing.Sequence

variable {ε : Type} [Element ε]

open Element (width width_pos)

/-! ## §1. Widths. -/

@[simp] theorem nativeLen_nil : nativeLen ([] : List ε) = 0 := rfl

@[simp] theorem nativeLen_cons (e : ε) (s : List ε) :
    nativeLen (e :: s) = width e + nativeLen s := rfl

@[simp] theorem nativeLen_append (s t : List ε) :
    nativeLen (s ++ t) = nativeLen s + nativeLen t := by
  induction s with
  | nil => simp
  | cons e s ih =>
    show width e + nativeLen (s ++ t) = width e + nativeLen s + nativeLen t
    rw [ih, Nat.add_assoc]

/-- Every element takes at least one unit. -/
theorem length_le_nativeLen (s : List ε) : s.length ≤ nativeLen s := by
  induction s with
  | nil => exact Nat.le_refl _
  | cons e s ih =>
    have := width_pos e
    simp only [List.length_cons, nativeLen_cons]
    omega

/-- Only the empty sequence takes no unit. -/
theorem nativeLen_eq_zero_iff {s : List ε} : nativeLen s = 0 ↔ s = [] := by
  constructor
  · intro h
    have := length_le_nativeLen s
    exact List.eq_nil_of_length_eq_zero (by omega)
  · rintro rfl
    rfl

/-- Where each element takes one unit, the width is the number of elements. -/
theorem nativeLen_of_unit (hunit : ∀ e : ε, width e = 1) (s : List ε) :
    nativeLen s = s.length := by
  induction s with
  | nil => rfl
  | cons e s ih => rw [nativeLen_cons, hunit, ih, List.length_cons, Nat.add_comm]

/-- What follows an element is less wide. -/
theorem nativeLen_lt_cons (e : ε) (s : List ε) : nativeLen s < nativeLen (e :: s) :=
  Nat.lt_add_of_pos_left (width_pos e)

/-- What is wider than something is not empty. -/
theorem ne_nil_of_nativeLen_lt {s t : List ε} (h : nativeLen t < nativeLen s) : s ≠ [] := by
  rintro rfl
  exact absurd h (Nat.not_lt_zero _)

/-- A suffix is no wider than the whole. -/
theorem nativeLen_le_of_suffix {s t : List ε} (h : t <:+ s) : nativeLen t ≤ nativeLen s := by
  obtain ⟨p, rfl⟩ := h
  rw [nativeLen_append]
  omega

/-- A suffix as wide as the whole is the whole. -/
theorem nativeLen_le_iff_of_suffix {s t : List ε} (h : t <:+ s) :
    nativeLen s ≤ nativeLen t ↔ t = s := by
  constructor
  · intro hle
    obtain ⟨p, rfl⟩ := h
    rw [nativeLen_append] at hle
    have hp : p = [] := nativeLen_eq_zero_iff.mp (by omega)
    rw [hp, List.nil_append]
  · rintro rfl
    exact Nat.le_refl _

/-! ## §2. Cutting. -/

/-- The offset of a prefix is a boundary, and the cut there gives the prefix. -/
theorem cut?_nativeLen (s t : List ε) : cut? (s ++ t) (nativeLen s) = some (s, t) := by
  induction s with
  | nil => cases t <;> rfl
  | cons e s ih =>
    have hpos := width_pos e
    -- the offset is not zero, so the cut passes over `e`
    obtain ⟨k, hk⟩ : ∃ k, width e + nativeLen s = k + 1 := ⟨width e + nativeLen s - 1, by omega⟩
    rw [nativeLen_cons, hk, List.cons_append, cut?, if_pos (by omega), ← hk,
      Nat.add_sub_cancel_left, ih]
    rfl

/-- A cut at the width of a prefix gives the prefix and what follows it. -/
@[simp] theorem splitAt_nativeLen (s t : List ε) :
    splitAt (s ++ t) (nativeLen s) = (s, t) := by
  rw [splitAt, cut?_nativeLen]
  rfl

@[simp] theorem splitAt_self (s : List ε) : splitAt s (nativeLen s) = (s, []) := by
  simpa using splitAt_nativeLen s []

/-- The front of a sequence is empty, whatever the sequence is. -/
theorem front_eq_nil (s : List ε) : front s = [] :=
  congrArg Prod.fst (splitAt_nativeLen [] s)

/-! ## §3. Clamping, and the places of suffixes. -/

/-- Clamping keeps the width of a prefix. -/
@[simp] theorem clampOffset_nativeLen (s t : List ε) :
    clampOffset (s ++ t) (nativeLen s) = nativeLen s := by
  induction s with
  | nil =>
    cases t with
    | nil => rfl
    | cons e t =>
      have := width_pos e
      exact if_neg (by simp only [nativeLen_nil]; omega)
  | cons e s ih =>
    rw [nativeLen_cons, List.cons_append, clampOffset, if_pos (Nat.le_add_right _ _),
      Nat.add_sub_cancel_left, ih]

/-- Clamping brings an offset to the width of a prefix, the longest one that is
no wider than the offset. -/
theorem clampOffset_spec (s : List ε) (offset : Nat) :
    ∃ p t, s = p ++ t ∧ clampOffset s offset = nativeLen p ∧ nativeLen p ≤ offset ∧
      ∀ e later, t = e :: later → offset < nativeLen p + width e := by
  induction s generalizing offset with
  | nil => exact ⟨[], [], rfl, rfl, Nat.zero_le offset, fun _ _ h => nomatch h⟩
  | cons e s ih =>
    -- the first element fits in front of the offset, or the prefix is empty
    by_cases hle : width e ≤ offset
    · obtain ⟨p, t, rfl, hp, hbound, hlongest⟩ := ih (offset - width e)
      refine ⟨e :: p, t, rfl, ?_, ?_, ?_⟩
      · rw [clampOffset, if_pos hle, hp, nativeLen_cons]
      · rw [nativeLen_cons]
        omega
      · intro e' later ht
        have := hlongest e' later ht
        rw [nativeLen_cons]
        omega
    · refine ⟨[], e :: s, rfl, ?_, Nat.zero_le offset, ?_⟩
      · rw [clampOffset, if_neg hle, nativeLen_nil]
      · intro e' later ht
        obtain ⟨rfl, rfl⟩ := List.cons.inj ht
        rw [nativeLen_nil]
        omega

/-- Whatever the offset, clamping brings it to the width of a prefix. -/
theorem clampOffset_eq (s : List ε) (offset : Nat) :
    ∃ p t, s = p ++ t ∧ clampOffset s offset = nativeLen p := by
  obtain ⟨p, t, hs, hp, _⟩ := clampOffset_spec s offset
  exact ⟨p, t, hs, hp⟩

/-- What follows a cut at a clamped offset is a suffix. -/
theorem splitAt_clampOffset_suffix (s : List ε) (offset : Nat) :
    (splitAt s (clampOffset s offset)).2 <:+ s := by
  obtain ⟨p, t, rfl, hp⟩ := clampOffset_eq s offset
  rw [hp, splitAt_nativeLen]
  exact List.suffix_append p t

/-- The place of a suffix is the width of what is in front of it. -/
@[simp] theorem offsetOf_append (s t : List ε) : offsetOf (s ++ t) t = nativeLen s := by
  rw [offsetOf, nativeLen_append, Nat.add_sub_cancel, clampOffset_nativeLen]

/-- The offset of a suffix and its width make up the whole. -/
theorem offsetOf_add_nativeLen {s t : List ε} (h : t <:+ s) :
    offsetOf s t + nativeLen t = nativeLen s := by
  obtain ⟨p, rfl⟩ := h
  rw [offsetOf_append, nativeLen_append]

/-- What was used up to get to a suffix is what is in front of it. -/
@[simp] theorem consumed_append (s t : List ε) : consumed (s ++ t) t = s := by
  rw [consumed, offsetOf_append, splitAt_nativeLen]

@[simp] theorem consumed_self (s : List ε) : consumed s s = [] := consumed_append [] s

/-- What is used up on the way to a suffix of a suffix is used up in two steps. -/
theorem consumed_trans {s t r : List ε} (ht : t <:+ s) (hr : r <:+ t) :
    consumed s r = consumed s t ++ consumed t r := by
  obtain ⟨first, rfl⟩ := ht
  obtain ⟨second, rfl⟩ := hr
  rw [consumed_append, consumed_append, ← List.append_assoc, consumed_append]

/-- Whatever is given as the rest, something at the front counts as used up, and
it is as wide as the place of the rest is far. -/
theorem exists_consumed (s rest : List ε) :
    ∃ t, consumed s rest ++ t = s ∧ nativeLen (consumed s rest) = offsetOf s rest := by
  obtain ⟨p, t, hs, hp⟩ := clampOffset_eq s (nativeLen s - nativeLen rest)
  have hconsumed : consumed s rest = p := by
    rw [consumed, offsetOf, hp, hs, splitAt_nativeLen]
  exact ⟨t, by rw [hconsumed, hs], by rw [hconsumed, offsetOf, hp]⟩

/-- What counts as used up is a prefix, even for a rest that is none. -/
theorem consumed_prefix (s rest : List ε) : consumed s rest <+: s := by
  obtain ⟨t, ht, _⟩ := exists_consumed s rest
  exact ⟨t, ht⟩

/-! ## §4. Counting off elements. -/

/-- A count has an offset if there are so many elements: the width of these. -/
theorem offsetAt_eq (n : Nat) (s : List ε) :
    offsetAt n s = if n ≤ s.length then some (nativeLen (s.take n)) else none := by
  induction n generalizing s with
  | zero => simp [offsetAt]
  | succ n ih =>
    cases s with
    | nil => rfl
    | cons e s =>
      rw [offsetAt, ih]
      simp only [List.length_cons, Nat.add_le_add_iff_right, List.take_succ_cons, nativeLen_cons]
      split <;> rfl

/-- So many elements and the others, if there are so many. -/
theorem take?_eq (s : List ε) (n : Nat) :
    take? s n = if n ≤ s.length then some (s.take n, s.drop n) else none := by
  rw [take?, offsetAt_eq]
  split
  next =>
    have h := splitAt_nativeLen (s.take n) (s.drop n)
    rw [List.take_append_drop] at h
    rw [Option.map_some, h]
  next => rfl

@[simp] theorem next?_cons (e : ε) (s : List ε) : next? (e :: s) = some (e, s) := by
  rw [next?, take?_eq, if_pos (by simp)]
  rfl

end Parsing.Sequence
