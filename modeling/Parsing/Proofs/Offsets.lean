/-
  Parsing.Proofs.Offsets — COUNTS AND OFFSETS AGREE.

  A place in a sequence can be told in two ways: by the number of elements in
  front of it, and by their width.  Each operation on sequences uses one way or
  the other, and goes along the elements on its own.  All of them mean the same
  places: the offset of a count is where its cut falls, where the element of
  that index starts, and what is computed from what is left behind it.

  Where elements differ in width an offset is found by counting.  That can be
  done by recursion on the sequence, or by going along the indices and keeping
  count (`seek`).  Where each element takes one unit there is nothing to find.

  Main statements:
    * `getElem?_elementIndices`, `seek_elementIndices` — the indices of elements;
    * `cutsAt_of_offsetAt`, `offsetAt_lt_offsetAt`, `offsetOf_add` — what an
      offset is, that offsets increase, and that they add up;
    * `pair_take_take` — taking twice;
    * `counts_and_offsets_agree`, which puts these together.
-/
import Parsing.Parser.Sequencing
import Parsing.Proofs.Span

namespace Parsing

namespace Sequence

variable {ε : Type} [Element ε]

open Element (width width_pos)

/-! ## §1. The elements and their indices. -/

/-- The walk from any offset `base` on; the elements in front of the index make up the
rest. By induction on the input. -/
theorem elementIndices_go_eq (base : Nat) (s : List ε) (i : Nat) :
    (elementIndices.go base s)[i]? = s[i]?.map fun e => (base + nativeLen (s.take i), e) := by
  induction s generalizing base i with
  | nil => rfl
  | cons e s ih =>
    cases i with
    | zero => rfl
    | succ i =>
      rw [elementIndices.go, List.getElem?_cons_succ, List.getElem?_cons_succ, ih,
        List.take_succ_cons, nativeLen_cons, Nat.add_assoc]

/-- The element of an index, and the offset of as many elements. -/
theorem getElem?_elementIndices {s : List ε} {i : Nat} (hi : i < s.length) :
    ∃ offset, offsetAt i s = some offset ∧ (elementIndices s)[i]? = some (offset, s[i]) := by
  refine ⟨nativeLen (s.take i), ?_, ?_⟩
  · rw [offsetAt_eq, if_pos (Nat.le_of_lt hi)]
  · rw [elementIndices, elementIndices_go_eq, List.getElem?_eq_getElem hi, Option.map_some,
      Nat.zero_add]

theorem length_elementIndices (s : List ε) : (elementIndices s).length = s.length := by
  suffices h : ∀ base, (elementIndices.go base s).length = s.length from h 0
  induction s with
  | nil => exact fun _ => rfl
  | cons e s ih => exact fun base => congrArg Nat.succ (ih (base + width e))

/-- Goes along elements and their offsets until `n` have been seen, and yields the
offset reached; `stop` is that of the end. -/
def seek (n stop : Nat) : (seen : Nat) → List (Nat × ε) → Option Nat
  | seen, [] => if seen = n then some stop else none
  | seen, (offset, _) :: later => if seen = n then some offset else seek n stop (seen + 1) later

/-- The search goes on from any offset, whatever has been seen. -/
theorem seek_elementIndices_go (n base seen : Nat) (s : List ε) :
    seek (seen + n) (base + nativeLen s) seen (elementIndices.go base s) =
      (offsetAt n s).map (base + ·) := by
  induction s generalizing n base seen with
  | nil => cases n <;> simp [elementIndices.go, seek, offsetAt]
  | cons e s ih =>
    cases n with
    | zero => exact if_pos rfl
    | succ n =>
      rw [elementIndices.go, seek, if_neg (by omega), nativeLen_cons, ← Nat.add_assoc,
        ← Nat.add_assoc, Nat.add_right_comm seen n 1, ih, offsetAt, Option.map_map]
      simp only [Function.comp_def, Nat.add_assoc]

/-- The search for the `n`-th element is the offset of so many elements. -/
theorem seek_elementIndices (n : Nat) (s : List ε) :
    seek n (nativeLen s) 0 (elementIndices s) = offsetAt n s := by
  have h := seek_elementIndices_go n 0 0 s
  simp only [Nat.zero_add, Option.map_id'] at h
  exact h

/-! ## §2. Cuts. -/

/-- The offset is where the sequence is cut behind `n` elements. -/
structure CutsAt (s : List ε) (n offset : Nat) : Prop where
  parts : splitAt s offset = (s.take n, s.drop n)
  whole : (splitAt s offset).1 ++ (splitAt s offset).2 = s
  front_width : nativeLen (splitAt s offset).1 = offset
  rest_place : offsetOf s (splitAt s offset).2 = offset
  kept : clampOffset s offset = offset

/-- So many elements in front end at a cut. -/
theorem cutsAt_take (s : List ε) (n : Nat) : CutsAt s n (nativeLen (s.take n)) := by
  have hwhole := List.take_append_drop n s
  have hparts := splitAt_nativeLen (s.take n) (s.drop n)
  have hplace := offsetOf_append (s.take n) (s.drop n)
  have hkept := clampOffset_nativeLen (s.take n) (s.drop n)
  rw [hwhole] at hparts hplace hkept
  exact ⟨hparts, hparts ▸ hwhole, hparts ▸ rfl, hparts ▸ hplace, hkept⟩

/-- There is an offset of `n` elements exactly if there are so many, and it is their
width. -/
theorem offsetAt_eq_some_iff {n offset : Nat} {s : List ε} :
    offsetAt n s = some offset ↔ n ≤ s.length ∧ nativeLen (s.take n) = offset := by
  rw [offsetAt_eq]
  split
  next h => simp [h]
  next h => simp [h]

theorem cutsAt_of_offsetAt {n offset : Nat} {s : List ε} (h : offsetAt n s = some offset) :
    CutsAt s n offset :=
  (offsetAt_eq_some_iff.mp h).2 ▸ cutsAt_take s n

theorem isSome_offsetAt (n : Nat) (s : List ε) : (offsetAt n s).isSome ↔ n ≤ s.length := by
  rw [offsetAt_eq]
  split
  next h => simp [h]
  next h => simp [h]

/-- The offset of more elements is greater. -/
theorem offsetAt_lt_offsetAt {m n offset offset' : Nat} {s : List ε} (hmn : m < n)
    (hm : offsetAt m s = some offset) (hn : offsetAt n s = some offset') : offset < offset' := by
  obtain ⟨-, rfl⟩ := offsetAt_eq_some_iff.mp hm
  obtain ⟨hlength, rfl⟩ := offsetAt_eq_some_iff.mp hn
  -- between the two there is at least one element
  obtain ⟨more, rfl⟩ := Nat.exists_eq_add_of_lt hmn
  rw [Nat.add_assoc, List.take_add, nativeLen_append]
  have hbetween := length_le_nativeLen ((s.drop m).take (more + 1))
  rw [List.length_take, List.length_drop] at hbetween
  omega

/-- The offset of a suffix of a suffix. -/
theorem offsetOf_add {s t r : List ε} (ht : t <:+ s) (hr : r <:+ t) :
    offsetOf s r = offsetOf s t + offsetOf t r := by
  have hfirst := offsetOf_add_nativeLen ht
  have hsecond := offsetOf_add_nativeLen hr
  have hboth := offsetOf_add_nativeLen (hr.trans ht)
  omega

/-- Where each element takes one unit, an offset is a count. -/
theorem offsetAt_of_unit (hunit : ∀ e : ε, width e = 1) (n : Nat) (s : List ε) :
    offsetAt n s = if n ≤ s.length then some n else none := by
  rw [offsetAt_eq, nativeLen_of_unit hunit, List.length_take]
  split
  next h => rw [Nat.min_eq_left h]
  next => rfl

end Sequence

/-! ## §3. Taking elements. -/

namespace Parser

open Sequence

variable {ε : Type} [Element ε]

/-- Taking twice fails where there are not enough elements any more. -/
theorem pair_take_take (m n : Nat) (s : List ε) :
    pair (take m) (take n) s =
      if m + n ≤ s.length then .ok (s.drop (m + n)) (s.take m, (s.drop m).take n)
      else .fail ⟨if m ≤ s.length then s.drop m else s, .eof⟩ := by
  rw [pair, take_apply]
  by_cases hm : m ≤ s.length
  · rw [if_pos hm, if_pos hm, Reply.andThen_ok, take_apply, List.length_drop, List.drop_drop]
    by_cases hn : m + n ≤ s.length
    · rw [if_pos hn, if_pos (by omega), Reply.andThen_ok]
    · rw [if_neg hn, if_neg (by omega), Reply.andThen_fail]
  · rw [if_neg hm, if_neg hm, if_neg (by omega), Reply.andThen_fail]

/-- Taking twice cuts where taking all at once does. -/
theorem take_add_eq_ok_iff {m n : Nat} {s rest both : List ε} :
    take (m + n) s = .ok rest both ↔
      ∃ first second, pair (take m) (take n) s = .ok rest (first, second) ∧
        first ++ second = both := by
  rw [pair_take_take, take_apply, List.take_add]
  split
  next =>
    constructor
    · intro h
      cases h
      exact ⟨_, _, rfl, rfl⟩
    · rintro ⟨first, second, hpair, rfl⟩
      cases hpair
      rfl
  next => simp

/-! ## §4. All together. -/

/-- **Counts and offsets agree.**  A count has an offset if there are so many elements,
whether it is found on the sequence or along its indices.  The offset is that of a cut
into the elements counted and the rest, it can be told from either of them, and clamping
keeps it.  Each element stands among the indices with the offset of its index.  A greater
count has a greater offset, and only the empty sequence has no width.  From a sequence to
a suffix of a suffix it is as far as to the suffix and from there.  Where each element
takes one unit, an offset is the count itself.

So taking elements yields the first ones if there are so many, and fails in front of all of
them otherwise; and taking twice cuts where taking all at once does. -/
theorem counts_and_offsets_agree (s : List ε) :
    (∀ n, ((offsetAt n s).isSome ↔ n ≤ s.length) ∧
      seek n (nativeLen s) 0 (elementIndices s) = offsetAt n s) ∧
    (∀ n offset, offsetAt n s = some offset → CutsAt s n offset) ∧
    (elementIndices s).length = s.length ∧
    (∀ i (hi : i < s.length),
      ∃ offset, offsetAt i s = some offset ∧ (elementIndices s)[i]? = some (offset, s[i])) ∧
    (∀ m n offset offset', m < n → offsetAt m s = some offset → offsetAt n s = some offset' →
      offset < offset') ∧
    (nativeLen s = 0 ↔ s.length = 0) ∧
    (∀ t r, t <:+ s → r <:+ t → offsetOf s r = offsetOf s t + offsetOf t r) ∧
    ((∀ e : ε, Element.width e = 1) → nativeLen s = s.length ∧
      ∀ n, offsetAt n s = if n ≤ s.length then some n else none) ∧
    (∀ n, take n s = if n ≤ s.length then .ok (s.drop n) (s.take n) else .fail ⟨s, .eof⟩) ∧
    (∀ m n rest both, take (m + n) s = .ok rest both ↔
      ∃ first second, pair (take m) (take n) s = .ok rest (first, second) ∧
        first ++ second = both) := by
  refine ⟨fun n => ⟨isSome_offsetAt n s, seek_elementIndices n s⟩,
    fun n offset => cutsAt_of_offsetAt, length_elementIndices s,
    fun i => getElem?_elementIndices, fun m n offset offset' => offsetAt_lt_offsetAt, ?_,
    fun t r => offsetOf_add, fun hunit => ⟨nativeLen_of_unit hunit s, fun n =>
      offsetAt_of_unit hunit n s⟩, fun n => take_apply n s, fun m n rest both =>
      take_add_eq_ok_iff⟩
  exact nativeLen_eq_zero_iff.trans List.length_eq_zero_iff.symm

/-- A text with an element of two units, and one without. -/
theorem counts_and_offsets_of_accent :
    (offsetAt 2 ['h', 'é', 'l'] = some 3 ∧ CutsAt ['h', 'é', 'l'] 2 3) ∧
    (∃ offset, offsetAt 2 ['h', 'é', 'l'] = some offset ∧
      (elementIndices ['h', 'é', 'l'])[2]? = some (offset, 'l')) ∧
    (offsetAt 1 ['h', 'é', 'l'] = some 1 ∧ 1 < 3) ∧
    (['é', 'l'] <:+ ['h', 'é', 'l'] ∧ ['l'] <:+ ['é', 'l'] ∧
      offsetOf ['h', 'é', 'l'] ['l'] = offsetOf ['h', 'é', 'l'] ['é', 'l'] +
        offsetOf ['é', 'l'] ['l']) ∧
    ((∀ b : UInt8, Element.width b = 1) ∧ nativeLen ([104, 233, 108] : List UInt8) = 3) := by
  obtain ⟨-, hcuts, -, hindices, hincreasing, -, hsuffixes, -⟩ :=
    counts_and_offsets_agree ['h', 'é', 'l']
  obtain ⟨-, -, -, -, -, -, -, hunits, -⟩ :=
    counts_and_offsets_agree ([104, 233, 108] : List UInt8)
  have hfirst : ['é', 'l'] <:+ ['h', 'é', 'l'] := List.suffix_cons _ _
  have hsecond : ['l'] <:+ ['é', 'l'] := List.suffix_cons _ _
  exact ⟨⟨rfl, hcuts 2 3 rfl⟩, hindices 2 (by decide),
    ⟨rfl, hincreasing 1 2 1 3 (by decide) rfl rfl⟩,
    ⟨hfirst, hsecond, hsuffixes _ _ hfirst hsecond⟩, fun _ => rfl, (hunits fun _ => rfl).1⟩

end Parser

end Parsing
