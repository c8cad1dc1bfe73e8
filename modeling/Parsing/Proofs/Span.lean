/-
  Parsing.Proofs.Span — THE SPAN PARSERS AS OPERATIONS ON LISTS.

  The parsers that take a stretch of the input compute an offset and cut there.
  Here each of them is given by one equation that mentions no offset: it takes
  a prefix, which `List.take`, `List.takeWhile` or a literal names, and leaves
  what follows.  Whatever is proved about these parsers is proved from these
  equations.

  Main statements: `take_apply`, `takeWhile_apply`, `takeWhileSome_apply`,
  `takeWhileBounded_apply`, `tag_apply`, `takeUntil_apply`, `element_nil`,
  `element_cons`, `char_cons_self` and `char_of_head?_ne`.
-/
import Parsing.Parser.Span
import Parsing.Proofs.Boundary

namespace Parsing

/-- A stretch in front of something else is all that is taken of it. -/
theorem span_append {α : Type} {p : α → Bool} {s t : List α} (hs : ∀ a ∈ s, p a = true)
    (ht : ∀ a ∈ t.head?, p a = false) :
    (s ++ t).takeWhile p = s ∧ (s ++ t).dropWhile p = t := by
  rw [List.takeWhile_append_of_pos hs, List.dropWhile_append_of_pos hs]
  cases t with
  | nil => simp
  | cons a t => simp [ht a rfl]

namespace Parser

variable {ε : Type} [Element ε]

/-! ## §1. So many elements. -/

/-- A cut at the width of a prefix takes the prefix. -/
@[simp] theorem cutAt_nativeLen (s t : List ε) :
    cutAt (Sequence.nativeLen s) (s ++ t) = .ok t s := by
  rw [cutAt, Sequence.splitAt_nativeLen]

/-- So many elements are split off if there are so many. -/
theorem take_apply (n : Nat) (s : List ε) :
    take n s = if n ≤ s.length then .ok (s.drop n) (s.take n) else .fail ⟨s, .eof⟩ := by
  rw [take, Sequence.take?_eq]
  by_cases h : n ≤ s.length
  · rw [if_pos h, if_pos h]
  · rw [if_neg h, if_neg h]

/-- Taking as many elements as a prefix has takes the prefix. -/
theorem take_append (s t : List ε) : take s.length (s ++ t) = .ok t s := by
  rw [take_apply, if_pos (by simp), List.drop_left, List.take_left]

theorem rest_apply (s : List ε) : rest s = .ok [] s := by
  rw [rest, Sequence.splitAt_self]

/-! ## §2. As long as a predicate holds. -/

/-- The scan counts the width of the longest stretch. -/
theorem spanWhile_eq (p : ε → Bool) (s : List ε) :
    Sequence.spanWhile p s = Sequence.nativeLen (s.takeWhile p) := by
  induction s with
  | nil => rfl
  | cons e s ih =>
    rw [Sequence.spanWhile, List.takeWhile_cons]
    split
    next => rw [ih, Sequence.nativeLen_cons]
    next => rfl

/-- To cut there is to split off that stretch. -/
theorem cutAt_spanWhile (p : ε → Bool) (s : List ε) :
    cutAt (Sequence.spanWhile p s) s = .ok (s.dropWhile p) (s.takeWhile p) := by
  have h := cutAt_nativeLen (s.takeWhile p) (s.dropWhile p)
  rw [List.takeWhile_append_dropWhile] at h
  rw [spanWhile_eq, h]

/-- The parser splits it off, and never fails. -/
theorem takeWhile_apply (p : ε → Bool) (s : List ε) :
    takeWhile p s = .ok (s.dropWhile p) (s.takeWhile p) :=
  cutAt_spanWhile p s

/-- An empty stretch is a failure in front of it. -/
theorem takeWhileSome_apply (kind : Kind) (p : ε → Bool) (s : List ε) :
    takeWhileSome kind p s =
      if s.takeWhile p = [] then .fail ⟨s, kind⟩ else .ok (s.dropWhile p) (s.takeWhile p) := by
  simp only [takeWhileSome, cutAt_spanWhile]
  rw [spanWhile_eq]
  simp only [Sequence.nativeLen_eq_zero_iff]

/-- The stretch is looked for in so many elements only, and is a failure if it is too
short. -/
theorem takeWhileBounded_apply (lower upper : Nat) (p : ε → Bool) (s : List ε) :
    takeWhileBounded lower upper p s =
      if ((s.take upper).takeWhile p).length < lower then .fail ⟨s, .takeWhileBounded⟩
      else
        .ok (s.drop ((s.take upper).takeWhile p).length) ((s.take upper).takeWhile p) := by
  have hprefix : (s.take upper).takeWhile p <+: s :=
    (List.takeWhile_prefix p).trans (List.take_prefix upper s)
  obtain ⟨t, ht⟩ := hprefix
  rw [takeWhileBounded]
  generalize (s.take upper).takeWhile p = found at ht
  subst ht
  have hoffset : Sequence.offsetAt found.length (found ++ t) =
      some (Sequence.nativeLen found) := by
    rw [Sequence.offsetAt_eq, if_pos (by simp), List.take_left]
  rw [hoffset, Option.getD_some, cutAt_nativeLen, List.drop_left]

variable [DecidableEq ε]

theorem isA_apply (set s : List ε) :
    isA set s =
      if s.takeWhile (fun e => set.any (· == e)) = [] then .fail ⟨s, .isA⟩
      else
        .ok (s.dropWhile fun e => set.any (· == e)) (s.takeWhile fun e => set.any (· == e)) := by
  rw [isA, mapKind, mapErr, takeWhile1, takeWhileSome_apply]
  split <;> rfl

theorem isNot_apply (set s : List ε) :
    isNot set s =
      if s.takeWhile (fun e => set.all (· != e)) = [] then .fail ⟨s, .isNot⟩
      else
        .ok (s.dropWhile fun e => set.all (· != e)) (s.takeWhile fun e => set.all (· != e)) := by
  rw [isNot, mapKind, mapErr, takeWhile1, takeWhileSome_apply]
  split <;> rfl

/-! ## §3. Literals. -/

/-- A literal matches exactly the sequences that begin with it. -/
theorem tag_apply (literal s : List ε) :
    tag literal s =
      if literal <+: s then .ok (s.drop literal.length) literal else .fail ⟨s, .tag⟩ := by
  rw [tag, mapKind, mapErr, take_apply]
  by_cases h : literal <+: s
  · obtain ⟨t, rfl⟩ := h
    simp
  · rw [if_neg h]
    split
    next hle =>
      have hne : s.take literal.length ≠ literal := fun heq =>
        h (List.prefix_iff_eq_take.mpr heq.symm)
      rw [Reply.mapError_ok, Reply.andThen_ok, if_neg hne]
    next => rfl

theorem tag_append (literal t : List ε) : tag literal (literal ++ t) = .ok t literal := by
  rw [tag_apply, if_pos (List.prefix_append literal t), List.drop_left]

/-- A literal is found exactly where it is a prefix. -/
theorem isOk_tag (literal s : List ε) : (tag literal s).isOk = decide (literal <+: s) := by
  rw [tag_apply]
  split
  next h => rw [decide_eq_true h]; rfl
  next h => rw [decide_eq_false h]; rfl

omit [Element ε] [DecidableEq ε] in
/-- The parts of a sequence around the first place, before its end, from which
on it satisfies `p`. -/
def splitBefore? (p : List ε → Bool) : List ε → Option (List ε × List ε)
  | [] => none
  | e :: s =>
      if p (e :: s) then some ([], e :: s)
      else (splitBefore? p s).map fun parts => (e :: parts.1, parts.2)

omit [Element ε] [DecidableEq ε] in
/-- A split loses nothing of its input. -/
theorem append_of_splitBefore? {p : List ε → Bool} {s a b : List ε}
    (h : splitBefore? p s = some (a, b)) : a ++ b = s := by
  induction s generalizing a b with
  | nil => cases h
  | cons e s ih =>
    rw [splitBefore?] at h
    split at h
    next =>
      cases h
      rfl
    next =>
      obtain ⟨⟨a', b'⟩, hparts, heq⟩ := Option.map_eq_some_iff.mp h
      cases heq
      rw [List.cons_append, ih hparts]

omit [DecidableEq ε] in
/-- The search gives the width of what is in front of the split. -/
theorem findOffset?_eq (p : List ε → Bool) (s : List ε) :
    Sequence.findOffset? p s = (splitBefore? p s).map fun parts => Sequence.nativeLen parts.1 := by
  induction s with
  | nil => rfl
  | cons e s ih =>
    rw [Sequence.findOffset?, splitBefore?]
    split
    next => rfl
    next =>
      rw [ih, Option.map_map, Option.map_map]
      rfl

/-- The parser splits in front of the first place where the literal is. -/
theorem takeUntil_apply (literal s : List ε) :
    takeUntil literal s =
      match splitBefore? (fun t => decide (literal <+: t)) s with
      | none => .fail ⟨s, .takeUntil⟩
      | some (a, b) => .ok b a := by
  simp only [takeUntil, isOk_tag, findOffset?_eq]
  cases h : splitBefore? (fun t => decide (literal <+: t)) s with
  | none => rfl
  | some parts =>
    show cutAt (Sequence.nativeLen parts.1) s = _
    rw [← append_of_splitBefore? h, cutAt_nativeLen]

theorem takeUntil1_apply (literal s : List ε) :
    takeUntil1 literal s =
      match splitBefore? (fun t => decide (literal <+: t)) s with
      | none => .fail ⟨s, .takeUntil⟩
      | some (a, b) => if a = [] then .fail ⟨s, .takeUntil⟩ else .ok b a := by
  simp only [takeUntil1, isOk_tag, findOffset?_eq]
  cases h : splitBefore? (fun t => decide (literal <+: t)) s with
  | none => rfl
  | some parts =>
    show (if Sequence.nativeLen parts.1 = 0 then _ else cutAt (Sequence.nativeLen parts.1) s) = _
    rw [← append_of_splitBefore? h, cutAt_nativeLen]
    simp only [Sequence.nativeLen_eq_zero_iff]

/-! ## §4. One element. -/

omit [DecidableEq ε] in
theorem element_nil (kind : Kind) (p : ε → Bool) : element kind p [] = .fail ⟨[], kind⟩ := by
  rw [element, mapKind, mapErr, take_apply]
  rfl

omit [DecidableEq ε] in
theorem element_cons (kind : Kind) (p : ε → Bool) (e : ε) (s : List ε) :
    element kind p (e :: s) = if p e then .ok s e else .fail ⟨e :: s, kind⟩ := by
  rw [element, mapKind, mapErr, take_apply, if_pos (by simp)]
  simp

/-- A given element is taken where it is in front. -/
theorem char_cons_self (e : ε) (s : List ε) : char e (e :: s) = .ok s e := by
  rw [char, element_cons, if_pos (beq_self_eq_true e)]

/-- It fails where another one is, and at the end. -/
theorem char_of_head?_ne {e : ε} {s : List ε} (hs : s.head? ≠ some e) :
    char e s = .fail ⟨s, .char⟩ := by
  cases s with
  | nil => exact element_nil .char _
  | cons first s =>
    have hfirst : first ≠ e := by simpa using hs
    rw [char, element_cons, if_neg (by simpa using hfirst)]

end Parser

end Parsing
