/-
  Parsing.Proofs.Checked.Basic — OPERATIONS THAT CAN FAULT.

  A cut has a meaning only at the width of a prefix.  `Sequence.splitAt` gives
  something everywhere, and nothing may depend on what it gives elsewhere.
  Here the same operations are carried out with checks: a cut behind the end or
  inside an element is a *fault*, and so is a step down from the offset zero in
  the search for a boundary, and a count that goes past its limit.  A fault
  ends everything; nothing goes on after it.

  The checked operations compute offsets as they are found, by going down from
  a number to the next boundary (`descend`), and cut at the offset found.  Each
  of them is shown to come to the unchecked one, without a fault, whatever the
  sequences are that the offset is told from.

  Main statements:
    * `split_eq_ok_iff` — a checked cut succeeds at the width of a prefix, and
      nowhere else;
    * `clamp_eq` — the search for a boundary always ends at one;
    * `consumed_eq`, `rebase_eq`, `location_eq`, `report_eq`.
-/
import Parsing.Proofs.Boundary
import Parsing.Report

namespace Parsing

/-- Why an operation has no meaning where it is carried out. -/
inductive Fault where
  /-- A cut behind the end. -/
  | beyondEnd
  /-- A cut inside an element. -/
  | insideElement
  /-- A step down from zero. -/
  | belowZero
  /-- A count past its limit. -/
  | pastLimit
  deriving DecidableEq

/-- A result, or a fault. -/
abbrev Checked (α : Type) := Except Fault α

namespace Checked

/-- After a result the work goes on with it. -/
@[simp] theorem ok_bind {α β : Type} (a : α) (next : α → Checked β) :
    ((.ok a : Checked α) >>= next) = next a := rfl

variable {ε : Type} [Element ε]

open Sequence (nativeLen cut? offsetAt)

/-! ## §1. Cutting. -/

/-- Whether an offset lies between two elements, or at either end. -/
def isBoundary (s : List ε) (offset : Nat) : Bool := (cut? s offset).isSome

/-- Cuts a sequence at an offset that has to be a boundary of it. -/
def split (s : List ε) (offset : Nat) : Checked (List ε × List ε) :=
  if nativeLen s < offset then .error .beyondEnd
  else
    match cut? s offset with
    | some parts => .ok parts
    | none => .error .insideElement

/-- The two parts of a cut make up the whole, and the first one is as wide as the offset
says. -/
theorem append_of_cut? {s : List ε} {offset : Nat} {parts : List ε × List ε}
    (h : cut? s offset = some parts) : parts.1 ++ parts.2 = s ∧ nativeLen parts.1 = offset := by
  induction s generalizing offset parts with
  | nil =>
    cases offset with
    | zero =>
      cases h
      exact ⟨rfl, rfl⟩
    | succ offset => cases h
  | cons e s ih =>
    cases offset with
    | zero =>
      cases h
      exact ⟨rfl, rfl⟩
    | succ offset =>
      rw [cut?] at h
      split at h
      -- the first element lies in front of the cut, so the cut is made in the others
      next hle =>
        obtain ⟨later, hlater, rfl⟩ := Option.map_eq_some_iff.mp h
        obtain ⟨happend, hwidth⟩ := ih hlater
        refine ⟨by rw [← happend]; rfl, ?_⟩
        rw [Sequence.nativeLen_cons, hwidth]
        omega
      next => cases h

/-- The boundaries are the widths of the prefixes. -/
theorem isBoundary_iff {s : List ε} {offset : Nat} :
    isBoundary s offset = true ↔ ∃ p t, s = p ++ t ∧ nativeLen p = offset := by
  constructor
  · intro h
    obtain ⟨parts, hparts⟩ := Option.isSome_iff_exists.mp h
    obtain ⟨happend, hwidth⟩ := append_of_cut? hparts
    exact ⟨parts.1, parts.2, happend.symm, hwidth⟩
  · rintro ⟨p, t, rfl, rfl⟩
    rw [isBoundary, Sequence.cut?_nativeLen]
    rfl

/-- A cut at the width of a prefix does not fault. -/
@[simp] theorem split_nativeLen (s t : List ε) : split (s ++ t) (nativeLen s) = .ok (s, t) := by
  have hle : ¬ nativeLen (s ++ t) < nativeLen s := by
    rw [Sequence.nativeLen_append]
    omega
  rw [split, if_neg hle, Sequence.cut?_nativeLen]

/-- **A checked cut succeeds exactly at an offset that is no greater than the
width of the sequence and falls between its elements.** -/
theorem split_eq_ok_iff {s : List ε} {offset : Nat} {parts : List ε × List ε} :
    split s offset = .ok parts ↔
      offset ≤ nativeLen s ∧ isBoundary s offset = true ∧ parts = Sequence.splitAt s offset := by
  constructor
  · intro h
    -- the range is checked first, and then that the offset is a boundary
    unfold split at h
    split at h
    next => cases h
    next hle =>
      split at h
      next parts' hcut =>
        cases h
        refine ⟨by omega, by rw [isBoundary, hcut]; rfl, ?_⟩
        rw [Sequence.splitAt, hcut]
        rfl
      next => cases h
  · rintro ⟨_, hboundary, rfl⟩
    obtain ⟨p, t, rfl, rfl⟩ := isBoundary_iff.mp hboundary
    rw [split_nativeLen, Sequence.splitAt_nativeLen]

/-- A cut has a result exactly at the width of a prefix. -/
theorem split_succeeds_iff {s : List ε} {offset : Nat} :
    (∃ parts, split s offset = .ok parts) ↔
      offset ≤ nativeLen s ∧ ∃ p t, s = p ++ t ∧ nativeLen p = offset := by
  constructor
  · rintro ⟨parts, hparts⟩
    obtain ⟨hle, hboundary, _⟩ := split_eq_ok_iff.mp hparts
    exact ⟨hle, isBoundary_iff.mp hboundary⟩
  · rintro ⟨hle, hboundary⟩
    exact ⟨_, split_eq_ok_iff.mpr ⟨hle, isBoundary_iff.mpr hboundary, rfl⟩⟩

/-- A text of one accent, which is two bytes wide, has no cut after one byte, nor
after three. -/
example : split ['é'] 1 = .error .insideElement ∧ split ['é'] 3 = .error .beyondEnd := ⟨rfl, rfl⟩

/-! ## §2. The boundary below an offset. -/

/-- The greatest boundary from an offset on down. -/
def descend (s : List ε) : (offset : Nat) → Checked Nat
  | 0 => if isBoundary s 0 then .ok 0 else .error .belowZero
  | offset + 1 => if isBoundary s (offset + 1) then .ok (offset + 1) else descend s offset

/-- The greatest boundary that is not past an offset, nor past the end. -/
def clamp (s : List ε) (offset : Nat) : Checked Nat := descend s (min offset (nativeLen s))

/-- From a boundary there is no way down to go. -/
theorem descend_of_boundary {s : List ε} {offset : Nat} (h : isBoundary s offset = true) :
    descend s offset = .ok offset := by
  cases offset with
  | zero => rw [descend, if_pos h]
  | succ offset => rw [descend, if_pos h]

/-- Between two boundaries next to each other, the way down leads to the lower one. -/
theorem descend_between {s : List ε} {lower : Nat} (hlower : isBoundary s lower = true)
    (steps : Nat) (hnone : ∀ k, 0 < k → k ≤ steps → isBoundary s (lower + k) = false) :
    descend s (lower + steps) = .ok lower := by
  induction steps with
  | zero => exact descend_of_boundary hlower
  | succ steps ih =>
    have hnot : ¬ isBoundary s (lower + steps + 1) = true := by
      rw [Nat.add_assoc, hnone (steps + 1) (Nat.succ_pos _) (Nat.le_refl _)]
      exact Bool.false_ne_true
    rw [← Nat.add_assoc, descend, if_neg hnot]
    exact ih fun k hpos hk => hnone k hpos (Nat.le_succ_of_le hk)

/-- No boundary lies inside the element behind a prefix. -/
theorem not_isBoundary_inside (p t : List ε) (e : ε) {k : Nat} (hpos : 0 < k)
    (hk : k < Element.width e) : isBoundary (p ++ e :: t) (nativeLen p + k) = false := by
  rw [← Bool.not_eq_true]
  intro h
  obtain ⟨q, u, happend, hwidth⟩ := isBoundary_iff.mp h
  rcases List.append_eq_append_iff.mp happend with ⟨more, rfl, hrest⟩ | ⟨more, rfl, _⟩
  · -- the prefix of that width is longer than `p`, so it has all of `e`
    rw [Sequence.nativeLen_append] at hwidth
    cases more with
    | nil =>
      rw [Sequence.nativeLen_nil] at hwidth
      omega
    | cons e' more =>
      obtain ⟨rfl, _⟩ := List.cons.inj hrest
      rw [Sequence.nativeLen_cons] at hwidth
      omega
  · rw [Sequence.nativeLen_append] at hwidth
    omega

/-- **The way down from any offset ends at a boundary, and never goes below
zero.** -/
theorem clamp_eq (s : List ε) (offset : Nat) :
    clamp s offset = .ok (Sequence.clampOffset s offset) := by
  obtain ⟨p, t, rfl, hp, hle, hlongest⟩ := Sequence.clampOffset_spec s offset
  have hboundary : isBoundary (p ++ t) (nativeLen p) = true := isBoundary_iff.mpr ⟨p, t, rfl, rfl⟩
  rw [clamp, hp, Sequence.nativeLen_append]
  cases t with
  | nil =>
    have hmin : min offset (nativeLen p + nativeLen ([] : List ε)) = nativeLen p := by
      rw [Sequence.nativeLen_nil]
      omega
    rw [hmin]
    exact descend_of_boundary hboundary
  | cons e t =>
    have hlt := hlongest e t rfl
    have hmin : min offset (nativeLen p + nativeLen (e :: t)) =
        nativeLen p + (offset - nativeLen p) := by
      rw [Sequence.nativeLen_cons]
      omega
    rw [hmin]
    -- downwards from inside the element behind the prefix, the prefix is the first boundary
    apply descend_between hboundary
    intro k hpos hk
    exact not_isBoundary_inside p t e hpos (by omega)

/-- A cut at a clamped offset is made between elements. -/
theorem split_clampOffset (s : List ε) (offset : Nat) :
    split s (Sequence.clampOffset s offset) =
      .ok (Sequence.splitAt s (Sequence.clampOffset s offset)) := by
  obtain ⟨p, t, rfl, hp⟩ := Sequence.clampOffset_eq s offset
  rw [hp, split_nativeLen, Sequence.splitAt_nativeLen]

/-! ## §3. Distances, and what was used up. -/

/-- The distance from the start of `s` to `rest`. -/
def offsetOf (s rest : List ε) : Checked Nat := clamp s (nativeLen s - nativeLen rest)

/-- What of `original` was used up to get to `rest`. -/
def consumed (original rest : List ε) : Checked (List ε) := do
  let offset ← offsetOf original rest
  let parts ← split original offset
  return parts.1

/-- The first `n` elements and what follows them, if there are that many. -/
def take? (s : List ε) (n : Nat) : Checked (Option (List ε × List ε)) :=
  match offsetAt n s with
  | some offset => do return some (← split s offset)
  | none => .ok none

/-- The first element and what follows it. -/
def next? (s : List ε) : Checked (Option (ε × List ε)) :=
  match s.head? with
  | some e => do return (← take? s 1).map fun parts => (e, parts.2)
  | none => .ok none

/-- The place of a rest is found without a fault, whatever the rest is. -/
theorem offsetOf_eq (s rest : List ε) : offsetOf s rest = .ok (Sequence.offsetOf s rest) :=
  clamp_eq s _

/-- Whatever is given as the rest, what was used up is cut off between elements. -/
theorem consumed_eq (original rest : List ε) :
    consumed original rest = .ok (Sequence.consumed original rest) := by
  have hcut : split original (Sequence.offsetOf original rest) =
      .ok (Sequence.splitAt original (Sequence.offsetOf original rest)) :=
    split_clampOffset original _
  unfold consumed
  rw [offsetOf_eq, ok_bind, hcut]
  rfl

/-- Counting off elements ends at a boundary, so the cut there does not fault. -/
theorem take?_eq (s : List ε) (n : Nat) : take? s n = .ok (Sequence.take? s n) := by
  unfold take? Sequence.take?
  rw [Sequence.offsetAt_eq]
  by_cases hn : n ≤ s.length
  -- the offset of `n` elements is the width of the prefix that they form
  · have hcut := split_nativeLen (s.take n) (s.drop n)
    have hsplit := Sequence.splitAt_nativeLen (s.take n) (s.drop n)
    rw [List.take_append_drop] at hcut hsplit
    rw [if_pos hn]
    dsimp only
    rw [hcut, Option.map_some, hsplit]
    rfl
  · rw [if_neg hn]
    rfl

/-- The first element is cut off without a fault. -/
theorem next?_eq (s : List ε) : next? s = .ok (Sequence.next? s) := by
  unfold next? Sequence.next?
  cases s with
  | nil => rfl
  | cons e s =>
    rw [take?_eq]
    cases Sequence.take? (e :: s) 1 <;> rfl

/-! ## §4. Errors and their places. -/

/-- A failure inside `view`, told as one inside `outer`. -/
def rebase (view outer : List ε) (error : ParseError ε) : Checked (ParseError ε) := do
  let distance ← offsetOf view error.rest
  let offset ← clamp outer distance
  let parts ← split outer offset
  return ⟨parts.2, error.kind⟩

/-- Whatever the sequences and the error are, it is told as one between elements. -/
theorem rebase_eq (view outer : List ε) (error : ParseError ε) :
    rebase view outer error = .ok (error.rebase view outer) := by
  unfold rebase
  rw [offsetOf_eq, ok_bind, clamp_eq, ok_bind, split_clampOffset]
  rfl

variable [CharLike ε]

/-- The place of `rest` in `original`. -/
def locate (original rest : List ε) : Checked Position := do
  let used ← consumed original rest
  return Position.start.after used

/-- Where in `original` an error happened. -/
def location (error : ParseError ε) (original : List ε) : Checked Location := do
  let place ← locate original error.rest
  let offset ← offsetOf original error.rest
  return { line := place.line, column := place.column, offset := offset }

/-- The report on an error within the input it happened in. -/
def report (error : ParseError ε) (original : List ε) : Checked String := do
  let place ← location error original
  return Report.render error.kind place (CharLike.render original)

/-- Line and column are counted without a fault. -/
theorem locate_eq (original rest : List ε) :
    locate original rest = .ok (Position.locate original rest) := by
  unfold locate
  rw [consumed_eq]
  rfl

/-- The place of an error is told without a fault, also in an input that it did not
happen in. -/
theorem location_eq (error : ParseError ε) (original : List ε) :
    location error original = .ok (error.location original) := by
  unfold location
  rw [locate_eq, offsetOf_eq]
  rfl

/-- A report is written without a fault, also on an input that the error did not happen
in. -/
theorem report_eq (error : ParseError ε) (original : List ε) :
    report error original = .ok (error.report original) := by
  unfold report
  rw [location_eq]
  rfl

end Checked

end Parsing
