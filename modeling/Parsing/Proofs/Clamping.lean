/-
  Parsing.Proofs.Clamping — THE BOUNDARY NEAREST BELOW ANY OFFSET.

  An offset that somebody made up need not be a boundary, and what is given as a
  rest need not be one.  Offsets are clamped before anything is cut at them, and
  clamping is as good as it can be: of the boundaries that are not past the offset
  it yields the greatest.  All else follows from that, and not from how the
  boundary is found: greater offsets have greater boundaries, and a boundary is
  kept.

  So a place can be told from any two sequences.  If the one is as wide as the
  other or wider, it is the start; and the less there is left, the more was used up.

  Main statements:
    * `isGreatest_clampOffset` — the boundary found is the greatest;
    * `clampOffset_mono`, `clampOffset_clampOffset` — clamping is monotone and
      idempotent;
    * `consumed_prefix_consumed` — what was used up of one sequence by way of two
      rests;
    * `isBoundary_iff_isValid` — in a text, boundaries are those of its UTF-8 form;
    * `clamping_is_greatest_boundary`, which puts these together.
-/
import Mathlib.Order.Bounds.Basic
import Parsing.Proofs.Checked.Basic
import Parsing.Proofs.Offsets

namespace Parsing

namespace Sequence

variable {ε : Type} [Element ε] {s p q : List ε} {b o o' : Nat}

open Checked (isBoundary isBoundary_iff)

/-! ## §1. Prefixes by their widths. -/

/-- Of two prefixes of one sequence, the less wide is a prefix of the other. -/
theorem prefix_of_nativeLen_le (hp : p <+: s) (hq : q <+: s) (hle : nativeLen p ≤ nativeLen q) :
    p <+: q := by
  rcases List.prefix_or_prefix_of_prefix hp hq with hpq | ⟨more, rfl⟩
  · exact hpq
  · -- what `p` has more than `q` takes no unit
    rw [nativeLen_append] at hle
    obtain rfl : more = [] := nativeLen_eq_zero_iff.mp (by omega)
    exact ⟨[], by rw [List.append_nil, List.append_nil]⟩

/-- The width of a prefix is a boundary. -/
theorem isBoundary_nativeLen (hp : p <+: s) : isBoundary s (nativeLen p) = true := by
  obtain ⟨t, rfl⟩ := hp
  exact isBoundary_iff.mpr ⟨p, t, rfl, rfl⟩

/-! ## §2. The greatest boundary. -/

/-- No boundary that is not past the offset lies above the one found. -/
theorem le_clampOffset (hb : isBoundary s b = true) (hle : b ≤ o) : b ≤ clampOffset s o := by
  obtain ⟨q, u, hq, rfl⟩ := isBoundary_iff.mp hb
  obtain ⟨p, t, hp, hclamp, -, hlongest⟩ := clampOffset_spec s o
  rw [hclamp]
  refine Nat.le_of_not_lt fun hlt => ?_
  -- a wider prefix has an element more, and with it is past the offset
  obtain ⟨more, rfl⟩ :=
    prefix_of_nativeLen_le ⟨t, hp.symm⟩ ⟨u, hq.symm⟩ (Nat.le_of_lt hlt)
  rw [nativeLen_append] at hle hlt
  cases more with
  | nil => exact absurd hlt (Nat.lt_irrefl _)
  | cons e more =>
    have htail : t = e :: (more ++ u) := by
      rw [hp, List.append_assoc] at hq
      exact List.append_cancel_left hq
    have hpast := hlongest e _ htail
    rw [nativeLen_cons] at hle
    omega

/-- **Clamping yields the greatest boundary that is not past an offset.** -/
theorem isGreatest_clampOffset (s : List ε) (o : Nat) :
    IsGreatest {b | isBoundary s b = true ∧ b ≤ o} (clampOffset s o) := by
  refine ⟨?_, fun b ⟨hb, hle⟩ => le_clampOffset hb hle⟩
  obtain ⟨p, t, rfl, hclamp, hle, -⟩ := clampOffset_spec s o
  rw [hclamp]
  exact ⟨isBoundary_nativeLen (List.prefix_append p t), hle⟩

/-- A greater offset has no smaller boundary. -/
theorem clampOffset_mono (s : List ε) : Monotone (clampOffset s) := fun o o' ho =>
  (isGreatest_clampOffset s o).mono (isGreatest_clampOffset s o') fun _ ⟨hb, hle⟩ =>
    ⟨hb, Nat.le_trans hle ho⟩

/-- A boundary is kept. -/
theorem clampOffset_of_isBoundary (hb : isBoundary s b = true) : clampOffset s b = b :=
  Nat.le_antisymm (isGreatest_clampOffset s b).1.2 (le_clampOffset hb (Nat.le_refl b))

/-- Clamping twice is clamping once. -/
theorem clampOffset_clampOffset (s : List ε) (o : Nat) :
    clampOffset s (clampOffset s o) = clampOffset s o :=
  clampOffset_of_isBoundary (isGreatest_clampOffset s o).1.1

/-- Clamping never goes past the end. -/
theorem clampOffset_le_nativeLen (s : List ε) (o : Nat) : clampOffset s o ≤ nativeLen s := by
  obtain ⟨p, t, rfl, hclamp⟩ := clampOffset_eq s o
  rw [hclamp, nativeLen_append]
  exact Nat.le_add_right _ _

/-- Where each element takes one unit, every offset up to the end is a boundary. -/
theorem clampOffset_of_unit (hunit : ∀ e : ε, Element.width e = 1) (s : List ε) (o : Nat) :
    clampOffset s o = min o s.length := by
  have hboundary : isBoundary s (min o s.length) = true := by
    have hwidth : nativeLen (s.take o) = min o s.length := by
      rw [nativeLen_of_unit hunit, List.length_take]
    exact hwidth ▸ isBoundary_nativeLen (List.take_prefix o s)
  have hlength := clampOffset_le_nativeLen s o
  rw [nativeLen_of_unit hunit] at hlength
  have hleast := le_clampOffset hboundary (Nat.min_le_left o s.length)
  have hmost := (isGreatest_clampOffset s o).1.2
  omega

/-! ## §3. What was used up. -/

variable {x y : List ε}

/-- A place is the greatest boundary below the difference of the widths, or below
zero if there is none. -/
theorem offsetOf_eq_clampOffset (s x : List ε) :
    offsetOf s x = clampOffset s (max 0 ((nativeLen s : Int) - nativeLen x)).toNat := by
  rw [offsetOf]
  congr 1
  omega

/-- What was used up is as wide as the place of the rest is far. -/
theorem nativeLen_consumed (s x : List ε) : nativeLen (consumed s x) = offsetOf s x := by
  obtain ⟨_, _, hwidth⟩ := exists_consumed s x
  exact hwidth

/-- To get to something as wide as the whole, nothing was used up. -/
theorem consumed_eq_nil (h : nativeLen s ≤ nativeLen x) : consumed s x = [] := by
  rw [← nativeLen_eq_zero_iff, nativeLen_consumed, offsetOf, Nat.sub_eq_zero_of_le h]
  exact Nat.eq_zero_of_le_zero (isGreatest_clampOffset s 0).1.2

/-- The less is left, the more was used up. -/
theorem consumed_prefix_consumed (s : List ε) (h : nativeLen y ≤ nativeLen x) :
    consumed s x <+: consumed s y := by
  have hx := consumed_prefix s x
  have hy := consumed_prefix s y
  refine prefix_of_nativeLen_le hx hy ?_
  rw [nativeLen_consumed, nativeLen_consumed]
  exact clampOffset_mono s (Nat.sub_le_sub_left h _)

/-! ## §4. Texts. -/

/-- A text is as wide as its UTF-8 form has bytes. -/
theorem utf8ByteSize_eq_nativeLen (text : List Char) :
    (String.ofList text).utf8ByteSize = nativeLen text := by
  induction text with
  | nil => rfl
  | cons c text ih =>
    rw [String.ofList_cons, String.utf8ByteSize_append, String.utf8ByteSize_singleton, ih]
    rfl

/-- Boundaries of a text are the positions between the UTF-8 forms of its characters. -/
theorem isBoundary_iff_isValid (text : List Char) (b : Nat) :
    isBoundary text b = true ↔ (⟨b⟩ : String.Pos.Raw).IsValid (String.ofList text) := by
  rw [isBoundary_iff, String.Pos.Raw.isValid_ofList]
  simp only [utf8ByteSize_eq_nativeLen]
  constructor
  · rintro ⟨p, t, rfl, rfl⟩
    exact ⟨p.length, by rw [List.take_left]⟩
  · rintro ⟨n, hn⟩
    exact ⟨text.take n, text.drop n, (List.take_append_drop n text).symm, hn.symm⟩

/-! ## §5. All together. -/

/-- **Clamping is as good as it can be.**  For any offset it yields the greatest boundary
that is not past it; in a text, boundaries are the positions between the UTF-8 forms of
its characters.  It is monotone, keeps what it has yielded and never goes past the end,
and the way down from the offset ends there without going below zero.  Where each element
takes one unit, it is the lesser of the offset and the length.

The place of any sequence, be it a rest or not, is the clamped difference of the widths, or
zero if that is negative.  So what was used up to get there is a prefix that is cut off
between elements; it is empty if the one sequence is as wide as the other, and the less wide
the sequence is, the more was used up. -/
theorem clamping_is_greatest_boundary (s : List ε) :
    (∀ o, IsGreatest {b | isBoundary s b = true ∧ b ≤ o} (clampOffset s o)) ∧
    (∀ (text : List Char) b,
      isBoundary text b = true ↔ (⟨b⟩ : String.Pos.Raw).IsValid (String.ofList text)) ∧
    Monotone (clampOffset s) ∧
    (∀ o, clampOffset s (clampOffset s o) = clampOffset s o ∧ clampOffset s o ≤ nativeLen s ∧
      Checked.clamp s o = .ok (clampOffset s o)) ∧
    ((∀ e : ε, Element.width e = 1) → ∀ o, clampOffset s o = min o s.length) ∧
    (∀ x, offsetOf s x = clampOffset s (max 0 ((nativeLen s : Int) - nativeLen x)).toNat ∧
      consumed s x <+: s ∧ nativeLen (consumed s x) = offsetOf s x ∧
      Checked.consumed s x = .ok (consumed s x)) ∧
    (∀ x, nativeLen s ≤ nativeLen x → consumed s x = []) ∧
    (∀ x y, nativeLen y ≤ nativeLen x → consumed s x <+: consumed s y) :=
  ⟨isGreatest_clampOffset s, isBoundary_iff_isValid, clampOffset_mono s,
    fun o => ⟨clampOffset_clampOffset s o, clampOffset_le_nativeLen s o, Checked.clamp_eq s o⟩,
    fun hunit => clampOffset_of_unit hunit s,
    fun x => ⟨offsetOf_eq_clampOffset s x, consumed_prefix s x, nativeLen_consumed s x,
      Checked.consumed_eq s x⟩,
    fun _ => consumed_eq_nil, fun _ _ => consumed_prefix_consumed s⟩

/-- Rests that are none: one that is wider than a text of two accents, and two that are
less wide, of which one leads into the middle of an accent. -/
theorem clamping_of_accents :
    (nativeLen ['é', 'é'] ≤ nativeLen ['a', 'b', 'c', 'd', 'e'] ∧
      consumed ['é', 'é'] ['a', 'b', 'c', 'd', 'e'] = []) ∧
    (nativeLen ['x'] ≤ nativeLen ['a', 'b', 'c'] ∧
      consumed ['é', 'é'] ['a', 'b', 'c'] <+: consumed ['é', 'é'] ['x']) ∧
    ((∀ n : Int, Element.width n = 1) ∧ clampOffset [7, 8, (9 : Int)] 5 = 3) := by
  obtain ⟨-, -, -, -, -, -, hempty, hprefix⟩ := clamping_is_greatest_boundary ['é', 'é']
  obtain ⟨-, -, -, -, hunits, -⟩ := clamping_is_greatest_boundary [7, 8, (9 : Int)]
  exact ⟨⟨by decide, hempty _ (by decide)⟩, ⟨by decide, hprefix _ _ (by decide)⟩,
    fun _ => rfl, hunits (fun _ => rfl) 5⟩

end Sequence

end Parsing
