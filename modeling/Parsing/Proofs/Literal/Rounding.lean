/-
  Parsing.Proofs.Literal.Rounding — THE DOUBLE THAT A DECIMAL NUMBER IS READ AS.

  A decimal number is rounded in integers: its exponent of two is guessed from
  bit lengths, and a quotient is rounded to an integer.  What the result should
  be is said here in rational numbers, by the fields of a double (`magnitude`):
  among all finite doubles the nearest one, of two equally near the even one
  (`RoundsTo`), and none where that would be `2 ^ 1024` if the exponents went on.

  Patterns are taken without a bound first (`IsNearest`).  Their magnitudes grow
  with them, a pattern is some whole steps of `2 ^ 52` and a significand, and all
  magnitudes from `2 ^ 52` units on are whole numbers of units; so a nearest
  whole number of units is a nearest magnitude.  Whether the pattern is one of a
  finite double is then a comparison with the middle between the last two.

  Main statements: `patternOf_isNearest`, `IsNearest.lt_infinity_iff`,
  `ofDecimal?_isSome_iff`, `roundsTo_of_ofDecimal?` and `RoundsTo.unique`.
-/
import Mathlib.Algebra.Order.Field.Power
import Mathlib.Algebra.Order.Field.Rat
import Mathlib.Tactic.FieldSimp
import Mathlib.Tactic.Linarith
import Mathlib.Tactic.LinearCombination
import Mathlib.Tactic.NormNum
import Mathlib.Tactic.Positivity
import Mathlib.Tactic.Ring
import Parsing.Numeral.Binary64

namespace Parsing.Numeral

namespace Binary64

/-! ## §1. What a pattern stands for. -/

/-- The magnitude of a pattern: with exponent field zero as many units as the
fraction field says, and else `2 ^ 52` units more, which double from one exponent
field to the next. -/
def magnitude (pattern : Nat) : ℚ :=
  if pattern / 2 ^ 52 = 0 then ((pattern % 2 ^ 52 : Nat) : ℚ) * 2 ^ (-1074 : ℤ)
  else ((2 ^ 52 + pattern % 2 ^ 52 : Nat) : ℚ) * 2 ^ ((pattern / 2 ^ 52 : Nat) - 1075 : ℤ)

/-- A pattern is some whole steps and a significand. -/
theorem exists_steps (p : Nat) :
    ∃ k n, p = k * 2 ^ 52 + n ∧ n < 2 ^ 53 ∧ (k = 0 ∨ 2 ^ 52 ≤ n) :=
  ⟨p / 2 ^ 52 - 1, p - (p / 2 ^ 52 - 1) * 2 ^ 52, by omega, by omega, by omega⟩

/-- So many steps and a significand stand for the significand in units that double
with each step; a significand of `2 ^ 53` is carried. -/
theorem magnitude_steps {k n : Nat} (hn : n ≤ 2 ^ 53) (hk : k = 0 ∨ 2 ^ 52 ≤ n) :
    magnitude (k * 2 ^ 52 + n) = n * 2 ^ (k - 1074 : ℤ) := by
  unfold magnitude
  rcases Nat.lt_or_ge n (2 ^ 52) with hsmall | hlarge
  -- below the normal numbers the unit does not change
  · obtain rfl : k = 0 := by omega
    rw [if_pos (by omega), show (0 * 2 ^ 52 + n) % 2 ^ 52 = n by omega]
    norm_num
  · rw [if_neg (by omega)]
    -- a significand of 53 bits has its highest bit in the steps
    rcases Nat.lt_or_ge n (2 ^ 53) with hn' | hn'
    · rw [show (k * 2 ^ 52 + n) / 2 ^ 52 = k + 1 by omega,
        show 2 ^ 52 + (k * 2 ^ 52 + n) % 2 ^ 52 = n by omega]
      congr 2
      push_cast
      ring
    -- one that is carried makes a step of its own
    · obtain rfl : n = 2 ^ 53 := by omega
      rw [show (k * 2 ^ 52 + 2 ^ 53) / 2 ^ 52 = k + 2 by omega,
        show 2 ^ 52 + (k * 2 ^ 52 + 2 ^ 53) % 2 ^ 52 = 2 ^ 52 by omega,
        show ((k + 2 : Nat) : ℤ) - 1075 = (k - 1074) + 1 by push_cast; ring,
        zpow_add_one₀ two_ne_zero]
      push_cast
      ring

/-- Greater patterns stand for greater numbers. -/
theorem strictMono_magnitude : StrictMono magnitude := by
  refine strictMono_nat_of_lt_succ fun p => ?_
  obtain ⟨k, n, rfl, hn, hk⟩ := exists_steps p
  rw [Nat.add_assoc, magnitude_steps hn.le hk, magnitude_steps (by omega) (by omega)]
  have hunit : (0 : ℚ) < 2 ^ (k - 1074 : ℤ) := by positivity
  push_cast
  linarith

theorem magnitude_zero : magnitude 0 = 0 := by
  norm_num [magnitude]

theorem magnitude_nonneg (p : Nat) : 0 ≤ magnitude p := by
  rw [← magnitude_zero]
  exact strictMono_magnitude.monotone (Nat.zero_le p)

end Binary64

/-! ## §2. Whole numbers next to a quotient. -/

/-- No other term of a sequence is nearer to `v` than that with index `n`, and if
another one is as near, `n` is even. -/
structure IsNearest (f : Nat → ℚ) (v : ℚ) (n : Nat) : Prop where
  nearest : ∀ j, |f n - v| ≤ |f j - v|
  even : ∀ j, j ≠ n → |f j - v| = |f n - v| → n % 2 = 0

/-- A rounded quotient is at most one half away from it. -/
theorem abs_roundDiv_sub_le (num : Nat) {den : Nat} (hden : 0 < den) :
    |(roundDiv num den : ℚ) - num / den| ≤ 1 / 2 := by
  obtain ⟨hupper, hlower⟩ := roundDiv_bounds num hden
  have hden' : (0 : ℚ) < den := by exact_mod_cast hden
  have hcancel : (num / den : ℚ) * den = num := div_mul_cancel₀ _ hden'.ne'
  have hupper' : (2 * (roundDiv num den * den) : ℚ) ≤ 2 * num + den := by exact_mod_cast hupper
  have hlower' : (2 * num : ℚ) ≤ 2 * (roundDiv num den * den) + den := by exact_mod_cast hlower
  rw [abs_le]
  constructor <;> nlinarith

/-- A quotient in the middle between two whole numbers is rounded to the even one. -/
theorem even_roundDiv {num den : Nat} (hden : 0 < den)
    (h : |(roundDiv num den : ℚ) - num / den| = 1 / 2) : roundDiv num den % 2 = 0 := by
  have hden' : (0 : ℚ) < den := by exact_mod_cast hden
  have hcancel : (num / den : ℚ) * den = num := div_mul_cancel₀ _ hden'.ne'
  -- halfway, in whole numbers: twice the quotient is one denominator off
  have hmiddle : 2 * (roundDiv num den * den) = 2 * num + den ∨
      2 * (roundDiv num den * den) + den = 2 * num := by
    rcases (abs_eq (by norm_num)).mp h with h | h
    · left
      have : (2 * (roundDiv num den * den) : ℚ) = 2 * num + den := by
        linear_combination 2 * den * h + 2 * hcancel
      exact_mod_cast this
    · right
      have : (2 * (roundDiv num den * den) + den : ℚ) = 2 * num := by
        linear_combination 2 * den * h + 2 * hcancel
      exact_mod_cast this
  -- so the remainder is half of the denominator, where the rounding looks at the parity
  have hdiv : num / den * den + num % den = num := by
    rw [Nat.mul_comm]
    exact Nat.div_add_mod num den
  have hmod : num % den < den := Nat.mod_lt _ hden
  unfold roundDiv at hmiddle ⊢
  dsimp only at hmiddle ⊢
  split at hmiddle
  · rw [if_pos ‹_›]
    omega
  · rw [if_neg ‹_›]
    rw [Nat.add_mul, Nat.one_mul] at hmiddle
    omega

/-- Two whole numbers are not both less than one half away. -/
theorem one_le_abs_add_abs {i j : Nat} (h : i ≠ j) (t : ℚ) :
    1 ≤ |(i : ℚ) - t| + |(j : ℚ) - t| := by
  have hapart : (1 : ℚ) ≤ |(i : ℚ) - j| := by
    have hne : (i : ℤ) - j ≠ 0 := by omega
    exact_mod_cast Int.one_le_abs hne
  have htriangle := abs_sub_le (i : ℚ) t j
  rw [abs_sub_comm t] at htriangle
  linarith

/-- **A quotient is rounded to the nearest whole number**, in the middle between two
to the even one. -/
theorem roundDiv_isNearest (num : Nat) {den : Nat} (hden : 0 < den) :
    IsNearest (fun j => j) (num / den) (roundDiv num den) := by
  have hhalf := abs_roundDiv_sub_le num hden
  constructor
  · intro j
    by_cases hj : j = roundDiv num den
    · rw [hj]
    · have hapart := one_le_abs_add_abs hj (num / den)
      linarith
  · intro j hj htie
    have hapart := one_le_abs_add_abs hj (num / den)
    exact even_roundDiv hden (by linarith)

namespace Binary64

/-! ## §3. The units of a quotient. -/

/-- A power with an integer exponent is a quotient of powers with natural ones. -/
theorem zpow_eq_pow_div_pow {a : ℚ} (ha : a ≠ 0) (q : ℤ) :
    a ^ q = a ^ q.toNat / a ^ (-q).toNat := by
  rw [← zpow_natCast, ← zpow_natCast, ← zpow_sub₀ ha]
  congr 1
  omega

theorem scaled_pos {den : Nat} (hden : 0 < den) (num : Nat) (q : ℤ) :
    0 < (scaled num den q).2 :=
  Nat.mul_pos hden (Nat.two_pow_pos _)

/-- Scaling counts a quotient in units of `2 ^ q`. -/
theorem scaled_eq (num den : Nat) (q : ℤ) :
    ((scaled num den q).1 : ℚ) / (scaled num den q).2 = num / den / 2 ^ q := by
  rw [scaled, zpow_eq_pow_div_pow two_ne_zero q, Nat.pow_eq, Nat.pow_eq]
  push_cast
  field_simp

/-- The bit lengths of a quotient are those of its parts, up to one. -/
theorem div_bounds_log2 {num den : Nat} (hnum : 0 < num) (hden : 0 < den) :
    (2 : ℚ) ^ ((num.log2 : ℤ) - den.log2 - 1) ≤ num / den ∧
      (num / den : ℚ) < 2 ^ ((num.log2 : ℤ) - den.log2 + 1) := by
  have hnum' : ((2 ^ num.log2 : ℕ) : ℚ) ≤ num := by exact_mod_cast Nat.log2_self_le hnum.ne'
  have hnum'' : (num : ℚ) < (2 ^ (num.log2 + 1) : ℕ) := by exact_mod_cast Nat.lt_log2_self
  have hden' : ((2 ^ den.log2 : ℕ) : ℚ) ≤ den := by exact_mod_cast Nat.log2_self_le hden.ne'
  have hden'' : (den : ℚ) < (2 ^ (den.log2 + 1) : ℕ) := by exact_mod_cast Nat.lt_log2_self
  have hpos : (0 : ℚ) < den := by exact_mod_cast hden
  push_cast at hnum' hnum'' hden' hden''
  -- a quotient is least where the denominator is greatest, and the other way round
  constructor
  · rw [le_div_iff₀ hpos]
    calc (2 : ℚ) ^ ((num.log2 : ℤ) - den.log2 - 1) * den
        ≤ 2 ^ ((num.log2 : ℤ) - den.log2 - 1) * 2 ^ (den.log2 + 1) := by gcongr
      _ = 2 ^ num.log2 := by
          rw [← zpow_natCast, ← zpow_add₀ two_ne_zero, ← zpow_natCast]
          congr 1
          push_cast
          ring
      _ ≤ num := hnum'
  · rw [div_lt_iff₀ hpos]
    calc (num : ℚ) < 2 ^ (num.log2 + 1) := hnum''
      _ = 2 ^ ((num.log2 : ℤ) - den.log2 + 1) * 2 ^ den.log2 := by
          rw [← zpow_natCast, ← zpow_natCast, ← zpow_add₀ two_ne_zero]
          congr 1
          push_cast
          ring
      _ ≤ 2 ^ ((num.log2 : ℤ) - den.log2 + 1) * den := by gcongr

/-- **The exponent is the one that the quotient should have**: it makes the
quotient less than `2 ^ 53` units, and at least `2 ^ 52` unless it is the least. -/
theorem exponentOf_spec {num den : Nat} (hnum : 0 < num) (hden : 0 < den) :
    leastExponent ≤ exponentOf num den ∧
      (num / den / 2 ^ exponentOf num den : ℚ) < 2 ^ 53 ∧
      (exponentOf num den = leastExponent ∨
        2 ^ 52 ≤ (num / den / 2 ^ exponentOf num den : ℚ)) := by
  obtain ⟨hlower, hupper⟩ := div_bounds_log2 hnum hden
  unfold exponentOf
  dsimp only
  set guess := max ((num.log2 : ℤ) - den.log2 - 52) leastExponent with hguess
  have hleast : leastExponent ≤ guess := le_max_right _ _
  have hunits : (0 : ℚ) < 2 ^ guess := by positivity
  -- the guess is right or one too large
  have hbelow : (num / den / 2 ^ guess : ℚ) < 2 ^ 53 := by
    rw [div_lt_iff₀ hunits, ← zpow_natCast, ← zpow_add₀ two_ne_zero]
    exact hupper.trans_le (zpow_le_zpow_right₀ one_le_two (by push_cast; omega))
  have habove : leastExponent < guess → 2 ^ 51 ≤ (num / den / 2 ^ guess : ℚ) := by
    intro h
    rw [le_div_iff₀ hunits, ← zpow_natCast, ← zpow_add₀ two_ne_zero]
    exact (zpow_le_zpow_right₀ one_le_two (by push_cast; omega)).trans hlower
  have htest : (scaled num den guess).1 < Nat.pow 2 52 * (scaled num den guess).2 ↔
      (num / den / 2 ^ guess : ℚ) < 2 ^ 52 := by
    have hpos : (0 : ℚ) < (scaled num den guess).2 := by exact_mod_cast scaled_pos hden num guess
    rw [← scaled_eq, div_lt_iff₀ hpos]
    exact_mod_cast Iff.rfl
  split
  next h =>
    have hsmall := htest.mp h.2
    have htwice : (num / den / 2 ^ (guess - 1) : ℚ) = 2 * (num / den / 2 ^ guess) := by
      rw [zpow_sub_one₀ two_ne_zero]
      field_simp
    rw [htwice]
    exact ⟨by omega, by linarith, .inr (by linarith [habove h.1])⟩
  next h =>
    refine ⟨hleast, hbelow, ?_⟩
    rcases hleast.eq_or_lt with heq | hlt
    · exact .inl heq.symm
    · exact .inr (not_lt.mp fun hsmall => h ⟨hlt, htest.mpr hsmall⟩)

/-! ## §4. The nearest pattern. -/

/-- From `2 ^ 52` units on, magnitudes are whole numbers of units. -/
theorem magnitude_multiple_or_lt (k p : Nat) :
    (∃ j : Nat, magnitude p = j * 2 ^ (k - 1074 : ℤ)) ∨
      0 < k ∧ magnitude p < 2 ^ 52 * 2 ^ (k - 1074 : ℤ) := by
  obtain ⟨k', n, rfl, hn, hk'⟩ := exists_steps p
  rw [magnitude_steps hn.le hk']
  rcases Nat.lt_or_ge k' k with hlt | hge
  -- fewer steps: below `2 ^ 52` of the greater units
  · right
    refine ⟨by omega, ?_⟩
    have hn' : (n : ℚ) < 2 ^ 53 := by exact_mod_cast hn
    calc (n : ℚ) * 2 ^ (k' - 1074 : ℤ) < 2 ^ 53 * 2 ^ (k' - 1074 : ℤ) := by gcongr
      _ = 2 ^ 52 * 2 ^ (k' + 1 - 1074 : ℤ) := by
          rw [show (k' + 1 - 1074 : ℤ) = k' - 1074 + 1 by ring, zpow_add_one₀ two_ne_zero]
          ring
      _ ≤ 2 ^ 52 * 2 ^ (k - 1074 : ℤ) := by
          gcongr
          · exact one_le_two
          · omega
  -- at least as many steps: a whole number of the smaller units
  · left
    refine ⟨n * 2 ^ (k' - k), ?_⟩
    push_cast
    rw [mul_assoc, ← zpow_natCast, ← zpow_add₀ two_ne_zero]
    congr 2
    omega

/-- A nearest whole number of units is nearest among all magnitudes, if there are
at least `2 ^ 52` units or the units are the least. -/
theorem isNearest_of_units {v : ℚ} {k n : Nat} (hn : n ≤ 2 ^ 53)
    (hk : k = 0 ∨ 2 ^ 52 ≤ n ∧ 2 ^ 52 ≤ v / 2 ^ (k - 1074 : ℤ))
    (h : IsNearest (fun j => j) (v / 2 ^ (k - 1074 : ℤ)) n) :
    IsNearest magnitude v (k * 2 ^ 52 + n) := by
  have hunit : (0 : ℚ) < 2 ^ (k - 1074 : ℤ) := by positivity
  have hmagnitude := magnitude_steps hn (hk.imp_right And.left)
  set unit : ℚ := 2 ^ (k - 1074 : ℤ)
  have hscale : ∀ j : Nat, |(j : ℚ) * unit - v| = |(j : ℚ) - v / unit| * unit := by
    intro j
    rw [← abs_of_pos hunit, ← abs_mul, abs_of_pos hunit, sub_mul, div_mul_cancel₀ _ hunit.ne']
  have hnearest : ∀ j : Nat, |magnitude (k * 2 ^ 52 + n) - v| ≤ |(j : ℚ) * unit - v| := by
    intro j
    rw [hmagnitude, hscale, hscale]
    exact mul_le_mul_of_nonneg_right (h.nearest j) hunit.le
  -- what is no whole number of units is too small to be as near
  have hless : ∀ p', 0 < k → magnitude p' < 2 ^ 52 * unit →
      |magnitude (k * 2 ^ 52 + n) - v| < |magnitude p' - v| := by
    intro p' hpos hp'
    have hv : 2 ^ 52 * unit ≤ v := (le_div_iff₀ hunit).mp (hk.resolve_left hpos.ne').2
    refine (hnearest (2 ^ 52)).trans_lt ?_
    push_cast
    rw [abs_of_nonpos (by linarith), abs_of_neg (by linarith)]
    linarith
  constructor
  · intro p'
    rcases magnitude_multiple_or_lt k p' with ⟨j, hj⟩ | ⟨hpos, hp'⟩
    · rw [hj]
      exact hnearest j
    · exact (hless p' hpos hp').le
  · intro p' hne htie
    rcases magnitude_multiple_or_lt k p' with ⟨j, hj⟩ | ⟨hpos, hp'⟩
    · have hjn : j ≠ n := by
        rintro rfl
        exact hne (strictMono_magnitude.injective (hj.trans hmagnitude.symm))
      rw [hmagnitude, hj, hscale, hscale] at htie
      have heven := h.even j hjn (mul_right_cancel₀ hunit.ne' htie)
      omega
    · exact absurd htie (hless p' hpos hp').ne'

/-- **The pattern of a positive quotient is the nearest one.** -/
theorem patternOf_isNearest {num den : Nat} (hnum : 0 < num) (hden : 0 < den) :
    IsNearest magnitude (num / den) (patternOf num den) := by
  obtain ⟨hleast, hbelow, habove⟩ := exponentOf_spec hnum hden
  have hpos := scaled_pos hden num (exponentOf num den)
  have hrounded := roundDiv_isNearest (scaled num den (exponentOf num den)).1 hpos
  have hhalf := abs_roundDiv_sub_le (scaled num den (exponentOf num den)).1 hpos
  have hsteps : (((exponentOf num den - leastExponent).toNat : ℤ) - 1074) = exponentOf num den := by
    rw [leastExponent] at hleast ⊢
    omega
  rw [scaled_eq, abs_le] at hhalf
  rw [scaled_eq] at hrounded
  unfold patternOf
  dsimp only
  generalize roundDiv (scaled num den (exponentOf num den)).1
    (scaled num den (exponentOf num den)).2 = n at hrounded hhalf ⊢
  -- rounding moves the units by one half at most, so they stay within the bounds
  refine isNearest_of_units ?_ ?_ (by rwa [hsteps])
  · have hlt : (n : ℚ) < (2 ^ 53 + 1 : Nat) := by
      push_cast
      linarith
    exact Nat.lt_succ_iff.mp (by exact_mod_cast hlt)
  · rw [hsteps]
    refine habove.imp (fun h => by rw [h]; rfl) fun h => ⟨?_, h⟩
    have hlt : ((2 ^ 52 : Nat) : ℚ) < (n + 1 : Nat) := by
      push_cast
      linarith
    exact Nat.lt_succ_iff.mp (by exact_mod_cast hlt)

/-! ## §5. From where on there is no finite double. -/

end Binary64

section Order

variable {f : Nat → ℚ} {v : ℚ} {n r : Nat}

/-- The index of the nearest term is at most `r`, for an odd `r`, exactly if `v` is
below the middle between the term with index `r` and the next one. -/
theorem IsNearest.le_iff_of_odd (hf : StrictMono f) (h : IsNearest f v n) (hr : r % 2 = 1) :
    n ≤ r ↔ 2 * v < f r + f (r + 1) := by
  have hnext : f r < f (r + 1) := hf (Nat.lt_succ_self r)
  constructor
  · intro hle
    by_contra hv
    have hterm : f n ≤ f r := hf.monotone hle
    have hnearest := h.nearest (r + 1)
    rw [abs_of_neg (by linarith : f n - v < 0)] at hnearest
    rcases le_or_gt (f (r + 1)) v with hbelow | habove
    · rw [abs_of_nonpos (by linarith)] at hnearest
      linarith
    · -- then both terms are equally near, and the one with the odd index is taken
      rw [abs_of_pos (by linarith)] at hnearest
      obtain rfl : n = r := hf.injective (by linarith)
      have heven := h.even (n + 1) (by omega) (by
        rw [abs_of_pos (by linarith), abs_of_neg (by linarith)]
        linarith)
      omega
  · intro hv
    by_contra hlt
    have hterm : f (r + 1) ≤ f n := hf.monotone (by omega)
    have hnearest := h.nearest r
    rw [abs_of_pos (by linarith : 0 < f n - v)] at hnearest
    rcases abs_cases (f r - v) with ⟨habs, _⟩ | ⟨habs, _⟩ <;> linarith

end Order

namespace Binary64

/-- The pattern of infinity is where `2 ^ 1024` would be. -/
theorem magnitude_infinity : magnitude infinity = 2 ^ 1024 := by
  rw [show infinity = 2046 * 2 ^ 52 + 2 ^ 52 from rfl,
    magnitude_steps (by decide) (.inr le_rfl), show ((2046 : ℕ) : ℤ) - 1074 = (972 : ℕ) from rfl,
    zpow_natCast, Nat.cast_pow, Nat.cast_ofNat, ← pow_add]

/-- The greatest finite double is one unit below it. -/
theorem magnitude_last : magnitude (infinity - 1) = 2 ^ 1024 - 2 ^ 971 := by
  rw [show infinity - 1 = 2045 * 2 ^ 52 + (2 ^ 53 - 1) from rfl,
    magnitude_steps (by decide) (.inr (by decide)),
    show ((2045 : ℕ) : ℤ) - 1074 = (971 : ℕ) from rfl, zpow_natCast, Nat.cast_sub (by decide),
    Nat.cast_pow, Nat.cast_ofNat, Nat.cast_one, sub_mul, one_mul, ← pow_add]

/-- **The nearest pattern is that of a finite double exactly if the number is below
the middle** between the last finite double and `2 ^ 1024`. -/
theorem lt_infinity_iff {v : ℚ} {p : Nat} (h : IsNearest magnitude v p) :
    p < infinity ↔ v < 2 ^ 1024 - 2 ^ 970 := by
  -- the greatest finite pattern is odd, so halfway above it the rounding goes to infinity
  have hle := h.le_iff_of_odd strictMono_magnitude (r := infinity - 1) (by decide)
  rw [show infinity - 1 + 1 = infinity from rfl, magnitude_last, magnitude_infinity] at hle
  have hlt : p < infinity ↔ p ≤ infinity - 1 := by
    have : 0 < infinity := by decide
    omega
  have htwice : (2 : ℚ) ^ 971 = 2 * 2 ^ 970 := pow_succ' 2 970
  rw [hlt, hle, htwice]
  generalize (2 : ℚ) ^ 1024 = next
  generalize (2 : ℚ) ^ 970 = half
  constructor
  · intro h
    linarith
  · intro h
    linarith

end Binary64

/-! ## §6. Decimal numbers. -/

/-- The size of a decimal number. -/
def Decimal.size (d : Decimal) : ℚ := d.significand * 10 ^ d.exponent

theorem Decimal.size_nonneg (d : Decimal) : 0 ≤ d.size := by
  unfold size
  positivity

namespace Binary64

/-- Up to half the least magnitude, zero is nearest. -/
theorem isNearest_zero {v : ℚ} (hv : 0 ≤ v) (h : v ≤ 2 ^ (-1075 : ℤ)) :
    IsNearest magnitude v 0 := by
  refine ⟨fun p => ?_, fun _ _ _ => rfl⟩
  rw [magnitude_zero, zero_sub, abs_neg, abs_of_nonneg hv]
  rcases Nat.eq_zero_or_pos p with rfl | hp
  · rw [magnitude_zero, zero_sub, abs_neg, abs_of_nonneg hv]
  -- every other pattern is at least twice as far from zero as `v`
  · have hleast : magnitude 1 = 2 * 2 ^ (-1075 : ℤ) := by
      rw [show (1 : Nat) = 0 * 2 ^ 52 + 1 from rfl, magnitude_steps (by decide) (.inl rfl),
        show ((0 : ℕ) : ℤ) - 1074 = -1075 + 1 from rfl, zpow_add_one₀ two_ne_zero]
      rw [Nat.cast_one, one_mul, mul_comm]
    have hmono := strictMono_magnitude.monotone hp
    have habs := le_abs_self (magnitude p - v)
    generalize (2 : ℚ) ^ (-1075 : ℤ) = half at h hleast
    linarith

/-- A comparison of powers of naturals, which can be evaluated, as one of rationals. -/
theorem two_pow_le_ten_pow {a b : Nat} (h : 2 ^ a ≤ 10 ^ b) : (2 : ℚ) ^ a ≤ 10 ^ b := by
  exact_mod_cast h

/-- A decimal number with an exponent of `310` or more is beyond all doubles. -/
theorem size_of_large_exponent {d : Decimal} (hd : d.significand ≠ 0) (h : 310 ≤ d.exponent) :
    2 ^ 1024 ≤ d.size := by
  have hsignificand : (1 : ℚ) ≤ d.significand := by
    exact_mod_cast Nat.one_le_iff_ne_zero.mpr hd
  calc (2 : ℚ) ^ 1024 ≤ 10 ^ 310 := two_pow_le_ten_pow (by decide +kernel)
    _ = 10 ^ (310 : ℤ) := by rw [← zpow_natCast]; rfl
    _ ≤ 10 ^ d.exponent := zpow_le_zpow_right₀ (by norm_num) h
    _ ≤ d.significand * 10 ^ d.exponent := le_mul_of_one_le_left (by positivity) hsignificand

/-- A decimal number whose exponent is that small is at most half the least double. -/
theorem size_of_small_exponent {d : Decimal}
    (h : d.exponent < -(331 + d.significand.log2 : Nat)) : d.size ≤ 2 ^ (-1075 : ℤ) := by
  -- a number of so many bits has no more decimal digits than bits
  have hbits : (d.significand : ℚ) ≤ 10 ^ (d.significand.log2 + 1 : ℤ) := by
    have hlt : d.significand < 2 ^ (d.significand.log2 + 1) := Nat.lt_log2_self
    have hten : 2 ^ (d.significand.log2 + 1) ≤ 10 ^ (d.significand.log2 + 1) :=
      Nat.pow_le_pow_left (by decide) _
    exact_mod_cast hlt.le.trans hten
  have hpower : (2 : ℚ) ^ 1075 ≤ 10 ^ 331 := two_pow_le_ten_pow (by decide +kernel)
  calc (d.significand : ℚ) * 10 ^ d.exponent
      ≤ 10 ^ (d.significand.log2 + 1 : ℤ) * 10 ^ d.exponent := by gcongr
    _ = 10 ^ (d.significand.log2 + 1 + d.exponent : ℤ) := by rw [← zpow_add₀ (by norm_num)]
    _ ≤ 10 ^ (-331 : ℤ) := zpow_le_zpow_right₀ (by norm_num) (by omega)
    _ = (10 ^ 331)⁻¹ := by rw [zpow_neg]; rfl
    _ ≤ (2 ^ 1075)⁻¹ := by gcongr
    _ = 2 ^ (-1075 : ℤ) := by rw [zpow_neg]; rfl

/-- The pattern of a decimal number is the nearest one, or that of infinity for a
number beyond all doubles. -/
theorem patternOfDecimal_spec (d : Decimal) :
    IsNearest magnitude d.size (patternOfDecimal d) ∨
      patternOfDecimal d = infinity ∧ 2 ^ 1024 ≤ d.size := by
  unfold patternOfDecimal
  split
  -- no digits but zeros
  next hzero =>
    left
    have hsize : d.size = 0 := by simp [Decimal.size, hzero]
    rw [hsize]
    exact isNearest_zero le_rfl (by positivity)
  next hne =>
    split
    -- beyond all finite doubles
    next hlarge => exact .inr ⟨rfl, size_of_large_exponent hne hlarge⟩
    next =>
      left
      split
      -- below half of the least one
      next hsmall => exact isNearest_zero d.size_nonneg (size_of_small_exponent hsmall)
      next =>
        -- in between, as a quotient of whole numbers
        have hsize : d.size = ((d.significand * Nat.pow 10 d.exponent.toNat : Nat) : ℚ) /
            (Nat.pow 10 (-d.exponent).toNat : Nat) := by
          rw [Decimal.size, zpow_eq_pow_div_pow (by norm_num), Nat.pow_eq, Nat.pow_eq]
          push_cast
          ring
        rw [hsize]
        exact patternOf_isNearest
          (Nat.mul_pos (Nat.pos_of_ne_zero hne) (Nat.pow_pos (by decide)))
          (Nat.pow_pos (by decide))

/-- **A decimal number is read as a finite double exactly if it is small enough.** -/
theorem patternOfDecimal_lt_infinity_iff (d : Decimal) :
    patternOfDecimal d < infinity ↔ d.size < 2 ^ 1024 - 2 ^ 970 := by
  rcases patternOfDecimal_spec d with h | ⟨hpattern, hsize⟩
  · exact lt_infinity_iff h
  · have hpos : (0 : ℚ) < 2 ^ 970 := by positivity
    rw [hpattern]
    generalize (2 : ℚ) ^ 1024 = next at hsize ⊢
    generalize (2 : ℚ) ^ 970 = half at hpos ⊢
    exact ⟨fun h => absurd h (lt_irrefl _), fun h => by linarith⟩

/-- In range, the pattern of a decimal number is the nearest one. -/
theorem isNearest_patternOfDecimal {d : Decimal} (h : patternOfDecimal d < infinity) :
    IsNearest magnitude d.size (patternOfDecimal d) :=
  (patternOfDecimal_spec d).resolve_right fun hinf => h.ne hinf.1

/-! ## §7. Doubles. -/

/-- The sign bit. -/
def isNegative (x : Binary64) : Bool := 2 ^ 63 ≤ x.bits.toNat

/-- The bits without the sign bit. -/
def pattern (x : Binary64) : Nat := x.bits.toNat % 2 ^ 63

/-- The exponent field has its greatest value only in infinities and in what is no number. -/
def IsFinite (x : Binary64) : Prop := x.pattern < infinity

/-- A number by its sign and its size. -/
def signed (negative : Bool) (size : ℚ) : ℚ := if negative then -size else size

/-- What a finite double stands for. -/
def value (x : Binary64) : ℚ := signed x.isNegative (magnitude x.pattern)

/-- **The double that a number with a given sign is read as**: a finite one with that
sign (which zero has, too), such that no other finite one is nearer to the number,
and with an even pattern if another one is as near. -/
structure RoundsTo (negative : Bool) (v : ℚ) (x : Binary64) : Prop where
  isFinite : x.IsFinite
  isNegative : x.isNegative = negative
  nearest : ∀ y : Binary64, y.IsFinite → |x.value - v| ≤ |y.value - v|
  even : ∀ y : Binary64, y.IsFinite → y.value ≠ x.value → |y.value - v| = |x.value - v| →
    x.pattern % 2 = 0

/-- A double is its sign and its pattern. -/
theorem eq_of_pattern_eq {x y : Binary64} (hsign : x.isNegative = y.isNegative)
    (hpattern : x.pattern = y.pattern) : x = y := by
  have hx := x.bits.toNat_lt
  have hy := y.bits.toNat_lt
  have hle : 2 ^ 63 ≤ x.bits.toNat ↔ 2 ^ 63 ≤ y.bits.toNat := by
    simpa [isNegative] using hsign
  unfold pattern at hpattern
  have hbits : x.bits = y.bits := UInt64.toNat_inj.mp (by omega)
  cases x
  cases y
  exact congrArg _ hbits

/-- The sign is the highest bit, above all patterns. -/
theorem toNat_bits_ofPattern (negative : Bool) {p : Nat} (hp : p < 2 ^ 63) :
    (ofPattern negative p).bits.toNat = if negative then 2 ^ 63 + p else p := by
  rw [ofPattern, UInt64.toNat_ofNat', Nat.mod_eq_of_lt]
  · rfl
  · rw [Nat.pow_eq]
    split <;> omega

/-- A double made of a sign and a pattern has this sign. -/
theorem isNegative_ofPattern (negative : Bool) {p : Nat} (hp : p < 2 ^ 63) :
    (ofPattern negative p).isNegative = negative := by
  rw [isNegative, toNat_bits_ofPattern negative hp]
  cases negative
  · simpa using hp
  · simp

theorem pattern_ofPattern (negative : Bool) {p : Nat} (hp : p < 2 ^ 63) :
    (ofPattern negative p).pattern = p := by
  rw [pattern, toNat_bits_ofPattern negative hp]
  split <;> omega

/-- Finite patterns leave the bit of the sign free. -/
theorem lt_of_lt_infinity {p : Nat} (hp : p < infinity) : p < 2 ^ 63 :=
  hp.trans (by decide)

/-! ## §8. Signs. -/

/-- The sign may be put on the other number of a distance. -/
theorem abs_signed_sub (negative : Bool) (a v : ℚ) :
    |signed negative a - v| = |a - signed negative v| := by
  cases negative
  · rfl
  · rw [signed, signed, if_pos rfl, if_pos rfl, ← abs_neg]
    ring_nf

theorem signed_signed (negative : Bool) (a : ℚ) : signed negative (signed negative a) = a := by
  cases negative
  · rfl
  · exact neg_neg a

theorem abs_signed (negative : Bool) {a : ℚ} (ha : 0 ≤ a) : |signed negative a| = a := by
  cases negative
  · exact abs_of_nonneg ha
  · exact (abs_neg a).trans (abs_of_nonneg ha)

/-- A number is no nearer to one of the other sign than their sizes are. -/
theorem abs_sub_le_abs_signed_sub {a b : ℚ} (ha : 0 ≤ a) (hb : 0 ≤ b) (s t : Bool) :
    |a - b| ≤ |signed s a - signed t b| := by
  have htriangle := abs_abs_sub_abs_le_abs_sub (signed s a) (signed t b)
  rwa [abs_signed s ha, abs_signed t hb] at htriangle

theorem signed_zero (negative : Bool) : signed negative 0 = 0 := by
  cases negative
  · rfl
  · exact neg_zero

/-- If a number of the other sign is as near as one of the same size and sign, it
is near to zero. -/
theorem eq_zero_of_sign_ne {a b : ℚ} (ha : 0 ≤ a) (hb : 0 ≤ b) {s t : Bool}
    (hne : signed s a ≠ signed t a) (htie : |signed s a - signed t b| = |a - b|) : b = 0 := by
  have ha' : a ≠ 0 := by
    rintro rfl
    exact hne (by rw [signed_zero, signed_zero])
  have hst : t = !s := by
    cases s <;> cases t <;> simp_all
  have hsum : |a - b| = a + b := by
    have hneg : signed s (signed (!s) b) = -b := by cases s <;> rfl
    rw [← htie, abs_signed_sub, hst, hneg, sub_neg_eq_add, abs_of_nonneg (add_nonneg ha hb)]
  rcases abs_cases (a - b) with ⟨habs, _⟩ | ⟨habs, _⟩
  · linarith
  · exact absurd (by linarith : a = 0) ha'

/-- **The double with the nearest pattern is what a number is read as.** -/
theorem roundsTo_ofPattern {negative : Bool} {size : ℚ} (hsize : 0 ≤ size) {p : Nat}
    (hp : p < infinity) (h : IsNearest magnitude size p) :
    RoundsTo negative (signed negative size) (ofPattern negative p) := by
  have hp' := lt_of_lt_infinity hp
  have hvalue : (ofPattern negative p).value = signed negative (magnitude p) := by
    rw [value, isNegative_ofPattern negative hp', pattern_ofPattern negative hp']
  have hdistance : |(ofPattern negative p).value - signed negative size| =
      |magnitude p - size| := by
    rw [hvalue, abs_signed_sub, signed_signed]
  have hother : ∀ y : Binary64, |magnitude y.pattern - size| ≤ |y.value - signed negative size| :=
    fun y => abs_sub_le_abs_signed_sub (magnitude_nonneg _) hsize y.isNegative negative
  refine ⟨?_, isNegative_ofPattern negative hp', fun y _ => ?_, fun y _ hne htie => ?_⟩
  · rw [IsFinite, pattern_ofPattern negative hp']
    exact hp
  · rw [hdistance]
    exact (h.nearest _).trans (hother y)
  · rw [pattern_ofPattern negative hp']
    rw [hdistance] at htie
    by_cases hy : y.pattern = p
    · -- of the same size and as near, with the other sign: so the number is zero, and both are
      rw [value, hvalue, hy] at hne
      rw [value, hy] at htie
      have hzero : size = 0 := eq_zero_of_sign_ne (magnitude_nonneg p) hsize hne htie
      have hbound := h.nearest 0
      rw [hzero, magnitude_zero, sub_zero, sub_zero, abs_zero] at hbound
      have hmagnitude : magnitude p = 0 := abs_nonpos_iff.mp hbound
      rw [hmagnitude, signed_zero, signed_zero] at hne
      exact absurd rfl hne
    · exact h.even _ hy (le_antisymm ((hother y).trans_eq htie) (h.nearest _))

/-- What lies between two equally near numbers is nearer. -/
theorem abs_sub_lt_of_between {a b c v : ℚ} (hab : a < b) (hbc : b < c)
    (h : |a - v| = |c - v|) : |b - v| < |a - v| := by
  rcases abs_eq_abs.mp h with heq | hmiddle
  · linarith
  · rw [abs_of_neg (by linarith : a - v < 0), abs_lt]
    constructor <;> linarith

/-- **A number is read as one double only.** -/
theorem RoundsTo.unique {negative : Bool} {v : ℚ} {x y : Binary64} (hx : RoundsTo negative v x)
    (hy : RoundsTo negative v y) : x = y := by
  refine eq_of_pattern_eq (hx.isNegative.trans hy.isNegative.symm) ?_
  by_contra hne
  wlog hlt : x.pattern < y.pattern generalizing x y
  · exact this hy hx (Ne.symm hne) (by omega)
  have hdistance : ∀ z : Binary64, z.isNegative = negative →
      |z.value - v| = |magnitude z.pattern - signed negative v| := by
    intro z hz
    rw [value, hz, abs_signed_sub]
  have hvalue : x.value ≠ y.value := by
    intro heq
    rw [value, value, hx.isNegative, hy.isNegative] at heq
    have hmagnitude := congrArg (signed negative) heq
    rw [signed_signed, signed_signed] at hmagnitude
    exact hne (strictMono_magnitude.injective hmagnitude)
  have htie : |x.value - v| = |y.value - v| :=
    le_antisymm (hx.nearest y hy.isFinite) (hy.nearest x hx.isFinite)
  -- both patterns are even, so there is one between them, and it is nearer
  have hxeven := hx.even y hy.isFinite hvalue.symm htie.symm
  have hyeven := hy.even x hx.isFinite hvalue htie
  have hbetween : x.pattern + 1 < infinity := by
    have := hy.isFinite
    rw [IsFinite] at this
    omega
  have hsign := isNegative_ofPattern negative (lt_of_lt_infinity hbetween)
  have hpattern := pattern_ofPattern negative (lt_of_lt_infinity hbetween)
  have hnearest := hx.nearest (ofPattern negative (x.pattern + 1)) (by rwa [IsFinite, hpattern])
  rw [hdistance x hx.isNegative, hdistance y hy.isNegative] at htie
  rw [hdistance x hx.isNegative, hdistance _ hsign, hpattern] at hnearest
  have hbelow : magnitude x.pattern < magnitude (x.pattern + 1) :=
    strictMono_magnitude (Nat.lt_succ_self _)
  have habove : magnitude (x.pattern + 1) < magnitude y.pattern :=
    strictMono_magnitude (by omega)
  exact absurd hnearest (abs_sub_lt_of_between hbelow habove htie).not_ge

/-! ## §9. Reading decimal numbers. -/

/-- There is a double for a decimal number exactly if it is small enough. -/
theorem ofDecimal?_isSome_iff (d : Decimal) :
    (ofDecimal? d).isSome = true ↔ d.size < 2 ^ 1024 - 2 ^ 970 := by
  rw [← patternOfDecimal_lt_infinity_iff, ofDecimal?]
  split
  next h => simp [h]
  next h => simp [h]

/-- The double for a decimal number is the one that the number is read as. -/
theorem roundsTo_of_ofDecimal? {d : Decimal} {x : Binary64} (h : ofDecimal? d = some x) :
    RoundsTo d.negative (signed d.negative d.size) x := by
  rw [ofDecimal?] at h
  split at h
  next hp =>
    cases h
    exact roundsTo_ofPattern d.size_nonneg hp (isNearest_patternOfDecimal hp)
  next => cases h

end Binary64

end Parsing.Numeral
