/-
  Parsing.Numeral.Binary64 — THE NEAREST DOUBLE.

  A finite positive double is `n · 2 ^ q` with `-1074 ≤ q` and `n < 2 ^ 53`.
  Its bits, read as a number, are `(q + 1074) · 2 ^ 52 + n` when `q` is chosen
  least, so that the patterns grow with the values and a rounding that carries
  into the next power of two gives the right pattern without further ado.

  Rounding is to the nearest double, ties to the even one, in exact integer
  arithmetic.  Main statement: `roundDiv_bounds`, a rounded quotient is within
  half a unit of the quotient.
-/
import Parsing.Numeral.Decimal

namespace Parsing.Numeral

/-- A double, by its bits. -/
structure Binary64 where
  bits : UInt64
  deriving DecidableEq

/-- The integer nearest to `num / den`, of two the even one. -/
def roundDiv (num den : Nat) : Nat :=
  let q := num / den
  let r := num % den
  if 2 * r < den ∨ (2 * r = den ∧ q % 2 = 0) then q else q + 1

/-- A rounded quotient is no further off than half of the divisor.  Everything is
doubled, so that the half is a number. -/
theorem roundDiv_bounds (num : Nat) {den : Nat} (h : 0 < den) :
    2 * (roundDiv num den * den) ≤ 2 * num + den ∧
      2 * num ≤ 2 * (roundDiv num den * den) + den := by
  have hdiv : num / den * den + num % den = num := by
    rw [Nat.mul_comm]; exact Nat.div_add_mod num den
  have hmod : num % den < den := Nat.mod_lt _ h
  unfold roundDiv
  dsimp only
  split
  · omega
  · rw [Nat.add_mul, Nat.one_mul]
    omega

namespace Binary64

/-- The least exponent of a double. -/
def leastExponent : Int := -1074

/-- `num / den` in units of `2 ^ q`, as a fraction. -/
def scaled (num den : Nat) (q : Int) : Nat × Nat :=
  (num * Nat.pow 2 (-q).toNat, den * Nat.pow 2 q.toNat)

/-- The exponent of the doubles next to `num / den`: the least one, from
`leastExponent` on, for which the quotient is below `2 ^ 53` units. -/
def exponentOf (num den : Nat) : Int :=
  let guess := max ((num.log2 : Int) - den.log2 - 52) leastExponent
  let fraction := scaled num den guess
  if leastExponent < guess ∧ fraction.1 < Nat.pow 2 52 * fraction.2 then guess - 1 else guess

/-- The pattern of the double nearest to `num / den`.  From `infinity` on there
is no finite one. -/
def patternOf (num den : Nat) : Nat :=
  let q := exponentOf num den
  let fraction := scaled num den q
  (q - leastExponent).toNat * Nat.pow 2 52 + roundDiv fraction.1 fraction.2

/-- The pattern of infinity. -/
def infinity : Nat := 2047 * Nat.pow 2 52

/-- The pattern of the double nearest to the size of a decimal number.  A
number of at least `10 ^ 310` is beyond all doubles, and one below `10 ^ -330`
is nearest to zero. -/
def patternOfDecimal (d : Decimal) : Nat :=
  if d.significand = 0 then 0
  else if 310 ≤ d.exponent then infinity
  else if d.exponent < -(331 + d.significand.log2 : Nat) then 0
  else patternOf (d.significand * Nat.pow 10 d.exponent.toNat) (Nat.pow 10 (-d.exponent).toNat)

/-- The double with a given sign and pattern. -/
def ofPattern (negative : Bool) (pattern : Nat) : Binary64 :=
  ⟨UInt64.ofNat (if negative then Nat.pow 2 63 + pattern else pattern)⟩

/-- The double nearest to a decimal number, if a finite one is. -/
def ofDecimal? (d : Decimal) : Option Binary64 :=
  let pattern := patternOfDecimal d
  if pattern < infinity then some (ofPattern d.negative pattern) else none

/-- The bits as sixteen hexadecimal digits. -/
def hex (x : Binary64) : String :=
  String.ofList
    ((List.range 16).map fun i => Nat.digitChar (x.bits.toNat / Nat.pow 16 (15 - i) % 16))

end Binary64

end Parsing.Numeral
