/-
  Parsing.Value — WHAT GRAMMARS YIELD.

  The parsers of a grammar that is given as data all yield values of one type:
  slices and elements of the input, numbers, lists, tuples and options.

  Main statements: `wrap_eq_self`, an integer in range is not changed, and
  `same_eq_true_iff`, the comparison of values decides equality.
-/
import Parsing.Numeral.Binary64
import Parsing.Parser.Framing

namespace Parsing

open Numeral (Binary64)

/-- What a parser of a grammar yields. -/
inductive Value (ε : Type) where
  /-- A part of the input. -/
  | slice (s : List ε)
  /-- An element of the input. -/
  | elem (e : ε)
  /-- An integer of a signed word. -/
  | int (n : Int)
  /-- An integer of a signed double word. -/
  | wide (n : Int)
  /-- A number of things. -/
  | size (n : Nat)
  | float (x : Binary64)
  | list (vs : List (Value ε))
  | tuple (vs : List (Value ε))
  /-- Something found. -/
  | present (v : Value ε)
  /-- Nothing found. -/
  | absent
  | unit
  | bool (b : Bool)
  | text (t : String)

namespace Value

variable {ε : Type}

/-! ## §1. Values made of values. -/

/-- A pair as a value. -/
def ofPair (v : Value ε × Value ε) : Value ε := tuple [v.1, v.2]

/-- An option as a value. -/
def ofOption : Option (Value ε) → Value ε
  | some v => present v
  | none => absent

/-- The part of the input that a value is; nothing for any other value. -/
def toSlice : Value ε → List ε
  | slice s => s
  | _ => []

/-! ## §2. Values as numbers. -/

/-- An integer brought into the range of a signed word, wrapping around. -/
def wrap (n : Int) : Int := n.bmod (Nat.pow 2 64)

/-- An integer that fits a signed word is not changed. -/
theorem wrap_eq_self {n : Int} (hlow : -Int.pow 2 63 ≤ n) (hhigh : n < Int.pow 2 63) :
    wrap n = n :=
  Int.bmod_eq_of_le hlow hhigh

/-- The number that a value stands for: a number stands for itself, an element
for its code, and what has parts for the number of them. -/
def num [Element ε] : Value ε → Int
  | int n => n
  | size n => wrap n
  | elem e => Element.code e
  | slice s => s.length
  | list vs => vs.length
  | tuple vs => vs.length
  | _ => 0

/-- Numbers and elements can stand for lengths, and no other values. -/
instance [Element ε] : AsLength (Value ε) where
  asLength?
    | int n => AsLength.asLength? n
    | wide n => AsLength.asLength? n
    | size n => AsLength.asLength? n
    | elem e => AsLength.asLength? (Element.code e)
    | _ => none

/-! ## §3. Comparison. -/

variable [DecidableEq ε]

mutual

/-- Whether two values are equal. -/
def same : Value ε → Value ε → Bool
  | slice s, slice t => s = t
  | elem e, elem f => e = f
  | int m, int n => m = n
  | wide m, wide n => m = n
  | size m, size n => m = n
  | float x, float y => x = y
  | list vs, list ws => sameAll vs ws
  | tuple vs, tuple ws => sameAll vs ws
  | present v, present w => same v w
  | absent, absent => true
  | unit, unit => true
  | bool b, bool c => b = c
  | text t, text u => t = u
  | _, _ => false

/-- Whether two lists of values are equal. -/
def sameAll : List (Value ε) → List (Value ε) → Bool
  | [], [] => true
  | v :: vs, w :: ws => same v w && sameAll vs ws
  | _, _ => false

end

mutual

/-- The comparison of values decides whether they are equal. -/
theorem same_eq_true_iff : ∀ v w : Value ε, same v w = true ↔ v = w
  | slice _, w => by cases w <;> simp [same]
  | elem _, w => by cases w <;> simp [same]
  | int _, w => by cases w <;> simp [same]
  | wide _, w => by cases w <;> simp [same]
  | size _, w => by cases w <;> simp [same]
  | float _, w => by cases w <;> simp [same]
  | list vs, w => by cases w <;> simp [same, sameAll_eq_true_iff vs]
  | tuple vs, w => by cases w <;> simp [same, sameAll_eq_true_iff vs]
  | present v, w => by cases w <;> simp [same, same_eq_true_iff v]
  | absent, w => by cases w <;> simp [same]
  | unit, w => by cases w <;> simp [same]
  | bool _, w => by cases w <;> simp [same]
  | text _, w => by cases w <;> simp [same]

theorem sameAll_eq_true_iff : ∀ vs ws : List (Value ε), sameAll vs ws = true ↔ vs = ws
  | [], ws => by cases ws <;> simp [sameAll]
  | v :: vs, ws => by
      cases ws <;> simp [sameAll, same_eq_true_iff v, sameAll_eq_true_iff vs]

end

/-- Equality of values is decided by comparing them. -/
instance : DecidableEq (Value ε) := fun v w =>
  decidable_of_iff _ (same_eq_true_iff v w)

end Value

end Parsing
