/-
  Parsing.Grammar.Client — FUNCTIONS A CLIENT SUPPLIES, AS DATA.

  A grammar holds functions on elements, values and errors.  This is a small
  vocabulary of such functions, so that a grammar can be written down without
  writing a program: each of its types names some functions, and says by one
  definition which ones they are.

  Arithmetic on integers wraps around in a signed word of 64 bits.
-/
import Parsing.Grammar.Basic

namespace Parsing.Client

variable {ε κ : Type} [Element ε]

/-! ## §1. Tests. -/

/-- A test of an element. -/
inductive ElementTest (ε : Type) where
  | any
  | none
  | oneOf (set : List ε)
  /-- The code lies between two bounds. -/
  | between (lower upper : Int)
  /-- The code leaves a given remainder. -/
  | remainder (modulus value : Int)
  | not (t : ElementTest ε)

/-- Whether an element passes a test. -/
def ElementTest.holds [DecidableEq ε] : ElementTest ε → ε → Bool
  | any, _ => true
  | none, _ => false
  | oneOf set, e => set.contains e
  | between lower upper, e => lower ≤ Element.code e && Element.code e ≤ upper
  | remainder modulus value, e => Element.code e % modulus = value
  | not t, e => !t.holds e

/-- A test of a value. -/
inductive ValueTest (ε : Type) where
  | always
  | never
  /-- The number of the value lies between two bounds. -/
  | between (lower upper : Int)
  | equals (v : Value ε)
  | not (t : ValueTest ε)

/-- Whether a value passes a test. -/
def ValueTest.holds [DecidableEq ε] : ValueTest ε → Value ε → Bool
  | always, _ => true
  | never, _ => false
  | between lower upper, v => lower ≤ v.num && v.num ≤ upper
  | equals w, v => w.same v
  | not t, v => !t.holds v

/-! ## §2. Changing values. -/

/-- A change of a value. -/
inductive ValueMap (ε : Type) where
  /-- The number of parts. -/
  | length
  /-- The number of the value. -/
  | number
  | negated
  /-- The codes of a slice as the digits of a number to the base 256. -/
  | bigEndian
  /-- Of an optional sign and a number, the number with that sign. -/
  | signed
  /-- A name in front of the value. -/
  | label (name : String)
  /-- The part at an index. -/
  | part (index : Nat)
  | plus (n : Int)
  | always (v : Value ε)

/-- The parts of a list or a tuple. -/
def parts : Value ε → List (Value ε)
  | .list vs => vs
  | .tuple vs => vs
  | _ => []

/-- The number of elements of a slice, or of parts of a list or a tuple. -/
def partCount : Value ε → Nat
  | .slice s => s.length
  | v => (parts v).length

/-- The changed value. -/
def ValueMap.apply : ValueMap ε → Value ε → Value ε
  | length, v => .size (partCount v)
  | number, v => .int v.num
  | negated, v => .int (Value.wrap (-v.num))
  | bigEndian, v =>
      .int (v.toSlice.foldl (fun n e => Value.wrap (n * 256 + Element.code e)) 0)
  | signed, .tuple [.present _, v] => .int (Value.wrap (-v.num))
  | signed, .tuple [_, v] => .int v.num
  | signed, _ => .int 0
  | label name, v => .tuple [.text name, v]
  | part index, v => (parts v).getD index .unit
  | plus n, v => .int (Value.wrap (v.num + n))
  | always w, _ => w

/-- A change of a value that may have no result. -/
inductive Conversion (ε : Type) where
  /-- The number that a slice of digits writes, if it fits an unsigned word of
  32 bits. -/
  | radix (base : Nat)
  /-- The value itself, if it passes a test. -/
  | check (t : ValueTest ε)

/-- The value of a digit or a letter of ASCII, by its code. -/
def digit? (code : Int) : Option Nat :=
  if 48 ≤ code ∧ code ≤ 57 then some (code - 48).toNat
  else if 97 ≤ code ∧ code ≤ 122 then some (code - 87).toNat
  else if 65 ≤ code ∧ code ≤ 90 then some (code - 55).toNat
  else none

/-- The number that a row of digits to a base writes. -/
def ofRadix? (base : Nat) (s : List ε) : Option Nat :=
  s.foldlM (fun n e =>
    ((digit? (Element.code e)).filter (· < base)).map fun d => n * base + d) 0

/-- The converted value. -/
def Conversion.apply [DecidableEq ε] : Conversion ε → Value ε → Option (Value ε)
  | radix base, .slice s =>
      if s.isEmpty then none
      else ((ofRadix? base s).filter (· < Nat.pow 2 32)).map fun n => .int n
  | radix _, _ => none
  | check t, v => if t.holds v then some v else none

/-- A way to combine values, from left to right. -/
inductive Folding where
  /-- The list of the values. -/
  | list
  /-- The list of the values, the last one first. -/
  | reversed
  | count
  | sum
  /-- The codes of decimal digits as the number they write. -/
  | digits
  | last

namespace Folding

/-- What a combination starts from. -/
def first : Folding → Value ε
  | list => .list []
  | reversed => .list []
  | count => .size 0
  | sum => .int 0
  | digits => .int 0
  | last => .absent

/-- How one more value is taken in. -/
def combine : Folding → Value ε → Value ε → Value ε
  | list, all, v => .list (parts all ++ [v])
  | reversed, all, v => .list (v :: parts all)
  | count, .size n, _ => .size (n + 1)
  | count, all, _ => all
  | sum, all, v => .int (Value.wrap (all.num + v.num))
  | digits, all, v => .int (Value.wrap (all.num * 10 + v.num - 48))
  | last, _, v => .present v

end Folding

/-! ## §3. Changing errors. -/

/-- A change of an error. -/
inductive ErrorMap (ε : Type) where
  /-- The same place, another kind. -/
  | kind (k : Kind)
  /-- Another error altogether. -/
  | replace (error : ParseError ε)
  /-- A place so many elements further on, if there is one. -/
  | skip (n : Nat)
  /-- The same place, the kind with the next code. -/
  | nextCode

/-- The changed error. -/
def ErrorMap.apply : ErrorMap ε → ParseError ε → ParseError ε
  | kind k, error => error.withKind k
  | replace other, _ => other
  | skip n, error =>
      match Sequence.take? error.rest n with
      | some (_, rest) => { error with rest := rest }
      | none => error
  | nextCode, error => error.withKind error.kind.next

/-! ## §4. Parsers made from values. -/

/-- A parser that depends on a value. -/
inductive Continuation (ε κ : Type) where
  /-- Take as many elements as the number of the value says. -/
  | take
  /-- Run a parser as often as the number of the value says. -/
  | count (p : Grammar ε κ)
  /-- Match the slice again. -/
  | tag
  /-- Match the element again. -/
  | char
  | success
  /-- Run the parser that the value chooses. -/
  | switch (cases : List (Value ε × Grammar ε κ)) (otherwise : Grammar ε κ)

/-- The parser for a value; values that do not fit make it fail. -/
def Continuation.grammar [DecidableEq ε] : Continuation ε κ → Value ε → Grammar ε κ
  | take, v => if v.num < 0 then .atom .fail else .atom (.take v.num.toNat)
  | count p, v => if v.num < 0 then .atom .fail else .count v.num.toNat p
  | tag, .slice s => .atom (.tag s)
  | tag, _ => .atom .fail
  | char, .elem e => .atom (.char e)
  | char, _ => .atom .fail
  | success, v => .atom (.success v)
  | switch cases otherwise, v =>
      ((cases.find? fun entry => entry.1.same v).map Prod.snd).getD otherwise

end Parsing.Client
