/-
  Parsing.Numeral.Decimal — NUMBERS WRITTEN IN DIGITS.

  Readers of whole texts: natural numbers, integers with an optional sign,
  integers that fit a machine word, truth values, and decimal numbers with a
  point and an exponent.  A text that is not of the form wanted, down to its
  last character, has no reading.

  In the digits of a literal, single underscores may separate one digit from
  the next; `withoutSeparators?` takes them out.
-/

namespace Parsing.Numeral

/-! ## §1. Rows of digits. -/

/-- The value of a decimal digit. -/
def digitValue (c : Char) : Nat := c.toNat - '0'.toNat

/-- The number that a row of decimal digits writes. -/
def ofDigits (ds : List Char) : Nat := ds.foldl (fun n d => n * 10 + digitValue d) 0

/-- Reads a natural number: at least one digit, and nothing else. -/
def natural? (cs : List Char) : Option Nat :=
  if cs.isEmpty || !cs.all Char.isDigit then none else some (ofDigits cs)

/-- Reads an integer: a natural number after an optional sign. -/
def integer? : List Char → Option Int
  | '+' :: cs => (natural? cs).map Int.ofNat
  | '-' :: cs => (natural? cs).map fun n => -(n : Int)
  | cs => (natural? cs).map Int.ofNat

/-- Reads an integer that fits a signed word of 64 bits. -/
def word? (cs : List Char) : Option Int :=
  (integer? cs).filter fun n => -Int.pow 2 63 ≤ n && n < Int.pow 2 63

/-- Reads a natural number after an optional plus sign. -/
def unsigned? : List Char → Option Nat
  | '+' :: cs => natural? cs
  | cs => natural? cs

/-- Reads an unsigned number that fits a byte. -/
def byte? (cs : List Char) : Option Nat := (unsigned? cs).filter (· < 256)

/-- Reads a truth value. -/
def truth? (cs : List Char) : Option Bool :=
  if cs = ['t', 'r', 'u', 'e'] then some true
  else if cs = ['f', 'a', 'l', 's', 'e'] then some false
  else none

/-! ## §2. Separators. -/

/-- Whether every underscore stands between two digits; `afterDigit` says
whether there is a digit in front of the text. -/
def separatorsInPlace (afterDigit : Bool) : List Char → Bool
  | [] => true
  | c :: cs =>
      if c = '_' then
        afterDigit && (cs.head?.any Char.isDigit) && separatorsInPlace false cs
      else separatorsInPlace c.isDigit cs

/-- The text without its underscores, if each of them stands between digits. -/
def withoutSeparators? (cs : List Char) : Option (List Char) :=
  if separatorsInPlace false cs then some (cs.filter (· != '_')) else none

/-! ## §3. Decimal numbers. -/

/-- A decimal number: `significand · 10 ^ exponent`, with a sign that also zero
has. -/
structure Decimal where
  negative : Bool
  significand : Nat
  exponent : Int
  deriving DecidableEq

/-- Takes an optional sign off a text, and tells whether it was a minus. -/
def splitSign : List Char → Bool × List Char
  | '+' :: cs => (false, cs)
  | '-' :: cs => (true, cs)
  | cs => (false, cs)

/-- The digits behind a decimal point, if there is one, and what follows. -/
def splitFraction : List Char → List Char × List Char
  | '.' :: cs => (cs.takeWhile Char.isDigit, cs.dropWhile Char.isDigit)
  | cs => ([], cs)

/-- Reads what may follow the digits: nothing, or the letter `e` and an integer. -/
def exponent? : List Char → Option Int
  | [] => some 0
  | c :: cs => if c = 'e' ∨ c = 'E' then integer? cs else none

/-- Reads a decimal number: an optional sign, digits with an optional point
before, between or behind them, and an optional exponent. -/
def decimal? (cs : List Char) : Option Decimal :=
  let (negative, unsigned) := splitSign cs
  let whole := unsigned.takeWhile Char.isDigit
  let (fraction, tail) := splitFraction (unsigned.dropWhile Char.isDigit)
  if whole.isEmpty && fraction.isEmpty then none
  else
    (exponent? tail).map fun e =>
      { negative := negative, significand := ofDigits (whole ++ fraction),
        exponent := e - fraction.length }

end Parsing.Numeral
