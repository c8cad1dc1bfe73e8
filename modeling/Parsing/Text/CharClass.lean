/-
  Parsing.Text.CharClass — THE ASCII CHARACTER CLASSES.

  Seven classes, each given by the table of its characters and by the kind of
  error that stands for "none of this class here"; and the two tables of
  characters from which number literals are made.

  Main statement: `table_isAscii`, so that membership in a class is membership
  in its table.
-/
import Parsing.Kind

namespace Parsing

/-- The decimal digits. -/
def digits : List Char := ['0', '1', '2', '3', '4', '5', '6', '7', '8', '9']

/-- The octal digits. -/
def octDigits : List Char := ['0', '1', '2', '3', '4', '5', '6', '7']

/-- The hexadecimal digits, in either case. -/
def hexDigits : List Char :=
  digits ++ ['a', 'b', 'c', 'd', 'e', 'f', 'A', 'B', 'C', 'D', 'E', 'F']

/-- The ASCII letters, small ones first. -/
def letters : List Char :=
  ['a', 'b', 'c', 'd', 'e', 'f', 'g', 'h', 'i', 'j', 'k', 'l', 'm', 'n', 'o', 'p', 'q', 'r', 's',
    't', 'u', 'v', 'w', 'x', 'y', 'z', 'A', 'B', 'C', 'D', 'E', 'F', 'G', 'H', 'I', 'J', 'K', 'L',
    'M', 'N', 'O', 'P', 'Q', 'R', 'S', 'T', 'U', 'V', 'W', 'X', 'Y', 'Z']

/-- What an integer literal is made of. -/
def intComponents : List Char := digits ++ ['_']

/-- What a float literal is made of. -/
def floatComponents : List Char := digits ++ ['_', '.', 'e', 'E', '+', '-']

/-- An ASCII character class. -/
inductive CharClass where
  | alpha
  | digit
  | hexDigit
  | octDigit
  | alphaNumeric
  | space
  | multiSpace
  deriving DecidableEq

namespace CharClass

/-- The characters of a class. -/
def table : CharClass → List Char
  | alpha => letters
  | digit => digits
  | hexDigit => hexDigits
  | octDigit => octDigits
  | alphaNumeric => digits ++ letters
  | space => [' ', '\t']
  | multiSpace => [' ', '\t', '\r', '\n']

/-- The error of a place where at least one member of the class is wanted. -/
def kind : CharClass → Kind
  | alpha => .alpha
  | digit => .digit
  | hexDigit => .hexDigit
  | octDigit => .octDigit
  | alphaNumeric => .alphaNumeric
  | space => .space
  | multiSpace => .multiSpace

/-- No class has a character beyond ASCII. -/
theorem table_isAscii (c : CharClass) : ∀ x ∈ c.table, x.toNat < 128 := by
  have hall : (c.table.all fun x => Nat.blt x.toNat 128) = true := by cases c <;> rfl
  intro x hx
  simpa [Nat.blt_eq] using List.all_eq_true.mp hall x hx

end CharClass

end Parsing
