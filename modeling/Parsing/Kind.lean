/-
  Parsing.Kind — WHY A PARSER FAILED.

  Every failure has one of thirty-three kinds.  A kind has three faces: a
  stable `code`, a short `name` that identifies it, and a `description` that
  messages are built from.

  Main statements: `ofCode?_code` and `code_of_ofCode?` (a code names its kind
  and no other code does), `ofCode?_eq_none_iff` (exactly the codes below the
  number of kinds are taken), `ofName?_name` (a name is read back as its kind).
-/

namespace Parsing

/-- The cause of a failure. -/
inductive Kind where
  | tag
  | mapRes
  | alt
  | isNot
  | isA
  | alpha
  | digit
  | hexDigit
  | octDigit
  | alphaNumeric
  | space
  | multiSpace
  | eof
  | char
  | crlf
  | negate
  | verify
  | satisfy
  | fail
  | float
  | integer
  | noneOf
  | oneOf
  | takeWhile
  | takeWhileBounded
  | takeTill
  | takeUntil
  | many1
  | many1Count
  | manyBounded
  | foldManyBounded
  | manyTill
  | length
  deriving DecidableEq

namespace Kind

/-- Every kind, each at the index that is its code. -/
def all : List Kind :=
  [tag, mapRes, alt, isNot, isA, alpha, digit, hexDigit, octDigit, alphaNumeric, space,
    multiSpace, eof, char, crlf, negate, verify, satisfy, fail, float, integer, noneOf, oneOf,
    takeWhile, takeWhileBounded, takeTill, takeUntil, many1, many1Count, manyBounded,
    foldManyBounded, manyTill, length]

/-- The stable number of a kind: safe to log or to store, and read back by `ofCode?`. -/
def code : Kind → Nat
  | tag => 0
  | mapRes => 1
  | alt => 2
  | isNot => 3
  | isA => 4
  | alpha => 5
  | digit => 6
  | hexDigit => 7
  | octDigit => 8
  | alphaNumeric => 9
  | space => 10
  | multiSpace => 11
  | eof => 12
  | char => 13
  | crlf => 14
  | negate => 15
  | verify => 16
  | satisfy => 17
  | fail => 18
  | float => 19
  | integer => 20
  | noneOf => 21
  | oneOf => 22
  | takeWhile => 23
  | takeWhileBounded => 24
  | takeTill => 25
  | takeUntil => 26
  | many1 => 27
  | many1Count => 28
  | manyBounded => 29
  | foldManyBounded => 30
  | manyTill => 31
  | length => 32

/-- The kind with a given code, if the code is in use. -/
def ofCode? (n : Nat) : Option Kind := all[n]?

/-- The kind with the next code; the last kind has no successor and stays. -/
def next (k : Kind) : Kind := (ofCode? (k.code + 1)).getD k

/-- The name that identifies a kind in structured output. -/
def name : Kind → String
  | tag => "Tag"
  | mapRes => "MapRes"
  | alt => "Alt"
  | isNot => "IsNot"
  | isA => "IsA"
  | alpha => "Alpha"
  | digit => "Digit"
  | hexDigit => "HexDigit"
  | octDigit => "OctDigit"
  | alphaNumeric => "AlphaNumeric"
  | space => "Space"
  | multiSpace => "MultiSpace"
  | eof => "Eof"
  | char => "Char"
  | crlf => "Crlf"
  | negate => "Negate"
  | verify => "Verify"
  | satisfy => "Satisfy"
  | fail => "Fail"
  | float => "Float"
  | integer => "Integer"
  | noneOf => "NoneOf"
  | oneOf => "OneOf"
  | takeWhile => "TakeWhile"
  | takeWhileBounded => "TakeWhileBounded"
  | takeTill => "TakeTill"
  | takeUntil => "TakeUntil"
  | many1 => "Many1"
  | many1Count => "Many1Count"
  | manyBounded => "ManyBounded"
  | foldManyBounded => "FoldManyBounded"
  | manyTill => "ManyTill"
  | length => "Length"

/-- The kind with a given name. -/
def ofName? (text : String) : Option Kind := all.find? fun k => k.name == text

/-- The words for a kind in a message to a person. -/
def description : Kind → String
  | tag => "tag"
  | mapRes => "map_res"
  | alt => "alternative"
  | isNot => "is_not"
  | isA => "is_a"
  | alpha => "alphabetic"
  | digit => "digit"
  | hexDigit => "hexadecimal digit"
  | octDigit => "octal digit"
  | alphaNumeric => "alphanumeric"
  | space => "space"
  | multiSpace => "multispace"
  | eof => "end of input"
  | char => "char"
  | crlf => "line ending"
  | negate => "negate"
  | verify => "verify"
  | satisfy => "satisfy"
  | fail => "fail"
  | float => "float literal"
  | integer => "integer literal"
  | noneOf => "none_of"
  | oneOf => "one_of"
  | takeWhile => "take_while"
  | takeWhileBounded => "take_while_bounded"
  | takeTill => "take_till"
  | takeUntil => "take_until"
  | many1 => "many1"
  | many1Count => "many1_count"
  | manyBounded => "many_bounded"
  | foldManyBounded => "fold_many_bounded"
  | manyTill => "many_till"
  | length => "length prefix"

/-! ## Codes and kinds determine each other. -/

/-- The code of a kind is read back as that kind. -/
theorem ofCode?_code (k : Kind) : ofCode? k.code = some k := by
  cases k <;> rfl

/-- A code that is read as a kind is the code of that kind. -/
theorem code_of_ofCode? {n : Nat} {k : Kind} (h : ofCode? n = some k) : k.code = n := by
  have hn : n < all.length := (List.getElem?_eq_some_iff.mp h).1
  have hall : all.map code = List.range all.length := by decide
  have hmap : (all.map code)[n]? = some k.code := by
    rw [List.getElem?_map]
    exact congrArg (Option.map code) h
  rw [hall, List.getElem?_range hn] at hmap
  exact (Option.some.inj hmap).symm

/-- The codes that no kind has are those from the number of kinds on. -/
theorem ofCode?_eq_none_iff (n : Nat) : ofCode? n = none ↔ all.length ≤ n :=
  List.getElem?_eq_none_iff

/-- No kind is missing from the list of all of them. -/
theorem mem_all (k : Kind) : k ∈ all := List.mem_of_getElem? (ofCode?_code k)

/-- A name is read back as the kind it names, so no two kinds share one. -/
theorem ofName?_name (k : Kind) : ofName? k.name = some k := by
  cases k <;> rfl

end Kind

end Parsing
