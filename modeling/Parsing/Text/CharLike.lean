/-
  Parsing.Text.CharLike — ELEMENTS THAT STAND FOR CHARACTERS.

  Characters are character-like, and so are bytes: a byte stands for the
  character whose code point it is.  What such an element stands for decides
  which lines and columns a sequence has, which ASCII classes its elements are
  in and which elements are the same letter.
-/
import Parsing.Text.Lowercase

namespace Parsing

/-- An element that stands for a character. -/
class CharLike (ε : Type) where
  /-- The character an element stands for. -/
  toChar : ε → Char
  /-- The element that stands for the character with a given code point below 256. -/
  ofByte : UInt8 → ε
  /-- Equality of letters without regard to their case. -/
  sameLetter : ε → ε → Bool

/-- The small letter of an ASCII capital; any other byte as it is. -/
def lowerByte (b : UInt8) : UInt8 := if 65 ≤ b ∧ b ≤ 90 then b + 32 else b

/-- Characters are the same letter when their full lowercase forms agree. -/
instance : CharLike Char where
  toChar c := c
  ofByte b := Char.ofNat b.toNat
  sameLetter a b := a = b || Lowercase.lower a = Lowercase.lower b

/-- Bytes are the same letter when they are the same ASCII letter. -/
instance : CharLike UInt8 where
  toChar b := Char.ofNat b.toNat
  ofByte b := b
  sameLetter a b := lowerByte a = lowerByte b

namespace CharLike

variable {ε : Type} [CharLike ε]

/-- The element that ends a line. -/
def newline : ε := ofByte 10

/-- Whether an element ends a line. -/
def isNewline (e : ε) : Bool := toChar e = '\n'

/-- Whether an element stands for an ASCII character of the table. -/
def inTable (table : List Char) (e : ε) : Bool :=
  (toChar e).toNat < 128 && table.contains (toChar e)

/-- The characters that a sequence stands for. -/
def render (s : List ε) : List Char := s.map toChar

/-- To be in a table an element has to stand for an ASCII character, whatever the table
says of others. -/
theorem inTable_iff {table : List Char} {e : ε} :
    inTable table e = true ↔ (toChar e).toNat < 128 ∧ toChar e ∈ table := by
  simp [inTable]

end CharLike

end Parsing
