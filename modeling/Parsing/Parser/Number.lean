/-
  Parsing.Parser.Number — NUMBER LITERALS.

  A literal is the longest run of the characters that numbers of its sort are
  made of, read as a whole: if the run as a whole is no number, there is no
  literal, even where a shorter part of it would be one.
-/
import Parsing.Numeral.Binary64
import Parsing.Parser.Ascii

namespace Parsing.Parser

open Numeral

variable {ε α : Type} [Element ε] [CharLike ε]

/-- Takes the longest run of elements of a table and reads it, separators
taken out; every failure is one of the given kind where the run starts. -/
def literal (table : List Char) (kind : Kind) (read : List Char → Option α) : Parser ε α := fun s =>
  (takeWhileSome kind (CharLike.inTable table) s).andThen fun rest run =>
    Reply.convert s kind ((withoutSeparators? (CharLike.render run)).bind read) (Reply.ok rest)

/-- An integer literal without a sign, no greater than a signed word of 64 bits
can be. -/
def intLiteral : Parser ε Int := literal intComponents .integer word?

/-- A float literal with a finite value. -/
def floatLiteral : Parser ε Binary64 :=
  literal floatComponents .float fun cs => (decimal? cs).bind Binary64.ofDecimal?

end Parsing.Parser
