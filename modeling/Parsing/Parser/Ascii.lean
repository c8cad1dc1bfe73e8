/-
  Parsing.Parser.Ascii — CHARACTER CLASSES AND LINES.

  Parsers over character-like elements: stretches of an ASCII class, single
  control characters, line endings, and literals without regard to case.
-/
import Parsing.Parser.Choice
import Parsing.Parser.Span
import Parsing.Text.CharClass
import Parsing.Text.CharLike

namespace Parsing.Parser

variable {ε : Type} [Element ε] [CharLike ε]

/-! ## §1. Classes. -/

/-- Takes as many elements of a class as there are. -/
def class0 (c : CharClass) : Parser ε (List ε) := takeWhile (CharLike.inTable c.table)

/-- Takes as many elements of a class as there are, at least one. -/
def class1 (c : CharClass) : Parser ε (List ε) :=
  takeWhileSome c.kind (CharLike.inTable c.table)

/-! ## §2. Literals without regard to case. -/

/-- Matches as many elements as the literal has, each the same letter as the
one in its place, and yields the elements of the input. -/
def tagNoCase (literal : List ε) : Parser ε (List ε) := fun s =>
  (mapKind .tag (take literal.length) s).andThen fun rest candidate =>
    if (candidate.zip literal).all fun pair => CharLike.sameLetter pair.1 pair.2 then
      .ok rest candidate
    else .fail ⟨s, .tag⟩

variable [DecidableEq ε]

/-! ## §3. Lines. -/

/-- Takes a line feed. -/
def newline : Parser ε ε := char (CharLike.ofByte 10)

/-- Takes a tabulator. -/
def tab : Parser ε ε := char (CharLike.ofByte 9)

/-- Takes a carriage return and a line feed. -/
def crlf : Parser ε (List ε) := mapKind .crlf (tag [CharLike.ofByte 13, CharLike.ofByte 10])

/-- Takes a line feed, with or without a carriage return in front of it. -/
def lineEnding : Parser ε (List ε) := mapKind .crlf (orElse (recognize newline) crlf)

/-- Takes what is in front of the next carriage return or line feed. -/
def notLineEnding : Parser ε (List ε) :=
  takeWhile fun e => e != CharLike.ofByte 13 && e != CharLike.ofByte 10

end Parsing.Parser
