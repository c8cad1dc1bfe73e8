/-
  Parsing.Report — AN ERROR SHOWN IN ITS CONTEXT.

  A report names the error and its place, and shows the failing line with up
  to two lines before it and two after it.  Each line is preceded by its
  number; the failing one is marked, and a pointer under it shows the column.

  The lines to show are chosen first, as data (`shown`), and written out
  afterwards (`render`).
-/
import Parsing.Location
import Parsing.Text.Lines

namespace Parsing.Report

/-- A line of the input as it is shown. -/
structure Line where
  /-- Its number, from zero. -/
  number : Nat
  text : List Char
  deriving DecidableEq

/-- A text without the carriage returns at its end. -/
def withoutReturns (text : List Char) : List Char :=
  (text.reverse.dropWhile (· == '\r')).reverse

/-- How many lines are shown on either side of the failing one. -/
def context : Nat := 2

/-- Whether the line with a given number is near enough to the failing one. -/
def isNear (failing number : Nat) : Bool :=
  failing - context ≤ number && number ≤ failing + context

/-- The lines of a text near the failing one, in order. -/
def shown (text : List Char) (failing : Nat) : List Line :=
  ((lines (· == '\n') text).zipIdx.filter fun l => isNear failing l.2).map
    fun l => ⟨l.2, withoutReturns l.1⟩

/-- What stands in front of a line. -/
def gutter (failing number : Nat) : List Char :=
  (if number = failing then "  > " else "    ").toList ++ (Nat.repr (number + 1)).toList ++
    " | ".toList

/-- A line as written; the failing one is followed by its pointer. -/
def Line.render (failing : Position) (l : Line) : List Char :=
  gutter failing.line l.number ++ l.text ++ ['\n'] ++
    if l.number = failing.line then
      List.replicate ((gutter failing.line l.number).length + failing.column) ' ' ++
        "^--- here\n".toList
    else []

/-- The report on an error of a given kind at a given place of a text. -/
def render (kind : Kind) (location : Location) (text : List Char) : String :=
  kind.description ++ " error at " ++ location.display ++ "\n\n" ++
    String.ofList
      ((shown text location.line).flatMap (Line.render ⟨location.line, location.column⟩))

end Parsing.Report

namespace Parsing

/-- The report on an error within the input it happened in. -/
def ParseError.report {ε : Type} [Element ε] [CharLike ε] (error : ParseError ε)
    (original : List ε) : String :=
  Report.render error.kind (error.location original) (CharLike.render original)

end Parsing
