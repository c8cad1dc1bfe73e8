/-
  Parsing.Location — LINES AND COLUMNS.

  A place in an input is told by the part of the input in front of it: the
  line is the number of newlines in that part, the column the number of
  elements after the last of them.  Both count from zero, and are shown to
  people counting from one.

  Main statements: `after_append`, positions are computed piece by piece;
  `line_after`, the line is the number of newlines.
-/
import Parsing.ParseError
import Parsing.Text.CharLike

namespace Parsing

/-- A line and a column, both from zero. -/
structure Position where
  line : Nat
  column : Nat
  deriving DecidableEq

namespace Position

variable {ε : Type} [CharLike ε]

/-- The place where every input starts. -/
def start : Position := ⟨0, 0⟩

/-- The place after one more element. -/
def advance (p : Position) (e : ε) : Position :=
  if CharLike.isNewline e then ⟨p.line + 1, 0⟩ else ⟨p.line, p.column + 1⟩

/-- The place after a sequence that starts at `p`. -/
def after (p : Position) (s : List ε) : Position := s.foldl advance p

/-- The place of `rest` in `original`. -/
def locate [Element ε] (original rest : List ε) : Position :=
  start.after (Sequence.consumed original rest)

@[simp] theorem after_nil (p : Position) : p.after ([] : List ε) = p := rfl

@[simp] theorem after_cons (p : Position) (e : ε) (s : List ε) :
    p.after (e :: s) = (p.advance e).after s := rfl

/-- The place after two sequences is the place after the second, which starts where the
first one ends. -/
theorem after_append (p : Position) (s t : List ε) : p.after (s ++ t) = (p.after s).after t :=
  List.foldl_append

/-- A sequence moves the line on by the number of its newlines. -/
theorem line_after (p : Position) (s : List ε) :
    (p.after s).line = p.line + s.countP CharLike.isNewline := by
  induction s generalizing p with
  | nil => rfl
  | cons e s ih =>
    rw [after_cons, ih, List.countP_cons]
    cases h : CharLike.isNewline e <;> simp [advance, h]
    omega

end Position

/-- A place in an input: line and column, and the offset in native units. -/
structure Location where
  line : Nat
  column : Nat
  offset : Nat
  deriving DecidableEq

namespace Location

/-- The words for a place, counting from one. -/
def display (l : Location) : String :=
  "line " ++ Nat.repr (l.line + 1) ++ ", column " ++ Nat.repr (l.column + 1)

end Location

/-- Where in `original` an error happened. -/
def ParseError.location {ε : Type} [Element ε] [CharLike ε] (error : ParseError ε)
    (original : List ε) : Location :=
  let place := Position.locate original error.rest
  { line := place.line, column := place.column,
    offset := Sequence.offsetOf original error.rest }

end Parsing
