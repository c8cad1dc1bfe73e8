/-
  Parsing.Parser.Basic — PARSERS, AND THE ONES THAT LOOK AT NO ELEMENT.

  A parser is a function from inputs to replies.  Here are those that succeed
  or fail at once, those that take or measure what is left, and the ways to
  change what a parser yields or how it fails.
-/
import Parsing.Reply

namespace Parsing

/-- A parser of `α`s over sequences of `ε`s. -/
abbrev Parser (ε α : Type) := List ε → Reply ε α

namespace Parser

variable {ε α β : Type}

/-! ## §1. Parsers that look at no element. -/

/-- Yields a value and uses nothing up. -/
def success (value : α) : Parser ε α := fun s => .ok s value

/-- Fails where it is run. -/
def fail (kind : Kind) : Parser ε α := fun s => .fail ⟨s, kind⟩

/-- Takes all that is left. -/
def rest [Element ε] : Parser ε (List ε) := fun s =>
  let parts := Sequence.splitAt s (Sequence.nativeLen s)
  .ok parts.2 parts.1

/-- Counts the elements that are left, and leaves them. -/
def restLen : Parser ε Nat := fun s => .ok s s.length

/-- Succeeds at the end of the input only. -/
def eof : Parser ε (List ε) := fun s => if s.isEmpty then .ok s s else .fail ⟨s, .eof⟩

/-- Makes a parser only when it is run. -/
def lazy (make : Unit → Parser ε α) : Parser ε α := fun s => make () s

/-! ## §2. Changing the value. -/

/-- Runs `p` and changes its value. -/
def map (f : α → β) (p : Parser ε α) : Parser ε β := fun s => (p s).map f

/-- Runs `p` and yields a fixed value. -/
def replaceValue (value : β) (p : Parser ε α) : Parser ε β := map (fun _ => value) p

/-- Runs `p` and converts its value; a conversion without a result is an error
behind what `p` matched. -/
def mapRes (f : α → Option β) (p : Parser ε α) : Parser ε β := fun s =>
  (p s).andThen fun rest value => Reply.convert rest .mapRes (f value) (Reply.ok rest)

/-- Runs `p`, and then, on what it leaves, the parser made from its value. -/
def flatMap (p : Parser ε α) (next : α → Parser ε β) : Parser ε β := fun s =>
  (p s).andThen fun rest value => next value rest

/-- Runs `p` and keeps a success whose value satisfies `check`. -/
def verify (check : α → Bool) (p : Parser ε α) : Parser ε α := fun s =>
  (p s).andThen fun rest value => if check value then .ok rest value else .fail ⟨s, .verify⟩

/-! ## §3. Changing the error. -/

/-- Runs `p` and changes its error. -/
def mapErr (f : ParseError ε → ParseError ε) (p : Parser ε α) : Parser ε α := fun s =>
  (p s).mapError f

/-- Runs `p` and gives its error another kind. -/
def mapKind (kind : Kind) (p : Parser ε α) : Parser ε α := mapErr (·.withKind kind) p

/-- Runs `p`; an error of the given kind becomes the success of having found
nothing. -/
def ignoreKind (kind : Kind) (p : Parser ε α) : Parser ε (Option α) := fun s =>
  ((p s).map some).orElse fun error => if error.kind = kind then .ok s none else .fail error

/-! ## §4. Trying, looking ahead, and what was matched. -/

/-- Runs `p`; any error becomes the success of having found nothing. -/
def optional (p : Parser ε α) : Parser ε (Option α) := fun s =>
  ((p s).map some).orElse fun _ => .ok s none

/-- Runs `p` and uses nothing up if it succeeds. -/
def peek (p : Parser ε α) : Parser ε α := fun s => (p s).andThen fun _ value => .ok s value

/-- Succeeds where `p` fails, and uses nothing up. -/
def negate (p : Parser ε α) : Parser ε Unit := fun s =>
  match p s with
  | .ok _ _ => .fail ⟨s, .negate⟩
  | .fail _ => .ok s ()
  | .unfinished => .unfinished

/-- Runs `p` if `enabled`, and otherwise succeeds with nothing. -/
def conditional (enabled : Bool) (p : Parser ε α) : Parser ε (Option α) :=
  if enabled then map some p else success none

/-- Runs `p` and demands that it leave nothing. -/
def allConsuming (p : Parser ε α) : Parser ε α := fun s =>
  (p s).andThen fun rest value => if rest.isEmpty then .ok rest value else .fail ⟨rest, .eof⟩

variable [Element ε]

/-- Runs `p` and yields what it used up next to its value. -/
def consumed (p : Parser ε α) : Parser ε (List ε × α) := fun s =>
  (p s).andThen fun rest value => .ok rest (Sequence.consumed s rest, value)

/-- Runs `p` and yields what it used up. -/
def recognize (p : Parser ε α) : Parser ε (List ε) := fun s =>
  (p s).andThen fun rest _ => .ok rest (Sequence.consumed s rest)

/-- Runs `outer`, and then `inner` on the slice that `outer` yields.  What
`inner` leaves of the slice is dropped, and its errors are told as errors in
the input. -/
def mapParser (outer : Parser ε (List ε)) (inner : Parser ε β) : Parser ε β := fun s =>
  (outer s).andThen fun rest slice =>
    ((inner slice).mapError (·.rebase slice s)).andThen fun _ value => .ok rest value

end Parser

end Parsing
