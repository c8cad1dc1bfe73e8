/-
  Parsing.Parser.Framing — LENGTH PREFIXES.

  A frame is a prefix that says how long it is, and what follows: so many
  elements (`lengthData`), so many values (`lengthCount`), or a value inside
  exactly so many elements (`lengthValue`).  A prefix is read by any parser
  whose value can stand for a length; one that is negative or too large is an
  error of its own, at the place before the prefix.
-/
import Parsing.Parser.Repetition
import Parsing.Parser.Span

namespace Parsing

/-- A type whose values can stand for lengths, as far as they are in range. -/
class AsLength (α : Type) where
  asLength? : α → Option Nat

/-- A natural number stands for itself up to the greatest length. -/
instance : AsLength Nat where
  asLength? n := if n ≤ Parser.maxCount then some n else none

/-- An integer stands for itself from zero to the greatest length. -/
instance : AsLength Int where
  asLength? n := if 0 ≤ n then AsLength.asLength? n.toNat else none

namespace Parser

variable {ε α β : Type} [AsLength α]

/-- Reads a length prefix. -/
def readLength (counter : Parser ε α) : Parser ε Nat := fun s =>
  (counter s).andThen fun rest value =>
    Reply.convert s .length (AsLength.asLength? value) (Reply.ok rest)

/-- Reads a length and then so many values of `p`. -/
def lengthCount (counter : Parser ε α) (p : Parser ε β) : Parser ε (List β) :=
  flatMap (readLength counter) fun n => count n p

variable [Element ε]

/-- Reads a length and then takes so many elements. -/
def lengthData (counter : Parser ε α) : Parser ε (List ε) := flatMap (readLength counter) take

/-- Reads a length, takes so many elements and runs `p` inside them.  What `p`
leaves of them is dropped, and its errors are told as errors in the input. -/
def lengthValue (counter : Parser ε α) (p : Parser ε β) : Parser ε β := fun s =>
  (readLength counter s).andThen fun afterPrefix n =>
    (take n afterPrefix).andThen fun rest block =>
      ((p block).mapError (·.rebase block afterPrefix)).andThen fun _ value => .ok rest value

end Parser

end Parsing
