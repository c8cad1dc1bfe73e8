/-
  Parsing.ParseError — A FAILURE: WHERE AND WHY.

  A failure holds what was left of the input at the place where it happened,
  and its kind.  `rebase` carries a failure from a cut-out part of an input
  over to the input itself; that changes where it happened, and never why.
-/
import Parsing.Kind
import Parsing.Sequence.Basic

namespace Parsing

/-- A failure: the input left where it happened, and its cause. -/
structure ParseError (ε : Type) where
  rest : List ε
  kind : Kind
  deriving DecidableEq

namespace ParseError

variable {ε : Type}

/-- The stable number of the cause. -/
def code (error : ParseError ε) : Nat := error.kind.code

/-- The same place, another cause. -/
def withKind (kind : Kind) (error : ParseError ε) : ParseError ε := { error with kind := kind }

/-- The one-line message: the cause, and how many elements were left. -/
def message (error : ParseError ε) : String :=
  error.kind.description ++ " error with " ++ Nat.repr error.rest.length ++
    " element(s) remaining"

/-- A failure inside `view`, told as one inside `outer`, which starts where
`view` starts: as far into `outer` as it was into `view`. -/
def rebase [Element ε] (view outer : List ε) (error : ParseError ε) : ParseError ε where
  rest := (Sequence.splitAt outer
    (Sequence.clampOffset outer (Sequence.offsetOf view error.rest))).2
  kind := error.kind

end ParseError

end Parsing
