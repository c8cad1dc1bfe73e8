/-
  Parsing.Parser.Choice — ONE PARSER OR ANOTHER.

  Alternatives are tried in order on the same input, and the first success is
  the success of the whole.  If all fail, the error is that of the last one.
  `orElse` joins two parsers and `firstOf` several by it; `alt` runs down a
  list, which may be empty.

  Main statement: `alt_cons_eq_firstOf`, the two ways to try several parsers
  agree.
-/
import Parsing.Parser.Basic

namespace Parsing.Parser

variable {ε α : Type}

/-- Runs `p`, and `q` on the same input if `p` fails. -/
def orElse (p q : Parser ε α) : Parser ε α := fun s => (p s).orElse fun _ => q s

/-- Tries `p` and then the others, joined by `orElse`. -/
def firstOf (p : Parser ε α) : List (Parser ε α) → Parser ε α
  | [] => p
  | q :: others => orElse p (firstOf q others)

/-- Tries the parsers of a list; `last` is the error of the one before them. -/
def altFrom (last : ParseError ε) : List (Parser ε α) → Parser ε α
  | [], _ => .fail last
  | p :: ps, s => (p s).orElse fun error => altFrom error ps s

/-- Tries the parsers of a list; an empty list fails where it is run. -/
def alt (ps : List (Parser ε α)) : Parser ε α := fun s => altFrom ⟨s, .alt⟩ ps s

/-- Once there is a parser to try, the error handed in is of no account. -/
theorem altFrom_cons_eq_firstOf (last : ParseError ε) (p : Parser ε α) (ps : List (Parser ε α))
    (s : List ε) : altFrom last (p :: ps) s = firstOf p ps s := by
  induction ps generalizing last p with
  | nil => show (p s).orElse _ = p s; cases p s <;> rfl
  | cons q ps ih =>
    show (p s).orElse (fun error => altFrom error (q :: ps) s) =
      (p s).orElse fun _ => firstOf q ps s
    cases p s with
    | ok rest value => rfl
    | fail error => exact ih error q
    | unfinished => rfl

/-- Alternatives from a list reply as those joined by `orElse` do. -/
theorem alt_cons_eq_firstOf (p : Parser ε α) (ps : List (Parser ε α)) (s : List ε) :
    alt (p :: ps) s = firstOf p ps s :=
  altFrom_cons_eq_firstOf ⟨s, .alt⟩ p ps s

end Parsing.Parser
