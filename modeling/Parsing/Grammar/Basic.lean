/-
  Parsing.Grammar.Basic — GRAMMARS AS TREES.

  A grammar is a tree with one node for each use of a combinator.  The leaves
  are parsers that no other parser is part of: the `Atom`s, which any sequence
  has, and the atoms of a type `κ`, which depend on the sort of element:
  `AsciiAtom`s where elements stand for characters, and none elsewhere.  What
  the client supplies, predicates and functions on values and errors, is
  supplied as functions.

  A tree may refer to *rules* by name, so that grammars can be recursive.
-/
import Parsing.Text.CharClass
import Parsing.Value

namespace Parsing

/-- A parser without parts, over any sort of element. -/
inductive Atom (ε : Type) where
  | take (n : Nat)
  | takeWhile (p : ε → Bool)
  | takeWhile1 (p : ε → Bool)
  | takeTill (p : ε → Bool)
  | takeTill1 (p : ε → Bool)
  | takeWhileBounded (lower upper : Nat) (p : ε → Bool)
  | takeUntil (literal : List ε)
  | takeUntil1 (literal : List ε)
  | tag (literal : List ε)
  | isA (set : List ε)
  | isNot (set : List ε)
  | char (expected : ε)
  | satisfy (p : ε → Bool)
  | oneOf (set : List ε)
  | noneOf (set : List ε)
  | success (value : Value ε)
  | fail
  | rest
  | restLen
  | eof
  /-- Any function from inputs to replies. -/
  | custom (p : Parser ε (Value ε))

/-- A parser without parts, over elements that stand for characters. -/
inductive AsciiAtom (ε : Type) where
  | class0 (c : CharClass)
  | class1 (c : CharClass)
  | tagNoCase (literal : List ε)
  | newline
  | tab
  | crlf
  | lineEnding
  | notLineEnding
  | intLiteral
  | floatLiteral

/-- How several parsers are put together: as a tuple, in an array of fixed
size, or in a list of any length. -/
inductive Form where
  | tuple
  | array
  | list
  deriving DecidableEq

/-- A parser as a tree. -/
inductive Grammar (ε κ : Type) where
  | atom (a : Atom ε)
  | special (a : κ)
  /-- The parser of the rule of a given name. -/
  | rule (name : String)
  | lazy (p : Grammar ε κ)
  -- one after another
  | multiple (form : Form) (ps : List (Grammar ε κ))
  | pair (p q : Grammar ε κ)
  | preceded (p q : Grammar ε κ)
  | terminated (p q : Grammar ε κ)
  | delimited (p q r : Grammar ε κ)
  | separatedPair (p q r : Grammar ε κ)
  -- one or another
  | alt (form : Form) (ps : List (Grammar ε κ))
  -- again and again
  | count (n : Nat) (p : Grammar ε κ)
  | fill (slots : List (Value ε)) (p : Grammar ε κ)
  | many0 (p : Grammar ε κ)
  | many1 (p : Grammar ε κ)
  | manyBounded (lower upper : Nat) (p : Grammar ε κ)
  | many0Count (p : Grammar ε κ)
  | many1Count (p : Grammar ε κ)
  | manyTill (p marker : Grammar ε κ)
  | foldMany0 (p : Grammar ε κ) (first : Value ε) (combine : Value ε → Value ε → Value ε)
  | foldMany1 (p : Grammar ε κ) (first : Value ε) (combine : Value ε → Value ε → Value ε)
  | foldManyBounded (lower upper : Nat) (p : Grammar ε κ) (first : Value ε)
      (combine : Value ε → Value ε → Value ε)
  -- behind a length
  | lengthCount (counter p : Grammar ε κ)
  | lengthData (counter : Grammar ε κ)
  | lengthValue (counter p : Grammar ε κ)
  -- changing the value
  | map (f : Value ε → Value ε) (p : Grammar ε κ)
  | mapRes (f : Value ε → Option (Value ε)) (p : Grammar ε κ)
  | replaceValue (value : Value ε) (p : Grammar ε κ)
  | flatMap (p : Grammar ε κ) (next : Value ε → Grammar ε κ)
  | mapParser (outer inner : Grammar ε κ)
  | verify (check : Value ε → Bool) (p : Grammar ε κ)
  | recognize (p : Grammar ε κ)
  | consumed (p : Grammar ε κ)
  -- changing the error
  | mapErr (f : ParseError ε → ParseError ε) (p : Grammar ε κ)
  | mapKind (kind : Kind) (p : Grammar ε κ)
  | ignoreKind (kind : Kind) (p : Grammar ε κ)
  -- trying and looking ahead
  | optional (p : Grammar ε κ)
  | peek (p : Grammar ε κ)
  | negate (p : Grammar ε κ)
  | conditional (enabled : Bool) (p : Grammar ε κ)
  | allConsuming (p : Grammar ε κ)

/-- The rules that a grammar may refer to, by name. -/
abbrev Rules (ε κ : Type) := String → Grammar ε κ

/-- The rules of a table of pairs; a name that is not in it stands for the
parser that always fails. -/
def Rules.ofList {ε κ : Type} (table : List (String × Grammar ε κ)) : Rules ε κ := fun name =>
  (table.lookup name).getD (.atom .fail)

end Parsing
