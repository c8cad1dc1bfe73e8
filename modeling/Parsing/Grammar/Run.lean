/-
  Parsing.Grammar.Run — RUNNING A GRAMMAR.

  `Grammar.parser` puts the combinators together as the tree says, given a
  parser for each rule.  The parsers of the rules are made from the rules
  themselves, to a given *depth*: how many rules may be open at once, one
  inside another.  A run that would open one more is unfinished.

  Main statements: `run_rule_zero` and `run_rule_succ`, what opening a rule
  costs.
-/
import Parsing.Grammar.Basic
import Parsing.Parser.Number
import Parsing.Parser.Sequencing

namespace Parsing

variable {ε κ : Type} [Element ε] [DecidableEq ε]

/-- The parser that an atom stands for. -/
def Atom.parser : Atom ε → Parser ε (Value ε)
  | take n => .map .slice (Parser.take n)
  | takeWhile p => .map .slice (Parser.takeWhile p)
  | takeWhile1 p => .map .slice (Parser.takeWhile1 p)
  | takeTill p => .map .slice (Parser.takeTill p)
  | takeTill1 p => .map .slice (Parser.takeTill1 p)
  | takeWhileBounded lower upper p => .map .slice (Parser.takeWhileBounded lower upper p)
  | takeUntil literal => .map .slice (Parser.takeUntil literal)
  | takeUntil1 literal => .map .slice (Parser.takeUntil1 literal)
  | tag literal => .map .slice (Parser.tag literal)
  | isA set => .map .slice (Parser.isA set)
  | isNot set => .map .slice (Parser.isNot set)
  | char expected => .map .elem (Parser.char expected)
  | satisfy p => .map .elem (Parser.satisfy p)
  | oneOf set => .map .elem (Parser.oneOf set)
  | noneOf set => .map .elem (Parser.noneOf set)
  | success value => Parser.success value
  | fail => Parser.fail .fail
  | rest => .map .slice Parser.rest
  | restLen => .map .size Parser.restLen
  | eof => .map .slice Parser.eof
  | custom p => p

/-- The parser that an atom over character-like elements stands for. -/
def AsciiAtom.parser [CharLike ε] : AsciiAtom ε → Parser ε (Value ε)
  | class0 c => .map .slice (Parser.class0 c)
  | class1 c => .map .slice (Parser.class1 c)
  | tagNoCase literal => .map .slice (Parser.tagNoCase literal)
  | newline => .map .elem Parser.newline
  | tab => .map .elem Parser.tab
  | crlf => .map .slice Parser.crlf
  | lineEnding => .map .slice Parser.lineEnding
  | notLineEnding => .map .slice Parser.notLineEnding
  | intLiteral => .map .int Parser.intLiteral
  | floatLiteral => .map .float Parser.floatLiteral

/-- The atoms that a sort of element has beside those of all elements. -/
class Special (ε κ : Type) where
  parser : κ → Parser ε (Value ε)

/-- Elements of no special sort have no special atoms. -/
instance : Special ε Empty where
  parser a := nomatch a

instance [CharLike ε] : Special ε (AsciiAtom ε) where
  parser := AsciiAtom.parser

/-- A list of parsers run one after another, in a given form. -/
def Form.multiple (form : Form) (ps : List (Parser ε (Value ε))) : Parser ε (Value ε) :=
  match form with
  | tuple => .map .tuple (Parser.chain ps)
  | array | list => .map .list (Parser.multiple ps)

/-- A list of parsers tried one after another, in a given form. -/
def Form.alt (form : Form) (ps : List (Parser ε (Value ε))) : Parser ε (Value ε) :=
  match form, ps with
  | tuple, p :: ps => Parser.firstOf p ps
  | _, ps => Parser.alt ps

namespace Grammar

variable [Special ε κ]

mutual

/-- The parser that a tree stands for, given those that the rules stand for. -/
def parser (rules : String → Parser ε (Value ε)) : Grammar ε κ → Parser ε (Value ε)
  | atom a => a.parser
  | special a => Special.parser a
  | rule name => rules name
  | lazy p => Parser.lazy fun _ => parser rules p
  | multiple form ps => form.multiple (parsers rules ps)
  | pair p q => .map Value.ofPair (Parser.pair (parser rules p) (parser rules q))
  | preceded p q => Parser.preceded (parser rules p) (parser rules q)
  | terminated p q => Parser.terminated (parser rules p) (parser rules q)
  | delimited p q r => Parser.delimited (parser rules p) (parser rules q) (parser rules r)
  | separatedPair p q r =>
      .map Value.ofPair
        (Parser.separatedPair (parser rules p) (parser rules q) (parser rules r))
  | alt form ps => form.alt (parsers rules ps)
  | count n p => .map .list (Parser.count n (parser rules p))
  | fill slots p => .map .list (Parser.filled slots (parser rules p))
  | many0 p => .map .list (Parser.many0 (parser rules p))
  | many1 p => .map .list (Parser.many1 (parser rules p))
  | manyBounded lower upper p => .map .list (Parser.manyBounded lower upper (parser rules p))
  | many0Count p => .map .size (Parser.many0Count (parser rules p))
  | many1Count p => .map .size (Parser.many1Count (parser rules p))
  | manyTill p marker =>
      .map (fun v => Value.ofPair (.list v.1, v.2))
        (Parser.manyTill (parser rules p) (parser rules marker))
  | foldMany0 p first combine => Parser.foldMany0 (parser rules p) first combine
  | foldMany1 p first combine => Parser.foldMany1 (parser rules p) first combine
  | foldManyBounded lower upper p first combine =>
      Parser.foldManyBounded lower upper (parser rules p) first combine
  | lengthCount counter p =>
      .map .list (Parser.lengthCount (parser rules counter) (parser rules p))
  | lengthData counter => .map .slice (Parser.lengthData (parser rules counter))
  | lengthValue counter p => Parser.lengthValue (parser rules counter) (parser rules p)
  | map f p => .map f (parser rules p)
  | mapRes f p => Parser.mapRes f (parser rules p)
  | replaceValue value p => Parser.replaceValue value (parser rules p)
  | flatMap p next => Parser.flatMap (parser rules p) fun v => parser rules (next v)
  | mapParser outer inner =>
      Parser.mapParser (.map Value.toSlice (parser rules outer)) (parser rules inner)
  | verify check p => Parser.verify check (parser rules p)
  | recognize p => .map .slice (Parser.recognize (parser rules p))
  | consumed p =>
      .map (fun v => Value.ofPair (.slice v.1, v.2)) (Parser.consumed (parser rules p))
  | mapErr f p => Parser.mapErr f (parser rules p)
  | mapKind kind p => Parser.mapKind kind (parser rules p)
  | ignoreKind kind p => .map Value.ofOption (Parser.ignoreKind kind (parser rules p))
  | optional p => .map Value.ofOption (Parser.optional (parser rules p))
  | peek p => Parser.peek (parser rules p)
  | negate p => .map (fun _ => .unit) (Parser.negate (parser rules p))
  | conditional enabled p =>
      .map Value.ofOption (Parser.conditional enabled (parser rules p))
  | allConsuming p => Parser.allConsuming (parser rules p)

/-- The parsers that the trees of a list stand for. -/
def parsers (rules : String → Parser ε (Value ε)) :
    List (Grammar ε κ) → List (Parser ε (Value ε))
  | [] => []
  | p :: ps => parser rules p :: parsers rules ps

end

end Grammar

namespace Rules

variable [Special ε κ]

/-- The parser of each rule, when no more than `depth` rules may be open. -/
def parser (rules : Rules ε κ) : (depth : Nat) → String → Parser ε (Value ε)
  | 0, _ => fun _ => .unfinished
  | depth + 1, name => fun s => (rules name).parser (parser rules depth) s

/-- Runs a grammar with its rules, no more than `depth` of them open at once. -/
def run (rules : Rules ε κ) (depth : Nat) (g : Grammar ε κ) : Parser ε (Value ε) :=
  g.parser (rules.parser depth)

/-- How many rules may be open at once where nothing else is said. -/
def usualDepth : Nat := Nat.pow 2 20

/-- Runs a grammar with its rules to the usual depth. -/
def parse (rules : Rules ε κ) (g : Grammar ε κ) : Parser ε (Value ε) := rules.run usualDepth g

/-- Where no rule may be open, none is opened. -/
theorem run_rule_zero (rules : Rules ε κ) (name : String) (s : List ε) :
    rules.run 0 (.rule name) s = .unfinished := rfl

/-- To open a rule takes one of those that may be open, and nothing else. -/
theorem run_rule_succ (rules : Rules ε κ) (depth : Nat) (name : String) (s : List ε) :
    rules.run (depth + 1) (.rule name) s = rules.run depth (rules name) s := rfl

end Rules

end Parsing
