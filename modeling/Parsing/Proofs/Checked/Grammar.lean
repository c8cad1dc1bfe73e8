/-
  Parsing.Proofs.Checked.Grammar — NO CUT IS EVER OUT OF PLACE.

  A grammar is run once more with the checked operations at each of its nodes,
  and the run never faults: every cut is made at a boundary of the sequence
  that is cut, no search for a boundary steps below zero, and no count passes
  its limit.  Nothing is asked of the parts that the client supplies.  A parser
  that is any function may leave a sequence that has nothing to do with its
  input, and a change of errors may name any place, since offsets are clamped
  before they are used.

  The proof is one induction over the tree, with the lemma of each combinator
  at its node, inside an induction over the depth to which rules may be open.

  Main statement: `no_operation_faults`.
-/
import Parsing.Grammar.Run
import Parsing.Proofs.Checked.Combinators

namespace Parsing

open CheckedParser (Computes AllComputes computes_ofParser ofParser once)

variable {ε κ : Type} [Element ε] [DecidableEq ε]

/-! ## §1. Atoms and lists of parsers. -/

/-- The checked parser that an atom stands for. -/
def Atom.checked : Atom ε → CheckedParser ε (Value ε)
  | take n => once (.map .slice) (CheckedParser.take n)
  | takeWhile p => once (.map .slice) (CheckedParser.takeWhile p)
  | takeWhile1 p => once (.map .slice) (CheckedParser.takeWhileSome .takeWhile p)
  | takeTill p => once (.map .slice) (CheckedParser.takeWhile fun e => !p e)
  | takeTill1 p => once (.map .slice) (CheckedParser.takeWhileSome .takeTill fun e => !p e)
  | takeWhileBounded lower upper p =>
      once (.map .slice) (CheckedParser.takeWhileBounded lower upper p)
  | takeUntil literal => once (.map .slice) (CheckedParser.takeUntil false literal)
  | takeUntil1 literal => once (.map .slice) (CheckedParser.takeUntil true literal)
  | tag literal => once (.map .slice) (CheckedParser.tag literal)
  | isA set =>
      once (.map .slice) (once (.mapKind .isA)
        (CheckedParser.takeWhileSome .takeWhile fun e => set.any (· == e)))
  | isNot set =>
      once (.map .slice) (once (.mapKind .isNot)
        (CheckedParser.takeWhileSome .takeWhile fun e => set.all (· != e)))
  | char expected => once (.map .elem) (CheckedParser.element .char (· == expected))
  | satisfy p => once (.map .elem) (CheckedParser.element .satisfy p)
  | oneOf set => once (.map .elem) (CheckedParser.element .oneOf fun e => set.any (· == e))
  | noneOf set => once (.map .elem) (CheckedParser.element .noneOf fun e => set.all (· != e))
  | rest => once (.map .slice) CheckedParser.rest
  -- these cut nothing
  | success value => ofParser (.success value)
  | fail => ofParser (.fail .fail)
  | restLen => ofParser (.map .size Parser.restLen)
  | eof => ofParser (.map .slice Parser.eof)
  -- what the function of a client does inside is its own affair
  | custom p => ofParser p

/-- The checked parser that an atom over character-like elements stands for. -/
def AsciiAtom.checked [CharLike ε] : AsciiAtom ε → CheckedParser ε (Value ε)
  | class0 c => once (.map .slice) (CheckedParser.elementsOf c false)
  | class1 c => once (.map .slice) (CheckedParser.elementsOf c true)
  | tagNoCase literal => once (.map .slice) (CheckedParser.tagNoCase literal)
  | newline => once (.map .elem) (CheckedParser.element .char (· == CharLike.ofByte 10))
  | tab => once (.map .elem) (CheckedParser.element .char (· == CharLike.ofByte 9))
  | crlf =>
      once (.map .slice) (once (.mapKind .crlf)
        (CheckedParser.tag [CharLike.ofByte 13, CharLike.ofByte 10]))
  | lineEnding => once (.map .slice) CheckedParser.lineEnding
  | notLineEnding =>
      once (.map .slice) (CheckedParser.takeWhile fun e =>
        e != CharLike.ofByte 13 && e != CharLike.ofByte 10)
  | intLiteral =>
      once (.map .int) (CheckedParser.literal intComponents .integer Numeral.word?)
  | floatLiteral =>
      once (.map .float) (CheckedParser.literal floatComponents .float fun cs =>
        (Numeral.decimal? cs).bind Numeral.Binary64.ofDecimal?)

/-- A list of checked parsers run one after another, in a given form. -/
def Form.checkedMultiple (form : Form) (ps' : List (CheckedParser ε (Value ε))) :
    CheckedParser ε (Value ε) :=
  match form with
  | tuple => once (.map .tuple) (CheckedParser.chain ps')
  | array | list => once (.map .list) (CheckedParser.multipleFrom [] ps')

/-- A list of checked parsers tried one after another, in a given form. -/
def Form.checkedAlt (form : Form) (ps' : List (CheckedParser ε (Value ε))) :
    CheckedParser ε (Value ε) :=
  match form, ps' with
  | tuple, p' :: ps' => CheckedParser.firstOf p' ps'
  | _, ps' => CheckedParser.alt ps'

/-- One case for each atom; a client's own parser is taken as it is. -/
theorem Atom.computes_checked (a : Atom ε) : a.checked.Computes a.parser := by
  cases a with
  | take n => exact (CheckedParser.computes_take n).map _
  | takeWhile p => exact (CheckedParser.computes_takeWhile p).map _
  | takeWhile1 p => exact (CheckedParser.computes_takeWhileSome .takeWhile p).map _
  | takeTill p => exact (CheckedParser.computes_takeWhile _).map _
  | takeTill1 p => exact (CheckedParser.computes_takeWhileSome .takeTill _).map _
  | takeWhileBounded lower upper p =>
    exact (CheckedParser.computes_takeWhileBounded lower upper p).map _
  | takeUntil literal => exact (CheckedParser.computes_takeUntil literal).map _
  | takeUntil1 literal => exact (CheckedParser.computes_takeUntil1 literal).map _
  | tag literal => exact (CheckedParser.computes_tag literal).map _
  | isA set => exact ((CheckedParser.computes_takeWhileSome .takeWhile _).mapKind .isA).map _
  | isNot set => exact ((CheckedParser.computes_takeWhileSome .takeWhile _).mapKind .isNot).map _
  | char expected => exact (CheckedParser.computes_element .char _).map _
  | satisfy p => exact (CheckedParser.computes_element .satisfy p).map _
  | oneOf set => exact (CheckedParser.computes_element .oneOf _).map _
  | noneOf set => exact (CheckedParser.computes_element .noneOf _).map _
  | rest => exact CheckedParser.computes_rest.map _
  | success value => exact computes_ofParser _
  | fail => exact computes_ofParser _
  | restLen => exact computes_ofParser _
  | eof => exact computes_ofParser _
  | custom p => exact computes_ofParser p

/-- One case for each atom over characters. -/
theorem AsciiAtom.computes_checked [CharLike ε] (a : AsciiAtom ε) :
    a.checked.Computes a.parser := by
  cases a with
  | class0 c => exact (CheckedParser.computes_elementsOf c false).map _
  | class1 c => exact (CheckedParser.computes_elementsOf c true).map _
  | tagNoCase literal => exact (CheckedParser.computes_tagNoCase literal).map _
  | newline => exact (CheckedParser.computes_element .char _).map _
  | tab => exact (CheckedParser.computes_element .char _).map _
  | crlf => exact ((CheckedParser.computes_tag _).mapKind .crlf).map _
  | lineEnding => exact CheckedParser.computes_lineEnding.map _
  | notLineEnding => exact (CheckedParser.computes_takeWhile _).map _
  | intLiteral => exact (CheckedParser.computes_literal _ _ _).map _
  | floatLiteral => exact (CheckedParser.computes_literal _ _ _).map _

omit [Element ε] [DecidableEq ε] in
/-- In a tuple the values are put together differently from those in a list, and cut
alike. -/
theorem Form.computes_checkedMultiple (form : Form) {ps' : List (CheckedParser ε (Value ε))}
    {ps : List (Parser ε (Value ε))} (hps : AllComputes ps' ps) :
    (form.checkedMultiple ps').Computes (form.multiple ps) := by
  cases form with
  | tuple => exact (Computes.chain hps).map _
  | array => exact (Computes.multipleFrom [] hps).map _
  | list => exact (Computes.multipleFrom [] hps).map _

omit [Element ε] [DecidableEq ε] in
/-- In every form the alternatives are run as they come. -/
theorem Form.computes_checkedAlt (form : Form) {ps' : List (CheckedParser ε (Value ε))}
    {ps : List (Parser ε (Value ε))} (hps : AllComputes ps' ps) :
    (form.checkedAlt ps').Computes (form.alt ps) := by
  cases form with
  | tuple =>
    cases hps with
    | nil => exact Computes.alt .nil
    | cons hp hps => exact hp.firstOf hps
  | array => exact Computes.alt hps
  | list => exact Computes.alt hps

/-- The special atoms of a sort of element, with their checked parsers. -/
class CheckedSpecial (ε κ : Type) [Special ε κ] where
  checked : κ → CheckedParser ε (Value ε)
  computes : ∀ a, (checked a).Computes (Special.parser a)

instance : CheckedSpecial ε Empty where
  checked a := nomatch a
  computes a := nomatch a

instance [CharLike ε] : CheckedSpecial ε (AsciiAtom ε) where
  checked := AsciiAtom.checked
  computes := AsciiAtom.computes_checked

/-! ## §2. Trees. -/

namespace Grammar

variable [Special ε κ] [CheckedSpecial ε κ]

mutual

/-- The checked parser that a tree stands for, given those that the rules stand for. -/
def checked (rules' : String → CheckedParser ε (Value ε)) :
    Grammar ε κ → CheckedParser ε (Value ε)
  | atom a => a.checked
  | special a => CheckedSpecial.checked a
  | rule name => rules' name
  | lazy p => fun s => checked rules' p s
  | multiple form ps => form.checkedMultiple (checkeds rules' ps)
  | pair p q => once (.map .ofPair) (CheckedParser.pair (checked rules' p) (checked rules' q))
  | preceded p q =>
      once (.map Prod.snd) (CheckedParser.pair (checked rules' p) (checked rules' q))
  | terminated p q =>
      once (.map Prod.fst) (CheckedParser.pair (checked rules' p) (checked rules' q))
  | delimited p q r =>
      once (.map fun v => v.2.1) (CheckedParser.pair (checked rules' p)
        (CheckedParser.pair (checked rules' q) (checked rules' r)))
  | separatedPair p q r =>
      once (.map .ofPair) (once (.map fun v => (v.1, v.2.2)) (CheckedParser.pair
        (checked rules' p) (CheckedParser.pair (checked rules' q) (checked rules' r))))
  | alt form ps => form.checkedAlt (checkeds rules' ps)
  | count n p => once (.map .list) (CheckedParser.count n (checked rules' p))
  | fill slots p => once (.map .list) (CheckedParser.filled slots (checked rules' p))
  | many0 p =>
      once (.map .list)
        (CheckedParser.manyAs 0 Parser.maxCount (fun _ => .manyBounded) (checked rules' p))
  | many1 p =>
      once (.map .list)
        (CheckedParser.manyAs 1 Parser.maxCount (Parser.Stop.kindOr .many1) (checked rules' p))
  | manyBounded lower upper p =>
      once (.map .list)
        (CheckedParser.manyAs lower upper (fun _ => .manyBounded) (checked rules' p))
  | many0Count p => once (.map .size) (CheckedParser.manyCount 0 (checked rules' p))
  | many1Count p => once (.map .size) (CheckedParser.manyCount 1 (checked rules' p))
  | manyTill p marker =>
      once (.map fun v => .ofPair (.list v.1, v.2))
        (CheckedParser.manyTill (checked rules' p) (checked rules' marker))
  | foldMany0 p first combine =>
      CheckedParser.foldAs 0 Parser.maxCount .many1 (checked rules' p) first combine
  | foldMany1 p first combine =>
      CheckedParser.foldAs 1 Parser.maxCount .many1 (checked rules' p) first combine
  | foldManyBounded lower upper p first combine =>
      CheckedParser.foldAs lower upper .foldManyBounded (checked rules' p) first combine
  | lengthCount counter p =>
      once (.map .list) (CheckedParser.lengthCount (checked rules' counter) (checked rules' p))
  | lengthData counter =>
      once (.map .slice) (CheckedParser.lengthData (checked rules' counter))
  | lengthValue counter p =>
      CheckedParser.lengthValue (checked rules' counter) (checked rules' p)
  | map f p => once (.map f) (checked rules' p)
  | mapRes f p => once (.mapRes f) (checked rules' p)
  | replaceValue value p => once (.replaceValue value) (checked rules' p)
  | flatMap p next => CheckedParser.flatMap (checked rules' p) fun v => checked rules' (next v)
  | mapParser outer inner =>
      CheckedParser.mapParser (once (.map Value.toSlice) (checked rules' outer)) (checked rules' inner)
  | verify check p => once (.verify check) (checked rules' p)
  | recognize p => once (.map .slice) (CheckedParser.recognize (checked rules' p))
  | consumed p =>
      once (.map fun v => .ofPair (.slice v.1, v.2)) (CheckedParser.consumed (checked rules' p))
  | mapErr f p => once (.mapErr f) (checked rules' p)
  | mapKind kind p => once (.mapKind kind) (checked rules' p)
  | ignoreKind kind p => once (.map .ofOption) (once (.ignoreKind kind) (checked rules' p))
  | optional p => once (.map .ofOption) (once .optional (checked rules' p))
  | peek p => once .peek (checked rules' p)
  | negate p => once (.map fun _ => .unit) (once .negate (checked rules' p))
  | conditional enabled p =>
      once (.map .ofOption)
        (if enabled then once (.map some) (checked rules' p) else ofParser (.success none))
  | allConsuming p => once .allConsuming (checked rules' p)

/-- The checked parsers that the trees of a list stand for. -/
def checkeds (rules' : String → CheckedParser ε (Value ε)) :
    List (Grammar ε κ) → List (CheckedParser ε (Value ε))
  | [] => []
  | p :: ps => checked rules' p :: checkeds rules' ps

end

variable {rules' : String → CheckedParser ε (Value ε)} {rules : String → Parser ε (Value ε)}

mutual

/-- Where the rules compute parsers, so does every tree. -/
theorem computes_checked (hrules : ∀ name, (rules' name).Computes (rules name)) :
    ∀ g : Grammar ε κ, (g.checked rules').Computes (g.parser rules)
  | .atom a => a.computes_checked
  | .special a => CheckedSpecial.computes a
  | .rule name => hrules name
  | .lazy p => computes_checked hrules p
  -- one after another
  | .multiple form ps => form.computes_checkedMultiple (computes_checkeds hrules ps)
  | .pair p q => ((computes_checked hrules p).pair (computes_checked hrules q)).map _
  | .preceded p q => ((computes_checked hrules p).pair (computes_checked hrules q)).map _
  | .terminated p q => ((computes_checked hrules p).pair (computes_checked hrules q)).map _
  | .delimited p q r =>
      ((computes_checked hrules p).pair
        ((computes_checked hrules q).pair (computes_checked hrules r))).map _
  | .separatedPair p q r =>
      (((computes_checked hrules p).pair
        ((computes_checked hrules q).pair (computes_checked hrules r))).map _).map _
  -- one or another
  | .alt form ps => form.computes_checkedAlt (computes_checkeds hrules ps)
  -- again and again
  | .count n p => ((computes_checked hrules p).count n).map _
  | .fill slots p => ((computes_checked hrules p).filled slots).map _
  | .many0 p => ((computes_checked hrules p).manyAs _ _ _).map _
  | .many1 p => ((computes_checked hrules p).manyAs _ _ _).map _
  | .manyBounded _ _ p => ((computes_checked hrules p).manyAs _ _ _).map _
  | .many0Count p => ((computes_checked hrules p).manyCount _).map _
  | .many1Count p => ((computes_checked hrules p).manyCount _).map _
  | .manyTill p marker =>
      ((computes_checked hrules p).manyTill (computes_checked hrules marker)).map _
  | .foldMany0 p first combine => (computes_checked hrules p).foldAs _ _ _ first combine
  | .foldMany1 p first combine => (computes_checked hrules p).foldAs _ _ _ first combine
  | .foldManyBounded _ _ p first combine => (computes_checked hrules p).foldAs _ _ _ first combine
  -- behind a length
  | .lengthCount counter p =>
      ((computes_checked hrules counter).lengthCount (computes_checked hrules p)).map _
  | .lengthData counter => (computes_checked hrules counter).lengthData.map _
  | .lengthValue counter p =>
      (computes_checked hrules counter).lengthValue (computes_checked hrules p)
  -- changing the value
  | .map f p => (computes_checked hrules p).map f
  | .mapRes _ p => (computes_checked hrules p).once fun _ => rfl
  | .replaceValue _ p => (computes_checked hrules p).once fun _ => rfl
  | .flatMap p next =>
      (computes_checked hrules p).flatMap fun value => computes_checked hrules (next value)
  | .mapParser outer inner =>
      ((computes_checked hrules outer).map _).mapParser (computes_checked hrules inner)
  | .verify _ p => (computes_checked hrules p).once fun _ => rfl
  | .recognize p => (computes_checked hrules p).recognize.map _
  | .consumed p => (computes_checked hrules p).consumed.map _
  -- changing the error
  | .mapErr _ p => (computes_checked hrules p).once fun _ => rfl
  | .mapKind kind p => (computes_checked hrules p).mapKind kind
  | .ignoreKind _ p => ((computes_checked hrules p).once fun _ => rfl).map _
  -- trying and looking ahead
  | .optional p => ((computes_checked hrules p).once fun _ => rfl).map _
  | .peek p => (computes_checked hrules p).once fun _ => rfl
  | .negate p => ((computes_checked hrules p).once fun _ => rfl).map _
  | .conditional true p => ((computes_checked hrules p).map some).map _
  | .conditional false _ => (computes_ofParser _).map _
  | .allConsuming p => (computes_checked hrules p).once fun _ => rfl

/-- The same for the trees of a list. -/
theorem computes_checkeds (hrules : ∀ name, (rules' name).Computes (rules name)) :
    ∀ gs : List (Grammar ε κ), AllComputes (checkeds rules' gs) (parsers rules gs)
  | [] => .nil
  | g :: gs => .cons (computes_checked hrules g) (computes_checkeds hrules gs)

end

end Grammar

/-! ## §3. Runs to any depth. -/

namespace Rules

variable [Special ε κ] [CheckedSpecial ε κ]

/-- The checked parser of each rule, when no more than `depth` rules may be open. -/
def checked (rules : Rules ε κ) : (depth : Nat) → String → CheckedParser ε (Value ε)
  | 0, _ => fun _ => .ok .unfinished
  | depth + 1, name => fun s => (rules name).checked (checked rules depth) s

/-- Runs a grammar with its rules and with checks, no more than `depth` of the
rules open at once. -/
def checkedRun (rules : Rules ε κ) (depth : Nat) (g : Grammar ε κ) : CheckedParser ε (Value ε) :=
  g.checked (rules.checked depth)

/-- By induction on the depth: at depth zero nothing is run, and so nothing faults. -/
theorem computes_checked (rules : Rules ε κ) (depth : Nat) (name : String) :
    (rules.checked depth name).Computes (rules.parser depth name) := by
  induction depth generalizing name with
  | zero => exact fun _ => rfl
  | succ depth ih => exact Grammar.computes_checked ih (rules name)

/-- A run of any grammar to any depth computes without a fault. -/
theorem computes_checkedRun (rules : Rules ε κ) (depth : Nat) (g : Grammar ε κ) :
    (rules.checkedRun depth g).Computes (rules.run depth g) :=
  Grammar.computes_checked (rules.computes_checked depth) g

end Rules

/-! ## §4. Whatever is parsed, and whatever is asked about it afterwards. -/

/-- **NO CUT IS EVER OUT OF PLACE.**  A checked cut succeeds exactly at an offset
that is at most the width of the very sequence that is cut, and is the width of
a prefix of it.  Every grammar, run with its rules on a text or on other
elements, with every cut checked, every step down from an offset and every count
of matches, gives what it gives without the checks, and never a fault: whatever
the parsers of a client leave, and whatever errors a client puts in.  The same is
true of what is asked later about any sequence, as the rest of any other, and
about any error.  The last part is about elements that stand for characters,
since only these have lines and columns. -/
theorem no_operation_faults :
    (∀ (ε : Type) [Element ε] (s : List ε) (offset : Nat),
      (∃ parts, Checked.split s offset = .ok parts) ↔
        offset ≤ Sequence.nativeLen s ∧ ∃ p t, s = p ++ t ∧ Sequence.nativeLen p = offset) ∧
    (∀ (ε : Type) [Element ε] [DecidableEq ε] [CharLike ε] (rules : Rules ε (AsciiAtom ε))
      (g : Grammar ε (AsciiAtom ε)) (depth : Nat) (s : List ε),
      rules.checkedRun depth g s = .ok (rules.run depth g s)) ∧
    (∀ (ε : Type) [Element ε] [DecidableEq ε] (rules : Rules ε Empty) (g : Grammar ε Empty)
      (depth : Nat) (s : List ε), rules.checkedRun depth g s = .ok (rules.run depth g s)) ∧
    (∀ (ε : Type) [Element ε] (original rest view outer : List ε) (error : ParseError ε),
      Checked.consumed original rest = .ok (Sequence.consumed original rest) ∧
        Checked.rebase view outer error = .ok (error.rebase view outer)) ∧
    ∀ (ε : Type) [Element ε] [CharLike ε] (original rest : List ε) (error : ParseError ε),
      Checked.locate original rest = .ok (Position.locate original rest) ∧
        Checked.location error original = .ok (error.location original) ∧
        Checked.report error original = .ok (error.report original) := by
  refine ⟨?_, ?_, ?_, ?_, ?_⟩
  · intro ε _ s offset
    exact Checked.split_succeeds_iff
  · intro ε _ _ _ rules g depth s
    exact rules.computes_checkedRun depth g s
  · intro ε _ _ rules g depth s
    exact rules.computes_checkedRun depth g s
  · intro ε _ original rest view outer error
    exact ⟨Checked.consumed_eq original rest, Checked.rebase_eq view outer error⟩
  · intro ε _ _ original rest error
    exact ⟨Checked.locate_eq original rest, Checked.location_eq error original,
      Checked.report_eq error original⟩

/-- A parser that leaves two letters of its own.  The distance to them, told from
the lengths, is three bytes, which is inside the second accent; what was used up
ends in front of it. -/
example :
    (Rules.ofList ([] : List (String × Grammar Char (AsciiAtom Char)))).checkedRun 0
        (.recognize (.atom (.custom fun _ => .ok ['x', 'y'] .unit))) ['é', 'é', 'z'] =
      .ok (.ok ['x', 'y'] (.slice ['é'])) := rfl

end Parsing
