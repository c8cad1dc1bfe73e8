/-
  Parsing.Proofs.Onward.Grammar — THE SUFFIX LAW OF ALL GRAMMARS.

  What a grammar leaves, and where it fails, is a suffix of its input, provided
  that no part of it that the client supplies leads out of the input.  Two
  sorts of such parts could: parsers that are any function at all, and changes
  of errors that put another place in.  Everything else, predicates, changes of
  values, parsers made from values, the parser that is run inside a slice or a
  block, and rules that refer to each other in any way, is free.

  The proof is one induction over the tree, with the lemma of each combinator
  at its node, inside an induction over the depth to which rules may be open.

  Main statement: `run_suffix_law`, for elements that stand for characters and
  for elements of any sort.
-/
import Parsing.Grammar.Run
import Parsing.Location
import Parsing.Proofs.Onward.Combinators

namespace Parsing

variable {ε κ : Type}

/-! ## §1. What the client may supply. -/

/-- A parser supplied as a function has to be onward. -/
def Atom.Onward : Atom ε → Prop
  | .custom p => p.Onward
  | _ => True

mutual

/-- No part of the grammar that the client supplies leads out of the input. -/
def Grammar.Onward : Grammar ε κ → Prop
  | .atom a => a.Onward
  | .special _ | .rule _ => True
  | .multiple _ ps | .alt _ ps => Grammar.AllOnward ps
  | .delimited p q r | .separatedPair p q r => p.Onward ∧ q.Onward ∧ r.Onward
  | .pair p q | .preceded p q | .terminated p q | .manyTill p q | .lengthCount p q
  | .lengthValue p q | .mapParser p q => p.Onward ∧ q.Onward
  | .flatMap p next => p.Onward ∧ ∀ value, (next value).Onward
  -- a change of errors may move them on, but not elsewhere
  | .mapErr f p => (∀ error, (f error).rest <:+ error.rest) ∧ p.Onward
  | .lazy p | .count _ p | .fill _ p | .many0 p | .many1 p | .manyBounded _ _ p
  | .many0Count p | .many1Count p | .foldMany0 p _ _ | .foldMany1 p _ _
  | .foldManyBounded _ _ p _ _ | .lengthData p | .map _ p | .mapRes _ p | .replaceValue _ p
  | .verify _ p | .recognize p | .consumed p | .mapKind _ p | .ignoreKind _ p | .optional p
  | .peek p | .negate p | .conditional _ p | .allConsuming p => p.Onward

/-- The same of every grammar of a list. -/
def Grammar.AllOnward : List (Grammar ε κ) → Prop
  | [] => True
  | p :: ps => p.Onward ∧ Grammar.AllOnward ps

end

theorem Grammar.allOnward_iff {gs : List (Grammar ε κ)} :
    Grammar.AllOnward gs ↔ ∀ g ∈ gs, g.Onward := by
  induction gs with
  | nil => simp [Grammar.AllOnward]
  | cons g gs ih => simp [Grammar.AllOnward, ih]

/-- The same of every rule. -/
def Rules.Onward (rules : Rules ε κ) : Prop := ∀ name, (rules name).Onward

/-! ## §2. Atoms and lists of parsers. -/

theorem Form.onward_multiple (form : Form) {ps : List (Parser ε (Value ε))}
    (hps : ∀ p ∈ ps, p.Onward) : (form.multiple ps).Onward := by
  cases form with
  | tuple => exact (Parser.Onward.chain hps).map _
  | array => exact (Parser.Onward.multiple hps).map _
  | list => exact (Parser.Onward.multiple hps).map _

theorem Form.onward_alt (form : Form) {ps : List (Parser ε (Value ε))}
    (hps : ∀ p ∈ ps, p.Onward) : (form.alt ps).Onward := by
  cases form with
  | tuple =>
    cases ps with
    | nil => exact Parser.Onward.alt hps
    | cons p ps =>
      exact Parser.Onward.firstOf (hps p List.mem_cons_self)
        fun q hq => hps q (List.mem_cons_of_mem _ hq)
  | array => exact Parser.Onward.alt hps
  | list => exact Parser.Onward.alt hps

variable [Element ε] [DecidableEq ε]

/-- One case for each atom, by the lemma about its parser; a client's atom is onward by
assumption. -/
theorem Atom.parser_onward : ∀ {a : Atom ε}, a.Onward → a.parser.Onward
  | .take n, _ => (Parser.onward_take n).map _
  | .takeWhile p, _ => (Parser.onward_takeWhile p).map _
  | .takeWhile1 p, _ => (Parser.onward_takeWhileSome .takeWhile p).map _
  | .takeTill p, _ => (Parser.onward_takeWhile fun e => !p e).map _
  | .takeTill1 p, _ => (Parser.onward_takeWhileSome .takeTill fun e => !p e).map _
  | .takeWhileBounded lower upper p, _ =>
      (Parser.onward_takeWhileBounded lower upper p).map _
  | .takeUntil literal, _ => (Parser.onward_takeUntil literal).map _
  | .takeUntil1 literal, _ => (Parser.onward_takeUntil1 literal).map _
  | .tag literal, _ => (Parser.onward_tag literal).map _
  | .isA _, _ => ((Parser.onward_takeWhileSome .takeWhile _).mapKind .isA).map _
  | .isNot _, _ => ((Parser.onward_takeWhileSome .takeWhile _).mapKind .isNot).map _
  | .char _, _ => (Parser.onward_element .char _).map _
  | .satisfy p, _ => (Parser.onward_element .satisfy p).map _
  | .oneOf _, _ => (Parser.onward_element .oneOf _).map _
  | .noneOf _, _ => (Parser.onward_element .noneOf _).map _
  | .success value, _ => Parser.onward_success value
  | .fail, _ => Parser.onward_fail .fail
  | .rest, _ => Parser.onward_rest.map _
  | .restLen, _ => Parser.onward_restLen.map _
  | .eof, _ => Parser.onward_eof.map _
  | .custom _, h => h

theorem AsciiAtom.parser_onward [CharLike ε] (a : AsciiAtom ε) : a.parser.Onward := by
  cases a with
  | class0 c => exact (Parser.onward_takeWhile _).map _
  | class1 c => exact (Parser.onward_takeWhileSome c.kind _).map _
  | tagNoCase literal => exact (Parser.onward_tagNoCase literal).map _
  | newline => exact (Parser.onward_element .char _).map _
  | tab => exact (Parser.onward_element .char _).map _
  | crlf => exact ((Parser.onward_tag _).mapKind .crlf).map _
  | lineEnding => exact Parser.onward_lineEnding.map _
  | notLineEnding => exact (Parser.onward_takeWhile _).map _
  | intLiteral => exact (Parser.onward_literal _ _ _).map _
  | floatLiteral => exact (Parser.onward_literal _ _ _).map _

/-- A sort of element whose special atoms are onward. -/
class OnwardSpecial (ε κ : Type) [Special ε κ] : Prop where
  onward : ∀ a : κ, (Special.parser a : Parser ε (Value ε)).Onward

instance : OnwardSpecial ε Empty where
  onward a := nomatch a

instance [CharLike ε] : OnwardSpecial ε (AsciiAtom ε) where
  onward := AsciiAtom.parser_onward

/-! ## §3. Trees. -/

namespace Grammar

variable [Special ε κ] {rules : String → Parser ε (Value ε)}

mutual

/-- A grammar whose rules stand for onward parsers stands for one. -/
theorem parser_onward [OnwardSpecial ε κ] (hrules : ∀ name, (rules name).Onward) :
    ∀ g : Grammar ε κ, g.Onward → (g.parser rules).Onward
  | .atom _, h => Atom.parser_onward h
  | .special a, _ => OnwardSpecial.onward a
  | .rule name, _ => hrules name
  | .lazy p, h => parser_onward hrules p h
  -- one after another
  | .multiple form ps, h => form.onward_multiple (parsers_onward hrules ps h)
  | .pair p q, h => ((parser_onward hrules p h.1).pair (parser_onward hrules q h.2)).map _
  | .preceded p q, h => (parser_onward hrules p h.1).preceded (parser_onward hrules q h.2)
  | .terminated p q, h => (parser_onward hrules p h.1).terminated (parser_onward hrules q h.2)
  | .delimited p q r, h =>
      (parser_onward hrules p h.1).delimited (parser_onward hrules q h.2.1)
        (parser_onward hrules r h.2.2)
  | .separatedPair p q r, h =>
      ((parser_onward hrules p h.1).separatedPair (parser_onward hrules q h.2.1)
        (parser_onward hrules r h.2.2)).map _
  -- one or another
  | .alt form ps, h => form.onward_alt (parsers_onward hrules ps h)
  -- again and again
  | .count n p, h => ((parser_onward hrules p h).count n).map _
  | .fill slots p, h => ((parser_onward hrules p h).filled slots).map _
  | .many0 p, h => ((parser_onward hrules p h).manyAs _ _ _).map _
  | .many1 p, h => ((parser_onward hrules p h).manyAs _ _ _).map _
  | .manyBounded _ _ p, h => ((parser_onward hrules p h).manyAs _ _ _).map _
  | .many0Count p, h => ((parser_onward hrules p h).manyCount _).map _
  | .many1Count p, h => ((parser_onward hrules p h).manyCount _).map _
  | .manyTill p marker, h =>
      ((parser_onward hrules p h.1).manyTill (parser_onward hrules marker h.2)).map _
  | .foldMany0 p first combine, h => (parser_onward hrules p h).foldAs _ _ _ first combine
  | .foldMany1 p first combine, h => (parser_onward hrules p h).foldAs _ _ _ first combine
  | .foldManyBounded _ _ p first combine, h =>
      (parser_onward hrules p h).foldAs _ _ _ first combine
  -- behind a length
  | .lengthCount counter p, h =>
      (Parser.onward_lengthCount (parser_onward hrules counter h.1)
        (parser_onward hrules p h.2)).map _
  | .lengthData counter, h => (Parser.onward_lengthData (parser_onward hrules counter h)).map _
  | .lengthValue counter p, h =>
      Parser.onward_lengthValue (parser_onward hrules counter h.1) (p.parser rules)
  -- changing the value
  | .map f p, h => (parser_onward hrules p h).map f
  | .mapRes f p, h => (parser_onward hrules p h).mapRes f
  | .replaceValue _ p, h => (parser_onward hrules p h).map _
  | .flatMap p next, h =>
      (parser_onward hrules p h.1).flatMap fun value =>
        parser_onward hrules (next value) (h.2 value)
  | .mapParser outer inner, h =>
      ((parser_onward hrules outer h.1).map Value.toSlice).mapParser (inner.parser rules)
  | .verify check p, h => (parser_onward hrules p h).verify check
  | .recognize p, h => (parser_onward hrules p h).recognize.map _
  | .consumed p, h => (parser_onward hrules p h).consumed.map _
  -- changing the error
  | .mapErr _ p, h => (parser_onward hrules p h.2).mapErr h.1
  | .mapKind kind p, h => (parser_onward hrules p h).mapKind kind
  | .ignoreKind kind p, h => ((parser_onward hrules p h).ignoreKind kind).map _
  -- trying and looking ahead
  | .optional p, h => (parser_onward hrules p h).optional.map _
  | .peek p, h => (parser_onward hrules p h).peek
  | .negate p, _ => (Parser.Onward.negate (p.parser rules)).map _
  | .conditional enabled p, h => ((parser_onward hrules p h).conditional enabled).map _
  | .allConsuming p, h => (parser_onward hrules p h).allConsuming

theorem parsers_onward [OnwardSpecial ε κ] (hrules : ∀ name, (rules name).Onward) :
    ∀ gs : List (Grammar ε κ), AllOnward gs → ∀ p ∈ parsers rules gs, p.Onward
  | [], _, _, hp => absurd hp List.not_mem_nil
  | g :: gs, h, p, hp => by
      rcases List.mem_cons.mp hp with rfl | hp
      · exact parser_onward hrules g h.1
      · exact parsers_onward hrules gs h.2 p hp

end

end Grammar

/-! ## §4. Runs to any depth. -/

namespace Rules

/-- By induction on the depth: at depth zero a run is unfinished, and each level is the
statement about trees. -/
theorem parser_onward [Special ε κ] [OnwardSpecial ε κ] {rules : Rules ε κ}
    (hrules : rules.Onward) (depth : Nat) (name : String) : (rules.parser depth name).Onward := by
  induction depth generalizing name with
  | zero => exact fun _ => trivial
  | succ depth ih => exact Grammar.parser_onward ih (rules name) (hrules name)

/-- A grammar run with its rules, to whatever depth, is onward. -/
theorem onward_run [Special ε κ] [OnwardSpecial ε κ] {rules : Rules ε κ} (hrules : rules.Onward)
    {g : Grammar ε κ} (hg : g.Onward) (depth : Nat) : (rules.run depth g).Onward :=
  Grammar.parser_onward (parser_onward hrules depth) g hg

end Rules

/-! ## §5. Places in the input. -/

omit [DecidableEq ε] in
/-- What an onward reply says about the input, in suffixes and in offsets. -/
theorem Reply.Onward.places {α : Type} {s : List ε} {r : Reply ε α} (h : r.Onward s) :
    (∀ rest value, r = .ok rest value → rest <:+ s) ∧
      ∀ error, r = .fail error →
        error.rest <:+ s ∧
          Sequence.offsetOf s error.rest + Sequence.nativeLen error.rest =
            Sequence.nativeLen s := by
  constructor
  · rintro rest value rfl
    exact h
  · rintro error rfl
    exact ⟨h, Sequence.offsetOf_add_nativeLen h⟩

/-- **THE SUFFIX LAW**: whatever a grammar leaves is a suffix of its input, and
so is the place of its error, whose location therefore is exact: the offset of
the place, and the width of what follows it, make up the input.  The first half
is about elements that stand for characters, with all the atoms that these
have; the second about elements of any other sort, which have offsets but no
lines and columns. -/
theorem run_suffix_law :
    (∀ (ε : Type) [Element ε] [DecidableEq ε] [CharLike ε] (rules : Rules ε (AsciiAtom ε))
      (g : Grammar ε (AsciiAtom ε)), rules.Onward → g.Onward → ∀ (depth : Nat) (s : List ε),
        (∀ rest value, rules.run depth g s = .ok rest value → rest <:+ s) ∧
          ∀ error, rules.run depth g s = .fail error →
            error.rest <:+ s ∧
              (error.location s).offset + Sequence.nativeLen error.rest =
                Sequence.nativeLen s) ∧
    ∀ (ε : Type) [Element ε] [DecidableEq ε] (rules : Rules ε Empty) (g : Grammar ε Empty),
      rules.Onward → g.Onward → ∀ (depth : Nat) (s : List ε),
        (∀ rest value, rules.run depth g s = .ok rest value → rest <:+ s) ∧
          ∀ error, rules.run depth g s = .fail error →
            error.rest <:+ s ∧
              Sequence.offsetOf s error.rest + Sequence.nativeLen error.rest =
                Sequence.nativeLen s := by
  constructor
  · intro ε _ _ _ rules g hrules hg depth s
    exact (Rules.onward_run hrules hg depth s).places
  · intro ε _ _ rules g hrules hg depth s
    exact (Rules.onward_run hrules hg depth s).places

/-- A frame of two elements, behind the element that says so. -/
def frameOfTwo {ε κ : Type} (two first second : ε) : Rules ε κ := fun _ =>
  .lengthValue (.replaceValue (.size 2) (.atom (.char two)))
    (.multiple .list [.atom (.char first), .atom (.char second)])

omit [Element ε] [DecidableEq ε] in
/-- The sample grammar has no part that a client supplies. -/
theorem frameOfTwo_onward (two first second : ε) :
    (frameOfTwo two first second : Rules ε κ).Onward :=
  fun _ => ⟨trivial, trivial, trivial, trivial⟩

/-- The second element of a frame is not the one wanted: in a text the error is
three bytes into an input of five, and among tokens two into an input of four. -/
theorem frameOfTwo_suffix_law :
    (((frameOfTwo '2' 'é' 'y' : Rules Char (AsciiAtom Char)).Onward ∧
        (Grammar.rule "frame" : Grammar Char (AsciiAtom Char)).Onward) ∧
      (frameOfTwo '2' 'é' 'y' : Rules Char (AsciiAtom Char)).run 1 (.rule "frame")
        ['2', 'é', 'x', 'z'] = .fail ⟨['x', 'z'], .char⟩ ∧
      ['x', 'z'] <:+ ['2', 'é', 'x', 'z'] ∧
      ((⟨['x', 'z'], .char⟩ : ParseError Char).location ['2', 'é', 'x', 'z']).offset +
        Sequence.nativeLen ['x', 'z'] = Sequence.nativeLen ['2', 'é', 'x', 'z']) ∧
    (((frameOfTwo 2 7 8 : Rules Int Empty).Onward ∧
        (Grammar.rule "frame" : Grammar Int Empty).Onward) ∧
      (frameOfTwo 2 7 8 : Rules Int Empty).run 1 (.rule "frame") [2, 7, 9, 5] =
        .fail ⟨[9, 5], .char⟩ ∧
      [9, 5] <:+ ([2, 7, 9, 5] : List Int) ∧
      Sequence.offsetOf ([2, 7, 9, 5] : List Int) [9, 5] + Sequence.nativeLen ([9, 5] : List Int) =
        Sequence.nativeLen ([2, 7, 9, 5] : List Int)) := by
  have htext : (frameOfTwo '2' 'é' 'y' : Rules Char (AsciiAtom Char)).run 1 (.rule "frame")
      ['2', 'é', 'x', 'z'] = .fail ⟨['x', 'z'], .char⟩ := rfl
  have htokens : (frameOfTwo 2 7 8 : Rules Int Empty).run 1 (.rule "frame") [2, 7, 9, 5] =
      .fail ⟨[9, 5], .char⟩ := rfl
  constructor
  · exact ⟨⟨frameOfTwo_onward _ _ _, trivial⟩, htext,
      (run_suffix_law.1 Char _ (.rule "frame") (frameOfTwo_onward _ _ _) trivial 1 _).2 _ htext⟩
  · exact ⟨⟨frameOfTwo_onward _ _ _, trivial⟩, htokens,
      (run_suffix_law.2 Int _ (.rule "frame") (frameOfTwo_onward _ _ _) trivial 1 _).2 _ htokens⟩

end Parsing
