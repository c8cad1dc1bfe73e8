/-
  Parsing.Proofs.Encode.Grammar — ONE GRAMMAR ON A TEXT AND ON ITS BYTES.

  A grammar over text has the same grammar over bytes beside it when it is made
  of literals, ASCII classes, lines and number literals: the literals are
  written as their UTF-8 bytes, and every other node stays as it is.  Parsers
  that count elements, or that test single elements in any other way, see
  bytes where a text has characters, and have no place in it.

  The two grammars then do the same on every text and its bytes: the one
  succeeds, fails or has no answer where the other one does, with corresponding
  values, the same kinds, and corresponding places.  The proof is one induction
  over the pair of grammars, with the lemma of each combinator at its node,
  inside an induction over the depth to which rules may be open.

  Main statement: `run_utf8`.
-/
import Parsing.Proofs.Encode.Repetition
import Parsing.Proofs.Encode.Utf8
import Parsing.Proofs.Onward.Grammar

namespace Parsing

open Encoding (utf8)

/-! ## §1. The same value, atom and grammar in bytes. -/

/-- A value about a text and the same value about its bytes.  An element is the
same when it is a character of one byte. -/
inductive Value.InUtf8 : Value Char → Value UInt8 → Prop
  | slice (s : List Char) : InUtf8 (.slice s) (.slice (utf8.sequence s))
  | elem {c : Char} {b : UInt8} (h : utf8.word c = [b]) : InUtf8 (.elem c) (.elem b)
  | int (n : Int) : InUtf8 (.int n) (.int n)
  | wide (n : Int) : InUtf8 (.wide n) (.wide n)
  | size (n : Nat) : InUtf8 (.size n) (.size n)
  | float (x : Numeral.Binary64) : InUtf8 (.float x) (.float x)
  | list {vs : List (Value Char)} {ws : List (Value UInt8)} (h : List.Forall₂ InUtf8 vs ws) :
      InUtf8 (.list vs) (.list ws)
  | tuple {vs : List (Value Char)} {ws : List (Value UInt8)} (h : List.Forall₂ InUtf8 vs ws) :
      InUtf8 (.tuple vs) (.tuple ws)
  | present {v : Value Char} {w : Value UInt8} (h : InUtf8 v w) : InUtf8 (.present v) (.present w)
  | absent : InUtf8 .absent .absent
  | unit : InUtf8 .unit .unit
  | bool (b : Bool) : InUtf8 (.bool b) (.bool b)
  | text (t : String) : InUtf8 (.text t) (.text t)

/-- An atom over any elements and the same atom over bytes: literals, and what
looks at no element. -/
inductive Atom.InUtf8 : Atom Char → Atom UInt8 → Prop
  | tag (literal : List Char) : InUtf8 (.tag literal) (.tag (utf8.sequence literal))
  | takeUntil (literal : List Char) :
      InUtf8 (.takeUntil literal) (.takeUntil (utf8.sequence literal))
  | takeUntil1 (literal : List Char) :
      InUtf8 (.takeUntil1 literal) (.takeUntil1 (utf8.sequence literal))
  | success {v : Value Char} {w : Value UInt8} (h : v.InUtf8 w) : InUtf8 (.success v) (.success w)
  | fail : InUtf8 .fail .fail
  | rest : InUtf8 .rest .rest
  | eof : InUtf8 .eof .eof

/-- An atom over characters and the same atom over bytes.  A literal without
regard to case is not the same one: the case of bytes is that of ASCII. -/
inductive AsciiAtom.InUtf8 : AsciiAtom Char → AsciiAtom UInt8 → Prop
  | class0 (c : CharClass) : InUtf8 (.class0 c) (.class0 c)
  | class1 (c : CharClass) : InUtf8 (.class1 c) (.class1 c)
  | newline : InUtf8 .newline .newline
  | tab : InUtf8 .tab .tab
  | crlf : InUtf8 .crlf .crlf
  | lineEnding : InUtf8 .lineEnding .lineEnding
  | notLineEnding : InUtf8 .notLineEnding .notLineEnding
  | intLiteral : InUtf8 .intLiteral .intLiteral
  | floatLiteral : InUtf8 .floatLiteral .floatLiteral

/-- A grammar over text and the same grammar over bytes.  Children in a list are
given as one list of pairs. -/
inductive Grammar.InUtf8 : Grammar Char (AsciiAtom Char) → Grammar UInt8 (AsciiAtom UInt8) → Prop
  | atom {a a'} (h : Atom.InUtf8 a a') : InUtf8 (.atom a) (.atom a')
  | special {a a'} (h : AsciiAtom.InUtf8 a a') : InUtf8 (.special a) (.special a')
  | rule (name : String) : InUtf8 (.rule name) (.rule name)
  | lazy {p p'} (hp : InUtf8 p p') : InUtf8 (.lazy p) (.lazy p')
  -- one after another
  | multiple (form : Form)
      {ps : List (Grammar Char (AsciiAtom Char) × Grammar UInt8 (AsciiAtom UInt8))}
      (hps : ∀ x ∈ ps, InUtf8 x.1 x.2) :
      InUtf8 (.multiple form (ps.map Prod.fst)) (.multiple form (ps.map Prod.snd))
  | pair {p p' q q'} (hp : InUtf8 p p') (hq : InUtf8 q q') : InUtf8 (.pair p q) (.pair p' q')
  | preceded {p p' q q'} (hp : InUtf8 p p') (hq : InUtf8 q q') :
      InUtf8 (.preceded p q) (.preceded p' q')
  | terminated {p p' q q'} (hp : InUtf8 p p') (hq : InUtf8 q q') :
      InUtf8 (.terminated p q) (.terminated p' q')
  | delimited {p p' q q' r r'} (hp : InUtf8 p p') (hq : InUtf8 q q') (hr : InUtf8 r r') :
      InUtf8 (.delimited p q r) (.delimited p' q' r')
  | separatedPair {p p' q q' r r'} (hp : InUtf8 p p') (hq : InUtf8 q q') (hr : InUtf8 r r') :
      InUtf8 (.separatedPair p q r) (.separatedPair p' q' r')
  -- one or another
  | alt (form : Form)
      {ps : List (Grammar Char (AsciiAtom Char) × Grammar UInt8 (AsciiAtom UInt8))}
      (hps : ∀ x ∈ ps, InUtf8 x.1 x.2) :
      InUtf8 (.alt form (ps.map Prod.fst)) (.alt form (ps.map Prod.snd))
  -- again and again
  | count (n : Nat) {p p'} (hp : InUtf8 p p') : InUtf8 (.count n p) (.count n p')
  | many0 {p p'} (hp : InUtf8 p p') : InUtf8 (.many0 p) (.many0 p')
  | many1 {p p'} (hp : InUtf8 p p') : InUtf8 (.many1 p) (.many1 p')
  | manyBounded (lower upper : Nat) {p p'} (hp : InUtf8 p p') :
      InUtf8 (.manyBounded lower upper p) (.manyBounded lower upper p')
  | many0Count {p p'} (hp : InUtf8 p p') : InUtf8 (.many0Count p) (.many0Count p')
  | many1Count {p p'} (hp : InUtf8 p p') : InUtf8 (.many1Count p) (.many1Count p')
  | manyTill {p p' q q'} (hp : InUtf8 p p') (hq : InUtf8 q q') :
      InUtf8 (.manyTill p q) (.manyTill p' q')
  | foldMany0 {p p'} (hp : InUtf8 p p') {first first'} (hfirst : Value.InUtf8 first first')
      {combine combine'}
      (hcombine : ∀ all all' v v', Value.InUtf8 all all' → Value.InUtf8 v v' →
        Value.InUtf8 (combine all v) (combine' all' v')) :
      InUtf8 (.foldMany0 p first combine) (.foldMany0 p' first' combine')
  | foldMany1 {p p'} (hp : InUtf8 p p') {first first'} (hfirst : Value.InUtf8 first first')
      {combine combine'}
      (hcombine : ∀ all all' v v', Value.InUtf8 all all' → Value.InUtf8 v v' →
        Value.InUtf8 (combine all v) (combine' all' v')) :
      InUtf8 (.foldMany1 p first combine) (.foldMany1 p' first' combine')
  | foldManyBounded (lower upper : Nat) {p p'} (hp : InUtf8 p p') {first first'}
      (hfirst : Value.InUtf8 first first') {combine combine'}
      (hcombine : ∀ all all' v v', Value.InUtf8 all all' → Value.InUtf8 v v' →
        Value.InUtf8 (combine all v) (combine' all' v')) :
      InUtf8 (.foldManyBounded lower upper p first combine)
        (.foldManyBounded lower upper p' first' combine')
  -- what was matched
  | recognize {p p'} (hp : InUtf8 p p') : InUtf8 (.recognize p) (.recognize p')
  | consumed {p p'} (hp : InUtf8 p p') : InUtf8 (.consumed p) (.consumed p')
  -- changing the error
  | mapKind (kind : Kind) {p p'} (hp : InUtf8 p p') : InUtf8 (.mapKind kind p) (.mapKind kind p')
  | ignoreKind (kind : Kind) {p p'} (hp : InUtf8 p p') :
      InUtf8 (.ignoreKind kind p) (.ignoreKind kind p')
  -- trying and looking ahead
  | optional {p p'} (hp : InUtf8 p p') : InUtf8 (.optional p) (.optional p')
  | peek {p p'} (hp : InUtf8 p p') : InUtf8 (.peek p) (.peek p')
  | negate {p p'} (hp : InUtf8 p p') : InUtf8 (.negate p) (.negate p')
  | conditional (enabled : Bool) {p p'} (hp : InUtf8 p p') :
      InUtf8 (.conditional enabled p) (.conditional enabled p')
  | allConsuming {p p'} (hp : InUtf8 p p') : InUtf8 (.allConsuming p) (.allConsuming p')

/-- Rules over text and the same rules over bytes. -/
def Rules.InUtf8 (rules : Rules Char (AsciiAtom Char)) (rules' : Rules UInt8 (AsciiAtom UInt8)) :
    Prop :=
  ∀ name, (rules name).InUtf8 (rules' name)

/-! ## §2. Values and atoms. -/

/-- A slice of bytes stands for a slice of text if it is its encoding. -/
theorem Value.InUtf8.slice_of_eq {s : List Char} {t : List UInt8} (h : t = utf8.sequence s) :
    Value.InUtf8 (.slice s) (.slice t) := by
  subst h
  exact .slice s

theorem Value.InUtf8.ofPair {v : Value Char × Value Char} {w : Value UInt8 × Value UInt8}
    (h : PairRel Value.InUtf8 Value.InUtf8 v w) :
    Value.InUtf8 (Value.ofPair v) (Value.ofPair w) :=
  .tuple (.cons h.1 (.cons h.2 .nil))

theorem Value.InUtf8.ofOption {v : Option (Value Char)} {w : Option (Value UInt8)}
    (h : Option.Rel Value.InUtf8 v w) : Value.InUtf8 (Value.ofOption v) (Value.ofOption w) := by
  cases h with
  | some hv => exact .present hv
  | none => exact .absent

/-- One case for each pair of atoms, by the lemma about its parser. The literals need
that no character's encoding is a prefix of another's, the searches that none begins
inside another. -/
theorem Atom.InUtf8.parser {a : Atom Char} {a' : Atom UInt8} (h : a.InUtf8 a') :
    Parser.Encoded utf8 Value.InUtf8 a.parser a'.parser := by
  have hfree := Encoding.prefixFree_utf8
  have hsync := Encoding.selfSynchronizing_utf8
  cases h with
  | tag literal => exact (Parser.encoded_tag hfree literal).map fun _ _ => .slice_of_eq
  | takeUntil literal =>
    exact (Parser.encoded_takeUntil hfree hsync literal).map fun _ _ => .slice_of_eq
  | takeUntil1 literal =>
    exact (Parser.encoded_takeUntil1 hfree hsync literal).map fun _ _ => .slice_of_eq
  | success hv => exact Parser.encoded_success hv
  | fail => exact Parser.encoded_fail .fail
  | rest => exact Parser.encoded_rest.map fun _ _ => .slice_of_eq
  | eof => exact Parser.encoded_eof.map fun _ _ => .slice_of_eq

/-- The classes, lines and number literals read bytes as they read text, since they all
test for ASCII characters only. -/
theorem AsciiAtom.InUtf8.parser {a : AsciiAtom Char} {a' : AsciiAtom UInt8} (h : a.InUtf8 a') :
    Parser.Encoded utf8 Value.InUtf8 a.parser a'.parser := by
  cases h with
  | class0 c => exact (Parser.encoded_class0 c).map fun _ _ => .slice_of_eq
  | class1 c => exact (Parser.encoded_class1 c).map fun _ _ => .slice_of_eq
  | newline => exact (Parser.encoded_char (by decide)).map fun _ _ => .elem
  | tab => exact (Parser.encoded_char (by decide)).map fun _ _ => .elem
  | crlf => exact Parser.encoded_crlf.map fun _ _ => .slice_of_eq
  | lineEnding => exact Parser.encoded_lineEnding.map fun _ _ => .slice_of_eq
  | notLineEnding => exact Parser.encoded_notLineEnding.map fun _ _ => .slice_of_eq
  | intLiteral => exact (Parser.encoded_literal _ _ _).map fun n _ h => h ▸ .int n
  | floatLiteral => exact (Parser.encoded_literal _ _ _).map fun x _ h => h ▸ .float x

/-- Atoms that have counterparts in bytes only move onward. -/
theorem Atom.InUtf8.onward {a : Atom Char} {a' : Atom UInt8} (h : a.InUtf8 a') : a.Onward := by
  cases h <;> trivial

/-! ## §3. Trees. -/

variable {rules : Rules Char (AsciiAtom Char)} {rules' : Rules UInt8 (AsciiAtom UInt8)}
  {g : Grammar Char (AsciiAtom Char)} {g' : Grammar UInt8 (AsciiAtom UInt8)}

/-- What has the same grammar over bytes beside it is onward. -/
theorem Grammar.InUtf8.onward (h : g.InUtf8 g') : g.Onward := by
  induction h with
  | atom h => exact h.onward
  | special | rule => trivial
  | multiple form _ ih | alt form _ ih =>
    refine Grammar.allOnward_iff.mpr fun p hp => ?_
    obtain ⟨x, hx, rfl⟩ := List.mem_map.mp hp
    exact ih x hx
  | pair _ _ ihp ihq | preceded _ _ ihp ihq | terminated _ _ ihp ihq
  | manyTill _ _ ihp ihq => exact ⟨ihp, ihq⟩
  | delimited _ _ _ ihp ihq ihr | separatedPair _ _ _ ihp ihq ihr => exact ⟨ihp, ihq, ihr⟩
  | lazy _ ih | count _ _ ih | many0 _ ih | many1 _ ih | manyBounded _ _ _ ih | many0Count _ ih
  | many1Count _ ih | foldMany0 _ _ _ ih | foldMany1 _ _ _ ih | foldManyBounded _ _ _ _ _ ih
  | recognize _ ih | consumed _ ih | mapKind _ _ ih | ignoreKind _ _ ih | optional _ ih
  | peek _ ih | negate _ ih | conditional _ _ ih | allConsuming _ ih => exact ih

/-- A grammar over text and the same one over bytes stand for corresponding
parsers, if their rules do. -/
theorem Grammar.InUtf8.parser (h : g.InUtf8 g') (honward : rules.Onward) {depth : Nat}
    (hrules : ∀ name,
      Parser.Encoded utf8 Value.InUtf8 (rules.parser depth name) (rules'.parser depth name)) :
    Parser.Encoded utf8 Value.InUtf8 (g.parser (rules.parser depth))
      (g'.parser (rules'.parser depth)) := by
  -- where progress is measured or something is cut out, the parts are onward
  have hon : ∀ {p p'}, Grammar.InUtf8 p p' → (p.parser (rules.parser depth)).Onward :=
    fun hp => Rules.onward_run honward hp.onward depth
  induction h with
  | atom h => exact h.parser
  | special h => exact h.parser
  | rule name => exact hrules name
  | lazy _ ih => exact ih
  -- one after another
  | multiple form _ ih =>
    obtain ⟨qs, hfst, hsnd, hqs⟩ := Grammar.exists_parsers ih
    rw [Grammar.parser, Grammar.parser, hfst, hsnd]
    exact form.encoded_multiple (fun _ _ => .tuple) (fun _ _ => .list) hqs
  | pair _ _ ihp ihq => exact (ihp.pair ihq).map fun _ _ => .ofPair
  | preceded _ _ ihp ihq => exact ihp.preceded ihq
  | terminated _ _ ihp ihq => exact ihp.terminated ihq
  | delimited _ _ _ ihp ihq ihr => exact ihp.delimited ihq ihr
  | separatedPair _ _ _ ihp ihq ihr => exact (ihp.separatedPair ihq ihr).map fun _ _ => .ofPair
  -- one or another
  | alt form _ ih =>
    obtain ⟨qs, hfst, hsnd, hqs⟩ := Grammar.exists_parsers ih
    rw [Grammar.parser, Grammar.parser, hfst, hsnd]
    exact form.encoded_alt hqs
  -- again and again
  | count n _ ih => exact (ih.count n).map fun _ _ => .list
  | many0 hp ih => exact (ih.manyBounded 0 Parser.maxCount (hon hp)).map fun _ _ => .list
  | many1 hp ih => exact (ih.many1 (hon hp)).map fun _ _ => .list
  | manyBounded lower upper hp ih =>
    exact (ih.manyBounded lower upper (hon hp)).map fun _ _ => .list
  | many0Count hp ih => exact (ih.manyCount 0 (hon hp)).map fun n _ h => h ▸ .size n
  | many1Count hp ih => exact (ih.manyCount 1 (hon hp)).map fun n _ h => h ▸ .size n
  | manyTill hp _ ihp ihq =>
    exact (ihp.manyTill (hon hp) ihq).map fun _ _ h => .ofPair ⟨.list h.1, h.2⟩
  | foldMany0 hp hfirst hcombine ih => exact ih.foldAs 0 _ _ (hon hp) hfirst hcombine
  | foldMany1 hp hfirst hcombine ih => exact ih.foldAs 1 _ _ (hon hp) hfirst hcombine
  | foldManyBounded lower upper hp hfirst hcombine ih =>
    exact ih.foldAs lower upper _ (hon hp) hfirst hcombine
  -- what was matched
  | recognize hp ih => exact (ih.recognize (hon hp)).map fun _ _ => .slice_of_eq
  | consumed hp ih =>
    exact (ih.consumed (hon hp)).map fun _ _ h => .ofPair ⟨.slice_of_eq h.1, h.2⟩
  -- changing the error
  | mapKind kind _ ih => exact ih.mapKind kind
  | ignoreKind kind _ ih => exact (ih.ignoreKind kind).map fun _ _ => .ofOption
  -- trying and looking ahead
  | optional _ ih => exact ih.optional.map fun _ _ => .ofOption
  | peek _ ih => exact ih.peek
  | negate _ ih => exact ih.negate.map fun _ _ _ => .unit
  | conditional enabled _ ih => exact (ih.conditional enabled).map fun _ _ => .ofOption
  | allConsuming _ ih => exact ih.allConsuming

/-! ## §4. Runs to any depth. -/

theorem Rules.InUtf8.onward (h : rules.InUtf8 rules') : rules.Onward := fun name => (h name).onward

/-- By induction on the depth; each level is the statement about trees over the parsers
of the level below. -/
theorem Rules.InUtf8.parser (h : rules.InUtf8 rules') (depth : Nat) (name : String) :
    Parser.Encoded utf8 Value.InUtf8 (rules.parser depth name) (rules'.parser depth name) := by
  induction depth generalizing name with
  | zero => exact fun _ => .unfinished
  | succ depth ih => exact (h name).parser h.onward ih

/-- **A TEXT AND ITS UTF-8 BYTES**: where a grammar of literals, ASCII classes,
lines and number literals succeeds on a text, the same grammar succeeds on the
bytes of the text, leaves the bytes of the rest and yields the same value; where
it fails, it fails on the bytes with the same kind at the bytes of that place,
in the same line and at the same offset.  A run that opens too many rules does
so on both. -/
theorem run_utf8 (hrules : rules.InUtf8 rules') (hg : g.InUtf8 g') (depth : Nat) (s : List Char) :
    (∀ rest v, rules.run depth g s = .ok rest v →
      ∃ w, rules'.run depth g' (utf8.sequence s) = .ok (utf8.sequence rest) w ∧ v.InUtf8 w) ∧
    (∀ place kind, rules.run depth g s = .fail ⟨place, kind⟩ →
      rules'.run depth g' (utf8.sequence s) = .fail ⟨utf8.sequence place, kind⟩ ∧
      ((⟨utf8.sequence place, kind⟩ : ParseError UInt8).location (utf8.sequence s)).line =
        ((⟨place, kind⟩ : ParseError Char).location s).line ∧
      ((⟨utf8.sequence place, kind⟩ : ParseError UInt8).location (utf8.sequence s)).offset =
        ((⟨place, kind⟩ : ParseError Char).location s).offset) ∧
    (rules.run depth g s = .unfinished → rules'.run depth g' (utf8.sequence s) = .unfinished) := by
  have hreply : Reply.Encoded utf8 Value.InUtf8 (rules.run depth g s)
      (rules'.run depth g' (utf8.sequence s)) :=
    hg.parser hrules.onward (hrules.parser depth) s
  -- where the failure is located depends on its place being a suffix
  have honward : (rules.run depth g s).Onward s :=
    Rules.onward_run hrules.onward hg.onward depth s
  generalize rules.run depth g s = r, rules'.run depth g' (utf8.sequence s) = r' at hreply honward ⊢
  cases hreply with
  | ok rest hv => exact ⟨by rintro _ _ ⟨⟩; exact ⟨_, rfl, hv⟩, nofun, nofun⟩
  | fail error =>
    exact ⟨nofun, by rintro _ _ ⟨⟩; exact ⟨rfl, Encoding.location_error honward⟩, nofun⟩
  | unfinished => exact ⟨nofun, nofun, fun _ => rfl⟩

/-- A number in brackets, or in brackets in brackets, and so on, with white space
behind each opening one. -/
def bracketedNumber {ε : Type} (opening closing : List ε) : Rules ε (AsciiAtom ε) := fun _ =>
  .delimited (.atom (.tag opening))
    (.preceded (.special (.class0 .multiSpace))
      (.alt .list [.rule "number", .special .intLiteral]))
    (.atom (.tag closing))

/-- The sample grammar with two brackets that may be any texts, each encoded in bytes. -/
theorem bracketedNumber_inUtf8 (opening closing : List Char) :
    Rules.InUtf8 (bracketedNumber opening closing)
      (bracketedNumber (utf8.sequence opening) (utf8.sequence closing)) := by
  intro name
  refine .delimited (.atom (.tag opening)) (.preceded (.special (.class0 .multiSpace)) ?_)
    (.atom (.tag closing))
  refine @Grammar.InUtf8.alt .list
    [(.rule "number", .rule "number"), (.special .intLiteral, .special .intLiteral)] ?_
  simp only [List.forall_mem_cons, List.not_mem_nil, false_implies, implies_true, and_true]
  exact ⟨.rule "number", .special .intLiteral⟩

/-- A number in two pairs of guillemets, whose bytes begin alike, with a wide
character behind it; and one with such a character in its place, on the second
line of the text and three bytes into it. -/
theorem guillemets_in_utf8 :
    (Rules.InUtf8 (bracketedNumber ['«'] ['»']) (bracketedNumber [194, 171] [194, 187]) ∧
      Grammar.InUtf8 (.rule "number") (.rule "number")) ∧
    ((bracketedNumber ['«'] ['»']).run 3 (.rule "number") ['«', '«', '1', '_', '2', '»', '»', 'é'] =
        .ok ['é'] (.int 12) ∧
      ∃ w, (bracketedNumber [194, 171] [194, 187] : Rules UInt8 _).run 3 (.rule "number")
          [194, 171, 194, 171, 49, 95, 50, 194, 187, 194, 187, 195, 169] = .ok [195, 169] w ∧
        Value.InUtf8 (.int 12) w) ∧
    (bracketedNumber ['«'] ['»']).run 3 (.rule "number") ['«', '\n', 'é'] =
        .fail ⟨['é'], .integer⟩ ∧
      (bracketedNumber [194, 171] [194, 187] : Rules UInt8 _).run 3 (.rule "number")
        [194, 171, 10, 195, 169] = .fail ⟨[195, 169], .integer⟩ ∧
      ((⟨[195, 169], .integer⟩ : ParseError UInt8).location [194, 171, 10, 195, 169]).line = 1 ∧
      ((⟨[195, 169], .integer⟩ : ParseError UInt8).location [194, 171, 10, 195, 169]).offset =
        3 := by
  have hrules := bracketedNumber_inUtf8 ['«'] ['»']
  have h := run_utf8 hrules (.rule "number") 3
  have hok : (bracketedNumber ['«'] ['»']).run 3 (.rule "number")
      ['«', '«', '1', '_', '2', '»', '»', 'é'] = .ok ['é'] (.int 12) := rfl
  have hfail : (bracketedNumber ['«'] ['»']).run 3 (.rule "number") ['«', '\n', 'é'] =
      .fail ⟨['é'], .integer⟩ := rfl
  exact ⟨⟨hrules, .rule "number"⟩, ⟨hok, (h _).1 _ _ hok⟩, hfail, (h _).2.1 _ _ hfail⟩

end Parsing
