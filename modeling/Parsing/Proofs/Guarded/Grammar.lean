/-
  Parsing.Proofs.Guarded.Grammar — GUARDED RULES COME TO AN END.

  Rules may refer to each other in circles, and a grammar that refers to itself
  before anything is used up opens rules forever.  Rules are *guarded* when
  every reference stands in a sequence, behind an element of it that takes at
  least one element of the input whenever it succeeds: a single element, a
  literal that is not empty, or a stretch of fixed length.  Nothing is asked of
  what lies between the rule and the sequence, nor of what lies between the
  sequence and the reference: loops, alternatives, looking ahead, blocks behind
  a length, and parsers made from values all hand on inputs no longer than their
  own.  Only the parser that is run inside the slice of a `mapParser` may not
  refer to rules at all, since a slice may be any sequence.

  Then each rule that is opened inside another has a shorter input, so on an
  input of `n` elements no more than `n + 1` of them are ever open at once, the
  first one included, and the run comes to an answer.  A tree made only when it
  is run (`lazy`), but written where it stands, opens no rule.

  The proof goes by induction on the number of elements: where rules are settled
  on inputs of fewer than `n`, every tree in a place where references are free is
  settled there, and so every rule is settled on inputs of `n` elements
  (`parser_settled`).

  Main statement: `guarded_rules_terminate`.
-/
import Parsing.Grammar.Run
import Parsing.Proofs.Guarded.Combinators

namespace Parsing

variable {ε κ : Type}

/-! ## §1. Guards. -/

/-- Where a tree may refer to rules. -/
inductive Access where
  /-- Nowhere. -/
  | never
  /-- In a sequence, behind a guard. -/
  | behind
  /-- Anywhere, since something has been used up. -/
  | free

/-- Where a tree may refer to rules if it is run behind one that uses up at least
`k` elements. -/
def Access.after (k : Nat) : Access → Access
  | never => never
  | behind => if k = 0 then behind else free
  | free => free

/-- How many elements a guard uses up at least, and none what is no guard. -/
def Atom.least : Atom ε → Nat
  | take n => n
  | tag literal => literal.length
  | char _ | satisfy _ | oneOf _ | noneOf _ => 1
  | _ => 0

/-- The same of a tree: only an atom is a guard. -/
def Grammar.least : Grammar ε κ → Nat
  | .atom a => a.least
  | _ => 0

/-- A parser supplied as a function has to come to an answer, and may not leave
more than it is given. -/
def Atom.Guarded : Atom ε → Prop
  | .custom p => ∀ s, (p s).Answers 0 s.length
  | _ => True

mutual

/-- All references to rules are where they may be. -/
def Grammar.Guarded (access : Access) : Grammar ε κ → Prop
  | .atom a => a.Guarded
  | .special _ => True
  | .rule _ => access = .free
  -- one after another: what is behind a guard is free
  | .multiple _ ps => Grammar.GuardedInTurn access ps
  | .pair p q | .preceded p q | .terminated p q =>
      p.Guarded access ∧ q.Guarded (access.after p.least)
  | .delimited p q r | .separatedPair p q r =>
      p.Guarded access ∧ q.Guarded (access.after p.least) ∧
        r.Guarded ((access.after p.least).after q.least)
  -- the inner parser may be run on anything
  | .mapParser p q => p.Guarded access ∧ q.Guarded .never
  | .alt _ ps => Grammar.AllGuarded access ps
  | .manyTill p q | .lengthCount p q | .lengthValue p q => p.Guarded access ∧ q.Guarded access
  | .flatMap p next => p.Guarded access ∧ ∀ value, (next value).Guarded access
  | .lazy p | .count _ p | .fill _ p | .many0 p | .many1 p | .manyBounded _ _ p
  | .many0Count p | .many1Count p | .foldMany0 p _ _ | .foldMany1 p _ _
  | .foldManyBounded _ _ p _ _ | .lengthData p | .map _ p | .mapRes _ p | .replaceValue _ p
  | .verify _ p | .recognize p | .consumed p | .mapErr _ p | .mapKind _ p | .ignoreKind _ p
  | .optional p | .peek p | .negate p | .conditional _ p | .allConsuming p => p.Guarded access

/-- The same of the trees of a list, each run on what those before it leave. -/
def Grammar.GuardedInTurn (access : Access) : List (Grammar ε κ) → Prop
  | [] => True
  | p :: ps => p.Guarded access ∧ Grammar.GuardedInTurn (access.after p.least) ps

/-- The same of the trees of a list, each run on the same input. -/
def Grammar.AllGuarded (access : Access) : List (Grammar ε κ) → Prop
  | [] => True
  | p :: ps => p.Guarded access ∧ Grammar.AllGuarded access ps

end

/-- In every rule all references stand behind guards. -/
def Rules.Guarded (rules : Rules ε κ) : Prop := ∀ name, (rules name).Guarded .behind

/-! ## §2. Lengths at which a tree is settled. -/

/-- Where rules are settled on inputs of fewer than `n` elements, a tree is settled
on inputs of fewer than `b`. -/
def Access.Admits (n : Nat) : Access → (b : Nat) → Prop
  | never, _ => True
  | behind, b => b ≤ n + 1
  | free, b => b ≤ n

/-- Behind a guard the inputs are shorter by what it uses up. -/
theorem Access.Admits.after {n b : Nat} {access : Access} (h : access.Admits n b) (k : Nat) :
    (access.after k).Admits n (b - k) := by
  cases access with
  | never => trivial
  -- what stands behind a consuming part is free from there on
  | behind =>
    have hb : b ≤ n + 1 := h
    unfold Access.after
    dsimp only
    by_cases hk : k = 0
    · rw [if_pos hk]
      show b - k ≤ n + 1
      omega
    · rw [if_neg hk]
      show b - k ≤ n
      omega
  | free =>
    have hb : b ≤ n := h
    show b - k ≤ n
    omega

/-! ## §3. Atoms and lists of parsers. -/

open Parsing.Parser (Settled)

/-- Nested pairs and a list ask the same of the parsers in turn. -/
theorem Form.settled_multiple (form : Form) {b : Nat} {ps ps' : List (Parser ε (Value ε))}
    (hps : Settled.InSequence b ps ps') : Settled b 0 (form.multiple ps) (form.multiple ps') := by
  cases form with
  | tuple => exact (Settled.chain hps).map _
  | array => exact (Settled.multiple hps).map _
  | list => exact (Settled.multiple hps).map _

theorem Form.settled_alt (form : Form) {b : Nat} {ps ps' : List (Parser ε (Value ε))}
    (hps : List.Forall₂ (Settled b 0) ps ps') : Settled b 0 (form.alt ps) (form.alt ps') := by
  cases form with
  | tuple =>
    cases hps with
    | nil => exact Settled.alt .nil
    | cons hp hps => exact hp.firstOf hps
  | array => exact Settled.alt hps
  | list => exact Settled.alt hps

variable [Element ε] [DecidableEq ε]

/-- A guarded atom uses up at least what the guards count for it. -/
theorem Atom.settled (b : Nat) {a : Atom ε} (ha : a.Guarded) :
    Settled b a.least a.parser a.parser := by
  cases a with
  | take n => exact (Parser.settled_take b n).map _
  | takeWhile p => exact (Parser.settled_takeWhile b p).map _
  | takeWhile1 p => exact (Parser.settled_takeWhileSome b .takeWhile p).map _
  | takeTill p => exact (Parser.settled_takeWhile b _).map _
  | takeTill1 p => exact (Parser.settled_takeWhileSome b .takeTill _).map _
  | takeWhileBounded lower upper p =>
    exact (Parser.settled_takeWhileBounded b lower upper p).map _
  | takeUntil literal => exact (Parser.settled_takeUntil b literal).map _
  | takeUntil1 literal => exact (Parser.settled_takeUntil1 b literal).map _
  | tag literal => exact (Parser.settled_tag b literal).map _
  | isA set => exact ((Parser.settled_takeWhileSome b .takeWhile _).mapKind .isA).map _
  | isNot set => exact ((Parser.settled_takeWhileSome b .takeWhile _).mapKind .isNot).map _
  | char expected => exact (Parser.settled_element b .char _).map _
  | satisfy p => exact (Parser.settled_element b .satisfy p).map _
  | oneOf set => exact (Parser.settled_element b .oneOf _).map _
  | noneOf set => exact (Parser.settled_element b .noneOf _).map _
  | success value => exact Parser.settled_success b value
  | fail => exact Parser.settled_fail b .fail
  | rest => exact (Parser.settled_rest b).map _
  | restLen => exact (Parser.settled_restLen b).map _
  | eof => exact (Parser.settled_eof b).map _
  | custom p => exact Parser.settled_of_answers ha b

theorem AsciiAtom.settled [CharLike ε] (b : Nat) (a : AsciiAtom ε) :
    Settled b 0 a.parser a.parser := by
  cases a with
  | class0 c => exact (Parser.settled_takeWhile b _).map _
  | class1 c => exact (Parser.settled_takeWhileSome b c.kind _).map _
  | tagNoCase literal => exact (Parser.settled_tagNoCase b literal).map _
  | newline => exact (Parser.settled_element b .char _).weaken.map _
  | tab => exact (Parser.settled_element b .char _).weaken.map _
  | crlf => exact ((Parser.settled_tag b _).mapKind .crlf).weaken.map _
  | lineEnding => exact (Parser.settled_lineEnding b).map _
  | notLineEnding => exact (Parser.settled_takeWhile b _).map _
  | intLiteral => exact (Parser.settled_literal b _ _ _).map _
  | floatLiteral => exact (Parser.settled_literal b _ _ _).map _

/-- A sort of element whose special atoms always come to an answer. -/
class SettledSpecial (ε κ : Type) [Special ε κ] : Prop where
  settled : ∀ (b : Nat) (a : κ),
    Settled b 0 (Special.parser a : Parser ε (Value ε)) (Special.parser a)

instance : SettledSpecial ε Empty where
  settled _ a := nomatch a

instance [CharLike ε] : SettledSpecial ε (AsciiAtom ε) where
  settled := AsciiAtom.settled

/-! ## §4. Trees. -/

namespace Grammar

variable [Special ε κ] {rules rules' : String → Parser ε (Value ε)} {n : Nat}

/-- A guard uses up as much as it says. -/
theorem settled_least {b : Nat} {access : Access} {g : Grammar ε κ} (hg : g.Guarded access)
    (h : Settled b 0 (g.parser rules) (g.parser rules')) :
    Settled b g.least (g.parser rules) (g.parser rules') := by
  cases g with
  | atom a => exact Atom.settled b hg
  | _ => exact h

mutual

/-- Where the rules are settled on inputs of fewer than `n` elements, every guarded
tree is settled at the lengths that its place admits. -/
theorem parser_settled [SettledSpecial ε κ]
    (hrules : ∀ name, Settled n 0 (rules name) (rules' name)) :
    ∀ (g : Grammar ε κ) {access : Access} {b : Nat}, g.Guarded access → access.Admits n b →
      Settled b 0 (g.parser rules) (g.parser rules')
  | .atom _, _, b, h, _ => (Atom.settled b h).weaken
  | .special a, _, b, _, _ => SettledSpecial.settled b a
  -- only where references are free is there one, and there `b` is at most `n`
  | .rule name, .free, _, _, hb => fun s hs => hrules name s (Nat.lt_of_lt_of_le hs hb)
  | .lazy p, _, _, h, hb => parser_settled hrules p h hb
  -- one after another
  | .multiple form ps, _, _, h, hb => form.settled_multiple (parsers_inSequence hrules ps h hb)
  | .pair p q, _, _, h, hb =>
      ((settled_least h.1 (parser_settled hrules p h.1 hb)).pair
        (parser_settled hrules q h.2 (hb.after p.least))).map _
  | .preceded p q, _, _, h, hb =>
      (settled_least h.1 (parser_settled hrules p h.1 hb)).preceded
        (parser_settled hrules q h.2 (hb.after p.least))
  | .terminated p q, _, _, h, hb =>
      (settled_least h.1 (parser_settled hrules p h.1 hb)).terminated
        (parser_settled hrules q h.2 (hb.after p.least))
  | .delimited p q r, _, _, h, hb =>
      (settled_least h.1 (parser_settled hrules p h.1 hb)).delimited
        (settled_least h.2.1 (parser_settled hrules q h.2.1 (hb.after p.least)))
        (parser_settled hrules r h.2.2 ((hb.after p.least).after q.least))
  | .separatedPair p q r, _, _, h, hb =>
      ((settled_least h.1 (parser_settled hrules p h.1 hb)).separatedPair
        (settled_least h.2.1 (parser_settled hrules q h.2.1 (hb.after p.least)))
        (parser_settled hrules r h.2.2 ((hb.after p.least).after q.least))).map _
  -- one or another
  | .alt form ps, _, _, h, hb => form.settled_alt (parsers_settled hrules ps h hb)
  -- again and again
  | .count n p, _, _, h, hb => ((parser_settled hrules p h hb).count n).map _
  | .fill slots p, _, _, h, hb => ((parser_settled hrules p h hb).filled slots).map _
  | .many0 p, _, _, h, hb => ((parser_settled hrules p h hb).manyAs _ _ _).map _
  | .many1 p, _, _, h, hb => ((parser_settled hrules p h hb).manyAs _ _ _).map _
  | .manyBounded _ _ p, _, _, h, hb => ((parser_settled hrules p h hb).manyAs _ _ _).map _
  | .many0Count p, _, _, h, hb => ((parser_settled hrules p h hb).manyCount _).map _
  | .many1Count p, _, _, h, hb => ((parser_settled hrules p h hb).manyCount _).map _
  | .manyTill p marker, _, _, h, hb =>
      ((parser_settled hrules p h.1 hb).manyTill (parser_settled hrules marker h.2 hb)).map _
  | .foldMany0 p first combine, _, _, h, hb =>
      (parser_settled hrules p h hb).foldAs _ _ _ first combine
  | .foldMany1 p first combine, _, _, h, hb =>
      (parser_settled hrules p h hb).foldAs _ _ _ first combine
  | .foldManyBounded _ _ p first combine, _, _, h, hb =>
      (parser_settled hrules p h hb).foldAs _ _ _ first combine
  -- behind a length
  | .lengthCount counter p, _, _, h, hb =>
      ((parser_settled hrules counter h.1 hb).lengthCount (parser_settled hrules p h.2 hb)).map _
  | .lengthData counter, _, _, h, hb => (parser_settled hrules counter h hb).lengthData.map _
  | .lengthValue counter p, _, _, h, hb =>
      (parser_settled hrules counter h.1 hb).lengthValue (parser_settled hrules p h.2 hb)
  -- changing the value
  | .map f p, _, _, h, hb => (parser_settled hrules p h hb).map f
  | .mapRes f p, _, _, h, hb => (parser_settled hrules p h hb).mapRes f
  | .replaceValue _ p, _, _, h, hb => (parser_settled hrules p h hb).map _
  | .flatMap p next, _, _, h, hb =>
      (parser_settled hrules p h.1 hb).flatMap fun value =>
        parser_settled hrules (next value) (h.2 value) hb
  | .mapParser outer inner, _, _, h, hb =>
      ((parser_settled hrules outer h.1 hb).map Value.toSlice).mapParser fun _ =>
        parser_settled hrules inner h.2 trivial
  | .verify check p, _, _, h, hb => (parser_settled hrules p h hb).verify check
  | .recognize p, _, _, h, hb => (parser_settled hrules p h hb).recognize.map _
  | .consumed p, _, _, h, hb => (parser_settled hrules p h hb).consumed.map _
  -- changing the error
  | .mapErr f p, _, _, h, hb => (parser_settled hrules p h hb).mapErr f
  | .mapKind kind p, _, _, h, hb => (parser_settled hrules p h hb).mapKind kind
  | .ignoreKind kind p, _, _, h, hb => ((parser_settled hrules p h hb).ignoreKind kind).map _
  -- trying and looking ahead
  | .optional p, _, _, h, hb => (parser_settled hrules p h hb).optional.map _
  | .peek p, _, _, h, hb => (parser_settled hrules p h hb).peek
  | .negate p, _, _, h, hb => (parser_settled hrules p h hb).negate.map _
  | .conditional enabled p, _, _, h, hb =>
      ((parser_settled hrules p h hb).conditional enabled).map _
  | .allConsuming p, _, _, h, hb => (parser_settled hrules p h hb).allConsuming

/-- Each subtree of a sequence is guarded behind those before it, so it is settled on
the lengths that are left to it. -/
theorem parsers_inSequence [SettledSpecial ε κ]
    (hrules : ∀ name, Settled n 0 (rules name) (rules' name)) :
    ∀ (gs : List (Grammar ε κ)) {access : Access} {b : Nat}, GuardedInTurn access gs →
      access.Admits n b → Settled.InSequence b (parsers rules gs) (parsers rules' gs)
  | [], _, b, _, _ => .nil b
  | g :: gs, _, _, h, hb =>
      .cons (settled_least h.1 (parser_settled hrules g h.1 hb))
        (parsers_inSequence hrules gs h.2 (hb.after g.least))

/-- Alternatives are all guarded from the same place on. -/
theorem parsers_settled [SettledSpecial ε κ]
    (hrules : ∀ name, Settled n 0 (rules name) (rules' name)) :
    ∀ (gs : List (Grammar ε κ)) {access : Access} {b : Nat}, AllGuarded access gs →
      access.Admits n b → List.Forall₂ (Settled b 0) (parsers rules gs) (parsers rules' gs)
  | [], _, _, _, _ => .nil
  | g :: gs, _, _, h, hb =>
      .cons (parser_settled hrules g h.1 hb) (parsers_settled hrules gs h.2 hb)

end

end Grammar

/-! ## §5. Runs to any depth. -/

namespace Rules

variable [Special ε κ] [SettledSpecial ε κ] {rules : Rules ε κ}

/-- **Guarded rules are settled at every depth that is no less than the number of
elements**, by induction on that number: what a rule refers to is run on a shorter
input. -/
theorem parser_settled (hrules : rules.Guarded) {n depth depth' : Nat} (hdepth : n ≤ depth)
    (hdepth' : n ≤ depth') (name : String) :
    Settled n 0 (rules.parser depth name) (rules.parser depth' name) := by
  induction n generalizing depth depth' name with
  | zero => exact fun s hs => absurd hs (Nat.not_lt_zero _)
  | succ n ih =>
    obtain ⟨d, rfl⟩ := Nat.exists_eq_add_of_le' hdepth
    obtain ⟨d', rfl⟩ := Nat.exists_eq_add_of_le' hdepth'
    have hinner : ∀ name, Settled n 0 (rules.parser (d + n) name) (rules.parser (d' + n) name) :=
      ih (Nat.le_add_left n d) (Nat.le_add_left n d')
    exact Grammar.parser_settled hinner (rules name) (hrules name) (Nat.le_refl (n + 1))

/-- A guarded rule comes to one answer, at every depth that is greater than the
number of elements. -/
theorem exists_answer (hrules : rules.Guarded) (name : String) (s : List ε) :
    ∃ reply, reply ≠ .unfinished ∧
      (∀ depth, s.length + 1 ≤ depth → rules.run depth (.rule name) s = reply) ∧
      ∀ depth, s.length ≤ depth → rules.run depth (rules name) s = reply := by
  have hsettled : ∀ depth, s.length + 1 ≤ depth → Reply.Settled 0 s.length
      (rules.parser (s.length + 1) name s) (rules.parser depth name s) := fun depth hdepth =>
    parser_settled hrules (Nat.le_refl _) hdepth name s (Nat.lt_succ_self _)
  refine ⟨rules.parser (s.length + 1) name s, ?_, ?_, ?_⟩
  · exact (hsettled _ (Nat.le_refl _)).2.ne_unfinished
  · intro depth hdepth
    exact (hsettled depth hdepth).1
  · intro depth hdepth
    rw [← run_rule_succ]
    exact (hsettled (depth + 1) (Nat.succ_le_succ hdepth)).1

end Rules

/-- **GUARDED RULES COME TO AN END.**  Run on any input, a rule of guarded rules comes
to an answer, and it is the same one at every depth that exceeds the number of
elements of the input by one: so many rules are never needed open at once, the one
that was started included.  If the tree of the rule is run itself, without opening
it, there is one less. -/
theorem guarded_rules_terminate :
    (∀ (ε : Type) [Element ε] [DecidableEq ε] [CharLike ε] (rules : Rules ε (AsciiAtom ε)),
      rules.Guarded → ∀ (name : String) (s : List ε), ∃ reply, reply ≠ .unfinished ∧
        (∀ depth, s.length + 1 ≤ depth → rules.run depth (.rule name) s = reply) ∧
        ∀ depth, s.length ≤ depth → rules.run depth (rules name) s = reply) ∧
    ∀ (ε : Type) [Element ε] [DecidableEq ε] (rules : Rules ε Empty),
      rules.Guarded → ∀ (name : String) (s : List ε), ∃ reply, reply ≠ .unfinished ∧
        (∀ depth, s.length + 1 ≤ depth → rules.run depth (.rule name) s = reply) ∧
        ∀ depth, s.length ≤ depth → rules.run depth (rules name) s = reply := by
  constructor
  · intro ε _ _ _ rules hrules name s
    exact Rules.exists_answer hrules name s
  · intro ε _ _ rules hrules name s
    exact Rules.exists_answer hrules name s

/-- Lists of lists between an opening and a closing element. -/
def nestedLists {ε κ : Type} (opening closing : ε) : Rules ε κ := fun _ =>
  .delimited (.atom (.char opening)) (.many0 (.rule "list")) (.atom (.char closing))

omit [Element ε] [DecidableEq ε] in
/-- In the sample grammar the inner list stands behind an opening bracket. -/
theorem nestedLists_guarded (opening closing : ε) :
    (nestedLists opening closing : Rules ε κ).Guarded :=
  fun _ => ⟨trivial, rfl, trivial⟩

/-- A list with one empty list in it, as a text and as tokens. -/
theorem nestedLists_terminate :
    ((nestedLists '[' ']' : Rules Char (AsciiAtom Char)).Guarded ∧
      ∀ depth, 5 ≤ depth →
        (nestedLists '[' ']' : Rules Char (AsciiAtom Char)).run depth (.rule "list")
          ['[', '[', ']', ']'] = .ok [] (.list [.list []])) ∧
    ((nestedLists 1 2 : Rules Int Empty).Guarded ∧
      ∀ depth, 5 ≤ depth →
        (nestedLists 1 2 : Rules Int Empty).run depth (.rule "list") [1, 1, 2, 2] =
          .ok [] (.list [.list []])) := by
  constructor
  · refine ⟨nestedLists_guarded _ _, ?_⟩
    intro depth hdepth
    obtain ⟨reply, _, hreply, _⟩ :=
      guarded_rules_terminate.1 Char _ (nestedLists_guarded _ _) "list" ['[', '[', ']', ']']
    rw [hreply depth hdepth, ← hreply 5 (Nat.le_refl 5)]
    rfl
  · refine ⟨nestedLists_guarded _ _, ?_⟩
    intro depth hdepth
    obtain ⟨reply, _, hreply, _⟩ :=
      guarded_rules_terminate.2 Int _ (nestedLists_guarded _ _) "list" [1, 1, 2, 2]
    rw [hreply depth hdepth, ← hreply 5 (Nat.le_refl 5)]
    rfl

/-- One rule for each element, and one at the end, are open at once where the rule
goes on behind every element. -/
example :
    let rules : Rules Int Empty := fun _ => .preceded (.atom (.char 1)) (.rule "on")
    rules.run 2 (.rule "on") [1, 1] = .unfinished ∧
      rules.run 3 (.rule "on") [1, 1] = .fail ⟨[], .char⟩ :=
  ⟨rfl, rfl⟩

end Parsing
