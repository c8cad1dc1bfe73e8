/-
  Parsing.Proofs.Reshape.Grammar — ONE GRAMMAR IN TWO SHAPES.

  A grammar over one shape is *translated* to another shape node by node.  What
  the client supplies for the two has to agree: predicates on elements that
  correspond, changes of values and errors that commute with the reshaping.
  The relation says nothing of the atoms of one sort of element only, so these
  have no translation.

  A grammar and its translation then do the same on every input: the one
  succeeds, fails or has no answer where the other one does, with corresponding
  values, kinds and places.  The proof is one induction over the translation,
  with the lemma of each combinator at its node, inside an induction over the
  depth to which rules may be open.

  Main statement: `run_codePoints_iff`, for a text and its code points.
-/
import Parsing.Proofs.Onward.Grammar
import Parsing.Proofs.Reshape.Span

namespace Parsing

variable {ε ζ κ κ' : Type} [Element ε] [Element ζ] {τ : Reshaping ε ζ}

/-! ## §1. Translations. -/

variable (τ)

/-- The same atom in both shapes.  Parsers supplied as functions have to be
onward, and to reply the same in both shapes. -/
inductive Atom.Reshaped : Atom ε → Atom ζ → Prop
  | take (n : Nat) : Reshaped (.take n) (.take n)
  | takeWhile {p : ε → Bool} {p' : ζ → Bool} (hp : ∀ e, p' (τ.element e) = p e) :
      Reshaped (.takeWhile p) (.takeWhile p')
  | takeWhile1 {p : ε → Bool} {p' : ζ → Bool} (hp : ∀ e, p' (τ.element e) = p e) :
      Reshaped (.takeWhile1 p) (.takeWhile1 p')
  | takeTill {p : ε → Bool} {p' : ζ → Bool} (hp : ∀ e, p' (τ.element e) = p e) :
      Reshaped (.takeTill p) (.takeTill p')
  | takeTill1 {p : ε → Bool} {p' : ζ → Bool} (hp : ∀ e, p' (τ.element e) = p e) :
      Reshaped (.takeTill1 p) (.takeTill1 p')
  | takeWhileBounded (lower upper : Nat) {p : ε → Bool} {p' : ζ → Bool}
      (hp : ∀ e, p' (τ.element e) = p e) :
      Reshaped (.takeWhileBounded lower upper p) (.takeWhileBounded lower upper p')
  | takeUntil (literal : List ε) :
      Reshaped (.takeUntil literal) (.takeUntil (τ.sequence literal))
  | takeUntil1 (literal : List ε) :
      Reshaped (.takeUntil1 literal) (.takeUntil1 (τ.sequence literal))
  | tag (literal : List ε) : Reshaped (.tag literal) (.tag (τ.sequence literal))
  | isA (set : List ε) : Reshaped (.isA set) (.isA (τ.sequence set))
  | isNot (set : List ε) : Reshaped (.isNot set) (.isNot (τ.sequence set))
  | char (expected : ε) : Reshaped (.char expected) (.char (τ.element expected))
  | satisfy {p : ε → Bool} {p' : ζ → Bool} (hp : ∀ e, p' (τ.element e) = p e) :
      Reshaped (.satisfy p) (.satisfy p')
  | oneOf (set : List ε) : Reshaped (.oneOf set) (.oneOf (τ.sequence set))
  | noneOf (set : List ε) : Reshaped (.noneOf set) (.noneOf (τ.sequence set))
  | success (value : Value ε) : Reshaped (.success value) (.success (τ.value value))
  | fail : Reshaped .fail .fail
  | rest : Reshaped .rest .rest
  | restLen : Reshaped .restLen .restLen
  | eof : Reshaped .eof .eof
  | custom {p : Parser ε (Value ε)} {p' : Parser ζ (Value ζ)} (honward : p.Onward)
      (hp : Parser.Reshaped τ τ.value p p') : Reshaped (.custom p) (.custom p')

variable [DecidableEq ε] [Special ε κ]

/-- The same grammar in both shapes.  Children in a list are given as one list
of pairs. -/
inductive Grammar.Reshaped (rules : Rules ε κ) : Grammar ε κ → Grammar ζ κ' → Prop
  | atom {a : Atom ε} {a' : Atom ζ} (h : Atom.Reshaped τ a a') : Reshaped rules (.atom a) (.atom a')
  | rule (name : String) : Reshaped rules (.rule name) (.rule name)
  | lazy {p p'} (hp : Reshaped rules p p') : Reshaped rules (.lazy p) (.lazy p')
  -- one after another
  | multiple (form : Form) {ps : List (Grammar ε κ × Grammar ζ κ')}
      (hps : ∀ x ∈ ps, Reshaped rules x.1 x.2) :
      Reshaped rules (.multiple form (ps.map Prod.fst)) (.multiple form (ps.map Prod.snd))
  | pair {p p' q q'} (hp : Reshaped rules p p') (hq : Reshaped rules q q') :
      Reshaped rules (.pair p q) (.pair p' q')
  | preceded {p p' q q'} (hp : Reshaped rules p p') (hq : Reshaped rules q q') :
      Reshaped rules (.preceded p q) (.preceded p' q')
  | terminated {p p' q q'} (hp : Reshaped rules p p') (hq : Reshaped rules q q') :
      Reshaped rules (.terminated p q) (.terminated p' q')
  | delimited {p p' q q' r r'} (hp : Reshaped rules p p') (hq : Reshaped rules q q')
      (hr : Reshaped rules r r') : Reshaped rules (.delimited p q r) (.delimited p' q' r')
  | separatedPair {p p' q q' r r'} (hp : Reshaped rules p p') (hq : Reshaped rules q q')
      (hr : Reshaped rules r r') : Reshaped rules (.separatedPair p q r) (.separatedPair p' q' r')
  -- one or another
  | alt (form : Form) {ps : List (Grammar ε κ × Grammar ζ κ')}
      (hps : ∀ x ∈ ps, Reshaped rules x.1 x.2) :
      Reshaped rules (.alt form (ps.map Prod.fst)) (.alt form (ps.map Prod.snd))
  -- again and again
  | count (n : Nat) {p p'} (hp : Reshaped rules p p') : Reshaped rules (.count n p) (.count n p')
  | fill (slots : List (Value ε)) {p p'} (hp : Reshaped rules p p') :
      Reshaped rules (.fill slots p) (.fill (slots.map τ.value) p')
  | many0 {p p'} (hp : Reshaped rules p p') : Reshaped rules (.many0 p) (.many0 p')
  | many1 {p p'} (hp : Reshaped rules p p') : Reshaped rules (.many1 p) (.many1 p')
  | manyBounded (lower upper : Nat) {p p'} (hp : Reshaped rules p p') :
      Reshaped rules (.manyBounded lower upper p) (.manyBounded lower upper p')
  | many0Count {p p'} (hp : Reshaped rules p p') : Reshaped rules (.many0Count p) (.many0Count p')
  | many1Count {p p'} (hp : Reshaped rules p p') : Reshaped rules (.many1Count p) (.many1Count p')
  | manyTill {p p' q q'} (hp : Reshaped rules p p') (hq : Reshaped rules q q') :
      Reshaped rules (.manyTill p q) (.manyTill p' q')
  | foldMany0 {p p'} (hp : Reshaped rules p p') (first : Value ε)
      {combine : Value ε → Value ε → Value ε} {combine' : Value ζ → Value ζ → Value ζ}
      (hcombine : ∀ all v, combine' (τ.value all) (τ.value v) = τ.value (combine all v)) :
      Reshaped rules (.foldMany0 p first combine) (.foldMany0 p' (τ.value first) combine')
  | foldMany1 {p p'} (hp : Reshaped rules p p') (first : Value ε)
      {combine : Value ε → Value ε → Value ε} {combine' : Value ζ → Value ζ → Value ζ}
      (hcombine : ∀ all v, combine' (τ.value all) (τ.value v) = τ.value (combine all v)) :
      Reshaped rules (.foldMany1 p first combine) (.foldMany1 p' (τ.value first) combine')
  | foldManyBounded (lower upper : Nat) {p p'} (hp : Reshaped rules p p') (first : Value ε)
      {combine : Value ε → Value ε → Value ε} {combine' : Value ζ → Value ζ → Value ζ}
      (hcombine : ∀ all v, combine' (τ.value all) (τ.value v) = τ.value (combine all v)) :
      Reshaped rules (.foldManyBounded lower upper p first combine)
        (.foldManyBounded lower upper p' (τ.value first) combine')
  -- behind a length
  | lengthCount {p p' q q'} (hp : Reshaped rules p p') (hq : Reshaped rules q q') :
      Reshaped rules (.lengthCount p q) (.lengthCount p' q')
  | lengthData {p p'} (hp : Reshaped rules p p') : Reshaped rules (.lengthData p) (.lengthData p')
  | lengthValue {p p' q q'} (hp : Reshaped rules p p') (hq : Reshaped rules q q') :
      Reshaped rules (.lengthValue p q) (.lengthValue p' q')
  -- changing the value
  | map {f : Value ε → Value ε} {f' : Value ζ → Value ζ}
      (hf : ∀ v, f' (τ.value v) = τ.value (f v)) {p p'} (hp : Reshaped rules p p') :
      Reshaped rules (.map f p) (.map f' p')
  | mapRes {f : Value ε → Option (Value ε)} {f' : Value ζ → Option (Value ζ)}
      (hf : ∀ v, f' (τ.value v) = (f v).map τ.value) {p p'} (hp : Reshaped rules p p') :
      Reshaped rules (.mapRes f p) (.mapRes f' p')
  | replaceValue (value : Value ε) {p p'} (hp : Reshaped rules p p') :
      Reshaped rules (.replaceValue value p) (.replaceValue (τ.value value) p')
  | flatMap {p p'} (hp : Reshaped rules p p') {next : Value ε → Grammar ε κ}
      {next' : Value ζ → Grammar ζ κ'} (hnext : ∀ v, Reshaped rules (next v) (next' (τ.value v))) :
      Reshaped rules (.flatMap p next) (.flatMap p' next')
  /-- The outer parser yields a part at the front of its input. -/
  | mapParser {outer outer' inner inner'} (houter : Reshaped rules outer outer')
      (hfront : ∀ depth s rest v, rules.run depth outer s = .ok rest v → v.toSlice <+: s)
      (hinner : Reshaped rules inner inner') :
      Reshaped rules (.mapParser outer inner) (.mapParser outer' inner')
  | verify {check : Value ε → Bool} {check' : Value ζ → Bool}
      (hcheck : ∀ v, check' (τ.value v) = check v) {p p'} (hp : Reshaped rules p p') :
      Reshaped rules (.verify check p) (.verify check' p')
  | recognize {p p'} (hp : Reshaped rules p p') : Reshaped rules (.recognize p) (.recognize p')
  | consumed {p p'} (hp : Reshaped rules p p') : Reshaped rules (.consumed p) (.consumed p')
  -- changing the error
  /-- A change of errors may move them on, but not elsewhere. -/
  | mapErr {f : ParseError ε → ParseError ε} {f' : ParseError ζ → ParseError ζ}
      (hplace : ∀ error, (f error).rest <:+ error.rest)
      (hf : ∀ error, f' (τ.error error) = τ.error (f error)) {p p'} (hp : Reshaped rules p p') :
      Reshaped rules (.mapErr f p) (.mapErr f' p')
  | mapKind (kind : Kind) {p p'} (hp : Reshaped rules p p') :
      Reshaped rules (.mapKind kind p) (.mapKind kind p')
  | ignoreKind (kind : Kind) {p p'} (hp : Reshaped rules p p') :
      Reshaped rules (.ignoreKind kind p) (.ignoreKind kind p')
  -- trying and looking ahead
  | optional {p p'} (hp : Reshaped rules p p') : Reshaped rules (.optional p) (.optional p')
  | peek {p p'} (hp : Reshaped rules p p') : Reshaped rules (.peek p) (.peek p')
  | negate {p p'} (hp : Reshaped rules p p') : Reshaped rules (.negate p) (.negate p')
  | conditional (enabled : Bool) {p p'} (hp : Reshaped rules p p') :
      Reshaped rules (.conditional enabled p) (.conditional enabled p')
  | allConsuming {p p'} (hp : Reshaped rules p p') :
      Reshaped rules (.allConsuming p) (.allConsuming p')

/-- The same rules in both shapes. -/
def Rules.Reshaped (rules : Rules ε κ) (rules' : Rules ζ κ') : Prop :=
  ∀ name, Grammar.Reshaped τ rules (rules name) (rules' name)

/-! ## §2. Atoms. -/

variable {τ}

section Atoms

variable {a : Atom ε} {a' : Atom ζ}

theorem Atom.Reshaped.parser [DecidableEq ζ] (h : Atom.Reshaped τ a a') :
    Parser.Reshaped τ τ.value a.parser a'.parser := by
  cases h with
  | take n => exact (Parser.reshaped_take n).map fun _ => rfl
  | takeWhile hp => exact (Parser.reshaped_takeWhile hp).map fun _ => rfl
  | takeWhile1 hp => exact (Parser.reshaped_takeWhileSome hp .takeWhile).map fun _ => rfl
  | takeTill hp => exact (Parser.reshaped_takeTill hp).map fun _ => rfl
  | takeTill1 hp => exact (Parser.reshaped_takeTill1 hp).map fun _ => rfl
  | takeWhileBounded lower upper hp =>
    exact (Parser.reshaped_takeWhileBounded hp lower upper).map fun _ => rfl
  | takeUntil literal => exact (Parser.reshaped_takeUntil literal).map fun _ => rfl
  | takeUntil1 literal => exact (Parser.reshaped_takeUntil1 literal).map fun _ => rfl
  | tag literal => exact (Parser.reshaped_tag literal).map fun _ => rfl
  | isA set => exact (Parser.reshaped_isA set).map fun _ => rfl
  | isNot set => exact (Parser.reshaped_isNot set).map fun _ => rfl
  | char expected => exact (Parser.reshaped_char expected).map fun _ => rfl
  | satisfy hp => exact (Parser.reshaped_element hp .satisfy).map fun _ => rfl
  | oneOf set => exact (Parser.reshaped_oneOf set).map fun _ => rfl
  | noneOf set => exact (Parser.reshaped_noneOf set).map fun _ => rfl
  | success value => exact fun _ => rfl
  | fail => exact fun _ => rfl
  | rest => exact Parser.encoded_rest.reshaped.map fun _ => rfl
  | restLen => exact Parser.reshaped_restLen.map fun _ => rfl
  | eof => exact Parser.encoded_eof.reshaped.map fun _ => rfl
  | custom _ hp => exact hp

omit [DecidableEq ε] in
theorem Atom.Reshaped.onward (h : Atom.Reshaped τ a a') : a.Onward := by
  cases h with
  | custom honward _ => exact honward
  | _ => trivial

end Atoms

/-! ## §3. Trees. -/

variable {rules : Rules ε κ} {g : Grammar ε κ} {g' : Grammar ζ κ'}

/-- What has a translation is onward. -/
theorem Grammar.Reshaped.onward (h : Grammar.Reshaped τ rules g g') : g.Onward := by
  induction h with
  | atom h => exact h.onward
  | rule => trivial
  | multiple form _ ih | alt form _ ih =>
    refine Grammar.allOnward_iff.mpr fun p hp => ?_
    obtain ⟨x, hx, rfl⟩ := List.mem_map.mp hp
    exact ih x hx
  | pair _ _ ihp ihq | preceded _ _ ihp ihq | terminated _ _ ihp ihq | manyTill _ _ ihp ihq
  | lengthCount _ _ ihp ihq | lengthValue _ _ ihp ihq | mapParser _ _ _ ihp ihq
  | flatMap _ _ ihp ihq => exact ⟨ihp, ihq⟩
  | delimited _ _ _ ihp ihq ihr | separatedPair _ _ _ ihp ihq ihr => exact ⟨ihp, ihq, ihr⟩
  | mapErr hplace _ _ ih => exact ⟨hplace, ih⟩
  | lazy _ ih | count _ _ ih | fill _ _ ih | many0 _ ih | many1 _ ih | manyBounded _ _ _ ih
  | many0Count _ ih | many1Count _ ih | foldMany0 _ _ _ ih | foldMany1 _ _ _ ih
  | foldManyBounded _ _ _ _ _ ih | lengthData _ ih | map _ _ ih | mapRes _ _ ih
  | replaceValue _ _ ih | verify _ _ ih | recognize _ ih | consumed _ ih | mapKind _ _ ih
  | ignoreKind _ _ ih | optional _ ih | peek _ ih | negate _ ih | conditional _ _ ih
  | allConsuming _ ih => exact ih

section Runs

variable [DecidableEq ζ] [Special ζ κ'] {rules' : Rules ζ κ'}

/-- A grammar and its translation stand for the same parser in both shapes, if
their rules do. -/
theorem Grammar.Reshaped.parser [OnwardSpecial ε κ] (h : Grammar.Reshaped τ rules g g')
    (honward : rules.Onward) {depth : Nat} (hrules : ∀ name,
      Parser.Reshaped τ τ.value (rules.parser depth name) (rules'.parser depth name)) :
    Parser.Reshaped τ τ.value (g.parser (rules.parser depth))
      (g'.parser (rules'.parser depth)) := by
  -- where progress is measured or something is cut out, the parts are onward
  have hon : ∀ {p : Grammar ε κ} {p' : Grammar ζ κ'}, Grammar.Reshaped τ rules p p' →
      (p.parser (rules.parser depth)).Onward :=
    fun hp => Rules.onward_run honward hp.onward depth
  rw [Parser.reshaped_iff]
  induction h with
  | atom h => exact Parser.reshaped_iff.mp h.parser
  | rule name => exact Parser.reshaped_iff.mp (hrules name)
  | lazy _ ih => exact ih
  -- one after another
  | multiple form _ ih =>
    obtain ⟨qs, hfst, hsnd, hqs⟩ := Grammar.exists_parsers ih
    rw [Grammar.parser, Grammar.parser, hfst, hsnd]
    exact form.encoded_multiple (fun _ _ => τ.value_tuple) (fun _ _ => τ.value_list) hqs
  | pair _ _ ihp ihq => exact (ihp.pair ihq).map fun _ _ => τ.value_ofPair
  | preceded _ _ ihp ihq => exact ihp.preceded ihq
  | terminated _ _ ihp ihq => exact ihp.terminated ihq
  | delimited _ _ _ ihp ihq ihr => exact ihp.delimited ihq ihr
  | separatedPair _ _ _ ihp ihq ihr =>
    exact (ihp.separatedPair ihq ihr).map fun _ _ => τ.value_ofPair
  -- one or another
  | alt form _ ih =>
    obtain ⟨qs, hfst, hsnd, hqs⟩ := Grammar.exists_parsers ih
    rw [Grammar.parser, Grammar.parser, hfst, hsnd]
    exact form.encoded_alt hqs
  -- again and again
  | count n _ ih => exact (ih.count n).map fun _ _ => τ.value_list
  | fill slots _ ih =>
    have hslots : List.Forall₂ (fun v w => w = τ.value v) slots (slots.map τ.value) :=
      List.forall₂_map_right_iff.mpr (List.forall₂_same.mpr fun _ _ => rfl)
    exact (ih.filled hslots).map fun _ _ => τ.value_list
  | many0 hp ih => exact (ih.manyBounded 0 Parser.maxCount (hon hp)).map fun _ _ => τ.value_list
  | many1 hp ih => exact (ih.many1 (hon hp)).map fun _ _ => τ.value_list
  | manyBounded lower upper hp ih =>
    exact (ih.manyBounded lower upper (hon hp)).map fun _ _ => τ.value_list
  | many0Count hp ih => exact (ih.manyCount 0 (hon hp)).map fun _ _ h => h ▸ rfl
  | many1Count hp ih => exact (ih.manyCount 1 (hon hp)).map fun _ _ h => h ▸ rfl
  | manyTill hp _ ihp ihq =>
    exact (ihp.manyTill (hon hp) ihq).map fun _ _ h => τ.value_ofPair ⟨τ.value_list h.1, h.2⟩
  | foldMany0 hp first hcombine ih =>
    refine ih.foldAs 0 _ _ (hon hp) ?_ (τ.combine_value hcombine)
    rfl
  | foldMany1 hp first hcombine ih =>
    refine ih.foldAs 1 _ _ (hon hp) ?_ (τ.combine_value hcombine)
    rfl
  | foldManyBounded lower upper hp first hcombine ih =>
    refine ih.foldAs lower upper _ (hon hp) ?_ (τ.combine_value hcombine)
    rfl
  -- behind a length
  | lengthCount _ _ ihp ihq =>
    exact (Parser.encoded_lengthCount τ.asLength?_eq ihp ihq).map fun _ _ => τ.value_list
  | lengthData _ ih =>
    exact (Parser.encoded_lengthData τ.asLength?_eq ih).map fun _ _ h => h ▸ rfl
  | lengthValue _ hq ihp ihq =>
    exact Parser.encoded_lengthValue τ.asLength?_eq ihp ihq (hon hq)
  -- changing the value
  | map hf _ ih => exact ih.map fun v _ h => h ▸ hf v
  | mapRes hf _ ih =>
    refine ih.mapRes fun v w h => ?_
    rw [h, hf]
    exact τ.rel_map_value _
  | replaceValue value _ ih => exact ih.map fun _ _ _ => rfl
  | flatMap _ _ ihp ihnext => exact ihp.flatMap fun v _ h => h ▸ ihnext v
  | mapParser _ hfront hinner ihouter ihinner =>
    refine Parser.Encoded.mapParser (ihouter.map fun v w h => ?_) ?_ ihinner (hon hinner)
    · rw [h, τ.toSlice_value, τ.sequence_encoding]
    · intro s rest slice hslice
      obtain ⟨v, hv, rfl⟩ := Reply.map_eq_ok hslice
      exact hfront depth s rest v hv
  | verify hcheck _ ih => exact ih.verify fun v _ h => h ▸ hcheck v
  | recognize hp ih => exact (ih.recognize (hon hp)).map fun _ _ => τ.value_slice
  | consumed hp ih =>
    exact (ih.consumed (hon hp)).map fun _ _ h => τ.value_ofPair ⟨τ.value_slice h.1, h.2⟩
  -- changing the error
  | mapErr _ hf _ ih =>
    refine ih.mapErr fun error => ?_
    rw [τ.error_encoding]
    exact hf error
  | mapKind kind _ ih => exact ih.mapKind kind
  | ignoreKind kind _ ih => exact (ih.ignoreKind kind).map fun _ _ => τ.value_ofOption
  -- trying and looking ahead
  | optional _ ih => exact ih.optional.map fun _ _ => τ.value_ofOption
  | peek _ ih => exact ih.peek
  | negate _ ih => exact ih.negate.map fun _ _ _ => rfl
  | conditional enabled _ ih => exact (ih.conditional enabled).map fun _ _ => τ.value_ofOption
  | allConsuming _ ih => exact ih.allConsuming

/-! ## §4. Runs to any depth. -/

/-- By induction on the depth; each level is the statement about trees. -/
theorem Rules.Reshaped.parser [OnwardSpecial ε κ] (h : Rules.Reshaped τ rules rules')
    (depth : Nat) (name : String) :
    Parser.Reshaped τ τ.value (rules.parser depth name) (rules'.parser depth name) := by
  induction depth generalizing name with
  | zero => exact fun _ => rfl
  | succ depth ih => exact (h name).parser (fun name => (h name).onward) ih

/-- A grammar and its translation, run with translated rules to the same depth,
do the same. -/
theorem Rules.Reshaped.run [OnwardSpecial ε κ] (h : Rules.Reshaped τ rules rules')
    (hg : Grammar.Reshaped τ rules g g') (depth : Nat) :
    Parser.Reshaped τ τ.value (rules.run depth g) (rules'.run depth g') :=
  hg.parser (fun name => (h name).onward) (h.parser depth)

end Runs

/-- **A TEXT AND ITS CODE POINTS**: a grammar on a text leaves a rest and yields
a value if and only if its translation leaves the code points of that rest and
yields the translated value, and it fails with a kind at a place if and only if
its translation fails with that kind at the code points of that place.  A run
that opens too many rules does so in both shapes. -/
theorem run_codePoints_iff {rules : Rules Char (AsciiAtom Char)} {rules' : Rules Int Empty}
    (hrules : Rules.Reshaped .codePoints rules rules') {g : Grammar Char (AsciiAtom Char)}
    {g' : Grammar Int Empty} (hg : Grammar.Reshaped .codePoints rules g g') (depth : Nat)
    (s : List Char) :
    (∀ rest v, rules.run depth g s = .ok rest v ↔
      rules'.run depth g' (Reshaping.codePoints.sequence s) =
        .ok (Reshaping.codePoints.sequence rest) (Reshaping.codePoints.value v)) ∧
    (∀ place kind, rules.run depth g s = .fail ⟨place, kind⟩ ↔
      rules'.run depth g' (Reshaping.codePoints.sequence s) =
        .fail ⟨Reshaping.codePoints.sequence place, kind⟩) ∧
    (rules.run depth g s = .unfinished ↔
      rules'.run depth g' (Reshaping.codePoints.sequence s) = .unfinished) := by
  -- whatever the reply is, the other one is that reply reshaped, and no other reply is
  have hreply : ∀ r, rules.run depth g s = r ↔
      rules'.run depth g' (Reshaping.codePoints.sequence s) =
        Reshaping.codePoints.reply Reshaping.codePoints.value r := by
    intro r
    rw [hrules.run hg depth s]
    constructor
    · rintro rfl
      rfl
    · exact Reshaping.codePoints.reply_injective Reshaping.codePoints.value_injective
  exact ⟨fun rest v => hreply (.ok rest v), fun place kind => hreply (.fail ⟨place, kind⟩),
    hreply .unfinished⟩

/-- The sample grammar over characters and over their code points. -/
theorem frameOfTwo_reshaped (two first second : Char) :
    Rules.Reshaped .codePoints (frameOfTwo two first second : Rules Char (AsciiAtom Char))
      (frameOfTwo two.toNat first.toNat second.toNat : Rules Int Empty) := by
  intro name
  refine .lengthValue (.replaceValue (.size 2) (.atom (.char two))) ?_
  refine @Grammar.Reshaped.multiple Char Int _ Empty _ _ .codePoints _ _ _ .list
    [(.atom (.char first), .atom (.char first.toNat)),
      (.atom (.char second), .atom (.char second.toNat))] ?_
  simp only [List.forall_mem_cons, List.not_mem_nil, false_implies, implies_true, and_true]
  exact ⟨.atom (.char first), .atom (.char second)⟩

/-- The frame of two characters of a text, of which the first is two bytes wide,
and the frame of their code points. -/
theorem frameOfTwo_codePoints_iff :
    (Rules.Reshaped .codePoints (frameOfTwo '2' 'é' 'y' : Rules Char (AsciiAtom Char))
        (frameOfTwo 50 233 121 : Rules Int Empty) ∧
      Grammar.Reshaped .codePoints (frameOfTwo '2' 'é' 'y' : Rules Char (AsciiAtom Char))
        (.rule "frame") (.rule "frame" : Grammar Int Empty)) ∧
    ((frameOfTwo '2' 'é' 'y' : Rules Char (AsciiAtom Char)).run 1 (.rule "frame")
        ['2', 'é', 'y', '日'] = .ok ['日'] (.list [.elem 'é', .elem 'y']) ∧
      (frameOfTwo 50 233 121 : Rules Int Empty).run 1 (.rule "frame") [50, 233, 121, 26085] =
        .ok [26085] (.list [.elem 233, .elem 121])) ∧
    (frameOfTwo '2' 'é' 'y' : Rules Char (AsciiAtom Char)).run 1 (.rule "frame")
        ['2', 'é', 'x', '日'] = .fail ⟨['x', '日'], .char⟩ ∧
      (frameOfTwo 50 233 121 : Rules Int Empty).run 1 (.rule "frame") [50, 233, 120, 26085] =
        .fail ⟨[120, 26085], .char⟩ := by
  have hrules := frameOfTwo_reshaped '2' 'é' 'y'
  have h := run_codePoints_iff hrules (.rule "frame") 1
  have hok : (frameOfTwo '2' 'é' 'y' : Rules Char (AsciiAtom Char)).run 1 (.rule "frame")
      ['2', 'é', 'y', '日'] = .ok ['日'] (.list [.elem 'é', .elem 'y']) := rfl
  have hfail : (frameOfTwo '2' 'é' 'y' : Rules Char (AsciiAtom Char)).run 1 (.rule "frame")
      ['2', 'é', 'x', '日'] = .fail ⟨['x', '日'], .char⟩ := rfl
  exact ⟨⟨hrules, .rule "frame"⟩, ⟨hok, ((h ['2', 'é', 'y', '日']).1 _ _).mp hok⟩, hfail,
    ((h ['2', 'é', 'x', '日']).2.1 _ _).mp hfail⟩

end Parsing
