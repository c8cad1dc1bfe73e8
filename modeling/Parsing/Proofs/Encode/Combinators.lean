/-
  Parsing.Proofs.Encode.Combinators — ONE PARSER ON A SEQUENCE AND ON ITS ENCODING.

  Two parsers correspond when, on every sequence and its encoding, their
  replies do.  Every combinator makes corresponding parsers of corresponding
  parsers, provided that the functions which the client supplies for the two
  agree on related values.

  Where a combinator compares widths or cuts at an offset (repetitions test for
  progress, `consumed` and `recognize` cut, `mapParser` carries errors over),
  widths mean different things in the two sequences.  There it matters that
  the parser run is onward: the places that are compared are suffixes of each
  other, and these determine their widths and are determined by them.
-/
import Parsing.Grammar.Run
import Parsing.Proofs.Encode.Basic

namespace Parsing

variable {ε ζ α β γ δ : Type} {φ : Encoding ε ζ}

/-- On an encoded input `q` replies what `p` replies on the input, with the
values related by `V`. -/
def Parser.Encoded (φ : Encoding ε ζ) (V : α → β → Prop) (p : Parser ε α) (q : Parser ζ β) : Prop :=
  ∀ s, Reply.Encoded φ V (p s) (q (φ.sequence s))

/-- Pairs of values related part by part. -/
def PairRel (V : α → β → Prop) (W : γ → δ → Prop) (v : α × γ) (w : β × δ) : Prop :=
  V v.1 w.1 ∧ W v.2 w.2

namespace Parser

variable {V : α → β → Prop} {W : γ → δ → Prop} {p : Parser ε α} {q : Parser ζ β}

/-! ## §1. Parsers that look at no element. -/

theorem encoded_success {v : α} {w : β} (h : V v w) : Encoded φ V (success v) (success w) :=
  fun s => .ok s h

theorem encoded_fail (kind : Kind) : Encoded φ V (fail kind) (fail kind) :=
  fun s => .fail ⟨s, kind⟩

/-- All that is left is all that is left of the encoding. -/
theorem encoded_rest [Element ε] [Element ζ] :
    Encoded φ (fun v w => w = φ.sequence v) rest rest := by
  intro s
  rw [rest_apply, rest_apply]
  exact .ok [] rfl

/-- An input and its encoding end together. -/
theorem encoded_eof : Encoded φ (fun v w => w = φ.sequence v) eof eof := by
  intro s
  rw [eof, eof, φ.isEmpty_sequence]
  split
  next => exact .ok s rfl
  next => exact .fail ⟨s, .eof⟩

namespace Encoded

/-! ## §2. Changing values and errors, trying and looking ahead. -/

theorem mono {V' : α → β → Prop} (hp : Encoded φ V p q) (hV : ∀ v w, V v w → V' v w) :
    Encoded φ V' p q := fun s => (hp s).mono hV

/-- Changes of values that commute with the encoding. -/
theorem map {f : α → γ} {f' : β → δ} (hp : Encoded φ V p q) (hf : ∀ v w, V v w → W (f v) (f' w)) :
    Encoded φ W (Parser.map f p) (Parser.map f' q) := fun s => (hp s).map hf

/-- Conversions that have results together, which then agree. -/
theorem mapRes {f : α → Option γ} {f' : β → Option δ} (hp : Encoded φ V p q)
    (hf : ∀ v w, V v w → Option.Rel W (f v) (f' w)) :
    Encoded φ W (Parser.mapRes f p) (Parser.mapRes f' q) := fun s =>
  (hp s).andThen fun rest v w _ hv => .convert (hf v w hv) fun _ _ hresult => .ok rest hresult

/-- Values that agree make parsers that agree. -/
theorem flatMap {next : α → Parser ε γ} {next' : β → Parser ζ δ} (hp : Encoded φ V p q)
    (hnext : ∀ v w, V v w → Encoded φ W (next v) (next' w)) :
    Encoded φ W (Parser.flatMap p next) (Parser.flatMap q next') := fun s =>
  (hp s).andThen fun rest v w _ hv => hnext v w hv rest

/-- Values that agree are both accepted or both refused. -/
theorem verify {check : α → Bool} {check' : β → Bool} (hp : Encoded φ V p q)
    (hcheck : ∀ v w, V v w → check' w = check v) :
    Encoded φ V (Parser.verify check p) (Parser.verify check' q) := by
  intro s
  refine (hp s).andThen fun rest v w _ hv => ?_
  rw [hcheck v w hv]
  split
  next => exact .ok rest hv
  next => exact .fail ⟨s, .verify⟩

/-- Changes of errors that commute with the encoding. -/
theorem mapErr {f : ParseError ε → ParseError ε} {f' : ParseError ζ → ParseError ζ}
    (hp : Encoded φ V p q) (hf : ∀ error, f' (φ.error error) = φ.error (f error)) :
    Encoded φ V (Parser.mapErr f p) (Parser.mapErr f' q) := fun s =>
  (hp s).mapError fun error _ => hf error

/-- A kind does not depend on how the input is written. -/
theorem mapKind (kind : Kind) (hp : Encoded φ V p q) :
    Encoded φ V (Parser.mapKind kind p) (Parser.mapKind kind q) :=
  hp.mapErr fun _ => rfl

/-- Of failures of the same kind both are ignored or neither is. -/
theorem ignoreKind (kind : Kind) (hp : Encoded φ V p q) :
    Encoded φ (Option.Rel V) (Parser.ignoreKind kind p) (Parser.ignoreKind kind q) := by
  intro s
  refine ((hp s).map fun _ _ => Option.Rel.some).orElse fun error _ => ?_
  show Reply.Encoded φ _ (if error.kind = kind then _ else _) (if error.kind = kind then _ else _)
  split
  next => exact .ok s .none
  next => exact .fail error

/-- A failure is an absent value on both sides. -/
theorem optional (hp : Encoded φ V p q) :
    Encoded φ (Option.Rel V) (Parser.optional p) (Parser.optional q) := fun s =>
  ((hp s).map fun _ _ => Option.Rel.some).orElse fun _ _ => .ok s .none

/-- Either run goes back to where it began. -/
theorem peek (hp : Encoded φ V p q) : Encoded φ V (Parser.peek p) (Parser.peek q) := fun s =>
  (hp s).andThen fun _ _ _ _ hv => .ok s hv

/-- A success of the one is a success of the other, and the values are dropped. -/
theorem negate (hp : Encoded φ V p q) :
    Encoded φ (fun _ _ => True) (Parser.negate p) (Parser.negate q) := by
  intro s
  have h := hp s
  rw [Parser.negate, Parser.negate]
  generalize p s = r, q (φ.sequence s) = r' at h ⊢
  cases h with
  | ok rest hv => exact .fail ⟨s, .negate⟩
  | fail error => exact .ok s trivial
  | unfinished => exact .unfinished

theorem conditional (enabled : Bool) (hp : Encoded φ V p q) :
    Encoded φ (Option.Rel V) (Parser.conditional enabled p) (Parser.conditional enabled q) := by
  cases enabled with
  | true => exact hp.map fun _ _ => Option.Rel.some
  | false => exact encoded_success Option.Rel.none

/-- Nothing is left of the encoding exactly if nothing is left of the input. -/
theorem allConsuming (hp : Encoded φ V p q) :
    Encoded φ V (Parser.allConsuming p) (Parser.allConsuming q) := by
  intro s
  refine (hp s).andThen fun rest v w _ hv => ?_
  rw [φ.isEmpty_sequence]
  split
  next => exact .ok rest hv
  next => exact .fail ⟨rest, .eof⟩

section Cutting

variable [Element ε] [Element ζ]

/-- The slice used up is encoded by the slice of the encoding, as the run leaves a
suffix. -/
theorem consumed (hp : Encoded φ V p q) (honward : p.Onward) :
    Encoded φ (PairRel (fun s t => t = φ.sequence s) V) (Parser.consumed p)
      (Parser.consumed q) := by
  intro s
  refine (hp s).andThen fun rest v w h hv => ?_
  rw [φ.consumed_sequence (honward.rest_suffix h)]
  exact .ok rest ⟨rfl, hv⟩

theorem recognize (hp : Encoded φ V p q) (honward : p.Onward) :
    Encoded φ (fun s t => t = φ.sequence s) (Parser.recognize p) (Parser.recognize q) := by
  intro s
  refine (hp s).andThen fun rest v w h _ => ?_
  rw [φ.consumed_sequence (honward.rest_suffix h)]
  exact .ok rest rfl

/-- The slice has to start where the input starts: errors are told by how far
into the slice they are. -/
theorem mapParser {outer : Parser ε (List ε)} {outer' : Parser ζ (List ζ)}
    (houter : Encoded φ (fun s t => t = φ.sequence s) outer outer')
    (hslice : ∀ s rest slice, outer s = .ok rest slice → slice <+: s) (hp : Encoded φ V p q)
    (honward : p.Onward) :
    Encoded φ V (Parser.mapParser outer p) (Parser.mapParser outer' q) := by
  intro s
  refine (houter s).andThen fun rest slice slice' h hv => ?_
  subst hv
  exact (hp slice).mapError_rebase (hslice s rest slice h) (honward slice)

end Cutting

/-! ## §3. One after another, one or another. -/

/-- The second parsers are run on what is left of the input and of its encoding. -/
theorem pair {p' : Parser ε γ} {q' : Parser ζ δ} (hp : Encoded φ V p q) (hp' : Encoded φ W p' q') :
    Encoded φ (PairRel V W) (Parser.pair p p') (Parser.pair q q') := fun s =>
  (hp s).andThen fun rest _ _ _ hv =>
    (hp' rest).andThen fun rest' _ _ _ hw => .ok rest' ⟨hv, hw⟩

theorem preceded {p' : Parser ε γ} {q' : Parser ζ δ} (hp : Encoded φ V p q)
    (hp' : Encoded φ W p' q') : Encoded φ W (Parser.preceded p p') (Parser.preceded q q') :=
  (hp.pair hp').map fun _ _ h => h.2

theorem terminated {p' : Parser ε γ} {q' : Parser ζ δ} (hp : Encoded φ V p q)
    (hp' : Encoded φ W p' q') : Encoded φ V (Parser.terminated p p') (Parser.terminated q q') :=
  (hp.pair hp').map fun _ _ h => h.1

section Three

variable {α₂ α₃ β₂ β₃ : Type} {V₂ : α₂ → β₂ → Prop} {V₃ : α₃ → β₃ → Prop} {p₂ : Parser ε α₂}
  {p₃ : Parser ε α₃} {q₂ : Parser ζ β₂} {q₃ : Parser ζ β₃}

/-- Of three values that agree the ones in the middle are kept. -/
theorem delimited (hp : Encoded φ V p q) (hp₂ : Encoded φ V₂ p₂ q₂) (hp₃ : Encoded φ V₃ p₃ q₃) :
    Encoded φ V₂ (Parser.delimited p p₂ p₃) (Parser.delimited q q₂ q₃) :=
  (hp.pair (hp₂.pair hp₃)).map fun _ _ h => h.2.1

theorem separatedPair (hp : Encoded φ V p q) (hp₂ : Encoded φ V₂ p₂ q₂)
    (hp₃ : Encoded φ V₃ p₃ q₃) :
    Encoded φ (PairRel V V₃) (Parser.separatedPair p p₂ p₃) (Parser.separatedPair q q₂ q₃) :=
  (hp.pair (hp₂.pair hp₃)).map fun _ _ h => ⟨h.1, h.2.2⟩

end Three

/-! Lists of parsers of both sorts are given as one list of pairs. -/

/-- By induction on the list of pairs of parsers. -/
theorem chain {ps : List (Parser ε α × Parser ζ β)} (hps : ∀ x ∈ ps, Encoded φ V x.1 x.2) :
    Encoded φ (List.Forall₂ V) (Parser.chain (ps.map Prod.fst))
      (Parser.chain (ps.map Prod.snd)) := by
  induction ps with
  | nil => exact encoded_success .nil
  | cons x ps ih =>
    have hx := hps x List.mem_cons_self
    have hrest := ih fun y hy => hps y (List.mem_cons_of_mem _ hy)
    exact (hx.pair hrest).map fun _ _ h => .cons h.1 h.2

theorem multiple {ps : List (Parser ε α × Parser ζ β)} (hps : ∀ x ∈ ps, Encoded φ V x.1 x.2) :
    Encoded φ (List.Forall₂ V) (Parser.multiple (ps.map Prod.fst))
      (Parser.multiple (ps.map Prod.snd)) := by
  intro s
  rw [multiple_eq_chain, multiple_eq_chain]
  exact chain hps s

/-- The second alternatives are run on the same input and its encoding as the first
ones. -/
theorem orElse {p' : Parser ε α} {q' : Parser ζ β} (hp : Encoded φ V p q)
    (hp' : Encoded φ V p' q') : Encoded φ V (Parser.orElse p p') (Parser.orElse q q') := fun s =>
  (hp s).orElse fun _ _ => hp' s

theorem firstOf (hp : Encoded φ V p q) {ps : List (Parser ε α × Parser ζ β)}
    (hps : ∀ x ∈ ps, Encoded φ V x.1 x.2) :
    Encoded φ V (Parser.firstOf p (ps.map Prod.fst)) (Parser.firstOf q (ps.map Prod.snd)) := by
  induction ps generalizing p q with
  | nil => exact hp
  | cons x ps ih =>
    exact hp.orElse
      (ih (hps x List.mem_cons_self) fun y hy => hps y (List.mem_cons_of_mem _ hy))

/-- An empty list fails on both sides in front of the input. -/
theorem alt {ps : List (Parser ε α × Parser ζ β)} (hps : ∀ x ∈ ps, Encoded φ V x.1 x.2) :
    Encoded φ V (Parser.alt (ps.map Prod.fst)) (Parser.alt (ps.map Prod.snd)) := by
  cases ps with
  | nil => exact fun s => .fail ⟨s, .alt⟩
  | cons x ps =>
    intro s
    rw [List.map_cons, List.map_cons, alt_cons_eq_firstOf, alt_cons_eq_firstOf]
    exact firstOf (hps x List.mem_cons_self) (fun y hy => hps y (List.mem_cons_of_mem _ hy)) s

end Encoded

end Parser

/-! ## §4. Lists of parsers in a form. -/

section Forms

variable {V : Value ε → Value ζ → Prop}

/-- A tuple of values that agree has to agree as a value, and so has a list of them. -/
theorem Form.encoded_multiple (form : Form)
    (htuple : ∀ vs ws, List.Forall₂ V vs ws → V (.tuple vs) (.tuple ws))
    (hlist : ∀ vs ws, List.Forall₂ V vs ws → V (.list vs) (.list ws))
    {ps : List (Parser ε (Value ε) × Parser ζ (Value ζ))}
    (hps : ∀ x ∈ ps, Parser.Encoded φ V x.1 x.2) :
    Parser.Encoded φ V (form.multiple (ps.map Prod.fst)) (form.multiple (ps.map Prod.snd)) := by
  cases form with
  | tuple => exact (Parser.Encoded.chain hps).map htuple
  | array => exact (Parser.Encoded.multiple hps).map hlist
  | list => exact (Parser.Encoded.multiple hps).map hlist

theorem Form.encoded_alt (form : Form) {ps : List (Parser ε (Value ε) × Parser ζ (Value ζ))}
    (hps : ∀ x ∈ ps, Parser.Encoded φ V x.1 x.2) :
    Parser.Encoded φ V (form.alt (ps.map Prod.fst)) (form.alt (ps.map Prod.snd)) := by
  cases form with
  | tuple =>
    cases ps with
    | nil => exact Parser.Encoded.alt hps
    | cons x ps =>
      exact Parser.Encoded.firstOf (hps x List.mem_cons_self)
        fun y hy => hps y (List.mem_cons_of_mem _ hy)
  | array => exact Parser.Encoded.alt hps
  | list => exact Parser.Encoded.alt hps

end Forms

section Trees

variable {κ κ' : Type} [Element ε] [DecidableEq ε] [Special ε κ] [Element ζ] [DecidableEq ζ]
  [Special ζ κ']

/-- The parsers of a list of trees, one for each tree. -/
theorem Grammar.parsers_eq_map (rules : String → Parser ε (Value ε)) (gs : List (Grammar ε κ)) :
    parsers rules gs = gs.map (parser rules) := by
  induction gs with
  | nil => rfl
  | cons g gs ih => rw [parsers, ih, List.map_cons]

/-- The parsers of the trees of a list of pairs, as a list of pairs. -/
theorem Grammar.exists_parsers {rules : String → Parser ε (Value ε)}
    {rules' : String → Parser ζ (Value ζ)} {R : Parser ε (Value ε) → Parser ζ (Value ζ) → Prop}
    {ps : List (Grammar ε κ × Grammar ζ κ')}
    (hps : ∀ x ∈ ps, R (x.1.parser rules) (x.2.parser rules')) :
    ∃ qs : List (Parser ε (Value ε) × Parser ζ (Value ζ)),
      parsers rules (ps.map Prod.fst) = qs.map Prod.fst ∧
        parsers rules' (ps.map Prod.snd) = qs.map Prod.snd ∧ ∀ y ∈ qs, R y.1 y.2 := by
  refine ⟨ps.map fun x => (x.1.parser rules, x.2.parser rules'), ?_, ?_, ?_⟩
  · rw [parsers_eq_map, List.map_map, List.map_map]
    rfl
  · rw [parsers_eq_map, List.map_map, List.map_map]
    rfl
  · intro y hy
    obtain ⟨x, hx, rfl⟩ := List.mem_map.mp hy
    exact hps x hx

end Trees

end Parsing
