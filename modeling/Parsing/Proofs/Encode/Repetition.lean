/-
  Parsing.Proofs.Encode.Repetition — REPETITIONS ON A SEQUENCE AND ON ITS ENCODING.

  A repetition tests its limit, the end of the input and progress before each
  further match.  The limit counts matches, and the end of a sequence goes to
  the end of its encoding; progress is told from widths, which differ, but of
  an onward parser it is the question whether something was used up
  (`nativeLen_le_iff`).  So the two loops take the same way out after the same
  number of steps, and one induction over the loop relates the states, the
  rests and the ways out.

  Main statements: `Encoded.repetitionFrom`, one loop on both sequences, and
  `Encoded.manyTill`.
-/
import Parsing.Proofs.Encode.Combinators

namespace Parsing

variable {ε ζ α β γ δ : Type}

open Parsing.Parser (Stop Run)

/-! ## §1. Repetitions that have ended. -/

/-- Why a repetition ended, told about the encoding. -/
def Encoding.stop (φ : Encoding ε ζ) : Stop ε → Stop ζ
  | .limit => .limit
  | .endOfInput => .endOfInput
  | .noProgress => .noProgress
  | .failed error => .failed (φ.error error)
  | .unfinished => .unfinished

/-- The kind of a loop's last failure is the same on both sides. -/
theorem Encoding.kindOr_stop (φ : Encoding ε ζ) (kind : Kind) (stop : Stop ε) :
    (φ.stop stop).kindOr kind = stop.kindOr kind := by
  cases stop <;> rfl

/-- Repetitions that have ended alike, with related states. -/
structure Parser.Run.Encoded (φ : Encoding ε ζ) (W : γ → δ → Prop) (r : Run ε γ) (r' : Run ζ δ) :
    Prop where
  state : W r.state r'.state
  matched : r'.matched = r.matched
  rest : r'.rest = φ.sequence r.rest
  stop : r'.stop = φ.stop r.stop

/-- Two corresponding loops answer alike: they reach the lower bound together, and take
their kinds from the same cause. -/
theorem Parser.Run.Encoded.answer {φ : Encoding ε ζ} {V : α → β → Prop} {W : γ → δ → Prop}
    {r : Run ε γ} {r' : Run ζ δ} (h : Run.Encoded φ W r r') (lower : Nat) {kind : Stop ε → Kind}
    {kind' : Stop ζ → Kind} (hkind : ∀ stop, kind' (φ.stop stop) = kind stop)
    {value : Run ε γ → α} {value' : Run ζ δ → β} (hvalue : V (value r) (value' r')) (s : List ε) :
    Reply.Encoded φ V (r.answer lower kind value s)
      (r'.answer lower kind' value' (φ.sequence s)) := by
  have hstop : φ.stop r.stop = .unfinished ↔ r.stop = .unfinished := by
    cases r.stop <;> simp [Encoding.stop]
  -- a loop without an answer has none on the other side
  by_cases hr : r.stop = .unfinished
  · have hr' : r'.stop = .unfinished := h.stop.trans (hstop.mpr hr)
    rw [Run.answer_of_unfinished hr, Run.answer_of_unfinished hr']
    exact .unfinished
  · have hr' : r'.stop ≠ .unfinished := by rwa [h.stop, Ne, hstop]
    rw [Run.answer_of_ne_unfinished hr, Run.answer_of_ne_unfinished hr', h.stop, hkind, h.matched,
      h.rest]
    split
    next => exact .fail ⟨s, kind r.stop⟩
    next => exact .ok r.rest hvalue

namespace Parser.Encoded

variable {φ : Encoding ε ζ} {V : α → β → Prop} {W : γ → δ → Prop} {p : Parser ε α} {q : Parser ζ β}

section Loops

variable [Element ε] [Element ζ]

/-! ## §2. The loop. -/

/-- **One loop on a sequence and on its encoding**: it takes as many steps, and
the same way out. -/
theorem repetitionFrom (hp : Encoded φ V p q) (honward : p.Onward) {step : γ → α → γ}
    {step' : δ → β → δ}
    (hstep : ∀ state state' v w, W state state' → V v w → W (step state v) (step' state' w))
    (limit matched : Nat) {state : γ} {state' : δ} (hstate : W state state') (s : List ε) :
    Run.Encoded φ W (Parser.repetitionFrom p step limit matched state s)
      (Parser.repetitionFrom q step' limit matched state' (φ.sequence s)) := by
  induction limit generalizing matched state state' s with
  | zero => exact ⟨hstate, rfl, rfl, rfl⟩
  | succ limit ih =>
    rw [Parser.repetitionFrom, Parser.repetitionFrom, φ.isEmpty_sequence]
    split
    next => exact ⟨hstate, rfl, rfl, rfl⟩
    next =>
      have h := hp s
      have hsuffix := honward s
      -- the reply and its encoding decide together whether the loop goes on
      generalize p s = r, q (φ.sequence s) = r' at h hsuffix ⊢
      cases h with
      | ok rest hv =>
        simp only [φ.nativeLen_le_iff hsuffix]
        split
        next => exact ⟨hstate, rfl, rfl, rfl⟩
        next => exact ih (matched + 1) (hstep _ _ _ _ hstate hv) rest
      | fail error => exact ⟨hstate, rfl, rfl, rfl⟩
      | unfinished => exact ⟨hstate, rfl, rfl, rfl⟩

/-- The list of a repetition, for any bounds and any rule for the kind of a failure. -/
theorem manyAs (lower upper : Nat) {kind : Stop ε → Kind} {kind' : Stop ζ → Kind}
    (hkind : ∀ stop, kind' (φ.stop stop) = kind stop) (hp : Encoded φ V p q)
    (honward : p.Onward) :
    Encoded φ (List.Forall₂ V) (Parser.manyAs lower upper kind p)
      (Parser.manyAs lower upper kind' q) := by
  intro s
  have hrun : Run.Encoded φ (List.Forall₂ V)
      (Parser.repetition p (fun done value => value :: done) upper [] s)
      (Parser.repetition q (fun done value => value :: done) upper [] (φ.sequence s)) :=
    hp.repetitionFrom honward (fun _ _ _ _ hdone hv => .cons hv hdone) upper 0 .nil s
  exact hrun.answer lower hkind (List.forall₂_reverse_iff.mpr hrun.state) s

theorem manyBounded (lower upper : Nat) (hp : Encoded φ V p q) (honward : p.Onward) :
    Encoded φ (List.Forall₂ V) (Parser.manyBounded lower upper p)
      (Parser.manyBounded lower upper q) :=
  hp.manyAs lower upper (fun _ => rfl) honward

theorem many1 (hp : Encoded φ V p q) (honward : p.Onward) :
    Encoded φ (List.Forall₂ V) (Parser.many1 p) (Parser.many1 q) :=
  hp.manyAs 1 maxCount (φ.kindOr_stop .many1) honward

/-- Only the number of values is kept, which no encoding changes. -/
theorem manyCount (lower : Nat) (hp : Encoded φ V p q) (honward : p.Onward) :
    Encoded φ Eq (Parser.manyCount lower p) (Parser.manyCount lower q) := by
  intro s
  have hrun : Run.Encoded φ (fun _ _ => True)
      (Parser.repetition p (fun _ _ => ()) maxCount () s)
      (Parser.repetition q (fun _ _ => ()) maxCount () (φ.sequence s)) :=
    hp.repetitionFrom honward (fun _ _ _ _ _ _ => trivial) maxCount 0 trivial s
  refine hrun.answer lower ?_ hrun.matched.symm s
  exact fun _ => rfl

/-- Folding keeps any relation `W` between the two states that one step keeps. -/
theorem foldAs (lower upper : Nat) (kind : Kind) (hp : Encoded φ V p q) (honward : p.Onward)
    {first : γ} {first' : δ} (hfirst : W first first') {combine : γ → α → γ}
    {combine' : δ → β → δ}
    (hcombine : ∀ state state' v w, W state state' → V v w →
      W (combine state v) (combine' state' w)) :
    Encoded φ W (Parser.foldAs lower upper kind p first combine)
      (Parser.foldAs lower upper kind q first' combine') := by
  intro s
  have hrun := hp.repetitionFrom honward hcombine upper 0 hfirst s
  refine hrun.answer lower ?_ hrun.state s
  exact fun _ => rfl

/-! ## §3. Until a marker. -/

/-- By the recursion of the loop: both sides find the marker at the same round, and what
was read so far is carried in `done`. -/
theorem manyTillFrom {marker : Parser ε γ} {marker' : Parser ζ δ} (hp : Encoded φ V p q)
    (honward : p.Onward) (hm : Encoded φ W marker marker') {done : List α} {done' : List β}
    (hdone : List.Forall₂ V done done') (s : List ε) :
    Reply.Encoded φ (PairRel (List.Forall₂ V) W) (Parser.manyTillFrom p marker done s)
      (Parser.manyTillFrom q marker' done' (φ.sequence s)) := by
  -- on the width of the input, which each turn makes less
  induction hlen : Sequence.nativeLen s using Nat.strongRecOn generalizing done done' s with
  | ind n ih =>
    subst hlen
    rw [Parser.manyTillFrom, Parser.manyTillFrom]
    have hmarker := hm s
    -- the marker comes first, and the parser only where it fails
    generalize marker s = m, marker' (φ.sequence s) = m' at hmarker ⊢
    cases hmarker with
    | ok rest hw => exact .ok rest ⟨List.forall₂_reverse_iff.mpr hdone, hw⟩
    | unfinished => exact .unfinished
    | fail error =>
      have h := hp s
      have hsuffix := honward s
      generalize p s = r, q (φ.sequence s) = r' at h hsuffix ⊢
      cases h with
      | ok rest hv =>
        -- whether a turn used something up is the same on both sides
        have hlt := φ.nativeLen_le_iff hsuffix
        rw [← Nat.not_lt, ← Nat.not_lt, not_iff_not] at hlt
        simp only [hlt]
        split
        next hless => exact ih _ hless (.cons hv hdone) rest rfl
        next => exact .fail ⟨s, .manyTill⟩
      | fail error => exact .fail error
      | unfinished => exact .unfinished

theorem manyTill {marker : Parser ε γ} {marker' : Parser ζ δ} (hp : Encoded φ V p q)
    (honward : p.Onward) (hm : Encoded φ W marker marker') :
    Encoded φ (PairRel (List.Forall₂ V) W) (Parser.manyTill p marker)
      (Parser.manyTill q marker') :=
  manyTillFrom hp honward hm .nil

end Loops

/-! ## §4. A fixed number of times. -/

theorem countFrom (hp : Encoded φ V p q) (n : Nat) {done : Array α} {done' : Array β}
    (hdone : List.Forall₂ V done.toList done'.toList) :
    Encoded φ (List.Forall₂ V) (Parser.countFrom p n done) (Parser.countFrom q n done') := by
  induction n generalizing done done' with
  | zero => exact fun s => .ok s hdone
  | succ n ih =>
    intro s
    refine (hp s).andThen fun rest v w _ hv => ih ?_ rest
    rw [Array.toList_push, Array.toList_push]
    exact List.rel_append hdone (.cons hv .nil)

theorem count (n : Nat) (hp : Encoded φ V p q) :
    Encoded φ (List.Forall₂ V) (Parser.count n p) (Parser.count n q) :=
  hp.countFrom n .nil

/-- Both buffers are written to the same slot, and the slots behind it keep what they
had. -/
theorem fill (hp : Encoded φ V p q) {slots : List α} {slots' : List β}
    (hslots : List.Forall₂ V slots slots') (s : List ε) :
    Reply.Encoded φ Eq (Parser.fill p slots s).1 (Parser.fill q slots' (φ.sequence s)).1 ∧
      List.Forall₂ V (Parser.fill p slots s).2 (Parser.fill q slots' (φ.sequence s)).2 := by
  induction hslots generalizing s with
  | nil => exact ⟨.ok s rfl, .nil⟩
  | cons hold hslots ih =>
    rw [Parser.fill, Parser.fill]
    have h := hp s
    generalize p s = r, q (φ.sequence s) = r' at h ⊢
    cases h with
    | ok rest hv => exact ⟨(ih rest).1, .cons hv (ih rest).2⟩
    | fail error => exact ⟨.fail error, .cons hold hslots⟩
    | unfinished => exact ⟨.unfinished, .cons hold hslots⟩

theorem filled (hp : Encoded φ V p q) {slots : List α} {slots' : List β}
    (hslots : List.Forall₂ V slots slots') :
    Encoded φ (List.Forall₂ V) (Parser.filled slots p) (Parser.filled slots' q) := fun s =>
  (hp.fill hslots s).1.map fun _ _ _ => (hp.fill hslots s).2

end Parser.Encoded

end Parsing
