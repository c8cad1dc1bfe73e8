/-
  Parsing.Proofs.Expression.Outcome — WHAT A PARSER LEAVES.

  An *outcome* is what a success leaves, or nothing for a failure.  It forgets
  values and errors, and so the combinators fall into a few kinds: whatever
  changes only the value has the outcome of its parser, however a list of
  parsers is put together it is nested pairs or nested alternatives, and a
  repetition depends neither on its state nor on the number of matches so far.

  A repetition stops at its limit, at the end of the input, and at a match that
  uses nothing up.  None of this shows in the outcome as long as every match
  uses something up and the limit is not below the width of the input
  (`left?_repetitionFrom_eq`): each match takes up a unit of width at least.

  Main statements: `many0_gives_of_match` and `many1_gives_of_match`, one step
  of a repetition.
-/
import Parsing.Grammar.Run
import Parsing.Proofs.Span

namespace Parsing

variable {ε α β γ : Type}

/-! ## §1. Outcomes. -/

/-- The reply has the outcome: a success that leaves `rest`, or a failure. -/
def Reply.Gives (r : Reply ε α) : Option (List ε) → Prop
  | some rest => ∃ value, r = .ok rest value
  | none => ∃ error, r = .fail error

/-- Outcomes do not see values, so mapping a value keeps them. -/
@[simp] theorem Reply.gives_map_iff (f : α → β) (r : Reply ε α) (o : Option (List ε)) :
    (r.map f).Gives o ↔ r.Gives o := by
  cases o <;> cases r <;> simp [Reply.Gives]

namespace Parser

variable {p : Parser ε α} {q : Parser ε β} {s t r : List ε} {o : Option (List ε)}

@[simp] theorem map_gives_iff (f : α → β) : (map f p s).Gives o ↔ (p s).Gives o :=
  Reply.gives_map_iff f (p s) o

/-! ## §2. Literals and classes. -/

section Leaves

variable [Element ε] {kind : Kind} {accepts : ε → Bool} {e : ε}

theorem tag_gives_of_match [DecidableEq ε] (literal rest : List ε) :
    (tag literal (literal ++ rest)).Gives (some rest) := by
  rw [tag_append]
  exact ⟨literal, rfl⟩

theorem tag_gives_of_fail [DecidableEq ε] {literal : List ε} (h : ¬ literal <+: s) :
    (tag literal s).Gives none := by
  rw [tag_apply, if_neg h]
  exact ⟨⟨s, .tag⟩, rfl⟩

theorem element_gives_of_match (h : accepts e = true) :
    (element kind accepts (e :: s)).Gives (some s) := by
  rw [element_cons, if_pos h]
  exact ⟨e, rfl⟩

theorem element_gives_of_fail (h : accepts e = false) :
    (element kind accepts (e :: s)).Gives none := by
  rw [element_cons, h, if_neg Bool.false_ne_true]
  exact ⟨⟨e :: s, kind⟩, rfl⟩

theorem element_gives_of_end (kind : Kind) (accepts : ε → Bool) :
    (element kind accepts []).Gives none := by
  rw [element_nil]
  exact ⟨⟨[], kind⟩, rfl⟩

end Leaves

/-! ## §3. One after another, one or another. -/

/-- Once the first parser matches, the outcome is the second one's where it left off. -/
theorem pair_gives_of_match (hp : (p s).Gives (some t)) (hq : (q t).Gives o) :
    (pair p q s).Gives o := by
  obtain ⟨value, hvalue⟩ := hp
  show ((p s).andThen fun rest a => (q rest).map fun b => (a, b)).Gives o
  rw [hvalue, Reply.andThen_ok, Reply.gives_map_iff]
  exact hq

/-- If the first one fails, nothing else is tried. -/
theorem pair_gives_of_fail (hp : (p s).Gives none) : (pair p q s).Gives none := by
  obtain ⟨error, herror⟩ := hp
  refine ⟨error, ?_⟩
  rw [pair, herror, Reply.andThen_fail]

theorem orElse_gives_of_match {q : Parser ε α} (hp : (p s).Gives (some r)) :
    (orElse p q s).Gives (some r) := by
  obtain ⟨value, hvalue⟩ := hp
  refine ⟨value, ?_⟩
  rw [orElse, hvalue, Reply.orElse_ok]

/-- If the first alternative fails, the outcome is the second one's at the same place. -/
theorem orElse_gives_of_fail {q : Parser ε α} (hp : (p s).Gives none) (hq : (q s).Gives o) :
    (orElse p q s).Gives o := by
  obtain ⟨error, herror⟩ := hp
  rw [orElse, herror, Reply.orElse_fail]
  exact hq

theorem firstOf_gives_of_match {ps : List (Parser ε α)} (hp : (p s).Gives (some r)) :
    (firstOf p ps s).Gives (some r) := by
  cases ps with
  | nil => exact hp
  | cons q ps => exact orElse_gives_of_match hp

/-- Running a list in turn is running its head and then its tail. -/
theorem chain_gives_iff {ps : List (Parser ε α)} :
    (chain (p :: ps) s).Gives o ↔ (pair p (chain ps) s).Gives o :=
  map_gives_iff _

end Parser

/-- However a list of parsers is put together, they run as nested pairs. -/
theorem Form.multiple_gives_iff (form : Form) {ps : List (Parser ε (Value ε))} {s : List ε}
    {o : Option (List ε)} : (form.multiple ps s).Gives o ↔ (Parser.chain ps s).Gives o := by
  cases form with
  | tuple => exact Parser.map_gives_iff _
  | array | list =>
    rw [← Parser.multiple_eq_chain]
    exact Parser.map_gives_iff _

/-- However a list of parsers is put together, they are tried as nested alternatives. -/
theorem Form.alt_gives_iff (form : Form) {p : Parser ε (Value ε)}
    {ps : List (Parser ε (Value ε))} {s : List ε} {o : Option (List ε)} :
    (form.alt (p :: ps) s).Gives o ↔ (Parser.firstOf p ps s).Gives o := by
  cases form with
  | tuple => exact Iff.rfl
  | array | list =>
    rw [← Parser.alt_cons_eq_firstOf]
    exact Iff.rfl

namespace Parser

variable {p : Parser ε α} {s t r : List ε}

/-! ## §4. Trying and looking ahead. -/

/-- An option consumes what its parser does. -/
theorem optional_gives_of_match (hp : (p s).Gives (some r)) :
    (optional p s).Gives (some r) := by
  obtain ⟨value, hvalue⟩ := hp
  refine ⟨some value, ?_⟩
  rw [optional, hvalue, Reply.map_ok, Reply.orElse_ok]

/-- It matches nothing where its parser fails. -/
theorem optional_gives_of_fail (hp : (p s).Gives none) : (optional p s).Gives (some s) := by
  obtain ⟨error, herror⟩ := hp
  refine ⟨none, ?_⟩
  rw [optional, herror, Reply.map_fail, Reply.orElse_fail]

theorem peek_gives_of_match (hp : (p s).Gives (some r)) : (peek p s).Gives (some s) := by
  obtain ⟨value, hvalue⟩ := hp
  refine ⟨value, ?_⟩
  rw [peek, hvalue, Reply.andThen_ok]

theorem peek_gives_of_fail (hp : (p s).Gives none) : (peek p s).Gives none := by
  obtain ⟨error, herror⟩ := hp
  refine ⟨error, ?_⟩
  rw [peek, herror, Reply.andThen_fail]

theorem negate_gives_of_match (hp : (p s).Gives (some r)) : (negate p s).Gives none := by
  obtain ⟨value, hvalue⟩ := hp
  refine ⟨⟨s, .negate⟩, ?_⟩
  rw [negate, hvalue]

theorem negate_gives_of_fail (hp : (p s).Gives none) : (negate p s).Gives (some s) := by
  obtain ⟨error, herror⟩ := hp
  refine ⟨(), ?_⟩
  rw [negate, herror]

/-! ## §5. Again and again. -/

/-- What a repetition has left, unless its parser gave no answer. -/
def Run.left? (run : Run ε β) : Option (List ε) :=
  match run.stop with
  | .unfinished => none
  | _ => some run.rest

/-- A loop that reached its lower bound gives the place where it stopped. -/
theorem Run.answer_gives_iff {run : Run ε β} {lower : Nat} (h : lower ≤ run.matched)
    (kind : Stop ε → Kind) (value : Run ε β → γ) (s : List ε) :
    (run.answer lower kind value s).Gives (some r) ↔ run.left? = some r := by
  have hlower : ¬ run.matched < lower := by omega
  unfold Run.answer Run.left?
  cases run.stop <;> simp [Reply.Gives, hlower]

/-- One that stopped below its lower bound fails. -/
theorem Run.answer_gives_none {run : Run ε β} {lower : Nat} (h : run.matched < lower)
    (hleft : run.left? = some r) (kind : Stop ε → Kind) (value : Run ε β → γ) (s : List ε) :
    (run.answer lower kind value s).Gives none := by
  unfold Run.left? at hleft
  unfold Run.answer
  cases hstop : run.stop with
  | unfinished =>
    rw [hstop] at hleft
    cases hleft
  | _ =>
    refine ⟨⟨s, kind run.stop⟩, ?_⟩
    simp only [hstop, if_pos h]

variable [Element ε]

/-- Where the parser fails a repetition ends, also if it does not get to try. -/
theorem repetitionFrom_of_fail (h : (p s).Gives none) (step : β → α → β) (limit matched : Nat)
    (state : β) :
    (repetitionFrom p step limit matched state s).left? = some s ∧
      (repetitionFrom p step limit matched state s).matched = matched := by
  obtain ⟨error, herror⟩ := h
  cases limit with
  | zero => exact ⟨rfl, rfl⟩
  | succ limit =>
    rw [repetitionFrom, herror]
    split
    next => exact ⟨rfl, rfl⟩
    next => exact ⟨rfl, rfl⟩

/-- **What a repetition leaves** depends neither on its limit, if that is not
below the width of the input, nor on what it has collected. -/
theorem left?_repetitionFrom_eq (p : Parser ε α) (step : β → α → β) (step' : γ → α → γ)
    {limit limit' : Nat} (matched matched' : Nat) (state : β) (state' : γ) {s : List ε}
    (h : Sequence.nativeLen s ≤ limit) (h' : Sequence.nativeLen s ≤ limit') :
    (repetitionFrom p step limit matched state s).left? =
      (repetitionFrom p step' limit' matched' state' s).left? := by
  induction limit generalizing limit' matched matched' state state' s with
  | zero =>
    have hs : s = [] := Sequence.nativeLen_eq_zero_iff.mp (by omega)
    subst hs
    cases limit' <;> rfl
  | succ limit ih =>
    cases limit' with
    | zero =>
      have hs : s = [] := Sequence.nativeLen_eq_zero_iff.mp (by omega)
      subst hs
      rfl
    | succ limit' =>
      rw [repetitionFrom, repetitionFrom]
      split
      next => rfl
      next =>
        cases p s with
        | ok rest value =>
          show Run.left? (if _ then _ else _) = Run.left? (if _ then _ else _)
          split
          next => rfl
          next hlt =>
            -- a match has taken up a unit of width, and one of either limit
            exact ih (matched + 1) (matched' + 1) (step state value) (step' state' value)
              (by omega) (by omega)
        | fail error => rfl
        | unfinished => rfl

/-- The repetition that lists the values. -/
theorem manyAs_gives_iff {lower upper : Nat} (kind : Stop ε → Kind)
    (h : lower ≤ (repetition p (fun done value => value :: done) upper [] s).matched) :
    (manyAs lower upper kind p s).Gives (some r) ↔
      (repetition p (fun done value => value :: done) upper [] s).left? = some r :=
  Run.answer_gives_iff h kind (fun run => run.state.reverse) s

/-- `many0` has no lower bound, so its outcome is where its loop stops. -/
theorem many0_gives_iff :
    (many0 p s).Gives (some r) ↔
      (repetition p (fun done value => value :: done) maxCount [] s).left? = some r :=
  manyAs_gives_iff _ (Nat.zero_le _)

/-- Where its parser fails at once, `many0` matches nothing. -/
theorem many0_gives_of_fail (hp : (p s).Gives none) : (many0 p s).Gives (some s) := by
  rw [many0_gives_iff]
  exact (repetitionFrom_of_fail hp _ maxCount 0 []).1

theorem many1_gives_of_fail (hp : (p s).Gives none) : (many1 p s).Gives none := by
  obtain ⟨hleft, hmatched⟩ :=
    repetitionFrom_of_fail hp (fun (done : List α) value => value :: done) maxCount 0 []
  have hzero : (repetition p (fun done value => value :: done) maxCount [] s).matched < 1 := by
    rw [repetition, hmatched]
    omega
  exact Run.answer_gives_none hzero hleft _ (fun run => run.state.reverse) s

section Match

variable (hp : (p s).Gives (some t)) (hlt : Sequence.nativeLen t < Sequence.nativeLen s)
  (hs : Sequence.nativeLen s ≤ maxCount) (hrest : (many0 p t).Gives (some r))

include hp hlt hs hrest

/-- A match, and what the repetition leaves of the rest. -/
theorem repetition_of_match :
    (repetition p (fun done value => value :: done) maxCount [] s).left? = some r ∧
      1 ≤ (repetition p (fun done value => value :: done) maxCount [] s).matched := by
  obtain ⟨value, hvalue⟩ := hp
  obtain ⟨limit, hlimit⟩ : ∃ limit, maxCount = limit + 1 := ⟨maxCount - 1, by omega⟩
  have hstep : repetition p (fun done value => value :: done) maxCount [] s =
      repetitionFrom p (fun done value => value :: done) limit 1 [value] t := by
    rw [repetition, hlimit, repetitionFrom_of_match hvalue hlt]
  rw [many0_gives_iff] at hrest
  rw [hstep]
  constructor
  · rw [← hrest]
    exact left?_repetitionFrom_eq p _ _ 1 0 [value] [] (by omega) (by omega)
  · exact le_matched_repetitionFrom p _ limit 1 [value] t

/-- A match that shortens the input, and then the outcome of `many0` behind it. -/
theorem many0_gives_of_match : (many0 p s).Gives (some r) := by
  rw [many0_gives_iff]
  exact (repetition_of_match hp hlt hs hrest).1

/-- The same outcome for `many1`, since it needs only this one match. -/
theorem many1_gives_of_match : (many1 p s).Gives (some r) := by
  obtain ⟨hleft, hmatched⟩ := repetition_of_match hp hlt hs hrest
  exact (manyAs_gives_iff _ hmatched).mpr hleft

end Match

end Parser

end Parsing
