/-
  Parsing.Parser.Repetition — ONE PARSER AGAIN AND AGAIN.

  `repetition` runs a parser on what its last run left, and hands each value
  to a step function.  It stops, in this order of the tests,

    • when it has matched as often as it may,
    • at the end of the input,
    • when the parser fails,
    • when the parser succeeds but leaves as much as it was given, or more;
      the value of such a match is dropped.

  The last rule makes every repetition end, whatever the parser does.  The
  parsers `many…` and `foldMany…` are this one loop with a step function, a
  bound below which they fail, and the kind they fail with.  `count` and
  `fill` run a parser a fixed number of times and test nothing; `manyTill`
  runs it until another parser matches.

  Main statements: `repetitionFrom_of_match`, one turn of the loop;
  `repetitionFrom_invariant`, what every match preserves, the loop preserves;
  `length_fill`, a buffer keeps its size.
-/
import Parsing.Parser.Basic

namespace Parsing.Parser

variable {ε α β γ : Type}

/-! ## §1. The loop. -/

/-- The bound of a repetition that names none. -/
def maxCount : Nat := Nat.pow 2 64 - 1

/-- Why a repetition ended. -/
inductive Stop (ε : Type) where
  /-- It had matched as often as it may. -/
  | limit
  | endOfInput
  /-- A match used nothing up. -/
  | noProgress
  | failed (error : ParseError ε)
  /-- The parser gave no answer. -/
  | unfinished

/-- The kind of the failure that ended a repetition, or a given kind. -/
def Stop.kindOr (kind : Kind) : Stop ε → Kind
  | failed error => error.kind
  | _ => kind

/-- A repetition that has ended. -/
structure Run (ε β : Type) where
  /-- What the step function has made of the values. -/
  state : β
  /-- How many matches were handed to the step function. -/
  matched : Nat
  rest : List ε
  stop : Stop ε

/-- What a repetition comes to, run on `s`: a failure there below `lower`
matches, and else a value and what is left. -/
def Run.answer (lower : Nat) (kind : Stop ε → Kind) (value : Run ε β → γ) (s : List ε)
    (run : Run ε β) : Reply ε γ :=
  match run.stop with
  | .unfinished => .unfinished
  | stop => if run.matched < lower then .fail ⟨s, kind stop⟩ else .ok run.rest (value run)

/-- A repetition that was cut off has no answer, however often it has matched. -/
theorem Run.answer_of_unfinished {run : Run ε β} (h : run.stop = .unfinished) (lower : Nat)
    (kind : Stop ε → Kind) (value : Run ε β → γ) (s : List ε) :
    run.answer lower kind value s = .unfinished := by
  rw [Run.answer, h]

/-- After any other way out, the number of matches decides. -/
theorem Run.answer_of_ne_unfinished {run : Run ε β} (h : run.stop ≠ .unfinished) (lower : Nat)
    (kind : Stop ε → Kind) (value : Run ε β → γ) (s : List ε) :
    run.answer lower kind value s =
      if run.matched < lower then .fail ⟨s, kind run.stop⟩ else .ok run.rest (value run) := by
  rw [Run.answer]
  cases hstop : run.stop with
  | unfinished => exact absurd hstop h
  | _ => rfl

variable [Element ε]

/-- Repeats `p` at most `limit` more times, having matched `matched` times. -/
def repetitionFrom (p : Parser ε α) (step : β → α → β) :
    (limit matched : Nat) → (state : β) → List ε → Run ε β
  | 0, matched, state, s => ⟨state, matched, s, .limit⟩
  | limit + 1, matched, state, s =>
      if s.isEmpty then ⟨state, matched, s, .endOfInput⟩
      else
        match p s with
        | .ok rest value =>
            if Sequence.nativeLen s ≤ Sequence.nativeLen rest then
              ⟨state, matched, s, .noProgress⟩
            else repetitionFrom p step limit (matched + 1) (step state value) rest
        | .fail error => ⟨state, matched, s, .failed error⟩
        | .unfinished => ⟨state, matched, s, .unfinished⟩

/-- Repeats `p` at most `limit` times. -/
def repetition (p : Parser ε α) (step : β → α → β) (limit : Nat) (state : β) (s : List ε) :
    Run ε β :=
  repetitionFrom p step limit 0 state s

/-- A match that uses something up is handed to the step function, and the loop
goes on with what it leaves. -/
theorem repetitionFrom_of_match {p : Parser ε α} {step : β → α → β} {limit matched : Nat}
    {state : β} {s t : List ε} {value : α} (h : p s = .ok t value)
    (hlt : Sequence.nativeLen t < Sequence.nativeLen s) :
    repetitionFrom p step (limit + 1) matched state s =
      repetitionFrom p step limit (matched + 1) (step state value) t := by
  have hs : s.isEmpty = false := by
    cases s with
    | nil => exact absurd hlt (Nat.not_lt_zero _)
    | cons e s => rfl
  have hle : ¬ Sequence.nativeLen s ≤ Sequence.nativeLen t := by omega
  rw [repetitionFrom, hs, h]
  simp only [Bool.false_eq_true, if_false, if_neg hle]

/-! ## §2. Lists, counts and folds of values. -/

/-- Repeats `p` and lists the values. -/
def manyAs (lower upper : Nat) (kind : Stop ε → Kind) (p : Parser ε α) : Parser ε (List α) :=
  fun s =>
    (repetition p (fun done value => value :: done) upper [] s).answer lower kind
      (fun run => run.state.reverse) s

/-- Between `lower` and `upper` values of `p`. -/
def manyBounded (lower upper : Nat) (p : Parser ε α) : Parser ε (List α) :=
  manyAs lower upper (fun _ => .manyBounded) p

/-- Any number of values of `p`. -/
def many0 (p : Parser ε α) : Parser ε (List α) := manyBounded 0 maxCount p

/-- At least one value of `p`; a failure has the kind of the failure of `p`, if
that is what ended the repetition. -/
def many1 (p : Parser ε α) : Parser ε (List α) := manyAs 1 maxCount (Stop.kindOr .many1) p

/-- Repeats `p` and counts the matches. -/
def manyCount (lower : Nat) (p : Parser ε α) : Parser ε Nat := fun s =>
  (repetition p (fun _ _ => ()) maxCount () s).answer lower (fun _ => .many1Count) Run.matched s

/-- How often `p` matches. -/
def many0Count (p : Parser ε α) : Parser ε Nat := manyCount 0 p

/-- How often `p` matches, at least once. -/
def many1Count (p : Parser ε α) : Parser ε Nat := manyCount 1 p

/-- Repeats `p` and combines the values, from left to right. -/
def foldAs (lower upper : Nat) (kind : Kind) (p : Parser ε α) (first : β) (combine : β → α → β) :
    Parser ε β := fun s =>
  (repetition p combine upper first s).answer lower (fun _ => kind) Run.state s

/-- Combines any number of values of `p`. -/
def foldMany0 (p : Parser ε α) (first : β) (combine : β → α → β) : Parser ε β :=
  foldAs 0 maxCount .many1 p first combine

/-- Combines at least one value of `p`. -/
def foldMany1 (p : Parser ε α) (first : β) (combine : β → α → β) : Parser ε β :=
  foldAs 1 maxCount .many1 p first combine

/-- Combines between `lower` and `upper` values of `p`. -/
def foldManyBounded (lower upper : Nat) (p : Parser ε α) (first : β) (combine : β → α → β) :
    Parser ε β :=
  foldAs lower upper .foldManyBounded p first combine

/-! ## §3. Until a marker. -/

/-- Repeats `p` until `marker` matches, having yielded `done`, the last value first. -/
def manyTillFrom (p : Parser ε α) (marker : Parser ε β) (done : List α) (s : List ε) :
    Reply ε (List α × β) :=
  match marker s with
  | .ok rest mark => .ok rest (done.reverse, mark)
  | .unfinished => .unfinished
  | .fail _ =>
      match p s with
      | .ok rest value =>
          if Sequence.nativeLen rest < Sequence.nativeLen s then
            manyTillFrom p marker (value :: done) rest
          else .fail ⟨s, .manyTill⟩
      | .fail error => .fail error
      | .unfinished => .unfinished
termination_by Sequence.nativeLen s

/-- Repeats `p` until `marker` matches.  A failure of `p` is a failure of the
whole, and so is a match of `p` that uses nothing up. -/
def manyTill (p : Parser ε α) (marker : Parser ε β) : Parser ε (List α × β) :=
  manyTillFrom p marker []

omit [Element ε]

/-! ## §4. A fixed number of times. -/

/-- For how many values a counted repetition sets room aside beforehand, at most. -/
def reserveLimit : Nat := 4096

/-- Runs `p` so many more times, having yielded `done`. -/
def countFrom (p : Parser ε α) : (n : Nat) → (done : Array α) → Parser ε (List α)
  | 0, done => fun s => .ok s done.toList
  | n + 1, done => fun s => (p s).andThen fun rest value => countFrom p n (done.push value) rest

/-- Runs `p` exactly `n` times. -/
def count (n : Nat) (p : Parser ε α) : Parser ε (List α) :=
  countFrom p n (Array.emptyWithCapacity (min n reserveLimit))

/-- Runs `p` once for each slot of a buffer and puts its value there.  Slots
that are not reached before a failure keep what they held. -/
def fill (p : Parser ε α) : (slots : List α) → List ε → Reply ε Unit × List α
  | [], s => (.ok s (), [])
  | old :: slots, s =>
      match p s with
      | .ok rest value =>
          let later := fill p slots rest
          (later.1, value :: later.2)
      | .fail error => (.fail error, old :: slots)
      | .unfinished => (.unfinished, old :: slots)

/-- Fills a fresh buffer, and yields it. -/
def filled (slots : List α) (p : Parser ε α) : Parser ε (List α) := fun s =>
  let result := fill p slots s
  result.1.map fun _ => result.2

/-- Fills one buffer from several inputs, one after another: the reply to each
input, and the buffer after it. -/
def fillEach (p : Parser ε α) (slots : List α) : List (List ε) → List (Reply ε Unit × List α)
  | [] => []
  | s :: inputs =>
      let result := fill p slots s
      result :: fillEach p result.2 inputs

/-- A buffer is as long after a run as before it, even after a failure. -/
theorem length_fill (p : Parser ε α) (slots : List α) (s : List ε) :
    (fill p slots s).2.length = slots.length := by
  induction slots generalizing s with
  | nil => rfl
  | cons old slots ih =>
    simp only [fill]
    cases p s with
    | ok rest value => simp [ih]
    | fail error => rfl
    | unfinished => rfl

/-! ## §5. What a repetition preserves. -/

variable [Element ε]

/-- **What every match preserves, a repetition preserves.**  The invariant is about
the number of matches so far and what is left. -/
theorem repetitionFrom_invariant {p : Parser ε α} {inv : Nat → List ε → Prop}
    (hmatch : ∀ matched s rest value, p s = .ok rest value →
      Sequence.nativeLen rest < Sequence.nativeLen s → inv matched s → inv (matched + 1) rest)
    (step : β → α → β) (limit matched : Nat) (state : β) (s : List ε) (h : inv matched s) :
    inv (repetitionFrom p step limit matched state s).matched
      (repetitionFrom p step limit matched state s).rest := by
  induction limit generalizing matched state s with
  | zero => exact h
  | succ limit ih =>
    rw [repetitionFrom]
    split
    next => exact h
    next =>
      -- only a match that uses something up changes the count and the rest
      cases hp : p s with
      | ok rest value =>
        dsimp only
        by_cases hle : Sequence.nativeLen s ≤ Sequence.nativeLen rest
        · rw [if_pos hle]
          exact h
        · rw [if_neg hle]
          have hlt : Sequence.nativeLen rest < Sequence.nativeLen s := by omega
          exact ih (matched + 1) (step state value) rest (hmatch matched s rest value hp hlt h)
      | fail error => exact h
      | unfinished => exact h

/-- The matches with which the loop was entered are not forgotten. -/
theorem le_matched_repetitionFrom (p : Parser ε α) (step : β → α → β) (limit matched : Nat)
    (state : β) (s : List ε) :
    matched ≤ (repetitionFrom p step limit matched state s).matched := by
  apply @repetitionFrom_invariant ε α β _ p (fun n _ => matched ≤ n)
  · intro n s rest value _ _ h
    omega
  · exact Nat.le_refl _

end Parsing.Parser
