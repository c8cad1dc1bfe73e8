/-
  Parsing.Proofs.Progress.Basic — A REPETITION FOLLOWS A CHAIN OF MATCHES.

  A parser *advances* from `s` to `r` by a chain of matches when each of them
  starts where the one before it ended and uses something up.  Nothing else is
  asked of the parser: what a match leaves need be no suffix of its input.
  Since widths fall along a chain, a chain cannot be longer than its input is
  wide, and so it can be followed to a place where it must end.

  Of the chains from a given input only one is *maximal* for a given limit,
  and that one is what a repetition follows: it hands the values of the chain
  to its step function, in order, and stops at the end of the chain, for a
  reason that is read off that place.

  How often a repetition runs its parser is not part of its result.  It is
  counted by running the same loop with a parser that also writes a log.

  Main statements:
    * `exists_maximal`, `Maximal.functional` — there is one maximal chain;
    * `repetition_of_maximal` — a repetition follows it;
    * `run_repetitionIn_logged`, `length_applications_le` — how often the
      parser is run;
    * `repetition_follows_the_maximal_chain`, which puts these together.
-/
import Parsing.Parser.Repetition
import Parsing.Proofs.Boundary

namespace Parsing.Parser

variable {ε α β γ : Type} [Element ε]

open Sequence (nativeLen)

/-! ## §1. Chains of matches. -/

/-- From `s` to `r` by a chain of matches of `p`, each of which uses something
up.  A step of the chain is the place of a match and its value. -/
inductive Advances (p : Parser ε α) : (s : List ε) → List (List ε × α) → (r : List ε) → Prop where
  | here (s : List ε) : Advances p s [] s
  | step {s rest r : List ε} {value : α} {steps : List (List ε × α)}
      (hmatch : p s = .ok rest value) (hless : nativeLen rest < nativeLen s)
      (hrest : Advances p rest steps r) : Advances p s ((s, value) :: steps) r

/-- No match of `p` on `r` uses anything up. -/
def Stuck (p : Parser ε α) (r : List ε) : Prop :=
  ∀ rest value, p r = .ok rest value → nativeLen r ≤ nativeLen rest

variable {p : Parser ε α} {s r : List ε} {steps : List (List ε × α)} {limit : Nat}

/-- A match uses something up, or none does. -/
theorem match_or_stuck (p : Parser ε α) (s : List ε) :
    (∃ rest value, p s = .ok rest value ∧ nativeLen rest < nativeLen s) ∨ Stuck p s := by
  by_cases h : ∃ rest value, p s = .ok rest value ∧ nativeLen rest < nativeLen s
  · exact .inl h
  · exact .inr fun rest value hok => Nat.le_of_not_lt fun hless => h ⟨rest, value, hok, hless⟩

/-- At the end of the input every parser is stuck, since no rest is less wide. -/
theorem stuck_nil (p : Parser ε α) : Stuck p [] := fun rest _ _ => Nat.zero_le (nativeLen rest)

theorem stuck_of_fail {error : ParseError ε} (h : p r = .fail error) : Stuck p r := by
  intro rest value hok
  rw [h] at hok
  cases hok

theorem stuck_of_unfinished (h : p r = .unfinished) : Stuck p r := by
  intro rest value hok
  rw [h] at hok
  cases hok

/-- A parser is stuck where its match uses nothing up. -/
theorem stuck_of_match {rest : List ε} {value : α} (h : p r = .ok rest value)
    (hle : nativeLen r ≤ nativeLen rest) : Stuck p r := by
  intro rest' value' hok
  rw [h] at hok
  cases hok
  exact hle

/-- To be stuck is to fail, to match without using anything up, or to give no answer. -/
theorem stuck_iff : Stuck p r ↔
    (∃ error, p r = .fail error) ∨
    (∃ rest value, p r = .ok rest value ∧ nativeLen r ≤ nativeLen rest) ∨
    p r = .unfinished := by
  constructor
  · intro h
    cases hp : p r with
    | ok rest value => exact .inr (.inl ⟨rest, value, rfl, h rest value hp⟩)
    | fail error => exact .inl ⟨error, rfl⟩
    | unfinished => exact .inr (.inr rfl)
  · rintro (⟨error, h⟩ | ⟨rest, value, h, hle⟩ | h)
    · exact stuck_of_fail h
    · exact stuck_of_match h hle
    · exact stuck_of_unfinished h

namespace Advances

/-- There is something left wherever a match uses something up. -/
theorem place_ne_nil (h : Advances p s steps r) : ∀ x ∈ steps, x.1 ≠ [] := by
  induction h with
  | here s => simp
  | @step s rest r value steps hmatch hless hrest ih =>
    intro x hx
    rcases List.mem_cons.mp hx with rfl | hx
    · exact Sequence.ne_nil_of_nativeLen_lt hless
    · exact ih x hx

/-- Each match takes at least one unit off the width. -/
theorem length_add_nativeLen_le (h : Advances p s steps r) :
    steps.length + nativeLen r ≤ nativeLen s := by
  induction h with
  | here s => simp
  | step hmatch hless hrest ih =>
    simp only [List.length_cons]
    omega

end Advances

/-! ## §2. The maximal chain. -/

/-- Where a repetition that has matched so often has to end: it may match no
more, or there is nothing left, or the parser fails, or its match uses nothing
up, or it gives no answer. -/
def Final (p : Parser ε α) (limit matched : Nat) (r : List ε) : Prop :=
  matched = limit ∨ r = [] ∨ (∃ error, p r = .fail error) ∨
    (∃ rest value, p r = .ok rest value ∧ nativeLen r ≤ nativeLen rest) ∨ p r = .unfinished

/-- The end of the input needs no case of its own, since the parser is stuck there. -/
theorem final_iff {matched : Nat} : Final p limit matched r ↔ matched = limit ∨ Stuck p r := by
  rw [Final, ← stuck_iff]
  constructor
  · rintro (h | rfl | h)
    · exact .inl h
    · exact .inr (stuck_nil p)
    · exact .inr h
  · rintro (h | h)
    · exact .inl h
    · exact .inr (.inr h)

/-- A chain of at most `limit` matches that cannot be made longer. -/
structure Maximal (p : Parser ε α) (limit : Nat) (s : List ε) (steps : List (List ε × α))
    (r : List ε) : Prop where
  advances : Advances p s steps r
  within : steps.length ≤ limit
  final : Final p limit steps.length r

/-- The chain without matches, where a repetition has to end at once. -/
theorem Maximal.here (h : Final p limit 0 s) : Maximal p limit s [] s :=
  ⟨.here s, Nat.zero_le limit, h⟩

/-- One match more in front of a chain, and one more allowed. -/
theorem Maximal.step {rest : List ε} {value : α} (hmatch : p s = .ok rest value)
    (hless : nativeLen rest < nativeLen s) (h : Maximal p limit rest steps r) :
    Maximal p (limit + 1) s ((s, value) :: steps) r := by
  refine ⟨.step hmatch hless h.advances, Nat.succ_le_succ h.within, ?_⟩
  rcases final_iff.mp h.final with hlen | hstuck
  · exact .inl (congrArg Nat.succ hlen)
  · exact final_iff.mpr (.inr hstuck)

/-- There always is a maximal chain. By induction on how many matches are allowed. -/
theorem exists_maximal (p : Parser ε α) (limit : Nat) (s : List ε) :
    ∃ steps r, Maximal p limit s steps r := by
  induction limit generalizing s with
  | zero => exact ⟨[], s, .here (.inl rfl)⟩
  | succ limit ih =>
    rcases match_or_stuck p s with ⟨rest, value, hmatch, hless⟩ | hstuck
    · obtain ⟨steps, r, h⟩ := ih rest
      exact ⟨(s, value) :: steps, r, h.step hmatch hless⟩
    · exact ⟨[], s, .here (final_iff.mpr (.inr hstuck))⟩

/-- What follows the first match of a maximal chain is a maximal chain. -/
theorem Maximal.tail {s' rest : List ε} {value value' : α} (hmatch : p s = .ok rest value)
    (h : Maximal p limit s ((s', value') :: steps) r) :
    ∃ n, limit = n + 1 ∧ (s', value') = (s, value) ∧ Maximal p n rest steps r := by
  obtain ⟨hadv, hwithin, hfinal⟩ := h
  simp only [List.length_cons] at hwithin
  refine ⟨limit - 1, by omega, ?_⟩
  cases hadv with
  | step hmatch' hless hrest =>
    rw [hmatch] at hmatch'
    cases hmatch'
    refine ⟨rfl, hrest, by omega, ?_⟩
    rw [final_iff] at hfinal ⊢
    simp only [List.length_cons] at hfinal
    exact hfinal.imp (fun hfull => by omega) id

/-- Where one chain must end, none goes on. -/
theorem Maximal.of_nil {steps' : List (List ε × α)} {r' : List ε} (h : Maximal p limit s [] r)
    (h' : Maximal p limit s steps' r') : steps' = [] ∧ r' = r := by
  obtain ⟨hadv, _, hfinal⟩ := h
  obtain ⟨hadv', hwithin', _⟩ := h'
  cases hadv
  cases hadv' with
  | here => exact ⟨rfl, rfl⟩
  | step hmatch hless _ =>
    simp only [List.length_cons] at hwithin'
    -- no match is allowed, or none uses anything up
    rcases final_iff.mp hfinal with hfull | hstuck
    · simp only [List.length_nil] at hfull
      omega
    · have := hstuck _ _ hmatch
      omega

/-- **At most one chain from `s` is maximal.** -/
theorem Maximal.functional {steps' : List (List ε × α)} {r' : List ε}
    (h : Maximal p limit s steps r) (h' : Maximal p limit s steps' r') :
    steps' = steps ∧ r' = r := by
  induction steps generalizing limit s steps' with
  | nil => exact h.of_nil h'
  | cons x steps ih =>
    cases steps' with
    | nil => cases (h'.of_nil h).1
    | cons x' steps' =>
      obtain ⟨place, value⟩ := x
      cases h.advances with
      | @step _ rest _ _ _ hmatch hless hrest =>
        -- both chains begin with the match at `s`, and their tails are maximal behind it
        obtain ⟨n, hn, _, htail⟩ := h.tail hmatch
        obtain ⟨n', hn', hx, htail'⟩ := h'.tail hmatch
        obtain rfl : n' = n := by omega
        obtain ⟨rfl, rfl⟩ := ih htail htail'
        exact ⟨congrArg (· :: steps') hx, rfl⟩

/-- A limit that the width of the input does not exceed is not what ends a chain. -/
theorem Maximal.stuck (h : Maximal p limit s steps r) (hs : nativeLen s ≤ limit) : Stuck p r := by
  rcases final_iff.mp h.final with hlimit | hstuck
  · have hlen := h.advances.length_add_nativeLen_le
    have hr : r = [] := Sequence.nativeLen_eq_zero_iff.mp (by omega)
    rw [hr]
    exact stuck_nil p
  · exact hstuck

/-- A width below `2 ^ 64` leaves a repetition that names no limit room enough. -/
theorem le_maxCount {n : Nat} (h : n < Nat.pow 2 64) : n ≤ maxCount := Nat.le_sub_one_of_lt h

/-! ## §3. A repetition follows the maximal chain. -/

/-- Why a repetition that may match so many times more stops at `r`. -/
def stopAt (p : Parser ε α) : (limit : Nat) → (r : List ε) → Stop ε
  | 0, _ => .limit
  | _ + 1, r =>
      if r.isEmpty then .endOfInput
      else
        match p r with
        | .ok _ _ => .noProgress
        | .fail error => .failed error
        | .unfinished => .unfinished

omit [Element ε] in
/-- An error stops the loop only where it could still have gone on. -/
theorem stopAt_eq_failed_iff {error : ParseError ε} :
    stopAt p limit r = .failed error ↔ 0 < limit ∧ r ≠ [] ∧ p r = .fail error := by
  cases limit with
  | zero => simp [stopAt]
  | succ limit =>
    by_cases hr : r = []
    · simp [stopAt, hr]
    · cases hp : p r <;> simp [stopAt, hr, hp]

omit [Element ε] in
theorem stopAt_eq_unfinished_iff :
    stopAt p limit r = .unfinished ↔ 0 < limit ∧ r ≠ [] ∧ p r = .unfinished := by
  cases limit with
  | zero => simp [stopAt]
  | succ limit =>
    by_cases hr : r = []
    · simp [stopAt, hr]
    · cases hp : p r <;> simp [stopAt, hr, hp]

/-- Along a chain the loop counts and collects, and then goes on from where the chain
leads. -/
theorem repetitionFrom_of_advances (h : Advances p s steps r) (step : β → α → β)
    (limit matched : Nat) (state : β) :
    repetitionFrom p step (steps.length + limit) matched state s =
      repetitionFrom p step limit (matched + steps.length)
        ((steps.map Prod.snd).foldl step state) r := by
  induction h generalizing matched state with
  | here s => simp
  | @step s rest r value steps hmatch hless hrest ih =>
    have hlen : ((s, value) :: steps).length + limit = steps.length + limit + 1 := by
      simp only [List.length_cons]
      omega
    rw [hlen, repetitionFrom_of_match hmatch hless, ih, Nat.add_assoc, Nat.add_comm 1]
    rfl

/-- Where the parser is stuck the loop stops with what it has. -/
theorem repetitionFrom_of_stuck (h : Stuck p r) (step : β → α → β) (limit matched : Nat)
    (state : β) :
    repetitionFrom p step limit matched state r = ⟨state, matched, r, stopAt p limit r⟩ := by
  cases limit with
  | zero => rfl
  | succ limit =>
    rw [repetitionFrom, stopAt]
    by_cases hr : r.isEmpty = true
    · rw [if_pos hr, if_pos hr]
    · rw [if_neg hr, if_neg hr]
      cases hp : p r with
      | ok rest value => exact if_pos (h rest value hp)
      | fail error => rfl
      | unfinished => rfl

/-- **A repetition follows the maximal chain.** -/
theorem repetition_of_maximal (h : Maximal p limit s steps r) (step : β → α → β) (state : β) :
    repetition p step limit state s =
      ⟨(steps.map Prod.snd).foldl step state, steps.length, r,
        stopAt p (limit - steps.length) r⟩ := by
  have hlimit : limit = steps.length + (limit - steps.length) := by
    have := h.within
    omega
  have hrun := repetitionFrom_of_advances h.advances step (limit - steps.length) 0 state
  rw [← hlimit, Nat.zero_add] at hrun
  rw [repetition, hrun]
  rcases final_iff.mp h.final with hfull | hstuck
  · rw [hfull, Nat.sub_self]
    rfl
  · exact repetitionFrom_of_stuck hstuck step _ _ _

/-! ## §4. How often the parser is run. -/

/-- The loop of a repetition, for a parser with effects. -/
def repetitionIn {m : Type → Type} [Monad m] (p : List ε → m (Reply ε α)) (step : β → α → β) :
    (limit matched : Nat) → (state : β) → List ε → m (Run ε β)
  | 0, matched, state, s => pure ⟨state, matched, s, .limit⟩
  | limit + 1, matched, state, s =>
      if s.isEmpty then pure ⟨state, matched, s, .endOfInput⟩
      else do
        match ← p s with
        | .ok rest value =>
            if nativeLen s ≤ nativeLen rest then pure ⟨state, matched, s, .noProgress⟩
            else repetitionIn p step limit (matched + 1) (step state value) rest
        | .fail error => pure ⟨state, matched, s, .failed error⟩
        | .unfinished => pure ⟨state, matched, s, .unfinished⟩

omit [Element ε] in
/-- The parser that replies as `p` does and writes down what it was run on. -/
def logged (p : Parser ε α) (s : List ε) : StateM (List (List ε)) (Reply ε α) := do
  modify (· ++ [s])
  return p s

/-- What a repetition runs its parser on, in order. -/
def applications (p : Parser ε α) : (limit : Nat) → List ε → List (List ε)
  | 0, _ => []
  | limit + 1, s =>
      if s.isEmpty then []
      else
        match p s with
        | .ok rest _ =>
            if nativeLen s ≤ nativeLen rest then [s] else s :: applications p limit rest
        | _ => [s]

omit [Element ε] in
/-- A logged run replies as the parser does and adds its input to the log. -/
theorem run_logged_bind (p : Parser ε α) (s : List ε)
    (next : Reply ε α → StateM (List (List ε)) γ) (log : List (List ε)) :
    (logged p s >>= next).run log = (next (p s)).run (log ++ [s]) := rfl

/-- The loop with a log comes to the same as the one without, and the log holds
the applications. -/
theorem run_repetitionIn_logged (p : Parser ε α) (step : β → α → β) (limit matched : Nat)
    (state : β) (s : List ε) (log : List (List ε)) :
    (repetitionIn (logged p) step limit matched state s).run log =
      (repetitionFrom p step limit matched state s, log ++ applications p limit s) := by
  induction limit generalizing matched state s log with
  | zero =>
    simp only [applications, List.append_nil]
    rfl
  | succ limit ih =>
    rw [repetitionIn, repetitionFrom, applications]
    by_cases hs : s.isEmpty = true
    · simp only [if_pos hs, List.append_nil]
      rfl
    · rw [if_neg hs, if_neg hs, if_neg hs, run_logged_bind]
      -- the reply decides whether the loop goes on, after its place has been logged
      cases hp : p s with
      | ok rest value =>
        dsimp only
        by_cases hle : nativeLen s ≤ nativeLen rest
        · rw [if_pos hle, if_pos hle, if_pos hle]
          rfl
        · rw [if_neg hle, if_neg hle, if_neg hle, ih, List.append_assoc]
          rfl
      | fail error => rfl
      | unfinished => rfl

/-- Along a chain the parser is run once at each of its places. -/
theorem applications_of_advances (h : Advances p s steps r) (limit : Nat) :
    applications p (steps.length + limit) s = steps.map Prod.fst ++ applications p limit r := by
  induction h with
  | here s => simp
  | @step s rest r value steps hmatch hless hrest ih =>
    have hs : s ≠ [] := Sequence.ne_nil_of_nativeLen_lt hless
    have hlen : ((s, value) :: steps).length + limit = steps.length + limit + 1 := by
      simp only [List.length_cons]
      omega
    rw [hlen, applications, if_neg (by simpa using hs), hmatch]
    dsimp only
    rw [if_neg (by omega), ih]
    rfl

/-- The parser is run at each place of the maximal chain, and once more where
the chain ends, if it may be and something is left. -/
theorem applications_of_maximal (h : Maximal p limit s steps r) :
    applications p limit s =
      steps.map Prod.fst ++ if steps.length < limit ∧ r ≠ [] then [r] else [] := by
  obtain ⟨n, rfl⟩ := Nat.exists_eq_add_of_le h.within
  rw [applications_of_advances h.advances n]
  congr 1
  cases n with
  | zero => simp [applications]
  | succ n =>
    -- one more match is allowed, so the chain ends because the parser is stuck
    have hstuck : Stuck p r := by
      rcases final_iff.mp h.final with hfull | hstuck
      · omega
      · exact hstuck
    rw [applications]
    by_cases hr : r = []
    · simp [hr]
    · rw [if_neg (by simpa using hr), if_pos ⟨by omega, hr⟩]
      cases hp : p r with
      | ok rest value => exact if_pos (hstuck rest value hp)
      | fail error => rfl
      | unfinished => rfl

/-- No more often than it may match, and no more often than the input is wide. -/
theorem length_applications_le (p : Parser ε α) (limit : Nat) (s : List ε) :
    (applications p limit s).length ≤ min limit (nativeLen s) := by
  obtain ⟨steps, r, h⟩ := exists_maximal p limit s
  have hlen := h.advances.length_add_nativeLen_le
  have hwithin := h.within
  rw [applications_of_maximal h, List.length_append, List.length_map]
  split
  next hmore =>
    -- the last attempt is made where something is left, which no match has used up
    have hr : nativeLen r ≠ 0 := fun h0 => hmore.2 (Sequence.nativeLen_eq_zero_iff.mp h0)
    simp only [List.length_singleton]
    omega
  next =>
    simp only [List.length_nil]
    omega

/-! ## §5. Repetitions without a lower bound. -/

/-- The reply is a success that leaves nothing wider than `s`; or there is none,
because `p` gives no answer somewhere. -/
def NeverFails (p : Parser ε α) (s : List ε) (reply : Reply ε γ) : Prop :=
  (∃ rest value, reply = .ok rest value ∧ nativeLen rest ≤ nativeLen s) ∨
    (reply = .unfinished ∧ ∃ t, p t = .unfinished)

/-- What a repetition comes to that need not match at all. -/
theorem answer_of_maximal (h : Maximal p limit s steps r) (step : β → α → β) (state : β)
    (kind : Stop ε → Kind) (value : Run ε β → γ) :
    (repetition p step limit state s).answer 0 kind value s =
      match stopAt p (limit - steps.length) r with
      | .unfinished => .unfinished
      | stop => .ok r (value ⟨(steps.map Prod.snd).foldl step state, steps.length, r, stop⟩) := by
  rw [repetition_of_maximal h, Run.answer]
  cases stopAt p (limit - steps.length) r <;> rfl

/-- Without a lower bound a loop succeeds with whatever it has found. -/
theorem neverFails_answer (p : Parser ε α) (step : β → α → β) (limit : Nat) (state : β)
    (kind : Stop ε → Kind) (value : Run ε β → γ) (s : List ε) :
    NeverFails p s ((repetition p step limit state s).answer 0 kind value s) := by
  obtain ⟨steps, r, h⟩ := exists_maximal p limit s
  have hle : nativeLen r ≤ nativeLen s := by
    have := h.advances.length_add_nativeLen_le
    omega
  rw [answer_of_maximal h]
  cases hstop : stopAt p (limit - steps.length) r with
  | unfinished => exact .inr ⟨rfl, r, (stopAt_eq_unfinished_iff.mp hstop).2.2⟩
  | limit => exact .inl ⟨r, _, rfl, hle⟩
  | endOfInput => exact .inl ⟨r, _, rfl, hle⟩
  | noProgress => exact .inl ⟨r, _, rfl, hle⟩
  | failed error => exact .inl ⟨r, _, rfl, hle⟩

/-- A list of values is that of the maximal chain, unless the parser gives no
answer at the end of it. -/
theorem manyBounded_of_maximal (h : Maximal p limit s steps r) :
    manyBounded 0 limit p s =
      match stopAt p (limit - steps.length) r with
      | .unfinished => .unfinished
      | _ => .ok r (steps.map Prod.snd) := by
  have hvalues : ((steps.map Prod.snd).foldl (fun done value => value :: done) []).reverse =
      steps.map Prod.snd := by simp
  unfold manyBounded manyAs
  rw [answer_of_maximal h]
  dsimp only
  rw [hvalues]

/-- A success lists the values of the maximal chain and leaves where it leads. -/
theorem maximal_of_manyBounded {values : List α} (h : manyBounded 0 limit p s = .ok r values) :
    ∃ steps, Maximal p limit s steps r ∧ steps.map Prod.snd = values := by
  obtain ⟨steps, r', hmaximal⟩ := exists_maximal p limit s
  rw [manyBounded_of_maximal hmaximal] at h
  split at h
  next => cases h
  next =>
    cases h
    exact ⟨steps, hmaximal, rfl⟩

/-- `many0` yields the values of the maximal chain, unless its parser gives no
answer at the end of it. -/
theorem many0_eq_ok_iff (h : Maximal p maxCount s steps r) {rest : List ε} {values : List α} :
    many0 p s = .ok rest values ↔
      rest = r ∧ values = steps.map Prod.snd ∧
        ¬ (steps.length < maxCount ∧ r ≠ [] ∧ p r = .unfinished) := by
  have hmore : 0 < maxCount - steps.length ↔ steps.length < maxCount := Nat.sub_pos_iff_lt
  rw [many0, manyBounded_of_maximal h, ← hmore, ← stopAt_eq_unfinished_iff]
  cases stopAt p (maxCount - steps.length) r <;> simp [eq_comm]

/-- The list form, with any upper bound. -/
theorem neverFails_manyBounded (p : Parser ε α) (limit : Nat) (s : List ε) :
    NeverFails p s (manyBounded 0 limit p s) := by
  unfold manyBounded manyAs
  exact neverFails_answer p _ _ _ _ _ s

theorem neverFails_many0 (p : Parser ε α) (s : List ε) : NeverFails p s (many0 p s) :=
  neverFails_manyBounded p maxCount s

theorem neverFails_many0Count (p : Parser ε α) (s : List ε) :
    NeverFails p s (many0Count p s) := by
  unfold many0Count manyCount
  exact neverFails_answer p _ _ _ _ _ s

theorem neverFails_foldMany0 (p : Parser ε α) (first : β) (combine : β → α → β) (s : List ε) :
    NeverFails p s (foldMany0 p first combine s) := by
  unfold foldMany0 foldAs
  exact neverFails_answer p _ _ _ _ _ s

/-- **A repetition follows the one maximal chain of matches from its input.**
It runs its parser at the places of the chain and where the chain ends, no more
often than it may match and than the input is wide.  It hands the values of the
chain to the step function in order, ends where the chain ends, and tells the
failure of the parser there, if that is what ended it.  So a repetition that
need not match never fails. -/
theorem repetition_follows_the_maximal_chain (p : Parser ε α) (limit : Nat) (s : List ε) :
    (∃ steps r,
      Maximal p limit s steps r ∧ (∀ x ∈ steps, x.1 ≠ []) ∧
      (∀ steps' r', Maximal p limit s steps' r' → steps' = steps ∧ r' = r) ∧
      applications p limit s =
        steps.map Prod.fst ++ (if steps.length < limit ∧ r ≠ [] then [r] else []) ∧
      (applications p limit s).length ≤ min limit (nativeLen s) ∧
      ∀ (β : Type) (step : β → α → β) (state : β),
        (repetitionIn (logged p) step limit 0 state s).run [] =
          (repetition p step limit state s, applications p limit s) ∧
        (repetition p step limit state s).rest = r ∧
        (repetition p step limit state s).matched = steps.length ∧
        (repetition p step limit state s).state = (steps.map Prod.snd).foldl step state ∧
        (∀ error, (repetition p step limit state s).stop = .failed error ↔
          steps.length < limit ∧ r ≠ [] ∧ p r = .fail error) ∧
        ((repetition p step limit state s).stop = .unfinished ↔
          steps.length < limit ∧ r ≠ [] ∧ p r = .unfinished)) ∧
    NeverFails p s (many0 p s) ∧ NeverFails p s (many0Count p s) ∧
    ∀ (β : Type) (first : β) (combine : β → α → β),
      NeverFails p s (foldMany0 p first combine s) := by
  refine ⟨?_, neverFails_many0 p s, neverFails_many0Count p s,
    fun β first combine => neverFails_foldMany0 p first combine s⟩
  -- the maximal chain determines the loop, up to why it stops
  obtain ⟨steps, r, h⟩ := exists_maximal p limit s
  refine ⟨steps, r, h, h.advances.place_ne_nil, fun _ _ h' => h.functional h',
    applications_of_maximal h, length_applications_le p limit s, ?_⟩
  intro β step state
  refine ⟨run_repetitionIn_logged p step limit 0 state s [], ?_⟩
  have hmore : 0 < limit - steps.length ↔ steps.length < limit := Nat.sub_pos_iff_lt
  rw [repetition_of_maximal h]
  refine ⟨rfl, rfl, rfl, fun error => ?_, ?_⟩
  · rw [stopAt_eq_failed_iff, hmore]
  · rw [stopAt_eq_unfinished_iff, hmore]

end Parsing.Parser
