/-
  Parsing.Proofs.Progress.Agreement — ALL REPETITIONS SHOW ONE LIST.

  The parsers `many…` and `foldMany…` differ in what they keep of the values (a
  list, a number, a state), in how many matches they demand, and in the kind
  they fail with.  What they match is the same: the values of the maximal chain,
  which are what `manyBounded 0 upper p` lists.  So each of them is that list,
  shown in its own way, as far as it is long enough.

  Main statements:
    * `answer_eq_atLeast` — whatever is made of a repetition is made of the list;
    * `repetitions_agree` — each of the parsers in terms of the list.
-/
import Parsing.Proofs.Progress.Basic

namespace Parsing

variable {ε α β γ : Type}

/-! ## §1. Lists that are long enough. -/

/-- A list of at least `lower` values, shown in some way; a shorter one is a
failure at `s`. -/
def Reply.atLeast (lower : Nat) (kind : Kind) (s : List ε) (shown : List α → β)
    (r : Reply ε (List α)) : Reply ε β :=
  r.andThen fun rest values =>
    if lower ≤ values.length then .ok rest (shown values) else .fail ⟨s, kind⟩

/-- Any list is long enough to have no value. -/
theorem Reply.atLeast_zero (kind : Kind) (s : List ε) (shown : List α → β)
    (r : Reply ε (List α)) : r.atLeast 0 kind s shown = r.map shown := by
  cases r <;> simp [atLeast]

/-- A success shows a list that is long enough, and leaves what the list leaves. -/
theorem Reply.atLeast_eq_ok {lower : Nat} {kind : Kind} {s rest : List ε} {shown : List α → β}
    {r : Reply ε (List α)} {value : β} (h : r.atLeast lower kind s shown = .ok rest value) :
    ∃ values, r = .ok rest values ∧ lower ≤ values.length ∧ shown values = value := by
  obtain ⟨rest', values, hr, hshown⟩ := andThen_eq_ok h
  split at hshown
  next hle =>
    cases hshown
    exact ⟨values, hr, hle, rfl⟩
  next => cases hshown

namespace Parser

/-- The kind of the failure of `p` on `s`, if something is left there and `p`
fails; and else a given kind. -/
def kindAt (p : Parser ε α) (kind : Kind) (s : List ε) : Kind :=
  if s.isEmpty then kind
  else
    match p s with
    | .fail error => error.kind
    | _ => kind

/-- Where a loop may go on, the kind of the failure that stops it is that of the
parser's own failure at the place. -/
theorem kindOr_stopAt (p : Parser ε α) (kind : Kind) {limit : Nat} (h : 0 < limit)
    (s : List ε) : (stopAt p limit s).kindOr kind = kindAt p kind s := by
  cases limit with
  | zero => exact absurd h (Nat.lt_irrefl 0)
  | succ limit =>
    rw [stopAt, kindAt]
    split
    next => rfl
    next => cases p s <;> rfl

/-! ## §2. Repetitions and the list of their values. -/

variable [Element ε] {p : Parser ε α} {s r : List ε} {steps : List (List ε × α)} {upper : Nat}

/-- **Whatever is made of a repetition is made of the list of its values.**  The
kind of a failure may depend on how the repetition ended, so far as that is
settled by its having matched too little. -/
theorem answer_eq_atLeast (p : Parser ε α) (step : β → α → β) {lower upper : Nat} {state : β}
    {s : List ε} {kind : Stop ε → Kind} {kind' : Kind}
    (hkind : ∀ steps r, Maximal p upper s steps r → steps.length < lower →
      kind (stopAt p (upper - steps.length) r) = kind')
    {value : Run ε β → γ} {shown : List α → γ}
    (hshown : ∀ values rest stop,
      value ⟨values.foldl step state, values.length, rest, stop⟩ = shown values) :
    (repetition p step upper state s).answer lower kind value s =
      (manyBounded 0 upper p s).atLeast lower kind' s shown := by
  -- both loops follow the maximal chain, whatever they make of its values
  obtain ⟨steps, r, h⟩ := exists_maximal p upper s
  have hkind := hkind steps r h
  have hshown := hshown (steps.map Prod.snd) r (stopAt p (upper - steps.length) r)
  rw [List.length_map] at hshown
  have hvalues : ((steps.map Prod.snd).foldl (fun done value => value :: done) []).reverse =
      steps.map Prod.snd := by simp
  rw [manyBounded, manyAs, repetition_of_maximal h, repetition_of_maximal h]
  -- and stop for the same reason, at the same number of matches
  by_cases hstop : stopAt p (upper - steps.length) r = .unfinished
  · rw [Run.answer_of_unfinished hstop, Run.answer_of_unfinished hstop]
    rfl
  · rw [Run.answer_of_ne_unfinished hstop, Run.answer_of_ne_unfinished hstop,
      if_neg (Nat.not_lt_zero _), hvalues, hshown, Reply.atLeast, Reply.andThen_ok, List.length_map]
    dsimp only
    by_cases hless : steps.length < lower
    · rw [if_pos hless, if_neg (Nat.not_le_of_lt hless), hkind hless]
    · rw [if_neg hless, if_pos (Nat.le_of_not_lt hless)]

/-! ## §3. Each repetition in terms of the list. -/

/-- A list with a lower bound is the list without one, if it is long enough. -/
theorem manyBounded_eq (lower upper : Nat) (p : Parser ε α) (s : List ε) :
    manyBounded lower upper p s =
      (manyBounded 0 upper p s).atLeast lower .manyBounded s id := by
  rw [manyBounded, manyAs]
  exact answer_eq_atLeast p _ (fun _ _ _ _ => rfl) fun _ _ _ => by simp

/-- A fold in the loop is a fold over the list of the values. -/
theorem foldAs_eq (lower upper : Nat) (kind : Kind) (p : Parser ε α) (first : β)
    (combine : β → α → β) (s : List ε) :
    foldAs lower upper kind p first combine s =
      (manyBounded 0 upper p s).atLeast lower kind s (List.foldl combine first) := by
  rw [foldAs]
  exact answer_eq_atLeast p combine (fun _ _ _ _ => rfl) fun _ _ _ => rfl

/-- The number that the loop counts is the length of that list. -/
theorem manyCount_eq (lower : Nat) (p : Parser ε α) (s : List ε) :
    manyCount lower p s = (many0 p s).atLeast lower .many1Count s List.length := by
  rw [manyCount]
  exact answer_eq_atLeast p _ (fun _ _ _ _ => rfl) fun _ _ _ => rfl

/-- A loop without an upper bound may match at least once. -/
theorem maxCount_pos : 0 < maxCount := by decide

/-- With no match at all, what ended the repetition is found at its input. -/
theorem many1_eq (p : Parser ε α) (s : List ε) :
    many1 p s = (many0 p s).atLeast 1 (kindAt p .many1 s) s id := by
  rw [many1, manyAs]
  refine answer_eq_atLeast p _ (fun steps r h hless => ?_) fun values rest stop => ?_
  · obtain rfl : steps = [] := List.eq_nil_of_length_eq_zero (by omega)
    cases h.advances
    exact kindOr_stopAt p .many1 maxCount_pos s
  · simp

/-- **All repetitions show one list**, the one that `manyBounded` without a
lower bound yields.  That parser never fails.  With a lower bound, the list is
shown as a list or as a state if it is long enough, and else there is a failure
at the input, of a kind that tells which repetition it was.  Without bounds, the
list, its length and its state are shown whatever the list is, and with a bound
of one, if it has a value; the failure of `many1` alone tells the kind of the
failure of `p`. -/
theorem repetitions_agree (p : Parser ε α) (s : List ε) (lower upper : Nat) :
    NeverFails p s (manyBounded 0 upper p s) ∧
    manyBounded lower upper p s = (manyBounded 0 upper p s).atLeast lower .manyBounded s id ∧
    (∀ (β : Type) (first : β) (combine : β → α → β),
      foldManyBounded lower upper p first combine s =
        (manyBounded 0 upper p s).atLeast lower .foldManyBounded s
          (List.foldl combine first)) ∧
    many0 p s = manyBounded 0 maxCount p s ∧
    many0Count p s = (many0 p s).map List.length ∧
    (∀ (β : Type) (first : β) (combine : β → α → β),
      foldMany0 p first combine s = (many0 p s).map (List.foldl combine first)) ∧
    many1 p s = (many0 p s).atLeast 1 (kindAt p .many1 s) s id ∧
    many1Count p s = (many0 p s).atLeast 1 .many1Count s List.length ∧
    ∀ (β : Type) (first : β) (combine : β → α → β),
      foldMany1 p first combine s =
        (many0 p s).atLeast 1 .many1 s (List.foldl combine first) := by
  refine ⟨neverFails_manyBounded p upper s, manyBounded_eq lower upper p s, ?_, rfl, ?_, ?_,
    many1_eq p s, manyCount_eq 1 p s, ?_⟩
  · intro β first combine
    exact foldAs_eq lower upper .foldManyBounded p first combine s
  -- a repetition without a lower bound shows its list as it is
  · rw [← Reply.atLeast_zero .many1Count s]
    exact manyCount_eq 0 p s
  · intro β first combine
    rw [← Reply.atLeast_zero .many1 s]
    exact foldAs_eq 0 maxCount .many1 p first combine s
  · intro β first combine
    exact foldAs_eq 1 maxCount .many1 p first combine s

end Parser

end Parsing
