/-
  Parsing.Iter — VALUES ONE AT A TIME.

  An iterator holds a parser and what is left of an input, and hands out the
  values of the parser one by one.  It is over when the parser fails, and
  after a match that uses nothing up, whose value it still hands out.  Once it
  is over it stays so, and stays where it is.

  Main statements: `budget_lt_of_next_eq_item`, each value handed out brings
  the end nearer, and `next_of_exhausted`.
-/
import Parsing.Parser.Basic

namespace Parsing

/-- A parser at work on an input, one value at a time. -/
structure Iter (ε α : Type) where
  parser : Parser ε α
  rest : List ε
  exhausted : Bool

/-- What asking for the next value comes to. -/
inductive Pull (ε α : Type) where
  | item (value : α) (after : Iter ε α)
  | over (after : Iter ε α)
  /-- The parser gave no answer. -/
  | unfinished

namespace Iter

variable {ε α : Type}

/-- The values of `p` on `s`. -/
def start (p : Parser ε α) (s : List ε) : Iter ε α := ⟨p, s, false⟩

/-- Gives up the iterator for what is left of its input. -/
def finish (it : Iter ε α) : List ε := it.rest

variable [Element ε]

/-- Asks for the next value. -/
def next (it : Iter ε α) : Pull ε α :=
  if it.exhausted then .over it
  else
    match it.parser it.rest with
    | .ok rest value =>
        .item value
          { it with
            rest := rest
            exhausted := Sequence.nativeLen it.rest ≤ Sequence.nativeLen rest }
    | .fail _ => .over { it with exhausted := true }
    | .unfinished => .unfinished

/-- An upper bound for how many values are still to come. -/
def budget (it : Iter ε α) : Nat := if it.exhausted then 0 else Sequence.nativeLen it.rest + 1

/-- After the end an iteration stays as it is. -/
theorem next_of_exhausted {it : Iter ε α} (h : it.exhausted = true) : it.next = .over it := by
  simp [next, h]

/-- Every item leaves less to go on with, so only so many follow one another. -/
theorem budget_lt_of_next_eq_item {it after : Iter ε α} {value : α}
    (h : it.next = .item value after) : after.budget < it.budget := by
  unfold next at h
  split at h
  · simp at h
  · rename_i hopen
    split at h
    · simp only [Pull.item.injEq] at h
      obtain ⟨_, rfl⟩ := h
      simp only [budget, if_neg hopen]
      split <;> simp_all
    · simp at h
    · simp at h

/-- All values still to come, after `done`, the last of them first; none if the
parser gives no answer. -/
def drain (it : Iter ε α) (done : List α) : Option (List α × Iter ε α) :=
  match _h : it.next with
  | .item value after => drain after (value :: done)
  | .over after => some (done.reverse, after)
  | .unfinished => none
termination_by it.budget
decreasing_by exact budget_lt_of_next_eq_item ‹_›

/-- All values still to come. -/
def collect (it : Iter ε α) : Option (List α × Iter ε α) := it.drain []

/-- How many values are still to come. -/
def count (it : Iter ε α) : Option (Nat × Iter ε α) :=
  it.collect.map fun r => (r.1.length, r.2)

/-! ## Scripts of steps. -/

/-- One use of an iterator. -/
inductive Step where
  | next
  | remaining
  | collect
  | count
  | finish
  deriving DecidableEq

/-- What a use of an iterator answers. -/
inductive Answer (ε α : Type) where
  | next (value : Option α)
  | rest (s : List ε)
  | values (vs : List α)
  | count (n : Nat)

/-- The answer to one step, and the iterator after it. -/
def perform (it : Iter ε α) : Step → Option (Answer ε α × Iter ε α)
  | .next =>
      match it.next with
      | .item value after => some (.next (some value), after)
      | .over after => some (.next none, after)
      | .unfinished => none
  | .remaining => some (.rest it.rest, it)
  | .collect => it.collect.map fun r => (.values r.1, r.2)
  | .count => it.count.map fun r => (.count r.1, r.2)
  | .finish => some (.rest it.finish, it)

/-- The answers to several steps, one after another. -/
def performAll (it : Iter ε α) : List Step → Option (List (Answer ε α))
  | [] => some []
  | step :: steps =>
      (it.perform step).bind fun r => (r.2.performAll steps).map (r.1 :: ·)

end Iter

end Parsing
