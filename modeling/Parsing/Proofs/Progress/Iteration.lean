/-
  Parsing.Proofs.Progress.Iteration — AN ITERATOR HANDS OUT WHAT `many0` COLLECTS.

  An iterator and `many0` have loops of their own, with different rules for the
  end: `many0` does not try the end of the input, and drops a match that uses
  nothing up; an iterator tries whatever is left, and hands that match out as
  its last.  Up to there both follow the same chain of matches.

  What is still to come from an iterator is its *feed*: values, each with the
  place it is parsed at, and a place to stay at when they are used up.  A feed
  answers any use of an iterator without a parser, as a queue does, and an
  iterator *has* a feed when its parser gives these values at these places.  One
  lemma for each use shows that the iterator and its feed answer alike and stay
  in step; so they agree on every script.

  Main statements:
    * `perform_of_feeds`, `performAll_of_feeds` — an iterator answers as its
      feed does;
    * `Feed.handed_performAll` — what a feed hands out is a beginning of it;
    * `feeds_start` — the feed of an iteration, from the run of `many0`;
    * `iteration_agrees_with_many0`, which puts these together.
-/
import Mathlib.Data.List.Forall2
import Parsing.Iter
import Parsing.Proofs.Progress.Marker

namespace Parsing.Iter

variable {ε α : Type}

open Sequence (nativeLen)
open Parsing.Parser (Advances Stuck Maximal applications many0 maxCount letters)

/-! ## §1. Feeds. -/

/-- What is still to come: values with the places they are parsed at, and where
the iterator stays after them. -/
structure Feed (ε α : Type) where
  items : List (List ε × α)
  last : List ε

namespace Feed

def values (feed : Feed ε α) : List α := feed.items.map Prod.snd

/-- Where the iterator stands after it has handed out `j` more values. -/
def placeAt (feed : Feed ε α) (j : Nat) : List ε := (feed.items.map Prod.fst)[j]?.getD feed.last

/-- The answer to one step, and what is still to come after it. -/
def perform (feed : Feed ε α) : Step → Answer ε α × Feed ε α
  | .next =>
      match feed.items with
      | [] => (.next none, feed)
      | (_, value) :: items => (.next (some value), { feed with items := items })
  | .remaining => (.rest (feed.placeAt 0), feed)
  | .collect => (.values feed.values, { feed with items := [] })
  | .count => (.count feed.values.length, { feed with items := [] })
  | .finish => (.rest (feed.placeAt 0), feed)

def performAll (feed : Feed ε α) : List Step → List (Answer ε α)
  | [] => []
  | step :: steps => (feed.perform step).1 :: (feed.perform step).2.performAll steps

/-- Asking for one value after another gives them all, in order, and then
nothing any more; the place moves on with them. -/
theorem performAll_nexts (feed : Feed ε α) (j : Nat) :
    feed.performAll (List.replicate j .next ++ [.remaining]) =
      (List.range j).map (fun i => .next feed.values[i]?) ++ [.rest (feed.placeAt j)] := by
  induction j generalizing feed with
  | zero => rfl
  | succ j ih =>
    obtain ⟨items, last⟩ := feed
    rw [List.replicate_succ, List.cons_append, performAll, ih, List.range_succ_eq_map,
      List.map_cons, List.map_map, List.cons_append]
    cases items with
    | nil => rfl
    | cons item items => rfl

end Feed

/-! ## §2. What a script hands out. -/

/-- The values that an answer hands out, in order; a value that is only counted
is not shown. -/
def Answer.handed : Answer ε α → List (Option α)
  | .next (some value) => [some value]
  | .next none => []
  | .rest _ => []
  | .values vs => vs.map some
  | .count n => List.replicate n none

/-- The value, as far as it is shown. -/
def Shows (shown : Option α) (value : α) : Prop := shown = none ∨ shown = some value

theorem shows_map_some (vs : List α) : List.Forall₂ Shows (vs.map some) vs := by
  induction vs with
  | nil => exact .nil
  | cons v vs ih => exact .cons (.inr rfl) ih

theorem shows_replicate_none (vs : List α) :
    List.Forall₂ Shows (List.replicate vs.length none) vs := by
  induction vs with
  | nil => exact .nil
  | cons v vs ih => exact .cons (.inl rfl) ih

/-- One step hands out the next values of the feed, and leaves the others. -/
theorem Feed.handed_perform (feed : Feed ε α) (step : Step) :
    ∃ taken, feed.values = taken ++ (feed.perform step).2.values ∧
      List.Forall₂ Shows (feed.perform step).1.handed taken := by
  obtain ⟨items, last⟩ := feed
  cases step with
  | next =>
    cases items with
    | nil => exact ⟨[], rfl, .nil⟩
    | cons item items => exact ⟨[item.2], rfl, .cons (.inr rfl) .nil⟩
  | remaining => exact ⟨[], rfl, .nil⟩
  | collect => exact ⟨_, (List.append_nil _).symm, shows_map_some _⟩
  | count => exact ⟨_, (List.append_nil _).symm, shows_replicate_none _⟩
  | finish => exact ⟨[], rfl, .nil⟩

/-- **What a script hands out is a beginning of the feed**: nothing is lost,
repeated or out of order. -/
theorem Feed.handed_performAll (feed : Feed ε α) (script : List Step) :
    ∃ taken, taken <+: feed.values ∧
      List.Forall₂ Shows ((feed.performAll script).flatMap Answer.handed) taken := by
  induction script generalizing feed with
  | nil => exact ⟨[], List.nil_prefix, .nil⟩
  | cons step script ih =>
    obtain ⟨first, hfirst, hshows⟩ := feed.handed_perform step
    obtain ⟨later, ⟨left, hleft⟩, hlater⟩ := ih (feed.perform step).2
    refine ⟨first ++ later, ⟨left, ?_⟩, List.rel_append hshows hlater⟩
    rw [List.append_assoc, hleft, ← hfirst]

/-! ## §3. An iterator and its feed. -/

variable [Element ε]

/-- An iterator over `p` in this state has this feed. -/
inductive Feeds (p : Parser ε α) : (rest : List ε) → (exhausted : Bool) → Feed ε α → Prop where
  | ended (r : List ε) : Feeds p r true ⟨[], r⟩
  | failure {r : List ε} {error : ParseError ε} (hfail : p r = .fail error) :
      Feeds p r false ⟨[], r⟩
  | item {s rest last : List ε} {value : α} {items : List (List ε × α)}
      (hmatch : p s = .ok rest value)
      (hrest : Feeds p rest (decide (nativeLen s ≤ nativeLen rest)) ⟨items, last⟩) :
      Feeds p s false ⟨(s, value) :: items, last⟩

variable {p : Parser ε α} {rest : List ε} {exhausted : Bool} {feed : Feed ε α}

/-- Before anything is handed out, the iterator stands where its feed begins. -/
theorem placeAt_zero_of_feeds (h : Feeds p rest exhausted feed) : feed.placeAt 0 = rest := by
  cases h <;> rfl

/-- With nothing to come, the iterator is over, and stays so. -/
theorem next_of_feeds_nil {last : List ε} (h : Feeds p rest exhausted ⟨[], last⟩) :
    next ⟨p, rest, exhausted⟩ = .over ⟨p, last, true⟩ := by
  cases h with
  | ended => rfl
  | failure hfail =>
    unfold next
    simp only [hfail]
    rfl

/-- Otherwise it hands out the next value and goes on with the others. -/
theorem next_of_feeds_cons {s last : List ε} {value : α} {items : List (List ε × α)}
    (h : Feeds p rest exhausted ⟨(s, value) :: items, last⟩) :
    ∃ rest' exhausted', next ⟨p, rest, exhausted⟩ = .item value ⟨p, rest', exhausted'⟩ ∧
      Feeds p rest' exhausted' ⟨items, last⟩ := by
  cases h with
  | item hmatch hrest =>
    refine ⟨_, _, ?_, hrest⟩
    unfold next
    simp only [hmatch]
    rfl

/-- One turn of the loop that collects what is left. -/
theorem drain_eq (it : Iter ε α) (done : List α) :
    it.drain done =
      match it.next with
      | .item value after => after.drain (value :: done)
      | .over after => some (done.reverse, after)
      | .unfinished => none := by
  rw [drain]
  split <;> simp_all

/-- All that is still to come is the feed. -/
theorem drain_of_feeds {items : List (List ε × α)} {last : List ε}
    (h : Feeds p rest exhausted ⟨items, last⟩) (done : List α) :
    drain ⟨p, rest, exhausted⟩ done =
      some (done.reverse ++ items.map Prod.snd, ⟨p, last, true⟩) := by
  induction items generalizing rest exhausted done with
  | nil =>
    rw [drain_eq, next_of_feeds_nil h]
    simp
  | cons item items ih =>
    obtain ⟨s, value⟩ := item
    obtain ⟨rest', exhausted', hnext, hfeeds⟩ := next_of_feeds_cons h
    rw [drain_eq, hnext]
    dsimp only
    rw [ih hfeeds]
    simp

/-- **One step: the answer of the feed**, and a state that has the feed which is
left. -/
theorem perform_of_feeds (h : Feeds p rest exhausted feed) (step : Step) :
    ∃ rest' exhausted',
      perform ⟨p, rest, exhausted⟩ step =
        some ((feed.perform step).1, ⟨p, rest', exhausted'⟩) ∧
      Feeds p rest' exhausted' (feed.perform step).2 := by
  have hplace := placeAt_zero_of_feeds h
  obtain ⟨items, last⟩ := feed
  cases step with
  | next =>
    cases items with
    | nil =>
      refine ⟨last, true, ?_, .ended last⟩
      rw [perform, next_of_feeds_nil h]
      rfl
    | cons item items =>
      obtain ⟨s, value⟩ := item
      obtain ⟨rest', exhausted', hnext, hfeeds⟩ := next_of_feeds_cons h
      refine ⟨rest', exhausted', ?_, hfeeds⟩
      rw [perform, hnext]
      rfl
  | remaining => exact ⟨rest, exhausted, by rw [Feed.perform, hplace]; rfl, h⟩
  -- what takes all the values leaves the iterator at its end
  | collect =>
    refine ⟨last, true, ?_, .ended last⟩
    rw [perform, collect, drain_of_feeds h]
    rfl
  | count =>
    refine ⟨last, true, ?_, .ended last⟩
    rw [perform, count, collect, drain_of_feeds h]
    rfl
  | finish => exact ⟨rest, exhausted, by rw [Feed.perform, hplace]; rfl, h⟩

/-- **Any script: the answers of the feed.** -/
theorem performAll_of_feeds (h : Feeds p rest exhausted feed) (script : List Step) :
    performAll ⟨p, rest, exhausted⟩ script = some (feed.performAll script) := by
  induction script generalizing rest exhausted feed with
  | nil => rfl
  | cons step script ih =>
    obtain ⟨rest', exhausted', hstep, hfeeds⟩ := perform_of_feeds h step
    rw [performAll, hstep, Option.bind_some, ih hfeeds]
    rfl

/-! ## §4. The feed of an iteration. -/

/-- A chain of matches comes first in the feed. -/
theorem feeds_of_advances {s r last : List ε} {steps items : List (List ε × α)}
    (h : Advances p s steps r) (hr : Feeds p r false ⟨items, last⟩) :
    Feeds p s false ⟨steps ++ items, last⟩ := by
  induction h with
  | here s => exact hr
  | step hmatch hless hrest ih =>
    refine .item hmatch ?_
    rw [decide_eq_false (by omega)]
    exact ih hr

/-- What an iterator does where `many0` has stopped: if the parser fails there,
it is over; if the parser matches, it hands that value out, and is over. -/
inductive Feed.After (p : Parser ε α) (steps : List (List ε × α)) (r : List ε) :
    Feed ε α → Prop where
  | failure {error : ParseError ε} (hfail : p r = .fail error) : After p steps r ⟨steps, r⟩
  | item {rest : List ε} {value : α} (hmatch : p r = .ok rest value) :
      After p steps r ⟨steps ++ [(r, value)], rest⟩

/-- A new iterator is fed by the chain of its matches, up to where the parser is stuck. -/
theorem feeds_start {s r : List ε} {steps : List (List ε × α)} (h : Advances p s steps r)
    (hstuck : Stuck p r) (hfeed : feed.After p steps r) : Feeds p s false feed := by
  cases hfeed with
  | failure hfail =>
    have := feeds_of_advances h (.failure hfail)
    rwa [List.append_nil] at this
  | @item rest value hmatch =>
    refine feeds_of_advances h (.item hmatch ?_)
    rw [decide_eq_true (hstuck rest value hmatch)]
    exact .ended rest

omit [Element ε] in
/-- Up to the end of the chain, an iterator stands where `many0` makes its
attempts. -/
theorem Feed.After.placeAt_eq {r : List ε} {steps : List (List ε × α)}
    (hfeed : feed.After p steps r) {j : Nat} (hj : j ≤ steps.length) :
    feed.placeAt j = (steps.map Prod.fst)[j]?.getD r := by
  cases hfeed with
  | failure hfail => rfl
  | @item rest value hmatch =>
    unfold Feed.placeAt
    rw [List.map_append]
    by_cases hlt : j < steps.length
    · rw [List.getElem?_append_left (by simpa using hlt)]
      simp [hlt]
    · obtain rfl : j = steps.length := by omega
      simp

/-! ## §5. When it is over. -/

/-- Once an iterator is over, no step changes it. -/
theorem perform_of_exhausted {it : Iter ε α} (h : it.exhausted = true) (step : Step) :
    ∃ answer, it.perform step = some (answer, it) := by
  obtain ⟨p, rest, exhausted⟩ := it
  subst h
  have hnext : next ⟨p, rest, true⟩ = .over ⟨p, rest, true⟩ := next_of_exhausted rfl
  have hdrain := drain_of_feeds (Feeds.ended (p := p) rest) []
  cases step with
  | next => exact ⟨.next none, by rw [perform, hnext]⟩
  | remaining => exact ⟨.rest rest, rfl⟩
  | collect => exact ⟨.values [], by rw [perform, collect, hdrain]; rfl⟩
  | count => exact ⟨.count 0, by rw [perform, count, collect, hdrain]; rfl⟩
  | finish => exact ⟨.rest rest, rfl⟩

/-- An iterator that is over has not moved. -/
theorem exhausted_of_next_eq_over {it after : Iter ε α} (h : it.next = .over after) :
    after.exhausted = true ∧ after.rest = it.rest := by
  unfold next at h
  split at h
  next hover =>
    cases h
    exact ⟨hover, rfl⟩
  next =>
    split at h
    next => cases h
    next =>
      cases h
      exact ⟨rfl, rfl⟩
    next => cases h

/-! ## §6. The iterator and `many0`. -/

/-- Where `many0` stops, with the chain that it has followed; on inputs of a
width that fits a word its limit plays no part. -/
theorem exists_chain_of_many0 {s r : List ε} {vs : List α} (hs : nativeLen s < Nat.pow 2 64)
    (hmany : many0 p s = .ok r vs) :
    ∃ steps, Maximal p maxCount s steps r ∧ Stuck p r ∧ steps.map Prod.snd = vs := by
  obtain ⟨steps, r', h⟩ := Parser.exists_maximal p maxCount s
  obtain ⟨rfl, hvs, _⟩ := (Parser.many0_eq_ok_iff h).mp hmany
  exact ⟨steps, h, h.stuck (Parser.le_maxCount hs), hvs.symm⟩

/-- The attempts of `many0` are the places of its chain, and the end of the
chain unless that is the end of the input. -/
theorem attempt_eq {s r : List ε} {steps : List (List ε × α)} (h : Maximal p maxCount s steps r)
    {j : Nat} (hj : j ≤ steps.length) :
    (applications p maxCount s)[j]?.getD r = (steps.map Prod.fst)[j]?.getD r := by
  rw [Parser.applications_of_maximal h]
  by_cases hlt : j < steps.length
  · rw [List.getElem?_append_left (by simpa using hlt)]
  · obtain rfl : j = steps.length := by omega
    split <;> simp

/-- **An iterator over `p` hands out what `many0 p` collects.**  Let `many0`
stop at `r`.  If `p` fails there, the iterator hands out the same values and
stays at `r`; if `p` matches there, it hands that value out as well, and stays
where that match ends.  It stands where `many0` makes its attempts, and it
answers every script of steps as a queue of these values does; so what a script
hands out is a beginning of them, and once it is over nothing changes. -/
theorem iteration_agrees_with_many0 (p : Parser ε α) (s : List ε)
    (hs : nativeLen s < Nat.pow 2 64) :
    ((∀ t, p t ≠ .unfinished) → ∃ r vs, many0 p s = .ok r vs) ∧
    (∀ r vs, many0 p s = .ok r vs →
      ∃ steps, Advances p s steps r ∧ steps.map Prod.snd = vs ∧
        ∀ feed : Feed ε α, feed.After p steps r →
          feed.placeAt 0 = s ∧ feed.placeAt vs.length = r ∧
          (∀ j, j ≤ vs.length → feed.placeAt j = (applications p maxCount s)[j]?.getD r) ∧
          (∀ j, (start p s).performAll (List.replicate j .next ++ [.remaining]) =
            some ((List.range j).map (fun i => .next feed.values[i]?) ++
              [.rest (feed.placeAt j)])) ∧
          ∀ script, (start p s).performAll script = some (feed.performAll script) ∧
            ∃ taken, taken <+: feed.values ∧
              List.Forall₂ Shows ((feed.performAll script).flatMap Answer.handed) taken) ∧
    (∀ it after : Iter ε α, it.next = .over after →
      after.exhausted = true ∧ after.rest = it.rest) ∧
    ∀ it : Iter ε α, it.exhausted = true →
      ∀ step, ∃ answer, it.perform step = some (answer, it) := by
  refine ⟨?_, ?_, fun _ _ => exhausted_of_next_eq_over, fun _ => perform_of_exhausted⟩
  -- `many0` fails only where its parser gives no answer
  · intro hp
    rcases Parser.neverFails_many0 p s with ⟨r, vs, hmany, _⟩ | ⟨_, t, ht⟩
    · exact ⟨r, vs, hmany⟩
    · exact absurd ht (hp t)
  · intro r vs hmany
    -- the chain that `many0` followed is what the iterator is fed with
    obtain ⟨steps, h, hstuck, rfl⟩ := exists_chain_of_many0 hs hmany
    refine ⟨steps, h.advances, rfl, fun feed hfeed => ?_⟩
    have hfeeds := feeds_start h.advances hstuck hfeed
    refine ⟨placeAt_zero_of_feeds hfeeds, ?_, ?_, ?_, ?_⟩
    · rw [List.length_map, hfeed.placeAt_eq (Nat.le_refl _)]
      simp
    · intro j hj
      rw [List.length_map] at hj
      rw [hfeed.placeAt_eq hj, attempt_eq h hj]
    · intro j
      rw [← feed.performAll_nexts]
      exact performAll_of_feeds hfeeds _
    · intro script
      exact ⟨performAll_of_feeds hfeeds script, feed.handed_performAll script⟩

/-- Letters, and then a digit on which they match without using anything up: the
iterator hands that match out, and `many0` does not. -/
theorem letters_one_at_a_time :
    nativeLen ['é', 'a', '1'] < Nat.pow 2 64 ∧
    many0 letters ['é', 'a', '1'] = .ok ['1'] [['é', 'a']] ∧
    (start letters ['é', 'a', '1']).performAll [.next, .remaining, .count, .next, .finish] =
      some [.next (some ['é', 'a']), .rest ['1'], .count 1, .next none, .rest ['1']] := by
  have hs : nativeLen ['é', 'a', '1'] < Nat.pow 2 64 := by decide
  have hmany : many0 letters ['é', 'a', '1'] = .ok ['1'] [['é', 'a']] := rfl
  obtain ⟨steps, hsteps, hvalues, hfeed⟩ :=
    (iteration_agrees_with_many0 letters ['é', 'a', '1'] hs).2.1 _ _ hmany
  -- the one step of the chain starts where the input starts
  obtain ⟨⟨place, value⟩, rfl, rfl⟩ := List.map_eq_singleton_iff.mp hvalues
  cases hsteps
  have hafter := @Feed.After.item Char _ letters [(['é', 'a', '1'], ['é', 'a'])] ['1'] ['1'] [] rfl
  exact ⟨hs, hmany, ((hfeed _ hafter).2.2.2.2 [.next, .remaining, .count, .next, .finish]).1⟩

end Parsing.Iter
