/-
  Parsing.Proofs.Progress.Resumption — A REPETITION, CUT AND RESUMED.

  A repetition with an upper bound ends at the bound, at the end of the input,
  at a failure or at a match that uses nothing up.  A second repetition that
  starts where it ended makes all of these tests anew, with a bound of its own.
  Together the two are one repetition with the sum of the bounds: if the first
  one ended at its bound, the second goes on as it would have gone on itself,
  and if it ended for any other reason, the second ends at once for the same
  reason.

  Main statements:
    * `manyBounded_of_match`, `manyBounded_of_stuck` — one turn of a repetition,
      and the place where it ends;
    * `manyBounded_add` — a repetition, cut in two;
    * `manyBounded_take` — a smaller bound shows the front of the same list;
    * `many0_rest` — nothing is left to be repeated;
    * `repetitions_can_be_resumed`, which puts these together.
-/
import Parsing.Parser.Span
import Parsing.Proofs.Progress.Basic

namespace Parsing.Parser

variable {ε α : Type} [Element ε] {p : Parser ε α} {s r : List ε} {vs : List α}

open Sequence (nativeLen)

/-! ## §1. One turn, and the end. -/

/-- No match at all is allowed, and the parser is not run. -/
theorem manyBounded_zero (p : Parser ε α) (s : List ε) : manyBounded 0 0 p s = .ok s [] := rfl

/-- A match that uses something up is the first value, and the rest of the list
is found where it ended. -/
theorem manyBounded_of_match {rest : List ε} {value : α} (hmatch : p s = .ok rest value)
    (hless : nativeLen rest < nativeLen s) (n : Nat) :
    manyBounded 0 (n + 1) p s = (manyBounded 0 n p rest).map (value :: ·) := by
  obtain ⟨steps, r, h⟩ := exists_maximal p n rest
  rw [manyBounded_of_maximal h, manyBounded_of_maximal (h.step hmatch hless), List.length_cons,
    Nat.add_sub_add_right]
  cases stopAt p (n - steps.length) r <;> rfl

/-- Where no match uses anything up, the list is empty whatever the bound is, or
the parser gives no answer whenever it may be run at all. -/
theorem manyBounded_of_stuck (h : Stuck p s) :
    (∀ n, manyBounded 0 n p s = .ok s []) ∨ ∀ n, manyBounded 0 (n + 1) p s = .unfinished := by
  have hmaximal : ∀ n, Maximal p n s [] s := fun n => .here (final_iff.mpr (.inr h))
  -- without an answer the loop has none, unless it is not allowed to run the parser
  by_cases hanswer : s ≠ [] ∧ p s = .unfinished
  · right
    intro n
    have hstop : stopAt p (n + 1) s = .unfinished :=
      stopAt_eq_unfinished_iff.mpr ⟨Nat.succ_pos n, hanswer⟩
    rw [manyBounded_of_maximal (hmaximal (n + 1)), List.length_nil, Nat.sub_zero, hstop]
  · left
    intro n
    rw [manyBounded_of_maximal (hmaximal n)]
    cases hstop : stopAt p (n - ([] : List (List ε × α)).length) s with
    | unfinished => exact absurd (stopAt_eq_unfinished_iff.mp hstop).2 hanswer
    | _ => rfl

/-! ## §2. Cut in two. -/

/-- **So many matches and so many more.**  The induction is on the first bound;
where no match uses anything up, both parts end for the same reason. -/
theorem manyBounded_add (m n : Nat) (p : Parser ε α) (s : List ε) :
    manyBounded 0 (m + n) p s =
      (manyBounded 0 m p s).andThen fun rest vs => (manyBounded 0 n p rest).map (vs ++ ·) := by
  induction m generalizing s with
  | zero =>
    rw [Nat.zero_add, manyBounded_zero, Reply.andThen_ok]
    cases manyBounded 0 n p s <;> rfl
  | succ m ih =>
    rw [Nat.add_right_comm]
    -- one turn of the first loop, or the end of both
    rcases match_or_stuck p s with ⟨rest, value, hmatch, hless⟩ | hstuck
    · rw [manyBounded_of_match hmatch hless, manyBounded_of_match hmatch hless, ih]
      simp only [Reply.map, Reply.andThen_assoc, Reply.andThen_ok, List.cons_append]
    · rcases manyBounded_of_stuck hstuck with hempty | hnone
      · rw [hempty, hempty, Reply.andThen_ok, hempty]
        rfl
      · rw [hnone, hnone]
        rfl

/-! ## §3. Greater and smaller bounds. -/

/-- A smaller bound lists the first of the values that a greater one lists. -/
theorem manyBounded_take {m n : Nat} (hle : m ≤ n) (h : manyBounded 0 n p s = .ok r vs) :
    ∃ t, manyBounded 0 m p s = .ok t (vs.take m) := by
  induction m generalizing n s vs with
  | zero => exact ⟨s, rfl⟩
  | succ m ih =>
    obtain ⟨k, rfl⟩ := Nat.exists_eq_succ_of_ne_zero (Nat.ne_zero_of_lt hle)
    -- one turn of both, or the end of both
    rcases match_or_stuck p s with ⟨rest, value, hmatch, hless⟩ | hstuck
    · rw [manyBounded_of_match hmatch hless] at h
      obtain ⟨values, hrest, rfl⟩ := Reply.map_eq_ok h
      obtain ⟨t, ht⟩ := ih (Nat.le_of_succ_le_succ hle) hrest
      refine ⟨t, ?_⟩
      rw [manyBounded_of_match hmatch hless, ht, List.take_succ_cons]
      rfl
    · rcases manyBounded_of_stuck hstuck with hempty | hnone
      · rw [hempty] at h
        cases h
        exact ⟨_, hempty (m + 1)⟩
      · rw [hnone] at h
        cases h

/-- A list is as long as its bound allows, or ends where no match uses anything up. -/
theorem length_of_manyBounded {n : Nat} (h : manyBounded 0 n p s = .ok r vs) :
    vs.length ≤ n ∧ (vs.length = n ∨ Stuck p r) := by
  obtain ⟨steps, hmaximal, rfl⟩ := maximal_of_manyBounded h
  rw [List.length_map]
  exact ⟨hmaximal.within, final_iff.mp hmaximal.final⟩

/-! ## §4. Repeating what has been repeated. -/

/-- Where a repetition without a bound has ended, another one ends at once. -/
theorem many0_rest (hs : nativeLen s < Nat.pow 2 64) (h : many0 p s = .ok r vs) :
    many0 p r = .ok r [] := by
  obtain ⟨steps, r', hmaximal⟩ := exists_maximal p maxCount s
  obtain ⟨rfl, _, hanswer⟩ := (many0_eq_ok_iff hmaximal).mp h
  have hstuck : Stuck p r := hmaximal.stuck (le_maxCount hs)
  refine (many0_eq_ok_iff (.here (final_iff.mpr (.inr hstuck)))).mpr ⟨rfl, rfl, ?_⟩
  rintro ⟨_, hne, hnone⟩
  -- each match has used something up, so that they are fewer than the limit while something is left
  have hlen := hmaximal.advances.length_add_nativeLen_le
  have hpos : nativeLen r ≠ 0 := fun hzero => hne (Sequence.nativeLen_eq_zero_iff.mp hzero)
  have hmax := le_maxCount hs
  exact hanswer ⟨by omega, hne, hnone⟩

/-- **A repetition can be cut anywhere and resumed.**  With the sum of two bounds
it comes to what the first bound gives, followed by what the second one gives
where the first left off, whatever made either of them end.  It lists no more
values than its bound, and fewer only if it ends where no match uses anything up.
A greater bound only makes the list longer: with a smaller one, the list is the
front of it.  Where a repetition without a bound has ended, there is nothing left
to repeat. -/
theorem repetitions_can_be_resumed (p : Parser ε α) (s : List ε)
    (hs : nativeLen s < Nat.pow 2 64) :
    (∀ m n, manyBounded 0 (m + n) p s =
      (manyBounded 0 m p s).andThen fun rest vs => (manyBounded 0 n p rest).map (vs ++ ·)) ∧
    (∀ n r vs, manyBounded 0 n p s = .ok r vs →
      vs.length ≤ n ∧ (vs.length = n ∨ Stuck p r)) ∧
    (∀ m n r vs, m ≤ n → manyBounded 0 n p s = .ok r vs →
      ∃ t, manyBounded 0 m p s = .ok t (vs.take m)) ∧
    ∀ r vs, many0 p s = .ok r vs → many0 p r = .ok r [] :=
  ⟨fun m n => manyBounded_add m n p s, fun _ _ _ => length_of_manyBounded,
    fun _ _ _ _ => manyBounded_take, fun _ _ => many0_rest hs⟩

/-- A letter that need not be there: the first part ends at its bound and the
second at a match that uses nothing up, in front of a character of two bytes. -/
theorem optional_letters_are_resumed :
    nativeLen ['a', 'a', 'é', 'a'] < Nat.pow 2 64 ∧
    manyBounded 0 1 (optional (char 'a')) ['a', 'a', 'é', 'a'] =
      .ok ['a', 'é', 'a'] [some 'a'] ∧
    manyBounded 0 5 (optional (char 'a')) ['a', 'é', 'a'] = .ok ['é', 'a'] [some 'a'] ∧
    manyBounded 0 (1 + 5) (optional (char 'a')) ['a', 'a', 'é', 'a'] =
      .ok ['é', 'a'] [some 'a', some 'a'] ∧
    many0 (optional (char 'a')) ['é', 'a'] = .ok ['é', 'a'] [] := by
  have hs : nativeLen ['a', 'a', 'é', 'a'] < Nat.pow 2 64 := by decide
  obtain ⟨hadd, _, _, hrest⟩ := repetitions_can_be_resumed (optional (char 'a')) _ hs
  exact ⟨hs, rfl, rfl, hadd 1 5, hrest ['é', 'a'] [some 'a', some 'a'] rfl⟩

end Parsing.Parser
