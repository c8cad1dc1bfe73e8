/-
  Parsing.Proofs.Progress.Counted — SO MANY TIMES, WITH AND WITHOUT TESTS.

  `count` runs a parser a fixed number of times and tests nothing in between.
  It is a list of copies of the parser, run in turn, and so it can be cut
  anywhere.

  `manyBounded` with that number for both of its bounds tests before each run
  whether anything is left, and after it whether something was used up.  The
  second test is the stricter one, as what is empty cannot get shorter.  So the
  two agree on a success of `count` exactly if each of its applications leaves
  less than it was run on: such a success is a chain of matches, and what
  `manyBounded` follows is a chain.

  Main statements:
    * `count_eq_multiple`, `count_add` — so many copies, cut in two;
    * `exists_advances_iff` — applications that form a chain;
    * `manyBounded_eq_ok_iff` — a chain of exactly so many matches;
    * `count_and_its_relatives`, which puts these together.
-/
import Parsing.Parser.Span
import Parsing.Proofs.InTurn
import Parsing.Proofs.Progress.Agreement

namespace Parsing.Parser

variable {ε α : Type}

open Sequence (nativeLen)

/-! ## §1. A number of copies. -/

/-- The counted loop runs a list of copies, its array read as what is done so far. -/
theorem countFrom_eq_multipleFrom (p : Parser ε α) (n : Nat) (done : Array α) :
    countFrom p n done = multipleFrom done.toList.reverse (List.replicate n p) := by
  induction n generalizing done with
  | zero =>
    funext s
    show Reply.ok s done.toList = .ok s done.toList.reverse.reverse
    rw [List.reverse_reverse]
  | succ n ih =>
    funext s
    show (p s).andThen (fun rest value => countFrom p n (done.push value) rest) =
      (p s).andThen fun rest value =>
        multipleFrom (value :: done.toList.reverse) (List.replicate n p) rest
    simp only [ih, Array.toList_push, List.reverse_append, List.reverse_singleton,
      List.singleton_append]

/-- So many times is a list of so many copies. -/
theorem count_eq_multiple (n : Nat) (p : Parser ε α) :
    count n p = multiple (List.replicate n p) :=
  countFrom_eq_multipleFrom p n _

/-- One application, and then one fewer. -/
theorem count_succ (n : Nat) (p : Parser ε α) (s : List ε) :
    count (n + 1) p s =
      (p s).andThen fun rest value => (count n p rest).map (value :: ·) := by
  rw [count_eq_multiple, count_eq_multiple, List.replicate_succ, multiple_cons]

/-- So many applications and then so many more. The error of a later one is passed on as
it stands. -/
theorem count_add (m n : Nat) (p : Parser ε α) (s : List ε) :
    count (m + n) p s =
      (count m p s).andThen fun rest vs => (count n p rest).map (vs ++ ·) := by
  rw [count_eq_multiple, count_eq_multiple, count_eq_multiple, ← List.replicate_append_replicate,
    multiple_append]

variable {p : Parser ε α} {n : Nat} {s r : List ε} {vs : List α}

/-- A success has exactly so many values. -/
theorem length_of_count_eq_ok (h : count n p s = .ok r vs) : vs.length = n := by
  rw [count_eq_multiple] at h
  rw [(multiple_eq_ok_iff.mp h).length_eq, List.length_replicate]

/-- The first value comes from the first application. -/
theorem count_succ_eq_ok_iff {value : α} :
    count (n + 1) p s = .ok r (value :: vs) ↔
      ∃ rest, p s = .ok rest value ∧ count n p rest = .ok r vs := by
  rw [count_eq_multiple, List.replicate_succ, multiple_eq_ok_iff]
  simp only [count_eq_multiple, multiple_eq_ok_iff]
  constructor
  · rintro (_ | ⟨hmatch, hrest⟩)
    exact ⟨_, hmatch, hrest⟩
  · rintro ⟨rest, hmatch, hrest⟩
    exact .next hmatch hrest

/-! ## §2. Applications that use something up. -/

variable [Element ε]

/-- Of the first `n` applications of `p`, one after another from `s`, each one
that succeeds leaves less than it was run on. -/
def EachShortens (p : Parser ε α) (n : Nat) (s : List ε) : Prop :=
  ∀ i < n, ∀ place before rest value,
    count i p s = .ok place before → p place = .ok rest value → nativeLen rest < nativeLen place

theorem eachShortens_zero (p : Parser ε α) (s : List ε) : EachShortens p 0 s :=
  fun i hi => absurd hi (Nat.not_lt_zero i)

/-- The first application, and the others from where it leads. -/
theorem eachShortens_succ_iff {rest : List ε} {value : α} (hmatch : p s = .ok rest value) :
    EachShortens p (n + 1) s ↔ nativeLen rest < nativeLen s ∧ EachShortens p n rest := by
  constructor
  · intro h
    refine ⟨h 0 (Nat.succ_pos n) s [] rest value rfl hmatch, ?_⟩
    intro i hi place before rest' value' hcount hplace
    have hnext := count_succ_eq_ok_iff.mpr ⟨rest, hmatch, hcount⟩
    exact h (i + 1) (Nat.succ_lt_succ hi) place _ rest' value' hnext hplace
  · rintro ⟨hless, h⟩ i hi place before rest' value' hcount hplace
    -- the first application is known, and the `i`-th one after it is the next one of the rest
    cases i with
    | zero =>
      cases hcount
      rw [hmatch] at hplace
      cases hplace
      exact hless
    | succ i =>
      rw [count_succ, hmatch, Reply.andThen_ok] at hcount
      obtain ⟨before', hcount', _⟩ := Reply.map_eq_ok hcount
      exact h i (Nat.lt_of_succ_lt_succ hi) place before' rest' value' hcount' hplace

/-- **Applications that use something up form a chain of matches.** -/
theorem exists_advances_iff :
    (∃ steps, Advances p s steps r ∧ steps.map Prod.snd = vs) ↔
      count vs.length p s = .ok r vs ∧ EachShortens p vs.length s := by
  -- on the values, of which a chain and a counted run have one for each application
  induction vs generalizing s with
  | nil =>
    constructor
    · rintro ⟨steps, hsteps, hnil⟩
      cases hsteps with
      | here => exact ⟨rfl, eachShortens_zero p _⟩
      | step => cases hnil
    · rintro ⟨hok, _⟩
      cases hok
      exact ⟨[], .here _, rfl⟩
  | cons value vs ih =>
    rw [List.length_cons, count_succ_eq_ok_iff]
    constructor
    · rintro ⟨steps, hsteps, hvalues⟩
      cases hsteps with
      | here => cases hvalues
      | step hmatch hless hrest =>
        cases hvalues
        obtain ⟨hcount, hshort⟩ := ih.mp ⟨_, hrest, rfl⟩
        exact ⟨⟨_, hmatch, hcount⟩, (eachShortens_succ_iff hmatch).mpr ⟨hless, hshort⟩⟩
    · rintro ⟨⟨rest, hmatch, hcount⟩, h⟩
      obtain ⟨hless, hshort⟩ := (eachShortens_succ_iff hmatch).mp h
      obtain ⟨steps, hrest, rfl⟩ := ih.mpr ⟨hcount, hshort⟩
      exact ⟨(s, value) :: steps, .step hmatch hless hrest, rfl⟩

/-! ## §3. A repetition with one bound. -/

/-- With a number for both bounds, a repetition succeeds on a chain of exactly
so many matches. -/
theorem manyBounded_eq_ok_iff :
    manyBounded n n p s = .ok r vs ↔
      vs.length = n ∧ ∃ steps, Advances p s steps r ∧ steps.map Prod.snd = vs := by
  constructor
  · intro hok
    rw [manyBounded_eq] at hok
    obtain ⟨values, hall, hlower, rfl⟩ := Reply.atLeast_eq_ok hok
    obtain ⟨steps, h, rfl⟩ := maximal_of_manyBounded hall
    rw [List.length_map] at hlower
    -- the chain has at most `n` matches, and the list is long enough for as many
    refine ⟨?_, steps, h.advances, rfl⟩
    rw [id, List.length_map]
    exact Nat.le_antisymm h.within hlower
  · rintro ⟨rfl, steps, hsteps, rfl⟩
    rw [List.length_map]
    -- a chain of as many matches as are allowed is maximal
    have h : Maximal p steps.length s steps r := ⟨hsteps, Nat.le_refl _, .inl rfl⟩
    rw [manyBounded_eq, manyBounded_of_maximal h, Nat.sub_self]
    show (Reply.ok r (steps.map Prod.snd)).atLeast _ _ _ _ = _
    rw [Reply.atLeast, Reply.andThen_ok, List.length_map, if_pos (Nat.le_refl _)]
    rfl

/-- What needs no input is counted as often as one likes; a repetition is over
where the input is. -/
example : count 2 (optional (char 'a')) ['a'] = .ok [] [some 'a', none] ∧
    manyBounded 2 2 (optional (char 'a')) ['a'] = .fail ⟨['a'], .manyBounded⟩ := ⟨rfl, rfl⟩

/-! ## §4. All together. -/

/-- **So many times, said in other ways.**  So many times is a list of so many
copies, with the same values and the same errors.  So many times and so many
more is the one and then the other, with the values of both or the failure of
the first that fails.  And a repetition with the number for both of its bounds
succeeds exactly where `count` does and each of its applications uses something
up, with the same rest and the same values. -/
theorem count_and_its_relatives (p : Parser ε α) (m n : Nat) (s : List ε) :
    count n p s = multiple (List.replicate n p) s ∧
    count (m + n) p s =
      (count m p s).andThen (fun rest vs => (count n p rest).map (vs ++ ·)) ∧
    ∀ (r : List ε) (vs : List α),
      manyBounded n n p s = .ok r vs ↔ count n p s = .ok r vs ∧ EachShortens p n s := by
  refine ⟨congrFun (count_eq_multiple n p) s, count_add m n p s, fun r vs => ?_⟩
  rw [manyBounded_eq_ok_iff, exists_advances_iff]
  constructor
  · rintro ⟨rfl, h⟩
    exact h
  · rintro ⟨hcount, hshort⟩
    obtain rfl := length_of_count_eq_ok hcount
    exact ⟨rfl, hcount, hshort⟩

end Parsing.Parser
