/-
  Parsing.Proofs.Buffer — A BUFFER OVER ANY HISTORY OF RUNS.

  Filling a buffer runs a parser once for each slot and stops at the first
  failure; what it has written by then stays, and so does what it has not
  reached.  One buffer may be filled again and again, and later runs may reach
  more slots than earlier ones, or fewer.

  What one run does to a buffer depends on the buffer only through the slots
  that it leaves alone: it writes the values of the first successes of the
  parser (`reached`) over the front, as many as there are.  So a run is a write,
  and a slot holds what the last write that covers it has put there.

  Main statements:
    * `fill_buffer` — one run, as a write over the front;
    * `count_eq_map_fill` — the reply is that of a counted repetition;
    * `bufferAfter_getElem?` — a slot after any number of runs;
    * `buffer_follows_its_history`, which puts these together.
-/
import Parsing.Parser.Repetition
import Parsing.Parser.Span

namespace Parsing.Parser

variable {ε α : Type}

/-! ## §1. Successes, one after another. -/

/-- From `s` to `r` by successes of `p`, one after another, with these values. -/
inductive Successes (p : Parser ε α) : (s : List ε) → List α → (r : List ε) → Prop where
  | here (s : List ε) : Successes p s [] s
  | step {s rest r : List ε} {value : α} {vs : List α} (hmatch : p s = .ok rest value)
      (hrest : Successes p rest vs r) : Successes p s (value :: vs) r

/-- The values of the first successes of `p`, up to `n` of them: those that a run
on `n` slots gets to write. -/
def reached (p : Parser ε α) : (n : Nat) → List ε → List α
  | 0, _ => []
  | n + 1, s =>
      match p s with
      | .ok rest value => value :: reached p n rest
      | _ => []

variable {p : Parser ε α} {s rest : List ε} {value : α}

/-- A success is reached, and then those that follow where it ends. -/
theorem reached_of_ok (h : p s = .ok rest value) (n : Nat) :
    reached p (n + 1) s = value :: reached p n rest := by
  rw [reached, h]

/-- Behind anything but a success nothing is reached. -/
theorem reached_of_not_ok (h : ∀ rest value, p s ≠ .ok rest value) (n : Nat) :
    reached p n s = [] := by
  cases n with
  | zero => rfl
  | succ n =>
    unfold reached
    split
    next rest value hok => exact absurd hok (h rest value)
    next => rfl

/-! ## §2. One run. -/

/-- A success is written to its slot, and the run goes on with the next one. -/
theorem fill_of_ok (h : p s = .ok rest value) (old : α) (slots : List α) :
    fill p (old :: slots) s = ((fill p slots rest).1, value :: (fill p slots rest).2) := by
  rw [fill, h]

/-- Anything but a success ends the run, and the slots from there on keep what they
held. -/
theorem fill_of_not_ok (h : ∀ rest value, p s ≠ .ok rest value) (old : α) (slots : List α) :
    fill p (old :: slots) s = ((p s).map fun _ => (), old :: slots) := by
  rw [fill]
  cases hp : p s with
  | ok rest value => exact absurd hp (h rest value)
  | fail error => rfl
  | unfinished => rfl

theorem ok_or_not_ok (p : Parser ε α) (s : List ε) :
    (∃ rest value, p s = .ok rest value) ∨ ∀ rest value, p s ≠ .ok rest value := by
  by_cases h : ∃ rest value, p s = .ok rest value
  · exact .inl h
  · exact .inr fun rest value hok => h ⟨rest, value, hok⟩

/-- **A run writes what it reaches over the front of the buffer**, and leaves the
other slots as they are. -/
theorem fill_buffer (p : Parser ε α) (slots : List α) (s : List ε) :
    (fill p slots s).2 =
      reached p slots.length s ++ slots.drop (reached p slots.length s).length := by
  induction slots generalizing s with
  | nil => rfl
  | cons old slots ih =>
    rw [List.length_cons]
    rcases ok_or_not_ok p s with ⟨rest, value, hok⟩ | hno
    · rw [fill_of_ok hok, reached_of_ok hok, List.length_cons, List.drop_succ_cons,
        List.cons_append, ← ih rest]
    · rw [fill_of_not_ok hno, reached_of_not_ok hno, List.length_nil, List.drop_zero,
        List.nil_append]

/-- Counting up and filling a buffer of that size go through the same runs. -/
theorem countFrom_eq_map_fill (p : Parser ε α) (slots : List α) (done : Array α) (s : List ε) :
    countFrom p slots.length done s =
      (fill p slots s).1.map fun _ => done.toList ++ reached p slots.length s := by
  induction slots generalizing done s with
  | nil =>
    show Reply.ok s done.toList = Reply.ok s (done.toList ++ [])
    rw [List.append_nil]
  | cons old slots ih =>
    -- both loops run the parser here, and differ in where they put its value
    show (p s).andThen (fun rest value => countFrom p slots.length (done.push value) rest) = _
    cases h : p s with
    | ok rest value =>
      rw [fill_of_ok h, List.length_cons, reached_of_ok h, Reply.andThen_ok, ih]
      simp
    | fail error =>
      rw [fill, h]
      rfl
    | unfinished =>
      rw [fill, h]
      rfl

/-- **The reply of a run is that of a counted repetition**, but for the values,
which are in the buffer. -/
theorem count_eq_map_fill (p : Parser ε α) (slots : List α) (s : List ε) :
    count slots.length p s = (fill p slots s).1.map fun _ => reached p slots.length s :=
  countFrom_eq_map_fill p slots _ s

/-- A run that succeeds has written every slot. -/
theorem length_reached_of_fill_ok {slots : List α} {s rest : List ε}
    (h : (fill p slots s).1 = .ok rest ()) : (reached p slots.length s).length = slots.length := by
  induction slots generalizing s with
  | nil => rfl
  | cons old slots ih =>
    rcases ok_or_not_ok p s with ⟨rest', value, hok⟩ | hno
    · rw [fill_of_ok hok] at h
      rw [List.length_cons, reached_of_ok hok, List.length_cons, ih h]
    · rw [fill_of_not_ok hno] at h
      obtain ⟨value, hok, _⟩ := Reply.map_eq_ok h
      exact absurd hok (hno rest value)

/-- A run that fails does so at the application behind those whose values it has
written. -/
theorem exists_failure_of_fill {slots : List α} {s : List ε} {error : ParseError ε}
    (h : (fill p slots s).1 = .fail error) :
    ∃ r, Successes p s (reached p slots.length s) r ∧ p r = .fail error ∧
      (reached p slots.length s).length < slots.length := by
  induction slots generalizing s with
  | nil => cases h
  | cons old slots ih =>
    cases hp : p s with
    | ok rest value =>
      -- the slot is written, and the failure is one of the other slots
      rw [fill_of_ok hp] at h
      obtain ⟨r, hrun, hfail, hlen⟩ := ih h
      rw [List.length_cons, reached_of_ok hp, List.length_cons]
      exact ⟨r, .step hp hrun, hfail, Nat.succ_lt_succ hlen⟩
    | fail error' =>
      -- the run stops at this slot, so nothing is reached
      rw [fill, hp] at h
      cases h
      rw [reached_of_not_ok (by simp [hp])]
      exact ⟨s, .here s, hp, Nat.succ_pos _⟩
    | unfinished =>
      rw [fill, hp] at h
      cases h

/-! ## §3. Any number of runs. -/

/-- The buffer after runs on several inputs, one after another. -/
def bufferAfter (p : Parser ε α) (slots : List α) (inputs : List (List ε)) : List α :=
  inputs.foldl (fun buffer s => (fill p buffer s).2) slots

theorem bufferAfter_cons (p : Parser ε α) (slots : List α) (s : List ε)
    (inputs : List (List ε)) :
    bufferAfter p slots (s :: inputs) = bufferAfter p (fill p slots s).2 inputs := rfl

/-- A buffer keeps its size through any number of runs. -/
theorem length_bufferAfter (p : Parser ε α) (slots : List α) (inputs : List (List ε)) :
    (bufferAfter p slots inputs).length = slots.length := by
  induction inputs generalizing slots with
  | nil => rfl
  | cons s inputs ih => rw [bufferAfter_cons, ih, length_fill]

/-- Each run starts from the buffer that the runs before it have left. -/
theorem fillEach_getElem? (p : Parser ε α) (slots : List α) (inputs : List (List ε)) (i : Nat) :
    (fillEach p slots inputs)[i]? =
      inputs[i]?.map fun s => fill p (bufferAfter p slots (inputs.take i)) s := by
  induction inputs generalizing slots i with
  | nil => rfl
  | cons s inputs ih =>
    unfold fillEach
    cases i with
    | zero => rfl
    | succ i =>
      show (fillEach p (fill p slots s).2 inputs)[i]? = _
      rw [ih]
      rfl

/-- The buffers of a history, from the first one on. -/
theorem buffers_getElem? (p : Parser ε α) (slots : List α) {inputs : List (List ε)} {i : Nat}
    (hi : i ≤ inputs.length) :
    (slots :: (fillEach p slots inputs).map Prod.snd)[i]? =
      some (bufferAfter p slots (inputs.take i)) := by
  cases i with
  | zero => rfl
  | succ i =>
    obtain ⟨s, hs⟩ : ∃ s, inputs[i]? = some s := ⟨inputs[i], List.getElem?_eq_getElem hi⟩
    have htake : inputs.take (i + 1) = inputs.take i ++ [s] := by
      rw [List.take_add_one, hs]
      rfl
    rw [List.getElem?_cons_succ, List.getElem?_map, fillEach_getElem?, hs, htake]
    unfold bufferAfter
    rw [List.foldl_append]
    rfl

/-- What the latest of several runs that reached a slot has written there. -/
def latest (p : Parser ε α) (n : Nat) (inputs : List (List ε)) (slot : Nat) : Option α :=
  inputs.reverse.findSome? fun s => (reached p n s)[slot]?

/-- A later run that reaches a slot outdoes an earlier one. -/
theorem latest_cons (p : Parser ε α) (n : Nat) (s : List ε) (inputs : List (List ε))
    (slot : Nat) :
    latest p n (s :: inputs) slot = (latest p n inputs slot).or (reached p n s)[slot]? := by
  unfold latest
  rw [List.reverse_cons, List.findSome?_append]
  congr 1
  cases h : (reached p n s)[slot]? <;> simp [h]

/-- One run, slot by slot. -/
theorem fill_getElem? (p : Parser ε α) {slots : List α} (s : List ε) {slot : Nat} {old : α}
    (hold : slots[slot]? = some old) :
    (fill p slots s).2[slot]? = some ((reached p slots.length s)[slot]?.getD old) := by
  rw [fill_buffer]
  by_cases hlt : slot < (reached p slots.length s).length
  · rw [List.getElem?_append_left hlt, List.getElem?_eq_getElem hlt]
    rfl
  · have hle : (reached p slots.length s).length ≤ slot := Nat.le_of_not_lt hlt
    have hsum : (reached p slots.length s).length + (slot - (reached p slots.length s).length) =
        slot := by omega
    rw [List.getElem?_append_right hle, List.getElem?_drop, hsum, hold,
      List.getElem?_eq_none hle]
    rfl

/-- **A slot holds what the latest run that reached it has written**, or what it
held at first. -/
theorem bufferAfter_getElem? (p : Parser ε α) {slots : List α} (inputs : List (List ε))
    {slot : Nat} {old : α} (hold : slots[slot]? = some old) :
    (bufferAfter p slots inputs)[slot]? =
      some ((latest p slots.length inputs slot).getD old) := by
  induction inputs generalizing slots old with
  | nil => exact hold
  | cons s inputs ih =>
    have hnext := fill_getElem? p s hold
    have hrest := ih hnext
    rw [length_fill] at hrest
    rw [bufferAfter_cons, hrest, latest_cons]
    cases latest p slots.length inputs slot <;> rfl

/-! ## §4. All together. -/

/-- **A buffer follows the history of its runs.**  Let several inputs be parsed
into one buffer, one after another, and let `before` be the buffer when the run
on `s` starts, and `after` when it ends.

The run succeeds as a counted repetition does on `s`, with the same rest, and
the buffer then holds the values of that repetition and nothing else; and it
fails as that repetition does, with the same error.  If it fails, it has written
the values of the successes in front of the failing application, and has left
the slots behind them alone.  The buffer keeps its length, and each slot holds
what the latest run that reached it has written, or what it held at first. -/
theorem buffer_follows_its_history (p : Parser ε α) (slots : List α) (inputs : List (List ε))
    (i : Nat) (s : List ε) (hs : inputs[i]? = some s) :
    ∃ before reply after,
      (slots :: (fillEach p slots inputs).map Prod.snd)[i]? = some before ∧
      (fillEach p slots inputs)[i]? = some (reply, after) ∧
      before.length = slots.length ∧ after.length = slots.length ∧
      (∀ rest, reply = .ok rest () ↔ ∃ vs, count slots.length p s = .ok rest vs) ∧
      (∀ rest vs, count slots.length p s = .ok rest vs → after = vs) ∧
      (∀ error, reply = .fail error ↔ count slots.length p s = .fail error) ∧
      (∀ error, reply = .fail error →
        ∃ r, Successes p s (reached p slots.length s) r ∧ p r = .fail error ∧
          (reached p slots.length s).length < slots.length ∧
          after = reached p slots.length s ++
            before.drop (reached p slots.length s).length) ∧
      ∀ slot old, slots[slot]? = some old →
        after[slot]? = some ((latest p slots.length (inputs.take (i + 1)) slot).getD old) := by
  have hi : i < inputs.length := (List.getElem?_eq_some_iff.mp hs).1
  have hlength := length_bufferAfter p slots (inputs.take i)
  -- the `i`-th run starts from the buffer that the earlier ones left
  have hrun : (fillEach p slots inputs)[i]? =
      some (fill p (bufferAfter p slots (inputs.take i)) s) := by
    rw [fillEach_getElem?, hs]
    rfl
  -- and what it leaves is the buffer that the next one starts from
  have hafter : (fill p (bufferAfter p slots (inputs.take i)) s).2 =
      bufferAfter p slots (inputs.take (i + 1)) := by
    have hnext := buffers_getElem? p slots (Nat.succ_le_of_lt hi)
    rw [List.getElem?_cons_succ, List.getElem?_map, hrun] at hnext
    exact Option.some.inj hnext
  -- what one run does to any buffer, here to the one of that size
  have hcount := count_eq_map_fill p (bufferAfter p slots (inputs.take i)) s
  have hwrite := fill_buffer p (bufferAfter p slots (inputs.take i)) s
  have hkeep := length_fill p (bufferAfter p slots (inputs.take i)) s
  rw [hlength] at hcount hwrite hkeep
  refine ⟨bufferAfter p slots (inputs.take i),
    (fill p (bufferAfter p slots (inputs.take i)) s).1,
    (fill p (bufferAfter p slots (inputs.take i)) s).2,
    buffers_getElem? p slots (Nat.le_of_lt hi), hrun, hlength, hkeep, ?_, ?_, ?_, ?_, ?_⟩
  · intro rest
    rw [hcount]
    cases (fill p (bufferAfter p slots (inputs.take i)) s).1 <;> simp
  · intro rest vs hok
    rw [hcount] at hok
    obtain ⟨_, hreply, rfl⟩ := Reply.map_eq_ok hok
    have hall := length_reached_of_fill_ok hreply
    rw [hlength] at hall
    rw [hwrite, hall, ← hlength, List.drop_length, List.append_nil]
  · intro error
    rw [hcount]
    cases (fill p (bufferAfter p slots (inputs.take i)) s).1 <;> simp
  · intro error hfail
    have hplace := exists_failure_of_fill hfail
    rw [hlength] at hplace
    obtain ⟨r, hrun, hr, hlt⟩ := hplace
    exact ⟨r, hrun, hr, hlt, hwrite⟩
  -- slot by slot, over the whole history so far
  · intro slot old hold
    rw [hafter]
    exact bufferAfter_getElem? p _ hold

/-- Digits into a buffer of three dashes: the first run fails at its third
application, the second one already at its second.  Behind the second run the
three slots hold what that run has written, what the one before it has written,
and what was there at first. -/
theorem digits_into_three_slots :
    [['1', '2', 'x'], ['4', 'x'], ['7', '8', '9']][1]? = some ['4', 'x'] ∧
    (fillEach (satisfy Char.isDigit) ['-', '-', '-']
        [['1', '2', 'x'], ['4', 'x'], ['7', '8', '9']])[1]? =
      some (.fail ⟨['x'], .satisfy⟩, ['4', '2', '-']) ∧
    count 3 (satisfy Char.isDigit) ['4', 'x'] = .fail ⟨['x'], .satisfy⟩ ∧
    (∃ r, Successes (satisfy Char.isDigit) ['4', 'x'] ['4'] r ∧
      satisfy Char.isDigit r = .fail ⟨['x'], .satisfy⟩) ∧
    ['4', '2', '-'][1]? =
      some ((latest (satisfy Char.isDigit) 3 [['1', '2', 'x'], ['4', 'x']] 1).getD '-') := by
  obtain ⟨before, reply, after, _, hrun, _, _, _, _, hfail, hplace, hslot⟩ :=
    buffer_follows_its_history (satisfy Char.isDigit) ['-', '-', '-']
      [['1', '2', 'x'], ['4', 'x'], ['7', '8', '9']] 1 ['4', 'x'] rfl
  have heq : some (reply, after) = some (.fail ⟨['x'], .satisfy⟩, ['4', '2', '-']) :=
    hrun.symm.trans rfl
  cases heq
  obtain ⟨r, hsuccesses, hr, _⟩ := hplace _ rfl
  exact ⟨rfl, rfl, (hfail _).mp rfl, ⟨r, hsuccesses, hr⟩, hslot 1 '-' rfl⟩

end Parsing.Parser
