/-
  Parsing.Proofs.Prefixes — ONE RULE FOR ALL THAT STANDS BEHIND A LENGTH.

  The parsers that read a length first differ only in what they do with it: take
  so many elements, run a parser so many times, or run it inside so many
  elements.  Before that they follow one rule.  A counter that fails decides the
  failure; a value that is no length is an error in front of it, however much
  the counter has used up; and a length is handed on, with what is left.

  So there are three places at which they can fail, in this order: wherever the
  counter does, in front of the length, and behind it, where what they do with
  the length fails.

  Main statements:
    * `asLength?_nat`, `asLength?_int` — which numbers are lengths;
    * `behindLength_flatMap` — the rule, whatever is done with the length;
    * `BehindLength.eq_flatMap` — a counter that yields lengths only;
    * `length_prefixes_follow_one_rule`, which puts these together.
-/
import Parsing.Proofs.Nesting

namespace Parsing

/-! ## §1. Which numbers are lengths. -/

/-- A natural number is a length if a word of 64 bits can hold it. -/
theorem asLength?_nat (n : Nat) :
    AsLength.asLength? n = if n < Nat.pow 2 64 then some n else none := by
  show (if n ≤ Parser.maxCount then some n else none) = _
  have hiff : n ≤ Parser.maxCount ↔ n < Nat.pow 2 64 := Nat.le_sub_one_iff_lt (Nat.two_pow_pos 64)
  simp only [hiff]

/-- Of the integers also the negative ones are none. -/
theorem asLength?_int (n : Int) :
    AsLength.asLength? n = if 0 ≤ n ∧ n < (Nat.pow 2 64 : Nat) then some n.toNat else none := by
  show (if 0 ≤ n then AsLength.asLength? n.toNat else none) = _
  rw [asLength?_nat]
  by_cases h : 0 ≤ n
  · have hiff : n.toNat < Nat.pow 2 64 ↔ n < (Nat.pow 2 64 : Nat) := Int.toNat_lt h
    simp only [h, hiff, if_true, true_and]
  · simp only [h, if_false, false_and]

namespace Parser

variable {ε α β γ : Type} [AsLength α] {counter : Parser ε α} {s : List ε}

/-! ## §2. The rule. -/

/-- On `s`, the parser `q` is `body` behind a length that `counter` reads. -/
structure BehindLength (counter : Parser ε α) (body : Nat → Parser ε γ) (q : Parser ε γ)
    (s : List ε) : Prop where
  of_fail : ∀ {error}, counter s = .fail error → q s = .fail error
  of_unfinished : counter s = .unfinished → q s = .unfinished
  /-- The value is no length: an error in front of it. -/
  of_none : ∀ {rest value}, counter s = .ok rest value → AsLength.asLength? value = none →
    q s = .fail ⟨s, .length⟩
  of_some : ∀ {rest value n}, counter s = .ok rest value →
    AsLength.asLength? value = some n → q s = body n rest

/-- The rule holds of any parser that first reads a length and then runs what is made of
it. -/
theorem behindLength_flatMap (counter : Parser ε α) (body : Nat → Parser ε γ) (s : List ε) :
    BehindLength counter body (flatMap (readLength counter) body) s where
  of_fail h := by rw [flatMap, readLength, h, Reply.andThen_fail, Reply.andThen_fail]
  of_unfinished h := by
    rw [flatMap, readLength, h, Reply.andThen_unfinished, Reply.andThen_unfinished]
  of_none h hnone := by
    rw [flatMap, readLength, h, Reply.andThen_ok, hnone, Reply.convert_none, Reply.andThen_fail]
  of_some h hsome := by
    rw [flatMap, readLength, h, Reply.andThen_ok, hsome, Reply.convert_some, Reply.andThen_ok]

/-- Behind a counter all of whose values are lengths, the rule is to go on with
the length. -/
theorem BehindLength.eq_flatMap {body : Nat → Parser ε γ} {q : Parser ε γ}
    (h : BehindLength counter body q s) {toLength : α → Nat}
    (hlength : ∀ rest value, counter s = .ok rest value →
      AsLength.asLength? value = some (toLength value)) :
    q s = flatMap counter (fun value => body (toLength value)) s := by
  rw [flatMap]
  cases hcounter : counter s with
  | ok rest value => exact h.of_some hcounter (hlength rest value hcounter)
  | fail error => exact h.of_fail hcounter
  | unfinished => exact h.of_unfinished hcounter

/-! ## §3. Inside so many elements. -/

variable [Element ε]

/-- Runs `p` on the first `n` elements, if there are that many, and leaves what
follows them, whatever `p` leaves.  Its errors are as far into the input as they
were into these elements. -/
def inside (p : Parser ε β) (n : Nat) : Parser ε β := fun s =>
  if n ≤ s.length then
    ((p (s.take n)).mapError (·.rebase (s.take n) s)).andThen fun _ value => .ok (s.drop n) value
  else .fail ⟨s, .eof⟩

/-- A value behind its length is of that form. -/
theorem lengthValue_eq (counter : Parser ε α) (p : Parser ε β) :
    lengthValue counter p = flatMap (readLength counter) (inside p) := by
  funext s
  rw [lengthValue, flatMap]
  congr 1
  funext rest n
  rw [take_apply, inside]
  split <;> rfl

/-- If so many elements are not there, the parser inside is not run. -/
theorem inside_of_lt (p : Parser ε β) {n : Nat} {s : List ε} (h : s.length < n) :
    inside p n s = .fail ⟨s, .eof⟩ := by
  rw [inside, if_neg (Nat.not_le_of_lt h)]

/-- On a block that is there, the parser sees the block alone, and what follows the
block is left. -/
theorem inside_append (p : Parser ε β) (block after : List ε) :
    inside p block.length (block ++ after) =
      ((p block).mapError (·.rebase block (block ++ after))).andThen fun _ value =>
        .ok after value := by
  have hle : block.length ≤ (block ++ after).length := by simp
  rw [inside, if_pos hle, List.take_left, List.drop_left]

/-- What the parser leaves of its block is passed over. -/
theorem inside_append_ok {p : Parser ε β} {block left : List ε} {value : β}
    (h : p block = .ok left value) (after : List ε) :
    inside p block.length (block ++ after) = .ok after value := by
  rw [inside_append, h, Reply.mapError_ok, Reply.andThen_ok]

/-- Its error is carried over to the place in the whole input. -/
theorem inside_append_fail {p : Parser ε β} {block e : List ε} {kind : Kind}
    (h : p block = .fail ⟨e, kind⟩) (he : e <:+ block) (after : List ε) :
    inside p block.length (block ++ after) = .fail ⟨e ++ after, kind⟩ := by
  rw [inside_append, h, Reply.mapError_fail, ParseError.rebase_append he, Reply.andThen_fail]

/-! ## §4. All together. -/

/-- **The parsers behind a length follow one rule.**  A number is a length if it
is below `2 ^ 64` and not negative.  If the counter fails, so do all of them,
with its error; if its value is no length, they fail in front of it; and if it
is one, each does with it what it is for: takes so many elements, runs a parser
so many times, or runs it inside so many elements.

Inside means that too few elements are an end of input behind the length, that a
success leaves what follows them, whatever it left of them, and that a failure
is at its own place, with that behind it.

Where all values of the counter are lengths, each of them is the counter and
then the parser made from its value. -/
theorem length_prefixes_follow_one_rule :
    (∀ n : Nat, AsLength.asLength? n = if n < Nat.pow 2 64 then some n else none) ∧
    (∀ n : Int, AsLength.asLength? n =
      if 0 ≤ n ∧ n < (Nat.pow 2 64 : Nat) then some n.toNat else none) ∧
    ∀ (α β : Type) [AsLength α] (counter : Parser ε α) (p : Parser ε β) (s : List ε),
      BehindLength counter take (lengthData counter) s ∧
      BehindLength counter (fun n => count n p) (lengthCount counter p) s ∧
      BehindLength counter (inside p) (lengthValue counter p) s ∧
      (∀ n a, a.length < n → inside p n a = .fail ⟨a, .eof⟩) ∧
      (∀ block after left value, p block = .ok left value →
        inside p block.length (block ++ after) = .ok after value) ∧
      (∀ block after e kind, p block = .fail ⟨e, kind⟩ → e <:+ block →
        inside p block.length (block ++ after) = .fail ⟨e ++ after, kind⟩) ∧
      ∀ toLength : α → Nat,
        (∀ rest value, counter s = .ok rest value →
          AsLength.asLength? value = some (toLength value)) →
        lengthData counter s = flatMap counter (fun value => take (toLength value)) s ∧
        lengthCount counter p s = flatMap counter (fun value => count (toLength value) p) s ∧
        lengthValue counter p s = flatMap counter (fun value => inside p (toLength value)) s := by
  refine ⟨asLength?_nat, asLength?_int, fun α β _ counter p s => ?_⟩
  -- the rule for each of the three, of which the last is first brought into its form
  have hdata : BehindLength counter take (lengthData counter) s := behindLength_flatMap counter _ s
  have hcount : BehindLength counter (fun n => count n p) (lengthCount counter p) s :=
    behindLength_flatMap counter _ s
  have hvalue : BehindLength counter (inside p) (lengthValue counter p) s := by
    rw [lengthValue_eq]
    exact behindLength_flatMap counter _ s
  refine ⟨hdata, hcount, hvalue, fun n a => inside_of_lt p, ?_, ?_, ?_⟩
  · intro block after left value hp
    exact inside_append_ok hp after
  · intro block after e kind hp he
    exact inside_append_fail hp he after
  -- where every value is a length, the rule has no failure of its own left
  · intro toLength hlength
    exact ⟨hdata.eq_flatMap hlength, hcount.eq_flatMap hlength, hvalue.eq_flatMap hlength⟩

/-- A length as one digit; a character in front of the digits is a negative number. -/
def digitLength : Parser Char Int :=
  map (fun c => (c.toNat : Int) - 48) (satisfy fun _ => true)

/-- Lengths of one digit in front of letters of one to three bytes: no digit, a
negative one, a block with something left in it, one that is too short, and one
with an error in it. -/
theorem digits_are_lengths :
    lengthData digitLength [] = .fail ⟨[], .satisfy⟩ ∧
    lengthCount digitLength (char 'a') ['-', 'a'] = .fail ⟨['-', 'a'], .length⟩ ∧
    lengthValue digitLength (char 'é') ['2', 'é', '日', 'x'] = .ok ['x'] 'é' ∧
    lengthValue digitLength (char 'é') ['3', 'é', '日'] = .fail ⟨['é', '日'], .eof⟩ ∧
    lengthValue digitLength (char 'é') ['1', '日', 'x'] = .fail ⟨['日', 'x'], .char⟩ ∧
    lengthCount digitLength (char 'é') ['2', 'é', 'é', 'x'] =
      flatMap digitLength (fun n => count n.toNat (char 'é')) ['2', 'é', 'é', 'x'] := by
  have h := (@length_prefixes_follow_one_rule Char _).2.2 Int Char digitLength
  refine ⟨?_, ?_, ?_, ?_, ?_, ?_⟩
  · exact (h (char 'é') []).1.of_fail rfl
  · exact (h (char 'a') ['-', 'a']).2.1.of_none rfl rfl
  · obtain ⟨_, _, hvalue, _, hok, _⟩ := h (char 'é') ['2', 'é', '日', 'x']
    rw [hvalue.of_some rfl rfl]
    exact hok ['é', '日'] ['x'] ['日'] 'é' rfl
  · obtain ⟨_, _, hvalue, hshort, _⟩ := h (char 'é') ['3', 'é', '日']
    rw [hvalue.of_some rfl rfl]
    exact hshort 3 ['é', '日'] (by decide)
  · obtain ⟨_, _, hvalue, _, _, hfail, _⟩ := h (char 'é') ['1', '日', 'x']
    rw [hvalue.of_some rfl rfl]
    exact hfail ['日'] ['x'] ['日'] .char rfl (List.suffix_refl _)
  · obtain ⟨_, _, _, _, _, _, hflat⟩ := h (char 'é') ['2', 'é', 'é', 'x']
    refine (hflat Int.toNat ?_).2.1
    intro rest value hcounter
    cases hcounter
    rfl

end Parser

end Parsing
