/-
  Parsing.Proofs.Frames — A STREAM OF FRAMES IS READ BACK.

  A *frame* is a payload behind its length.  How lengths are written is up to
  the client: any counter will do that reads them back and stops where they
  end, as long as no length is written as nothing.  Then frames one after
  another are a chain of matches of `lengthData`, whatever the payloads are: an
  empty payload makes progress because its length does, and a length counts
  elements while progress counts native units.

  A last frame that is cut off is no match, and nothing of it is used up.

  Main statements:
    * `lengthData_frame`, `lengthData_cutOff` — one frame, and one cut off;
    * `LengthCode.exists_chain` — a stream is a chain of matches;
    * `frames_are_read_back` — what `many0` and an iterator make of it.
-/
import Mathlib.Tactic.Ring
import Parsing.Parser.Framing
import Parsing.Proofs.Progress.Iteration
import Parsing.Proofs.Span
import Parsing.Value

namespace Parsing.Parser

variable {ε α : Type}

/-! ## §1. Lengths that are written down. -/

/-- How the lengths that a counter reads are written. -/
structure LengthCode [AsLength α] (counter : Parser ε α) where
  /-- Which lengths can be written. -/
  Writable : Nat → Prop
  write : Nat → List ε
  write_ne_nil : ∀ {n}, Writable n → write n ≠ []
  /-- The counter reads the length and nothing behind it. -/
  read_write : ∀ {n}, Writable n → ∀ t,
    ∃ value, counter (write n ++ t) = .ok t value ∧ AsLength.asLength? value = some n

namespace LengthCode

variable [AsLength α] {counter : Parser ε α} (code : LengthCode counter)

/-- A payload behind its length. -/
def frame (x : List ε) : List ε := code.write x.length ++ x

/-- One frame after another. -/
def stream (xs : List (List ε)) : List ε := xs.flatMap code.frame

theorem stream_cons (x : List ε) (xs : List (List ε)) (t : List ε) :
    code.stream (x :: xs) ++ t = code.write x.length ++ (x ++ (code.stream xs ++ t)) := by
  simp [stream, frame]

/-- A length that was written is read back, whatever follows it. -/
theorem readLength_write {n : Nat} (h : code.Writable n) (t : List ε) :
    readLength counter (code.write n ++ t) = .ok t n := by
  obtain ⟨value, hcounter, hlength⟩ := code.read_write h t
  rw [readLength, hcounter, Reply.andThen_ok, hlength, Reply.convert_some]

end LengthCode

/-! ## §2. One frame. -/

variable [Element ε] [AsLength α] {counter : Parser ε α} (code : LengthCode counter)

open Sequence (nativeLen)

/-- A frame is read back as its payload, and exactly the frame is used up. -/
theorem lengthData_frame {x : List ε} (h : code.Writable x.length) (t : List ε) :
    lengthData counter (code.write x.length ++ (x ++ t)) = .ok t x := by
  rw [lengthData, flatMap, code.readLength_write h, Reply.andThen_ok, take_append]

/-- A frame without all of its payload fails behind its length. -/
theorem lengthData_cutOff {n : Nat} (h : code.Writable n) {y : List ε} (hy : y.length < n) :
    lengthData counter (code.write n ++ y) = .fail ⟨y, .eof⟩ := by
  rw [lengthData, flatMap, code.readLength_write h, Reply.andThen_ok, take_apply,
    if_neg (Nat.not_le_of_lt hy)]

/-- At the end of the input a frame fails as its length does. -/
theorem lengthData_nil {error : ParseError ε} (h : counter [] = .fail error) :
    lengthData counter [] = .fail error := by
  rw [lengthData, flatMap, readLength, h, Reply.andThen_fail, Reply.andThen_fail]

/-- The length alone makes a frame use something up. -/
theorem nativeLen_lt_frame {n : Nat} (h : code.Writable n) (x t : List ε) :
    nativeLen t < nativeLen (code.write n ++ (x ++ t)) := by
  have hpos : nativeLen (code.write n) ≠ 0 := fun h0 =>
    code.write_ne_nil h (Sequence.nativeLen_eq_zero_iff.mp h0)
  rw [Sequence.nativeLen_append, Sequence.nativeLen_append]
  omega

/-! ## §3. A stream of frames. -/

/-- **A stream is a chain of matches**, one for each payload, at the places where
the frames begin. -/
theorem LengthCode.exists_chain {xs : List (List ε)} (h : ∀ x ∈ xs, code.Writable x.length)
    (t : List ε) :
    ∃ steps, Advances (lengthData counter) (code.stream xs ++ t) steps t ∧
      steps.map Prod.snd = xs ∧
      ∀ j, (steps.map Prod.fst)[j]?.getD t = code.stream (xs.drop j) ++ t := by
  induction xs with
  | nil => exact ⟨[], .here t, rfl, fun j => by simp [stream]⟩
  | cons x xs ih =>
    have hx := h x List.mem_cons_self
    obtain ⟨steps, hsteps, rfl, hplaces⟩ := ih fun y hy => h y (List.mem_cons_of_mem _ hy)
    refine ⟨(code.stream (x :: steps.map Prod.snd) ++ t, x) :: steps, ?_, rfl, ?_⟩
    · refine .step ?_ ?_ hsteps
      · rw [code.stream_cons, lengthData_frame code hx]
      · rw [code.stream_cons]
        exact nativeLen_lt_frame code hx _ _
    · intro j
      cases j with
      | zero => rfl
      | succ j => exact hplaces j

/-- `many0` reads the whole stream, and stops at what follows it if that is
nothing or no frame. -/
theorem many0_stream {xs : List (List ε)} (h : ∀ x ∈ xs, code.Writable x.length)
    (hcount : xs.length ≤ maxCount) {t : List ε}
    (ht : t = [] ∨ ∃ error, lengthData counter t = .fail error) :
    many0 (lengthData counter) (code.stream xs ++ t) = .ok t xs := by
  obtain ⟨steps, hsteps, hvalues, _⟩ := code.exists_chain h t
  have hmaximal : Maximal (lengthData counter) maxCount (code.stream xs ++ t) steps t := by
    refine ⟨hsteps, ?_, .inr (ht.imp id .inl)⟩
    rwa [← hvalues, List.length_map] at hcount
  refine (many0_eq_ok_iff hmaximal).mpr ⟨rfl, hvalues.symm, ?_⟩
  rintro ⟨_, hne, hunfinished⟩
  rcases ht with rfl | ⟨error, hfail⟩
  · exact hne rfl
  · rw [hfail] at hunfinished
    cases hunfinished

/-- An iterator hands out the payloads one by one, stands at the frame of the
next one, and is over at what follows the stream if that is no frame. -/
theorem iteration_of_stream {xs : List (List ε)} (h : ∀ x ∈ xs, code.Writable x.length)
    {t : List ε} {error : ParseError ε} (ht : lengthData counter t = .fail error) :
    (Iter.start (lengthData counter) (code.stream xs ++ t)).collect =
        some (xs, ⟨lengthData counter, t, true⟩) ∧
      ∀ j, (Iter.start (lengthData counter) (code.stream xs ++ t)).performAll
          (List.replicate j .next ++ [.remaining]) =
        some ((List.range j).map (fun i => .next xs[i]?) ++
          [.rest (code.stream (xs.drop j) ++ t)]) := by
  obtain ⟨steps, hsteps, hvalues, hplaces⟩ := code.exists_chain h t
  have hfeeds := Iter.feeds_of_advances hsteps (.failure ht)
  rw [List.append_nil] at hfeeds
  subst hvalues
  refine ⟨Iter.drain_of_feeds hfeeds [], fun j => ?_⟩
  rw [← hplaces]
  exact (Iter.performAll_of_feeds hfeeds _).trans (congrArg some (Iter.Feed.performAll_nexts _ j))

/-- **A stream of frames is read back.**  Whatever the payloads and however the
lengths are written, `many0` yields the payloads and leaves nothing, and an
iterator hands out the same values, one for each time it is asked, if the
counter fails where nothing is left.  Behind a stream, a frame that is cut off
changes none of the values and is left whole, with its length.  No more values
than a word can count are asked for, which is as many as there can be. -/
theorem frames_are_read_back {xs : List (List ε)} (hxs : ∀ x ∈ xs, code.Writable x.length)
    (hcount : xs.length ≤ maxCount) :
    many0 (lengthData counter) (code.stream xs) = .ok [] xs ∧
    ((∃ error, counter [] = .fail error) →
      (Iter.start (lengthData counter) (code.stream xs)).collect =
          some (xs, ⟨lengthData counter, [], true⟩) ∧
        ∀ j, (Iter.start (lengthData counter) (code.stream xs)).performAll
            (List.replicate j .next ++ [.remaining]) =
          some ((List.range j).map (fun i => .next xs[i]?) ++
            [.rest (code.stream (xs.drop j))])) ∧
    ∀ n y, code.Writable n → y.length < n →
      many0 (lengthData counter) (code.stream xs ++ (code.write n ++ y)) =
          .ok (code.write n ++ y) xs ∧
        (Iter.start (lengthData counter) (code.stream xs ++ (code.write n ++ y))).collect =
          some (xs, ⟨lengthData counter, code.write n ++ y, true⟩) := by
  refine ⟨?_, ?_, ?_⟩
  · have hmany := many0_stream code hxs hcount (.inl rfl)
    rwa [List.append_nil] at hmany
  · rintro ⟨error, hnil⟩
    have hiter := iteration_of_stream code hxs (lengthData_nil hnil)
    simpa only [List.append_nil] using hiter
  -- the frame that is cut off fails, so both stop in front of it
  · intro n y hn hy
    have hcut := lengthData_cutOff code hn hy
    exact ⟨many0_stream code hxs hcount (.inr ⟨_, hcut⟩), (iteration_of_stream code hxs hcut).1⟩

/-! ## §4. Two ways to write a length. -/

/-- Every number up to `maxCount` is taken as a length. -/
theorem asLength?_of_le {n : Nat} (h : n ≤ maxCount) : AsLength.asLength? n = some n := if_pos h

namespace LengthCode

/-- A length as one element, the one with that code. -/
def oneElement (ofLength : Nat → ε) (bound : Nat) (hbound : bound ≤ maxCount)
    (hcode : ∀ n < bound, Element.code (ofLength n) = n) :
    LengthCode (map Value.elem (satisfy fun _ : ε => true)) where
  Writable n := n < bound
  write n := [ofLength n]
  write_ne_nil _ := List.cons_ne_nil _ _
  read_write := by
    intro n hn t
    refine ⟨.elem (ofLength n), ?_, ?_⟩
    · rw [map, satisfy, List.singleton_append, element_cons]
      rfl
    · show AsLength.asLength? (Element.code (ofLength n)) = some n
      rw [hcode n hn]
      show (if 0 ≤ (n : Int) then AsLength.asLength? n else none) = some n
      rw [if_pos (Int.natCast_nonneg n), asLength?_of_le (by omega)]

end LengthCode

/-- The last `k` digits of a number to the base 256, the greatest first. -/
def bigEndian : (k : Nat) → (n : Nat) → List UInt8
  | 0, _ => []
  | k + 1, n => UInt8.ofNat (n / 256 ^ k) :: bigEndian k n

/-- The number that digits to the base 256 write. -/
def ofBigEndian (bytes : List UInt8) : Nat := bytes.foldl (fun n b => n * 256 + b.toNat) 0

theorem length_bigEndian (k n : Nat) : (bigEndian k n).length = k := by
  induction k with
  | zero => rfl
  | succ k ih => rw [bigEndian, List.length_cons, ih]

/-- Reading the bytes behind a number `high` that was read before. By induction on `k`:
the first of the bytes is the highest of those that are left. -/
theorem foldl_bigEndian (k n high : Nat) :
    (bigEndian k n).foldl (fun n b => n * 256 + b.toNat) high = high * 256 ^ k + n % 256 ^ k := by
  induction k generalizing high with
  | zero => simp [bigEndian, Nat.mod_one]
  | succ k ih =>
    have hdigit : (UInt8.ofNat (n / 256 ^ k)).toNat = n / 256 ^ k % 256 := UInt8.toNat_ofNat'
    rw [bigEndian, List.foldl_cons, ih, hdigit, Nat.mod_pow_succ]
    ring

/-- A number that fits into `k` bytes is read back from them. -/
theorem ofBigEndian_bigEndian {k n : Nat} (h : n < 256 ^ k) : ofBigEndian (bigEndian k n) = n := by
  rw [ofBigEndian, foldl_bigEndian, Nat.mod_eq_of_lt h, Nat.zero_mul, Nat.zero_add]

/-- A length as a fixed number of bytes, at least one. -/
def LengthCode.bytes (k : Nat) (hk : 0 < k) :
    LengthCode (map ofBigEndian (take k)) where
  Writable n := n < 256 ^ k ∧ n ≤ maxCount
  write := bigEndian k
  write_ne_nil _ := List.ne_nil_of_length_pos (by rwa [length_bigEndian])
  read_write := by
    rintro n ⟨hn, hmax⟩ t
    refine ⟨n, ?_, asLength?_of_le hmax⟩
    have htake := take_append (bigEndian k n) t
    rw [length_bigEndian] at htake
    rw [map, htake, Reply.map_ok, ofBigEndian_bigEndian hn]

/-- A length below 128 as one character. -/
def charLengths : LengthCode (map Value.elem (satisfy fun _ : Char => true)) :=
  .oneElement Char.ofNat 128 (by decide) (by decide)

/-- A length as two bytes. -/
def wordLengths : LengthCode (map ofBigEndian (take 2)) := .bytes 2 (by decide)

/-- Characters that count characters, of which some are two and three bytes wide
and one payload has none; and bytes behind lengths of two bytes, of which the
last frame is cut off. -/
theorem two_streams_are_read_back :
    ((∀ x ∈ [['é', '日'], [], ['x']], charLengths.Writable x.length) ∧
      many0 (lengthData (map Value.elem (satisfy fun _ : Char => true)))
          ['\x02', 'é', '日', '\x00', '\x01', 'x'] =
        .ok [] [['é', '日'], [], ['x']] ∧
      (Iter.start (lengthData (map Value.elem (satisfy fun _ : Char => true)))
          ['\x02', 'é', '日', '\x00', '\x01', 'x']).performAll
          [.next, .next, .next, .next, .remaining] =
        some [.next (some ['é', '日']), .next (some []), .next (some ['x']), .next none,
          .rest []]) ∧
    (∀ x ∈ [[7, 8], [9]], wordLengths.Writable (x : List UInt8).length) ∧
    many0 (lengthData (map ofBigEndian (take 2))) [0, 2, 7, 8, 0, 1, 9, 1, 0, 5] =
      .ok [1, 0, 5] [[7, 8], [9]] := by
  have hchars : ∀ x ∈ [['é', '日'], [], ['x']], charLengths.Writable x.length := by
    simp [charLengths, LengthCode.oneElement]
  have hwords : ∀ x ∈ [[7, 8], [9]], wordLengths.Writable (x : List UInt8).length := by
    simp [wordLengths, LengthCode.bytes, maxCount]
  obtain ⟨hmany, hiter, _⟩ := frames_are_read_back charLengths hchars (by decide)
  obtain ⟨_, _, hcut⟩ := frames_are_read_back wordLengths hwords (by decide)
  refine ⟨⟨hchars, hmany, (hiter ⟨⟨[], .satisfy⟩, ?_⟩).2 4⟩, hwords, ?_⟩
  · rfl
  · exact (hcut 256 [5] ⟨by decide, by decide⟩ (by decide)).1

end Parsing.Parser
