/-
  Parsing.Proofs.Guarded.Combinators — ANSWERS ON SHORT INPUTS.

  Where parsers refer to themselves, what they come to on an input is only
  settled once it is settled on shorter ones.  So everything here is about
  inputs of fewer than a given number of elements.  Two parsers are *settled*
  there when both come to the same answer, are not cut off, and a success uses
  up at least so many elements, which may be none.

  Two parsers are compared, since what a grammar stands for depends on how deep
  its rules may be opened, and what is shown later is that depths do not matter
  beyond some point.

  Every combinator of settled parsers is settled, on inputs of the same lengths,
  since nothing in it is run on an input longer than its own.  A part of a
  sequence may be less than that: behind a parser that uses up `k` elements only
  inputs shorter by `k` matter (`Settled.pair`).  The parser that is run inside
  the slice of a `mapParser` has to be settled on inputs of any length, since a
  slice may be any sequence.
-/
import Mathlib.Data.List.Forall2
import Parsing.Parser.Framing
import Parsing.Parser.Number
import Parsing.Parser.Sequencing
import Parsing.Proofs.Span

namespace Parsing

variable {ε α β γ : Type}

/-! ## §1. Replies. -/

/-- The run came to an answer, and what a success leaves is shorter than `n` by at
least `k` elements. -/
def Reply.Answers (k n : Nat) : Reply ε α → Prop
  | .ok rest _ => rest.length + k ≤ n
  | .fail _ => True
  | .unfinished => False

/-- Two runs came to the same answer. -/
def Reply.Settled (k n : Nat) (r r' : Reply ε α) : Prop := r' = r ∧ r.Answers k n

namespace Reply

/-- An answer is a success or a failure. -/
theorem Answers.ne_unfinished {k n : Nat} {r : Reply ε α} (h : r.Answers k n) :
    r ≠ .unfinished := by
  rintro rfl
  exact h

/-- A success that leaves little enough is settled. -/
theorem settled_ok {k n : Nat} {rest : List ε} (h : rest.length + k ≤ n) (value : α) :
    Settled k n (.ok rest value) (.ok rest value) :=
  ⟨rfl, h⟩

/-- A failure is, whatever numbers are asked for. -/
theorem settled_fail (k n : Nat) (error : ParseError ε) :
    Settled k n (.fail error : Reply ε α) (.fail error) :=
  ⟨rfl, trivial⟩

namespace Settled

variable {k l n m : Nat} {r r' : Reply ε α}

/-- What is said about a part of the input holds of the input. -/
theorem mono (h : Settled k n r r') (hle : l + n ≤ k + m) : Settled l m r r' := by
  obtain ⟨rfl, hr⟩ := h
  refine ⟨rfl, ?_⟩
  cases r' with
  | ok rest value =>
    have hlen : rest.length + k ≤ n := hr
    show rest.length + l ≤ m
    omega
  | fail error => trivial
  | unfinished => exact hr

/-- What follows a success has to be settled only behind what that used up. -/
theorem andThen {next next' : List ε → α → Reply ε β} (h : Settled k n r r')
    (hnext : ∀ rest value, rest.length + k ≤ n →
      Settled l m (next rest value) (next' rest value)) :
    Settled l m (r.andThen next) (r'.andThen next') := by
  obtain ⟨rfl, hr⟩ := h
  cases r' with
  | ok rest value => exact hnext rest value hr
  | fail error => exact settled_fail l m error
  | unfinished => exact absurd hr id

/-- What follows a failure starts again at the same place. -/
theorem orElse {next next' : ParseError ε → Reply ε α} (h : Settled k n r r')
    (hnext : ∀ error, Settled k n (next error) (next' error)) :
    Settled k n (r.orElse next) (r'.orElse next') := by
  obtain ⟨rfl, hr⟩ := h
  cases r' with
  | ok rest value => exact ⟨rfl, hr⟩
  | fail error => exact hnext error
  | unfinished => exact absurd hr id

theorem map (f : α → β) (h : Settled k n r r') : Settled k n (r.map f) (r'.map f) :=
  h.andThen fun _ value hrest => settled_ok hrest (f value)

/-- An error may be changed: settled failures are not told apart by their places. -/
theorem mapError (f : ParseError ε → ParseError ε) (h : Settled k n r r') :
    Settled k n (r.mapError f) (r'.mapError f) :=
  h.orElse fun error => settled_fail k n (f error)

/-- A conversion that gives nothing is a failure, and so settled. -/
theorem convert {place : List ε} {kind : Kind} {result : Option α} {next next' : α → Reply ε β}
    (hnext : ∀ value, Settled k n (next value) (next' value)) :
    Settled k n (Reply.convert place kind result next) (Reply.convert place kind result next') := by
  cases result with
  | some value => exact hnext value
  | none => exact settled_fail k n _

end Settled

end Reply

/-- On inputs of fewer than `b` elements the two parsers come to the same answer,
and a success uses up at least `k` elements. -/
def Parser.Settled (b k : Nat) (p p' : Parser ε α) : Prop :=
  ∀ s, s.length < b → (p s).Settled k s.length (p' s)

namespace Parser

/-- A parser that always answers is settled on all inputs. -/
theorem settled_of_answers {p : Parser ε α} {k : Nat} (h : ∀ s, (p s).Answers k s.length)
    (b : Nat) : Settled b k p p :=
  fun s _ => ⟨rfl, h s⟩

/-- Two repetitions came to the same end, not for want of an answer, and what is
left has no more than `n` elements. -/
def Run.Settled (n : Nat) (run run' : Run ε β) : Prop :=
  run' = run ∧ run.stop ≠ .unfinished ∧ run.rest.length ≤ n

/-- Two loops that stop alike answer alike, whatever bound and kind they answer with. -/
theorem Run.Settled.answer {n : Nat} {run run' : Run ε β} (h : run.Settled n run') (lower : Nat)
    (kind : Stop ε → Kind) (value : Run ε β → γ) (s : List ε) :
    (run.answer lower kind value s).Settled 0 n (run'.answer lower kind value s) := by
  obtain ⟨rfl, hstop, hrest⟩ := h
  rw [Run.answer_of_ne_unfinished hstop]
  split
  next => exact Reply.settled_fail 0 n _
  next => exact Reply.settled_ok hrest _

/-! ## §2. Parsers that look at no element. -/

variable {b k l : Nat}

theorem settled_success (b : Nat) (value : α) :
    Settled b 0 (success value : Parser ε α) (success value) := fun s _ =>
  Reply.settled_ok (Nat.le_refl s.length) value

theorem settled_fail (b : Nat) (kind : Kind) : Settled b 0 (fail kind : Parser ε α) (fail kind) :=
  fun _ _ => Reply.settled_fail 0 _ _

theorem settled_restLen (b : Nat) : Settled b 0 (restLen : Parser ε Nat) restLen := fun s _ =>
  Reply.settled_ok (Nat.le_refl s.length) s.length

/-- The end of the input is settled: it is there or it is not. -/
theorem settled_eof (b : Nat) : Settled b 0 (eof : Parser ε (List ε)) eof := by
  apply settled_of_answers
  intro s
  unfold eof
  split
  next => exact Nat.le_refl s.length
  next => trivial

namespace Settled

variable {p p' : Parser ε α} {q q' : Parser ε β}

/-- What uses up so many elements uses up fewer. -/
theorem weaken (hp : Settled b k p p') : Settled b 0 p p' := fun s hs =>
  (hp s hs).mono (by omega)

/-! ## §3. Changing values and errors, trying and looking ahead. -/

theorem map (f : α → β) (hp : Settled b k p p') :
    Settled b k (Parser.map f p) (Parser.map f p') := fun s hs =>
  (hp s hs).map f

/-- A partial map only adds failures, which are settled. -/
theorem mapRes (f : α → Option β) (hp : Settled b k p p') :
    Settled b k (Parser.mapRes f p) (Parser.mapRes f p') := fun s hs =>
  (hp s hs).andThen fun _ _ hrest => .convert fun value => Reply.settled_ok hrest value

/-- A check only turns successes into failures. -/
theorem verify (check : α → Bool) (hp : Settled b k p p') :
    Settled b k (Parser.verify check p) (Parser.verify check p') := by
  intro s hs
  apply (hp s hs).andThen
  intro rest value hrest
  split
  next => exact Reply.settled_ok hrest value
  next => exact Reply.settled_fail k _ _

/-- The client's map sees errors alone, and gives the same for the same error. -/
theorem mapErr (f : ParseError ε → ParseError ε) (hp : Settled b k p p') :
    Settled b k (Parser.mapErr f p) (Parser.mapErr f p') := fun s hs =>
  (hp s hs).mapError f

theorem mapKind (kind : Kind) (hp : Settled b k p p') :
    Settled b k (Parser.mapKind kind p) (Parser.mapKind kind p') :=
  hp.mapErr _

/-- Where the error is ignored, nothing is used up. -/
theorem ignoreKind (kind : Kind) (hp : Settled b 0 p p') :
    Settled b 0 (Parser.ignoreKind kind p) (Parser.ignoreKind kind p') := by
  intro s hs
  apply ((hp s hs).map some).orElse
  intro error
  split
  next => exact Reply.settled_ok (Nat.le_refl s.length) none
  next => exact Reply.settled_fail 0 _ _

/-- A missing option uses up nothing, so nothing is promised of one that is there. -/
theorem optional (hp : Settled b 0 p p') :
    Settled b 0 (Parser.optional p) (Parser.optional p') := fun s hs =>
  ((hp s hs).map some).orElse fun _ => Reply.settled_ok (Nat.le_refl s.length) none

theorem peek (hp : Settled b 0 p p') : Settled b 0 (Parser.peek p) (Parser.peek p') :=
  fun s hs => (hp s hs).andThen fun _ value _ => Reply.settled_ok (Nat.le_refl s.length) value

/-- A negation succeeds only where its parser failed, and uses up nothing. -/
theorem negate (hp : Settled b 0 p p') : Settled b 0 (Parser.negate p) (Parser.negate p') := by
  intro s hs
  obtain ⟨heq, hanswers⟩ := hp s hs
  unfold Parser.negate
  rw [heq]
  cases hr : p s with
  | ok rest value => exact Reply.settled_fail 0 _ _
  | fail error => exact Reply.settled_ok (Nat.le_refl s.length) ()
  | unfinished => exact absurd hr hanswers.ne_unfinished

theorem conditional (enabled : Bool) (hp : Settled b 0 p p') :
    Settled b 0 (Parser.conditional enabled p) (Parser.conditional enabled p') := by
  cases enabled with
  | true => exact hp.map some
  | false => exact settled_success b none

/-- The end of the input is looked for behind the parser, which keeps its promise. -/
theorem allConsuming (hp : Settled b k p p') :
    Settled b k (Parser.allConsuming p) (Parser.allConsuming p') := by
  intro s hs
  apply (hp s hs).andThen
  intro rest value hrest
  split
  next => exact Reply.settled_ok hrest value
  next => exact Reply.settled_fail k _ _

/-- The stretch that was used up is a value, so the promise stays. -/
theorem consumed [Element ε] (hp : Settled b k p p') :
    Settled b k (Parser.consumed p) (Parser.consumed p') := fun s hs =>
  (hp s hs).andThen fun rest value hrest => Reply.settled_ok hrest (Sequence.consumed s rest, value)

theorem recognize [Element ε] (hp : Settled b k p p') :
    Settled b k (Parser.recognize p) (Parser.recognize p') := fun s hs =>
  (hp s hs).andThen fun rest _ hrest => Reply.settled_ok hrest (Sequence.consumed s rest)

/-- The slice may be longer than the input. -/
theorem mapParser [Element ε] {outer outer' : Parser ε (List ε)}
    (houter : Settled b 0 outer outer') (hp : ∀ c, Settled c 0 p p') :
    Settled b 0 (Parser.mapParser outer p) (Parser.mapParser outer' p') := fun s hs =>
  (houter s hs).andThen fun _ slice hrest =>
    ((hp (slice.length + 1) slice (Nat.lt_succ_self _)).mapError _).andThen fun _ value _ =>
      Reply.settled_ok hrest value

/-! ## §4. One after another, one or another. -/

/-- What follows a parser that uses up `k` elements is run on inputs shorter by
as many. -/
theorem flatMap {next next' : α → Parser ε β} (hp : Settled b k p p')
    (hnext : ∀ value, Settled (b - k) l (next value) (next' value)) :
    Settled b 0 (Parser.flatMap p next) (Parser.flatMap p' next') := fun s hs =>
  (hp s hs).andThen fun rest value hrest =>
    (hnext value rest (by omega)).mono (by omega)

/-- The second parser needs to be settled only on inputs shorter by what the first one
uses up. -/
theorem pair (hp : Settled b k p p') (hq : Settled (b - k) l q q') :
    Settled b 0 (Parser.pair p q) (Parser.pair p' q') := fun s hs =>
  (hp s hs).andThen fun rest value hrest =>
    (hq rest (by omega)).andThen fun rest' value' hrest' =>
      Reply.settled_ok (by omega) (value, value')

theorem preceded (hp : Settled b k p p') (hq : Settled (b - k) l q q') :
    Settled b 0 (Parser.preceded p q) (Parser.preceded p' q') :=
  (hp.pair hq).map _

theorem terminated (hp : Settled b k p p') (hq : Settled (b - k) l q q') :
    Settled b 0 (Parser.terminated p q) (Parser.terminated p' q') :=
  (hp.pair hq).map _

/-- The third parser runs behind both of the others. -/
theorem delimited {r r' : Parser ε γ} {m : Nat} (hp : Settled b k p p')
    (hq : Settled (b - k) l q q') (hr : Settled (b - k - l) m r r') :
    Settled b 0 (Parser.delimited p q r) (Parser.delimited p' q' r') :=
  (hp.pair (hq.pair hr)).map _

theorem separatedPair {r r' : Parser ε γ} {m : Nat} (hp : Settled b k p p')
    (hq : Settled (b - k) l q q') (hr : Settled (b - k - l) m r r') :
    Settled b 0 (Parser.separatedPair p q r) (Parser.separatedPair p' q' r') :=
  (hp.pair (hq.pair hr)).map _

/-- Of two lists of parsers, each is settled on what those before it leave of inputs
of fewer than `b` elements. -/
inductive InSequence : (b : Nat) → List (Parser ε α) → List (Parser ε α) → Prop
  | nil (b : Nat) : InSequence b [] []
  | cons {b k : Nat} {p p' : Parser ε α} {ps ps' : List (Parser ε α)} (hp : Settled b k p p')
      (hps : InSequence (b - k) ps ps') : InSequence b (p :: ps) (p' :: ps')

/-- By induction on the list, whose tail runs on shorter inputs by what its head uses
up. -/
theorem chain {ps ps' : List (Parser ε α)} (hps : InSequence b ps ps') :
    Settled b 0 (Parser.chain ps) (Parser.chain ps') := by
  induction hps with
  | nil b => exact settled_success b []
  | cons hp _ ih => exact (hp.pair ih).map _

theorem multiple {ps ps' : List (Parser ε α)} (hps : InSequence b ps ps') :
    Settled b 0 (Parser.multiple ps) (Parser.multiple ps') := by
  intro s hs
  rw [multiple_eq_chain, multiple_eq_chain]
  exact chain hps s hs

/-- Both alternatives run at the same place, so both have to be settled there. -/
theorem orElse {q q' : Parser ε α} (hp : Settled b k p p') (hq : Settled b k q q') :
    Settled b k (Parser.orElse p q) (Parser.orElse p' q') := fun s hs =>
  (hp s hs).orElse fun _ => hq s hs

theorem firstOf {ps ps' : List (Parser ε α)} (hp : Settled b k p p')
    (hps : List.Forall₂ (Settled b k) ps ps') :
    Settled b k (Parser.firstOf p ps) (Parser.firstOf p' ps') := by
  induction hps generalizing p p' with
  | nil => exact hp
  | cons hq _ ih => exact hp.orElse (ih hq)

/-- No alternative at all is a failure, which is settled. -/
theorem alt {ps ps' : List (Parser ε α)} (hps : List.Forall₂ (Settled b k) ps ps') :
    Settled b k (Parser.alt ps) (Parser.alt ps') := by
  intro s hs
  cases hps with
  | nil => exact Reply.settled_fail k _ _
  | cons hp hps =>
    rw [alt_cons_eq_firstOf, alt_cons_eq_firstOf]
    exact hp.firstOf hps s hs

/-! ## §5. Again and again. -/

section Repetition

variable [Element ε]

/-- Each match leaves an input that is no longer, so the next one is settled too. -/
theorem repetitionFrom (hp : Settled b 0 p p') (step : β → α → β) (limit matched : Nat)
    (state : β) (s : List ε) (hs : s.length < b) :
    Run.Settled s.length (Parser.repetitionFrom p step limit matched state s)
      (Parser.repetitionFrom p' step limit matched state s) := by
  induction limit generalizing matched state s with
  | zero => exact ⟨rfl, (fun h => by cases h), Nat.le_refl _⟩
  | succ limit ih =>
    -- both loops see the same reply here, and it is an answer
    obtain ⟨heq, hanswers⟩ := hp s hs
    rw [Parser.repetitionFrom, Parser.repetitionFrom, heq]
    split
    next => exact ⟨rfl, (fun h => by cases h), Nat.le_refl _⟩
    next =>
      cases hr : p s with
      | ok rest value =>
        rw [hr] at hanswers
        have hrest : rest.length ≤ s.length := hanswers
        dsimp only
        split
        next => exact ⟨rfl, (fun h => by cases h), Nat.le_refl _⟩
        next =>
          obtain ⟨hrun, hstop, hlen⟩ := ih (matched + 1) (step state value) rest (by omega)
          exact ⟨hrun, hstop, by omega⟩
      | fail error => exact ⟨rfl, (fun h => by cases h), Nat.le_refl _⟩
      | unfinished => exact absurd hr hanswers.ne_unfinished

theorem manyAs (lower upper : Nat) (kind : Stop ε → Kind) (hp : Settled b 0 p p') :
    Settled b 0 (Parser.manyAs lower upper kind p) (Parser.manyAs lower upper kind p') :=
  fun s hs => (hp.repetitionFrom _ upper 0 [] s hs).answer lower kind _ s

theorem manyCount (lower : Nat) (hp : Settled b 0 p p') :
    Settled b 0 (Parser.manyCount lower p) (Parser.manyCount lower p') := fun s hs =>
  (hp.repetitionFrom _ maxCount 0 () s hs).answer lower _ _ s

theorem foldAs (lower upper : Nat) (kind : Kind) (hp : Settled b 0 p p') (first : β)
    (combine : β → α → β) :
    Settled b 0 (Parser.foldAs lower upper kind p first combine)
      (Parser.foldAs lower upper kind p' first combine) := fun s hs =>
  (hp.repetitionFrom combine upper 0 first s hs).answer lower _ _ s

/-- The marker and the parser are tried at places that only get shorter, by the
recursion of the loop. -/
theorem manyTillFrom {marker marker' : Parser ε β} (hp : Settled b 0 p p')
    (hm : Settled b 0 marker marker') (done : List α) (s : List ε) (hs : s.length < b) :
    (Parser.manyTillFrom p marker done s).Settled 0 s.length
      (Parser.manyTillFrom p' marker' done s) := by
  -- each case says what the marker and `p` come to; the primed ones come to the same
  fun_induction Parser.manyTillFrom p marker done s with
  | case1 done s rest mark hmark =>
    have hanswers := (hm s hs).2
    rw [hmark] at hanswers
    rw [Parser.manyTillFrom, (hm s hs).1, hmark]
    exact Reply.settled_ok hanswers _
  | case2 done s hmark => exact absurd hmark (hm s hs).2.ne_unfinished
  | case3 done s error hmark rest value hvalue hlt ih =>
    have hanswers := (hp s hs).2
    rw [hvalue] at hanswers
    have hrest : rest.length ≤ s.length := hanswers
    have hturn : Parser.manyTillFrom p' marker' done s =
        Parser.manyTillFrom p' marker' (value :: done) rest := by
      rw [Parser.manyTillFrom, (hm s hs).1, hmark, (hp s hs).1, hvalue]
      exact if_pos hlt
    rw [hturn]
    exact (ih (by omega)).mono (by omega)
  | case4 done s error hmark rest value hvalue hlt =>
    rw [Parser.manyTillFrom, (hm s hs).1, hmark, (hp s hs).1, hvalue]
    dsimp only
    rw [if_neg hlt]
    exact Reply.settled_fail 0 _ _
  | case5 done s error hmark error' hvalue =>
    rw [Parser.manyTillFrom, (hm s hs).1, hmark, (hp s hs).1, hvalue]
    exact Reply.settled_fail 0 _ _
  | case6 done s error hmark hvalue => exact absurd hvalue (hp s hs).2.ne_unfinished

theorem manyTill {marker marker' : Parser ε β} (hp : Settled b 0 p p')
    (hm : Settled b 0 marker marker') :
    Settled b 0 (Parser.manyTill p marker) (Parser.manyTill p' marker') :=
  hp.manyTillFrom hm []

end Repetition

/-- No application makes the input longer, so each of them is settled. By induction on
their number. -/
theorem countFrom (hp : Settled b 0 p p') (n : Nat) (done : Array α) :
    Settled b 0 (Parser.countFrom p n done) (Parser.countFrom p' n done) := by
  induction n generalizing done with
  | zero => exact fun s _ => Reply.settled_ok (Nat.le_refl s.length) done.toList
  | succ n ih =>
    exact fun s hs => (hp s hs).andThen fun rest value hrest =>
      (ih (done.push value) rest (by omega)).mono (by omega)

theorem count (n : Nat) (hp : Settled b 0 p p') :
    Settled b 0 (Parser.count n p) (Parser.count n p') :=
  hp.countFrom n _

/-- The slots that are written are the same too, which the replies alone do not say. -/
theorem fill (hp : Settled b 0 p p') (slots : List α) (s : List ε) (hs : s.length < b) :
    Parser.fill p' slots s = Parser.fill p slots s ∧
      (Parser.fill p slots s).1.Answers 0 s.length := by
  induction slots generalizing s with
  | nil => exact ⟨rfl, Nat.le_refl s.length⟩
  | cons old slots ih =>
    obtain ⟨heq, hanswers⟩ := hp s hs
    rw [Parser.fill, Parser.fill, heq]
    cases hr : p s with
    | ok rest value =>
      rw [hr] at hanswers
      have hrest : rest.length ≤ s.length := hanswers
      -- the slots behind it are written by the same runs
      obtain ⟨hlater, hlen⟩ := ih rest (by omega)
      dsimp only
      rw [hlater]
      have hmono : (Parser.fill p slots rest).1.Settled 0 s.length (Parser.fill p slots rest).1 :=
        Reply.Settled.mono ⟨rfl, hlen⟩ (by omega)
      exact ⟨rfl, hmono.2⟩
    | fail error => exact ⟨rfl, trivial⟩
    | unfinished => exact absurd hr hanswers.ne_unfinished

theorem filled (slots : List α) (hp : Settled b 0 p p') :
    Settled b 0 (Parser.filled slots p) (Parser.filled slots p') := by
  intro s hs
  obtain ⟨heq, hanswers⟩ := hp.fill slots s hs
  unfold Parser.filled
  rw [heq]
  have hfill : (Parser.fill p slots s).1.Settled 0 s.length (Parser.fill p slots s).1 :=
    ⟨rfl, hanswers⟩
  exact hfill.map _

end Settled

/-! ## §6. Stretches of the input. -/

section Span

variable [Element ε]

/-- A success uses up all that was asked for. -/
theorem settled_take (b n : Nat) : Settled b n (take n : Parser ε (List ε)) (take n) := by
  apply settled_of_answers
  intro s
  rw [take_apply]
  split
  next hle =>
    show (s.drop n).length + n ≤ s.length
    rw [List.length_drop]
    omega
  next => trivial

theorem settled_rest (b : Nat) : Settled b 0 (rest : Parser ε (List ε)) rest := by
  apply settled_of_answers
  intro s
  rw [rest_apply]
  exact Nat.zero_le _

theorem settled_takeWhile (b : Nat) (p : ε → Bool) : Settled b 0 (takeWhile p) (takeWhile p) := by
  apply settled_of_answers
  intro s
  rw [takeWhile_apply]
  exact (List.dropWhile_suffix p).length_le

/-- A stretch of at least one element is settled with no more than that said about it. -/
theorem settled_takeWhileSome (b : Nat) (kind : Kind) (p : ε → Bool) :
    Settled b 0 (takeWhileSome kind p) (takeWhileSome kind p) := by
  apply settled_of_answers
  intro s
  rw [takeWhileSome_apply]
  split
  next => trivial
  next => exact (List.dropWhile_suffix p).length_le

theorem settled_takeWhileBounded (b lower upper : Nat) (p : ε → Bool) :
    Settled b 0 (takeWhileBounded lower upper p) (takeWhileBounded lower upper p) := by
  apply settled_of_answers
  intro s
  rw [takeWhileBounded_apply]
  split
  next => trivial
  next => exact (List.drop_suffix _ s).length_le

theorem settled_element (b : Nat) (kind : Kind) (p : ε → Bool) :
    Settled b 1 (element kind p) (element kind p) := by
  apply settled_of_answers
  intro s
  cases s with
  | nil =>
    rw [element_nil]
    trivial
  | cons e s =>
    rw [element_cons]
    split
    next => exact Nat.le_refl (s.length + 1)
    next => trivial

variable [DecidableEq ε]

/-- A success uses up the whole literal. -/
theorem settled_tag (b : Nat) (literal : List ε) :
    Settled b literal.length (tag literal) (tag literal) := by
  apply settled_of_answers
  intro s
  rw [tag_apply]
  split
  next hprefix =>
    show (s.drop literal.length).length + literal.length ≤ s.length
    have hle := hprefix.length_le
    rw [List.length_drop]
    omega
  next => trivial

/-- What is in front of the first occurrence may be empty. -/
theorem settled_takeUntil (b : Nat) (literal : List ε) :
    Settled b 0 (takeUntil literal) (takeUntil literal) := by
  apply settled_of_answers
  intro s
  rw [takeUntil_apply]
  split
  next => trivial
  next front rest h =>
    rw [← append_of_splitBefore? h]
    exact (List.suffix_append front rest).length_le

theorem settled_takeUntil1 (b : Nat) (literal : List ε) :
    Settled b 0 (takeUntil1 literal) (takeUntil1 literal) := by
  apply settled_of_answers
  intro s
  rw [takeUntil1_apply]
  split
  next => trivial
  next front rest h =>
    split
    next => trivial
    next =>
      rw [← append_of_splitBefore? h]
      exact (List.suffix_append front rest).length_le

end Span

/-! ## §7. Behind a length. -/

namespace Settled

variable [AsLength α] {counter counter' : Parser ε α} {p p' : Parser ε β}

/-- A length uses up what its counter does. -/
theorem readLength (hc : Settled b k counter counter') :
    Settled b k (Parser.readLength counter) (Parser.readLength counter') := fun s hs =>
  (hc s hs).andThen fun _ _ hrest => .convert fun n => Reply.settled_ok hrest n

/-- The length is not known beforehand, so nothing is promised of what it counts. -/
theorem lengthCount (hc : Settled b 0 counter counter') (hp : Settled b 0 p p') :
    Settled b 0 (Parser.lengthCount counter p) (Parser.lengthCount counter' p') :=
  hc.readLength.flatMap fun n => hp.count n

variable [Element ε]

theorem lengthData (hc : Settled b 0 counter counter') :
    Settled b 0 (Parser.lengthData counter) (Parser.lengthData counter') :=
  hc.readLength.flatMap fun n => (settled_take (b - 0) n).weaken

/-- The block is a part of the input. -/
theorem lengthValue (hc : Settled b 0 counter counter') (hp : Settled b 0 p p') :
    Settled b 0 (Parser.lengthValue counter p) (Parser.lengthValue counter' p') := by
  intro s hs
  apply (hc.readLength s hs).andThen
  intro afterPrefix n hafter
  rw [take_apply]
  split
  next hle =>
    -- the block is no longer than the input, so the parser inside is settled on it
    have hblock : (afterPrefix.take n).length < b := by
      rw [List.length_take]
      omega
    have hrest : (afterPrefix.drop n).length ≤ s.length := by
      rw [List.length_drop]
      omega
    exact ((hp _ hblock).mapError _).andThen fun _ value _ => Reply.settled_ok hrest value
  next => exact Reply.settled_fail 0 _ _

end Settled

/-! ## §8. Elements that stand for characters. -/

section Ascii

variable [Element ε] [CharLike ε]

theorem settled_tagNoCase (b : Nat) (literal : List ε) :
    Settled b 0 (tagNoCase literal) (tagNoCase literal) := by
  intro s hs
  apply ((settled_take b literal.length).mapKind .tag s hs).andThen
  intro rest candidate hrest
  split
  next => exact Reply.settled_ok (by omega) candidate
  next => exact Reply.settled_fail 0 _ _

/-- A number literal is settled since the stretch that it reads is. -/
theorem settled_literal (b : Nat) (table : List Char) (kind : Kind)
    (read : List Char → Option α) :
    Settled b 0 (literal table kind read : Parser ε α) (literal table kind read) := fun s hs =>
  (settled_takeWhileSome b kind _ s hs).andThen fun _ _ hrest =>
    .convert fun value => Reply.settled_ok hrest value

theorem settled_lineEnding [DecidableEq ε] (b : Nat) :
    Settled b 0 (lineEnding : Parser ε (List ε)) lineEnding :=
  have hnewline := (settled_element b .char (· == CharLike.ofByte (ε := ε) 10)).recognize.weaken
  have hcrlf := (settled_tag b [CharLike.ofByte (ε := ε) 13, CharLike.ofByte 10]).weaken
  (hnewline.orElse (hcrlf.mapKind .crlf)).mapKind .crlf

end Ascii

end Parser

end Parsing
