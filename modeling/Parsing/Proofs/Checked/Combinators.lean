/-
  Parsing.Proofs.Checked.Combinators — PARSERS THAT CAN FAULT.

  A checked parser gives a reply or a fault, and a fault in any part is a fault
  of the whole.  Each parser that cuts its input, and each combinator, is given
  here once more with checked operations.  Most combinators run one part, on
  their own input, and look at nothing but its reply: `once` makes their checked
  forms of them.  The others run their parts in turn.

  The loop of a repetition keeps a count of its matches beside its limit, and
  goes on as long as the count is below the limit; it faults if the count is
  ever taken past it.

  A checked parser *computes* a parser when it never faults and gives the same
  replies.  Every combinator keeps that up: if the checked parts compute
  parsers, the checked whole computes the combination of these, and one lemma
  for each combinator says so.  Nothing is asked of what the parts leave, or of
  the errors that they name.
-/
import Mathlib.Data.List.Forall2
import Parsing.Parser.Framing
import Parsing.Parser.Number
import Parsing.Parser.Sequencing
import Parsing.Proofs.Checked.Basic
import Parsing.Proofs.Span

namespace Parsing

open Sequence (nativeLen)

variable {ε α β γ : Type}

/-- A parser that may fault. -/
abbrev CheckedParser (ε α : Type) := List ε → Checked (Reply ε α)

namespace CheckedParser

open Checked (ok_bind)

/-- The checked parser never faults, and its replies are those of `p`. -/
def Computes (p' : CheckedParser ε α) (p : Parser ε α) : Prop := ∀ s, p' s = .ok (p s)

/-- A parser that never faults. -/
def ofParser (p : Parser ε α) : CheckedParser ε α := fun s => .ok (p s)

/-- A parser in which nothing can fault computes itself. -/
theorem computes_ofParser (p : Parser ε α) : (ofParser p).Computes p := fun _ => rfl

/-! ## §1. One part, and its reply. -/

/-- A combinator that runs its one part on its own input, and looks at the reply. -/
def once (combinator : Parser ε α → Parser ε β) (p' : CheckedParser ε α) : CheckedParser ε β :=
  fun s => do
    let reply ← p' s
    return combinator (fun _ => reply) s

/-- Goes on after a success. -/
def andThen (r : Checked (Reply ε α)) (next : List ε → α → Checked (Reply ε β)) :
    Checked (Reply ε β) := do
  match ← r with
  | .ok rest value => next rest value
  | .fail error => return .fail error
  | .unfinished => return .unfinished

/-- Goes on after a failure. -/
def orElse (r : Checked (Reply ε α)) (next : ParseError ε → Checked (Reply ε α)) :
    Checked (Reply ε α) := do
  match ← r with
  | .ok rest value => return .ok rest value
  | .fail error => next error
  | .unfinished => return .unfinished

/-- Where the first step does not fault, two steps fault only if the second does. -/
theorem andThen_ok {r : Checked (Reply ε α)} {reply : Reply ε α} (h : r = .ok reply)
    {next' : List ε → α → Checked (Reply ε β)} {next : List ε → α → Reply ε β}
    (hnext : ∀ rest value, next' rest value = .ok (next rest value)) :
    andThen r next' = .ok (reply.andThen next) := by
  subst h
  cases reply with
  | ok rest value => exact hnext rest value
  | fail error => rfl
  | unfinished => rfl

/-- Where the first try does not fault, two tries fault only if the second does. -/
theorem orElse_ok {r : Checked (Reply ε α)} {reply : Reply ε α} (h : r = .ok reply)
    {next' : ParseError ε → Checked (Reply ε α)} {next : ParseError ε → Reply ε α}
    (hnext : ∀ error, next' error = .ok (next error)) :
    orElse r next' = .ok (reply.orElse next) := by
  subst h
  cases reply with
  | ok rest value => rfl
  | fail error => exact hnext error
  | unfinished => rfl

namespace Computes

variable {p' : CheckedParser ε α} {p : Parser ε α}

/-- Whatever a combinator makes of the reply of its part, it does not fault. -/
theorem once {combinator : Parser ε α → Parser ε β} (hp : p'.Computes p)
    (h : ∀ s, combinator p s = combinator (fun _ => p s) s) :
    (CheckedParser.once combinator p').Computes (combinator p) := by
  intro s
  unfold CheckedParser.once
  rw [hp s, h s]
  rfl

/-- Changing a value is nothing that can fault. -/
theorem map (f : α → β) (hp : p'.Computes p) :
    (CheckedParser.once (.map f) p').Computes (.map f p) :=
  hp.once fun _ => rfl

theorem mapKind (kind : Kind) (hp : p'.Computes p) :
    (CheckedParser.once (.mapKind kind) p').Computes (.mapKind kind p) :=
  hp.once fun _ => rfl

end Computes

/-! ## §2. One after another, one or another. -/

/-- Runs `p'`, and then, on what it leaves, the parser made from its value. -/
def flatMap (p' : CheckedParser ε α) (next : α → CheckedParser ε β) : CheckedParser ε β :=
  fun s => andThen (p' s) fun rest value => next value rest

/-- Runs `p'` and then `q'`, and yields both values. -/
def pair (p' : CheckedParser ε α) (q' : CheckedParser ε β) : CheckedParser ε (α × β) :=
  fun s => andThen (p' s) fun rest a => andThen (q' rest) fun rest' b => .ok (.ok rest' (a, b))

/-- Runs the parsers of a list as nested pairs. -/
def chain : List (CheckedParser ε α) → CheckedParser ε (List α)
  | [] => ofParser (.success [])
  | p' :: ps' => once (.map fun v => v.1 :: v.2) (pair p' (chain ps'))

/-- Runs the parsers of a list after those that have yielded `done`, the last
of them first. -/
def multipleFrom (done : List α) : List (CheckedParser ε α) → CheckedParser ε (List α)
  | [] => ofParser (.success done.reverse)
  | p' :: ps' => fun s => andThen (p' s) fun rest value => multipleFrom (value :: done) ps' rest

/-- Tries `p'` and then the others. -/
def firstOf (p' : CheckedParser ε α) : List (CheckedParser ε α) → CheckedParser ε α
  | [] => p'
  | q' :: others => fun s => orElse (p' s) fun _ => firstOf q' others s

/-- Tries the parsers of a list; `last` is the error of the one before them. -/
def altFrom (last : ParseError ε) : List (CheckedParser ε α) → CheckedParser ε α
  | [], _ => .ok (.fail last)
  | p' :: ps', s => orElse (p' s) fun error => altFrom error ps' s

/-- Tries the parsers of a list; an empty list fails where it is run. -/
def alt (ps' : List (CheckedParser ε α)) : CheckedParser ε α := fun s => altFrom ⟨s, .alt⟩ ps' s

/-- Of two lists, each checked parser computes the parser in its place. -/
abbrev AllComputes (ps' : List (CheckedParser ε α)) (ps : List (Parser ε α)) : Prop :=
  List.Forall₂ Computes ps' ps

namespace Computes

variable {p' : CheckedParser ε α} {p : Parser ε α} {ps' : List (CheckedParser ε α)}
  {ps : List (Parser ε α)}

/-- The parser made from a value must not fault for any value. -/
theorem flatMap {next' : α → CheckedParser ε β} {next : α → Parser ε β} (hp : p'.Computes p)
    (hnext : ∀ value, (next' value).Computes (next value)) :
    (CheckedParser.flatMap p' next').Computes (.flatMap p next) := fun s =>
  andThen_ok (hp s) fun rest value => hnext value rest

/-- The second parser is run on whatever the first one leaves. -/
theorem pair {q' : CheckedParser ε β} {q : Parser ε β} (hp : p'.Computes p)
    (hq : q'.Computes q) : (CheckedParser.pair p' q').Computes (.pair p q) := fun s =>
  andThen_ok (hp s) fun rest _ => andThen_ok (hq rest) fun _ _ => rfl

/-- By induction on the list, each parser run on what the one before it leaves. -/
theorem chain (hps : AllComputes ps' ps) : (CheckedParser.chain ps').Computes (.chain ps) := by
  induction hps with
  | nil => exact computes_ofParser _
  | cons hp _ ih => exact (hp.pair ih).map _

theorem multipleFrom (done : List α) (hps : AllComputes ps' ps) :
    (CheckedParser.multipleFrom done ps').Computes (.multipleFrom done ps) := by
  induction hps generalizing done with
  | nil => exact computes_ofParser _
  | cons hp _ ih => exact fun s => andThen_ok (hp s) fun rest value => ih (value :: done) rest

/-- All alternatives are run on the same input, so none needs a rest of another. -/
theorem firstOf (hp : p'.Computes p) (hps : AllComputes ps' ps) :
    (CheckedParser.firstOf p' ps').Computes (.firstOf p ps) := by
  induction hps generalizing p' p with
  | nil => exact hp
  | cons hq _ ih => exact fun s => orElse_ok (hp s) fun _ => ih hq s

/-- The error handed in is passed on and never looked into. -/
theorem altFrom (last : ParseError ε) (hps : AllComputes ps' ps) :
    (CheckedParser.altFrom last ps').Computes (.altFrom last ps) := by
  induction hps generalizing last with
  | nil => exact fun _ => rfl
  | cons hp _ ih => exact fun s => orElse_ok (hp s) fun error => ih error s

/-- An empty list fails without running anything. -/
theorem alt (hps : AllComputes ps' ps) : (CheckedParser.alt ps').Computes (.alt ps) := fun s =>
  altFrom ⟨s, .alt⟩ hps s

end Computes

/-! ## §3. A fixed number of times. -/

/-- Runs `p'` so many more times, having yielded `done`. -/
def countFrom (p' : CheckedParser ε α) : (n : Nat) → (done : Array α) → CheckedParser ε (List α)
  | 0, done => fun s => .ok (.ok s done.toList)
  | n + 1, done => fun s =>
      andThen (p' s) fun rest value => countFrom p' n (done.push value) rest

/-- Runs `p'` exactly `n` times. -/
def count (n : Nat) (p' : CheckedParser ε α) : CheckedParser ε (List α) :=
  countFrom p' n (Array.emptyWithCapacity (min n Parser.reserveLimit))

/-- Runs `p'` once for each slot of a buffer and puts its value there. -/
def fill (p' : CheckedParser ε α) : (slots : List α) → List ε → Checked (Reply ε Unit × List α)
  | [], s => .ok (.ok s (), [])
  | old :: slots, s => do
      match ← p' s with
      | .ok rest value =>
          let later ← fill p' slots rest
          return (later.1, value :: later.2)
      | .fail error => return (.fail error, old :: slots)
      | .unfinished => return (.unfinished, old :: slots)

/-- Fills a fresh buffer, and yields it. -/
def filled (slots : List α) (p' : CheckedParser ε α) : CheckedParser ε (List α) := fun s => do
  let result ← fill p' slots s
  return result.1.map fun _ => result.2

namespace Computes

variable {p' : CheckedParser ε α} {p : Parser ε α}

/-- No test is made between the runs, and the buffer only grows. -/
theorem countFrom (hp : p'.Computes p) (n : Nat) (done : Array α) :
    (CheckedParser.countFrom p' n done).Computes (.countFrom p n done) := by
  induction n generalizing done with
  | zero => exact fun _ => rfl
  | succ n ih => exact fun s => andThen_ok (hp s) fun rest value => ih (done.push value) rest

theorem count (n : Nat) (hp : p'.Computes p) :
    (CheckedParser.count n p').Computes (.count n p) :=
  hp.countFrom n _

/-- Both the reply and the buffer come out as without checks. -/
theorem fill (hp : p'.Computes p) (slots : List α) (s : List ε) :
    CheckedParser.fill p' slots s = .ok (Parser.fill p slots s) := by
  induction slots generalizing s with
  | nil => rfl
  | cons old slots ih =>
    rw [CheckedParser.fill, Parser.fill, hp s, ok_bind]
    cases p s with
    | ok rest value =>
      dsimp only
      rw [ih, ok_bind]
      rfl
    | fail error => rfl
    | unfinished => rfl

theorem filled (slots : List α) (hp : p'.Computes p) :
    (CheckedParser.filled slots p').Computes (.filled slots p) := by
  intro s
  unfold CheckedParser.filled
  rw [hp.fill]
  rfl

end Computes

variable [Element ε]

/-! ## §4. Again and again. -/

/-- One more match, which the limit has to leave room for. -/
def oneMore (limit matched : Nat) : Checked Nat :=
  if matched + 1 ≤ limit then .ok (matched + 1) else .error .pastLimit

/-- Repeats `p'` as long as it has matched fewer times than `limit`. -/
def repetitionFrom (p' : CheckedParser ε α) (step : β → α → β) (limit matched : Nat) (state : β)
    (s : List ε) : Checked (Parser.Run ε β) :=
  if limit ≤ matched then .ok ⟨state, matched, s, .limit⟩
  else if s.isEmpty then .ok ⟨state, matched, s, .endOfInput⟩
  else
    match p' s with
    | .error fault => .error fault
    | .ok (.ok rest value) =>
        if nativeLen s ≤ nativeLen rest then .ok ⟨state, matched, s, .noProgress⟩
        else
          match oneMore limit matched with
          | .error fault => .error fault
          | .ok matched' => repetitionFrom p' step limit matched' (step state value) rest
    | .ok (.fail error) => .ok ⟨state, matched, s, .failed error⟩
    | .ok .unfinished => .ok ⟨state, matched, s, .unfinished⟩
termination_by nativeLen s

/-- Repeats `p'` at most `limit` times. -/
def repetition (p' : CheckedParser ε α) (step : β → α → β) (limit : Nat) (state : β)
    (s : List ε) : Checked (Parser.Run ε β) :=
  repetitionFrom p' step limit 0 state s

/-- Repeats `p'` and lists the values. -/
def manyAs (lower upper : Nat) (kind : Parser.Stop ε → Kind) (p' : CheckedParser ε α) :
    CheckedParser ε (List α) := fun s => do
  let run ← repetition p' (fun done value => value :: done) upper [] s
  return run.answer lower kind (fun run => run.state.reverse) s

/-- Repeats `p'` and counts the matches. -/
def manyCount (lower : Nat) (p' : CheckedParser ε α) : CheckedParser ε Nat := fun s => do
  let run ← repetition p' (fun _ _ => ()) Parser.maxCount () s
  return run.answer lower (fun _ => .many1Count) Parser.Run.matched s

/-- Repeats `p'` and combines the values from left to right. -/
def foldAs (lower upper : Nat) (kind : Kind) (p' : CheckedParser ε α) (first : β)
    (combine : β → α → β) : CheckedParser ε β := fun s => do
  let run ← repetition p' combine upper first s
  return run.answer lower (fun _ => kind) Parser.Run.state s

/-- Repeats `p'` until `marker` matches, having yielded `done`, the last value first. -/
def manyTillFrom (p' : CheckedParser ε α) (marker : CheckedParser ε β) (done : List α)
    (s : List ε) : Checked (Reply ε (List α × β)) :=
  match marker s with
  | .error fault => .error fault
  | .ok (.ok rest mark) => .ok (.ok rest (done.reverse, mark))
  | .ok .unfinished => .ok .unfinished
  | .ok (.fail _) =>
      match p' s with
      | .error fault => .error fault
      | .ok (.ok rest value) =>
          if nativeLen rest < nativeLen s then manyTillFrom p' marker (value :: done) rest
          else .ok (.fail ⟨s, .manyTill⟩)
      | .ok (.fail error) => .ok (.fail error)
      | .ok .unfinished => .ok .unfinished
termination_by nativeLen s

/-- Repeats `p'` until `marker` matches. -/
def manyTill (p' : CheckedParser ε α) (marker : CheckedParser ε β) :
    CheckedParser ε (List α × β) :=
  manyTillFrom p' marker []

namespace Computes

variable {p' : CheckedParser ε α} {p : Parser ε α} {marker' : CheckedParser ε β}
  {marker : Parser ε β}

/-- **The count of a repetition stays within its limit**, wherever the matches
lead.  What the loop over the limit has left is the room below the limit. -/
theorem repetitionFrom (hp : p'.Computes p) (step : β → α → β) {limit matched room : Nat}
    (hroom : matched + room = limit) (state : β) (s : List ε) :
    CheckedParser.repetitionFrom p' step limit matched state s =
      .ok (Parser.repetitionFrom p step room matched state s) := by
  induction room generalizing matched state s with
  | zero =>
    -- no room is left exactly where the count has come to the limit
    have hfull : limit ≤ matched := by omega
    rw [CheckedParser.repetitionFrom, if_pos hfull]
    rfl
  | succ room ih =>
    -- the check of the limit has passed, so one more cannot go past it
    have hfree : ¬ limit ≤ matched := by omega
    rw [CheckedParser.repetitionFrom, if_neg hfree, Parser.repetitionFrom, hp s]
    by_cases hs : s.isEmpty = true
    · rw [if_pos hs, if_pos hs]
    · rw [if_neg hs, if_neg hs]
      cases p s with
      | ok rest value =>
        dsimp only
        by_cases hle : nativeLen s ≤ nativeLen rest
        · rw [if_pos hle, if_pos hle]
        · have hmore : oneMore limit matched = .ok (matched + 1) := if_pos (by omega)
          rw [if_neg hle, if_neg hle, hmore]
          exact ih (by omega) (step state value) rest
      | fail error => rfl
      | unfinished => rfl

/-- Any number of matches is made without a fault; the count cannot pass its limit. -/
theorem repetition (hp : p'.Computes p) (step : β → α → β) (limit : Nat) (state : β)
    (s : List ε) :
    CheckedParser.repetition p' step limit state s =
      .ok (Parser.repetition p step limit state s) :=
  hp.repetitionFrom step (Nat.zero_add limit) state s

/-- What is made of the values can fault as little as the loop itself. -/
theorem manyAs (lower upper : Nat) (kind : Parser.Stop ε → Kind) (hp : p'.Computes p) :
    (CheckedParser.manyAs lower upper kind p').Computes (.manyAs lower upper kind p) := by
  intro s
  unfold CheckedParser.manyAs
  rw [hp.repetition]
  rfl

theorem manyCount (lower : Nat) (hp : p'.Computes p) :
    (CheckedParser.manyCount lower p').Computes (.manyCount lower p) := by
  intro s
  unfold CheckedParser.manyCount
  rw [hp.repetition]
  rfl

/-- Combining values is the client's business and no checked operation. -/
theorem foldAs (lower upper : Nat) (kind : Kind) (hp : p'.Computes p) (first : β)
    (combine : β → α → β) :
    (CheckedParser.foldAs lower upper kind p' first combine).Computes
      (.foldAs lower upper kind p first combine) := by
  intro s
  unfold CheckedParser.foldAs
  rw [hp.repetition]
  rfl

/-- By induction on what is left, as the loop itself. -/
theorem manyTillFrom (hp : p'.Computes p) (hm : marker'.Computes marker) (done : List α)
    (s : List ε) :
    CheckedParser.manyTillFrom p' marker' done s = .ok (Parser.manyTillFrom p marker done s) := by
  fun_induction Parser.manyTillFrom p marker done s with
  | case1 done s rest mark h => rw [CheckedParser.manyTillFrom, hm s, h]
  | case2 done s h => rw [CheckedParser.manyTillFrom, hm s, h]
  | case3 done s error h rest value hs hlt ih =>
    rw [CheckedParser.manyTillFrom, hm s, h, hp s, hs]
    dsimp only
    rw [if_pos hlt, ih]
  | case4 done s error h rest value hs hlt =>
    rw [CheckedParser.manyTillFrom, hm s, h, hp s, hs]
    dsimp only
    rw [if_neg hlt]
  | case5 done s error h error' hs => rw [CheckedParser.manyTillFrom, hm s, h, hp s, hs]
  | case6 done s error h hs => rw [CheckedParser.manyTillFrom, hm s, h, hp s, hs]

theorem manyTill (hp : p'.Computes p) (hm : marker'.Computes marker) :
    (CheckedParser.manyTill p' marker').Computes (.manyTill p marker) :=
  hp.manyTillFrom hm []

end Computes

/-! ## §5. Stretches of the input. -/

/-- Takes `n` elements. -/
def take (n : Nat) : CheckedParser ε (List ε) := fun s => do
  match ← Checked.take? s n with
  | some (taken, rest) => return .ok rest taken
  | none => return .fail ⟨s, .eof⟩

/-- Cuts the input: takes what is in front, leaves what is behind. -/
def cutAt (offset : Nat) : CheckedParser ε (List ε) := fun s => do
  let parts ← Checked.split s offset
  return .ok parts.2 parts.1

/-- Takes all that is left. -/
def rest : CheckedParser ε (List ε) := fun s => cutAt (nativeLen s) s

/-- Takes elements as long as they satisfy `p`. -/
def takeWhile (p : ε → Bool) : CheckedParser ε (List ε) := fun s =>
  cutAt (Sequence.spanWhile p s) s

/-- Takes elements as long as they satisfy `p`, at least one. -/
def takeWhileSome (kind : Kind) (p : ε → Bool) : CheckedParser ε (List ε) := fun s =>
  let offset := Sequence.spanWhile p s
  if offset = 0 then .ok (.fail ⟨s, kind⟩) else cutAt offset s

/-- Takes elements as long as they satisfy `p`, no more than `upper` of them and
no fewer than `lower`. -/
def takeWhileBounded (lower upper : Nat) (p : ε → Bool) : CheckedParser ε (List ε) := fun s =>
  let found := ((s.take upper).takeWhile p).length
  if found < lower then .ok (.fail ⟨s, .takeWhileBounded⟩)
  else cutAt ((Sequence.offsetAt found s).getD (nativeLen s)) s

/-- Takes one element that satisfies `p`. -/
def element (kind : Kind) (p : ε → Bool) : CheckedParser ε ε := fun s =>
  andThen (once (.mapKind kind) (take 1) s) fun rest taken => do
    match ← Checked.next? taken with
    | some (e, _) => return if p e then .ok rest e else .fail ⟨s, kind⟩
    | none => return .fail ⟨s, kind⟩

/-- Elements are counted off first, so the cut falls between them. -/
theorem computes_take (n : Nat) : (take n : CheckedParser ε (List ε)).Computes (.take n) := by
  intro s
  unfold take
  rw [Checked.take?_eq, ok_bind, Parser.take]
  cases Sequence.take? s n <;> rfl

/-- A cut at the width of a prefix is made between elements. -/
theorem cutAt_of_prefix {offset : Nat} {p s : List ε} (hp : p <+: s) (h : offset = nativeLen p) :
    cutAt offset s = .ok (Parser.cutAt offset s) := by
  obtain ⟨t, rfl⟩ := hp
  subst h
  unfold cutAt
  rw [Checked.split_nativeLen, Parser.cutAt_nativeLen]
  rfl

theorem computes_rest : (rest : CheckedParser ε (List ε)).Computes .rest := fun s =>
  cutAt_of_prefix (List.prefix_refl s) rfl

/-- The elements that satisfy a predicate are a prefix, and the cut falls behind it. -/
theorem computes_takeWhile (p : ε → Bool) : (takeWhile p).Computes (.takeWhile p) := fun s =>
  cutAt_of_prefix (List.takeWhile_prefix p) (Parser.spanWhile_eq p s)

/-- The same cut; that there is nothing to cut off is no fault but a failure. -/
theorem computes_takeWhileSome (kind : Kind) (p : ε → Bool) :
    (takeWhileSome kind p).Computes (.takeWhileSome kind p) := by
  intro s
  unfold takeWhileSome
  rw [Parser.takeWhileSome]
  by_cases hnone : Sequence.spanWhile p s = 0
  · rw [if_pos hnone, if_pos hnone]
  · rw [if_neg hnone, if_neg hnone]
    exact cutAt_of_prefix (List.takeWhile_prefix p) (Parser.spanWhile_eq p s)

/-- The offset of the elements counted is looked up, and is there. -/
theorem computes_takeWhileBounded (lower upper : Nat) (p : ε → Bool) :
    (takeWhileBounded lower upper p).Computes (.takeWhileBounded lower upper p) := by
  intro s
  unfold takeWhileBounded
  rw [Parser.takeWhileBounded]
  dsimp only
  by_cases hfew : ((s.take upper).takeWhile p).length < lower
  · rw [if_pos hfew, if_pos hfew]
  · rw [if_neg hfew, if_neg hfew]
    have hprefix : (s.take upper).takeWhile p <+: s :=
      (List.takeWhile_prefix p).trans (List.take_prefix upper s)
    -- the elements found are there, so they have an offset behind them
    have hoffset : (Sequence.offsetAt ((s.take upper).takeWhile p).length s).getD (nativeLen s) =
        nativeLen ((s.take upper).takeWhile p) := by
      rw [Sequence.offsetAt_eq, if_pos hprefix.length_le,
        ← List.prefix_iff_eq_take.mp hprefix]
      rfl
    exact cutAt_of_prefix hprefix hoffset

/-- One element is cut off and looked at. -/
theorem computes_element (kind : Kind) (p : ε → Bool) :
    (element kind p).Computes (.element kind p) := by
  intro s
  apply andThen_ok ((computes_take 1).mapKind kind s)
  intro rest taken
  rw [Checked.next?_eq, ok_bind]
  cases Sequence.next? taken <;> rfl

/-! ## §6. Literals. -/

/-- Takes as many elements as a literal has, and compares the two. -/
def compare (same : List ε → Bool) (literal : List ε) (value : List ε → List ε) :
    CheckedParser ε (List ε) := fun s =>
  andThen (once (.mapKind .tag) (take literal.length) s) fun rest candidate =>
    .ok (if same candidate then .ok rest (value candidate) else .fail ⟨s, .tag⟩)

/-- The first of several offsets such that `p'` matches what a sequence has from
there on. -/
def findOffset? (p' : CheckedParser ε α) (s : List ε) : List (Nat × ε) → Checked (Option Nat)
  | [] => .ok none
  | (offset, _) :: places => do
      let parts ← Checked.split s offset
      let reply ← p' parts.2
      if reply.isOk then return some offset else findOffset? p' s places

/-- A stretch as long as the literal is cut off first and compared afterwards. -/
theorem computes_compare (same : List ε → Bool) (literal : List ε) (value : List ε → List ε) :
    (compare same literal value).Computes fun s =>
      (Parser.mapKind .tag (.take literal.length) s).andThen fun rest candidate =>
        if same candidate then .ok rest (value candidate) else .fail ⟨s, .tag⟩ := fun s =>
  andThen_ok ((computes_take literal.length).mapKind .tag s) fun _ _ => rfl

/-- The offsets of the elements are boundaries, so each of them is tried. -/
theorem Computes.findOffset? {p' : CheckedParser ε α} {p : Parser ε α} (hp : p'.Computes p)
    (front s : List ε) :
    CheckedParser.findOffset? p' (front ++ s)
        (Sequence.elementIndices.go (nativeLen front) s) =
      .ok ((Sequence.findOffset? (fun t => (p t).isOk) s).map (nativeLen front + ·)) := by
  induction s generalizing front with
  | nil => rfl
  | cons e s ih =>
    rw [Sequence.elementIndices.go, CheckedParser.findOffset?, Checked.split_nativeLen, ok_bind,
      hp (e :: s), ok_bind, Sequence.findOffset?]
    by_cases hmatch : (p (e :: s)).isOk = true
    · rw [if_pos hmatch, if_pos hmatch]
      rfl
    -- the next offset is that of a front with one element more
    · have hnext := ih (front ++ [e])
      rw [List.append_assoc, Sequence.nativeLen_append] at hnext
      rw [if_neg hmatch, if_neg hmatch, Option.map_map]
      refine hnext.trans ?_
      congr 2
      funext offset
      exact Nat.add_assoc _ _ _

/-- A place that is found is a boundary. -/
theorem cutAt_of_findOffset? {p : List ε → Bool} {s : List ε} {offset : Nat}
    (h : Sequence.findOffset? p s = some offset) :
    cutAt offset s = .ok (Parser.cutAt offset s) := by
  rw [Parser.findOffset?_eq] at h
  obtain ⟨parts, hparts, rfl⟩ := Option.map_eq_some_iff.mp h
  exact cutAt_of_prefix ⟨parts.2, Parser.append_of_splitBefore? hparts⟩ rfl

section Literal

variable [DecidableEq ε]

/-- Matches the elements of a literal, and yields the literal. -/
def tag (literal : List ε) : CheckedParser ε (List ε) :=
  compare (fun candidate => candidate = literal) literal fun _ => literal

/-- Takes elements up to the first place before the end of the input where the
literal follows; a place that may not be where it starts, if `someTaken`. -/
def takeUntil (someTaken : Bool) (literal : List ε) : CheckedParser ε (List ε) := fun s => do
  match ← findOffset? (tag literal) s (Sequence.elementIndices s) with
  | none => return .fail ⟨s, .takeUntil⟩
  | some offset =>
      if someTaken && offset == 0 then return .fail ⟨s, .takeUntil⟩ else cutAt offset s

/-- A literal is compared element by element. -/
theorem computes_tag (literal : List ε) : (tag literal).Computes (.tag literal) := by
  intro s
  unfold tag
  rw [computes_compare, Parser.tag]
  simp only [decide_eq_true_eq]

/-- The search tries the literal at every offset, and none of the tries faults. -/
theorem findOffset?_tag (literal s : List ε) :
    findOffset? (tag literal) s (Sequence.elementIndices s) =
      .ok (Sequence.findOffset? (fun t => (Parser.tag literal t).isOk) s) := by
  have h := (computes_tag literal).findOffset? [] s
  simp only [Sequence.nativeLen_nil, Nat.zero_add, Option.map_id'] at h
  exact h

/-- The search ends at the offset of an element, or finds nothing. -/
theorem computes_takeUntil (literal : List ε) :
    (takeUntil false literal).Computes (.takeUntil literal) := by
  intro s
  unfold takeUntil
  rw [findOffset?_tag, ok_bind, Parser.takeUntil]
  cases h : Sequence.findOffset? (fun t => (Parser.tag literal t).isOk) s with
  | none => rfl
  | some offset => exact cutAt_of_findOffset? h

theorem computes_takeUntil1 (literal : List ε) :
    (takeUntil true literal).Computes (.takeUntil1 literal) := by
  intro s
  unfold takeUntil
  rw [findOffset?_tag, ok_bind, Parser.takeUntil1]
  cases h : Sequence.findOffset? (fun t => (Parser.tag literal t).isOk) s with
  | none => rfl
  | some offset =>
    dsimp only
    by_cases hzero : offset = 0
    · subst hzero
      rfl
    · rw [if_neg (by simpa using hzero), if_neg hzero]
      exact cutAt_of_findOffset? h

end Literal

/-! ## §7. What was used up, and parsers run on a part of the input. -/

/-- Runs `p'` and yields what it used up next to its value. -/
def consumed (p' : CheckedParser ε α) : CheckedParser ε (List ε × α) := fun s =>
  andThen (p' s) fun rest value => do
    let used ← Checked.consumed s rest
    return .ok rest (used, value)

/-- Runs `p'` and yields what it used up. -/
def recognize (p' : CheckedParser ε α) : CheckedParser ε (List ε) := fun s =>
  andThen (p' s) fun rest _ => do
    let used ← Checked.consumed s rest
    return .ok rest used

/-- Runs a parser on a part `view` of the input, which is taken to start where
`outer` starts, and leaves `rest`. -/
def within (p' : CheckedParser ε α) (view outer rest : List ε) : Checked (Reply ε α) :=
  andThen (orElse (p' view) fun error => do
    let moved ← Checked.rebase view outer error
    return .fail moved) fun _ value => .ok (.ok rest value)

/-- Runs `outer`, and then `inner` on the slice that `outer` yields. -/
def mapParser (outer : CheckedParser ε (List ε)) (inner : CheckedParser ε β) :
    CheckedParser ε β := fun s =>
  andThen (outer s) fun rest slice => within inner slice s rest

namespace Computes

variable {p' : CheckedParser ε α} {p : Parser ε α}

/-- What was used up is cut off between elements, whatever the parser leaves. -/
theorem consumed (hp : p'.Computes p) : (CheckedParser.consumed p').Computes (.consumed p) := by
  intro s
  apply andThen_ok (hp s)
  intro rest value
  rw [Checked.consumed_eq]
  rfl

theorem recognize (hp : p'.Computes p) :
    (CheckedParser.recognize p').Computes (.recognize p) := by
  intro s
  apply andThen_ok (hp s)
  intro rest value
  rw [Checked.consumed_eq]
  rfl

/-- Wherever the parser fails in its part, the error is told as one in the input. -/
theorem within (hp : p'.Computes p) (view outer rest : List ε) :
    CheckedParser.within p' view outer rest =
      .ok (((p view).mapError (·.rebase view outer)).andThen fun _ value => .ok rest value) := by
  apply andThen_ok ?_ fun _ _ => rfl
  apply orElse_ok (hp view)
  intro error
  rw [Checked.rebase_eq]
  rfl

/-- An error inside a slice is carried over without a fault, wherever it is. -/
theorem mapParser {outer' : CheckedParser ε (List ε)} {outer : Parser ε (List ε)}
    (houter : outer'.Computes outer) (hp : p'.Computes p) :
    (CheckedParser.mapParser outer' p').Computes (.mapParser outer p) := fun s =>
  andThen_ok (houter s) fun rest slice => hp.within slice s rest

end Computes

/-! ## §8. Behind a length. -/

section Framing

variable [AsLength α]

/-- Reads a length, takes so many elements and runs `p'` inside them. -/
def lengthValue (counter : CheckedParser ε α) (p' : CheckedParser ε β) : CheckedParser ε β :=
  fun s =>
    andThen (once .readLength counter s) fun afterPrefix n =>
      andThen (take n afterPrefix) fun rest block => within p' block afterPrefix rest

omit [Element ε] in
/-- Reads a length and then so many values of `p'`. -/
def lengthCount (counter : CheckedParser ε α) (p' : CheckedParser ε β) :
    CheckedParser ε (List β) :=
  flatMap (once .readLength counter) fun n => count n p'

/-- Reads a length and then takes so many elements. -/
def lengthData (counter : CheckedParser ε α) : CheckedParser ε (List ε) :=
  flatMap (once .readLength counter) take

namespace Computes

variable {counter' : CheckedParser ε α} {counter : Parser ε α} {p' : CheckedParser ε β}
  {p : Parser ε β}

omit [Element ε] in
/-- A value is turned into a length without a cut. -/
theorem readLength (hc : counter'.Computes counter) :
    (CheckedParser.once .readLength counter').Computes (.readLength counter) :=
  hc.once fun _ => rfl

/-- The block is cut off behind its length, and an error inside it carried over. -/
theorem lengthValue (hc : counter'.Computes counter) (hp : p'.Computes p) :
    (CheckedParser.lengthValue counter' p').Computes (.lengthValue counter p) := fun s =>
  andThen_ok (hc.readLength s) fun afterPrefix n =>
    andThen_ok (computes_take n afterPrefix) fun rest block => hp.within block afterPrefix rest

omit [Element ε] in
theorem lengthCount (hc : counter'.Computes counter) (hp : p'.Computes p) :
    (CheckedParser.lengthCount counter' p').Computes (.lengthCount counter p) :=
  hc.readLength.flatMap fun n => hp.count n

theorem lengthData (hc : counter'.Computes counter) :
    (CheckedParser.lengthData counter').Computes (.lengthData counter) :=
  hc.readLength.flatMap computes_take

end Computes

end Framing

/-! ## §9. Elements that stand for characters. -/

section Ascii

variable [CharLike ε]

/-- Matches as many elements as the literal has, each the same letter. -/
def tagNoCase (literal : List ε) : CheckedParser ε (List ε) :=
  compare (fun candidate => (candidate.zip literal).all fun pair =>
    CharLike.sameLetter pair.1 pair.2) literal id

omit [CharLike ε] in
/-- What was found, and without it the empty sequence at the front of `s`. -/
def orFront (s : List ε) : (found : Option (List ε)) → Checked (List ε)
  | some matched => .ok matched
  | none => do return (← Checked.split s 0).1

/-- Takes elements of a class, at least one if `minOne`. -/
def elementsOf (c : CharClass) (minOne : Bool) : CheckedParser ε (List ε) := fun s =>
  andThen (once (.ignoreKind .isA) (takeWhileSome .isA (CharLike.inTable c.table)) s)
    fun rest found => do
      let matched ← orFront s found
      return if minOne && matched.isEmpty then .fail ⟨s, c.kind⟩ else .ok rest matched

/-- Takes the longest run of elements of a table and reads it. -/
def literal (table : List Char) (kind : Kind) (read : List Char → Option α) :
    CheckedParser ε α := fun s =>
  andThen (takeWhileSome kind (CharLike.inTable table) s) fun rest run =>
    .ok (Reply.convert s kind ((Numeral.withoutSeparators? (CharLike.render run)).bind read)
      (Reply.ok rest))

theorem computes_tagNoCase (literal : List ε) :
    (tagNoCase literal).Computes (.tagNoCase literal) :=
  computes_compare _ literal id

/-- What is read is the run that was cut off, and reading makes no cut. -/
theorem computes_literal (table : List Char) (kind : Kind) (read : List Char → Option α) :
    (literal table kind read : CheckedParser ε α).Computes (.literal table kind read) := fun s =>
  andThen_ok (computes_takeWhileSome kind _ s) fun _ _ => rfl

omit [CharLike ε] in
/-- The empty sequence at the front is cut off without a fault. -/
theorem orFront_eq (s : List ε) (found : Option (List ε)) :
    orFront s found = .ok (found.getD []) := by
  cases found with
  | some matched => rfl
  | none =>
    have hfront : Checked.split s 0 = .ok ([], s) := Checked.split_nativeLen [] s
    rw [orFront, hfront]
    rfl

/-- A class is a run of its elements that may be missing, and one that is missing
may be too few. -/
theorem class_apply (c : CharClass) (minOne : Bool) (s : List ε) :
    (if minOne then Parser.class1 c else Parser.class0 c) s =
      (Parser.ignoreKind .isA (.takeWhileSome .isA (CharLike.inTable c.table)) s).andThen
        fun rest found =>
          if minOne && (found.getD []).isEmpty then .fail ⟨s, c.kind⟩
          else .ok rest (found.getD []) := by
  have hclass0 := Parser.takeWhile_apply (CharLike.inTable c.table) s
  have hclass1 := Parser.takeWhileSome_apply c.kind (CharLike.inTable c.table) s
  rw [Parser.ignoreKind, Parser.takeWhileSome_apply]
  by_cases hnone : s.takeWhile (CharLike.inTable c.table) = []
  -- nothing is found, so all of the input is left
  · have hdrop := List.takeWhile_append_dropWhile (p := CharLike.inTable c.table) (l := s)
    rw [hnone, List.nil_append] at hdrop
    rw [hnone, hdrop] at hclass0
    rw [if_pos hnone] at hclass1
    rw [if_pos hnone]
    cases minOne with
    | true => exact hclass1
    | false => exact hclass0
  · have hsome : (s.takeWhile (CharLike.inTable c.table)).isEmpty = false := by simpa using hnone
    rw [if_neg hnone] at hclass1
    rw [if_neg hnone]
    simp only [Reply.map_ok, Reply.orElse_ok, Reply.andThen_ok, Option.getD_some, hsome,
      Bool.and_false, Bool.false_eq_true, if_false]
    cases minOne with
    | true => exact hclass1
    | false => exact hclass0

/-- So the parser of a class computes without a fault, by way of the empty sequence
where it finds nothing. -/
theorem computes_elementsOf (c : CharClass) (minOne : Bool) :
    (elementsOf c minOne : CheckedParser ε (List ε)).Computes
      (if minOne then .class1 c else .class0 c) := by
  intro s
  rw [class_apply]
  apply andThen_ok ((computes_takeWhileSome .isA _).once (fun _ => rfl) s)
  intro rest found
  rw [orFront_eq, ok_bind]
  rfl

variable [DecidableEq ε]

/-- Takes a line feed, with or without a carriage return in front of it. -/
def lineEnding : CheckedParser ε (List ε) :=
  once (.mapKind .crlf)
    (firstOf (recognize (element .char (· == CharLike.ofByte 10)))
      [once (.mapKind .crlf) (tag [CharLike.ofByte 13, CharLike.ofByte 10])])

theorem computes_lineEnding : (lineEnding : CheckedParser ε (List ε)).Computes .lineEnding :=
  have hcrlf := (computes_tag [CharLike.ofByte 13, CharLike.ofByte 10]).mapKind .crlf
  have hnewline := (computes_element .char (· == CharLike.ofByte 10)).recognize
  (hnewline.firstOf (List.Forall₂.cons hcrlf .nil)).mapKind .crlf

end Ascii

end CheckedParser

end Parsing
