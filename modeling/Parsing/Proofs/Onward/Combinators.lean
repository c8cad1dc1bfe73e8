/-
  Parsing.Proofs.Onward.Combinators — PARSERS ONLY MOVE ON IN THEIR INPUT.

  A reply is *onward* from an input when it is about a suffix of it: what a
  success leaves, and the place that a failure names, are suffixes.  A parser
  is onward when all its replies are.  Backtracking and the places of errors
  rest on this: a place that is no suffix has no position in the input.

  Every combinator makes onward parsers of onward parsers, and one lemma for
  each of them says so.  The two that run a parser on a part of the input,
  `mapParser` and `lengthValue`, carry its errors over by `rebase`, which ends
  at a suffix whatever it is given (`rest_rebase_suffix`), so these two ask
  nothing of the parser that they run inside.
-/
import Parsing.Parser.Number
import Parsing.Parser.Sequencing
import Parsing.Parser.Framing
import Parsing.Proofs.Span

namespace Parsing

variable {ε α β γ : Type}

/-! ## §1. Onward replies. -/

/-- What a success leaves, or the place of a failure, is a suffix of `s`. -/
def Reply.Onward (s : List ε) : Reply ε α → Prop
  | .ok rest _ => rest <:+ s
  | .fail error => error.rest <:+ s
  | .unfinished => True

/-- All replies of the parser are about suffixes of its input. -/
def Parser.Onward (p : Parser ε α) : Prop := ∀ s, (p s).Onward s

namespace Reply.Onward

variable {s t : List ε} {r : Reply ε α}

theorem mono (h : r.Onward t) (hts : t <:+ s) : r.Onward s := by
  cases r with
  | ok rest value => exact List.IsSuffix.trans h hts
  | fail error => exact List.IsSuffix.trans h hts
  | unfinished => trivial

/-- What follows a success is onward from the whole input if it is from what was left. -/
theorem andThen {next : List ε → α → Reply ε β} (h : r.Onward s)
    (hnext : ∀ rest value, rest <:+ s → (next rest value).Onward s) :
    (r.andThen next).Onward s := by
  cases r with
  | ok rest value => exact hnext rest value h
  | fail error => exact h
  | unfinished => trivial

/-- What follows a failure may start at the input again. -/
theorem orElse {next : ParseError ε → Reply ε α} (h : r.Onward s)
    (hnext : ∀ error, error.rest <:+ s → (next error).Onward s) :
    (r.orElse next).Onward s := by
  cases r with
  | ok rest value => exact h
  | fail error => exact hnext error h
  | unfinished => trivial

theorem map (f : α → β) (h : r.Onward s) : (r.map f).Onward s :=
  h.andThen fun _ _ hrest => hrest

/-- A conversion that gives nothing fails at the place it is given. -/
theorem convert {place : List ε} {kind : Kind} {result : Option α} {next : α → Reply ε β}
    (hplace : place <:+ s) (hnext : ∀ value, (next value).Onward s) :
    (Reply.convert place kind result next).Onward s := by
  cases result with
  | some value => exact hnext value
  | none => exact hplace

/-- A failure where the parser was run is onward. -/
theorem here (s : List ε) (kind : Kind) : (Reply.fail ⟨s, kind⟩ : Reply ε α).Onward s :=
  List.suffix_refl s

end Reply.Onward

/-- What an onward parser leaves is a suffix of its input. -/
theorem Parser.Onward.rest_suffix {p : Parser ε α} (hp : p.Onward) {s rest : List ε} {value : α}
    (h : p s = .ok rest value) : rest <:+ s := by
  have hs := hp s
  rwa [h] at hs

/-! ## §2. Errors carried over from a part of the input. -/

namespace ParseError

variable [Element ε]

/-- Wherever an error was, told as one in `outer` it is at a suffix of it. -/
theorem rest_rebase_suffix (view outer : List ε) (error : ParseError ε) :
    (error.rebase view outer).rest <:+ outer :=
  Sequence.splitAt_clampOffset_suffix outer _

end ParseError

/-- A run inside a part of the input, its error carried over and its rest forgotten, is
onward whatever it came to. -/
theorem Reply.Onward.mapError_rebase [Element ε] {view outer s : List ε} (r : Reply ε α)
    (houter : outer <:+ s) (rest : List ε) (hrest : rest <:+ s) :
    ((r.mapError (·.rebase view outer)).andThen fun _ value => .ok rest value).Onward s := by
  cases r with
  | ok rest' value => exact hrest
  | fail error => exact (error.rest_rebase_suffix view outer).trans houter
  | unfinished => trivial

namespace Parser

/-! ## §3. Parsers that look at no element. -/

theorem onward_success (value : α) : (success value : Parser ε α).Onward := List.suffix_refl

theorem onward_fail (kind : Kind) : (fail kind : Parser ε α).Onward := List.suffix_refl

theorem onward_restLen : (restLen : Parser ε Nat).Onward := List.suffix_refl

theorem onward_eof : (eof : Parser ε (List ε)).Onward := by
  intro s
  rw [eof]
  split
  next => exact List.suffix_refl s
  next => exact .here s _

namespace Onward

variable {p : Parser ε α} {q : Parser ε β}

/-! ## §4. Changing values and errors, trying and looking ahead. -/

theorem map (f : α → β) (hp : p.Onward) : (Parser.map f p).Onward := fun s => (hp s).map f

/-- A partial map fails behind what its parser matched. -/
theorem mapRes (f : α → Option β) (hp : p.Onward) : (Parser.mapRes f p).Onward := fun s =>
  (hp s).andThen fun _ _ hrest => .convert hrest fun _ => hrest

/-- The next parser starts at what the first one left. -/
theorem flatMap {next : α → Parser ε β} (hp : p.Onward) (hnext : ∀ value, (next value).Onward) :
    (Parser.flatMap p next).Onward := fun s =>
  (hp s).andThen fun rest value hrest => (hnext value rest).mono hrest

/-- A check that fails does so where its parser was called. -/
theorem verify (check : α → Bool) (hp : p.Onward) : (Parser.verify check p).Onward := by
  intro s
  refine (hp s).andThen fun rest value hrest => ?_
  split
  next => exact hrest
  next => exact .here s _

/-- A change of errors that moves them on, if it moves them at all, is harmless. -/
theorem mapErr {f : ParseError ε → ParseError ε} (hf : ∀ error, (f error).rest <:+ error.rest)
    (hp : p.Onward) : (Parser.mapErr f p).Onward := fun s =>
  (hp s).orElse fun error herror => (hf error).trans herror

theorem mapKind (kind : Kind) (hp : p.Onward) : (Parser.mapKind kind p).Onward :=
  hp.mapErr fun error => List.suffix_refl error.rest

theorem ignoreKind (kind : Kind) (hp : p.Onward) : (Parser.ignoreKind kind p).Onward := by
  intro s
  refine ((hp s).map some).orElse fun error herror => ?_
  split
  next => exact List.suffix_refl s
  next => exact herror

theorem optional (hp : p.Onward) : (Parser.optional p).Onward := fun s =>
  ((hp s).map some).orElse fun _ _ => List.suffix_refl s

theorem peek (hp : p.Onward) : (Parser.peek p).Onward := fun s =>
  (hp s).andThen fun _ _ _ => List.suffix_refl s

/-- What is left, or where it failed, is the input itself, whatever `p` does. -/
theorem negate (p : Parser ε α) : (Parser.negate p).Onward := by
  intro s
  rw [Parser.negate]
  split
  next => exact .here s _
  next => exact List.suffix_refl s
  next => trivial

theorem conditional (enabled : Bool) (hp : p.Onward) : (Parser.conditional enabled p).Onward := by
  cases enabled with
  | true => exact hp.map some
  | false => exact onward_success none

/-- What is behind the parser is a place of its own input. -/
theorem allConsuming (hp : p.Onward) : (Parser.allConsuming p).Onward := by
  intro s
  refine (hp s).andThen fun rest value hrest => ?_
  split
  next => exact hrest
  next => exact hrest

/-- Taking the stretch that was used up leaves what the parser left. -/
theorem consumed [Element ε] (hp : p.Onward) : (Parser.consumed p).Onward := fun s =>
  (hp s).andThen fun _ _ hrest => hrest

theorem recognize [Element ε] (hp : p.Onward) : (Parser.recognize p).Onward := fun s =>
  (hp s).andThen fun _ _ hrest => hrest

/-- The parser that is run inside the slice may do anything. -/
theorem mapParser [Element ε] {outer : Parser ε (List ε)} (houter : outer.Onward)
    (inner : Parser ε β) : (Parser.mapParser outer inner).Onward := fun s =>
  (houter s).andThen fun rest slice hrest =>
    .mapError_rebase (inner slice) (List.suffix_refl s) rest hrest

/-! ## §5. One after another, one or another. -/

/-- The second parser starts where the first one stopped. -/
theorem pair (hp : p.Onward) (hq : q.Onward) : (Parser.pair p q).Onward := fun s =>
  (hp s).andThen fun rest _ hrest =>
    ((hq rest).mono hrest).andThen fun _ _ hrest' => hrest'

theorem preceded (hp : p.Onward) (hq : q.Onward) : (Parser.preceded p q).Onward :=
  (hp.pair hq).map Prod.snd

theorem terminated (hp : p.Onward) (hq : q.Onward) : (Parser.terminated p q).Onward :=
  (hp.pair hq).map Prod.fst

theorem delimited {r : Parser ε γ} (hp : p.Onward) (hq : q.Onward) (hr : r.Onward) :
    (Parser.delimited p q r).Onward :=
  (hp.pair (hq.pair hr)).map _

theorem separatedPair {r : Parser ε γ} (hp : p.Onward) (hq : q.Onward) (hr : r.Onward) :
    (Parser.separatedPair p q r).Onward :=
  (hp.pair (hq.pair hr)).map _

theorem chain {ps : List (Parser ε α)} (hps : ∀ p ∈ ps, p.Onward) : (Parser.chain ps).Onward := by
  induction ps with
  | nil => exact onward_success []
  | cons p ps ih =>
    have hp : p.Onward := hps p List.mem_cons_self
    have hrest := ih fun q hq => hps q (List.mem_cons_of_mem _ hq)
    exact (hp.pair hrest).map _

theorem multiple {ps : List (Parser ε α)} (hps : ∀ p ∈ ps, p.Onward) :
    (Parser.multiple ps).Onward := by
  intro s
  rw [multiple_eq_chain]
  exact chain hps s

/-- Both alternatives start at the same input. -/
theorem orElse {q : Parser ε α} (hp : p.Onward) (hq : q.Onward) : (Parser.orElse p q).Onward :=
  fun s => (hp s).orElse fun _ _ => hq s

theorem firstOf {ps : List (Parser ε α)} (hp : p.Onward) (hps : ∀ p ∈ ps, p.Onward) :
    (Parser.firstOf p ps).Onward := by
  induction ps generalizing p with
  | nil => exact hp
  | cons q ps ih =>
    exact hp.orElse (ih (hps q List.mem_cons_self) fun q hq => hps q (List.mem_cons_of_mem _ hq))

/-- Without any alternative the failure is at the input. -/
theorem alt {ps : List (Parser ε α)} (hps : ∀ p ∈ ps, p.Onward) : (Parser.alt ps).Onward := by
  intro s
  cases ps with
  | nil => exact .here s _
  | cons p ps =>
    rw [alt_cons_eq_firstOf]
    exact firstOf (hps p List.mem_cons_self) (fun q hq => hps q (List.mem_cons_of_mem _ hq)) s

/-! ## §6. Again and again. -/

/-- A loop answers at the place where it stopped or at the error that stopped it. -/
theorem answer {s : List ε} {run : Run ε β} (hrun : run.rest <:+ s) (lower : Nat)
    (kind : Stop ε → Kind) (value : Run ε β → γ) : (run.answer lower kind value s).Onward s := by
  rw [Run.answer]
  split
  next => trivial
  next =>
    split
    next => exact .here s _
    next => exact hrun

section Repetition

variable [Element ε]

/-- A repetition moves on by as many matches of `p` as it makes. -/
theorem rest_repetitionFrom_suffix {p : Parser ε α} (hp : p.Onward) (step : β → α → β)
    (limit matched : Nat) (state : β) (s : List ε) :
    (repetitionFrom p step limit matched state s).rest <:+ s := by
  apply @repetitionFrom_invariant ε α β _ p (fun _ t => t <:+ s)
  · intro _ t rest value h _ ht
    exact (hp.rest_suffix h).trans ht
  · exact List.suffix_refl s

theorem manyAs (lower upper : Nat) (kind : Stop ε → Kind) (hp : p.Onward) :
    (Parser.manyAs lower upper kind p).Onward := fun s =>
  answer (rest_repetitionFrom_suffix hp _ upper 0 [] s) lower kind _

theorem manyCount (lower : Nat) (hp : p.Onward) : (Parser.manyCount lower p).Onward := fun s =>
  answer (rest_repetitionFrom_suffix hp _ maxCount 0 () s) lower _ _

theorem foldAs (lower upper : Nat) (kind : Kind) (hp : p.Onward) (first : β)
    (combine : β → α → β) : (Parser.foldAs lower upper kind p first combine).Onward := fun s =>
  answer (rest_repetitionFrom_suffix hp combine upper 0 first s) lower _ _

/-- By the recursion of the loop, which tries its marker at each place it comes to. -/
theorem manyTillFrom {marker : Parser ε β} (hp : p.Onward) (hm : marker.Onward) (done : List α)
    (s : List ε) : (Parser.manyTillFrom p marker done s).Onward s := by
  fun_induction Parser.manyTillFrom p marker done s with
  | case1 done s rest mark h =>
    have hs := hm s
    rwa [h] at hs
  | case2 => trivial
  | case3 done s _ _ rest value h hlt ih =>
    have hs := hp s
    rw [h] at hs
    exact ih.mono hs
  | case4 done s => exact .here s _
  | case5 done s _ _ error h =>
    have hs := hp s
    rwa [h] at hs
  | case6 => trivial

theorem manyTill {marker : Parser ε β} (hp : p.Onward) (hm : marker.Onward) :
    (Parser.manyTill p marker).Onward :=
  manyTillFrom hp hm []

end Repetition

theorem countFrom (hp : p.Onward) (n : Nat) (done : Array α) :
    (Parser.countFrom p n done).Onward := by
  induction n generalizing done with
  | zero => exact List.suffix_refl
  | succ n ih =>
    exact fun s => (hp s).andThen fun rest value hrest => (ih (done.push value) rest).mono hrest

theorem count (n : Nat) (hp : p.Onward) : (Parser.count n p).Onward := countFrom hp n _

/-- The slots that were written are no part of a place. -/
theorem fill (hp : p.Onward) (slots : List α) (s : List ε) :
    (Parser.fill p slots s).1.Onward s := by
  induction slots generalizing s with
  | nil => exact List.suffix_refl s
  | cons old slots ih =>
    have hs := hp s
    rw [Parser.fill]
    cases h : p s with
    | ok rest value =>
      rw [h] at hs
      exact (ih rest).mono hs
    | fail error =>
      rw [h] at hs
      exact hs
    | unfinished => trivial

theorem filled (slots : List α) (hp : p.Onward) : (Parser.filled slots p).Onward := fun s =>
  (fill hp slots s).map _

end Onward

/-! ## §7. Stretches of the input. -/

section Span

variable [Element ε]

theorem onward_take (n : Nat) : (take n : Parser ε (List ε)).Onward := by
  intro s
  rw [take_apply]
  split
  next => exact List.drop_suffix n s
  next => exact .here s _

theorem onward_rest : (rest : Parser ε (List ε)).Onward := by
  intro s
  rw [rest_apply]
  exact List.nil_suffix

theorem onward_takeWhile (p : ε → Bool) : (takeWhile p).Onward := by
  intro s
  rw [takeWhile_apply]
  exact List.dropWhile_suffix p

theorem onward_takeWhileSome (kind : Kind) (p : ε → Bool) : (takeWhileSome kind p).Onward := by
  intro s
  rw [takeWhileSome_apply]
  split
  next => exact .here s _
  next => exact List.dropWhile_suffix p

theorem onward_takeWhileBounded (lower upper : Nat) (p : ε → Bool) :
    (takeWhileBounded lower upper p).Onward := by
  intro s
  rw [takeWhileBounded_apply]
  split
  next => exact .here s _
  next => exact List.drop_suffix _ s

theorem onward_element (kind : Kind) (p : ε → Bool) : (element kind p).Onward := by
  intro s
  cases s with
  | nil =>
    rw [element_nil]
    exact .here [] _
  | cons e s =>
    rw [element_cons]
    split
    next => exact List.suffix_cons e s
    next => exact .here (e :: s) _

variable [DecidableEq ε]

theorem onward_tag (literal : List ε) : (tag literal).Onward := by
  intro s
  rw [tag_apply]
  split
  next => exact List.drop_suffix _ s
  next => exact .here s _

theorem onward_takeUntil (literal : List ε) : (takeUntil literal).Onward := by
  intro s
  rw [takeUntil_apply]
  split
  next => exact .here s _
  next a b h =>
    rw [← append_of_splitBefore? h]
    exact List.suffix_append a b

/-- With the literal in front already, the failure is at the input. -/
theorem onward_takeUntil1 (literal : List ε) : (takeUntil1 literal).Onward := by
  intro s
  rw [takeUntil1_apply]
  split
  next => exact .here s _
  next a b h =>
    split
    next => exact .here s _
    next =>
      rw [← append_of_splitBefore? h]
      exact List.suffix_append a b

end Span

/-! ## §8. Behind a length. -/

section Framing

variable [AsLength α] {counter : Parser ε α} {p : Parser ε β}

/-- A number that is no length is a failure at the input. -/
theorem onward_readLength (hc : counter.Onward) : (readLength counter).Onward := fun s =>
  (hc s).andThen fun _ _ hrest => .convert (List.suffix_refl s) fun _ => hrest

theorem onward_lengthCount (hc : counter.Onward) (hp : p.Onward) :
    (lengthCount counter p).Onward :=
  (onward_readLength hc).flatMap fun n => hp.count n

theorem onward_lengthData [Element ε] (hc : counter.Onward) : (lengthData counter).Onward :=
  (onward_readLength hc).flatMap onward_take

/-- The parser that is run inside the block may do anything. -/
theorem onward_lengthValue [Element ε] (hc : counter.Onward) (p : Parser ε β) :
    (lengthValue counter p).Onward := fun s =>
  (onward_readLength hc s).andThen fun afterPrefix n hafter =>
    ((onward_take n afterPrefix).mono hafter).andThen fun rest block hrest =>
      .mapError_rebase (p block) hafter rest hrest

end Framing

/-! ## §9. Elements that stand for characters. -/

section Ascii

variable [Element ε] [CharLike ε]

theorem onward_tagNoCase (literal : List ε) : (tagNoCase literal).Onward := by
  intro s
  refine ((onward_take literal.length).mapKind .tag s).andThen fun rest candidate hrest => ?_
  split
  next => exact hrest
  next => exact .here s _

/-- A number literal fails at the input if its run cannot be read. -/
theorem onward_literal (table : List Char) (kind : Kind) (read : List Char → Option α) :
    (literal table kind read : Parser ε α).Onward := fun s =>
  (onward_takeWhileSome kind _ s).andThen fun _ _ hrest =>
    .convert (List.suffix_refl s) fun _ => hrest

theorem onward_lineEnding [DecidableEq ε] : (lineEnding : Parser ε (List ε)).Onward :=
  ((onward_element _ _).recognize.orElse ((onward_tag _).mapKind .crlf)).mapKind .crlf

end Ascii

end Parser

end Parsing
