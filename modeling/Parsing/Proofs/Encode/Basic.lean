/-
  Parsing.Proofs.Encode.Basic — ONE SEQUENCE WRITTEN IN OTHER ELEMENTS.

  An *encoding* writes each element as a word of other elements, which is not
  empty: a character as its UTF-8 bytes, for example, or as its code point.  A
  sequence is then encoded word by word.  Counts and widths change, and there
  are places in the encoded sequence that are none in the original one; but
  what follows a place goes to what follows a place, and something goes to
  something.

  Replies about a sequence and about its encoding *correspond* when they are of
  the same sort, with encoded rests and places, the same kinds of error, and
  values that a given relation relates.

  Main statements: `nativeLen_le_iff` (progress is the same in both
  sequences), `consumed_sequence`, `rebase_error`, and one lemma for each way
  to go on with a reply.
-/
import Mathlib.Data.List.Forall2
import Parsing.Proofs.Nesting
import Parsing.Proofs.Onward.Combinators

namespace Parsing

/-- A way to write elements as words of other elements. -/
structure Encoding (ε ζ : Type) where
  word : ε → List ζ
  word_ne_nil : ∀ e, word e ≠ []

namespace Encoding

variable {ε ζ : Type} (φ : Encoding ε ζ)

/-! ## §1. Sequences. -/

/-- A sequence word by word. -/
def sequence (s : List ε) : List ζ := s.flatMap φ.word

@[simp] theorem sequence_nil : φ.sequence [] = [] := rfl

@[simp] theorem sequence_cons (e : ε) (s : List ε) :
    φ.sequence (e :: s) = φ.word e ++ φ.sequence s := rfl

/-- Sequences are encoded piece by piece. -/
@[simp] theorem sequence_append (s t : List ε) :
    φ.sequence (s ++ t) = φ.sequence s ++ φ.sequence t := List.flatMap_append

/-- No word is empty, so only the empty sequence is encoded by nothing. -/
@[simp] theorem sequence_eq_nil_iff {s : List ε} : φ.sequence s = [] ↔ s = [] := by
  cases s with
  | nil => simp
  | cons e s => simp [φ.word_ne_nil e]

/-- The end of the input is the end of its encoding. -/
theorem isEmpty_sequence (s : List ε) : (φ.sequence s).isEmpty = s.isEmpty := by
  rw [Bool.eq_iff_iff, List.isEmpty_iff, List.isEmpty_iff, sequence_eq_nil_iff]

/-- What is left is encoded by the end of the encoding. -/
theorem sequence_suffix {s t : List ε} (h : t <:+ s) : φ.sequence t <:+ φ.sequence s := by
  obtain ⟨p, rfl⟩ := h
  rw [sequence_append]
  exact List.suffix_append _ _

/-- An error at the same place of the encoded sequence. -/
def error (error : ParseError ε) : ParseError ζ := ⟨φ.sequence error.rest, error.kind⟩

variable [Element ε] [Element ζ]

/-- What a parser left is as much as it was given in both sequences or in neither. -/
theorem nativeLen_le_iff {s rest : List ε} (h : rest <:+ s) :
    Sequence.nativeLen (φ.sequence s) ≤ Sequence.nativeLen (φ.sequence rest) ↔
      Sequence.nativeLen s ≤ Sequence.nativeLen rest := by
  obtain ⟨used, rfl⟩ := h
  have hused : Sequence.nativeLen (φ.sequence used) = 0 ↔ Sequence.nativeLen used = 0 := by
    rw [Sequence.nativeLen_eq_zero_iff, Sequence.nativeLen_eq_zero_iff, sequence_eq_nil_iff]
  rw [sequence_append, Sequence.nativeLen_append, Sequence.nativeLen_append]
  omega

/-- What was used up is encoded by what was used up of the encoding. -/
theorem consumed_sequence {s rest : List ε} (h : rest <:+ s) :
    Sequence.consumed (φ.sequence s) (φ.sequence rest) =
      φ.sequence (Sequence.consumed s rest) := by
  obtain ⟨used, rfl⟩ := h
  rw [sequence_append, Sequence.consumed_append, Sequence.consumed_append]

/-- Carrying an error over from a part at the front is the same in both sequences. -/
theorem rebase_error {view outer : List ε} (houter : view <+: outer) {error : ParseError ε}
    (h : error.rest <:+ view) :
    (φ.error error).rebase (φ.sequence view) (φ.sequence outer) =
      φ.error (error.rebase view outer) := by
  obtain ⟨after, rfl⟩ := houter
  obtain ⟨e, kind⟩ := error
  rw [ParseError.rebase_append h, sequence_append]
  show ParseError.rebase _ _ ⟨φ.sequence e, kind⟩ = ⟨φ.sequence (e ++ after), kind⟩
  rw [ParseError.rebase_append (φ.sequence_suffix h), sequence_append]

end Encoding

/-! ## §2. Replies. -/

variable {ε ζ α β γ δ : Type}

/-- A reply about a sequence, and one about its encoding that says the same; the
values are related by `V`. -/
inductive Reply.Encoded (φ : Encoding ε ζ) (V : α → β → Prop) : Reply ε α → Reply ζ β → Prop
  | ok (rest : List ε) {v : α} {w : β} (h : V v w) :
      Encoded φ V (.ok rest v) (.ok (φ.sequence rest) w)
  | fail (error : ParseError ε) : Encoded φ V (.fail error) (.fail (φ.error error))
  | unfinished : Encoded φ V .unfinished .unfinished

namespace Reply.Encoded

variable {φ : Encoding ε ζ} {V : α → β → Prop} {W : γ → δ → Prop} {r : Reply ε α} {r' : Reply ζ β}

/-- Replies that agree on their values agree in any weaker sense. -/
theorem mono {V' : α → β → Prop} (h : Encoded φ V r r') (hV : ∀ v w, V v w → V' v w) :
    Encoded φ V' r r' := by
  cases h with
  | ok rest hv => exact .ok rest (hV _ _ hv)
  | fail error => exact .fail error
  | unfinished => exact .unfinished

/-- After successes that agree, the next steps are run on an input and its encoding. -/
theorem andThen {next : List ε → α → Reply ε γ} {next' : List ζ → β → Reply ζ δ}
    (h : Encoded φ V r r')
    (hnext : ∀ rest v w, r = .ok rest v → V v w →
      Encoded φ W (next rest v) (next' (φ.sequence rest) w)) :
    Encoded φ W (r.andThen next) (r'.andThen next') := by
  cases h with
  | ok rest hv => exact hnext rest _ _ rfl hv
  | fail error => exact .fail error
  | unfinished => exact .unfinished

/-- After failures that agree, the next tries get an error and its encoding. -/
theorem orElse {next : ParseError ε → Reply ε α} {next' : ParseError ζ → Reply ζ β}
    (h : Encoded φ V r r')
    (hnext : ∀ error, r = .fail error → Encoded φ V (next error) (next' (φ.error error))) :
    Encoded φ V (r.orElse next) (r'.orElse next') := by
  cases h with
  | ok rest hv => exact .ok rest hv
  | fail error => exact hnext error rfl
  | unfinished => exact .unfinished

/-- Values that agree are changed to values that agree. -/
theorem map {f : α → γ} {f' : β → δ} (h : Encoded φ V r r') (hf : ∀ v w, V v w → W (f v) (f' w)) :
    Encoded φ W (r.map f) (r'.map f') :=
  h.andThen fun rest v w _ hv => .ok rest (hf v w hv)

/-- Errors that agree are changed to errors that agree. -/
theorem mapError {f : ParseError ε → ParseError ε} {f' : ParseError ζ → ParseError ζ}
    (h : Encoded φ V r r')
    (hf : ∀ error, r = .fail error → f' (φ.error error) = φ.error (f error)) :
    Encoded φ V (r.mapError f) (r'.mapError f') :=
  h.orElse fun error herror => by
    rw [hf error herror]
    exact .fail _

/-- Both conversions have a result or neither has, and then the failures are at the same
place. -/
theorem convert {place : List ε} {kind : Kind} {result : Option α} {result' : Option β}
    (h : Option.Rel V result result') {next : α → Reply ε γ} {next' : β → Reply ζ δ}
    (hnext : ∀ v w, V v w → Encoded φ W (next v) (next' w)) :
    Encoded φ W (Reply.convert place kind result next)
      (Reply.convert (φ.sequence place) kind result' next') := by
  cases h with
  | some hv => exact hnext _ _ hv
  | none => exact .fail ⟨place, kind⟩

/-- The error of a parser run in a part at the front, told as one in the whole,
and the value of a success behind the part. -/
theorem mapError_rebase [Element ε] [Element ζ] {view outer rest : List ε}
    (h : Encoded φ V r r') (hview : view <+: outer) (hr : r.Onward view) :
    Encoded φ V ((r.mapError (·.rebase view outer)).andThen fun _ value => .ok rest value)
      ((r'.mapError (·.rebase (φ.sequence view) (φ.sequence outer))).andThen
        fun _ value => .ok (φ.sequence rest) value) := by
  refine (h.mapError fun error herror => ?_).andThen fun _ v w _ hv => .ok rest hv
  subst herror
  exact φ.rebase_error hview hr

end Reply.Encoded

end Parsing
