/-
  Parsing.Reply — WHAT A RUN OF A PARSER COMES TO.

  A run succeeds with a rest and a value, or fails with an error, or is
  *unfinished*: it was cut off because too many rules of a grammar were open
  at once.  Only the first two are answers.  A run that is cut off says
  nothing about the input, so no combinator may take it for a failure and try
  something else: it is passed on as it is.
-/
import Parsing.ParseError

namespace Parsing

/-- The outcome of running a parser on an input. -/
inductive Reply (ε α : Type) where
  | ok (rest : List ε) (value : α)
  | fail (error : ParseError ε)
  | unfinished

namespace Reply

variable {ε α β : Type}

/-- Goes on after a success. -/
@[inline]
def andThen (r : Reply ε α) (next : List ε → α → Reply ε β) : Reply ε β :=
  match r with
  | ok rest value => next rest value
  | fail error => fail error
  | unfinished => unfinished

/-- Goes on after a failure. -/
@[inline]
def orElse (r : Reply ε α) (next : ParseError ε → Reply ε α) : Reply ε α :=
  match r with
  | ok rest value => ok rest value
  | fail error => next error
  | unfinished => unfinished

/-- The same outcome with another value. -/
def map (f : α → β) (r : Reply ε α) : Reply ε β := r.andThen fun rest value => ok rest (f value)

/-- The same outcome with another error. -/
def mapError (f : ParseError ε → ParseError ε) (r : Reply ε α) : Reply ε α :=
  r.orElse fun error => fail (f error)

/-- Goes on with the result of a conversion; without a result it is an error of
the given kind at `place`. -/
def convert (place : List ε) (kind : Kind) (result : Option α) (next : α → Reply ε β) :
    Reply ε β :=
  match result with
  | some value => next value
  | none => fail ⟨place, kind⟩

/-- Whether the run succeeded. -/
def isOk : Reply ε α → Bool
  | ok _ _ => true
  | _ => false

@[simp] theorem andThen_ok (rest : List ε) (value : α) (next : List ε → α → Reply ε β) :
    (ok rest value).andThen next = next rest value := rfl

@[simp] theorem andThen_fail (error : ParseError ε) (next : List ε → α → Reply ε β) :
    (fail error : Reply ε α).andThen next = fail error := rfl

@[simp] theorem andThen_unfinished (next : List ε → α → Reply ε β) :
    (unfinished : Reply ε α).andThen next = unfinished := rfl

@[simp] theorem orElse_ok (rest : List ε) (value : α) (next : ParseError ε → Reply ε α) :
    (ok rest value).orElse next = ok rest value := rfl

@[simp] theorem orElse_fail (error : ParseError ε) (next : ParseError ε → Reply ε α) :
    (fail error).orElse next = next error := rfl

@[simp] theorem orElse_unfinished (next : ParseError ε → Reply ε α) :
    unfinished.orElse next = unfinished := rfl

@[simp] theorem map_ok (f : α → β) (rest : List ε) (value : α) :
    (ok rest value).map f = ok rest (f value) := rfl

@[simp] theorem map_fail (f : α → β) (error : ParseError ε) :
    (fail error : Reply ε α).map f = fail error := rfl

@[simp] theorem map_unfinished (f : α → β) :
    (unfinished : Reply ε α).map f = unfinished := rfl

/-- A success of two steps is one of the first and, from there, one of the second. -/
theorem andThen_eq_ok {r : Reply ε α} {next : List ε → α → Reply ε β} {rest : List ε} {w : β}
    (h : r.andThen next = ok rest w) : ∃ t value, r = ok t value ∧ next t value = ok rest w := by
  cases r with
  | ok t value => exact ⟨t, value, rfl, h⟩
  | fail error => cases h
  | unfinished => cases h

/-- A success with a changed value is one with a value that was changed. -/
theorem map_eq_ok {f : α → β} {r : Reply ε α} {rest : List ε} {w : β}
    (h : r.map f = ok rest w) : ∃ value, r = ok rest value ∧ f value = w := by
  cases r with
  | ok rest' value =>
    cases h
    exact ⟨value, rfl, rfl⟩
  | fail error => cases h
  | unfinished => cases h

/-- Changing the value neither makes a failure nor mends one. -/
theorem map_eq_fail_iff {f : α → β} {r : Reply ε α} {error : ParseError ε} :
    r.map f = fail error ↔ r = fail error := by
  cases r <;> simp

/-- Two changes of the value are one change. -/
theorem map_map {γ : Type} (f : α → β) (g : β → γ) (r : Reply ε α) :
    (r.map f).map g = r.map fun value => g (f value) := by
  cases r <;> rfl

@[simp] theorem mapError_ok (f : ParseError ε → ParseError ε) (rest : List ε) (value : α) :
    (ok rest value).mapError f = ok rest value := rfl

@[simp] theorem mapError_fail (f : ParseError ε → ParseError ε) (error : ParseError ε) :
    (fail error : Reply ε α).mapError f = fail (f error) := rfl

@[simp] theorem mapError_unfinished (f : ParseError ε → ParseError ε) :
    (unfinished : Reply ε α).mapError f = unfinished := rfl

@[simp] theorem convert_some (place : List ε) (kind : Kind) (value : α) (next : α → Reply ε β) :
    convert place kind (some value) next = next value := rfl

@[simp] theorem convert_none (place : List ε) (kind : Kind) (next : α → Reply ε β) :
    convert place kind none next = fail ⟨place, kind⟩ := rfl

/-- It does not matter which two of three steps are taken together. -/
theorem andThen_assoc {γ : Type} (r : Reply ε α) (f : List ε → α → Reply ε β)
    (g : List ε → β → Reply ε γ) :
    (r.andThen f).andThen g = r.andThen fun rest value => (f rest value).andThen g := by
  cases r <;> rfl

end Reply

end Parsing
