/-
  Parsing.Parser.Sequencing — ONE PARSER AFTER ANOTHER.

  Parsers run in order, each on what the one before it left; the first failure
  is the failure of the whole.  `pair` runs two parsers of any types and
  `multiple` a list of parsers of one type; `chain` does the same by nested
  pairs.  The other forms are pairs that keep part of the values.

  Main statements: `preceded_apply` and `delimited_apply`, the parts in their
  order; `multiple_nil`, `multiple_cons`, and `multiple_eq_chain`, the two ways
  to run a list agree.
-/
import Parsing.Parser.Basic

namespace Parsing.Parser

variable {ε α β γ : Type}

/-- Runs `p` and then `q`, and yields both values. -/
def pair (p : Parser ε α) (q : Parser ε β) : Parser ε (α × β) := fun s =>
  (p s).andThen fun rest a => (q rest).andThen fun rest' b => .ok rest' (a, b)

/-- Runs `p` and then `q`, and keeps the value of `q`. -/
def preceded (p : Parser ε α) (q : Parser ε β) : Parser ε β := map Prod.snd (pair p q)

/-- Runs `p` and then `q`, and keeps the value of `p`. -/
def terminated (p : Parser ε α) (q : Parser ε β) : Parser ε α := map Prod.fst (pair p q)

/-- Runs three parsers and keeps the value of the middle one. -/
def delimited (p : Parser ε α) (q : Parser ε β) (r : Parser ε γ) : Parser ε β :=
  map (fun v => v.2.1) (pair p (pair q r))

/-- Runs three parsers and keeps the values of the outer ones. -/
def separatedPair (p : Parser ε α) (q : Parser ε β) (r : Parser ε γ) : Parser ε (α × γ) :=
  map (fun v => (v.1, v.2.2)) (pair p (pair q r))

/-- The value in front is dropped, and `q` is run where `p` has ended. -/
theorem preceded_apply (p : Parser ε α) (q : Parser ε β) (s : List ε) :
    preceded p q s = (p s).andThen fun rest _ => q rest := by
  show (pair p q s).map Prod.snd = _
  simp only [pair]
  cases p s with
  | ok rest value =>
    simp only [Reply.andThen_ok]
    cases q rest <;> rfl
  | fail error => rfl
  | unfinished => rfl

/-- The parts are run one behind the other; of their values the one in the middle is
kept. -/
theorem delimited_apply (p : Parser ε α) (q : Parser ε β) (r : Parser ε γ) (s : List ε) :
    delimited p q r s =
      (p s).andThen fun rest _ =>
        (q rest).andThen fun rest' value =>
          (r rest').andThen fun rest'' _ => .ok rest'' value := by
  show (pair p (pair q r) s).map _ = _
  simp only [pair]
  cases p s with
  | ok rest value =>
    simp only [Reply.andThen_ok]
    cases q rest with
    | ok rest' value' =>
      simp only [Reply.andThen_ok]
      cases r rest' <;> rfl
    | fail error => rfl
    | unfinished => rfl
  | fail error => rfl
  | unfinished => rfl

/-- Runs the parsers of a list after those that have yielded `done`, the last
of them first. -/
def multipleFrom (done : List α) : List (Parser ε α) → Parser ε (List α)
  | [] => success done.reverse
  | p :: ps => fun s => (p s).andThen fun rest value => multipleFrom (value :: done) ps rest

/-- Runs the parsers of a list and yields their values. -/
def multiple (ps : List (Parser ε α)) : Parser ε (List α) := multipleFrom [] ps

/-- Runs the parsers of a list as nested pairs. -/
def chain : List (Parser ε α) → Parser ε (List α)
  | [] => success []
  | p :: ps => map (fun v => v.1 :: v.2) (pair p (chain ps))

/-- What was yielded before stands in front of what is yielded from here on. -/
theorem multipleFrom_eq (done : List α) (ps : List (Parser ε α)) (s : List ε) :
    multipleFrom done ps s = (multiple ps s).map (done.reverse ++ ·) := by
  induction ps generalizing done s with
  | nil => simp [multiple, multipleFrom, success]
  | cons p ps ih =>
    simp only [multiple, multipleFrom]
    cases p s with
    | ok rest value =>
      simp only [Reply.andThen_ok]
      rw [ih (value :: done), ih [value]]
      cases multiple ps rest <;> simp
    | fail error => rfl
    | unfinished => rfl

theorem multiple_nil (s : List ε) : multiple ([] : List (Parser ε α)) s = .ok s [] := rfl

/-- The value of the first parser stands in front of those of the others. -/
theorem multiple_cons (p : Parser ε α) (ps : List (Parser ε α)) (s : List ε) :
    multiple (p :: ps) s =
      (p s).andThen fun rest value => (multiple ps rest).map (value :: ·) := by
  show ((p s).andThen fun rest value => multipleFrom [value] ps rest) = _
  cases p s with
  | ok rest value => simpa using multipleFrom_eq [value] ps rest
  | fail error => rfl
  | unfinished => rfl

/-- Collecting values on the way and putting them together on the way back come to the
same. -/
theorem multiple_eq_chain (ps : List (Parser ε α)) (s : List ε) : multiple ps s = chain ps s := by
  induction ps generalizing s with
  | nil => rfl
  | cons p ps ih =>
    rw [multiple_cons]
    show _ = (pair p (chain ps) s).map _
    simp only [pair]
    cases p s with
    | ok rest value =>
      simp only [Reply.andThen_ok, ih]
      cases chain ps rest <;> rfl
    | fail error => rfl
    | unfinished => rfl

end Parsing.Parser
