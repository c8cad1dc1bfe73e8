/-
  Parsing.Parser.Span — TAKING STRETCHES OF THE INPUT.

  Parsers that yield a part of the input as it is: so many elements, elements
  as long as they satisfy a predicate, or elements up to a literal.
-/
import Parsing.Parser.Basic

namespace Parsing.Parser

variable {ε : Type} [Element ε]

/-- Takes `n` elements. -/
def take (n : Nat) : Parser ε (List ε) := fun s =>
  match Sequence.take? s n with
  | some (taken, rest) => .ok rest taken
  | none => .fail ⟨s, .eof⟩

/-- Cuts the input at a boundary: takes what is in front, leaves what is behind. -/
def cutAt (offset : Nat) : Parser ε (List ε) := fun s =>
  let parts := Sequence.splitAt s offset
  .ok parts.2 parts.1

/-! ## §1. As long as a predicate holds. -/

/-- Takes elements as long as they satisfy `p`. -/
def takeWhile (p : ε → Bool) : Parser ε (List ε) := fun s => cutAt (Sequence.spanWhile p s) s

/-- Takes elements as long as they satisfy `p`, at least one. -/
def takeWhileSome (kind : Kind) (p : ε → Bool) : Parser ε (List ε) := fun s =>
  let offset := Sequence.spanWhile p s
  if offset = 0 then .fail ⟨s, kind⟩ else cutAt offset s

/-- Takes elements as long as they satisfy `p`, at least one. -/
def takeWhile1 (p : ε → Bool) : Parser ε (List ε) := takeWhileSome .takeWhile p

/-- Takes elements until one satisfies `p`. -/
def takeTill (p : ε → Bool) : Parser ε (List ε) := takeWhile fun e => !p e

/-- Takes elements until one satisfies `p`, at least one. -/
def takeTill1 (p : ε → Bool) : Parser ε (List ε) := takeWhileSome .takeTill fun e => !p e

/-- Takes elements as long as they satisfy `p`, no more than `upper` of them and
no fewer than `lower`. -/
def takeWhileBounded (lower upper : Nat) (p : ε → Bool) : Parser ε (List ε) := fun s =>
  let found := ((s.take upper).takeWhile p).length
  if found < lower then .fail ⟨s, .takeWhileBounded⟩
  else cutAt ((Sequence.offsetAt found s).getD (Sequence.nativeLen s)) s

variable [DecidableEq ε]

/-- Takes elements as long as they are in `set`, at least one. -/
def isA (set : List ε) : Parser ε (List ε) := mapKind .isA (takeWhile1 fun e => set.any (· == e))

/-- Takes elements as long as they are not in `set`, at least one. -/
def isNot (set : List ε) : Parser ε (List ε) :=
  mapKind .isNot (takeWhile1 fun e => set.all (· != e))

/-! ## §2. Literals. -/

/-- Matches the elements of a literal, and yields the literal. -/
def tag (literal : List ε) : Parser ε (List ε) := fun s =>
  (mapKind .tag (take literal.length) s).andThen fun rest candidate =>
    if candidate = literal then .ok rest literal else .fail ⟨s, .tag⟩

/-- Takes elements up to the first place before the end of the input where the
literal follows. -/
def takeUntil (literal : List ε) : Parser ε (List ε) := fun s =>
  match Sequence.findOffset? (fun t => (tag literal t).isOk) s with
  | none => .fail ⟨s, .takeUntil⟩
  | some offset => cutAt offset s

/-- The same, and that place may not be where it starts. -/
def takeUntil1 (literal : List ε) : Parser ε (List ε) := fun s =>
  match Sequence.findOffset? (fun t => (tag literal t).isOk) s with
  | none => .fail ⟨s, .takeUntil⟩
  | some offset => if offset = 0 then .fail ⟨s, .takeUntil⟩ else cutAt offset s

/-! ## §3. One element. -/

omit [DecidableEq ε] in
/-- Takes one element that satisfies `p`. -/
def element (kind : Kind) (p : ε → Bool) : Parser ε ε := fun s =>
  (mapKind kind (take 1) s).andThen fun rest taken =>
    match Sequence.next? taken with
    | some (e, _) => if p e then .ok rest e else .fail ⟨s, kind⟩
    | none => .fail ⟨s, kind⟩

omit [DecidableEq ε] in
/-- Takes one element that satisfies `p`. -/
def satisfy (p : ε → Bool) : Parser ε ε := element .satisfy p

/-- Takes one given element. -/
def char (expected : ε) : Parser ε ε := element .char (· == expected)

/-- Takes one element of `set`. -/
def oneOf (set : List ε) : Parser ε ε := element .oneOf fun e => set.any (· == e)

/-- Takes one element that is not in `set`. -/
def noneOf (set : List ε) : Parser ε ε := element .noneOf fun e => set.all (· != e)

end Parsing.Parser
