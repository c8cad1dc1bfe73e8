/-
  Parsing.Proofs.Reshape.Span — STRETCHES AND FRAMES IN TWO SHAPES.

  The parsers that take a stretch of the input count elements, compare elements
  or compare with a literal.  A reshaping keeps the number of elements and keeps
  different ones apart, so these parsers take the same stretch in both shapes,
  although the offsets at which they cut differ.  Frames follow: a length
  counts elements, and the block is a stretch.
-/
import Parsing.Parser.Framing
import Parsing.Proofs.Reshape.Basic

namespace Parsing.Parser

open Reshaping

variable {ε ζ α β γ δ : Type} [Element ε] [Element ζ] {τ : Reshaping ε ζ}

/-! ## §1. So many elements, and as long as a predicate holds. -/

/-- So many elements are so many in the other shape. -/
theorem reshaped_take (n : Nat) : Reshaped τ τ.sequence (take n) (take n) := by
  intro s
  rw [take_apply, take_apply, length_sequence, sequence_take, sequence_drop]
  split <;> rfl

theorem reshaped_restLen : Reshaped τ id restLen restLen := by
  intro s
  rw [restLen, restLen, length_sequence, reply_ok, id]

section Predicate

variable {p : ε → Bool} {p' : ζ → Bool} (hp : ∀ e, p' (τ.element e) = p e)

include hp

/-- A predicate that commutes with the reshaping answers for the one element of each
word. -/
theorem forall_mem_word : ∀ e, ∀ b ∈ τ.encoding.word e, p' b = p e := by
  intro e b hb
  rw [List.mem_singleton.mp hb, hp]

theorem reshaped_takeWhile : Reshaped τ τ.sequence (takeWhile p) (takeWhile p') :=
  (encoded_takeWhile (forall_mem_word hp)).reshaped

theorem reshaped_takeWhileSome (kind : Kind) :
    Reshaped τ τ.sequence (takeWhileSome kind p) (takeWhileSome kind p') :=
  (encoded_takeWhileSome (forall_mem_word hp) kind).reshaped

/-- Up to an element that satisfies a predicate, which is as long as its negation holds. -/
theorem reshaped_takeTill :
    Reshaped τ τ.sequence (takeTill p) (takeTill p') :=
  reshaped_takeWhile fun e => by rw [hp]

theorem reshaped_takeTill1 :
    Reshaped τ τ.sequence (takeTill1 p) (takeTill1 p') :=
  reshaped_takeWhileSome (fun e => by rw [hp]) .takeTill

/-- The bounds count elements, so they are the same in both shapes. -/
theorem reshaped_takeWhileBounded (lower upper : Nat) :
    Reshaped τ τ.sequence (takeWhileBounded lower upper p) (takeWhileBounded lower upper p') := by
  intro s
  have htaken := Encoding.takeWhile_sequence (forall_mem_word hp) (s.take upper)
  rw [τ.sequence_encoding] at htaken
  rw [takeWhileBounded_apply, takeWhileBounded_apply, sequence_take, htaken, length_sequence,
    sequence_drop]
  split <;> rfl

/-- One element goes to its reshaped form. -/
theorem reshaped_element (kind : Kind) :
    Reshaped τ τ.element (element kind p) (element kind p') := by
  have h := encoded_element (forall_mem_word hp) kind fun e _ => ⟨τ.element e, rfl⟩
  refine reshaped_iff.mpr (h.mono fun e b hword => ?_)
  exact (List.cons.inj hword).1.symm

end Predicate

/-! ## §2. Sets of elements and literals. -/

variable [DecidableEq ε] [DecidableEq ζ]

/-- Reshaping keeps which elements are equal. -/
theorem element_beq (a b : ε) : (τ.element a == τ.element b) = (a == b) := by
  rw [Bool.eq_iff_iff, beq_iff_eq, beq_iff_eq, τ.element_inj]

/-- An element is in a set exactly if its reshaped form is in the reshaped set. -/
theorem any_sequence (set : List ε) (e : ε) :
    (τ.sequence set).any (· == τ.element e) = set.any (· == e) := by
  induction set with
  | nil => rfl
  | cons a set ih => rw [sequence_cons, List.any_cons, List.any_cons, ih, element_beq]

theorem all_sequence (set : List ε) (e : ε) :
    (τ.sequence set).all (· != τ.element e) = set.all (· != e) := by
  induction set with
  | nil => rfl
  | cons a set ih =>
    rw [sequence_cons, List.all_cons, List.all_cons, ih, bne, bne, element_beq]

theorem reshaped_isA (set : List ε) : Reshaped τ τ.sequence (isA set) (isA (τ.sequence set)) :=
  reshaped_iff.mpr ((reshaped_iff.mp (reshaped_takeWhileSome (any_sequence set) _)).mapKind .isA)

theorem reshaped_isNot (set : List ε) :
    Reshaped τ τ.sequence (isNot set) (isNot (τ.sequence set)) :=
  reshaped_iff.mpr ((reshaped_iff.mp (reshaped_takeWhileSome (all_sequence set) _)).mapKind .isNot)

theorem reshaped_char (expected : ε) :
    Reshaped τ τ.element (char expected) (char (τ.element expected)) :=
  reshaped_element (fun e => element_beq e expected) .char

theorem reshaped_oneOf (set : List ε) : Reshaped τ τ.element (oneOf set) (oneOf (τ.sequence set)) :=
  reshaped_element (any_sequence set) .oneOf

theorem reshaped_noneOf (set : List ε) :
    Reshaped τ τ.element (noneOf set) (noneOf (τ.sequence set)) :=
  reshaped_element (all_sequence set) .noneOf

/-- A literal matches where its reshaped form does. -/
theorem reshaped_tag (literal : List ε) :
    Reshaped τ τ.sequence (tag literal) (tag (τ.sequence literal)) := by
  rw [← τ.sequence_encoding]
  exact reshaped_iff.mpr (encoded_tag τ.prefixFree_encoding literal)

/-- The first occurrence of a literal is at the same element. -/
theorem reshaped_takeUntil (literal : List ε) :
    Reshaped τ τ.sequence (takeUntil literal) (takeUntil (τ.sequence literal)) := by
  rw [← τ.sequence_encoding]
  exact reshaped_iff.mpr
    (encoded_takeUntil τ.prefixFree_encoding τ.selfSynchronizing_encoding literal)

theorem reshaped_takeUntil1 (literal : List ε) :
    Reshaped τ τ.sequence (takeUntil1 literal) (takeUntil1 (τ.sequence literal)) := by
  rw [← τ.sequence_encoding]
  exact reshaped_iff.mpr
    (encoded_takeUntil1 τ.prefixFree_encoding τ.selfSynchronizing_encoding literal)

/-! ## §3. Behind a length. -/

omit [DecidableEq ε] [DecidableEq ζ]

section Framing

variable [AsLength α] [AsLength β] {V : α → β → Prop} {W : γ → δ → Prop}
  {counter : Parser ε α} {counter' : Parser ζ β} {p : Parser ε γ} {q : Parser ζ δ}
  (hlength : ∀ v w, V v w → AsLength.asLength? w = AsLength.asLength? v)
  (hc : Encoded τ.encoding V counter counter')

include hlength hc

/-- Lengths are the same in both shapes if the counters' values are the same lengths. -/
theorem encoded_readLength : Encoded τ.encoding Eq (readLength counter) (readLength counter') := by
  intro s
  refine (hc s).andThen fun rest v w _ hv => ?_
  rw [hlength v w hv]
  cases AsLength.asLength? v with
  | some n => exact .ok rest rfl
  | none => exact .fail ⟨s, .length⟩

theorem encoded_lengthCount (hp : Encoded τ.encoding W p q) :
    Encoded τ.encoding (List.Forall₂ W) (lengthCount counter p) (lengthCount counter' q) :=
  (encoded_readLength hlength hc).flatMap fun n _ h => h ▸ hp.count n

theorem encoded_lengthData :
    Encoded τ.encoding (fun v w => w = τ.sequence v) (lengthData counter) (lengthData counter') :=
  (encoded_readLength hlength hc).flatMap fun n _ h => h ▸ reshaped_iff.mp (reshaped_take n)

/-- Inside so many elements. What follows them is no part of either block. -/
theorem encoded_lengthValue (hp : Encoded τ.encoding W p q) (honward : p.Onward) :
    Encoded τ.encoding W (lengthValue counter p) (lengthValue counter' q) := by
  intro s
  refine (encoded_readLength hlength hc s).andThen fun afterPrefix n _ _ hn => ?_
  subst hn
  refine (reshaped_iff.mp (reshaped_take n) afterPrefix).andThen fun rest block _ hblock h => ?_
  subst h
  -- the block is the front of what follows the prefix
  have hprefix : block <+: afterPrefix := by
    rw [take_apply] at hblock
    split at hblock
    next =>
      cases hblock
      exact List.take_prefix n afterPrefix
    next => cases hblock
  rw [← τ.sequence_encoding]
  exact (hp block).mapError_rebase hprefix (honward block)

end Framing

end Parsing.Parser
