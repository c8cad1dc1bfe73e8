/-
  Parsing.Proofs.Reshape.Basic — ONE SEQUENCE IN TWO SHAPES.

  A *reshaping* changes the elements of a sequence one by one, keeps different
  elements apart and keeps their numbers, but not their widths: a text becomes
  the list of its code points, each of them one unit wide.  So offsets change
  and places do not, and what a parser does with places can be compared.

  A reshaping carries over to all that parsers deal with: sequences, values,
  errors and replies.  A parser is another one *reshaped* when, on every input
  in the other shape, it replies in that shape what the other one replies.

  A reshaping is an encoding by words of one element, and reshaped parsers are
  those that correspond under it, with values that are reshaped.

  Main statements: `reply_injective`, and `reshaped_iff` with
  `prefixFree_encoding` and `selfSynchronizing_encoding`, by which what holds of
  encodings holds of reshapings.
-/
import Parsing.Proofs.Encode.Repetition
import Parsing.Proofs.Encode.Span

namespace Parsing

/-- A change of elements that keeps them apart, and keeps their numbers. -/
structure Reshaping (ε ζ : Type) [Element ε] [Element ζ] where
  element : ε → ζ
  injective : ∀ {a b}, element a = element b → a = b
  code_element : ∀ e, Element.code (element e) = Element.code e

/-- The code points of characters. -/
def Reshaping.codePoints : Reshaping Char Int where
  element c := c.toNat
  injective h := Char.toNat_inj.mp (Int.ofNat.inj h)
  code_element _ := rfl

namespace Reshaping

variable {ε ζ α β : Type} [Element ε] [Element ζ] (τ : Reshaping ε ζ)

/-! ## §1. Sequences. -/

/-- A sequence in the other shape. -/
def sequence (s : List ε) : List ζ := s.map τ.element

@[simp] theorem sequence_cons (e : ε) (s : List ε) :
    τ.sequence (e :: s) = τ.element e :: τ.sequence s := rfl

@[simp] theorem length_sequence (s : List ε) : (τ.sequence s).length = s.length := List.length_map _

/-- The front of a reshaped sequence is the reshaped front. -/
theorem sequence_take (n : Nat) (s : List ε) : (τ.sequence s).take n = τ.sequence (s.take n) :=
  List.map_take.symm

theorem sequence_drop (n : Nat) (s : List ε) : (τ.sequence s).drop n = τ.sequence (s.drop n) :=
  List.map_drop.symm

/-- Elements are told apart in the other shape. -/
theorem element_inj {a b : ε} : τ.element a = τ.element b ↔ a = b :=
  ⟨τ.injective, congrArg τ.element⟩

theorem sequence_injective {s t : List ε} (h : τ.sequence s = τ.sequence t) : s = t :=
  List.map_inj_right (fun _ _ => τ.injective) |>.mp h

/-- A reshaping is an encoding by words of one element. -/
def encoding : Encoding ε ζ where
  word e := [τ.element e]
  word_ne_nil _ := List.cons_ne_nil _ _

/-- A reshaping is an encoding by words of one element. -/
theorem sequence_encoding : τ.encoding.sequence = τ.sequence :=
  funext fun _ => List.map_eq_flatMap.symm

/-- Of two words of one element, one begins with the other only if they are equal. -/
theorem prefixFree_encoding : τ.encoding.PrefixFree := fun _ _ h =>
  τ.injective (List.cons_prefix_cons.mp h).1

/-- A word of one element has no place inside it. -/
theorem selfSynchronizing_encoding : τ.encoding.SelfSynchronizing := fun _ _ _ _ _ =>
  List.not_mem_nil

/-! ## §2. Values. -/

mutual

/-- A value in the other shape: its slices and elements are reshaped. -/
def value : Value ε → Value ζ
  | .slice s => .slice (τ.sequence s)
  | .elem e => .elem (τ.element e)
  | .int n => .int n
  | .wide n => .wide n
  | .size n => .size n
  | .float x => .float x
  | .list vs => .list (values vs)
  | .tuple vs => .tuple (values vs)
  | .present v => .present (value v)
  | .absent => .absent
  | .unit => .unit
  | .bool b => .bool b
  | .text t => .text t

/-- Several values in the other shape. -/
def values : List (Value ε) → List (Value ζ)
  | [] => []
  | v :: vs => value v :: values vs

end

mutual

/-- Values are told apart too. By induction on the value, together with the lists inside
it. -/
theorem value_injective : ∀ {v w : Value ε}, τ.value v = τ.value w → v = w
  | .slice _, w, h => by
      cases w <;> simp only [value, Value.slice.injEq, reduceCtorEq] at h ⊢
      exact τ.sequence_injective h
  | .elem _, w, h => by
      cases w <;> simp only [value, Value.elem.injEq, reduceCtorEq] at h ⊢
      exact τ.injective h
  -- numbers have no elements in them and stay as they are
  | .int _, w, h => by cases w <;> simp_all [value]
  | .wide _, w, h => by cases w <;> simp_all [value]
  | .size _, w, h => by cases w <;> simp_all [value]
  | .float _, w, h => by cases w <;> simp_all [value]
  -- values made of others, by the induction
  | .list _, w, h => by
      cases w <;> simp only [value, Value.list.injEq, reduceCtorEq] at h ⊢
      exact values_injective h
  | .tuple _, w, h => by
      cases w <;> simp only [value, Value.tuple.injEq, reduceCtorEq] at h ⊢
      exact values_injective h
  | .present _, w, h => by
      cases w <;> simp only [value, Value.present.injEq, reduceCtorEq] at h ⊢
      exact value_injective h
  | .absent, w, h => by cases w <;> simp_all [value]
  | .unit, w, h => by cases w <;> simp_all [value]
  | .bool _, w, h => by cases w <;> simp_all [value]
  | .text _, w, h => by cases w <;> simp_all [value]

theorem values_injective : ∀ {vs ws : List (Value ε)}, τ.values vs = τ.values ws → vs = ws
  | [], ws, h => by cases ws <;> simp_all [values]
  | v :: vs, ws, h => by
      cases ws with
      | nil => simp [values] at h
      | cons w ws =>
        simp only [values, List.cons.injEq] at h
        rw [value_injective h.1, values_injective h.2]

end

/-- A list of values is reshaped one by one. -/
theorem values_eq_map (vs : List (Value ε)) : τ.values vs = vs.map τ.value := by
  induction vs with
  | nil => rfl
  | cons v vs ih => rw [values, ih, List.map_cons]

/-- Values that correspond one by one are a reshaped list. -/
theorem list_eq_value {vs : List (Value ε)} {ws : List (Value ζ)}
    (h : List.Forall₂ (fun v w => w = τ.value v) vs ws) : ws = vs.map τ.value := by
  induction h with
  | nil => rfl
  | cons hv _ ih => rw [hv, ih, List.map_cons]

theorem value_list {vs : List (Value ε)} {ws : List (Value ζ)}
    (h : List.Forall₂ (fun v w => w = τ.value v) vs ws) : .list ws = τ.value (.list vs) := by
  rw [value, values_eq_map, τ.list_eq_value h]

theorem value_tuple {vs : List (Value ε)} {ws : List (Value ζ)}
    (h : List.Forall₂ (fun v w => w = τ.value v) vs ws) : .tuple ws = τ.value (.tuple vs) := by
  rw [value, values_eq_map, τ.list_eq_value h]

/-- A pair of reshaped values is a reshaped pair. -/
theorem value_ofPair {v : Value ε × Value ε} {w : Value ζ × Value ζ}
    (h : PairRel (fun v w => w = τ.value v) (fun v w => w = τ.value v) v w) :
    Value.ofPair w = τ.value (Value.ofPair v) :=
  τ.value_tuple (.cons h.1 (.cons h.2 .nil))

theorem value_ofOption {v : Option (Value ε)} {w : Option (Value ζ)}
    (h : Option.Rel (fun v w => w = τ.value v) v w) :
    Value.ofOption w = τ.value (Value.ofOption v) := by
  cases h with
  | some hv => rw [hv, Value.ofOption, Value.ofOption, value]
  | none => rfl

/-- A slice that encodes another one is its reshaped form. -/
theorem value_slice {s : List ε} {t : List ζ} (h : t = τ.encoding.sequence s) :
    .slice t = τ.value (.slice s) := by
  rw [h, sequence_encoding, value]

/-- A step of a fold that commutes with reshaping keeps states that correspond. -/
theorem combine_value {combine : Value ε → Value ε → Value ε}
    {combine' : Value ζ → Value ζ → Value ζ}
    (h : ∀ all v, combine' (τ.value all) (τ.value v) = τ.value (combine all v))
    (all : Value ε) (all' : Value ζ) (v : Value ε) (v' : Value ζ) (hall : all' = τ.value all)
    (hv : v' = τ.value v) : combine' all' v' = τ.value (combine all v) := by
  rw [hall, hv, h]

/-- The slice in a reshaped value is the reshaped slice. -/
theorem toSlice_value (v : Value ε) : (τ.value v).toSlice = τ.sequence v.toSlice := by
  cases v <;> rfl

/-- A value that may be missing, in the other shape. -/
theorem rel_map_value (v : Option (Value ε)) :
    Option.Rel (fun v w => w = τ.value v) v (v.map τ.value) := by
  cases v with
  | some v => exact .some rfl
  | none => exact .none

/-- A value stands for the same length in both shapes. -/
theorem asLength?_eq (v : Value ε) (w : Value ζ) (h : w = τ.value v) :
    AsLength.asLength? w = AsLength.asLength? v := by
  subst h
  cases v with
  | elem e =>
    show AsLength.asLength? (Element.code (τ.element e)) = AsLength.asLength? (Element.code e)
    rw [τ.code_element]
  | _ => rfl

/-! ## §3. Errors and replies. -/

/-- An error at the same place of the other shape. -/
def error (error : ParseError ε) : ParseError ζ := ⟨τ.sequence error.rest, error.kind⟩

/-- Errors are encoded as they are reshaped. -/
theorem error_encoding : τ.encoding.error = τ.error := by
  funext error
  rw [Encoding.error, sequence_encoding, Reshaping.error]

/-- A reply in the other shape, where `f` reshapes the value. -/
def reply (f : α → β) : Reply ε α → Reply ζ β
  | .ok rest value => .ok (τ.sequence rest) (f value)
  | .fail error => .fail (τ.error error)
  | .unfinished => .unfinished

@[simp] theorem reply_ok (f : α → β) (rest : List ε) (value : α) :
    τ.reply f (.ok rest value) = .ok (τ.sequence rest) (f value) := rfl

@[simp] theorem reply_fail (f : α → β) (error : ParseError ε) :
    τ.reply f (.fail error) = .fail (τ.error error) := rfl

theorem error_injective {a b : ParseError ε} (h : τ.error a = τ.error b) : a = b := by
  obtain ⟨r, k⟩ := a
  obtain ⟨r', k'⟩ := b
  simp only [error, ParseError.mk.injEq] at h
  rw [τ.sequence_injective h.1, h.2]

/-- Replies that differ are kept apart, if values are. -/
theorem reply_injective {f : α → β} (hf : ∀ {v w}, f v = f w → v = w) {r r' : Reply ε α}
    (h : τ.reply f r = τ.reply f r') : r = r' := by
  cases r <;> cases r' <;> simp only [reply, Reply.ok.injEq, Reply.fail.injEq, reduceCtorEq] at h
  case ok.ok => rw [τ.sequence_injective h.1, hf h.2]
  case fail.fail => rw [τ.error_injective h]
  case unfinished.unfinished => rfl

/-- To be the reshaped reply is to encode the reply, with values that `f` relates. -/
theorem reply_eq_iff {f : α → β} {r : Reply ε α} {r' : Reply ζ β} :
    r' = τ.reply f r ↔ Reply.Encoded τ.encoding (fun v w => w = f v) r r' := by
  constructor
  · rintro rfl
    cases r with
    | ok rest value =>
      rw [reply_ok, ← sequence_encoding]
      exact .ok rest rfl
    | fail error =>
      rw [reply_fail, ← error_encoding]
      exact .fail error
    | unfinished => exact .unfinished
  · intro h
    cases h with
    | ok rest hv => rw [hv, sequence_encoding, reply_ok]
    | fail error => rw [error_encoding, reply_fail]
    | unfinished => rfl

end Reshaping

/-! ## §4. Parsers. -/

namespace Parser

variable {ε ζ α β γ δ : Type} [Element ε] [Element ζ] {τ : Reshaping ε ζ}

/-- On an input in the other shape, `q` replies in that shape what `p` replies;
`f` reshapes the values. -/
def Reshaped (τ : Reshaping ε ζ) (f : α → β) (p : Parser ε α) (q : Parser ζ β) : Prop :=
  ∀ s, q (τ.sequence s) = τ.reply f (p s)

/-- Hence everything about encoded parsers holds of reshaped ones. -/
theorem reshaped_iff {f : α → β} {p : Parser ε α} {q : Parser ζ β} :
    Reshaped τ f p q ↔ Encoded τ.encoding (fun v w => w = f v) p q := by
  simp only [Reshaped, Encoded, τ.reply_eq_iff, τ.sequence_encoding]

/-- Parsers of stretches that correspond are reshaped. -/
theorem Encoded.reshaped {p : Parser ε (List ε)} {q : Parser ζ (List ζ)}
    (h : Encoded τ.encoding (fun v w => w = τ.encoding.sequence v) p q) :
    Reshaped τ τ.sequence p q := by
  rw [τ.sequence_encoding] at h
  exact reshaped_iff.mpr h

/-- Maps that commute with the reshapings of the values. -/
theorem Reshaped.map {f : α → β} {g : γ → δ} {p : Parser ε α} {q : Parser ζ β} {h : α → γ}
    {h' : β → δ} (hh : ∀ value, h' (f value) = g (h value)) (hp : Reshaped τ f p q) :
    Reshaped τ g (Parser.map h p) (Parser.map h' q) := by
  refine reshaped_iff.mpr ((reshaped_iff.mp hp).map fun v w hv => ?_)
  subst hv
  exact hh v

end Parser

end Parsing
