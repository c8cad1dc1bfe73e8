/-
  Parsing.Proofs.InTurn — ONE PARSER AFTER ANOTHER, GROUPED IN ANY WAY.

  Parsers that run in turn each take up what the one before it left, until one
  of them fails.  How they are grouped makes no difference: a list can be cut
  anywhere and its parts run one after the other, and pairs can be nested to
  the left or to the right.

  Parsers of different types are put into one list by showing the values of
  each in one type, in any way.  What pairs and the forms that drop part of the
  values do is then said in terms of that list.

  Main statements:
    * `multiple_eq_ok_iff`, `multiple_eq_fail_iff` — what a list comes to;
    * `multiple_append` — a list, cut in two;
    * `pair_assoc`, `multiple_two`, `multiple_three` — pairs and lists;
    * `sequencing_is_associative`, which puts these together.
-/
import Parsing.Grammar.Run

namespace Parsing

variable {ε α β γ δ : Type}

namespace Parser

/-! ## §1. What a list of parsers comes to. -/

/-- From `s` to `r` by successes of the parsers of a list, each of them on what
the one before it left, with these values. -/
inductive InTurn : (ps : List (Parser ε α)) → (s : List ε) → List α → (r : List ε) → Prop where
  | done (s : List ε) : InTurn [] s [] s
  | next {p : Parser ε α} {ps : List (Parser ε α)} {s rest r : List ε} {value : α} {vs : List α}
      (hmatch : p s = .ok rest value) (hrest : InTurn ps rest vs r) :
      InTurn (p :: ps) s (value :: vs) r

variable {ps : List (Parser ε α)} {s r : List ε} {vs : List α}

/-- There is one value for each parser. -/
theorem InTurn.length_eq (h : InTurn ps s vs r) : vs.length = ps.length := by
  induction h with
  | done s => rfl
  | next _ _ ih => rw [List.length_cons, List.length_cons, ih]

/-- A list of parsers succeeds exactly by successes of its parsers in turn. -/
theorem multiple_eq_ok_iff : multiple ps s = .ok r vs ↔ InTurn ps s vs r := by
  induction ps generalizing s vs with
  | nil =>
    constructor
    · intro hok
      cases hok
      exact .done _
    · intro h
      cases h
      rfl
  | cons p ps ih =>
    rw [multiple_cons]
    constructor
    · intro hok
      obtain ⟨rest, value, hmatch, hothers⟩ := Reply.andThen_eq_ok hok
      obtain ⟨vs', hrest, rfl⟩ := Reply.map_eq_ok hothers
      exact .next hmatch (ih.mp hrest)
    · rintro (_ | ⟨hmatch, hrest⟩)
      rw [hmatch, Reply.andThen_ok, ih.mpr hrest, Reply.map_ok]

/-- A failure is that of the first parser that fails, where the ones before it
have led. -/
theorem multiple_eq_fail_iff {error : ParseError ε} :
    multiple ps s = .fail error ↔
      ∃ before p after vs r,
        ps = before ++ p :: after ∧ InTurn before s vs r ∧ p r = .fail error := by
  constructor
  · intro hfail
    -- the first parser that does not succeed is the one that fails
    induction ps generalizing s with
    | nil => cases hfail
    | cons p ps ih =>
      rw [multiple_cons] at hfail
      cases hp : p s with
      | ok rest value =>
        rw [hp, Reply.andThen_ok, Reply.map_eq_fail_iff] at hfail
        obtain ⟨before, q, after, vs, r, rfl, hbefore, hq⟩ := ih hfail
        exact ⟨p :: before, q, after, value :: vs, r, rfl, .next hp hbefore, hq⟩
      | fail error' =>
        rw [hp] at hfail
        cases hfail
        exact ⟨[], p, ps, [], s, rfl, .done s, hp⟩
      | unfinished =>
        rw [hp] at hfail
        cases hfail
  · rintro ⟨before, p, after, vs, r, rfl, hbefore, hp⟩
    -- back along the parsers in front, which succeed
    induction hbefore with
    | done s =>
      rw [List.nil_append, multiple_cons, hp, Reply.andThen_fail]
    | next hmatch _ ih =>
      rw [List.cons_append, multiple_cons, hmatch, Reply.andThen_ok, ih hp, Reply.map_fail]

/-! ## §2. Lists, cut in two, and their forms. -/

/-- **A list cut in two** runs its first part and then the second part on what that
left. -/
theorem multiple_append (xs ys : List (Parser ε α)) (s : List ε) :
    multiple (xs ++ ys) s =
      (multiple xs s).andThen fun rest vs => (multiple ys rest).map (vs ++ ·) := by
  induction xs generalizing s with
  | nil =>
    show multiple ys s = (multiple ys s).map fun vs => vs
    cases multiple ys s <;> rfl
  | cons x xs ih =>
    rw [List.cons_append, multiple_cons, multiple_cons]
    simp only [ih, Reply.map, Reply.andThen_assoc, Reply.andThen_ok, List.cons_append]

end Parser

/-- Tuples, arrays and lists of parsers run in the same way; the values of a
tuple are told as a tuple. -/
theorem Form.multiple_eq (ps : List (Parser ε (Value ε))) :
    Form.tuple.multiple ps = Parser.map .tuple (Parser.multiple ps) ∧
      Form.array.multiple ps = Parser.map .list (Parser.multiple ps) ∧
      Form.list.multiple ps = Parser.map .list (Parser.multiple ps) := by
  have hchain : Parser.multiple ps = Parser.chain ps := funext (Parser.multiple_eq_chain ps)
  refine ⟨?_, rfl, rfl⟩
  rw [hchain]
  rfl

namespace Parser

/-! ## §3. Pairs. -/

/-- Pairs may be regrouped, up to the nesting of the values. -/
theorem pair_assoc (p : Parser ε α) (q : Parser ε β) (r : Parser ε γ) (s : List ε) :
    pair (pair p q) r s = (pair p (pair q r) s).map fun v => ((v.1, v.2.1), v.2.2) := by
  -- going on is associative: both sides come to one step after another
  simp only [pair, Reply.map, Reply.andThen_assoc, Reply.andThen_ok]

theorem pair_map (p : Parser ε α) (k : β → γ) (q : Parser ε β) (s : List ε) :
    pair p (map k q) s = (pair p q s).map fun v => (v.1, k v.2) := by
  simp only [pair, map, Reply.map, Reply.andThen_assoc, Reply.andThen_ok]

theorem map_apply_map (f : α → β) (k : β → γ) (p : Parser ε α) (s : List ε) :
    (map f p s).map k = (p s).map fun v => k (f v) := Reply.map_map f k (p s)

/-- A parser in front of a list is the first of a pair. -/
theorem multiple_map_cons (f : α → δ) (p : Parser ε α) (ps : List (Parser ε δ)) (s : List ε) :
    multiple (map f p :: ps) s = (pair p (multiple ps) s).map fun v => f v.1 :: v.2 := by
  rw [multiple_cons]
  simp only [pair, map, Reply.map, Reply.andThen_assoc, Reply.andThen_ok]

theorem multiple_one (f : α → δ) (p : Parser ε α) :
    multiple [map f p] = map (fun a => [f a]) p := by
  funext s
  rw [multiple_cons]
  simp only [map, multiple_nil, Reply.map, Reply.andThen_assoc, Reply.andThen_ok]

/-- Two parsers as a list are a pair, its values in a row. -/
theorem multiple_two (f : α → δ) (g : β → δ) (p : Parser ε α) (q : Parser ε β) :
    multiple [map f p, map g q] = map (fun v => [f v.1, g v.2]) (pair p q) := by
  funext s
  rw [multiple_map_cons, multiple_one, pair_map, Reply.map_map]
  rfl

/-- Three parsers as a list are a pair in a pair, its values in a row. -/
theorem multiple_three (f : α → δ) (g : β → δ) (h : γ → δ) (p : Parser ε α) (q : Parser ε β)
    (r : Parser ε γ) :
    multiple [map f p, map g q, map h r] =
      map (fun v => [f v.1, g v.2.1, h v.2.2]) (pair p (pair q r)) := by
  funext s
  rw [multiple_map_cons, multiple_two, pair_map, Reply.map_map]
  rfl

/-! ## §4. All together. -/

/-- **Parsers that run in turn can be grouped in any way.**  A list of parsers
succeeds if each of them does where the ones before it have led, and else fails
as the first one does that fails there.  Two lists in one are run one after the
other, and it makes no difference whether the list is a list, an array or a
tuple.

Pairs can be nested to the left or to the right.  Both, and each form that drops
part of the values, run as the list of the same parsers does: to the same rest,
with those values of the list that the form keeps, or to the same error. -/
theorem sequencing_is_associative :
    (∀ (ps : List (Parser ε α)) (s r : List ε) (vs : List α),
      multiple ps s = .ok r vs ↔ InTurn ps s vs r) ∧
    (∀ (ps : List (Parser ε α)) (s : List ε) (error : ParseError ε),
      multiple ps s = .fail error ↔
        ∃ before p after vs r,
          ps = before ++ p :: after ∧ InTurn before s vs r ∧ p r = .fail error) ∧
    (∀ s : List ε, multiple ([] : List (Parser ε α)) s = .ok s []) ∧
    (∀ (xs ys : List (Parser ε α)) (s : List ε),
      multiple (xs ++ ys) s =
        (multiple xs s).andThen fun rest vs => (multiple ys rest).map (vs ++ ·)) ∧
    (∀ ps : List (Parser ε α), chain ps = multiple ps) ∧
    (∀ ps : List (Parser ε (Value ε)),
      Form.tuple.multiple ps = map .tuple (multiple ps) ∧
        Form.array.multiple ps = map .list (multiple ps) ∧
        Form.list.multiple ps = map .list (multiple ps)) ∧
    (∀ (p : Parser ε α) (q : Parser ε β) (r : Parser ε γ) (s : List ε),
      pair (pair p q) r s = (pair p (pair q r) s).map fun v => ((v.1, v.2.1), v.2.2)) ∧
    ∀ (δ : Type) (f : α → δ) (g : β → δ) (h : γ → δ)
      (p : Parser ε α) (q : Parser ε β) (r : Parser ε γ) (s : List ε),
      (pair p q s).map (fun v => [f v.1, g v.2]) = multiple [map f p, map g q] s ∧
      (preceded p q s).map (fun b => some (g b)) =
        (multiple [map f p, map g q] s).map (·[1]?) ∧
      (terminated p q s).map (fun a => some (f a)) =
        (multiple [map f p, map g q] s).map (·[0]?) ∧
      (pair p (pair q r) s).map (fun v => [f v.1, g v.2.1, h v.2.2]) =
        multiple [map f p, map g q, map h r] s ∧
      (delimited p q r s).map (fun b => some (g b)) =
        (multiple [map f p, map g q, map h r] s).map (·[1]?) ∧
      (separatedPair p q r s).map (fun v => (some (f v.1), some (h v.2))) =
        (multiple [map f p, map g q, map h r] s).map fun vs => (vs[0]?, vs[2]?) := by
  refine ⟨fun ps s r vs => multiple_eq_ok_iff, fun ps s error => multiple_eq_fail_iff,
    multiple_nil, multiple_append, fun ps => (funext (multiple_eq_chain ps)).symm,
    Form.multiple_eq, pair_assoc, ?_⟩
  intro δ f g h p q r s
  simp only [multiple_two, multiple_three, map_apply_map]
  exact ⟨rfl, map_apply_map _ _ _ _, map_apply_map _ _ _ _, rfl, map_apply_map _ _ _ _,
    map_apply_map _ _ _ _⟩

end Parser

end Parsing
