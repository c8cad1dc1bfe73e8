/-
  Parsing.Proofs.Alternatives — THE FIRST SUCCESS, OR ELSE THE LAST FAILURE.

  Alternatives all see the same input, whatever those before them have used up
  of it.  So a list of them can be cut anywhere: what follows the cut is tried
  where all before it fail, and of the failures before the cut only the last
  one is remembered, in case that nothing follows.

  From this one law comes all the rest: which reply is chosen, that it makes no
  difference how alternatives are put together, that alternatives inside
  alternatives are alternatives in one row, and that an error may be changed in
  each of them instead of outside.  The last two have one exception, an empty
  list, since it fails with an error that none of its parsers made.

  Main statements:
    * `altFrom_append` — a list of alternatives, cut in two;
    * `alt_eq_iff_of_not_fail`, `alt_eq_fail_iff` — which reply is chosen;
    * `alt_nested_iff`, `mapErr_alt_iff` — the two exceptions, exactly;
    * `alternatives_are_tried_in_order`, which puts these together.
-/
import Mathlib.Data.List.Induction
import Parsing.Grammar.Run

namespace Parsing

variable {ε α : Type}

namespace Parser

/-! ## §1. A list of alternatives, cut in two. -/

/-- The second part of a list is tried with the error that the first one ends with. -/
theorem altFrom_append (last : ParseError ε) (ps qs : List (Parser ε α)) (s : List ε) :
    altFrom last (ps ++ qs) s = (altFrom last ps s).orElse fun error => altFrom error qs s := by
  induction ps generalizing last with
  | nil => rfl
  | cons p ps ih =>
    show (p s).orElse (fun error => altFrom error (ps ++ qs) s) =
      ((p s).orElse fun error => altFrom error ps s).orElse fun error => altFrom error qs s
    cases p s with
    | ok rest value => rfl
    | fail error => exact ih error
    | unfinished => rfl

/-- The error before a list of alternatives is forgotten, unless there are none. -/
theorem altFrom_of_ne_nil {ps : List (Parser ε α)} (h : ps ≠ []) (last : ParseError ε)
    (s : List ε) : altFrom last ps s = alt ps s := by
  cases ps with
  | nil => exact absurd rfl h
  | cons p ps => rfl

/-- A list is tried as its first part and, if that fails, its second, which must not be
empty or its own error would be lost. -/
theorem alt_append (ps : List (Parser ε α)) {qs : List (Parser ε α)} (h : qs ≠ [])
    (s : List ε) : alt (ps ++ qs) s = (alt ps s).orElse fun _ => alt qs s := by
  rw [alt, altFrom_append]
  simp only [altFrom_of_ne_nil h]
  rfl

/-- One alternative alone is that parser. -/
theorem alt_singleton (p : Parser ε α) : alt [p] = p := by
  funext s
  show (p s).orElse (fun error => .fail error) = p s
  cases p s <;> rfl

/-- The last alternative is tried when the list before it fails. -/
theorem alt_concat (ps : List (Parser ε α)) (p : Parser ε α) (s : List ε) :
    alt (ps ++ [p]) s = (alt ps s).orElse fun _ => p s := by
  rw [alt_append ps (List.cons_ne_nil p []), alt_singleton]

/-! ## §2. Which reply is chosen. -/

/-- All the parsers fail on `s`. -/
def AllFail (ps : List (Parser ε α)) (s : List ε) : Prop := ∀ p ∈ ps, ∃ error, p s = .fail error

/-- Alternatives fail exactly if each of them does. -/
theorem alt_fails_iff {ps : List (Parser ε α)} {s : List ε} :
    (∃ error, alt ps s = .fail error) ↔ AllFail ps s := by
  induction ps using List.reverseRecOn with
  | nil => exact ⟨fun _ p hp => absurd hp List.not_mem_nil, fun _ => ⟨_, rfl⟩⟩
  | append_singleton ps p ih =>
    have hall : AllFail (ps ++ [p]) s ↔ AllFail ps s ∧ ∃ error, p s = .fail error := by
      simp [AllFail, or_imp, forall_and]
    rw [hall, ← ih, alt_concat]
    cases alt ps s <;> simp

/-- A failure is that of the last parser, behind others that all fail. -/
theorem alt_eq_fail_iff {ps : List (Parser ε α)} {s : List ε} {error : ParseError ε} :
    alt ps s = .fail error ↔
      (ps = [] ∧ error = ⟨s, .alt⟩) ∨
        ∃ before p, ps = before ++ [p] ∧ AllFail before s ∧ p s = .fail error := by
  rcases List.eq_nil_or_concat ps with rfl | ⟨before, p, rfl⟩
  · constructor
    · intro hfail
      cases hfail
      exact .inl ⟨rfl, rfl⟩
    · rintro (⟨_, rfl⟩ | ⟨before, p, hnil, _⟩)
      · rfl
      · simp at hnil
  -- the last alternative is determined by the list, so the split can be taken as it is
  · have hsplit : (∃ before' p', before ++ [p] = before' ++ [p'] ∧ AllFail before' s ∧
        p' s = .fail error) ↔ AllFail before s ∧ p s = .fail error := by
      constructor
      · rintro ⟨before', p', heq, hall, hp⟩
        obtain ⟨rfl, hlast⟩ := List.append_inj' heq rfl
        cases hlast
        exact ⟨hall, hp⟩
      · rintro ⟨hall, hp⟩
        exact ⟨before, p, rfl, hall, hp⟩
    rw [List.concat_eq_append, hsplit, alt_concat, ← alt_fails_iff]
    cases alt before s <;> simp

/-- Behind parsers that fail, one that does not fail gives the reply. -/
theorem alt_of_first {before : List (Parser ε α)} {p : Parser ε α} {s : List ε}
    (hbefore : AllFail before s) (hp : ∀ error, p s ≠ .fail error) (after : List (Parser ε α)) :
    alt (before ++ p :: after) s = p s := by
  obtain ⟨error, hfail⟩ := alt_fails_iff.mpr hbefore
  rw [alt_append before (List.cons_ne_nil p after), hfail, Reply.orElse_fail]
  show (p s).orElse _ = p s
  cases hps : p s with
  | ok rest value => rfl
  | fail error => exact absurd hps (hp error)
  | unfinished => rfl

/-- Either all alternatives fail, or there is a first one that does not. -/
theorem allFail_or_exists_first (ps : List (Parser ε α)) (s : List ε) :
    AllFail ps s ∨
      ∃ before p after, ps = before ++ p :: after ∧ AllFail before s ∧
        ∀ error, p s ≠ .fail error := by
  induction ps with
  | nil => exact .inl fun p hp => absurd hp List.not_mem_nil
  | cons q qs ih =>
    by_cases hq : ∃ error, q s = .fail error
    · rcases ih with hall | ⟨before, p, after, rfl, hbefore, hp⟩
      · exact .inl (List.forall_mem_cons.mpr ⟨hq, hall⟩)
      · exact .inr ⟨q :: before, p, after, rfl, List.forall_mem_cons.mpr ⟨hq, hbefore⟩, hp⟩
    · refine .inr ⟨[], q, qs, rfl, fun p hp => absurd hp List.not_mem_nil, fun error hfail => ?_⟩
      exact hq ⟨error, hfail⟩

/-- A reply that is no failure is that of the first parser that does not fail. -/
theorem alt_eq_iff_of_not_fail {ps : List (Parser ε α)} {s : List ε} {reply : Reply ε α}
    (hreply : ∀ error, reply ≠ .fail error) :
    alt ps s = reply ↔
      ∃ before p after, ps = before ++ p :: after ∧ AllFail before s ∧ p s = reply := by
  constructor
  · rintro rfl
    rcases allFail_or_exists_first ps s with hall | ⟨before, p, after, rfl, hbefore, hp⟩
    · obtain ⟨error, hfail⟩ := alt_fails_iff.mpr hall
      exact absurd hfail (hreply error)
    · exact ⟨before, p, after, rfl, hbefore, (alt_of_first hbefore hp after).symm⟩
  · rintro ⟨before, p, after, rfl, hbefore, rfl⟩
    exact alt_of_first hbefore hreply after

/-! ## §3. Ways to put alternatives together. -/

/-- Alternatives joined one by one, from left to right. -/
theorem alt_cons_eq_foldl (p : Parser ε α) (ps : List (Parser ε α)) :
    alt (p :: ps) = ps.foldl orElse p := by
  induction ps using List.reverseRecOn with
  | nil => exact alt_singleton p
  | append_singleton ps q ih =>
    funext s
    rw [← List.cons_append, alt_concat, ih, List.foldl_append]
    rfl

end Parser

/-- Tuples, arrays and lists of alternatives are tried in the same way. -/
theorem Form.alt_eq (form : Form) :
    form.alt = (Parser.alt : List (Parser ε (Value ε)) → Parser ε (Value ε)) := by
  funext ps s
  cases form with
  | tuple =>
    cases ps with
    | nil => rfl
    | cons p ps => exact (Parser.alt_cons_eq_firstOf p ps s).symm
  | array => rfl
  | list => rfl

namespace Parser

/-! ## §4. Alternatives inside alternatives, and their errors. -/

/-- Alternatives that stand among others are tried in their turn, followed by the
others. -/
theorem alt_nested_apply (xs ys zs : List (Parser ε α)) (s : List ε) :
    alt (xs ++ alt ys :: zs) s = (alt xs s).orElse fun _ => alt (ys ++ zs) s := by
  rw [alt_append xs (List.cons_ne_nil _ zs)]
  congr 1
  funext _
  exact (altFrom_append ⟨s, .alt⟩ ys zs s).symm

/-- Alternatives in the place of one of several alternatives are alternatives in
one row; but none at all in the last place hide the errors of those before
them. -/
theorem alt_nested_iff (xs ys zs : List (Parser ε α)) :
    alt (xs ++ alt ys :: zs) = alt (xs ++ (ys ++ zs)) ↔
      ys ≠ [] ∨ zs ≠ [] ∨ ∀ s error, alt xs s = .fail error → error = ⟨s, .alt⟩ := by
  by_cases h : ys ++ zs = []
  -- with nothing else to try, the empty list in the nest overwrites the last error
  · obtain ⟨rfl, rfl⟩ := List.append_eq_nil_iff.mp h
    simp only [ne_eq, not_true, false_or]
    rw [funext_iff]
    refine forall_congr' fun s => ?_
    rw [alt_nested_apply, List.append_nil, List.append_nil]
    cases alt xs s with
    | ok rest value => simp
    | fail error =>
      show Reply.fail ⟨s, .alt⟩ = .fail error ↔ _
      simp [eq_comm]
    | unfinished => simp
  -- else the alternatives that are left decide on both sides
  · have hne : ys ≠ [] ∨ zs ≠ [] := by rwa [List.append_eq_nil_iff, not_and_or] at h
    refine iff_of_true ?_ (hne.imp id .inl)
    funext s
    rw [alt_nested_apply, alt_append xs h]

/-- No alternatives at all, tried last, hide why the first one failed. -/
example : alt [fail .fail, alt []] [true] = (.fail ⟨[true], .alt⟩ : Reply Bool Unit) ∧
    alt [fail .fail] [true] = (.fail ⟨[true], .fail⟩ : Reply Bool Unit) := ⟨rfl, rfl⟩

/-- Changing the error of the whole is changing that of each parser and the one handed
in. -/
theorem mapError_altFrom (f : ParseError ε → ParseError ε) (last : ParseError ε)
    (ps : List (Parser ε α)) (s : List ε) :
    (altFrom last ps s).mapError f = altFrom (f last) (ps.map (mapErr f)) s := by
  induction ps generalizing last with
  | nil => rfl
  | cons p ps ih =>
    show ((p s).orElse fun error => altFrom error ps s).mapError f =
      ((p s).mapError f).orElse fun error => altFrom error (ps.map (mapErr f)) s
    cases p s with
    | ok rest value => rfl
    | fail error => exact ih error
    | unfinished => rfl

/-- Changing the error of alternatives is changing it in each of them, but for
an empty list, whose error is no parser's. -/
theorem mapErr_alt_iff (f : ParseError ε → ParseError ε) (ps : List (Parser ε α)) :
    mapErr f (alt ps) = alt (ps.map (mapErr f)) ↔ ps ≠ [] ∨ ∀ s, f ⟨s, .alt⟩ = ⟨s, .alt⟩ := by
  cases ps with
  -- the error of the empty list is changed on the one side only
  | nil =>
    rw [funext_iff]
    simp only [ne_eq, not_true, false_or]
    refine forall_congr' fun s => ?_
    show Reply.fail (f ⟨s, .alt⟩) = .fail ⟨s, .alt⟩ ↔ _
    simp
  | cons p ps =>
    refine iff_of_true ?_ (.inl (List.cons_ne_nil p ps))
    funext s
    exact (mapError_altFrom f ⟨s, .alt⟩ (p :: ps) s).trans
      (altFrom_of_ne_nil (List.cons_ne_nil _ _) _ s)

/-- Relabelling commutes with alternatives unless there are none, whose failure has a
kind of its own. -/
theorem mapKind_alt_iff (kind : Kind) (ps : List (Parser ε α)) :
    mapKind kind (alt ps) = alt (ps.map (mapKind kind)) ↔ ps ≠ [] ∨ kind = .alt := by
  have hkind : (∀ s : List ε, ParseError.withKind kind ⟨s, .alt⟩ = ⟨s, .alt⟩) ↔ kind = .alt := by
    simp [ParseError.withKind]
  rw [← hkind]
  exact mapErr_alt_iff (·.withKind kind) ps

/-! ## §5. All together. -/

/-- **The first success, or else the last failure.**  A success is that of the
first parser that does not fail, on the same input; a failure is that of the
last parser, with its place and its kind, or one of no parser at all.  It makes
no difference whether alternatives are a list, a tuple, or joined one by one.

Alternatives inside alternatives are alternatives in one row, unless there are
none inside and none behind, which hides the errors of those in front.  To give
the error of alternatives another kind is to give it to the error of each of
them, unless there are none. -/
theorem alternatives_are_tried_in_order :
    (∀ (ps : List (Parser ε α)) (s rest : List ε) (value : α),
      alt ps s = .ok rest value ↔
        ∃ before p after,
          ps = before ++ p :: after ∧ AllFail before s ∧ p s = .ok rest value) ∧
    (∀ (ps : List (Parser ε α)) (s : List ε) (error : ParseError ε),
      alt ps s = .fail error ↔
        (ps = [] ∧ error = ⟨s, .alt⟩) ∨
          ∃ before p, ps = before ++ [p] ∧ AllFail before s ∧ p s = .fail error) ∧
    (∀ (ps : List (Parser ε α)) (s : List ε),
      alt ps s = .unfinished ↔
        ∃ before p after,
          ps = before ++ p :: after ∧ AllFail before s ∧ p s = .unfinished) ∧
    (∀ (p : Parser ε α) (ps : List (Parser ε α)),
      firstOf p ps = alt (p :: ps) ∧ ps.foldl orElse p = alt (p :: ps)) ∧
    (∀ form : Form,
      form.alt = (alt : List (Parser ε (Value ε)) → Parser ε (Value ε))) ∧
    (∀ xs ys zs : List (Parser ε α),
      alt (xs ++ alt ys :: zs) = alt (xs ++ (ys ++ zs)) ↔
        ys ≠ [] ∨ zs ≠ [] ∨ ∀ s error, alt xs s = .fail error → error = ⟨s, .alt⟩) ∧
    ∀ (kind : Kind) (ps : List (Parser ε α)),
      mapKind kind (alt ps) = alt (ps.map (mapKind kind)) ↔ ps ≠ [] ∨ kind = .alt := by
  refine ⟨fun ps s rest value => alt_eq_iff_of_not_fail fun error => nofun,
    fun ps s error => alt_eq_fail_iff,
    fun ps s => alt_eq_iff_of_not_fail fun error => nofun, fun p ps => ⟨?_, ?_⟩, Form.alt_eq,
    alt_nested_iff, mapKind_alt_iff⟩
  · funext s
    exact (alt_cons_eq_firstOf p ps s).symm
  · exact (alt_cons_eq_foldl p ps).symm

end Parser

end Parsing
