/-
  Parsing.Proofs.Expression.Basic — PARSING EXPRESSIONS.

  A parsing expression says how to match the front of a sequence: literals,
  classes of elements, sequences, ordered choices, repetitions, options, tests
  that look ahead, and nonterminals, which a table of rules explains.

  `Derives` is what an expression means, independently of any parser: a big-step
  relation between an expression, an input and an outcome, which is what a
  success leaves or nothing for a failure.  An expression may have no outcome,
  for instance the repetition of an expression that matches without using
  anything up, or a nonterminal that calls itself at once.

  Main statements: `Derives.functional` (an expression has one outcome at most),
  `Derives.suffix`, and `Derives.nativeLen_lt_of_star` (in a repetition that has an
  outcome every match uses something up).
-/
import Parsing.Proofs.Boundary

namespace Parsing

/-! ## §1. Expressions. -/

/-- A parsing expression over elements of any sort. -/
inductive Expression (ε : Type) where
  | literal (l : List ε)
  | elementClass (p : ε → Bool)
  | sequence (es : List (Expression ε))
  /-- An ordered choice; it has a first branch. -/
  | choice (e : Expression ε) (es : List (Expression ε))
  | star (e : Expression ε)
  | plus (e : Expression ε)
  | option (e : Expression ε)
  /-- Looks ahead and uses nothing up. -/
  | followedBy (e : Expression ε)
  /-- Succeeds where the expression fails, and uses nothing up. -/
  | notFollowedBy (e : Expression ε)
  | nonterminal (name : String)

namespace Expression

variable {ε : Type}

/-! ## §2. Outcomes. -/

/-- `Derives rules e s o`: on `s` the expression `e` has the outcome `o`, which is
`some r` for a success that leaves `r` and `none` for a failure. -/
inductive Derives (rules : List (String × Expression ε)) :
    Expression ε → List ε → Option (List ε) → Prop
  | literal_match {l s r : List ε} (h : s = l ++ r) : Derives rules (.literal l) s (some r)
  | literal_fail {l s : List ε} (h : ¬ l <+: s) : Derives rules (.literal l) s none
  | class_match {p : ε → Bool} {a : ε} {s : List ε} (h : p a = true) :
      Derives rules (.elementClass p) (a :: s) (some s)
  | class_fail {p : ε → Bool} {a : ε} {s : List ε} (h : p a = false) :
      Derives rules (.elementClass p) (a :: s) none
  | class_end {p : ε → Bool} : Derives rules (.elementClass p) [] none
  | sequence_nil {s : List ε} : Derives rules (.sequence []) s (some s)
  | sequence_cons {e : Expression ε} {es : List (Expression ε)} {s t : List ε}
      {o : Option (List ε)} (h : Derives rules e s (some t))
      (hs : Derives rules (.sequence es) t o) : Derives rules (.sequence (e :: es)) s o
  | sequence_fail {e : Expression ε} {es : List (Expression ε)} {s : List ε}
      (h : Derives rules e s none) : Derives rules (.sequence (e :: es)) s none
  | choice_match {e : Expression ε} {es : List (Expression ε)} {s r : List ε}
      (h : Derives rules e s (some r)) : Derives rules (.choice e es) s (some r)
  | choice_fail {e : Expression ε} {s : List ε} (h : Derives rules e s none) :
      Derives rules (.choice e []) s none
  | choice_next {e e' : Expression ε} {es : List (Expression ε)} {s : List ε}
      {o : Option (List ε)} (h : Derives rules e s none) (hs : Derives rules (.choice e' es) s o) :
      Derives rules (.choice e (e' :: es)) s o
  | star_done {e : Expression ε} {s : List ε} (h : Derives rules e s none) :
      Derives rules (.star e) s (some s)
  | star_more {e : Expression ε} {s t r : List ε} (h : Derives rules e s (some t))
      (hs : Derives rules (.star e) t (some r)) : Derives rules (.star e) s (some r)
  | plus_fail {e : Expression ε} {s : List ε} (h : Derives rules e s none) :
      Derives rules (.plus e) s none
  | plus_more {e : Expression ε} {s t r : List ε} (h : Derives rules e s (some t))
      (hs : Derives rules (.star e) t (some r)) : Derives rules (.plus e) s (some r)
  | option_match {e : Expression ε} {s r : List ε} (h : Derives rules e s (some r)) :
      Derives rules (.option e) s (some r)
  | option_none {e : Expression ε} {s : List ε} (h : Derives rules e s none) :
      Derives rules (.option e) s (some s)
  | followedBy_match {e : Expression ε} {s r : List ε} (h : Derives rules e s (some r)) :
      Derives rules (.followedBy e) s (some s)
  | followedBy_fail {e : Expression ε} {s : List ε} (h : Derives rules e s none) :
      Derives rules (.followedBy e) s none
  | notFollowedBy_match {e : Expression ε} {s : List ε} (h : Derives rules e s none) :
      Derives rules (.notFollowedBy e) s (some s)
  | notFollowedBy_fail {e : Expression ε} {s r : List ε} (h : Derives rules e s (some r)) :
      Derives rules (.notFollowedBy e) s none
  | nonterminal {name : String} {e : Expression ε} {s : List ε} {o : Option (List ε)}
      (hrule : rules.lookup name = some e) (h : Derives rules e s o) :
      Derives rules (.nonterminal name) s o

namespace Derives

variable {rules : List (String × Expression ε)} {e : Expression ε} {s : List ε}
  {o o' : Option (List ε)}

/-- What a success leaves is a suffix of the input. -/
theorem suffix (h : Derives rules e s o) : ∀ r ∈ o, r <:+ s := by
  induction h with
  | literal_match h =>
    rintro r ⟨⟩
    rw [h]
    exact List.suffix_append _ _
  | class_match =>
    rintro r ⟨⟩
    exact List.suffix_cons _ _
  | literal_fail | class_fail | class_end | sequence_fail | choice_fail | plus_fail
  | followedBy_fail | notFollowedBy_fail =>
    intro r hr
    cases hr
  | sequence_nil | star_done | option_none | followedBy_match | notFollowedBy_match =>
    rintro r ⟨⟩
    exact List.suffix_refl _
  -- what two parts consume, one behind the other
  | sequence_cons _ _ ih ihs | star_more _ _ ih ihs | plus_more _ _ ih ihs =>
    intro r hr
    exact (ihs r hr).trans (ih _ rfl)
  | choice_match _ ih | option_match _ ih | nonterminal _ _ ih => exact ih
  | choice_next _ _ _ ihs => exact ihs

/-- **An expression has one outcome at most.** -/
theorem functional (h : Derives rules e s o) (h' : Derives rules e s o') : o = o' := by
  induction h generalizing o' with
  -- a different rule for the same expression contradicts a side condition or the hypothesis
  | literal_match h =>
    cases h' with
    | literal_match h' =>
      rw [h] at h'
      rw [List.append_cancel_left h']
    | literal_fail h' => exact absurd ⟨_, h.symm⟩ h'
  | literal_fail h =>
    cases h' with
    | literal_match h' => exact absurd ⟨_, h'.symm⟩ h
    | literal_fail => rfl
  | class_match h =>
    cases h' with
    | class_match => rfl
    | class_fail h' => rw [h] at h'; cases h'
  | class_fail h =>
    cases h' with
    | class_match h' => rw [h] at h'; cases h'
    | class_fail => rfl
  | class_end => cases h'; rfl
  | sequence_nil => cases h'; rfl
  | sequence_cons _ _ ih ihs =>
    cases h' with
    | sequence_cons h' hs' => cases ih h'; exact ihs hs'
    | sequence_fail h' => cases ih h'
  | sequence_fail _ ih =>
    cases h' with
    | sequence_cons h' => cases ih h'
    | sequence_fail => rfl
  | choice_match _ ih =>
    cases h' with
    | choice_match h' => exact ih h'
    | choice_fail h' | choice_next h' => cases ih h'
  | choice_fail _ ih =>
    cases h' with
    | choice_match h' => cases ih h'
    | choice_fail => rfl
  | choice_next _ _ ih ihs =>
    cases h' with
    | choice_match h' => cases ih h'
    | choice_next _ hs' => exact ihs hs'
  | star_done _ ih =>
    cases h' with
    | star_done => rfl
    | star_more h' => cases ih h'
  | star_more _ _ ih ihs =>
    cases h' with
    | star_done h' => cases ih h'
    | star_more h' hs' => cases ih h'; exact ihs hs'
  | plus_fail _ ih =>
    cases h' with
    | plus_fail => rfl
    | plus_more h' => cases ih h'
  | plus_more _ _ ih ihs =>
    cases h' with
    | plus_fail h' => cases ih h'
    | plus_more h' hs' => cases ih h'; exact ihs hs'
  | option_match _ ih =>
    cases h' with
    | option_match h' => exact ih h'
    | option_none h' => cases ih h'
  | option_none _ ih =>
    cases h' with
    | option_match h' => cases ih h'
    | option_none => rfl
  | followedBy_match _ ih =>
    cases h' with
    | followedBy_match => rfl
    | followedBy_fail h' => cases ih h'
  | followedBy_fail _ ih =>
    cases h' with
    | followedBy_match h' => cases ih h'
    | followedBy_fail => rfl
  | notFollowedBy_match _ ih =>
    cases h' with
    | notFollowedBy_match => rfl
    | notFollowedBy_fail h' => cases ih h'
  | notFollowedBy_fail _ ih =>
    cases h' with
    | notFollowedBy_match h' => cases ih h'
    | notFollowedBy_fail => rfl
  | nonterminal hrule _ ih =>
    cases h' with
    | nonterminal hrule' h' =>
      rw [hrule] at hrule'
      cases hrule'
      exact ih h'

/-- The repetition of an expression that matches without using anything up has
no outcome: each step leads back to where it started. -/
theorem not_star_of_same (h : Derives rules e s (some s)) : ¬ Derives rules (.star e) s o := by
  intro hstar
  generalize he : Expression.star e = e' at hstar
  -- each turn would consume nothing and leave the same repetition
  induction hstar with
  | star_done h' =>
    cases he
    cases h.functional h'
  | star_more h' _ _ ihs =>
    cases he
    cases h.functional h'
    exact ihs h rfl
  | _ => cases he

/-- In a repetition that has an outcome, every match uses something up. -/
theorem nativeLen_lt_of_star [Element ε] {t : List ε} (h : Derives rules e s (some t))
    (hstar : Derives rules (.star e) t o) : Sequence.nativeLen t < Sequence.nativeLen s := by
  have hsuffix := h.suffix t rfl
  rw [← Nat.not_le, Sequence.nativeLen_le_iff_of_suffix hsuffix]
  rintro rfl
  exact h.not_star_of_same hstar

end Derives

end Expression

end Parsing
