/-
  Parsing.Proofs.Expression.Refinement — GRAMMARS REFINE PARSING EXPRESSIONS.

  A parsing expression becomes a grammar by one combinator for each operator:
  `tag`, `satisfy`, `multiple`, `alt`, `many0`, `many1`, `optional`, `peek`,
  `negate` and references to rules.  Whether branches are put together as a
  tuple, in an array or in a list is free, and may differ from node to node.

  Whatever outcome an expression has, the grammar comes to it, if only enough
  rules may be open at once.  The proof is one induction over the derivation:
  for each of its rules there is one step of the combinator, and the depths
  that the premises need are joined by `max`.  At the repetitions the guards of
  the loop have to be harmless, and they are: where the expression has an
  outcome, every match uses something up (`Derives.nativeLen_lt_of_star`).

  Main statement: `refines_expressions`.
-/
import Parsing.Proofs.Expression.Basic
import Parsing.Proofs.Expression.Outcome

namespace Parsing

namespace Expression

variable {ε κ : Type}

/-! ## §1. Expressions as grammars. -/

mutual

/-- The grammar of an expression; `form` says how branches are put together. -/
def toGrammar (form : List (Expression ε) → Form) : Expression ε → Grammar ε κ
  | literal l => .atom (.tag l)
  | elementClass p => .atom (.satisfy p)
  | sequence es => .multiple (form es) (toGrammars form es)
  | choice e es => .alt (form (e :: es)) (toGrammar form e :: toGrammars form es)
  | star e => .many0 (toGrammar form e)
  | plus e => .many1 (toGrammar form e)
  | option e => .optional (toGrammar form e)
  | followedBy e => .peek (toGrammar form e)
  | notFollowedBy e => .negate (toGrammar form e)
  | nonterminal name => .rule name

/-- The grammars of several expressions. -/
def toGrammars (form : List (Expression ε) → Form) : List (Expression ε) → List (Grammar ε κ)
  | [] => []
  | e :: es => toGrammar form e :: toGrammars form es

end

/-- The rules of a table of expressions. -/
def toRules (form : List (Expression ε) → Form) (rules : List (String × Expression ε)) :
    Rules ε κ :=
  Rules.ofList (rules.map fun rule => (rule.1, rule.2.toGrammar form))

/-- A nonterminal of the translated grammar runs the translation of its expression. -/
theorem toRules_of_lookup (form : List (Expression ε) → Form)
    {rules : List (String × Expression ε)} {name : String} {e : Expression ε}
    (h : rules.lookup name = some e) :
    (toRules form rules : Rules ε κ) name = e.toGrammar form := by
  unfold toRules Rules.ofList
  induction rules with
  | nil => cases h
  | cons rule rules ih =>
    obtain ⟨key, body⟩ := rule
    rw [List.lookup_cons] at h
    rw [List.map_cons, List.lookup_cons]
    by_cases hkey : (name == key) = true
    · simp only [hkey, Option.some.injEq] at h ⊢
      rw [h, Option.getD_some]
    · simp only [hkey] at h ⊢
      exact ih h

/-! ## §2. Runs that come to an outcome. -/

variable [Element ε] [DecidableEq ε] [Special ε κ]

/-- With enough rules open at once, and with any larger number of them, the
grammar has the outcome. -/
def Settles (rules : Rules ε κ) (g : Grammar ε κ) (s : List ε) (o : Option (List ε)) : Prop :=
  ∃ depth, ∀ d, depth ≤ d → (rules.run d g s).Gives o

namespace Settles

variable {rules : Rules ε κ} {g g₁ g₂ : Grammar ε κ} {s s₁ s₂ : List ε}
  {o o₁ o₂ : Option (List ε)}

/-- An outcome that follows from the outcome of one part. -/
theorem of_one (h₁ : Settles rules g₁ s₁ o₁)
    (h : ∀ d, (rules.run d g₁ s₁).Gives o₁ → (rules.run d g s).Gives o) :
    Settles rules g s o := by
  obtain ⟨depth, h₁⟩ := h₁
  exact ⟨depth, fun d hd => h d (h₁ d hd)⟩

/-- An outcome that follows from those of two parts. -/
theorem of_two (h₁ : Settles rules g₁ s₁ o₁) (h₂ : Settles rules g₂ s₂ o₂)
    (h : ∀ d, (rules.run d g₁ s₁).Gives o₁ → (rules.run d g₂ s₂).Gives o₂ →
      (rules.run d g s).Gives o) :
    Settles rules g s o := by
  obtain ⟨depth₁, h₁⟩ := h₁
  obtain ⟨depth₂, h₂⟩ := h₂
  refine ⟨max depth₁ depth₂, fun d hd => h d (h₁ d ?_) (h₂ d ?_)⟩
  · omega
  · omega

/-- An outcome that no rule has a part in. -/
theorem of_none (h : ∀ d, (rules.run d g s).Gives o) : Settles rules g s o := ⟨0, fun d _ => h d⟩

/-- Opening a rule takes one more. -/
theorem rule {name : String} (h : Settles rules (rules name) s o) :
    Settles rules (.rule name) s o := by
  obtain ⟨depth, h⟩ := h
  refine ⟨depth + 1, fun d hd => ?_⟩
  obtain ⟨d', rfl⟩ : ∃ d', d = d' + 1 := ⟨d - 1, by omega⟩
  rw [Rules.run_rule_succ]
  exact h d' (by omega)

end Settles

/-! ## §3. The induction over derivations. -/

variable {form : List (Expression ε) → Form} {rules : List (String × Expression ε)}

/-- Whatever outcome an expression has, its grammar comes to it. -/
theorem Derives.settles {e : Expression ε} {s : List ε} {o : Option (List ε)}
    (h : Derives rules e s o) (hs : Sequence.nativeLen s ≤ Parser.maxCount) :
    Settles (toRules form rules : Rules ε κ) (e.toGrammar form) s o := by
  induction h with
  | @literal_match l s r h =>
    refine .of_none fun d => (Parser.map_gives_iff _).mpr ?_
    rw [h]
    exact Parser.tag_gives_of_match l r
  | literal_fail h =>
    exact .of_none fun d => (Parser.map_gives_iff _).mpr (Parser.tag_gives_of_fail h)
  | class_match h =>
    exact .of_none fun d => (Parser.map_gives_iff _).mpr (Parser.element_gives_of_match h)
  | class_fail h =>
    exact .of_none fun d => (Parser.map_gives_iff _).mpr (Parser.element_gives_of_fail h)
  | @class_end p =>
    exact .of_none fun d =>
      (Parser.map_gives_iff Value.elem).mpr (Parser.element_gives_of_end .satisfy p)
  -- the form of a row may differ from that of its tail, but both run as nested pairs
  | sequence_nil =>
    refine .of_none fun d => ?_
    show ((form []).multiple [] _).Gives _
    rw [Form.multiple_gives_iff]
    exact ⟨_, rfl⟩
  | @sequence_cons e es s t o h _ ih ihs =>
    have ht := Sequence.nativeLen_le_of_suffix (h.suffix t rfl)
    refine .of_two (ih hs) (ihs (by omega)) fun d he hes => ?_
    rw [toGrammar] at hes ⊢
    show ((form _).multiple (_ :: _) _).Gives _
    rw [Form.multiple_gives_iff, Parser.chain_gives_iff]
    exact Parser.pair_gives_of_match he ((form _).multiple_gives_iff.mp hes)
  | sequence_fail _ ih =>
    refine .of_one (ih hs) fun d he => ?_
    show ((form _).multiple (_ :: _) _).Gives _
    rw [Form.multiple_gives_iff, Parser.chain_gives_iff]
    exact Parser.pair_gives_of_fail he
  | choice_match _ ih =>
    refine .of_one (ih hs) fun d he => ?_
    show ((form _).alt (_ :: _) _).Gives _
    rw [Form.alt_gives_iff]
    exact Parser.firstOf_gives_of_match he
  | choice_fail _ ih =>
    refine .of_one (ih hs) fun d he => ?_
    show ((form _).alt [_] _).Gives _
    rw [Form.alt_gives_iff]
    exact he
  | choice_next _ _ ih ihs =>
    refine .of_two (ih hs) (ihs hs) fun d he hes => ?_
    show ((form _).alt (_ :: _ :: _) _).Gives _
    rw [Form.alt_gives_iff]
    exact Parser.orElse_gives_of_fail he ((form _).alt_gives_iff.mp hes)
  -- the expression fails, whether or not the loop gets to try it
  | star_done _ ih =>
    refine .of_one (ih hs) fun d he => ?_
    exact (Parser.map_gives_iff _).mpr (Parser.many0_gives_of_fail he)
  -- the loop goes on: the match used something up, or there were no outcome
  | star_more h hstar ih ihs =>
    have hlt := h.nativeLen_lt_of_star hstar
    refine .of_two (ih hs) (ihs (by omega)) fun d he hrest => ?_
    exact (Parser.map_gives_iff _).mpr
      (Parser.many0_gives_of_match he hlt hs ((Parser.map_gives_iff _).mp hrest))
  | plus_fail _ ih =>
    refine .of_one (ih hs) fun d he => ?_
    exact (Parser.map_gives_iff _).mpr (Parser.many1_gives_of_fail he)
  | plus_more h hstar ih ihs =>
    have hlt := h.nativeLen_lt_of_star hstar
    refine .of_two (ih hs) (ihs (by omega)) fun d he hrest => ?_
    exact (Parser.map_gives_iff _).mpr
      (Parser.many1_gives_of_match he hlt hs ((Parser.map_gives_iff _).mp hrest))
  | option_match _ ih =>
    refine .of_one (ih hs) fun d he => ?_
    exact (Parser.map_gives_iff _).mpr (Parser.optional_gives_of_match he)
  | option_none _ ih =>
    refine .of_one (ih hs) fun d he => ?_
    exact (Parser.map_gives_iff _).mpr (Parser.optional_gives_of_fail he)
  | followedBy_match _ ih => exact .of_one (ih hs) fun d he => Parser.peek_gives_of_match he
  | followedBy_fail _ ih => exact .of_one (ih hs) fun d he => Parser.peek_gives_of_fail he
  | notFollowedBy_match _ ih =>
    refine .of_one (ih hs) fun d he => ?_
    exact (Parser.map_gives_iff _).mpr (Parser.negate_gives_of_fail he)
  | notFollowedBy_fail _ ih =>
    refine .of_one (ih hs) fun d he => ?_
    exact (Parser.map_gives_iff _).mpr (Parser.negate_gives_of_match he)
  | nonterminal hrule _ ih =>
    refine .rule ?_
    rw [toRules_of_lookup form hrule]
    exact ih hs

/-- **GRAMMARS REFINE PARSING EXPRESSIONS**: where an expression succeeds and
leaves `r`, its grammar succeeds and leaves `r`, and where it fails its grammar
fails, in every shape and with branches put together in any form.  Enough rules
may be open at once from some depth on.  Widths are words of 64 bits, and so the
input is no wider than the largest of them. -/
theorem refines_expressions (form : List (Expression ε) → Form)
    (rules : List (String × Expression ε)) (e : Expression ε) (s : List ε)
    (hs : Sequence.nativeLen s ≤ Parser.maxCount) :
    (∀ r, Derives rules e s (some r) →
      ∃ depth, ∀ d, depth ≤ d →
        ∃ value, (toRules form rules : Rules ε κ).run d (e.toGrammar form) s = .ok r value) ∧
    (Derives rules e s none →
      ∃ depth, ∀ d, depth ≤ d →
        ∃ error, (toRules form rules : Rules ε κ).run d (e.toGrammar form) s = .fail error) :=
  ⟨fun _ h => h.settles hs, fun h => h.settles hs⟩

/-- Rows of brackets, with rows of brackets inside them. -/
def brackets : List (String × Expression Char) :=
  [("row", .star (.sequence [.literal ['('], .nonterminal "row", .literal [')']]))]

/-- In the sample grammar a pair of brackets that no other one follows is one whole row. -/
theorem derives_brackets (r : List Char) (h : ∀ t, r ≠ '(' :: t) :
    Derives brackets (.nonterminal "row") ('(' :: ')' :: r) (some r) := by
  have hrow : brackets.lookup "row" =
      some (.star (.sequence [.literal ['('], .nonterminal "row", .literal [')']])) := rfl
  -- a row ends where no bracket opens
  have hend : ∀ s : List Char, (∀ t, s ≠ '(' :: t) →
      Derives brackets (.star (.sequence [.literal ['('], .nonterminal "row", .literal [')']])) s
        (some s) := by
    intro s hs
    refine .star_done (.sequence_fail (.literal_fail ?_))
    rintro ⟨t, rfl⟩
    exact hs t rfl
  have hinner : Derives brackets (.nonterminal "row") (')' :: r) (some (')' :: r)) :=
    .nonterminal hrow (hend (')' :: r) (by simp))
  have hclose : Derives brackets (.sequence [.literal [')']]) (')' :: r) (some r) :=
    .sequence_cons (.literal_match rfl) .sequence_nil
  have hpair : Derives brackets (.sequence [.literal ['('], .nonterminal "row", .literal [')']])
      ('(' :: ')' :: r) (some r) :=
    .sequence_cons (.literal_match rfl) (.sequence_cons hinner hclose)
  exact .nonterminal hrow (.star_more hpair (hend r h))

/-- A row of brackets before a wide letter: the row is matched, and so it is a
failure that no row should follow. -/
theorem brackets_refined :
    (Sequence.nativeLen ['(', ')', 'é'] ≤ Parser.maxCount ∧
      Derives brackets (.nonterminal "row") ['(', ')', 'é'] (some ['é']) ∧
      Derives brackets (.notFollowedBy (.nonterminal "row")) ['(', ')', 'é'] none) ∧
    (∃ depth, ∀ d, depth ≤ d → ∃ value,
      (toRules (fun _ => .tuple) brackets : Rules Char (AsciiAtom Char)).run d (.rule "row")
        ['(', ')', 'é'] = .ok ['é'] value) ∧
    ∃ depth, ∀ d, depth ≤ d → ∃ error,
      (toRules (fun _ => .tuple) brackets : Rules Char (AsciiAtom Char)).run d
        (.negate (.rule "row")) ['(', ')', 'é'] = .fail error := by
  have hwidth : Sequence.nativeLen ['(', ')', 'é'] ≤ Parser.maxCount := by decide
  have hrow := derives_brackets ['é'] (by simp)
  have hnot := hrow.notFollowedBy_fail
  exact ⟨⟨hwidth, hrow, hnot⟩,
    (refines_expressions (fun _ => .tuple) brackets (.nonterminal "row") _ hwidth).1 _ hrow,
    (refines_expressions (fun _ => .tuple) brackets
      (.notFollowedBy (.nonterminal "row")) _ hwidth).2 hnot⟩

end Expression

end Parsing
