/-
  Parsing.Proofs.Backtracking — A NESTING IS CLOSED AS A WHOLE OR NOT AT ALL.

  A rule that refers to itself between an opening and a closing element, and
  that otherwise takes nothing, counts how deep it is nested.  It has to open
  all the opening elements in front of the input before it sees how many are
  closed.  If all are, it counts them all.  If a single one is not, the
  innermost failure makes the rule around it take nothing, so that this one in
  turn fails at its closing element, and so on up to the outermost.

  What the input begins with is laid down by `Brackets`: so many opening
  elements, then so many closing ones, and both as many as there are.

  Main statements:
    * `run_succ` — one turn of the rule;
    * `run_of_closed`, `run_of_unclosed`, `run_of_many_opened` — nestings that are
      closed, that are not, and that are too deep, by induction on the nesting;
    * `nesting_all_or_nothing`, which puts these together.
-/
import Mathlib.Logic.Function.Iterate
import Parsing.Grammar.Client
import Parsing.Grammar.Run
import Parsing.Proofs.Span

namespace Parsing

/-! ## §1. What an input begins with. -/

section Brackets

variable {ε : Type} {opening closing : ε} {s tail : List ε} {opened closed : Nat}

/-- The input begins with so many opening elements and, behind them, so many
closing ones, and not with one more of either. -/
structure Brackets (opening closing : ε) (s : List ε) (opened closed : Nat) (tail : List ε) :
    Prop where
  split : s = List.replicate opened opening ++ (List.replicate closed closing ++ tail)
  opening_maximal : (List.replicate closed closing ++ tail).head? ≠ some opening
  closing_maximal : tail.head? ≠ some closing

/-- There are so many of an element in front of a list, and not more. -/
theorem exists_maximal_replicate [DecidableEq ε] (e : ε) (s : List ε) :
    ∃ n tail, s = List.replicate n e ++ tail ∧ tail.head? ≠ some e := by
  induction s with
  | nil => exact ⟨0, [], rfl, by simp⟩
  | cons first s ih =>
    by_cases hfirst : first = e
    · obtain ⟨n, tail, rfl, htail⟩ := ih
      exact ⟨n + 1, tail, by rw [hfirst, List.replicate_succ, List.cons_append], htail⟩
    · exact ⟨0, first :: s, rfl, by simpa using hfirst⟩

/-- Every input begins with some number of opening elements and then of closing ones. -/
theorem exists_brackets [DecidableEq ε] (opening closing : ε) (s : List ε) :
    ∃ opened closed tail, Brackets opening closing s opened closed tail := by
  obtain ⟨opened, behind, hs, hopening⟩ := exists_maximal_replicate opening s
  obtain ⟨closed, tail, rfl, hclosing⟩ := exists_maximal_replicate closing behind
  exact ⟨opened, closed, tail, hs, hopening, hclosing⟩

/-- There are no more opening elements than there are elements. -/
theorem Brackets.opened_le_length (h : Brackets opening closing s opened closed tail) :
    opened ≤ s.length := by
  rw [h.split, List.length_append, List.length_replicate]
  exact Nat.le_add_right _ _

/-- What follows as many closing elements as there are opening ones. -/
theorem Brackets.drop_eq (h : Brackets opening closing s opened closed tail)
    (hclosed : opened ≤ closed) :
    s.drop (2 * opened) = List.replicate (closed - opened) closing ++ tail := by
  obtain ⟨more, rfl⟩ := Nat.exists_eq_add_of_le hclosed
  rw [h.split, ← List.replicate_append_replicate, List.append_assoc, ← List.append_assoc,
    Nat.add_sub_cancel_left]
  exact List.drop_left' (by simp [Nat.two_mul])

end Brackets

/-! ## §2. One turn of the rule. -/

/-- A rule that refers to itself between an opening and a closing element and
changes the value, or else takes nothing. -/
structure NestingRule (ε : Type) where
  opening : ε
  closing : ε
  next : Value ε → Value ε
  zero : Value ε

namespace NestingRule

variable {ε κ : Type} [Element ε] [DecidableEq ε] {n : NestingRule ε}

/-- The rule as a grammar; it stands under any name. -/
def rules (n : NestingRule ε) : Rules ε κ := fun _ =>
  .alt .tuple
    [.map n.next (.delimited (.atom (.char n.opening)) (.lazy (.rule "nesting"))
      (.atom (.char n.closing))), .atom (.success n.zero)]

variable [Special ε κ] {depth : Nat} {s rest : List ε} {value : Value ε}

variable (κ) in
/-- A run of the rule that may be open `depth` times at once. -/
def run (n : NestingRule ε) (depth : Nat) : Parser ε (Value ε) :=
  (n.rules : Rules ε κ).run depth (.rule "nesting")

/-- One turn: what is between an opening and a closing element, or else nothing. -/
theorem run_succ (n : NestingRule ε) (depth : Nat) (s : List ε) :
    n.run κ (depth + 1) s =
      ((Parser.char n.opening s).andThen fun inner _ =>
        (n.run κ depth inner).andThen fun rest value =>
          (Parser.char n.closing rest).andThen fun rest' _ =>
            .ok rest' (n.next value)).orElse fun _ => .ok s n.zero := by
  show ((Parser.delimited (.map Value.elem (Parser.char n.opening)) (n.run κ depth)
    (.map Value.elem (Parser.char n.closing)) s).map n.next).orElse (fun _ => .ok s n.zero) = _
  rw [Parser.delimited_apply]
  simp only [Parser.map, Reply.map, Reply.andThen_assoc, Reply.andThen_ok]

/-- Where no element is opened, nothing is taken. -/
theorem run_of_not_opened (hs : s.head? ≠ some n.opening) :
    n.run κ (depth + 1) s = .ok s n.zero := by
  rw [run_succ, Parser.char_of_head?_ne hs, Reply.andThen_fail, Reply.orElse_fail]

/-- What is closed counts once more than what is inside. -/
theorem run_cons_of_closed (hinner : n.run κ depth s = .ok (n.closing :: rest) value) :
    n.run κ (depth + 1) (n.opening :: s) = .ok rest (n.next value) := by
  rw [run_succ, Parser.char_cons_self, Reply.andThen_ok, hinner, Reply.andThen_ok,
    Parser.char_cons_self, Reply.andThen_ok, Reply.orElse_ok]

/-- What is not closed is given back as a whole, whatever there is inside. -/
theorem run_cons_of_unclosed (hinner : n.run κ depth s = .ok rest value)
    (hrest : rest.head? ≠ some n.closing) :
    n.run κ (depth + 1) (n.opening :: s) = .ok (n.opening :: s) n.zero := by
  rw [run_succ, Parser.char_cons_self, Reply.andThen_ok, hinner, Reply.andThen_ok,
    Parser.char_of_head?_ne hrest, Reply.andThen_fail, Reply.orElse_fail]

/-- A run that is cut off inside is cut off as a whole; it is not taken for a failure. -/
theorem run_cons_of_unfinished (hinner : n.run κ depth s = .unfinished) :
    n.run κ (depth + 1) (n.opening :: s) = .unfinished := by
  rw [run_succ, Parser.char_cons_self, Reply.andThen_ok, hinner, Reply.andThen_unfinished,
    Reply.orElse_unfinished]

/-! ## §3. Any number of turns. -/

variable {opened closed : Nat} {tail : List ε}

/-- If all opening elements are closed, all are counted. -/
theorem run_of_closed (more opened : Nat)
    (hopening : (List.replicate opened n.closing ++ rest).head? ≠ some n.opening) :
    n.run κ (more + 1 + opened)
        (List.replicate opened n.opening ++ (List.replicate opened n.closing ++ rest)) =
      .ok rest (n.next^[opened] n.zero) := by
  induction opened generalizing rest with
  | zero => exact run_of_not_opened hopening
  | succ opened ih =>
    -- the last closing element is that of this turn, the others are closed inside
    have hlast : List.replicate (opened + 1) n.closing ++ rest =
        List.replicate opened n.closing ++ (n.closing :: rest) := by
      rw [List.replicate_succ', List.append_assoc, List.singleton_append]
    rw [hlast] at hopening ⊢
    rw [Function.iterate_succ_apply']
    exact run_cons_of_closed (ih hopening)

/-- If some opening elements are not closed, nothing is taken. -/
theorem run_of_unclosed (more missing : Nat) (hdiffer : n.opening ≠ n.closing)
    (hopening : (List.replicate closed n.closing ++ tail).head? ≠ some n.opening)
    (hclosing : tail.head? ≠ some n.closing) :
    n.run κ (more + 1 + (closed + 1 + missing))
        (List.replicate (closed + 1 + missing) n.opening ++
          (List.replicate closed n.closing ++ tail)) =
      .ok (List.replicate (closed + 1 + missing) n.opening ++
        (List.replicate closed n.closing ++ tail)) n.zero := by
  induction missing with
  | zero =>
    -- inside all are closed, and none is left for this turn
    exact run_cons_of_unclosed (run_of_closed more closed hopening) hclosing
  | succ missing ih =>
    -- already inside nothing is taken, and so an opening element follows
    refine run_cons_of_unclosed ih ?_
    rw [List.head?_append, List.head?_replicate, if_neg (by omega), Option.some_or]
    exact fun h => hdiffer (Option.some.inj h)

/-- With no more of the rule open at once than there are opening elements, no end is reached. -/
theorem run_of_many_opened (n : NestingRule ε) (depth more : Nat) (tail : List ε) :
    n.run κ depth (List.replicate (more + depth) n.opening ++ tail) = .unfinished := by
  induction depth with
  | zero => exact Rules.run_rule_zero n.rules "nesting" _
  | succ depth ih => exact run_cons_of_unfinished ih

/-- A run takes all opening elements with as many closing ones, or nothing; it is cut
off if the rule may be open no more often than there are opening elements. -/
theorem run_of_brackets (hdiffer : n.opening ≠ n.closing)
    (h : Brackets n.opening n.closing s opened closed tail) (depth : Nat) :
    n.run κ depth s =
      if depth ≤ opened then .unfinished
      else if opened ≤ closed then .ok (s.drop (2 * opened)) (n.next^[opened] n.zero)
      else .ok s n.zero := by
  split
  -- too few rules may be open
  next hdepth =>
    obtain ⟨more, rfl⟩ := Nat.exists_eq_add_of_le' hdepth
    rw [h.split]
    exact run_of_many_opened n depth more _
  next hdepth =>
    obtain ⟨more, rfl⟩ := Nat.exists_eq_add_of_le' (Nat.lt_of_not_le hdepth)
    have hdepths : more + (opened + 1) = more + 1 + opened := Nat.add_right_comm more opened 1
    rw [hdepths]
    split
    -- enough closing elements: those beyond the opening ones belong to what follows
    next hclosed =>
      rw [h.drop_eq hclosed]
      obtain ⟨rfl, hopening, -⟩ := h
      obtain ⟨left, rfl⟩ := Nat.exists_eq_add_of_le hclosed
      rw [← List.replicate_append_replicate, List.append_assoc] at hopening ⊢
      rw [Nat.add_sub_cancel_left]
      exact run_of_closed more opened hopening
    -- too few of them: the innermost brackets fail first, and so do all around them
    next hclosed =>
      obtain ⟨rfl, hopening, hclosing⟩ := h
      obtain ⟨missing, rfl⟩ := Nat.exists_eq_add_of_le (Nat.lt_of_not_le hclosed)
      exact run_of_unclosed more missing hdiffer hopening hclosing

end NestingRule

/-! ## §4. Counting. -/

variable {ε κ : Type} [Element ε] {opening closing : ε}

/-- The rule that counts how deep it is nested. -/
def countingRule (opening closing : ε) : NestingRule ε where
  opening := opening
  closing := closing
  next := (Client.ValueMap.plus 1).apply
  zero := .int 0

/-- Counting from zero does not leave the range of a signed word. -/
theorem iterate_plus_one {n : Nat} (hn : n < Nat.pow 2 63) :
    (Client.ValueMap.plus 1).apply^[n] (.int 0 : Value ε) = .int n := by
  induction n with
  | zero => rfl
  | succ n ih =>
    rw [Function.iterate_succ_apply', ih (Nat.lt_of_succ_lt hn)]
    have hhigh : ((n + 1 : Nat) : Int) < Int.pow 2 63 := Int.ofNat_lt.mpr hn
    have hlow : -Int.pow 2 63 ≤ ((n + 1 : Nat) : Int) :=
      Int.le_trans (by decide) (Int.natCast_nonneg (n + 1))
    exact congrArg Value.int (Value.wrap_eq_self hlow hhigh)

/-- **A nesting is closed as a whole or not at all.**  Any input begins with some
opening elements and then some closing ones, as many as there are of each.  If the
rule may be open once more than there are opening elements, its run ends and does
not fail: it takes all of the opening elements with as many closing ones, and counts
them, if there are so many; and otherwise it yields zero and takes nothing.  If it
may not be open so often, its run is cut off, and it does not yield anything else. -/
theorem nesting_all_or_nothing [DecidableEq ε] [Special ε κ] (hdiffer : opening ≠ closing)
    {s : List ε} (hs : s.length < Nat.pow 2 63) :
    (∃ opened closed tail, Brackets opening closing s opened closed tail) ∧
      ∀ opened closed tail, Brackets opening closing s opened closed tail →
        opened ≤ s.length ∧
        ∀ depth, (countingRule opening closing).run κ depth s =
          if depth ≤ opened then .unfinished
          else if opened ≤ closed then .ok (s.drop (2 * opened)) (.int opened)
          else .ok s (.int 0) := by
  refine ⟨exists_brackets opening closing s, fun opened closed tail h =>
    ⟨h.opened_le_length, fun depth => ?_⟩⟩
  have hcount : (Client.ValueMap.plus 1).apply^[opened] (.int 0 : Value ε) = .int opened :=
    iterate_plus_one (Nat.lt_of_le_of_lt h.opened_le_length hs)
  rw [← hcount]
  exact NestingRule.run_of_brackets hdiffer h depth

/-- Three opening elements of a text that are all closed, and two of a row of bytes of
which only one is. -/
theorem parentheses_all_or_nothing :
    ('(' ≠ ')' ∧ ['(', '(', '(', ')', ')', ')', 'x'].length < Nat.pow 2 63 ∧
      Brackets '(' ')' ['(', '(', '(', ')', ')', ')', 'x'] 3 3 ['x'] ∧
      (countingRule '(' ')').run (AsciiAtom Char) 4 ['(', '(', '(', ')', ')', ')', 'x'] =
        .ok ['x'] (.int 3)) ∧
    ((40 : UInt8) ≠ 41 ∧ [(40 : UInt8), 40, 41].length < Nat.pow 2 63 ∧
      Brackets (40 : UInt8) 41 [40, 40, 41] 2 1 [] ∧
      (countingRule (40 : UInt8) 41).run (AsciiAtom UInt8) 3 [40, 40, 41] =
        .ok [40, 40, 41] (.int 0)) := by
  have htext : '(' ≠ ')' := by decide
  have hbytes : (40 : UInt8) ≠ 41 := by decide
  have hclosed : Brackets '(' ')' ['(', '(', '(', ')', ')', ')', 'x'] 3 3 ['x'] :=
    ⟨rfl, by decide, by decide⟩
  have hunclosed : Brackets (40 : UInt8) 41 [40, 40, 41] 2 1 [] := ⟨rfl, by decide, by decide⟩
  refine ⟨⟨htext, by decide, hclosed, ?_⟩, hbytes, by decide, hunclosed, ?_⟩
  · exact ((nesting_all_or_nothing htext (by decide)).2 3 3 _ hclosed).2 4
  · exact ((nesting_all_or_nothing hbytes (by decide)).2 2 1 _ hunclosed).2 3

end Parsing
