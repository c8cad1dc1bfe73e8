/-
  Parsing.Proofs.Coordinates — LINES AND COLUMNS ARE EXACT.

  A position is computed by going through what was used up of an input, and
  mentions no lines.  The lines of an input are what lies between its newlines,
  and mention no position.  Here the two are brought together: the part of an
  input that was used up is some whole lines, each with its newline, and the
  beginning of one more; the position is how many lines these are, and how long
  that beginning is (`exists_lines_after`).

  So a position lies within the lines, and from it the number of elements used
  up can be computed; places further on come later, and no two places share a
  position.  A rest that is no suffix has a position too, since whatever it is,
  something at the front of the input counts as used up.

  Main statements: `exists_lines_after`, `after_before` and
  `locations_are_exact`.
-/
import Mathlib.Algebra.Ring.Nat
import Mathlib.Data.List.Induction
import Parsing.Location
import Parsing.Proofs.Boundary
import Parsing.Text.Lines

namespace Parsing

variable {ε : Type} [CharLike ε]

open CharLike (isNewline)

namespace Position

/-! ## §1. A position and the lines. -/

/-- **What lies in front of a place is some whole lines and the beginning of one
more**, whatever follows the place. -/
theorem exists_lines_after (s : List ε) :
    ∃ whole begun, start.after s = ⟨whole.length, begun.length⟩ ∧
      (whole.map fun line => line.length + 1).sum + begun.length = s.length ∧
      ∀ t, lines isNewline (s ++ t) = whole ++ (lines isNewline t).modifyHead (begun ++ ·) := by
  -- from the back: one more element moves on the position that was reached before it
  induction s using List.reverseRecOn with
  | nil => exact ⟨[], [], rfl, rfl, fun t => by cases h : lines isNewline t <;> simp [h]⟩
  | append_singleton s e ih =>
    obtain ⟨whole, begun, hafter, hlength, hlines⟩ := ih
    rw [after_append, hafter]
    cases he : isNewline e with
    | true =>
      refine ⟨whole ++ [begun], [], by simp [advance, he], ?_, fun t => ?_⟩
      · simp only [List.map_append, List.map_cons, List.map_nil, List.sum_append, List.sum_cons,
          List.sum_nil, List.length_append, List.length_nil, List.length_singleton]
        omega
      · rw [List.append_assoc, hlines]
        cases h : lines isNewline t <;> simp [lines, he, h]
    | false =>
      refine ⟨whole, begun ++ [e], by simp [advance, he], ?_, fun t => ?_⟩
      · simp only [List.length_append, List.length_singleton]
        omega
      · rw [List.append_assoc, hlines]
        cases h : lines isNewline t <;> simp [lines, he, h]

/-! ## §2. Positions further on. -/

/-- One position comes before another one on the same line or on an earlier one. -/
instance : LT Position where
  lt p q := p.line < q.line ∨ p.line = q.line ∧ p.column < q.column

/-- Positions are ordered by lines, and in a line by columns. -/
theorem lt_iff {p q : Position} :
    p < q ↔ p.line < q.line ∨ p.line = q.line ∧ p.column < q.column := Iff.rfl

/-- Every element leads further on, a newline to the next line. -/
theorem lt_advance (p : Position) (e : ε) : p < p.advance e := by
  rw [lt_iff, advance]
  split
  next => exact .inl (Nat.lt_succ_self _)
  next => exact .inr ⟨rfl, Nat.lt_succ_self _⟩

/-- A position is before the one after something more. -/
theorem lt_after (p : Position) {s : List ε} (h : s ≠ []) : p < p.after s := by
  induction s generalizing p with
  | nil => exact absurd rfl h
  | cons e s ih =>
    have hfirst := p.lt_advance e
    by_cases hs : s = []
    · subst hs
      exact hfirst
    · have hlater := ih (p.advance e) hs
      rw [after_cons]
      rw [lt_iff] at hfirst hlater ⊢
      omega

/-! ## §3. Places in an input. -/

variable [Element ε]

/-- The place of a suffix is the one after what is in front of it. -/
theorem locate_append (s t : List ε) : locate (s ++ t) t = start.after s := by
  rw [locate, Sequence.consumed_append]

/-- Whatever the rest is, its position lies within the lines. -/
theorem locate_within (original rest : List ε) :
    ∃ h : (locate original rest).line < (lines isNewline original).length,
      (locate original rest).column ≤
        (lines isNewline original)[(locate original rest).line].length := by
  obtain ⟨t, ht⟩ := Sequence.consumed_prefix original rest
  obtain ⟨whole, begun, hafter, _, hlines⟩ :=
    exists_lines_after (Sequence.consumed original rest)
  obtain ⟨first, more, hfirst⟩ := List.exists_cons_of_ne_nil (lines_ne_nil isNewline t)
  have horiginal := hlines t
  rw [ht, hfirst, List.modifyHead_cons] at horiginal
  rw [locate, hafter]
  simp only [horiginal]
  have hline : whole.length < (whole ++ (begun ++ first) :: more).length := by simp
  exact ⟨hline, by simp⟩

/-- The elements in front of a place are those of the lines before it, each with
its newline, and as many as the column says. -/
theorem sum_lines_locate (used rest : List ε) :
    (((lines isNewline (used ++ rest)).take (locate (used ++ rest) rest).line).map
        fun line => line.length + 1).sum + (locate (used ++ rest) rest).column = used.length := by
  obtain ⟨whole, begun, hafter, hlength, hlines⟩ := exists_lines_after used
  rw [locate_append, hafter, hlines, List.take_left]
  exact hlength

/-- A place with less behind it comes later. -/
theorem locate_lt {original rest rest' : List ε} (h : rest <:+ original)
    (h' : rest' <:+ original) (hlen : rest'.length < rest.length) :
    locate original rest < locate original rest' := by
  obtain ⟨between, rfl⟩ := List.suffix_of_suffix_length_le h' h (Nat.le_of_lt hlen)
  obtain ⟨used, rfl⟩ := h
  have hne : between ≠ [] := by
    rintro rfl
    simp at hlen
  rw [locate_append, ← List.append_assoc, locate_append, after_append]
  exact lt_after _ hne

/-- No two places in an input share a position. -/
theorem locate_injective {original rest rest' : List ε} (h : rest <:+ original)
    (h' : rest' <:+ original) (heq : locate original rest = locate original rest') :
    rest = rest' := by
  -- of two different places, the one with less behind it has the greater position
  have hne : ∀ {a b : List ε}, a <:+ original → b <:+ original →
      locate original a = locate original b → ¬ b.length < a.length := by
    intro a b ha hb hab hlen
    have hlt := locate_lt ha hb hlen
    rw [hab, lt_iff] at hlt
    omega
  have hlen : rest.length = rest'.length := by
    have := hne h h' heq
    have := hne h' h heq.symm
    omega
  exact (List.suffix_of_suffix_length_le h h' (Nat.le_of_eq hlen)).eq_of_length hlen

end Position

/-! ## §4. All together. -/

variable [Element ε]

/-- **Lines and columns are exact.**  The position of any rest lies within the
lines of the input.  For a rest that is a suffix, the elements in front of it are
those of the lines before its line, each with its newline, and as many as the
column says; the offset is the width of what is in front of it.  Of two such
rests the shorter one has the later position, and no two of them have the same. -/
theorem locations_are_exact (original : List ε) :
    (∀ rest, ∃ h : (Position.locate original rest).line < (lines isNewline original).length,
      (Position.locate original rest).column ≤
        (lines isNewline original)[(Position.locate original rest).line].length) ∧
    (∀ used rest kind, original = used ++ rest →
      (((lines isNewline original).take (Position.locate original rest).line).map
          fun line => line.length + 1).sum + (Position.locate original rest).column =
        used.length ∧
      (⟨rest, kind⟩ : ParseError ε).location original =
        { line := (Position.locate original rest).line,
          column := (Position.locate original rest).column,
          offset := Sequence.nativeLen used }) ∧
    (∀ rest rest', rest <:+ original → rest' <:+ original → rest'.length < rest.length →
      Position.locate original rest < Position.locate original rest') ∧
    ∀ rest rest', rest <:+ original → rest' <:+ original →
      Position.locate original rest = Position.locate original rest' → rest = rest' := by
  refine ⟨Position.locate_within original, ?_, fun _ _ => Position.locate_lt,
    fun _ _ => Position.locate_injective⟩
  rintro used rest kind rfl
  refine ⟨Position.sum_lines_locate used rest, ?_⟩
  rw [ParseError.location, Sequence.offsetOf_append]

/-- A text with a character of two bytes, two newlines one after another and one
at the end: the place of the `x` is the start of the third line, five bytes and
four elements into the text, and comes before the end.  A rest of three bytes
that is no suffix is taken to be on the second line. -/
theorem third_line_is_exact :
    (Position.locate ['é', 'a', '\n', '\n', 'x', '\n'] ['日'] = ⟨1, 0⟩ ∧
      ∃ h : 1 < (lines isNewline ['é', 'a', '\n', '\n', 'x', '\n']).length,
        0 ≤ (lines isNewline ['é', 'a', '\n', '\n', 'x', '\n'])[1].length) ∧
    (((lines isNewline ['é', 'a', '\n', '\n', 'x', '\n']).take 2).map
        fun line => line.length + 1).sum + 0 = ['é', 'a', '\n', '\n'].length ∧
    (⟨['x', '\n'], .eof⟩ : ParseError Char).location ['é', 'a', '\n', '\n', 'x', '\n'] =
      ⟨2, 0, 5⟩ ∧
    Position.locate ['é', 'a', '\n', '\n', 'x', '\n'] ['x', '\n'] <
      Position.locate ['é', 'a', '\n', '\n', 'x', '\n'] [] := by
  have h := locations_are_exact ['é', 'a', '\n', '\n', 'x', '\n']
  have hx := h.2.1 ['é', 'a', '\n', '\n'] ['x', '\n'] .eof rfl
  refine ⟨⟨rfl, h.1 ['日']⟩, hx.1, hx.2, ?_⟩
  exact h.2.2.1 ['x', '\n'] [] ⟨['é', 'a', '\n', '\n'], rfl⟩ List.nil_suffix (by decide)

end Parsing
