/-
  Parsing.Text.Lines — THE LINES OF A SEQUENCE.

  The lines are what lies between the elements that end a line: there is one
  more of them than there are such elements, an empty sequence has one empty
  line, and an end at the very end is followed by an empty line.

  Main statements: `length_lines` and `not_ends_of_mem_lines`, how many lines
  there are and what is in them; `lines_rows`, rows that are each ended are split
  into the same rows; `lines_map`, lines of a changed sequence.
-/

namespace Parsing

variable {α : Type}

/-- The pieces between the elements that satisfy `ends`. -/
def lines (ends : α → Bool) : List α → List (List α)
  | [] => [[]]
  | a :: s => if ends a then [] :: lines ends s else (lines ends s).modifyHead (a :: ·)

/-- There is one line more than there are ends. -/
theorem length_lines (ends : α → Bool) (s : List α) :
    (lines ends s).length = s.countP ends + 1 := by
  induction s with
  | nil => rfl
  | cons a s ih => cases h : ends a <;> simp [lines, h, ih]

/-- Even the empty sequence has a line. -/
theorem lines_ne_nil (ends : α → Bool) (s : List α) : lines ends s ≠ [] :=
  List.ne_nil_of_length_pos (by rw [length_lines]; omega)

/-- No line has an end inside it. -/
theorem not_ends_of_mem_lines {ends : α → Bool} {s line : List α} (h : line ∈ lines ends s) :
    ∀ a ∈ line, ends a = false := by
  induction s generalizing line with
  | nil => simp_all [lines]
  | cons b s ih =>
    cases hb : ends b with
    | true =>
      simp only [lines, hb, if_true, List.mem_cons] at h
      -- the line that ends here is empty
      rcases h with rfl | h
      · simp
      · exact ih h
    | false =>
      obtain ⟨first, more, hlines⟩ := List.exists_cons_of_ne_nil (lines_ne_nil ends s)
      simp only [lines, hb, hlines, List.modifyHead_cons, Bool.false_eq_true, if_false,
        List.mem_cons] at h
      -- the element belongs to the first line of the rest
      rcases h with rfl | h
      · intro a ha
        rcases List.mem_cons.mp ha with rfl | ha
        · exact hb
        · exact ih (by rw [hlines]; exact List.mem_cons_self) a ha
      · exact ih (by rw [hlines]; exact List.mem_cons_of_mem _ h)

/-- What stands in front of the first end is the first line. -/
theorem lines_append_cons {ends : α → Bool} {row : List α} {e : α}
    (hrow : ∀ a ∈ row, ends a = false) (he : ends e = true) (t : List α) :
    lines ends (row ++ e :: t) = row :: lines ends t := by
  induction row with
  | nil => rw [List.nil_append, lines, if_pos he]
  | cons a row ih =>
    have ha : ends a = false := hrow a List.mem_cons_self
    rw [List.cons_append, lines, ha, ih fun b hb => hrow b (List.mem_cons_of_mem _ hb)]
    rfl

/-- Rows without an end, each followed by one, are the lines, with an empty one behind them. -/
theorem lines_rows {ends : α → Bool} {rows : List (List α)} {e : α}
    (hrows : ∀ row ∈ rows, ∀ a ∈ row, ends a = false) (he : ends e = true) :
    lines ends (rows.flatMap (· ++ [e])) = rows ++ [[]] := by
  induction rows with
  | nil => rfl
  | cons row rows ih =>
    rw [List.flatMap_cons, List.append_assoc, List.singleton_append,
      lines_append_cons (hrows row List.mem_cons_self) he,
      ih fun row' h => hrows row' (List.mem_cons_of_mem _ h), List.cons_append]

/-- Changing the elements changes those of the lines, if it changes no end. -/
theorem lines_map {β : Type} (f : α → β) (ends : β → Bool) (s : List α) :
    lines ends (s.map f) = (lines (fun a => ends (f a)) s).map (List.map f) := by
  induction s with
  | nil => rfl
  | cons a s ih =>
    obtain ⟨first, more, hlines⟩ :=
      List.exists_cons_of_ne_nil (lines_ne_nil (fun a => ends (f a)) s)
    rw [List.map_cons, lines, lines, ih, hlines]
    split <;> rfl

end Parsing
