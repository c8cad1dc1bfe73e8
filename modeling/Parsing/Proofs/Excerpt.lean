/-
  Parsing.Proofs.Excerpt — A REPORT SHOWS THE FAILING LINE AND POINTS AT THE PLACE.

  A report is one text.  Split at its newlines it is a heading, an empty line
  and the rows of an excerpt: each line of the input near the failing one, in
  its order, behind a gutter with its number, and under the failing line a
  pointer.  The rows are stated here on their own (`rows`), by the numbers of
  the lines and by the lines of the input; the report chooses its lines from
  those of the text that the input stands for, which are the same
  (`lines_render`).

  The pointer stands under the element that the error is at, since the gutter is
  as wide in both rows and the element is at the column of its line.  A row ends
  where only carriage returns would follow, so this needs something else in the
  line from there on.

  Main statements:
    * `shown_eq` — the lines that are chosen, by their numbers;
    * `lines_report` — the report is its heading and the rows;
    * `getElem?_row_pointer` — what the pointer stands under;
    * `report_points_at_the_failure`, which puts these together.
-/
import Mathlib.Data.List.DropRight
import Mathlib.Data.List.GetD
import Mathlib.Data.List.Intervals
import Mathlib.Data.List.Nodup
import Parsing.Proofs.Coordinates
import Parsing.Report

namespace Parsing

open CharLike (isNewline toChar)

namespace Report

/-! ## §1. The rows of an excerpt. -/

/-- The numbers of the lines near the failing one, of so many lines. -/
def numbers (count failing : Nat) : List Nat :=
  List.Ico (failing - 2) (min (count - 1) (failing + 2) + 1)

section Rows

variable {ε : Type} [CharLike ε]

/-- The text of the line with a given number, without the carriage returns at
its end. -/
def lineText (original : List ε) (number : Nat) : List Char :=
  (CharLike.render ((lines isNewline original).getD number [])).rdropWhile (· == '\r')

/-- A line behind its gutter. -/
def row (original : List ε) (failing number : Nat) : List Char :=
  (if number = failing then "  > " else "    ").toList ++ (Nat.repr (number + 1)).toList ++
    " | ".toList ++ lineText original number

/-- What stands under the failing line: as many blanks as its gutter and the
column are wide, and a pointer. -/
def pointer (failing column : Nat) : List Char :=
  List.replicate ("  > ".length + (Nat.repr (failing + 1)).length + " | ".length + column) ' ' ++
    "^--- here".toList

/-- All rows, the pointer behind the failing line. -/
def rows (original : List ε) (failing column : Nat) : List (List Char) :=
  (numbers (lines isNewline original).length failing).flatMap fun number =>
    row original failing number :: if number = failing then [pointer failing column] else []

/-- The failing line is shown once. -/
theorem count_numbers {count failing : Nat} (h : failing < count) :
    (numbers count failing).count failing = 1 := by
  refine List.count_eq_one_of_mem (List.Ico.nodup _ _) ?_
  rw [numbers, List.Ico.mem]
  omega

/-! ## §2. The lines that are chosen. -/

/-- The lines at a distance of at most two, told by the three bounds of `numbers`. -/
theorem filter_isNear_range {count : Nat} (h : 0 < count) (failing : Nat) :
    (List.range count).filter (isNear failing) = numbers count failing := by
  have hnear : isNear failing = fun n => decide (failing - 2 ≤ n) && decide (n < failing + 3) := by
    funext n
    rw [isNear, context]
    exact congrArg _ (decide_eq_decide.mpr Nat.lt_succ_iff.symm)
  rw [hnear, ← List.filter_filter, ← List.Ico.zero_bot, List.Ico.filter_lt, List.Ico.filter_le,
    numbers]
  congr 1
  omega

/-- Numbering a list is looking up every number below its length. -/
theorem zipIdx_eq_map_range {α : Type} (l : List (List α)) :
    l.zipIdx = (List.range l.length).map fun n => (l.getD n [], n) := by
  apply List.ext_getElem?
  intro n
  rw [List.getElem?_zipIdx, List.getElem?_map]
  by_cases h : n < l.length
  · simp [h]
  · simp [h]

/-- The text that an input stands for has the lines of the input. -/
theorem lines_render (original : List ε) :
    lines (· == '\n') (CharLike.render original) =
      (lines isNewline original).map CharLike.render := by
  have hends : (fun e : ε => toChar e == '\n') = isNewline := funext fun e => by
    rw [isNewline, beq_eq_decide]
  rw [CharLike.render, lines_map, hends]
  rfl

/-- The lines that are shown, by their numbers. -/
theorem shown_eq (original : List ε) (failing : Nat) :
    shown (CharLike.render original) failing =
      (numbers (lines isNewline original).length failing).map fun n =>
        ⟨n, lineText original n⟩ := by
  have hpos : 0 < (lines isNewline original).length := by rw [length_lines]; omega
  rw [shown, zipIdx_eq_map_range, List.filter_map, List.map_map, lines_render, List.length_map,
    ← filter_isNear_range hpos]
  refine List.map_congr_left fun n _ => ?_
  rw [lineText, ← List.getD_map _ [] CharLike.render]
  rfl

/-! ## §3. The lines of a report. -/

/-- The gutter of the failing line: its marker, its number and its bar. -/
theorem length_gutter (failing : Nat) :
    (gutter failing failing).length =
      "  > ".length + (Nat.repr (failing + 1)).length + " | ".length := by
  rw [gutter, if_pos rfl, List.length_append, List.length_append, String.length_toList,
    String.length_toList, String.length_toList]

/-- What is written for a line is its rows, each with a newline. -/
theorem render_line (original : List ε) (failing column number : Nat) :
    Line.render ⟨failing, column⟩ ⟨number, lineText original number⟩ =
      (row original failing number ::
        if number = failing then [pointer failing column] else []).flatMap (· ++ ['\n']) := by
  rw [Line.render, List.flatMap_cons]
  split
  next h =>
    subst h
    rw [length_gutter]
    simp [row, pointer, gutter]
  next h => simp [row, gutter, h]

/-- The excerpt is its rows, each with a newline. -/
theorem flatMap_render_shown (original : List ε) (failing column : Nat) :
    (shown (CharLike.render original) failing).flatMap (Line.render ⟨failing, column⟩) =
      (rows original failing column).flatMap (· ++ ['\n']) := by
  rw [shown_eq, List.flatMap_map, rows, List.flatMap_assoc]
  exact congrArg (List.flatMap · _) (funext fun n => render_line original failing column n)

theorem not_mem_repr (n : Nat) : '\n' ∉ (Nat.repr n).toList := by
  rw [Nat.toList_repr]
  intro h
  exact absurd (Nat.isDigit_of_mem_toDigits (by decide) (by decide) h) (by decide)

/-- The text of a line has lost its line ending. -/
theorem not_mem_lineText (original : List ε) (number : Nat) :
    '\n' ∉ lineText original number := by
  intro h
  obtain ⟨e, he, hchar⟩ := List.mem_map.mp ((List.rdropWhile_prefix _ _).mem h)
  have hline : isNewline e = false := by
    rw [List.getD_eq_getElem?_getD] at he
    cases hget : (lines isNewline original)[number]? with
    | none => simp [hget] at he
    | some line =>
      rw [hget] at he
      exact not_ends_of_mem_lines (List.mem_of_getElem? hget) e he
  simp [isNewline, hchar] at hline

theorem not_mem_row (original : List ε) (failing number : Nat) :
    '\n' ∉ row original failing number := by
  simp only [row, List.mem_append, not_or]
  refine ⟨⟨⟨?_, not_mem_repr _⟩, by decide⟩, not_mem_lineText original number⟩
  split <;> decide

theorem not_mem_pointer (failing column : Nat) : '\n' ∉ pointer failing column := by
  simp [pointer]

/-- No row of an excerpt can be split further, so the lines of a report are its rows. -/
theorem not_mem_of_mem_rows {original : List ε} {failing column : Nat} {line : List Char}
    (h : line ∈ rows original failing column) : '\n' ∉ line := by
  obtain ⟨number, _, h⟩ := List.mem_flatMap.mp h
  split at h
  next =>
    rcases List.mem_cons.mp h with rfl | h
    · exact not_mem_row original failing number
    · rw [List.mem_singleton.mp h]
      exact not_mem_pointer failing column
  next =>
    rw [List.mem_singleton.mp h]
    exact not_mem_row original failing number

theorem not_mem_description (kind : Kind) : '\n' ∉ kind.description.toList := by
  cases kind <;> decide

theorem not_mem_display (l : Location) : '\n' ∉ l.display.toList := by
  simp only [Location.display, String.toList_append, List.mem_append, not_or]
  exact ⟨⟨⟨by decide, not_mem_repr _⟩, by decide⟩, not_mem_repr _⟩

/-! ## §4. What the pointer stands under. -/

/-- The pointer is behind the gutter and as many blanks as the column counts. -/
theorem idxOf_pointer (failing column : Nat) :
    (pointer failing column).idxOf '^' = (gutter failing failing).length + column := by
  have hblank : '^' ∉ List.replicate
      ("  > ".length + (Nat.repr (failing + 1)).length + " | ".length + column) ' ' := by
    simp [List.mem_replicate]
  rw [pointer, List.idxOf_append, if_neg hblank, List.length_replicate, length_gutter]
  simp

/-- Dropping from the end stops at the last element that is to be kept. -/
theorem rdropWhile_append {α : Type} {p : α → Bool} {t : List α} (h : ∃ c ∈ t, p c = false)
    (s : List α) : (s ++ t).rdropWhile p = s ++ t.rdropWhile p := by
  obtain ⟨c, hc, hp⟩ := h
  have hne : t.reverse.dropWhile p ≠ [] := fun h =>
    absurd (List.dropWhile_eq_nil_iff.mp h c (List.mem_reverse.mpr hc)) (by simp [hp])
  rw [List.rdropWhile, List.reverse_append, List.dropWhile_append, if_neg (by simpa using hne),
    List.reverse_append, List.reverse_reverse, List.rdropWhile]

/-- Trimming the end of a line keeps its first element if anything is left at all. -/
theorem head?_rdropWhile {α : Type} {p : α → Bool} {a : α} {t : List α}
    (h : ∃ c ∈ a :: t, p c = false) : ((a :: t).rdropWhile p).head? = some a := by
  obtain ⟨c, hc, hp⟩ := h
  have hne : (a :: t).rdropWhile p ≠ [] := fun h =>
    absurd (List.rdropWhile_eq_nil_iff.mp h c hc) (by simp [hp])
  obtain ⟨b, u, hcons⟩ := List.exists_cons_of_ne_nil hne
  obtain ⟨v, hv⟩ := List.rdropWhile_prefix p (a :: t)
  rw [hcons, List.cons_append, List.cons.injEq] at hv
  rw [hcons, hv.1]
  rfl

variable [Element ε]

/-- In the text of the line that it is on, a place is at its column. -/
theorem getElem?_lineText {original rest later : List ε} {x : ε} (hrest : rest = x :: later)
    (hsuffix : rest <:+ original) (hx : isNewline x = false)
    (h : ∃ e ∈ ((lines isNewline original).getD (Position.locate original rest).line []).drop
      (Position.locate original rest).column, toChar e ≠ '\r') :
    (lineText original (Position.locate original rest).line)[(Position.locate original
      rest).column]? = some (toChar x) := by
  subst hrest
  -- what was used up ends in the part of the line in front of the place
  obtain ⟨used, rfl⟩ := hsuffix
  obtain ⟨whole, begun, hafter, -, hlines⟩ := Position.exists_lines_after used
  obtain ⟨first, more, hfirst⟩ := List.exists_cons_of_ne_nil (lines_ne_nil isNewline later)
  have hline : (lines isNewline (used ++ x :: later)).getD whole.length [] =
      begun ++ x :: first := by
    simp [hlines, lines, hx, hfirst]
  rw [Position.locate_append, hafter] at h ⊢
  rw [hline, List.drop_left] at h
  obtain ⟨e, he, hreturn⟩ := h
  -- the carriage returns that are trimmed come behind the element
  have hkept : ∃ c ∈ toChar x :: CharLike.render first, (c == '\r') = false :=
    ⟨toChar e, List.mem_map_of_mem he, beq_false_of_ne hreturn⟩
  have hlength : begun.length = (CharLike.render begun).length := by
    rw [CharLike.render, List.length_map]
  rw [lineText, hline, CharLike.render, List.map_append, List.map_cons]
  change ((CharLike.render begun ++ toChar x :: CharLike.render first).rdropWhile _)[_]? = _
  rw [rdropWhile_append hkept, hlength, List.getElem?_append_right le_rfl, Nat.sub_self,
    ← List.head?_eq_getElem?, head?_rdropWhile hkept]

/-- The pointer stands under the element that the rest starts with. -/
theorem getElem?_row_pointer {original rest later : List ε} {x : ε} (hrest : rest = x :: later)
    (hsuffix : rest <:+ original) (hx : isNewline x = false)
    (h : ∃ e ∈ ((lines isNewline original).getD (Position.locate original rest).line []).drop
      (Position.locate original rest).column, toChar e ≠ '\r') :
    (row original (Position.locate original rest).line
        (Position.locate original rest).line)[(pointer (Position.locate original rest).line
          (Position.locate original rest).column).idxOf '^']? = some (toChar x) := by
  rw [idxOf_pointer, row, ← gutter, List.getElem?_append_right (Nat.le_add_right _ _),
    Nat.add_sub_cancel_left, getElem?_lineText hrest hsuffix hx h]

/-- **A report is its heading, an empty line and the rows.** -/
theorem lines_report (original : List ε) (error : ParseError ε) :
    lines (· == '\n') (error.report original).toList =
      (error.kind.description ++ " error at " ++ (error.location original).display).toList :: [] ::
        rows original (error.location original).line (error.location original).column ++ [[]] := by
  -- none of the rows has a newline inside it, so each of them is one line
  have hrows : ∀ line ∈
      (error.kind.description ++ " error at " ++ (error.location original).display).toList :: [] ::
        rows original (error.location original).line (error.location original).column,
      ∀ c ∈ line, (c == '\n') = false := by
    intro line hline c hc
    refine beq_false_of_ne fun heq => ?_
    subst heq
    rcases List.mem_cons.mp hline with rfl | hline
    · simp only [String.toList_append, List.mem_append] at hc
      rcases hc with (hc | hc) | hc
      · exact not_mem_description _ hc
      · exact absurd hc (by decide)
      · exact not_mem_display _ hc
    rcases List.mem_cons.mp hline with rfl | hline
    · simp at hc
    · exact not_mem_of_mem_rows hline hc
  rw [← lines_rows hrows (beq_self_eq_true '\n'), ParseError.report, Report.render,
    flatMap_render_shown]
  simp

end Rows

end Report

open Report

variable {ε : Type} [CharLike ε] [Element ε]

/-- **A report shows the lines around the failing one and points at the failing
element.**  Whatever the rest of an error is, its report on an input is a
heading, an empty line and the rows: the lines of the input with the numbers from
two below that of the failing line to two above it, as far as there are such
lines, in their order and each once, with their numbers counted from one; the
failing line is one of them, and behind it there is a pointer.  If the rest is a
suffix that does not start at the end of a line, and if the failing line has more
than carriage returns from there on, then what the pointer is under is the first
element of the rest. -/
theorem report_points_at_the_failure (original : List ε) (error : ParseError ε) (line column : Nat)
    (hplace : Position.locate original error.rest = ⟨line, column⟩) :
    lines (· == '\n') (error.report original).toList =
        (error.kind.description ++ " error at " ++ (error.location original).display).toList ::
          [] :: rows original line column ++ [[]] ∧
      (numbers (lines isNewline original).length line).count line = 1 ∧
      ∀ x later, error.rest = x :: later → error.rest <:+ original → isNewline x = false →
        (∃ e ∈ ((lines isNewline original).getD line []).drop column, toChar e ≠ '\r') →
        (row original line line)[(pointer line column).idxOf '^']? = some (toChar x) := by
  have hline : (error.location original).line = line := congrArg Position.line hplace
  have hcolumn : (error.location original).column = column := congrArg Position.column hplace
  obtain ⟨hwithin, -⟩ := Position.locate_within original error.rest
  have hpoints := @getElem?_row_pointer _ _ _ original error.rest
  rw [hplace] at hwithin hpoints
  refine ⟨?_, count_numbers hwithin, fun x later => hpoints⟩
  rw [lines_report, hline, hcolumn]

/-- A text with characters of several bytes and a line that ends in a carriage
return: the error is at the `日` of its second line. -/
theorem second_line_is_shown :
    lines (· == '\n')
        ((⟨['日', '\r', '\n', 'z'], .tag⟩ : ParseError Char).report
          ['a', '\n', 'é', '日', '\r', '\n', 'z']).toList =
      ["tag error at line 2, column 2".toList, [], "    1 | a".toList, "  > 2 | é日".toList,
        "         ^--- here".toList, "    3 | z".toList, []] ∧
    "  > 2 | é日".toList["         ^--- here".toList.idxOf '^']? = some '日' := by
  have h := report_points_at_the_failure ['a', '\n', 'é', '日', '\r', '\n', 'z']
    ⟨['日', '\r', '\n', 'z'], .tag⟩ 1 1 rfl
  have hpoint := h.2.2 '日' ['\r', '\n', 'z'] rfl ⟨['a', '\n', 'é'], rfl⟩ rfl
    ⟨'日', List.mem_cons_self, by decide⟩
  exact ⟨h.1.trans (by decide), hpoint⟩

end Parsing
