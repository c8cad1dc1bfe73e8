/-
  Parsing.Proofs.LineSplitting — LINES AND THEIR ENDINGS.

  A line goes up to the next carriage return or line feed.  It is ended by a
  line feed, which may have one carriage return in front of it; a carriage
  return that no line feed follows ends nothing.  So a sequence is, in just one
  way, a row of ended lines and a remainder in which no line is ended: plain
  elements, and behind them the end of the sequence or a carriage return that
  ends nothing.

  A parser for one ended line takes a line off such a row and fails at such a
  remainder.  Repeated, it yields the lines and leaves the remainder.

  Main statements:
    * `lineEnding_written`, `lineEnding_of_endless` — what ends a line and what does not;
    * `endedLine_written`, `endedLine_of_unended` — one line;
    * `exists_endedLines` — any sequence is a row of lines and a remainder;
    * `many0_endedLines` — the row is read back;
    * `line_splitting_round_trips`, which puts these together.
-/
import Parsing.Parser.Ascii
import Parsing.Proofs.Tiling

namespace Parsing

/-! ## §1. The elements that end a line. -/

/-- The element made from a byte stands for the character with that code point. -/
class LawfulCharLike (ε : Type) [CharLike ε] : Prop where
  toChar_ofByte : ∀ b : UInt8, CharLike.toChar (CharLike.ofByte b : ε) = Char.ofNat b.toNat

instance : LawfulCharLike Char := ⟨fun _ => rfl⟩

instance : LawfulCharLike UInt8 := ⟨fun _ => rfl⟩

variable {ε : Type} [CharLike ε]

/-- The carriage return. -/
abbrev carriageReturn : ε := CharLike.ofByte 13

/-- The line feed. -/
abbrev lineFeed : ε := CharLike.ofByte 10

/-- The two line-ending elements are told apart, since their characters are. -/
theorem carriageReturn_ne_lineFeed [LawfulCharLike ε] : (carriageReturn : ε) ≠ lineFeed := by
  intro h
  have hchar : Char.ofNat (13 : UInt8).toNat = Char.ofNat (10 : UInt8).toNat := by
    rw [← LawfulCharLike.toChar_ofByte (ε := ε), ← LawfulCharLike.toChar_ofByte (ε := ε)]
    exact congrArg CharLike.toChar h
  exact absurd hchar (by decide)

/-- No element is a carriage return or a line feed. -/
def IsPlain (s : List ε) : Prop := ∀ e ∈ s, e ≠ carriageReturn ∧ e ≠ lineFeed

instance [DecidableEq ε] (s : List ε) : Decidable (IsPlain s) :=
  inferInstanceAs (Decidable (∀ e ∈ s, e ≠ carriageReturn ∧ e ≠ lineFeed))

theorem isPlain_nil : IsPlain ([] : List ε) := fun _ he => nomatch he

/-- What can end a line. -/
inductive LineEnding where
  | lineFeed
  /-- A carriage return and a line feed. -/
  | both

/-- The elements of a line ending. -/
def LineEnding.written : LineEnding → List ε
  | lineFeed => [Parsing.lineFeed]
  | both => [carriageReturn, Parsing.lineFeed]

/-- The first element, if there is one, is a carriage return or a line feed. -/
def AtBreak (t : List ε) : Prop := ∀ e ∈ t.head?, e = carriageReturn ∨ e = lineFeed

theorem atBreak_nil : AtBreak ([] : List ε) := fun _ he => nomatch he

theorem atBreak_cons {e : ε} {t : List ε} : AtBreak (e :: t) ↔ e = carriageReturn ∨ e = lineFeed :=
  ⟨fun h => h e rfl, fun h _ he => Option.some.inj he ▸ h⟩

/-- Both line endings begin with an element that stops a line. -/
theorem LineEnding.atBreak_written (ending : LineEnding) (t : List ε) :
    AtBreak (ending.written ++ t) := by
  cases ending with
  | lineFeed => exact atBreak_cons.mpr (.inr rfl)
  | both => exact atBreak_cons.mpr (.inl rfl)

/-- Nothing, or a carriage return that no line feed follows. -/
def Endless (t : List ε) : Prop :=
  t = [] ∨ ∃ later, t = carriageReturn :: later ∧ later.head? ≠ some lineFeed

/-- A line also stops at a carriage return that ends no line. -/
theorem Endless.atBreak {t : List ε} (h : Endless t) : AtBreak t := by
  rcases h with rfl | ⟨later, rfl, _⟩
  · exact atBreak_nil
  · exact atBreak_cons.mpr (.inl rfl)

/-- A line and what ends it. -/
structure EndedLine (ε : Type) [CharLike ε] where
  text : List ε
  ending : LineEnding
  plain : IsPlain text

/-- The elements of a line, its ending with them. -/
def EndedLine.written (line : EndedLine ε) : List ε := line.text ++ line.ending.written

/-- Plain elements with nothing behind them that would end a line. -/
def Unended (r : List ε) : Prop := ∃ w t, r = w ++ t ∧ IsPlain w ∧ Endless t

/-- Plain elements up to the end of the input are a line without its ending. -/
theorem unended_of_isPlain {t : List ε} (h : IsPlain t) : Unended t :=
  ⟨t, [], (List.append_nil t).symm, h, .inl rfl⟩

namespace Parser

variable [Element ε] [DecidableEq ε] {s t r w : List ε}

/-! ## §2. One line ending. -/

theorem newline_cons (t : List ε) : newline (lineFeed :: t) = .ok t lineFeed :=
  char_cons_self lineFeed t

theorem newline_of_head (h : ∀ e ∈ s.head?, e ≠ lineFeed) : newline s = .fail ⟨s, .char⟩ :=
  char_of_head?_ne fun hs => h lineFeed hs rfl

/-- Where there is no line feed, both elements are wanted. -/
theorem lineEnding_of_newline {error : ParseError ε} (h : newline s = .fail error) :
    lineEnding s = (tag [carriageReturn, lineFeed] s).mapError (·.withKind .crlf) := by
  have hnone : recognize newline s = .fail error := recognize_of_fail h
  show ((recognize newline s).orElse fun _ => crlf s).mapError _ = _
  rw [hnone, Reply.orElse_fail]
  show ((tag [carriageReturn, lineFeed] s).mapError _).mapError _ = _
  cases tag [carriageReturn, lineFeed] s <;> rfl

variable [LawfulCharLike ε]

theorem newline_carriageReturn (t : List ε) :
    newline (carriageReturn :: t) = .fail ⟨carriageReturn :: t, .char⟩ := by
  apply newline_of_head
  intro e he
  cases he
  exact carriageReturn_ne_lineFeed

/-- A written line ending is read back, whatever follows it. -/
theorem lineEnding_written (ending : LineEnding) (t : List ε) :
    lineEnding (ending.written ++ t) = .ok t ending.written := by
  cases ending with
  | lineFeed =>
    have hfeed : recognize newline (lineFeed :: t) = .ok t [lineFeed] :=
      recognize_of_append (newline_cons t) rfl
    show ((recognize newline (lineFeed :: t)).orElse fun _ => crlf (lineFeed :: t)).mapError _ = _
    rw [hfeed, Reply.orElse_ok, Reply.mapError_ok]
    rfl
  | both =>
    have hboth := tag_append [carriageReturn, lineFeed] t
    show lineEnding (carriageReturn :: lineFeed :: t) = .ok t [carriageReturn, lineFeed]
    rw [lineEnding_of_newline (newline_carriageReturn _)]
    show (tag [carriageReturn, lineFeed] ([carriageReturn, lineFeed] ++ t)).mapError _ = _
    rw [hboth, Reply.mapError_ok]

/-- What is too short to be both elements, or lacks the second, ends no line. -/
theorem lineEnding_of_endless (h : Endless t) : lineEnding t = .fail ⟨t, .crlf⟩ := by
  -- neither of the two endings is there
  have hnewline : newline t = .fail ⟨t, .char⟩ := by
    rcases h with rfl | ⟨later, rfl, _⟩
    · exact newline_of_head fun e he => nomatch he
    · exact newline_carriageReturn later
  have hboth : ¬ [carriageReturn, lineFeed] <+: t := by
    rcases h with rfl | ⟨later, rfl, hhead⟩
    · simp
    · rintro ⟨u, hu⟩
      cases hu
      exact hhead rfl
  rw [lineEnding_of_newline hnewline, tag_apply, if_neg hboth]
  rfl

/-! ## §3. One line. -/

omit [LawfulCharLike ε] in
/-- The text of a line is all in front of the next carriage return or line feed. -/
theorem notLineEnding_append (hw : IsPlain w) (ht : AtBreak t) :
    notLineEnding (w ++ t) = .ok t w := by
  have hspan : (w ++ t).takeWhile _ = w ∧ (w ++ t).dropWhile _ = t :=
    span_append (p := fun e => e != carriageReturn && e != lineFeed)
      (fun e he => by simpa using hw e he)
      (fun e he => by rcases ht e he with rfl | rfl <;> simp)
  rw [notLineEnding, takeWhile_apply, hspan.1, hspan.2]

/-- Takes a line and its ending, and yields the line. -/
def endedLine : Parser ε (List ε) := terminated notLineEnding lineEnding

omit [LawfulCharLike ε] in
/-- To read an ended line is to read its ending where its text stops. -/
theorem endedLine_apply (h : notLineEnding s = .ok t w) :
    endedLine s = (lineEnding t).map fun _ => w := by
  show (pair notLineEnding lineEnding s).map Prod.fst = _
  rw [pair, h, Reply.andThen_ok]
  cases lineEnding t <;> rfl

/-- A written line is read back as its text. -/
theorem endedLine_written (line : EndedLine ε) (t : List ε) :
    endedLine (line.written ++ t) = .ok t line.text := by
  have hbreak : AtBreak (line.ending.written ++ t) := line.ending.atBreak_written t
  rw [EndedLine.written, List.append_assoc,
    endedLine_apply (notLineEnding_append line.plain hbreak), lineEnding_written, Reply.map_ok]

/-- A line without an ending is no match. -/
theorem endedLine_of_unended (h : Unended r) : ∃ error, endedLine r = .fail error := by
  obtain ⟨w, t, rfl, hplain, hendless⟩ := h
  refine ⟨⟨t, .crlf⟩, ?_⟩
  rw [endedLine_apply (notLineEnding_append hplain hendless.atBreak),
    lineEnding_of_endless hendless, Reply.map_fail]

/-! ## §4. A row of lines. -/

omit [Element ε] [LawfulCharLike ε] in
/-- A sequence is plain up to its first carriage return or line feed. -/
theorem exists_plain_append (s : List ε) : ∃ w t, s = w ++ t ∧ IsPlain w ∧ AtBreak t := by
  induction s with
  | nil => exact ⟨[], [], rfl, isPlain_nil, atBreak_nil⟩
  | cons a s ih =>
    by_cases ha : a = carriageReturn ∨ a = lineFeed
    · exact ⟨[], a :: s, rfl, isPlain_nil, atBreak_cons.mpr ha⟩
    · obtain ⟨w, t, rfl, hplain, hbreak⟩ := ih
      refine ⟨a :: w, t, rfl, fun e he => ?_, hbreak⟩
      rcases List.mem_cons.mp he with rfl | he
      · exact not_or.mp ha
      · exact hplain e he

omit [Element ε] [LawfulCharLike ε] in
/-- A sequence begins with an ended line, or no line is ended in it. -/
theorem exists_endedLine_or_unended (s : List ε) :
    (∃ (line : EndedLine ε) (t : List ε), s = line.written ++ t) ∨ Unended s := by
  obtain ⟨w, t, rfl, hplain, hbreak⟩ := exists_plain_append s
  cases t with
  | nil => exact .inr ⟨w, [], rfl, hplain, .inl rfl⟩
  | cons e u =>
    rcases atBreak_cons.mp hbreak with rfl | rfl
    · by_cases hnext : u.head? = some lineFeed
      · obtain ⟨v, rfl⟩ := List.head?_eq_some_iff.mp hnext
        refine .inl ⟨⟨w, .both, hplain⟩, v, ?_⟩
        rw [EndedLine.written, List.append_assoc]
        rfl
      · -- the carriage return ends nothing, so the search for an ending is over
        exact .inr ⟨w, _, rfl, hplain, .inr ⟨u, rfl, hnext⟩⟩
    · refine .inl ⟨⟨w, .lineFeed, hplain⟩, u, ?_⟩
      rw [EndedLine.written, List.append_assoc]
      rfl

omit [Element ε] [DecidableEq ε] [LawfulCharLike ε] in
/-- A written line has at least its ending, so a row of lines shortens with each of
them. -/
theorem EndedLine.written_ne_nil (line : EndedLine ε) : line.written ≠ [] := by
  rw [EndedLine.written]
  cases line.ending <;> simp [LineEnding.written]

omit [Element ε] [LawfulCharLike ε] in
/-- **Any sequence is a row of ended lines and a remainder.**  The induction is on
the length of the sequence: a line that is taken off it has an ending. -/
theorem exists_endedLines (s : List ε) :
    ∃ (lines : List (EndedLine ε)) (r : List ε),
      s = lines.flatMap EndedLine.written ++ r ∧ Unended r := by
  -- on the length, since a line is taken off as a whole
  induction hn : s.length using Nat.strongRecOn generalizing s with
  | ind n ih =>
    rcases exists_endedLine_or_unended s with ⟨line, t, rfl⟩ | hunended
    · have hpos : 0 < line.written.length :=
        List.length_pos_iff.mpr (EndedLine.written_ne_nil line)
      have hless : t.length < n := by
        rw [List.length_append] at hn
        omega
      obtain ⟨lines, r, rfl, hr⟩ := ih t.length hless t rfl
      refine ⟨line :: lines, r, ?_, hr⟩
      rw [List.flatMap_cons, List.append_assoc]
    · exact ⟨[], s, rfl, hunended⟩

open Sequence (nativeLen)

/-- The lines of a row are a chain of matches. -/
theorem exists_advances_endedLines (lines : List (EndedLine ε)) (r : List ε) :
    ∃ steps, Advances endedLine (lines.flatMap EndedLine.written ++ r) steps r ∧
      steps.map Prod.snd = lines.map EndedLine.text := by
  induction lines with
  | nil => exact ⟨[], .here r, rfl⟩
  | cons line lines ih =>
    obtain ⟨steps, hsteps, hvalues⟩ := ih
    have hmatch := endedLine_written line (lines.flatMap EndedLine.written ++ r)
    -- a line uses something up, even an empty one with its ending
    have hless : nativeLen (lines.flatMap EndedLine.written ++ r) <
        nativeLen (line.written ++ (lines.flatMap EndedLine.written ++ r)) := by
      have hwide : nativeLen line.written ≠ 0 := fun hzero =>
        EndedLine.written_ne_nil line (Sequence.nativeLen_eq_zero_iff.mp hzero)
      rw [Sequence.nativeLen_append line.written]
      omega
    rw [List.flatMap_cons, List.append_assoc]
    refine ⟨_, .step hmatch hless hsteps, ?_⟩
    rw [List.map_cons, hvalues, List.map_cons]

/-- **A row of lines is read back**, up to where no line is ended any more. -/
theorem many0_endedLines {lines : List (EndedLine ε)} (hr : Unended r)
    (hs : nativeLen (lines.flatMap EndedLine.written ++ r) < Nat.pow 2 64) :
    many0 endedLine (lines.flatMap EndedLine.written ++ r) =
      .ok r (lines.map EndedLine.text) := by
  obtain ⟨steps, hsteps, hvalues⟩ := exists_advances_endedLines lines r
  obtain ⟨error, hfail⟩ := endedLine_of_unended hr
  -- each line takes at least one unit, so there are fewer than the loop can count
  have hwithin : steps.length ≤ maxCount := by
    have hlen := hsteps.length_add_nativeLen_le
    have hmax := le_maxCount hs
    omega
  have hmaximal : Maximal endedLine maxCount _ steps r :=
    ⟨hsteps, hwithin, final_iff.mpr (.inr (stuck_of_fail hfail))⟩
  refine (many0_eq_ok_iff hmaximal).mpr ⟨rfl, hvalues.symm, ?_⟩
  rintro ⟨_, _, hnone⟩
  rw [hfail] at hnone
  cases hnone

/-- **Splitting into lines loses nothing.**  A row of lines, each ended by a line
feed with or without a carriage return in front of it, and behind them elements
that are neither: what is yielded are the lines, and what is left is what stands
behind them.  And whatever the input is, what is yielded are lines of it in which
there is neither a carriage return nor a line feed; with their endings and what
is left they make up the input; and in what is left no line is ended, as behind
its plain elements there is nothing, or a carriage return that no line feed
follows.  An input is less wide than a word can count, and so the lines of it are
fewer than the repetition may take. -/
theorem line_splitting_round_trips (s : List ε) (hs : nativeLen s < Nat.pow 2 64) :
    (∀ (lines : List (EndedLine ε)) (t : List ε), IsPlain t →
      s = lines.flatMap EndedLine.written ++ t →
        many0 (terminated notLineEnding lineEnding) s = .ok t (lines.map EndedLine.text)) ∧
    ∃ (lines : List (EndedLine ε)) (r : List ε),
      many0 (terminated notLineEnding lineEnding) s = .ok r (lines.map EndedLine.text) ∧
      s = lines.flatMap EndedLine.written ++ r ∧
      ∃ w t, r = w ++ t ∧ IsPlain w ∧
        (t = [] ∨ ∃ later, t = carriageReturn :: later ∧ later.head? ≠ some lineFeed) := by
  constructor
  · rintro lines t ht rfl
    exact many0_endedLines (unended_of_isPlain ht) hs
  · obtain ⟨lines, r, rfl, hr⟩ := exists_endedLines s
    exact ⟨lines, r, many0_endedLines hr hs, rfl, hr⟩

/-- A text with an empty line, both line endings and a character of two bytes
behind the last of them; and bytes that begin with two carriage returns, of which
the first one ends no line, so that all of them are left. -/
theorem mixed_endings_round_trip :
    (nativeLen ['a', '\r', '\n', '\n', 'b', '\n', 'é'] < Nat.pow 2 64 ∧ IsPlain ['é'] ∧
      many0 (terminated notLineEnding lineEnding) ['a', '\r', '\n', '\n', 'b', '\n', 'é'] =
        .ok ['é'] [['a'], [], ['b']]) ∧
    nativeLen ([13, 13, 10, 97] : List UInt8) < Nat.pow 2 64 ∧
    ∃ w t : List UInt8, many0 (terminated notLineEnding lineEnding) (w ++ t) = .ok (w ++ t) [] ∧
      [13, 13, 10, 97] = w ++ t ∧ IsPlain w ∧
      (t = [] ∨ ∃ later, t = 13 :: later ∧ later.head? ≠ some 10) := by
  have htext : nativeLen ['a', '\r', '\n', '\n', 'b', '\n', 'é'] < Nat.pow 2 64 := by decide
  have hbytes : nativeLen ([13, 13, 10, 97] : List UInt8) < Nat.pow 2 64 := by decide
  have hplain : IsPlain ['é'] := by decide
  refine ⟨⟨htext, hplain, ?_⟩, hbytes, ?_⟩
  · exact (line_splitting_round_trips _ htext).1
      [⟨['a'], .both, by decide⟩, ⟨[], .lineFeed, by decide⟩, ⟨['b'], .lineFeed, by decide⟩]
      ['é'] hplain rfl
  · obtain ⟨lines, r, hok, _, w, t, rfl, hw, ht⟩ := (line_splitting_round_trips _ hbytes).2
    have hrun : many0 (terminated notLineEnding lineEnding) ([13, 13, 10, 97] : List UInt8) =
        .ok [13, 13, 10, 97] [] := rfl
    rw [hrun] at hok
    have hleft : [13, 13, 10, 97] = w ++ t := by injection hok
    exact ⟨w, t, hleft ▸ hrun, hleft, hw, ht⟩

end Parser

end Parsing
