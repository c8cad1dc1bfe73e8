/-
  Parsing.Proofs.Literal.Float — WHICH FLOAT LITERALS THERE ARE.

  A float literal is the longest run of digits, underscores, points, signs and
  letters `e`, read as a whole.  The run is a literal exactly if its underscores
  stand between digits and it spells, without them, a decimal number that is not
  too great (`WritesFloat`); the literal is then the double that this number is
  read as, and it takes the whole run.  Which texts are spellings, and which
  double a number is read as, is said without reference to the reader.

  Main statements: `readFloat_eq_some_iff` for a run, and
  `floatLiteral_reads_its_grammar` for the parser.
-/
import Parsing.Proofs.Literal.Decimal

namespace Parsing

namespace Numeral

/-! ## §1. A run as a whole. -/

/-- The run without its underscores. -/
def withoutUnderscores (run : List Char) : List Char := run.filter (· != '_')

/-- The run is a literal for the number that is spelt. -/
structure WritesFloat (run : List Char) (w : Spelling) : Prop where
  underscores : UnderscoresBetweenDigits run
  text : w.text = withoutUnderscores run
  small : |w.value| < 2 ^ 1024 - 2 ^ 970

/-- The sign of a spelling is no part of its size. -/
theorem Spelling.abs_value (w : Spelling) : |w.value| = w.size := by
  have hsize : 0 ≤ w.size := by
    rw [← size_decimal]
    exact w.decimal.size_nonneg
  rw [value, Binary64.abs_signed _ hsize]

/-- Separators are taken out where every underscore is between two digits. -/
theorem withoutSeparators?_eq_some_iff {run cs : List Char} :
    withoutSeparators? run = some cs ↔
      UnderscoresBetweenDigits run ∧ withoutUnderscores run = cs := by
  rw [withoutSeparators?, ← separatorsInPlace_iff, withoutUnderscores]
  split
  next h => simp [h]
  next h => simp [h]

/-- The double that a run is read as. -/
def readFloat (run : List Char) : Option Binary64 :=
  (withoutSeparators? run).bind fun cs => (decimal? cs).bind Binary64.ofDecimal?

/-- A spelling is read exactly if the number is not too great. -/
theorem Spelling.ofDecimal?_isSome_iff (w : Spelling) :
    (Binary64.ofDecimal? w.decimal).isSome = true ↔ |w.value| < 2 ^ 1024 - 2 ^ 970 := by
  rw [Binary64.ofDecimal?_isSome_iff, w.size_decimal, w.abs_value]

/-- The double of a spelling is the one that its value rounds to. -/
theorem Spelling.roundsTo_of_ofDecimal? {w : Spelling} {x : Binary64}
    (h : Binary64.ofDecimal? w.decimal = some x) :
    Binary64.RoundsTo w.sign.isMinus w.value x := by
  have hrounds := Binary64.roundsTo_of_ofDecimal? h
  rwa [w.size_decimal] at hrounds

/-- A run that writes a spelling is read as its decimal number. -/
theorem readFloat_of_writesFloat {run : List Char} {w : Spelling} (h : WritesFloat run w) :
    readFloat run = Binary64.ofDecimal? w.decimal := by
  rw [readFloat, withoutSeparators?_eq_some_iff.mpr ⟨h.underscores, h.text.symm⟩, Option.bind_some,
    decimal?_text, Option.bind_some]

/-- What is read is written, and is the double that the number is read as. -/
theorem writesFloat_of_readFloat {run : List Char} {x : Binary64} (h : readFloat run = some x) :
    ∃ w, WritesFloat run w ∧ Binary64.RoundsTo w.sign.isMinus w.value x := by
  obtain ⟨cs, hcs, hread⟩ := Option.bind_eq_some_iff.mp h
  obtain ⟨hunderscores, rfl⟩ := withoutSeparators?_eq_some_iff.mp hcs
  obtain ⟨d, hd, hx⟩ := Option.bind_eq_some_iff.mp hread
  obtain ⟨w, htext, rfl⟩ := decimal?_eq_some_iff.mp hd
  have hsmall := w.ofDecimal?_isSome_iff.mp (Option.isSome_of_mem hx)
  exact ⟨w, ⟨hunderscores, htext, hsmall⟩, Spelling.roundsTo_of_ofDecimal? hx⟩

/-- A run gives a double exactly if it writes a spelling in range. -/
theorem readFloat_isSome_iff {run : List Char} :
    (readFloat run).isSome = true ↔ ∃ w, WritesFloat run w := by
  constructor
  · intro h
    obtain ⟨x, hx⟩ := Option.isSome_iff_exists.mp h
    obtain ⟨w, hw, _⟩ := writesFloat_of_readFloat hx
    exact ⟨w, hw⟩
  · rintro ⟨w, hw⟩
    rw [readFloat_of_writesFloat hw]
    exact w.ofDecimal?_isSome_iff.mpr hw.small

/-- **A run is read exactly if it writes a number that is not too great**, and as the
double that this number is read as. -/
theorem readFloat_eq_some_iff {run : List Char} {x : Binary64} :
    readFloat run = some x ↔
      ∃ w, WritesFloat run w ∧ Binary64.RoundsTo w.sign.isMinus w.value x := by
  refine ⟨writesFloat_of_readFloat, ?_⟩
  rintro ⟨w, hw, hx⟩
  obtain ⟨y, hy⟩ := Option.isSome_iff_exists.mp (w.ofDecimal?_isSome_iff.mpr hw.small)
  rw [readFloat_of_writesFloat hw, hy]
  exact congrArg some ((Spelling.roundsTo_of_ofDecimal? hy).unique hx)

/-- The double that is read depends on the run without its underscores only. -/
theorem readFloat_eq_of_withoutUnderscores {run run' : List Char} {x x' : Binary64}
    (h : withoutUnderscores run = withoutUnderscores run') (hx : readFloat run = some x)
    (hx' : readFloat run' = some x') : x = x' := by
  obtain ⟨w, hw, -⟩ := writesFloat_of_readFloat hx
  obtain ⟨w', hw', -⟩ := writesFloat_of_readFloat hx'
  -- what the one run writes, the other one writes too
  have hsame : WritesFloat run w' := ⟨hw.underscores, hw'.text.trans h.symm, hw'.small⟩
  have heq : some x = some x' := by
    rw [← hx, ← hx', readFloat_of_writesFloat hsame, readFloat_of_writesFloat hw']
  exact Option.some.inj heq

end Numeral

/-! ## §2. The parser. -/

open CharLike (toChar render)
open Numeral (Binary64 WritesFloat readFloat withoutUnderscores)

section Run

variable {ε : Type} [CharLike ε]

/-- Whether an element stands for a decimal digit or another character that float
literals are made of. -/
def isFloatElement (e : ε) : Bool :=
  (toChar e).isDigit || ['_', '.', 'e', 'E', '+', '-'].contains (toChar e)

/-- The table of the components of float literals is just that. -/
theorem inTable_floatComponents (e : ε) :
    CharLike.inTable floatComponents e = isFloatElement e :=
  inTable_digits_append (by decide) e

/-- The characters of the longest prefix that a float literal could be made of. -/
def floatRun (s : List ε) : List Char := render (s.takeWhile isFloatElement)

end Run

namespace Parser

section Literal

variable {ε : Type} [CharLike ε] [Element ε]

/-- A float literal is its run as it is read; nothing is read of an empty run. -/
theorem floatLiteral_apply (s : List ε) :
    floatLiteral s =
      Reply.convert s .float (readFloat (floatRun s)) (Reply.ok (s.dropWhile isFloatElement)) := by
  unfold floatLiteral
  rw [literal_apply, funext inTable_floatComponents]
  split
  next hempty =>
    rw [floatRun, hempty]
    rfl
  next => rfl

theorem floatLiteral_eq_ok_iff {s rest : List ε} {x : Binary64} :
    floatLiteral s = .ok rest x ↔
      rest = s.dropWhile isFloatElement ∧ readFloat (floatRun s) = some x := by
  rw [floatLiteral_apply]
  cases readFloat (floatRun s) with
  | none => simp
  | some y => simp [eq_comm]

end Literal

/-- **Float literals are decimal numbers that are not too great.**  Let the run be
the longest prefix of the input made of digits, underscores, points, signs and
letters `e`.  There is a literal exactly if all underscores of the run stand
between digits and the run without them spells a number below `2 ^ 1024 - 2 ^ 970`;
then the whole run is taken, and the literal is the double that this number is
read as.  In every other case the error is where the run starts.  The underscores,
and whether the input is text or bytes, make no difference to the literal. -/
theorem floatLiteral_reads_its_grammar {ε ε' : Type} [CharLike ε] [Element ε] [CharLike ε']
    [Element ε'] (s : List ε) :
    ((∃ rest x, floatLiteral s = .ok rest x) ↔ ∃ w, WritesFloat (floatRun s) w) ∧
    (∀ rest x, floatLiteral s = .ok rest x ↔
      rest = s.dropWhile isFloatElement ∧
        ∃ w, WritesFloat (floatRun s) w ∧ Binary64.RoundsTo w.sign.isMinus w.value x) ∧
    ((¬ ∃ w, WritesFloat (floatRun s) w) → floatLiteral s = .fail ⟨s, .float⟩) ∧
    ∀ (s' : List ε') rest rest' x x', floatLiteral s = .ok rest x → floatLiteral s' = .ok rest' x' →
      withoutUnderscores (floatRun s) = withoutUnderscores (floatRun s') → x = x' := by
  refine ⟨?_, fun rest x => ?_, fun h => ?_, ?_⟩
  · rw [← Numeral.readFloat_isSome_iff, Option.isSome_iff_exists]
    simp [floatLiteral_eq_ok_iff]
  · rw [floatLiteral_eq_ok_iff, Numeral.readFloat_eq_some_iff]
  · rw [← Numeral.readFloat_isSome_iff, Option.not_isSome_iff_eq_none] at h
    rw [floatLiteral_apply, h, Reply.convert_none]
  · intro s' rest rest' x x' hx hx' hrun
    exact Numeral.readFloat_eq_of_withoutUnderscores hrun (floatLiteral_eq_ok_iff.mp hx).2
      (floatLiteral_eq_ok_iff.mp hx').2

/-- A number with an underscore, as text and as bytes; the greatest double from a
number just below the middle to `2 ^ 1024`; a number just above it; an exponent
without digits, which is not left over; and an underscore beside a point. -/
theorem greatest_double_is_read :
    (∃ w, WritesFloat "1_0.5".toList w ∧
      Binary64.RoundsTo w.sign.isMinus w.value ⟨0x4025000000000000⟩) ∧
    (∀ x, floatLiteral "1_0.5;".toList = .ok [';'] x →
      floatLiteral ([49, 48, 46, 53] : List UInt8) = .ok [] x) ∧
    (∃ w, WritesFloat "-1.7976931348623158e308".toList w ∧
      Binary64.RoundsTo w.sign.isMinus w.value ⟨0xFFEFFFFFFFFFFFFF⟩) ∧
    floatLiteral "1.797693134862315808e308".toList =
      .fail ⟨"1.797693134862315808e308".toList, .float⟩ ∧
    floatLiteral "1.5e".toList = .fail ⟨"1.5e".toList, .float⟩ ∧
    floatLiteral "1_.5".toList = .fail ⟨"1_.5".toList, .float⟩ := by
  have htext := fun s : List Char => @floatLiteral_reads_its_grammar Char UInt8 _ _ _ _ s
  have hten : floatLiteral "1_0.5;".toList = .ok [';'] ⟨0x4025000000000000⟩ := rfl
  have hbytes : floatLiteral ([49, 48, 46, 53] : List UInt8) = .ok [] ⟨0x4025000000000000⟩ := rfl
  have hgreatest : floatLiteral "-1.7976931348623158e308".toList = .ok [] ⟨0xFFEFFFFFFFFFFFFF⟩ :=
    floatLiteral_eq_ok_iff.mpr ⟨by decide, by decide +kernel⟩
  refine ⟨((htext _).2.1 _ _).mp hten |>.2, fun x hx => ?_,
    ((htext _).2.1 _ _).mp hgreatest |>.2, ?_, ?_, ?_⟩
  · rw [(htext _).2.2.2 _ _ _ _ _ hx hbytes rfl]
    exact hbytes
  · exact (htext _).2.2.1 fun h =>
      absurd (Numeral.readFloat_isSome_iff.mpr h) (by decide +kernel)
  · exact (htext _).2.2.1 fun h => absurd (Numeral.readFloat_isSome_iff.mpr h) (by decide)
  · exact (htext _).2.2.1 fun h => absurd (Numeral.readFloat_isSome_iff.mpr h) (by decide)

end Parser

end Parsing
