/-
  Parsing.Proofs.Classes — ASCII CLASSES TAKE AS MUCH AS THERE IS.

  An element is of a class when it stands for an ASCII character of the table
  of the class; so no character beyond ASCII, and no byte of 128 or more, is of
  any class.  A parser of a class takes the longest run of such elements with
  which the input begins.  That run is determined by the class alone, and so
  whatever is true of the tables is true of the runs: a class whose table is
  part of another one has the shorter run, and behind a run there is only an
  empty one.

  The run need not be looked for by one scan.  It can be looked for by a parser
  that wants at least one element, whose failure is given a kind and taken for
  an empty run, which then may be too little after all (`elementsOf`).  What
  comes out is the same, and neither kind of failure inside is ever seen.

  Main statements:
    * `longestRun_takeWhile`, `LongestRun.functional` — there is one longest run;
    * `LongestRun.prefix_of_subset`, `LongestRun.behind` — runs of two classes,
      and a run behind another one;
    * `class0_of_longestRun`, `class1_of_longestRun`, `elementsOf_eq` — the parsers;
    * `classes_take_the_longest_run`, which puts these together.
-/
import Mathlib.Tactic.Choose
import Parsing.Proofs.Checked.Combinators

namespace Parsing

/-! ## §1. Runs of a class. -/

section Runs

variable {ε : Type} [CharLike ε] {c d : CharClass} {run run' rest s : List ε}

/-- The element stands for an ASCII character of the class. -/
def CharClass.Has (c : CharClass) (e : ε) : Prop :=
  (CharLike.toChar e).toNat < 128 ∧ CharLike.toChar e ∈ c.table

/-- The test that the parsers make is whether an element is of the class. -/
theorem CharClass.inTable_iff_has (c : CharClass) (e : ε) :
    CharLike.inTable c.table e = true ↔ c.Has e :=
  CharLike.inTable_iff

/-- The longest of the prefixes of `s` whose elements are all of the class. -/
structure LongestRun (c : CharClass) (run s : List ε) : Prop where
  atFront : run <+: s
  members : ∀ e ∈ run, c.Has e
  longest : ∀ other, other <+: s → (∀ e ∈ other, c.Has e) → other <+: run

/-- Going on as long as the elements are of the class finds the longest run. -/
theorem longestRun_takeWhile (c : CharClass) (s : List ε) :
    LongestRun c (s.takeWhile (CharLike.inTable c.table)) s where
  atFront := List.takeWhile_prefix _
  members e he := (c.inTable_iff_has e).mp (List.all_eq_true.mp List.all_takeWhile e he)
  longest := by
    rintro other ⟨t, rfl⟩ hmembers
    have hall : ∀ e ∈ other, CharLike.inTable c.table e = true := fun e he =>
      (c.inTable_iff_has e).mpr (hmembers e he)
    rw [List.takeWhile_append_of_pos hall]
    exact List.prefix_append _ _

/-- There is a longest run in front of any input. -/
theorem exists_longestRun (c : CharClass) (s : List ε) :
    ∃ run rest, run ++ rest = s ∧ LongestRun c run s :=
  ⟨_, _, List.takeWhile_append_dropWhile, longestRun_takeWhile c s⟩

/-- There is only one longest run. -/
theorem LongestRun.functional (h : LongestRun c run s) (h' : LongestRun c run' s) : run = run' := by
  have hle : run <+: run' := h'.longest run h.atFront h.members
  have hge : run' <+: run := h.longest run' h'.atFront h'.members
  exact hle.eq_of_length_le hge.length_le

/-- A class with fewer characters has the shorter run. -/
theorem LongestRun.prefix_of_subset (h : LongestRun c run s) (h' : LongestRun d run' s)
    (hsubset : c.table ⊆ d.table) : run <+: run' := by
  have hmembers : ∀ e ∈ run, d.Has e := fun e he =>
    ⟨(h.members e he).1, hsubset (h.members e he).2⟩
  exact h'.longest run h.atFront hmembers

/-- Behind a longest run, the longest run is empty. -/
theorem LongestRun.behind (hsplit : run ++ rest = s) (h : LongestRun c run s) :
    LongestRun c [] rest where
  atFront := List.nil_prefix
  members e he := nomatch he
  longest := by
    intro other hother hmembers
    have hfront : run ++ other <+: s := by
      rw [← hsplit]
      exact (List.prefix_append_right_inj run).mpr hother
    -- together with the run it would be a longer one
    have hlonger : run ++ other <+: run := by
      refine h.longest _ hfront fun e he => ?_
      rcases List.mem_append.mp he with hrun | hnew
      · exact h.members e hrun
      · exact hmembers e hnew
    have hlength := hlonger.length_le
    rw [List.length_append] at hlength
    have hnil : other = [] := List.eq_nil_of_length_eq_zero (by omega)
    exact hnil ▸ List.nil_prefix

/-- The longest run is what such a scan stops behind. -/
theorem takeWhile_of_longestRun (hsplit : run ++ rest = s) (h : LongestRun c run s) :
    s.takeWhile (CharLike.inTable c.table) = run ∧
      s.dropWhile (CharLike.inTable c.table) = rest := by
  have hrun := (longestRun_takeWhile c s).functional h
  have hboth := List.takeWhile_append_dropWhile (p := CharLike.inTable c.table) (l := s)
  rw [hrun, ← hsplit] at hboth
  exact ⟨hrun, hsplit ▸ List.append_cancel_left hboth⟩

end Runs

/-- What a class wants is told by a kind of its own, which is none of those that
other parsers of stretches fail with. -/
theorem CharClass.kind_ne_internal (c : CharClass) : c.kind ≠ .isA ∧ c.kind ≠ .takeWhile := by
  cases c <;> decide

namespace Parser

variable {ε : Type} [Element ε] [CharLike ε] {c : CharClass} {run rest s : List ε}

/-! ## §2. The parsers of a class. -/

/-- Without a lower bound the run is taken, empty or not. -/
theorem class0_of_longestRun (hsplit : run ++ rest = s) (h : LongestRun c run s) :
    class0 c s = .ok rest run := by
  obtain ⟨hrun, hrest⟩ := takeWhile_of_longestRun hsplit h
  rw [class0, takeWhile_apply, hrun, hrest]

/-- With a lower bound an empty run is a failure of the kind of the class. -/
theorem class1_of_longestRun (hsplit : run ++ rest = s) (h : LongestRun c run s) :
    class1 c s = if run = [] then .fail ⟨s, c.kind⟩ else .ok rest run := by
  obtain ⟨hrun, hrest⟩ := takeWhile_of_longestRun hsplit h
  rw [class1, takeWhileSome_apply, hrun, hrest]

/-- Takes elements of a class, at least one if `minOne`: one that takes at least
one element in any case, and where it fails the empty sequence at the front. -/
def elementsOf (c : CharClass) (minOne : Bool) : Parser ε (List ε) := fun s =>
  (ignoreKind .isA (mapKind .isA (takeWhile1 (CharLike.inTable c.table))) s).andThen
    fun rest found =>
      let matched := found.getD (Sequence.front s)
      if minOne && matched.isEmpty then .fail ⟨s, c.kind⟩ else .ok rest matched

omit [CharLike ε] in
/-- Relabelling the failure of a stretch is giving it another kind from the start. -/
theorem mapKind_takeWhileSome (kind kind' : Kind) (p : ε → Bool) :
    mapKind kind' (takeWhileSome kind p) = takeWhileSome kind' p := by
  funext s
  rw [mapKind, mapErr, takeWhileSome_apply, takeWhileSome_apply]
  split <;> rfl

/-- The detour by way of a failure that is ignored makes no difference. -/
theorem elementsOf_eq (c : CharClass) (minOne : Bool) (s : List ε) :
    elementsOf c minOne s = if minOne then class1 c s else class0 c s := by
  have happly := CheckedParser.class_apply c minOne s
  rw [← mapKind_takeWhileSome .takeWhile] at happly
  rw [elementsOf, Sequence.front_eq_nil, takeWhile1]
  refine happly.symm.trans ?_
  cases minOne <;> rfl

/-! ## §3. All together. -/

/-- **Classes take the longest run.**  For each class there is a longest run of its
elements in front of the input, and something behind it.  Without a lower bound the
parser of the class always succeeds and yields that run; with one it does so unless
the run is empty, and then it fails in front of the input with the kind of the
class.  Either way the result is that of the search by way of a parser that takes
at least one element, and no kind of failure inside that search is the kind of a
class.  Run on what is behind the run, the parser of the class finds nothing more.

The octal digits are the beginning of the decimal digits, and these of the
hexadecimal digits and of the letters and digits; so are the letters of the letters
and digits, and the spaces of the spaces and line breaks. -/
theorem classes_take_the_longest_run (s : List ε) :
    ∃ run rest : CharClass → List ε,
      (∀ c, run c ++ rest c = s ∧ LongestRun c (run c) s ∧
        class0 c s = .ok (rest c) (run c) ∧
        class1 c s = (if run c = [] then .fail ⟨s, c.kind⟩ else .ok (rest c) (run c)) ∧
        elementsOf c false s = class0 c s ∧ elementsOf c true s = class1 c s ∧
        (c.kind ≠ .isA ∧ c.kind ≠ .takeWhile) ∧
        class0 c (rest c) = .ok (rest c) []) ∧
      run .octDigit <+: run .digit ∧ run .digit <+: run .hexDigit ∧
      run .digit <+: run .alphaNumeric ∧ run .alpha <+: run .alphaNumeric ∧
      run .space <+: run .multiSpace := by
  -- the longest runs of all classes in front of one input, to be compared
  choose run rest hsplit hlongest using fun c => exists_longestRun c s
  refine ⟨run, rest, fun c => ⟨hsplit c, hlongest c, class0_of_longestRun (hsplit c) (hlongest c),
    class1_of_longestRun (hsplit c) (hlongest c), elementsOf_eq c false s, elementsOf_eq c true s,
    c.kind_ne_internal, ?_⟩, ?_, ?_, ?_, ?_, ?_⟩
  · exact class0_of_longestRun (List.nil_append _) ((hlongest c).behind (hsplit c))
  · exact (hlongest .octDigit).prefix_of_subset (hlongest .digit) (by decide)
  · exact (hlongest .digit).prefix_of_subset (hlongest .hexDigit) (List.subset_append_left _ _)
  · exact (hlongest .digit).prefix_of_subset (hlongest .alphaNumeric)
      (List.subset_append_left _ _)
  · exact (hlongest .alpha).prefix_of_subset (hlongest .alphaNumeric)
      (List.subset_append_right _ _)
  · exact (hlongest .space).prefix_of_subset (hlongest .multiSpace) (by decide)

end Parser

/-- A letter with an accent ends a run, and so does its byte. -/
example :
    Parser.class1 .alpha ['a', 'é', 'b'] = .ok ['é', 'b'] ['a'] ∧
      Parser.class1 .alpha ([0xE9, 98] : List UInt8) = .fail ⟨[0xE9, 98], .alpha⟩ :=
  ⟨rfl, rfl⟩

end Parsing
