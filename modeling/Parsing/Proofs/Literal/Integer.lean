/-
  Parsing.Proofs.Literal.Integer — WHICH INTEGER LITERALS THERE ARE.

  An integer literal is read in three steps: the longest run of digits and
  underscores is taken, the underscores are checked against their neighbours
  and taken out, and what is left is converted.  None of the steps mentions
  the form that literals have.  That form is stated here on its own: one group
  of digits or more, joined by single underscores (`Groups`).

  A run of digits and underscores passes the check exactly if it has that form
  (`withoutSeparators?_of_groups`, `exists_groups`), and then the digits left
  are those of the groups; they are converted to the number that they write,
  if it fits (`word?_of_isDigits`).  The value of a row of digits is the
  library's, `Nat.ofDigitChars`, which reads `Nat.toDigits` back.

  Main statements: `read_eq_some_iff` for a run, and
  `intLiteral_reads_grouped_digits` for the parser.
-/
import Mathlib.Data.List.TakeWhile
import Parsing.Parser.Number
import Parsing.Proofs.Span

namespace Parsing

namespace Numeral

/-! ## §1. Groups of digits. -/

/-- At least one decimal digit, and nothing else. -/
def IsDigits (cs : List Char) : Prop := cs ≠ [] ∧ ∀ c ∈ cs, c.isDigit = true

instance (cs : List Char) : Decidable (IsDigits cs) :=
  decidable_of_iff (cs ≠ [] ∧ cs.all Char.isDigit = true) (and_congr_right' List.all_eq_true)

/-- The run is one group of digits or more, joined by single underscores. -/
structure Groups (run : List Char) (groups : List (List Char)) : Prop where
  ne_nil : groups ≠ []
  isDigits : ∀ g ∈ groups, IsDigits g
  joined : run = ['_'].intercalate groups

theorem ne_underscore_of_isDigit {c : Char} (h : c.isDigit = true) : c ≠ '_' := by
  rintro rfl
  exact absurd h (by decide)

/-- The digits of all groups together are digits. -/
theorem Groups.isDigits_flatten {run : List Char} {groups : List (List Char)}
    (h : Groups run groups) : IsDigits groups.flatten := by
  obtain ⟨g, more, hgroups⟩ := List.exists_cons_of_ne_nil h.ne_nil
  constructor
  · intro hnil
    have hg : g ∈ groups := by
      rw [hgroups]
      exact List.mem_cons_self
    exact (h.isDigits g hg).1 (List.flatten_eq_nil_iff.mp hnil g hg)
  · intro c hc
    obtain ⟨g', hg', hc'⟩ := List.mem_flatten.mp hc
    exact (h.isDigits g' hg').2 c hc'

/-! ## §2. Groups of digits pass the check of the separators. -/

/-- The check runs over digits and remembers that it has seen one. -/
theorem separatorsInPlace_digits_append {g : List Char} (hg : ∀ c ∈ g, c.isDigit = true)
    (t : List Char) : separatorsInPlace true (g ++ t) = separatorsInPlace true t := by
  induction g with
  | nil => rfl
  | cons c g ih =>
    have hc : c.isDigit = true := hg c List.mem_cons_self
    rw [List.cons_append, separatorsInPlace, if_neg (ne_underscore_of_isDigit hc), hc]
    exact ih fun d hd => hg d (List.mem_cons_of_mem _ hd)

/-- Behind a group there is a digit, whatever was in front of the group. -/
theorem separatorsInPlace_group_append {g : List Char} (hg : IsDigits g) (afterDigit : Bool)
    (t : List Char) : separatorsInPlace afterDigit (g ++ t) = separatorsInPlace true t := by
  obtain ⟨hne, hdigits⟩ := hg
  obtain ⟨c, g, rfl⟩ := List.exists_cons_of_ne_nil hne
  have hc : c.isDigit = true := hdigits c List.mem_cons_self
  rw [List.cons_append, separatorsInPlace, if_neg (ne_underscore_of_isDigit hc), hc]
  exact separatorsInPlace_digits_append (fun d hd => hdigits d (List.mem_cons_of_mem _ hd)) t

/-- Groups of digits with underscores between them pass the check. By induction on the
groups, the last of which has no underscore behind it. -/
theorem separatorsInPlace_intercalate {groups : List (List Char)}
    (h : ∀ g ∈ groups, IsDigits g) (afterDigit : Bool) :
    separatorsInPlace afterDigit (['_'].intercalate groups) = true := by
  induction groups generalizing afterDigit with
  | nil => rfl
  | cons g groups ih =>
    have hg : IsDigits g := h g List.mem_cons_self
    have hgroups : ∀ g' ∈ groups, IsDigits g' := fun g' hg' => h g' (List.mem_cons_of_mem _ hg')
    cases groups with
    | nil =>
      have hlast := separatorsInPlace_group_append hg afterDigit []
      rw [List.append_nil] at hlast
      rw [List.intercalate_singleton, hlast]
      rfl
    | cons g' groups =>
      -- the underscore behind `g` stands between its last digit and the first one of `g'`
      obtain ⟨d, more, hd⟩ := List.exists_cons_of_ne_nil (hgroups g' List.mem_cons_self).1
      have hdigit : d.isDigit = true := by
        apply (hgroups g' List.mem_cons_self).2
        rw [hd]
        exact List.mem_cons_self
      have hhead : (['_'].intercalate (g' :: groups)).head?.any Char.isDigit = true := by
        subst hd
        cases groups with
        | nil => simpa using hdigit
        | cons g'' groups => simpa using hdigit
      rw [List.intercalate_cons_cons, List.append_assoc, separatorsInPlace_group_append hg,
        List.singleton_append, separatorsInPlace, if_pos rfl, hhead, ih hgroups false]
      rfl

/-- Without its underscores such a text is its digits. -/
theorem filter_intercalate {groups : List (List Char)} (h : ∀ g ∈ groups, IsDigits g) :
    (['_'].intercalate groups).filter (· != '_') = groups.flatten := by
  induction groups with
  | nil => rfl
  | cons g groups ih =>
    have hkept : g.filter (· != '_') = g := by
      rw [List.filter_eq_self]
      intro c hc
      rw [bne_iff_ne]
      exact ne_underscore_of_isDigit ((h g List.mem_cons_self).2 c hc)
    cases groups with
    | nil => simpa using hkept
    | cons g' groups =>
      rw [List.intercalate_cons_cons, List.filter_append, List.filter_append, hkept,
        ih fun g'' hg'' => h g'' (List.mem_cons_of_mem _ hg''), List.flatten_cons]
      simp

/-- **Groups of digits are read as their digits.** -/
theorem withoutSeparators?_of_groups {run : List Char} {groups : List (List Char)}
    (h : Groups run groups) : withoutSeparators? run = some groups.flatten := by
  rw [withoutSeparators?, h.joined, separatorsInPlace_intercalate h.isDigits, if_pos rfl,
    filter_intercalate h.isDigits]

/-! ## §3. What passes the check is groups of digits. -/

/-- The rest of a group, which may be empty only if a digit was in front of it,
and the groups behind it. -/
theorem exists_groups_after {afterDigit : Bool} {cs : List Char}
    (hcs : ∀ c ∈ cs, c.isDigit = true ∨ c = '_') (hplace : separatorsInPlace afterDigit cs = true)
    (hstart : afterDigit = true ∨ cs ≠ []) :
    ∃ g groups, (∀ c ∈ g, c.isDigit = true) ∧ (afterDigit = true ∨ g ≠ []) ∧
      (∀ g' ∈ groups, IsDigits g') ∧ cs = ['_'].intercalate (g :: groups) := by
  induction cs generalizing afterDigit with
  | nil =>
    have hafter : afterDigit = true := hstart.resolve_right fun h => h rfl
    exact ⟨[], [], by simp, .inl hafter, by simp, by simp⟩
  | cons c cs ih =>
    have hrest : ∀ d ∈ cs, d.isDigit = true ∨ d = '_' :=
      fun d hd => hcs d (List.mem_cons_of_mem _ hd)
    by_cases hc : c = '_'
    · -- an underscore ends the group, and a new one starts behind it
      subst hc
      rw [separatorsInPlace, if_pos rfl, Bool.and_eq_true, Bool.and_eq_true] at hplace
      obtain ⟨⟨hafter, hhead⟩, hplace⟩ := hplace
      have hne : cs ≠ [] := by
        rintro rfl
        exact absurd hhead (by decide)
      obtain ⟨g, groups, hg, hgne, hgroups, hjoined⟩ := ih hrest hplace (.inr hne)
      have hnew : IsDigits g := ⟨hgne.resolve_left (by decide), hg⟩
      refine ⟨[], g :: groups, by simp, .inl hafter, ?_, ?_⟩
      · intro g' hg'
        rcases List.mem_cons.mp hg' with rfl | hg'
        · exact hnew
        · exact hgroups g' hg'
      · rw [List.intercalate_cons_cons, ← hjoined]
        rfl
    -- a digit belongs to the group that is open
    · have hdigit : c.isDigit = true := (hcs c List.mem_cons_self).resolve_right hc
      rw [separatorsInPlace, if_neg hc, hdigit] at hplace
      obtain ⟨g, groups, hg, _, hgroups, hjoined⟩ := ih hrest hplace (.inl rfl)
      refine ⟨c :: g, groups, ?_, .inr (by simp), hgroups, ?_⟩
      · intro d hd
        rcases List.mem_cons.mp hd with rfl | hd
        · exact hdigit
        · exact hg d hd
      · rw [hjoined]
        cases groups with
        | nil => simp
        | cons g' groups => simp [List.intercalate_cons_cons]

/-- A run of digits and underscores whose separators are in place is groups of
digits. -/
theorem exists_groups {run ds : List Char} (hne : run ≠ [])
    (hrun : ∀ c ∈ run, c.isDigit = true ∨ c = '_') (h : withoutSeparators? run = some ds) :
    ∃ groups, Groups run groups := by
  -- the separators were taken out, so their places had been checked
  have hplace : separatorsInPlace false run = true := by
    unfold withoutSeparators? at h
    split at h
    next hplace => exact hplace
    next => cases h
  obtain ⟨g, groups, hg, hgne, hgroups, hjoined⟩ := exists_groups_after hrun hplace (.inr hne)
  refine ⟨g :: groups, by simp, ?_, hjoined⟩
  intro g' hg'
  rcases List.mem_cons.mp hg' with rfl | hg'
  · exact ⟨hgne.resolve_left (by decide), hg⟩
  · exact hgroups g' hg'

/-! ## §4. Digits as a number. -/

/-- The value of a row of digits is that of the library. -/
theorem ofDigits_eq_ofDigitChars (ds : List Char) : ofDigits ds = Nat.ofDigitChars 10 ds 0 := by
  unfold ofDigits Nat.ofDigitChars
  congr 1
  funext n d
  rw [Nat.mul_comm]
  rfl

theorem integer?_of_isDigits {ds : List Char} (h : IsDigits ds) :
    integer? ds = some (Nat.ofDigitChars 10 ds 0 : Int) := by
  have hnatural : natural? ds = some (ofDigits ds) := by
    have hall : ds.all Char.isDigit = true := List.all_eq_true.mpr h.2
    have hempty : ds.isEmpty = false := by simpa using h.1
    rw [natural?, hall, hempty]
    rfl
  rw [ofDigits_eq_ofDigitChars] at hnatural
  -- the first character is a digit, so it is no sign
  unfold integer?
  split
  next => exact absurd (h.2 '+' List.mem_cons_self) (by decide)
  next => exact absurd (h.2 '-' List.mem_cons_self) (by decide)
  next =>
    rw [hnatural]
    rfl

/-- Digits are read as their value, if it fits a signed word of 64 bits. -/
theorem word?_of_isDigits {ds : List Char} (h : IsDigits ds) :
    word? ds =
      if Nat.ofDigitChars 10 ds 0 ≤ Nat.pow 2 63 - 1 then some (Nat.ofDigitChars 10 ds 0 : Int)
      else none := by
  unfold word?
  rw [integer?_of_isDigits h]
  generalize Nat.ofDigitChars 10 ds 0 = n
  -- the lower bound of a word always holds, since there is no sign
  have hlower : -Int.pow 2 63 ≤ (n : Int) := by
    show (-9223372036854775808 : Int) ≤ n
    omega
  have hupper : (n : Int) < Int.pow 2 63 ↔ n ≤ Nat.pow 2 63 - 1 := by
    show (n : Int) < 9223372036854775808 ↔ n ≤ 9223372036854775807
    omega
  have hfits : (decide (-Int.pow 2 63 ≤ (n : Int)) && decide ((n : Int) < Int.pow 2 63)) =
      decide (n ≤ Nat.pow 2 63 - 1) := by
    rw [decide_eq_true hlower, Bool.true_and]
    exact decide_eq_decide.mpr hupper
  rw [Option.filter_some, hfits]
  simp only [decide_eq_true_eq]

/-! ## §5. A run as a whole. -/

/-- The run writes `n` in groups of digits, and `n` fits a signed word of 64 bits. -/
def Writes (run : List Char) (n : Nat) : Prop :=
  ∃ groups, Groups run groups ∧ n = Nat.ofDigitChars 10 groups.flatten 0 ∧ n ≤ Nat.pow 2 63 - 1

/-- **A run of digits and underscores is read exactly if it writes a number that
fits**, and as that number. -/
theorem read_eq_some_iff {run : List Char} (hne : run ≠ [])
    (hrun : ∀ c ∈ run, c.isDigit = true ∨ c = '_') {n : Int} :
    (withoutSeparators? run).bind word? = some n ↔ ∃ m : Nat, n = m ∧ Writes run m := by
  constructor
  · intro h
    obtain ⟨ds, hds, hword⟩ := Option.bind_eq_some_iff.mp h
    obtain ⟨groups, hgroups⟩ := exists_groups hne hrun hds
    obtain rfl : ds = groups.flatten := by
      rw [withoutSeparators?_of_groups hgroups] at hds
      exact (Option.some.inj hds).symm
    rw [word?_of_isDigits hgroups.isDigits_flatten] at hword
    -- digits that are not in range are not read
    by_cases hfits : Nat.ofDigitChars 10 groups.flatten 0 ≤ Nat.pow 2 63 - 1
    · rw [if_pos hfits] at hword
      exact ⟨_, (Option.some.inj hword).symm, groups, hgroups, rfl, hfits⟩
    · rw [if_neg hfits] at hword
      cases hword
  · rintro ⟨m, rfl, groups, hgroups, rfl, hfits⟩
    rw [withoutSeparators?_of_groups hgroups, Option.bind_some,
      word?_of_isDigits hgroups.isDigits_flatten, if_pos hfits]

/-- A run that is not read writes no number in range. -/
theorem not_writes_of_read_eq_none {run : List Char} (hne : run ≠ [])
    (hrun : ∀ c ∈ run, c.isDigit = true ∨ c = '_')
    (h : (withoutSeparators? run).bind word? = none) (n : Nat) : ¬ Writes run n := by
  intro hn
  have hread := (read_eq_some_iff hne hrun).mpr ⟨n, rfl, hn⟩
  rw [h] at hread
  cases hread

end Numeral

/-! ## §6. The parser. -/

open CharLike (toChar render)
open Numeral (Groups Writes)

variable {ε : Type} [CharLike ε]

/-- Whether an element stands for a decimal digit or an underscore. -/
def isDigitOrUnderscore (e : ε) : Bool := (toChar e).isDigit || toChar e == '_'

theorem mem_digits_iff {c : Char} : c ∈ digits ↔ c.isDigit = true := by
  constructor
  · have hall : digits.all Char.isDigit = true := by decide
    exact List.all_eq_true.mp hall c
  · intro hdigit
    have hbounds : 48 ≤ c.toNat ∧ c.toNat ≤ 57 := by
      simp only [Char.isDigit, Bool.and_eq_true, decide_eq_true_eq] at hdigit
      exact hdigit
    have hall : ∀ k : Fin 10, Char.ofNat (48 + k) ∈ digits := by decide
    have hcode : c = Char.ofNat (48 + (c.toNat - 48)) := by
      rw [Nat.add_sub_cancel' hbounds.1, Char.ofNat_toNat]
    rw [hcode]
    exact hall ⟨c.toNat - 48, by omega⟩

/-- The table of the digits with some more ASCII characters is just that. -/
theorem inTable_digits_append {more : List Char}
    (hmore : (more.all fun c => c.toNat < 128) = true) (e : ε) :
    CharLike.inTable (digits ++ more) e = ((toChar e).isDigit || more.contains (toChar e)) := by
  rw [Bool.eq_iff_iff, CharLike.inTable_iff, Bool.or_eq_true, List.contains_iff_mem,
    List.mem_append, mem_digits_iff]
  have hdigits : ∀ c ∈ digits, c.toNat < 128 := CharClass.table_isAscii .digit
  refine and_iff_right_of_imp ?_
  rintro (hdigit | hmem)
  · exact hdigits _ (mem_digits_iff.mpr hdigit)
  · exact decide_eq_true_eq.mp (List.all_eq_true.mp hmore _ hmem)

/-- The table of the components of integer literals is just that. -/
theorem inTable_intComponents (e : ε) :
    CharLike.inTable intComponents e = isDigitOrUnderscore e := by
  rw [intComponents, inTable_digits_append (by decide), isDigitOrUnderscore, List.contains_cons,
    List.contains_nil, Bool.or_false]

/-- The run of a literal is made of digits and underscores. -/
theorem isDigitOrUnderscore_of_mem_render {s : List ε} :
    ∀ c ∈ render (s.takeWhile isDigitOrUnderscore), c.isDigit = true ∨ c = '_' := by
  intro c hc
  obtain ⟨e, he, rfl⟩ := List.mem_map.mp hc
  simpa [isDigitOrUnderscore] using List.mem_takeWhile_imp he

/-- The run that is taken off a spelling is the spelling, whatever follows that
could not be part of it. -/
theorem run_of_spelling {spelling rest : List ε} {groups : List (List Char)}
    (hspelling : Groups (render spelling) groups)
    (hrest : ∀ e ∈ rest.head?, isDigitOrUnderscore e = false) :
    (spelling ++ rest).takeWhile isDigitOrUnderscore = spelling ∧
      (spelling ++ rest).dropWhile isDigitOrUnderscore = rest := by
  have hall : ∀ e ∈ spelling, isDigitOrUnderscore e = true := by
    intro e he
    by_cases hunder : toChar e = '_'
    · simp [isDigitOrUnderscore, hunder]
    · -- what is no underscore stays when the underscores are taken out
      have hkept : toChar e ∈ groups.flatten := by
        rw [← Numeral.filter_intercalate hspelling.isDigits, ← hspelling.joined]
        exact List.mem_filter.mpr ⟨List.mem_map_of_mem he, by simpa using hunder⟩
      simp [isDigitOrUnderscore, hspelling.isDigits_flatten.2 _ hkept]
  exact span_append hall hrest

namespace Parser

variable [Element ε]

/-- A literal is the longest run of elements of its table, read as a whole. -/
theorem literal_apply {α : Type} (table : List Char) (kind : Kind) (read : List Char → Option α)
    (s : List ε) :
    literal table kind read s =
      if s.takeWhile (CharLike.inTable table) = [] then .fail ⟨s, kind⟩
      else
        Reply.convert s kind
          ((Numeral.withoutSeparators? (render (s.takeWhile (CharLike.inTable table)))).bind read)
          (Reply.ok (s.dropWhile (CharLike.inTable table))) := by
  unfold literal
  rw [takeWhileSome_apply]
  split
  next => rfl
  next => rfl

/-- A run that writes a number is read as that number. -/
theorem intLiteral_of_writes {s : List ε} {n : Nat}
    (h : Writes (render (s.takeWhile isDigitOrUnderscore)) n) :
    intLiteral s = .ok (s.dropWhile isDigitOrUnderscore) n := by
  have hne : render (s.takeWhile isDigitOrUnderscore) ≠ [] := by
    obtain ⟨groups, hgroups, _⟩ := h
    intro hnil
    have hplain := Numeral.withoutSeparators?_of_groups hgroups
    rw [hnil] at hplain
    exact hgroups.isDigits_flatten.1 (Option.some.inj hplain).symm
  have hread := (Numeral.read_eq_some_iff hne isDigitOrUnderscore_of_mem_render).mpr ⟨n, rfl, h⟩
  have hrun : s.takeWhile isDigitOrUnderscore ≠ [] := fun hnil => hne (by rw [hnil]; rfl)
  unfold intLiteral
  rw [literal_apply, funext inTable_intComponents, if_neg hrun, hread]
  rfl

/-- A run that writes no number is none of a literal. -/
theorem intLiteral_of_not_writes {s : List ε}
    (h : ∀ n, ¬ Writes (render (s.takeWhile isDigitOrUnderscore)) n) :
    intLiteral s = .fail ⟨s, .integer⟩ := by
  unfold intLiteral
  rw [literal_apply, funext inTable_intComponents]
  by_cases hrun : s.takeWhile isDigitOrUnderscore = []
  · rw [if_pos hrun]
  · rw [if_neg hrun]
    have hne : render (s.takeWhile isDigitOrUnderscore) ≠ [] := by
      intro hnil
      exact hrun (List.map_eq_nil_iff.mp hnil)
    -- a run that is read would write the number
    cases hread : (Numeral.withoutSeparators?
        (render (s.takeWhile isDigitOrUnderscore))).bind Numeral.word? with
    | none => rfl
    | some n =>
      obtain ⟨m, _, hm⟩ :=
        (Numeral.read_eq_some_iff hne isDigitOrUnderscore_of_mem_render).mp hread
      exact absurd hm (h m)

/-- **Integer literals are digits in groups.**  Let the run be the longest prefix
of the input made of digits and underscores.  If it is groups of digits joined
by single underscores, and their digits write a number below `2 ^ 63`, the
literal is that number and the run is taken; in every other case there is no
literal, and the error is where the run starts.  So however the digits of a
number below `2 ^ 63` are grouped, it is read back, in front of anything that
does not go on with a digit or an underscore. -/
theorem intLiteral_reads_grouped_digits :
    (∀ s : List ε,
      (∀ rest n, intLiteral s = .ok rest n ↔
        rest = s.dropWhile isDigitOrUnderscore ∧
          ∃ m : Nat, n = m ∧ Writes (render (s.takeWhile isDigitOrUnderscore)) m) ∧
      ((∀ m, ¬ Writes (render (s.takeWhile isDigitOrUnderscore)) m) →
        intLiteral s = .fail ⟨s, .integer⟩)) ∧
    ∀ (n : Nat) (groups : List (List Char)) (spelling rest : List ε), n ≤ Nat.pow 2 63 - 1 →
      groups.flatten = Nat.toDigits 10 n → (∀ g ∈ groups, g ≠ []) →
      render spelling = ['_'].intercalate groups →
      (∀ e ∈ rest.head?, isDigitOrUnderscore e = false) →
      intLiteral (spelling ++ rest) = .ok rest n := by
  refine ⟨fun s => ⟨fun rest n => ?_, intLiteral_of_not_writes⟩, ?_⟩
  -- what the parser answers, whatever the input
  · constructor
    · intro hok
      by_cases hwrites : ∃ m, Writes (render (s.takeWhile isDigitOrUnderscore)) m
      · obtain ⟨m, hm⟩ := hwrites
        rw [intLiteral_of_writes hm] at hok
        cases hok
        exact ⟨rfl, m, rfl, hm⟩
      · rw [intLiteral_of_not_writes fun m hm => hwrites ⟨m, hm⟩] at hok
        cases hok
    · rintro ⟨rfl, m, rfl, hm⟩
      exact intLiteral_of_writes hm
  -- and what it makes of a number that is written down
  · intro n groups spelling rest hfits hdigits hne hspelling hrest
    have hgroups : Groups (render spelling) groups := by
      refine ⟨?_, ?_, hspelling⟩
      · rintro rfl
        exact absurd hdigits.symm Nat.toDigits_ne_nil
      · intro g hg
        refine ⟨hne g hg, fun c hc => ?_⟩
        have hc' : c ∈ Nat.toDigits 10 n := by
          rw [← hdigits]
          exact List.mem_flatten.mpr ⟨g, hg, hc⟩
        exact Nat.isDigit_of_mem_toDigits (by decide) (by decide) hc'
    have hvalue : n = Nat.ofDigitChars 10 groups.flatten 0 := by
      rw [hdigits, Nat.ofDigitChars_toDigits (by decide) (by decide)]
    obtain ⟨hrun, hleft⟩ := run_of_spelling hgroups hrest
    have hread := intLiteral_of_writes (s := spelling ++ rest) (n := n)
      (by rw [hrun]; exact ⟨groups, hgroups, hvalue, hfits⟩)
    rwa [hleft] at hread

/-- In a text, the greatest number there is room for, in groups of three, in front
of a letter of two bytes; and one more, which is too much.  Among bytes, a number
with leading zeros; and two underscores in a row. -/
theorem greatest_number_is_read :
    intLiteral "9_223_372_036_854_775_807é".toList = .ok ['é'] 9223372036854775807 ∧
    intLiteral "9223372036854775808".toList = .fail ⟨"9223372036854775808".toList, .integer⟩ ∧
    intLiteral ([48, 48, 95, 55, 46] : List UInt8) = .ok [46] 7 ∧
    intLiteral ([55, 95, 95, 55] : List UInt8) = .fail ⟨[55, 95, 95, 55], .integer⟩ := by
  have htext := @intLiteral_reads_grouped_digits Char _ _
  have hbytes := @intLiteral_reads_grouped_digits UInt8 _ _
  refine ⟨?_, ?_, ?_, ?_⟩
  · exact htext.2 9223372036854775807
      [['9'], ['2', '2', '3'], ['3', '7', '2'], ['0', '3', '6'], ['8', '5', '4'],
        ['7', '7', '5'], ['8', '0', '7']]
      "9_223_372_036_854_775_807".toList ['é'] (by decide) (by decide) (by decide) (by decide)
      (by rintro e ⟨⟩; rfl)
  · apply (htext.1 _).2
    exact Numeral.not_writes_of_read_eq_none (by decide) isDigitOrUnderscore_of_mem_render
      (by decide)
  · apply ((hbytes.1 _).1 _ _).mpr
    exact ⟨rfl, 7, rfl, [['0', '0'], ['7']], ⟨by decide, by decide, rfl⟩, by decide, by decide⟩
  · apply (hbytes.1 _).2
    exact Numeral.not_writes_of_read_eq_none (by decide) isDigitOrUnderscore_of_mem_render
      (by decide)

end Parser

end Parsing
