/-
  Parsing.Proofs.Literal.Decimal — WHICH TEXTS ARE DECIMAL NUMBERS.

  A decimal number is read by taking things off its front, and the reader does
  not say which texts there are.  These are put together here from their parts
  (`Spelling`): a sign, digits, a point with digits, and a letter with a sign and
  digits, where all but some digit of the first two rows may be missing.  A
  spelling has a text and a size; neither is read off the reader.

  Each part is read back from its text, in front of anything that cannot belong
  to it, and whatever is read was the text of some part.  The size is that of the
  decimal number that is read, and is computed from the parts as they stand.

  Underscores are to stand between digits; the check walks along the text with
  the character before, and is stated without it (`separatorsInPlace_iff`).

  Main statements: `decimal?_eq_some_iff`, `Spelling.size_decimal` and
  `separatorsInPlace_iff`.
-/
import Mathlib.Tactic.FieldSimp
import Parsing.Proofs.Literal.Integer
import Parsing.Proofs.Literal.Rounding

namespace Parsing.Numeral

/-! ## §1. The parts of a decimal number. -/

/-- A sign in front of digits, or none. -/
inductive Sign where
  | none
  | plus
  | minus
  deriving DecidableEq

namespace Sign

def text : Sign → List Char
  | none => []
  | plus => ['+']
  | minus => ['-']

def isMinus : Sign → Bool
  | none => false
  | plus => false
  | minus => true

/-- The integer with this sign in front of its size. -/
def apply (s : Sign) (n : Nat) : Int := if s.isMinus then -(n : Int) else n

end Sign

/-- The letter `e` in front of a signed row of digits. -/
structure Exponent where
  capital : Bool
  sign : Sign
  digits : List Char
  isDigits : IsDigits digits

namespace Exponent

def text (x : Exponent) : List Char :=
  (if x.capital then 'E' else 'e') :: (x.sign.text ++ x.digits)

def value (x : Exponent) : Int := x.sign.apply (Nat.ofDigitChars 10 x.digits 0)

end Exponent

/-- The parts of a decimal number.  There is a digit in front of the point or behind
it; without a point there are digits. -/
structure Spelling where
  sign : Sign
  whole : List Char
  fraction : Option (List Char)
  exponent : Option Exponent
  whole_isDigit : ∀ c ∈ whole, c.isDigit = true
  fraction_isDigit : ∀ ds ∈ fraction, ∀ c ∈ ds, c.isDigit = true
  some_digit : whole ≠ [] ∨ ∃ ds ∈ fraction, ds ≠ []

namespace Spelling

/-- The text of a point with its digits. -/
def pointText (fraction : Option (List Char)) : List Char :=
  fraction.elim [] ('.' :: ·)

def exponentText (exponent : Option Exponent) : List Char := exponent.elim [] Exponent.text

def text (w : Spelling) : List Char :=
  w.sign.text ++ (w.whole ++ (pointText w.fraction ++ exponentText w.exponent))

/-- The digits behind the point. -/
def places (w : Spelling) : List Char := w.fraction.getD []

def exponentValue (exponent : Option Exponent) : Int := exponent.elim 0 Exponent.value

/-- The size of the number that is spelt. -/
def size (w : Spelling) : ℚ :=
  (Nat.ofDigitChars 10 w.whole 0 + Nat.ofDigitChars 10 w.places 0 / 10 ^ w.places.length) *
    10 ^ exponentValue w.exponent

/-- The number that is spelt. -/
def value (w : Spelling) : ℚ := Binary64.signed w.sign.isMinus w.size

/-- The spelling as a decimal number. -/
def decimal (w : Spelling) : Decimal where
  negative := w.sign.isMinus
  significand := ofDigits (w.whole ++ w.places)
  exponent := exponentValue w.exponent - w.places.length

/-- The decimal number that is read from a spelling has the size that it spells. -/
theorem size_decimal (w : Spelling) : w.decimal.size = w.size := by
  have hten : (10 : ℚ) ^ w.places.length ≠ 0 := by positivity
  rw [Decimal.size, size, decimal, ofDigits_eq_ofDigitChars, Nat.ofDigitChars_append,
    Nat.ofDigitChars_eq_ofDigitChars_zero, zpow_sub₀ (by norm_num), zpow_natCast]
  push_cast
  field_simp

end Spelling

/-! ## §2. Signs and integers. -/

/-- A digit is no sign, so a text without a sign begins with its digits. -/
theorem ne_sign_of_isDigit {c : Char} (h : c.isDigit = true) : c ≠ '+' ∧ c ≠ '-' := by
  constructor
  · rintro rfl
    exact absurd h (by decide)
  · rintro rfl
    exact absurd h (by decide)

/-- In front of anything but a sign, a sign is split off as such. -/
theorem splitSign_text_append (s : Sign) {t : List Char}
    (h : ∀ c ∈ t.head?, c ≠ '+' ∧ c ≠ '-') : splitSign (s.text ++ t) = (s.isMinus, t) := by
  cases s with
  | plus => rfl
  | minus => rfl
  | none =>
    cases t with
    | nil => rfl
    | cons c t =>
      obtain ⟨hplus, hminus⟩ := h c rfl
      show splitSign (c :: t) = (false, c :: t)
      unfold splitSign
      split
      next heq => exact absurd (List.cons.inj heq).1 hplus
      next heq => exact absurd (List.cons.inj heq).1 hminus
      next => rfl

/-- Whatever is split off is a sign. -/
theorem exists_sign (cs : List Char) :
    ∃ s : Sign, cs = s.text ++ (splitSign cs).2 ∧ (splitSign cs).1 = s.isMinus := by
  unfold splitSign
  split
  next => exact ⟨.plus, rfl, rfl⟩
  next => exact ⟨.minus, rfl, rfl⟩
  next => exact ⟨.none, rfl, rfl⟩

/-- Exactly the rows of digits are read as natural numbers. -/
theorem natural?_eq_some_iff {cs : List Char} {n : Nat} :
    natural? cs = some n ↔ IsDigits cs ∧ n = Nat.ofDigitChars 10 cs 0 := by
  have hread : (cs.isEmpty || !cs.all Char.isDigit) = false ↔ IsDigits cs := by
    rw [Bool.or_eq_false_iff, Bool.not_eq_false', List.all_eq_true, List.isEmpty_eq_false_iff,
      IsDigits]
  rw [← ofDigits_eq_ofDigitChars, natural?, ← hread]
  split
  next h => simp [h]
  next h => simp [h, eq_comm]

/-- Integers are read off a sign and digits. -/
theorem integer?_eq (cs : List Char) :
    integer? cs = (natural? (splitSign cs).2).map fun n : Nat =>
      if (splitSign cs).1 then -(n : Int) else n := by
  unfold integer? splitSign
  split
  next => rfl
  next cs => cases natural? cs <;> rfl
  next => rfl

/-- An integer is such a row behind a sign, which may be left out. -/
theorem integer?_eq_some_iff {cs : List Char} {n : Int} :
    integer? cs = some n ↔
      ∃ (s : Sign) (ds : List Char), IsDigits ds ∧ cs = s.text ++ ds ∧
        n = s.apply (Nat.ofDigitChars 10 ds 0) := by
  rw [integer?_eq, Option.map_eq_some_iff]
  constructor
  · rintro ⟨m, hm, rfl⟩
    obtain ⟨hdigits, rfl⟩ := natural?_eq_some_iff.mp hm
    obtain ⟨s, htext, hminus⟩ := exists_sign cs
    refine ⟨s, _, hdigits, htext, ?_⟩
    rw [Sign.apply, hminus]
  · rintro ⟨s, ds, hdigits, rfl, rfl⟩
    have hhead : ∀ c ∈ ds.head?, c ≠ '+' ∧ c ≠ '-' := fun c hc =>
      ne_sign_of_isDigit (hdigits.2 c (List.mem_of_mem_head? hc))
    rw [splitSign_text_append s hhead]
    exact ⟨_, natural?_eq_some_iff.mpr ⟨hdigits, rfl⟩, rfl⟩

/-! ## §3. Points and exponents. -/

open Spelling (pointText exponentText exponentValue)

/-- An exponent begins with its letter, so neither digits nor a point go on into it. -/
theorem head_exponentText (exponent : Option Exponent) :
    ∀ c ∈ (exponentText exponent).head?, c.isDigit = false ∧ c ≠ '.' := by
  intro c hc
  cases exponent with
  | none => cases hc
  | some x =>
    obtain rfl := Option.some.inj hc
    cases x.capital <;> decide

/-- In front of an exponent, a point is split off with its digits. -/
theorem splitFraction_text {fraction : Option (List Char)}
    (hdigits : ∀ ds ∈ fraction, ∀ c ∈ ds, c.isDigit = true) (exponent : Option Exponent) :
    splitFraction (pointText fraction ++ exponentText exponent) =
      (fraction.getD [], exponentText exponent) := by
  have hhead := head_exponentText exponent
  cases fraction with
  | none =>
    show splitFraction (exponentText exponent) = ([], exponentText exponent)
    -- an exponent does not begin with a point, so no fraction is read
    unfold splitFraction
    split
    next heq => exact absurd rfl (hhead '.' (by rw [heq]; rfl)).2
    next => rfl
  | some ds =>
    obtain ⟨htake, hdrop⟩ :=
      span_append (hdigits ds rfl) fun c hc => (hhead c hc).1
    show (List.takeWhile Char.isDigit (ds ++ exponentText exponent),
      List.dropWhile Char.isDigit (ds ++ exponentText exponent)) = _
    rw [htake, hdrop]
    rfl

/-- Whatever is split off is a point with its digits. -/
theorem exists_fraction (cs : List Char) :
    ∃ fraction, cs = pointText fraction ++ (splitFraction cs).2 ∧
      (splitFraction cs).1 = fraction.getD [] ∧
      ∀ ds ∈ fraction, ∀ c ∈ ds, c.isDigit = true := by
  unfold splitFraction
  split
  next cs =>
    refine ⟨some (cs.takeWhile Char.isDigit), ?_, rfl, ?_⟩
    · show _ = '.' :: (cs.takeWhile Char.isDigit ++ cs.dropWhile Char.isDigit)
      rw [List.takeWhile_append_dropWhile]
    · rintro ds ⟨⟩ c hc
      exact List.mem_takeWhile_imp hc
  next => exact ⟨none, rfl, rfl, by simp⟩

/-- Exponents are read off their texts. -/
theorem exponent?_eq_some_iff {cs : List Char} {n : Int} :
    exponent? cs = some n ↔
      ∃ exponent, cs = exponentText exponent ∧ n = exponentValue exponent := by
  constructor
  · intro h
    unfold exponent? at h
    split at h
    next =>
      cases h
      exact ⟨none, rfl, rfl⟩
    -- something is left, and it has to be a letter and an integer
    next c cs =>
      split at h
      next hletter =>
        obtain ⟨s, ds, hdigits, rfl, rfl⟩ := integer?_eq_some_iff.mp h
        rcases hletter with rfl | rfl
        · exact ⟨some ⟨false, s, ds, hdigits⟩, rfl, rfl⟩
        · exact ⟨some ⟨true, s, ds, hdigits⟩, rfl, rfl⟩
      next => cases h
  · rintro ⟨exponent, rfl, rfl⟩
    cases exponent with
    | none => rfl
    | some x =>
      have hread : integer? (x.sign.text ++ x.digits) = some x.value :=
        integer?_eq_some_iff.mpr ⟨x.sign, x.digits, x.isDigits, rfl, rfl⟩
      show exponent? ((if x.capital then 'E' else 'e') :: _) = some x.value
      rw [exponent?, if_pos (by cases x.capital <;> simp), hread]

/-! ## §4. Decimal numbers. -/

/-- What follows the digits in front of the point does not go on with a digit. -/
theorem head_pointText_append (fraction : Option (List Char)) (exponent : Option Exponent) :
    ∀ c ∈ (pointText fraction ++ exponentText exponent).head?,
      c.isDigit = false ∧ c ≠ '+' ∧ c ≠ '-' := by
  intro c hc
  cases fraction with
  | some ds =>
    obtain rfl := Option.some.inj hc
    decide
  | none =>
    cases exponent with
    | none => cases hc
    | some x =>
      obtain rfl := Option.some.inj hc
      cases x.capital <;> decide

/-- Every spelling is read as what it spells. -/
theorem decimal?_text (w : Spelling) : decimal? w.text = some w.decimal := by
  have hpoint := head_pointText_append w.fraction w.exponent
  have hhead : ∀ c ∈ (w.whole ++ (pointText w.fraction ++ exponentText w.exponent)).head?,
      c ≠ '+' ∧ c ≠ '-' := by
    intro c hc
    rw [List.head?_append, Option.mem_def, Option.or_eq_some_iff] at hc
    rcases hc with hc | ⟨_, hc⟩
    · exact ne_sign_of_isDigit (w.whole_isDigit c (List.mem_of_mem_head? hc))
    · exact (hpoint c hc).2
  obtain ⟨htake, hdrop⟩ := span_append w.whole_isDigit fun c hc => (hpoint c hc).1
  -- with no digit on either side of the point there would be no number
  have hsome : ¬ (w.whole.isEmpty && (w.fraction.getD []).isEmpty) = true := by
    rw [Bool.and_eq_true, List.isEmpty_iff, List.isEmpty_iff]
    rintro ⟨hwhole, hplaces⟩
    rcases w.some_digit with hne | ⟨ds, hds, hne⟩
    · exact hne hwhole
    · rw [hds] at hplaces
      exact hne hplaces
  have hexponent : exponent? (exponentText w.exponent) = some (exponentValue w.exponent) :=
    exponent?_eq_some_iff.mpr ⟨w.exponent, rfl, rfl⟩
  rw [decimal?, Spelling.text, splitSign_text_append w.sign hhead]
  dsimp only
  rw [htake, hdrop, splitFraction_text w.fraction_isDigit]
  dsimp only
  rw [if_neg hsome, hexponent]
  rfl

/-- Everything that is read is a spelling, and read as what it spells. -/
theorem exists_spelling {cs : List Char} {d : Decimal} (h : decimal? cs = some d) :
    ∃ w : Spelling, w.text = cs ∧ w.decimal = d := by
  -- a sign and a fraction can be read off any text
  obtain ⟨sign, hsign, hminus⟩ := exists_sign cs
  obtain ⟨fraction, hfraction, hplaces, hisDigit⟩ :=
    exists_fraction ((splitSign cs).2.dropWhile Char.isDigit)
  unfold decimal? at h
  dsimp only at h
  split at h
  next => cases h
  next hsome =>
    obtain ⟨e, he, rfl⟩ := Option.map_eq_some_iff.mp h
    -- what is left behind them is an exponent, since the text was read
    obtain ⟨exponent, hexponent, rfl⟩ := exponent?_eq_some_iff.mp he
    rw [hplaces] at hsome
    have hdigit : (splitSign cs).2.takeWhile Char.isDigit ≠ [] ∨ ∃ ds ∈ fraction, ds ≠ [] := by
      cases fraction with
      | none => exact .inl (by simpa using hsome)
      | some ds =>
        by_cases hwhole : (splitSign cs).2.takeWhile Char.isDigit = []
        · exact .inr ⟨ds, rfl, by simpa [hwhole] using hsome⟩
        · exact .inl hwhole
    refine ⟨⟨sign, _, fraction, exponent, fun _ => List.mem_takeWhile_imp, hisDigit, hdigit⟩,
      ?_, ?_⟩
    · rw [Spelling.text, ← hexponent, ← hfraction, List.takeWhile_append_dropWhile, ← hsign]
    · rw [Spelling.decimal, Spelling.places, hminus, hplaces]

/-- **Decimal numbers are read off spellings.** -/
theorem decimal?_eq_some_iff {cs : List Char} {d : Decimal} :
    decimal? cs = some d ↔ ∃ w : Spelling, w.text = cs ∧ w.decimal = d := by
  refine ⟨exists_spelling, ?_⟩
  rintro ⟨w, rfl, rfl⟩
  exact decimal?_text w

/-! ## §5. Underscores. -/

/-- Every underscore stands between two digits. -/
def UnderscoresBetweenDigits (cs : List Char) : Prop :=
  ∀ before after, cs = before ++ '_' :: after →
    before.getLast?.any Char.isDigit = true ∧ after.head?.any Char.isDigit = true

/-- The check along a text asks of the first character what was in front of it. -/
theorem separatorsInPlace_cons (afterDigit : Bool) (c : Char) (cs : List Char) :
    separatorsInPlace afterDigit (c :: cs) = true ↔
      (c = '_' → afterDigit = true ∧ cs.head?.any Char.isDigit = true) ∧
        separatorsInPlace c.isDigit cs = true := by
  rw [separatorsInPlace]
  by_cases hc : c = '_'
  · subst hc
    rw [if_pos rfl, Bool.and_eq_true, Bool.and_eq_true]
    simp
  · simp [hc]

/-- Each underscore has a digit in front of it and one behind it. The element in front
of the whole text is known only as being a digit or not (`afterDigit`), as the induction
needs it. -/
theorem separatorsInPlace_iff_of_afterDigit {afterDigit : Bool} {cs : List Char} :
    separatorsInPlace afterDigit cs = true ↔
      ∀ before after, cs = before ++ '_' :: after →
        (before.getLast?.map Char.isDigit).getD afterDigit = true ∧
          after.head?.any Char.isDigit = true := by
  induction cs generalizing afterDigit with
  | nil => simp [separatorsInPlace]
  | cons c cs ih =>
    have hlast : ∀ before : List Char, ((c :: before).getLast?.map Char.isDigit).getD afterDigit =
        (before.getLast?.map Char.isDigit).getD c.isDigit := by
      intro before
      rw [List.getLast?_cons]
      cases before.getLast? <;> rfl
    -- an underscore that is not the first character has its neighbour in `cs`, or it is `c`
    rw [separatorsInPlace_cons, ih]
    constructor
    · rintro ⟨hfirst, hlater⟩ before after heq
      cases before with
      | nil =>
        obtain ⟨rfl, rfl⟩ := List.cons.inj heq
        exact hfirst rfl
      | cons b before =>
        obtain ⟨rfl, rfl⟩ := List.cons.inj heq
        rw [hlast]
        exact hlater before after rfl
    · intro h
      refine ⟨?_, fun before after heq => ?_⟩
      · rintro rfl
        exact h [] cs rfl
      · rw [← hlast]
        exact h (c :: before) after (by rw [heq, List.cons_append])

/-- **The check of the separators is whether all underscores stand between digits.** -/
theorem separatorsInPlace_iff {cs : List Char} :
    separatorsInPlace false cs = true ↔ UnderscoresBetweenDigits cs := by
  have hany : ∀ before : List Char, before.getLast?.any Char.isDigit =
      (before.getLast?.map Char.isDigit).getD false := by
    intro before
    cases before.getLast? <;> rfl
  rw [separatorsInPlace_iff_of_afterDigit, UnderscoresBetweenDigits]
  simp only [hany]

end Parsing.Numeral
