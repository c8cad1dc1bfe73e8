/-
  Parsing.Proofs.Matching — LITERALS, WITH AND WITHOUT REGARD TO CASE.

  A literal is matched against as many elements of the input as it has.  With
  regard to case these have to be the elements of the literal, which makes it a
  test for a prefix.  Without regard to case each of them has to be the same
  letter as the one in its place, which is to say that a function, the lowercase
  form, does not tell them apart.  How wide the elements are is never looked at:
  a letter may be matched by one that is wider or less wide, and what is yielded
  is what stands in the input.

  Main statements:
    * `tag_eq_ok_iff`, `tag_eq_fail_iff` — with regard to case;
    * `sameLetter_lower`, `sameLetter_lowerByte` — what the same letters are;
    * `tagNoCase_of_beginsWith`, `tagNoCase_of_not_beginsWith` — without regard to case;
    * `tagNoCase_of_tag`, `tagNoCase_congr` — literals compared with each other;
    * `literals_match_exactly`, which puts these together.
-/
import Mathlib.Data.List.Forall2
import Parsing.Parser.Ascii
import Parsing.Proofs.Span

namespace Parsing

/-! ## §1. The same letters. -/

section Letters

variable {ε φ : Type} {fold : ε → φ} {literal literal' s t : List ε}

/-- As many elements in the one sequence as in the other, and in each place two
that `fold` does not tell apart. -/
def SameLetters (fold : ε → φ) (s t : List ε) : Prop :=
  List.Forall₂ (fun a b => fold a = fold b) s t

/-- Having the same letters is having the same image under `fold`. -/
theorem sameLetters_iff_map : SameLetters fold s t ↔ s.map fold = t.map fold := by
  rw [← List.forall₂_eq_eq_eq, List.forall₂_map_left_iff, List.forall₂_map_right_iff]
  rfl

instance [DecidableEq φ] : Decidable (SameLetters fold s t) :=
  decidable_of_iff _ sameLetters_iff_map.symm

theorem SameLetters.refl (fold : ε → φ) (s : List ε) : SameLetters fold s s :=
  sameLetters_iff_map.mpr rfl

/-- A sequence has at least as many elements as the literal, and begins with the
letters of the literal. -/
def BeginsWith (fold : ε → φ) (literal s : List ε) : Prop :=
  literal.length ≤ s.length ∧ SameLetters fold (s.take literal.length) literal

instance [DecidableEq φ] : Decidable (BeginsWith fold literal s) :=
  inferInstanceAs (Decidable (_ ∧ _))

/-- A sequence begins with whatever has the letters of its front. -/
theorem beginsWith_append (h : SameLetters fold s literal) (t : List ε) :
    BeginsWith fold literal (s ++ t) := by
  have hlen : s.length = literal.length := h.length_eq
  refine ⟨?_, ?_⟩
  · rw [List.length_append]
    omega
  · rw [← hlen, List.take_left]
    exact h

/-- Whether a sequence begins with a literal depends on the letters of the literal alone. -/
theorem beginsWith_congr (h : SameLetters fold literal literal') :
    BeginsWith fold literal s ↔ BeginsWith fold literal' s := by
  have hlen : literal.length = literal'.length := h.length_eq
  rw [BeginsWith, BeginsWith, hlen, sameLetters_iff_map, sameLetters_iff_map,
    sameLetters_iff_map.mp h]

end Letters

/-- The lowercase form decides which characters are the same letter. -/
theorem sameLetter_lower (a b : Char) :
    CharLike.sameLetter a b = true ↔ Lowercase.lower a = Lowercase.lower b := by
  show (decide (a = b) || decide (Lowercase.lower a = Lowercase.lower b)) = true ↔ _
  rw [Bool.or_eq_true, decide_eq_true_eq, decide_eq_true_eq]
  exact or_iff_right_of_imp (congrArg Lowercase.lower)

/-- The small ASCII letter decides which bytes are the same letter. -/
theorem sameLetter_lowerByte (a b : UInt8) :
    CharLike.sameLetter a b = true ↔ lowerByte a = lowerByte b :=
  decide_eq_true_iff

namespace Parser

variable {ε : Type} [Element ε] {literal literal' s rest found : List ε}

/-! ## §2. With regard to case. -/

section Tag

variable [DecidableEq ε]

/-- A literal is found exactly where it stands in front, and it is the literal itself
that is returned. -/
theorem tag_eq_ok_iff : tag literal s = .ok rest found ↔ found = literal ∧ s = literal ++ rest := by
  constructor
  · intro h
    rw [tag_apply] at h
    split at h
    next hprefix =>
      obtain ⟨t, rfl⟩ := hprefix
      rw [List.drop_left] at h
      cases h
      exact ⟨rfl, rfl⟩
    next => cases h
  · rintro ⟨rfl, rfl⟩
    exact tag_append _ _

/-- It fails where it does not stand in front, and nowhere else. -/
theorem tag_eq_fail_iff : tag literal s = .fail ⟨s, .tag⟩ ↔ ¬ literal <+: s := by
  rw [tag_apply]
  split
  next h => simp [h]
  next h => simp [h]

end Tag

/-! ## §3. Without regard to case. -/

section NoCase

variable [CharLike ε] {φ : Type} {fold : ε → φ}

/-- With enough elements left, the comparison runs over the pairs in each place. -/
theorem tagNoCase_of_length_le (h : literal.length ≤ s.length) :
    tagNoCase literal s =
      if ((s.take literal.length).zip literal).all
          fun pair => CharLike.sameLetter pair.1 pair.2 then
        .ok (s.drop literal.length) (s.take literal.length)
      else .fail ⟨s, .tag⟩ := by
  rw [tagNoCase, mapKind, mapErr, take_apply, if_pos h, Reply.mapError_ok, Reply.andThen_ok]

/-- With fewer elements than the literal has, it fails without a comparison. -/
theorem tagNoCase_of_short (h : ¬ literal.length ≤ s.length) :
    tagNoCase literal s = .fail ⟨s, .tag⟩ := by
  rw [tagNoCase, mapKind, mapErr, take_apply, if_neg h]
  rfl

variable (hfold : ∀ a b : ε, CharLike.sameLetter a b = true ↔ fold a = fold b)
include hfold

omit [Element ε] in
/-- Sequences of one length are compared place by place. -/
theorem all_sameLetter_iff (hlen : s.length = literal.length) :
    ((s.zip literal).all fun pair => CharLike.sameLetter pair.1 pair.2) = true ↔
      SameLetters fold s literal := by
  -- the pairs alone do not tell that neither sequence goes on, so `hlen` is needed
  rw [List.all_eq_true, SameLetters, List.forall₂_iff_zip]
  constructor
  · intro h
    exact ⟨hlen, fun hmem => (hfold _ _).mp (h _ hmem)⟩
  · rintro ⟨_, h⟩ ⟨a, b⟩ hmem
    exact (hfold a b).mpr (h hmem)

/-- A literal that is in front up to case is found, and the stretch is returned as it
was written. -/
theorem tagNoCase_of_beginsWith (h : BeginsWith fold literal s) :
    tagNoCase literal s = .ok (s.drop literal.length) (s.take literal.length) := by
  obtain ⟨hle, hsame⟩ := h
  rw [tagNoCase_of_length_le hle, if_pos ((all_sameLetter_iff hfold hsame.length_eq).mpr hsame)]

theorem tagNoCase_of_not_beginsWith (h : ¬ BeginsWith fold literal s) :
    tagNoCase literal s = .fail ⟨s, .tag⟩ := by
  -- long enough, so some letter is another one; or too short to be compared at all
  by_cases hle : literal.length ≤ s.length
  · have hlen : (s.take literal.length).length = literal.length := List.length_take_of_le hle
    rw [tagNoCase_of_length_le hle,
      if_neg fun hall => h ⟨hle, (all_sameLetter_iff hfold hlen).mp hall⟩]
  · exact tagNoCase_of_short hle

/-- The same letters in front of anything are taken off it, as they stand. -/
theorem tagNoCase_append (h : SameLetters fold found literal) (rest : List ε) :
    tagNoCase literal (found ++ rest) = .ok rest found := by
  have hlen : found.length = literal.length := h.length_eq
  rw [tagNoCase_of_beginsWith hfold (beginsWith_append h rest), ← hlen, List.drop_left,
    List.take_left]

/-- What matches a literal matches it without regard to case. -/
theorem tagNoCase_of_tag [DecidableEq ε] (h : tag literal s = .ok rest found) :
    tagNoCase literal s = .ok rest found := by
  obtain ⟨rfl, rfl⟩ := tag_eq_ok_iff.mp h
  exact tagNoCase_append hfold (SameLetters.refl fold _) rest

/-- Literals with the same letters are the same parser. -/
theorem tagNoCase_congr (h : SameLetters fold literal literal') (s : List ε) :
    tagNoCase literal s = tagNoCase literal' s := by
  have hlen : literal.length = literal'.length := h.length_eq
  by_cases hbegins : BeginsWith fold literal s
  · rw [tagNoCase_of_beginsWith hfold hbegins,
      tagNoCase_of_beginsWith hfold ((beginsWith_congr h).mp hbegins), hlen]
  · rw [tagNoCase_of_not_beginsWith hfold hbegins,
      tagNoCase_of_not_beginsWith hfold (mt (beginsWith_congr h).mpr hbegins)]

end NoCase

/-! ## §4. Text and bytes. -/

/-- How literals are matched without regard to case, where `fold` gives the same
form to the same letters. -/
structure MatchesUpTo [CharLike ε] [DecidableEq ε] {φ : Type} (fold : ε → φ) : Prop where
  /-- Where the input begins with the letters of the literal, they are taken off it as
  they stand. -/
  found : ∀ {literal s : List ε}, BeginsWith fold literal s →
    tagNoCase literal s = .ok (s.drop literal.length) (s.take literal.length)
  /-- Anything else, and what is too short, is a failure in front of it. -/
  notFound : ∀ {literal s : List ε}, ¬ BeginsWith fold literal s →
    tagNoCase literal s = .fail ⟨s, .tag⟩
  /-- A match with regard to case is one without. -/
  ofTag : ∀ {literal s rest found : List ε}, tag literal s = .ok rest found →
    tagNoCase literal s = .ok rest found
  /-- Only the letters of the literal matter. -/
  congr : ∀ {literal literal' : List ε}, SameLetters fold literal literal' →
    ∀ s, tagNoCase literal s = tagNoCase literal' s

/-- All of this follows from a test of two elements that agrees with `fold`. -/
theorem matchesUpTo_of_sameLetter [CharLike ε] [DecidableEq ε] {φ : Type} {fold : ε → φ}
    (hfold : ∀ a b : ε, CharLike.sameLetter a b = true ↔ fold a = fold b) :
    MatchesUpTo fold where
  found := tagNoCase_of_beginsWith hfold
  notFound := tagNoCase_of_not_beginsWith hfold
  ofTag := tagNoCase_of_tag hfold
  congr := tagNoCase_congr hfold

/-- **A literal matches exactly.**  Over elements of any kind it is yielded, and
what follows it is left, where the input begins with it; anywhere else there is a
failure in front of the input.  Without regard to case, it is matched where the
input begins with as many elements of the same lowercase form — of the full
mapping in a text, of the ASCII letters in bytes — and these elements are what is
yielded. -/
theorem literals_match_exactly :
    (∀ (ε : Type) [Element ε] [DecidableEq ε] (literal s : List ε),
      (∀ rest found, tag literal s = .ok rest found ↔ found = literal ∧ s = literal ++ rest) ∧
      (tag literal s = .fail ⟨s, .tag⟩ ↔ ¬ literal <+: s)) ∧
    MatchesUpTo Lowercase.lower ∧ MatchesUpTo lowerByte :=
  ⟨fun _ _ _ _ _ => ⟨fun _ _ => tag_eq_ok_iff, tag_eq_fail_iff⟩,
    matchesUpTo_of_sameLetter sameLetter_lower, matchesUpTo_of_sameLetter sameLetter_lowerByte⟩

/-- The Kelvin sign is a `k` of three bytes, and is yielded as it stands; the
lowercase form of a capital I with a dot has a second character, so it is no `i`.
In bytes, two ways to write one literal are the same parser. -/
theorem kelvin_sign_is_matched :
    (tag ['k'] ['\u212A', 'b'] = .fail ⟨['\u212A', 'b'], .tag⟩ ∧
      BeginsWith Lowercase.lower ['k'] ['\u212A', 'b'] ∧
      tagNoCase ['k'] ['\u212A', 'b'] = .ok ['b'] ['\u212A']) ∧
    (¬ BeginsWith Lowercase.lower ['i'] ['İ'] ∧ tagNoCase ['i'] ['İ'] = .fail ⟨['İ'], .tag⟩) ∧
    (tag [111, 107] ([111, 107, 33] : List UInt8) = .ok [33] [111, 107] ∧
      tagNoCase [111, 107] ([111, 107, 33] : List UInt8) = .ok [33] [111, 107]) ∧
    SameLetters lowerByte [79, 107] [111, 75] ∧
      ∀ s : List UInt8, tagNoCase [79, 107] s = tagNoCase [111, 75] s := by
  obtain ⟨hexact, htext, hbytes⟩ := literals_match_exactly
  have hkelvin : BeginsWith Lowercase.lower ['k'] ['\u212A', 'b'] := by decide
  have hdotted : ¬ BeginsWith Lowercase.lower ['i'] ['İ'] := by decide
  have hsame : SameLetters lowerByte [79, 107] [111, 75] := by decide
  have hok : tag [111, 107] ([111, 107, 33] : List UInt8) = .ok [33] [111, 107] :=
    ((hexact UInt8 _ _).1 _ _).mpr ⟨rfl, rfl⟩
  exact ⟨⟨(hexact Char _ _).2.mpr (by decide), hkelvin, htext.found hkelvin⟩,
    ⟨hdotted, htext.notFound hdotted⟩, ⟨hok, hbytes.ofTag hok⟩, hsame, hbytes.congr hsame⟩

end Parser

end Parsing
