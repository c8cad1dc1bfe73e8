/-
  Parsing.Proofs.Displacement — ERRORS IN SLICES THAT DO NOT BEGIN THE INPUT.

  `mapParser outer inner` carries an error of `inner` over by `rebase`, which
  wants a slice that starts where the input starts.  An outer parser may skip
  something before it cuts its slice, as `preceded` and `delimited` do, and then
  the error is told as far into the input as it was into the slice: it is
  *displaced* towards the front by what was skipped, and further to the last
  boundary before that, if it would fall inside an element.

  So the place is the right one exactly if nothing was skipped.

  Main statements: `mapParser_fail_atDistance`, where the error is told to be;
  `AtDistance.functional` and `atDistance_append_iff`, when that is where it
  was; and `skipped_front_displaces_error`, which puts these together.
-/
import Parsing.Proofs.Nesting

namespace Parsing

variable {ε α β γ : Type} [Element ε]

open Sequence (nativeLen)

/-! ## §1. Places at a distance. -/

/-- `place` is as far into `s` as the distance says, or at the last boundary
before that. -/
def AtDistance (s : List ε) (distance : Nat) (place : List ε) : Prop :=
  ∃ reached, s = reached ++ place ∧ nativeLen reached ≤ distance ∧
    ∀ e later, place = e :: later → distance < nativeLen reached + Element.width e

/-- There is a place at any distance, and the cut at the clamped distance leads there. -/
theorem exists_atDistance (s : List ε) (distance : Nat) :
    ∃ place, AtDistance s distance place ∧
      (Sequence.splitAt s (Sequence.clampOffset s distance)).2 = place := by
  obtain ⟨reached, place, hs, hclamp, hbound, hlongest⟩ := Sequence.clampOffset_spec s distance
  refine ⟨place, ⟨reached, hs, hbound, hlongest⟩, ?_⟩
  rw [hclamp, hs, Sequence.splitAt_nativeLen]

/-- What is reached at a distance is not exceeded at the same distance. -/
theorem AtDistance.eq_nil {reached more place : List ε} {distance : Nat}
    (hbound : nativeLen (reached ++ more) ≤ distance)
    (hlongest : ∀ e later, more ++ place = e :: later →
      distance < nativeLen reached + Element.width e) : more = [] := by
  cases more with
  | nil => rfl
  | cons e more =>
    have hless := hlongest e (more ++ place) rfl
    rw [Sequence.nativeLen_append, Sequence.nativeLen_cons] at hbound
    omega

/-- There is one place at each distance. -/
theorem AtDistance.functional {s place place' : List ε} {distance : Nat}
    (h : AtDistance s distance place) (h' : AtDistance s distance place') : place = place' := by
  obtain ⟨reached, hs, hbound, hlongest⟩ := h
  obtain ⟨reached', hs', hbound', hlongest'⟩ := h'
  rw [hs] at hs'
  rcases List.append_eq_append_iff.mp hs' with ⟨more, rfl, rfl⟩ | ⟨more, rfl, rfl⟩
  · rw [AtDistance.eq_nil hbound' hlongest, List.nil_append]
  · rw [AtDistance.eq_nil hbound hlongest', List.nil_append]

/-- Of an input that goes on behind `front` with something as wide as the
distance, the place is what follows that exactly if `front` is empty. -/
theorem atDistance_append_iff (front skipped later : List ε) :
    AtDistance (front ++ (skipped ++ later)) (nativeLen skipped) later ↔ front = [] := by
  constructor
  · rintro ⟨reached, happend, hbound, _⟩
    rw [← List.append_assoc] at happend
    have hreached : front ++ skipped = reached := List.append_cancel_right happend
    rw [← hreached, Sequence.nativeLen_append] at hbound
    exact Sequence.nativeLen_eq_zero_iff.mp (by omega)
  · rintro rfl
    refine ⟨skipped, rfl, Nat.le_refl _, fun e _ _ => ?_⟩
    exact Nat.lt_add_of_pos_right (Element.width_pos e)

namespace Parser

/-! ## §2. Where an error is told to be. -/

/-- **The error is told as far into the input as it was into the slice**,
wherever the slice was cut. -/
theorem mapParser_fail_atDistance {outer : Parser ε (List ε)} {inner : Parser ε β}
    {s d e rest place : List ε} {kind : Kind} (houter : outer s = .ok rest (d ++ e))
    (hinner : inner (d ++ e) = .fail ⟨e, kind⟩) (hplace : AtDistance s (nativeLen d) place) :
    mapParser outer inner s = .fail ⟨place, kind⟩ := by
  obtain ⟨place', hplace', hsplit⟩ := exists_atDistance s (nativeLen d)
  have hrebase : (⟨e, kind⟩ : ParseError ε).rebase (d ++ e) s = ⟨place, kind⟩ := by
    rw [ParseError.rebase, Sequence.offsetOf_append, hsplit, hplace.functional hplace']
  rw [mapParser, houter, Reply.andThen_ok, hinner, Reply.mapError_fail, hrebase,
    Reply.andThen_fail]

omit [Element ε] in
/-- Two successes, one behind the other, of which the second counts. -/
theorem preceded_eq_ok {p : Parser ε α} {q : Parser ε β} {s r rest : List ε} {a : α} {b : β}
    (hp : p s = .ok r a) (hq : q r = .ok rest b) : preceded p q s = .ok rest b := by
  rw [preceded_apply, hp, Reply.andThen_ok, hq]

omit [Element ε] in
/-- Three successes, one behind the other, of which the one in the middle counts. -/
theorem delimited_eq_ok {p : Parser ε α} {q : Parser ε β} {close : Parser ε γ}
    {s r rest rest' : List ε} {a : α} {b : β} {c : γ} (hp : p s = .ok r a)
    (hq : q r = .ok rest b) (hclose : close rest = .ok rest' c) :
    delimited p q close s = .ok rest' b := by
  rw [delimited_apply, hp, Reply.andThen_ok, hq, Reply.andThen_ok, hclose, Reply.andThen_ok]

/-- **What is skipped in front of a slice displaces the errors in it.**  Let `p`
succeed on `s`, and `q` cut the slice `d ++ e` from the front of what `p` left;
behind the slice follows `t`.  Where `inner` fails on the slice at `e`, the
error is told at the distance of `d` from the front of `s`, with or without a
delimiter behind the slice.  It was at `e ++ t`, so it is told where it was
exactly if that is the place at this distance; and if `p` left `s` behind some
front, exactly if that front is empty. -/
theorem skipped_front_displaces_error (p : Parser ε α) (q : Parser ε (List ε))
    (inner : Parser ε β) (s d e t rest : List ε) (a : α) (kind : Kind)
    (hp : p s = .ok (d ++ e ++ t) a) (hq : q (d ++ e ++ t) = .ok rest (d ++ e))
    (hinner : inner (d ++ e) = .fail ⟨e, kind⟩) :
    ∃ place,
      mapParser (preceded p q) inner s = .fail ⟨place, kind⟩ ∧
      (∀ (γ : Type) (close : Parser ε γ) (rest' : List ε) (c : γ), close rest = .ok rest' c →
        mapParser (delimited p q close) inner s = .fail ⟨place, kind⟩) ∧
      AtDistance s (nativeLen d) place ∧
      (place = e ++ t ↔ AtDistance s (nativeLen d) (e ++ t)) ∧
      ∀ front, s = front ++ (d ++ e ++ t) → (place = e ++ t ↔ front = []) := by
  -- the reported place keeps the distance, measured from the front of the whole input
  obtain ⟨place, hplace, _⟩ := exists_atDistance s (nativeLen d)
  have hright : place = e ++ t ↔ AtDistance s (nativeLen d) (e ++ t) :=
    ⟨fun h => h ▸ hplace, fun h => hplace.functional h⟩
  refine ⟨place, ?_, ?_, hplace, hright, ?_⟩
  · exact mapParser_fail_atDistance (preceded_eq_ok hp hq) hinner hplace
  · intro γ close rest' c hclose
    exact mapParser_fail_atDistance (delimited_eq_ok hp hq hclose) hinner hplace
  · intro front hs
    rw [hright, hs, List.append_assoc d, atDistance_append_iff]

/-- Two letters in brackets, the second of them wrong: the error is not told to
be there. -/
theorem bracketed_letters_displaced :
    char '(' ['(', 'é', 'x', ')', '日'] = .ok ['é', 'x', ')', '日'] '(' ∧
    take 2 ['é', 'x', ')', '日'] = .ok [')', '日'] ['é', 'x'] ∧
    letterPair ['é', 'x'] = .fail ⟨['x'], .char⟩ ∧
    ∃ place,
      mapParser (preceded (char '(') (take 2)) letterPair ['(', 'é', 'x', ')', '日'] =
        .fail ⟨place, .char⟩ ∧
      place ≠ ['x', ')', '日'] := by
  have hp : char '(' ['(', 'é', 'x', ')', '日'] = .ok ['é', 'x', ')', '日'] '(' := rfl
  have hq : take 2 ['é', 'x', ')', '日'] = .ok [')', '日'] ['é', 'x'] := rfl
  have hinner : letterPair ['é', 'x'] = .fail ⟨['x'], .char⟩ := rfl
  refine ⟨hp, hq, hinner, ?_⟩
  obtain ⟨place, hfail, _, _, _, hright⟩ := skipped_front_displaces_error (char '(') (take 2)
    letterPair ['(', 'é', 'x', ')', '日'] ['é'] ['x'] [')', '日'] _ _ _ hp hq hinner
  refine ⟨place, hfail, fun hplace => ?_⟩
  have hfront : ['('] = [] := (hright ['('] rfl).mp hplace
  cases hfront

/-- The place is not always the one at which the inner parser failed: of two
letters behind a bracket, it is the bracket. -/
theorem not_positioned_behind_bracket :
    ¬ ∀ (p : Parser Char Char) (q inner : Parser Char (List Char)) (s r slice t e rest : List Char)
        (a : Char) (kind : Kind),
        p s = .ok r a → q r = .ok rest slice → r = slice ++ t →
        inner slice = .fail ⟨e, kind⟩ → e <:+ slice →
        mapParser (preceded p q) inner s = .fail ⟨e ++ t, kind⟩ := by
  intro h
  have halways := h (char '(') (take 2) (tag ['x', 'y']) ['(', 'a', 'b', ')'] ['a', 'b', ')']
    ['a', 'b'] [')'] ['a', 'b'] [')'] '(' .tag rfl rfl rfl rfl (List.suffix_refl _)
  have hcode : mapParser (preceded (char '(') (take 2)) (tag ['x', 'y']) ['(', 'a', 'b', ')'] =
      .fail ⟨['(', 'a', 'b', ')'], .tag⟩ := rfl
  rw [hcode] at halways
  cases halways

end Parser

end Parsing
