/-
  Parsing.Proofs.Progress.Marker — REPETITION UP TO A MARKER.

  `manyTill p marker` has a loop of its own.  A turn of it is a match of `p` at
  a place where the marker fails, which is a match of
  `preceded (negate marker) p`; so the turns are a chain of matches of that
  parser, and where no further turn is possible the reply is decided:

    • if the marker matches there, it is a success;
    • else, if `p` fails there, it is the failure of `p`;
    • else `p` matches and uses nothing up, and that is a failure of its own.

  `many0` follows the same chain, but it stops at the end of the input without
  trying anything, and it takes the last two cases for the end of the list.  In
  neither of them does the marker match, so where both succeed they agree.

  Main statements: `manyTill_of_stuck`, the reply where the turns end, and
  `manyTill_is_many0_and_the_marker`.
-/
import Parsing.Parser.Sequencing
import Parsing.Parser.Span
import Parsing.Proofs.Progress.Basic

namespace Parsing.Parser

variable {ε α β : Type} {p : Parser ε α} {marker : Parser ε β} {s r : List ε}

open Sequence (nativeLen)

/-! ## §1. One turn. -/

/-- Where the marker is, a turn is refused. -/
theorem preceded_negate_of_match {rest : List ε} {mark : β} (h : marker s = .ok rest mark)
    (p : Parser ε α) : preceded (negate marker) p s = .fail ⟨s, .negate⟩ := by
  rw [preceded_apply, negate, h, Reply.andThen_fail]

/-- Where it is not, a turn is a run of the parser. -/
theorem preceded_negate_of_fail {error : ParseError ε} (h : marker s = .fail error)
    (p : Parser ε α) : preceded (negate marker) p s = p s := by
  rw [preceded_apply, negate, h, Reply.andThen_ok]

theorem preceded_negate_of_unfinished (h : marker s = .unfinished) (p : Parser ε α) :
    preceded (negate marker) p s = .unfinished := by
  rw [preceded_apply, negate, h, Reply.andThen_unfinished]

/-- A turn is a match of `p` where the marker fails. -/
theorem preceded_negate_eq_ok_iff {rest : List ε} {value : α} :
    preceded (negate marker) p s = .ok rest value ↔
      (∃ error, marker s = .fail error) ∧ p s = .ok rest value := by
  cases h : marker s with
  | ok rest' mark =>
    rw [preceded_negate_of_match h]
    simp
  | fail error =>
    rw [preceded_negate_of_fail h]
    simp
  | unfinished =>
    rw [preceded_negate_of_unfinished h]
    simp

/-! ## §2. The reply where the turns end. -/

/-- The reply where no further turn is possible, after turns with these values. -/
def tillReply (p : Parser ε α) (marker : Parser ε β) (values : List α) (r : List ε) :
    Reply ε (List α × β) :=
  match marker r with
  | .ok rest mark => .ok rest (values, mark)
  | .unfinished => .unfinished
  | .fail _ =>
      match p r with
      | .ok _ _ => .fail ⟨r, .manyTill⟩
      | .fail error => .fail error
      | .unfinished => .unfinished

/-- The turns end in a success exactly where the marker is. -/
theorem tillReply_eq_ok_iff {values vs : List α} {rest : List ε} {mark : β} :
    tillReply p marker values r = .ok rest (vs, mark) ↔
      values = vs ∧ marker r = .ok rest mark := by
  unfold tillReply
  cases marker r with
  | ok rest' mark' =>
    simp only [Reply.ok.injEq, Prod.mk.injEq]
    exact ⟨fun h => ⟨h.2.1, h.1, h.2.2⟩, fun h => ⟨h.2.1, h.1, h.2.2⟩⟩
  | fail error => cases p r <;> simp
  | unfinished => simp

/-- They end in a failure where the marker is not: it is the error of the parser, or one
of the loop where the parser matches without using anything up. -/
theorem tillReply_eq_fail_iff {values : List α} {error : ParseError ε} :
    tillReply p marker values r = .fail error ↔
      (∃ cause, marker r = .fail cause) ∧
        (p r = .fail error ∨ (∃ rest value, p r = .ok rest value) ∧ error = ⟨r, .manyTill⟩) := by
  unfold tillReply
  cases marker r with
  | ok rest' mark' => simp
  | fail cause => cases p r <;> simp [eq_comm]
  | unfinished => simp

/-- There is no answer where one of the two parsers gives none. -/
theorem tillReply_eq_unfinished_iff {values : List α} :
    tillReply p marker values r = .unfinished ↔
      marker r = .unfinished ∨ (∃ cause, marker r = .fail cause) ∧ p r = .unfinished := by
  unfold tillReply
  cases marker r with
  | ok rest' mark' => simp
  | fail cause => cases p r <;> simp
  | unfinished => simp

/-! ## §3. Turn after turn. -/

variable [Element ε]

/-- Along a chain of turns the loop collects the values. -/
theorem manyTillFrom_of_advances {steps : List (List ε × α)}
    (h : Advances (preceded (negate marker) p) s steps r) (done : List α) :
    manyTillFrom p marker done s =
      manyTillFrom p marker ((steps.map Prod.snd).reverse ++ done) r := by
  induction h generalizing done with
  | here s => rfl
  | step hmatch hless hrest ih =>
    obtain ⟨⟨error, hmarker⟩, hp⟩ := preceded_negate_eq_ok_iff.mp hmatch
    rw [manyTillFrom, hmarker]
    dsimp only
    rw [hp]
    dsimp only
    rw [if_pos hless, ih]
    simp

theorem manyTillFrom_of_stuck (h : Stuck (preceded (negate marker) p) r) (done : List α) :
    manyTillFrom p marker done r = tillReply p marker done.reverse r := by
  rw [manyTillFrom, tillReply]
  cases hmarker : marker r with
  | ok rest mark => rfl
  | unfinished => rfl
  | fail error =>
    dsimp only
    cases hp : p r with
    | ok rest value =>
      have hle := h rest value (preceded_negate_eq_ok_iff.mpr ⟨⟨error, hmarker⟩, hp⟩)
      exact if_neg (by omega)
    | fail error => rfl
    | unfinished => rfl

/-- **The reply is decided where the turns end.** -/
theorem manyTill_of_stuck {steps : List (List ε × α)}
    (h : Advances (preceded (negate marker) p) s steps r)
    (hstuck : Stuck (preceded (negate marker) p) r) :
    manyTill p marker s = tillReply p marker (steps.map Prod.snd) r := by
  rw [manyTill, manyTillFrom_of_advances h, manyTillFrom_of_stuck hstuck]
  simp

/-- The turns come to an end somewhere, since each of them shortens the input. -/
theorem exists_turns (p : Parser ε α) (marker : Parser ε β) (s : List ε) :
    ∃ steps r, Advances (preceded (negate marker) p) s steps r ∧
      Stuck (preceded (negate marker) p) r := by
  obtain ⟨steps, r, h⟩ := exists_maximal (preceded (negate marker) p) (nativeLen s) s
  exact ⟨steps, r, h.advances, h.stuck (Nat.le_refl _)⟩

/-- Where `p` makes no progress, no further turn is possible. -/
theorem Stuck.preceded_negate (h : Stuck p r) (marker : Parser ε β) :
    Stuck (preceded (negate marker) p) r := by
  intro rest value hok
  exact h rest value (preceded_negate_eq_ok_iff.mp hok).2

/-! ## §4. Up to the marker. -/

/-- On successes, the loop is `many0` of its turns and the marker behind them. -/
theorem manyTill_eq_ok_iff (p : Parser ε α) (marker : Parser ε β) {s : List ε}
    (hs : nativeLen s < Nat.pow 2 64) (rest : List ε) (values : List α) (mark : β) :
    manyTill p marker s = .ok rest (values, mark) ↔
      pair (many0 (preceded (negate marker) p)) marker s = .ok rest (values, mark) := by
  obtain ⟨steps, r, h⟩ := exists_maximal (preceded (negate marker) p) maxCount s
  have hstuck := h.stuck (le_maxCount hs)
  rw [manyTill_of_stuck h.advances hstuck, tillReply_eq_ok_iff, pair]
  constructor
  · rintro ⟨rfl, hmark⟩
    -- the marker matches at the end of the chain, so `many0` has an answer there
    have hturn := preceded_negate_of_match hmark p
    have hmany : many0 (preceded (negate marker) p) s = .ok r (steps.map Prod.snd) := by
      rw [many0_eq_ok_iff h, hturn]
      simp
    rw [hmany, Reply.andThen_ok, hmark, Reply.andThen_ok]
  · intro hpair
    cases hmany : many0 (preceded (negate marker) p) s with
    | ok t vs =>
      obtain ⟨rfl, rfl, _⟩ := (many0_eq_ok_iff h).mp hmany
      rw [hmany, Reply.andThen_ok] at hpair
      cases hmark : marker t with
      | ok rest' mark' =>
        rw [hmark] at hpair
        cases hpair
        exact ⟨rfl, rfl⟩
      | fail error => rw [hmark] at hpair; cases hpair
      | unfinished => rw [hmark] at hpair; cases hpair
    | fail error => rw [hmany] at hpair; cases hpair
    | unfinished => rw [hmany] at hpair; cases hpair

/-- The failure of the loop is decided at the first place without a turn. -/
theorem manyTill_eq_fail_iff (p : Parser ε α) (marker : Parser ε β) (s : List ε)
    (error : ParseError ε) :
    manyTill p marker s = .fail error ↔
      ∃ steps r, Advances (preceded (negate marker) p) s steps r ∧
        (∃ cause, marker r = .fail cause) ∧
        (p r = .fail error ∨
          ∃ rest value, p r = .ok rest value ∧ nativeLen r ≤ nativeLen rest ∧
            error = ⟨r, .manyTill⟩) := by
  constructor
  · intro hfail
    obtain ⟨steps, r, hturns, hstuck⟩ := exists_turns p marker s
    rw [manyTill_of_stuck hturns hstuck, tillReply_eq_fail_iff] at hfail
    obtain ⟨⟨cause, hmarker⟩, hp⟩ := hfail
    refine ⟨steps, r, hturns, ⟨cause, hmarker⟩, hp.imp id ?_⟩
    rintro ⟨⟨rest, value, hok⟩, rfl⟩
    -- the match uses nothing up, since the turns had come to an end
    rw [← preceded_negate_of_fail hmarker p] at hok
    refine ⟨rest, value, ?_, hstuck rest value hok, rfl⟩
    rwa [preceded_negate_of_fail hmarker p] at hok
  · rintro ⟨steps, r, hturns, hmarker, hp | ⟨rest, value, hp, hle, rfl⟩⟩
    · have hstuck := (stuck_of_fail hp).preceded_negate marker
      rw [manyTill_of_stuck hturns hstuck, tillReply_eq_fail_iff]
      exact ⟨hmarker, .inl hp⟩
    · have hstuck := (stuck_of_match hp hle).preceded_negate marker
      rw [manyTill_of_stuck hturns hstuck, tillReply_eq_fail_iff]
      exact ⟨hmarker, .inr ⟨⟨rest, value, hp⟩, rfl⟩⟩

/-- The loop always ends: it gives no answer only if one of its parsers gives
none at the place where the turns end. -/
theorem manyTill_eq_unfinished (p : Parser ε α) (marker : Parser ε β) (s : List ε)
    (h : manyTill p marker s = .unfinished) :
    ∃ steps r, Advances (preceded (negate marker) p) s steps r ∧
      (marker r = .unfinished ∨ p r = .unfinished) := by
  obtain ⟨steps, r, hturns, hstuck⟩ := exists_turns p marker s
  rw [manyTill_of_stuck hturns hstuck, tillReply_eq_unfinished_iff] at h
  exact ⟨steps, r, hturns, h.imp id And.right⟩

/-- **`manyTill p marker` is: `p` as long as the marker does not match, and then
the marker.**  It ends; it succeeds exactly when that composition does, and with
the same rest and values; and it fails at the first place where the marker fails
and `p` does not make progress, with the failure of `p` there, or with one of
its own if `p` matches there and uses nothing up. -/
theorem manyTill_is_many0_and_the_marker (p : Parser ε α) (marker : Parser ε β) (s : List ε)
    (hs : nativeLen s < Nat.pow 2 64) :
    (manyTill p marker s = .unfinished →
      ∃ steps r, Advances (preceded (negate marker) p) s steps r ∧
        (marker r = .unfinished ∨ p r = .unfinished)) ∧
    (∀ rest values mark, manyTill p marker s = .ok rest (values, mark) ↔
      pair (many0 (preceded (negate marker) p)) marker s = .ok rest (values, mark)) ∧
    ∀ error, manyTill p marker s = .fail error ↔
      ∃ steps r, Advances (preceded (negate marker) p) s steps r ∧
        (∃ cause, marker r = .fail cause) ∧
        (p r = .fail error ∨
          ∃ rest value, p r = .ok rest value ∧ nativeLen r ≤ nativeLen rest ∧
            error = ⟨r, .manyTill⟩) :=
  ⟨manyTill_eq_unfinished p marker s, manyTill_eq_ok_iff p marker hs,
    manyTill_eq_fail_iff p marker s⟩

/-- Letters, one of them two bytes wide, as many as there are. -/
def letters : Parser Char (List Char) := takeWhile fun c => c == 'é' || c == 'a'

/-- Letters up to a semicolon; and letters that a digit follows, on which they
match without using anything up. -/
theorem letters_until_semicolon :
    (nativeLen ['é', 'a', ';', 'x'] < Nat.pow 2 64 ∧
      manyTill letters (char ';') ['é', 'a', ';', 'x'] = .ok ['x'] ([['é', 'a']], ';')) ∧
    (nativeLen ['é', '1', ';'] < Nat.pow 2 64 ∧
      manyTill letters (char ';') ['é', '1', ';'] = .fail ⟨['1', ';'], .manyTill⟩) := by
  have hok : nativeLen ['é', 'a', ';', 'x'] < Nat.pow 2 64 := by decide
  have hfail : nativeLen ['é', '1', ';'] < Nat.pow 2 64 := by decide
  refine ⟨⟨hok, ?_⟩, hfail, ?_⟩
  · exact ((manyTill_is_many0_and_the_marker letters (char ';') _ hok).2.1 _ _ _).mpr rfl
  · refine ((manyTill_is_many0_and_the_marker letters (char ';') _ hfail).2.2 _).mpr ?_
    refine ⟨[(['é', '1', ';'], ['é'])], ['1', ';'], ?_, ⟨⟨['1', ';'], .char⟩, rfl⟩, .inr ?_⟩
    · exact .step rfl (by decide) (.here _)
    · exact ⟨['1', ';'], [], rfl, Nat.le_refl _, rfl⟩

end Parsing.Parser
