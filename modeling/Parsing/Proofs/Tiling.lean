/-
  Parsing.Proofs.Tiling — WHAT IS USED UP, PIECE BY PIECE.

  `recognize` and `consumed` tell what a parser used up.  They do not record it
  while the parser runs: they take the width of what is left from the width of
  the input, and cut the input there.  For a parser that leaves suffixes of its
  inputs the cut is exact, and so the pieces used up by parsers that run one
  after another lie side by side: put together, they are what the whole used
  up, with nothing between them and nothing twice.

  Nothing else is asked of a parser, neither of its values nor of its errors.

  Main statements:
    * `consumed_of_append`, `recognize_of_append` — what one parser used up;
    * `recognize_pair`, `recognize_multiple` — parsers in turn;
    * `Advances.recognized`, `recognize_manyBounded` — a repetition;
    * `slices_tile_the_input`, which puts these together.
-/
import Parsing.Proofs.InTurn
import Parsing.Proofs.Onward.Combinators
import Parsing.Proofs.Progress.Basic

namespace Parsing.Parser

variable {ε α β : Type}

/-! ## §1. Parsers that leave suffixes. -/

/-- What a success leaves is a suffix of the input. -/
def LeavesSuffix (p : Parser ε α) : Prop := ∀ s rest value, p s = .ok rest value → rest <:+ s

/-- Onward parsers do so, and their errors say more. -/
theorem Onward.leavesSuffix {p : Parser ε α} (hp : p.Onward) : LeavesSuffix p :=
  fun _ _ _ => hp.rest_suffix

namespace LeavesSuffix

variable {p : Parser ε α} {q : Parser ε β}

theorem map (f : α → β) (hp : LeavesSuffix p) : LeavesSuffix (Parser.map f p) := by
  intro s rest value h
  obtain ⟨a, hok, _⟩ := Reply.map_eq_ok h
  exact hp s rest a hok

/-- A suffix of a suffix is one. -/
theorem pair (hp : LeavesSuffix p) (hq : LeavesSuffix q) : LeavesSuffix (Parser.pair p q) := by
  intro s r value h
  obtain ⟨t, a, hok, hpair⟩ := Reply.andThen_eq_ok h
  obtain ⟨r', b, hok', hvalue⟩ := Reply.andThen_eq_ok hpair
  cases hvalue
  exact (hq t r b hok').trans (hp s t a hok)

end LeavesSuffix

/-- A list of parsers is its first one and the others, as a pair. -/
theorem multiple_cons_eq_pair (p : Parser ε α) (ps : List (Parser ε α)) :
    multiple (p :: ps) = map (fun v => v.1 :: v.2) (pair p (multiple ps)) := by
  funext s
  rw [multiple_cons]
  simp only [map, pair, Reply.map, Reply.andThen_assoc, Reply.andThen_ok]

theorem LeavesSuffix.multiple {ps : List (Parser ε α)} (hps : ∀ q ∈ ps, LeavesSuffix q) :
    LeavesSuffix (Parser.multiple ps) := by
  induction ps with
  | nil =>
    intro s rest value h
    cases h
    exact List.suffix_refl s
  | cons p ps ih =>
    have hhead : LeavesSuffix p := hps p List.mem_cons_self
    have htail : LeavesSuffix (Parser.multiple ps) :=
      ih fun q hq => hps q (List.mem_cons_of_mem p hq)
    rw [multiple_cons_eq_pair]
    exact (hhead.pair htail).map _

/-! ## §2. What one parser used up. -/

variable [Element ε] {p : Parser ε α} {q : Parser ε β} {s r c : List ε} {value : α}

/-- A success on a split input has used up its front. -/
theorem consumed_of_append (h : p s = .ok r value) (hc : c ++ r = s) :
    consumed p s = .ok r (c, value) := by
  unfold consumed
  rw [h, Reply.andThen_ok, ← hc, Sequence.consumed_append]

/-- What is recognized is what the match used up. -/
theorem recognize_of_match (h : p s = .ok r value) :
    recognize p s = .ok r (Sequence.consumed s r) := by
  unfold recognize
  rw [h, Reply.andThen_ok]

/-- On a split input that is its front. -/
theorem recognize_of_append (h : p s = .ok r value) (hc : c ++ r = s) :
    recognize p s = .ok r c := by
  rw [recognize_of_match h, ← hc, Sequence.consumed_append]

theorem consumed_of_fail {error : ParseError ε} (h : p s = .fail error) :
    consumed p s = .fail error := by
  unfold consumed
  rw [h, Reply.andThen_fail]

theorem recognize_of_fail {error : ParseError ε} (h : p s = .fail error) :
    recognize p s = .fail error := by
  unfold recognize
  rw [h, Reply.andThen_fail]

/-- What is used up does not depend on the value. -/
theorem recognize_map (f : α → β) (p : Parser ε α) : recognize (map f p) = recognize p := by
  funext s
  unfold recognize map
  cases p s <;> rfl

/-! ## §3. Parsers in turn. -/

/-- **Two pieces, side by side.** -/
theorem recognize_pair (hp : LeavesSuffix p) (hq : LeavesSuffix q) (s : List ε) :
    recognize (pair p q) s = (pair (recognize p) (recognize q) s).map fun v => v.1 ++ v.2 := by
  cases hps : p s with
  | ok t a =>
    cases hqt : q t with
    | ok r b =>
      simp only [recognize, pair, hps, hqt, Reply.andThen_ok, Reply.map_ok]
      rw [Sequence.consumed_trans (hp s t a hps) (hq t r b hqt)]
    | fail error =>
      simp only [recognize, pair, hps, hqt, Reply.andThen_ok, Reply.andThen_fail, Reply.map_fail]
    | unfinished =>
      simp only [recognize, pair, hps, hqt, Reply.andThen_ok, Reply.andThen_unfinished,
        Reply.map_unfinished]
  | fail error => simp only [recognize, pair, hps, Reply.andThen_fail, Reply.map_fail]
  | unfinished => simp only [recognize, pair, hps, Reply.andThen_unfinished, Reply.map_unfinished]

/-- **The pieces of a list of parsers, one after another.** -/
theorem recognize_multiple {ps : List (Parser ε α)} (hps : ∀ q ∈ ps, LeavesSuffix q)
    (s : List ε) :
    recognize (multiple ps) s = (multiple (ps.map recognize) s).map List.flatten := by
  induction ps generalizing s with
  | nil =>
    show Reply.ok s (Sequence.consumed s s) = .ok s []
    rw [Sequence.consumed_self]
  | cons p ps ih =>
    have hhead : LeavesSuffix p := hps p List.mem_cons_self
    have htail : ∀ q ∈ ps, LeavesSuffix q := fun q hq => hps q (List.mem_cons_of_mem p hq)
    have hpieces : recognize (multiple ps) = map List.flatten (multiple (ps.map recognize)) :=
      funext (ih htail)
    -- the first parser is recognized by itself, and the others by the induction
    calc
      recognize (multiple (p :: ps)) s
          = recognize (pair p (multiple ps)) s := by
            rw [multiple_cons_eq_pair, recognize_map]
      _ = (pair (recognize p) (recognize (multiple ps)) s).map (fun v => v.1 ++ v.2) :=
            recognize_pair hhead (.multiple htail) s
      _ = (pair (recognize p) (multiple (ps.map recognize)) s).map
            (fun v => v.1 ++ v.2.flatten) := by
            rw [hpieces, pair_map, Reply.map_map]
      _ = (multiple ((p :: ps).map recognize) s).map List.flatten := by
            rw [List.map_cons, multiple_cons_eq_pair, map_apply_map]
            rfl

/-! ## §4. A repetition. -/

/-- A chain of matches is also one of pieces, which together are what it used up. -/
theorem Advances.recognized {steps : List (List ε × α)} (hp : LeavesSuffix p)
    (h : Advances p s steps r) :
    r <:+ s ∧ ∃ pieces, Advances (recognize p) s pieces r ∧ pieces.length = steps.length ∧
      (pieces.map Prod.snd).flatten = Sequence.consumed s r := by
  induction h with
  | here s => exact ⟨List.suffix_refl s, [], .here s, rfl, (Sequence.consumed_self s).symm⟩
  | @step s rest r value steps hmatch hless hrest ih =>
    obtain ⟨hsuffix, pieces, hpieces, hlength, hflatten⟩ := ih
    have hrests : rest <:+ s := hp s rest value hmatch
    refine ⟨hsuffix.trans hrests, (s, Sequence.consumed s rest) :: pieces,
      .step (recognize_of_match hmatch) hless hpieces, ?_, ?_⟩
    · rw [List.length_cons, List.length_cons, hlength]
    · rw [List.map_cons, List.flatten_cons, hflatten, Sequence.consumed_trans hrests hsuffix]

/-- Recognizing instead of parsing does not help where a parser is stuck. -/
theorem stuck_recognize (h : Stuck p r) : Stuck (recognize p) r := by
  intro rest piece hok
  obtain ⟨t, value, hmatch, heq⟩ := Reply.andThen_eq_ok hok
  cases heq
  exact h rest value hmatch

/-- The maximal chain of a parser is one of what it recognizes, and its pieces put
together are what the chain used up. -/
theorem Maximal.recognized {limit : Nat} {steps : List (List ε × α)} (hp : LeavesSuffix p)
    (h : Maximal p limit s steps r) :
    ∃ pieces, Maximal (recognize p) limit s pieces r ∧ pieces.length = steps.length ∧
      (pieces.map Prod.snd).flatten = Sequence.consumed s r := by
  obtain ⟨_, pieces, hpieces, hlength, hflatten⟩ := h.advances.recognized hp
  refine ⟨pieces, ⟨hpieces, ?_, ?_⟩, hlength, hflatten⟩
  · rw [hlength]
    exact h.within
  · rw [hlength, final_iff]
    exact (final_iff.mp h.final).imp id stuck_recognize

/-- A repetition of pieces stops for the same reason. -/
theorem stopAt_recognize (p : Parser ε α) (limit : Nat) (r : List ε) :
    stopAt (recognize p) limit r = stopAt p limit r := by
  cases limit with
  | zero => rfl
  | succ limit =>
    cases hp : p r <;>
      simp only [stopAt, recognize, hp, Reply.andThen_ok, Reply.andThen_fail,
        Reply.andThen_unfinished]

/-- **The pieces of a repetition, one after another.** -/
theorem recognize_manyBounded (hp : LeavesSuffix p) (limit : Nat) (s : List ε) :
    recognize (manyBounded 0 limit p) s =
      (manyBounded 0 limit (recognize p) s).map List.flatten := by
  obtain ⟨steps, r, h⟩ := exists_maximal p limit s
  obtain ⟨pieces, hpieces, hlength, hflatten⟩ := h.recognized hp
  unfold recognize
  rw [manyBounded_of_maximal h]
  show _ = (manyBounded 0 limit (recognize p) s).map List.flatten
  rw [manyBounded_of_maximal hpieces, hlength, stopAt_recognize]
  cases stopAt p (limit - steps.length) r with
  | unfinished => rfl
  | _ => exact congrArg (Reply.ok r) hflatten.symm

/-! ## §5. All together. -/

/-- **What is used up tiles the input.**  If a parser that leaves suffixes
succeeds, there is something that together with what it left makes up the
input, and that is what `recognize` yields, and `consumed` next to the value; a
failure is passed on by both.  What a list of such parsers uses up is what they
use up one by one, put together, with the same rest or the same failure; so it
is for a pair of parsers with values of different types, and for a repetition,
however often it matches. -/
theorem slices_tile_the_input (hp : LeavesSuffix p) (s : List ε) :
    (∀ r value, p s = .ok r value →
      (∃ c, c ++ r = s) ∧
        ∀ c, c ++ r = s →
          consumed p s = .ok r (c, value) ∧ recognize p s = .ok r c) ∧
    (∀ error, p s = .fail error →
      consumed p s = .fail error ∧ recognize p s = .fail error) ∧
    (∀ ps : List (Parser ε α), (∀ q ∈ ps, LeavesSuffix q) →
      recognize (multiple ps) s = (multiple (ps.map recognize) s).map List.flatten) ∧
    (∀ (β : Type) (q : Parser ε β), LeavesSuffix q →
      recognize (pair p q) s =
        (pair (recognize p) (recognize q) s).map fun v => v.1 ++ v.2) ∧
    recognize (many0 p) s = (many0 (recognize p) s).map List.flatten := by
  refine ⟨fun r value hok => ⟨hp s r value hok, fun c hc => ?_⟩, fun error hfail => ?_,
    fun ps hps => recognize_multiple hps s, fun β q hq => recognize_pair hp hq s,
    recognize_manyBounded hp maxCount s⟩
  · exact ⟨consumed_of_append hok hc, recognize_of_append hok hc⟩
  · exact ⟨consumed_of_fail hfail, recognize_of_fail hfail⟩

/-- Pieces of characters that are one, two and three bytes wide: of one parser,
of two in turn, and of a repetition that leaves a character over. -/
theorem wide_characters_are_tiled :
    LeavesSuffix (take 2 : Parser Char (List Char)) ∧
    consumed (take 2) ['日', 'é', 'x'] = .ok ['x'] (['日', 'é'], ['日', 'é']) ∧
    (∀ q ∈ [take 2, (take 1 : Parser Char (List Char))], LeavesSuffix q) ∧
    recognize (multiple [take 2, take 1]) ['日', 'é', 'x', 'y'] = .ok ['y'] ['日', 'é', 'x'] ∧
    recognize (many0 (take 2)) ['日', 'é', 'x', 'y', '本'] =
      .ok ['本'] ['日', 'é', 'x', 'y'] := by
  have htake : ∀ n, LeavesSuffix (take n : Parser Char (List Char)) :=
    fun n => (onward_take n).leavesSuffix
  have hboth : ∀ q ∈ [take 2, (take 1 : Parser Char (List Char))], LeavesSuffix q := by
    intro q hq
    simp only [List.mem_cons, List.not_mem_nil, or_false] at hq
    rcases hq with rfl | rfl
    · exact htake 2
    · exact htake 1
  refine ⟨htake 2, ?_, hboth, ?_, ?_⟩
  · exact (((slices_tile_the_input (htake 2) _).1 ['x'] ['日', 'é'] rfl).2 ['日', 'é'] rfl).1
  · exact (slices_tile_the_input (htake 2) _).2.2.1 _ hboth
  · exact (slices_tile_the_input (htake 2) _).2.2.2.2

end Parsing.Parser
