/-
  Parsing.Proofs.Nesting — ERRORS INSIDE PARTS OF AN INPUT.

  `lengthValue` and `mapParser` run a parser inside a part of the input, a
  block, and tell its errors as errors in the whole.  An error is carried over
  by `rebase`, which measures in native units how far into the block it was and
  cuts the whole there.  If the block starts where the whole starts, this is
  exact: an error at a suffix `e` of the block becomes one at `e` followed by
  all that follows the block.

  Such *layers* can be nested to any depth, and then the place of an error is
  still the element at which the innermost parser failed.

  Main statements: `rebase_append` (one step of carrying over),
  `Layer.around_fail` (one layer), `nest_fail` (any number of them) and
  `nested_error_is_positioned`, which puts these together.
-/
import Parsing.Parser.Framing
import Parsing.Parser.Sequencing
import Parsing.Proofs.Span

namespace Parsing

variable {ε α β : Type} [Element ε]

/-! ## §1. Carrying an error over. -/

/-- What follows the block is carried along and does nothing else. -/
theorem ParseError.rebase_append {block e : List ε} (he : e <:+ block) (after : List ε)
    (kind : Kind) :
    (⟨e, kind⟩ : ParseError ε).rebase block (block ++ after) = ⟨e ++ after, kind⟩ := by
  obtain ⟨d, rfl⟩ := he
  rw [rebase, Sequence.offsetOf_append, List.append_assoc, Sequence.clampOffset_nativeLen,
    Sequence.splitAt_nativeLen]

namespace Parser

/-! ## §2. One layer. -/

/-- An error in the block of a frame is one as far behind the prefix. -/
theorem lengthValue_fail [AsLength α] {counter : Parser ε α} {p : Parser ε β}
    {s block after e : List ε} {value : α} {kind : Kind}
    (hcounter : counter s = .ok (block ++ after) value)
    (hlength : AsLength.asLength? value = some block.length)
    (hp : p block = .fail ⟨e, kind⟩) (he : e <:+ block) :
    lengthValue counter p s = .fail ⟨e ++ after, kind⟩ := by
  rw [lengthValue, readLength, hcounter, Reply.andThen_ok, hlength, Reply.convert_some,
    Reply.andThen_ok, take_append, Reply.andThen_ok, hp, Reply.mapError_fail,
    ParseError.rebase_append he after kind, Reply.andThen_fail]

/-- An error in a slice with which the input begins is one as far into the input. -/
theorem mapParser_fail {outer : Parser ε (List ε)} {inner : Parser ε β}
    {slice after rest e : List ε} {kind : Kind}
    (houter : outer (slice ++ after) = .ok rest slice)
    (hinner : inner slice = .fail ⟨e, kind⟩) (he : e <:+ slice) :
    mapParser outer inner (slice ++ after) = .fail ⟨e ++ after, kind⟩ := by
  rw [mapParser, houter, Reply.andThen_ok, hinner, Reply.mapError_fail,
    ParseError.rebase_append he after kind, Reply.andThen_fail]

/-- A combinator that runs a parser inside a part of its input. -/
inductive Layer (ε : Type) : Type 1 where
  /-- Inside as many elements as a prefix says. -/
  | frame {α : Type} [AsLength α] (counter : Parser ε α)
  /-- Inside the slice that another parser yields. -/
  | slice (outer : Parser ε (List ε))

namespace Layer

/-- The parser that runs `p` inside the part. -/
def around : Layer ε → Parser ε β → Parser ε β
  | frame counter, p => lengthValue counter p
  | slice outer, p => mapParser outer p

/-- Run on `s`, the layer runs its parser on `block`, which `after` follows;
what a prefix takes up lies in front of both. -/
inductive Opens : Layer ε → (s block after : List ε) → Prop where
  | frame {α : Type} [AsLength α] {counter : Parser ε α} {front block after : List ε} {value : α}
      (hcounter : counter (front ++ (block ++ after)) = .ok (block ++ after) value)
      (hlength : AsLength.asLength? value = some block.length) :
      Opens (.frame counter) (front ++ (block ++ after)) block after
  | slice {outer : Parser ε (List ε)} {block after rest : List ε}
      (houter : outer (block ++ after) = .ok rest block) :
      Opens (.slice outer) (block ++ after) block after

omit [Element ε] in
/-- The block and what follows it are the end of what the layer ran on. -/
theorem Opens.suffix {layer : Layer ε} {s block after : List ε} (h : layer.Opens s block after) :
    block ++ after <:+ s := by
  cases h with
  | frame => exact List.suffix_append _ _
  | slice => exact List.suffix_refl _

/-- **One layer**: its parser's error, and after it what follows the block. -/
theorem around_fail {layer : Layer ε} {p : Parser ε β} {s block after e : List ε} {kind : Kind}
    (h : layer.Opens s block after) (hp : p block = .fail ⟨e, kind⟩) (he : e <:+ block) :
    layer.around p s = .fail ⟨e ++ after, kind⟩ := by
  cases h with
  | frame hcounter hlength => exact lengthValue_fail hcounter hlength hp he
  | slice houter => exact mapParser_fail houter hp he

end Layer

/-! ## §3. Layers inside layers. -/

/-- The parser that runs `p` inside all the layers, the first of them outermost. -/
def nest : List (Layer ε) → Parser ε β → Parser ε β
  | [], p => p
  | layer :: layers, p => layer.around (nest layers p)

/-- Run on `s`, the layers run the innermost parser on `block`; `after` is what
follows it in all the blocks around it, up to the end of `s`. -/
inductive Opens : List (Layer ε) → (s block after : List ε) → Prop where
  | here (s : List ε) : Opens [] s s []
  | inside {layer : Layer ε} {layers : List (Layer ε)} {s block after inner tail : List ε}
      (hlayer : layer.Opens s block after) (hlayers : Opens layers block inner tail) :
      Opens (layer :: layers) s inner (tail ++ after)

omit [Element ε] in
/-- The innermost block and what follows it are the end of the input. -/
theorem Opens.suffix {layers : List (Layer ε)} {s block after : List ε}
    (h : Opens layers s block after) : block ++ after <:+ s := by
  induction h with
  | here s => simp
  | inside hlayer _ ih =>
    obtain ⟨front, hfront⟩ := ih
    refine List.IsSuffix.trans ⟨front, ?_⟩ hlayer.suffix
    rw [← hfront, List.append_assoc, List.append_assoc]

/-- **Any number of layers**: the error of the innermost parser, and after it
what follows the innermost block. -/
theorem nest_fail {layers : List (Layer ε)} {p : Parser ε β} {s block after e : List ε}
    {kind : Kind} (h : Opens layers s block after) (hp : p block = .fail ⟨e, kind⟩)
    (he : e <:+ block) : nest layers p s = .fail ⟨e ++ after, kind⟩ := by
  induction h with
  | here s => rw [nest, hp, List.append_nil]
  | @inside layer layers s block after inner tail hlayer hlayers ih =>
    have hsuffix : e ++ tail <:+ block := by
      obtain ⟨d, rfl⟩ := he
      have := hlayers.suffix
      rw [List.append_assoc] at this
      exact (List.suffix_append d (e ++ tail)).trans this
    rw [nest, Layer.around_fail hlayer (ih hp he) hsuffix, List.append_assoc]

/-- **Errors inside parts of the input are positioned exactly**, in a frame, in
a slice with which the input begins, and in any nesting of such layers: the
place is the element of the whole input at which the innermost parser failed.
In the input `front ++ (block ++ after)` that parser ran on `block` and failed
at `e`, so the place is `e ++ after`; `after` itself plays no part. -/
theorem nested_error_is_positioned :
    (∀ (α β : Type) [AsLength α] (counter : Parser ε α) (inner : Parser ε β)
      (s a block after e : List ε) (value : α) (n : Nat) (kind : Kind),
      counter s = .ok a value → AsLength.asLength? value = some n →
      a = block ++ after → block.length = n →
      inner block = .fail ⟨e, kind⟩ → e <:+ block →
      lengthValue counter inner s = .fail ⟨e ++ after, kind⟩) ∧
    (∀ (β : Type) (outer : Parser ε (List ε)) (inner : Parser ε β)
      (s rest slice after e : List ε) (kind : Kind),
      outer s = .ok rest slice → s = slice ++ after →
      inner slice = .fail ⟨e, kind⟩ → e <:+ slice →
      mapParser outer inner s = .fail ⟨e ++ after, kind⟩) ∧
    ∀ (β : Type) (layers : List (Layer ε)) (inner : Parser ε β) (s block after e : List ε)
      (kind : Kind),
      Opens layers s block after → inner block = .fail ⟨e, kind⟩ → e <:+ block →
      nest layers inner s = .fail ⟨e ++ after, kind⟩ ∧
        ∃ front, s = front ++ (block ++ after) := by
  refine ⟨?_, ?_, ?_⟩
  · rintro α β _ counter inner s _ block after e value _ kind hcounter hlength rfl rfl hinner he
    exact lengthValue_fail hcounter hlength hinner he
  · rintro β outer inner _ rest slice after e kind houter rfl hinner he
    exact mapParser_fail houter hinner he
  · intro β layers inner s block after e kind hopens hinner he
    obtain ⟨front, hfront⟩ := hopens.suffix
    exact ⟨nest_fail hopens hinner he, front, hfront.symm⟩

/-- A length, read from a fixed character. -/
def lengthFrom (digit : Char) (n : Nat) : Parser Char Nat := replaceValue n (char digit)

/-- Two letters, of which the first is two bytes wide. -/
def letterPair : Parser Char (Char × Char) := pair (char 'é') (char 'y')

/-- A frame of four characters with a frame of two in it, whose slice of two is
read as letters: the error is at the `x`, and three wide characters follow. -/
theorem letters_are_positioned :
    (lengthValue (lengthFrom '2' 2) letterPair ['2', 'é', 'x', '日'] = .fail ⟨['x', '日'], .char⟩ ∧
      mapParser (take 2) letterPair ['é', 'x', '日'] = .fail ⟨['x', '日'], .char⟩) ∧
    Opens [.frame (lengthFrom '4' 4), .frame (lengthFrom '2' 2), .slice (take 2)]
      ['4', '2', 'é', 'x', '日', '日', '日'] ['é', 'x'] ['日', '日', '日'] ∧
    nest [.frame (lengthFrom '4' 4), .frame (lengthFrom '2' 2), .slice (take 2)] letterPair
      ['4', '2', 'é', 'x', '日', '日', '日'] = .fail ⟨['x', '日', '日', '日'], .char⟩ ∧
    ∃ front, ['4', '2', 'é', 'x', '日', '日', '日'] = front ++ (['é', 'x'] ++ ['日', '日', '日']) := by
  have hletters : letterPair ['é', 'x'] = .fail ⟨['x'], .char⟩ := rfl
  have hx : ['x'] <:+ ['é', 'x'] := ⟨['é'], rfl⟩
  have hopens : Opens [.frame (lengthFrom '4' 4), .frame (lengthFrom '2' 2), .slice (take 2)]
      ['4', '2', 'é', 'x', '日', '日', '日'] ['é', 'x'] ['日', '日', '日'] := by
    have hslice : Layer.Opens (.slice (take 2)) ['é', 'x'] ['é', 'x'] [] :=
      @Layer.Opens.slice Char _ ['é', 'x'] [] [] rfl
    have hinner : Layer.Opens (.frame (lengthFrom '2' 2)) ['2', 'é', 'x', '日'] ['é', 'x'] ['日'] :=
      @Layer.Opens.frame Char Nat _ _ ['2'] ['é', 'x'] ['日'] 2 rfl rfl
    have houter : Layer.Opens (.frame (lengthFrom '4' 4)) ['4', '2', 'é', 'x', '日', '日', '日']
        ['2', 'é', 'x', '日'] ['日', '日'] :=
      @Layer.Opens.frame Char Nat _ _ ['4'] ['2', 'é', 'x', '日'] ['日', '日'] 4 rfl rfl
    exact .inside houter (.inside hinner (.inside hslice (.here ['é', 'x'])))
  have h := @nested_error_is_positioned Char _
  refine ⟨⟨?_, ?_⟩, hopens, ?_⟩
  · exact h.1 Nat _ (lengthFrom '2' 2) letterPair _ _ ['é', 'x'] ['日'] ['x'] 2 2 .char rfl rfl
      rfl rfl hletters hx
  · exact h.2.1 _ (take 2) letterPair _ ['日'] ['é', 'x'] ['日'] ['x'] .char rfl rfl hletters hx
  · exact h.2.2 _ _ letterPair _ _ _ ['x'] .char hopens hletters hx

end Parser

end Parsing
