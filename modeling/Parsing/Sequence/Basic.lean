/-
  Parsing.Sequence.Basic — SEQUENCES, COUNTS AND OFFSETS.

  What is parsed is a list of elements: the characters of a text, the bytes of
  a block, or tokens of any kind.  A *count* is a number of elements.  An
  *offset* is a distance in native units, of which an element of type `ε`
  takes `Element.width`: a character as many as its UTF-8 form has bytes, a
  byte and a token one.

  An offset is a *boundary* of a sequence when a prefix of the sequence is
  exactly that wide.  Sequences are cut at boundaries only: `offsetAt` and
  `elementIndices` give boundaries, and `clampOffset` brings any number down to
  the nearest one.
-/

namespace Parsing

/-- An element of a sequence: its width in native units, and the number that
stands for it. -/
class Element (ε : Type) where
  /-- How many native units the element takes. -/
  width : ε → Nat
  width_pos : ∀ e, 0 < width e
  /-- The number that stands for the element. -/
  code : ε → Int
  /-- What a cut inside an element, or beyond the end, comes to.  Such a cut
  has no meaning and none is ever made, so nothing may depend on this field. -/
  torn : List ε → Nat → List ε × List ε := fun s _ => (s, [])

/-- A character is as wide as its UTF-8 form and is numbered by its code point. -/
instance : Element Char where
  width := Char.utf8Size
  width_pos := Char.utf8Size_pos
  code c := c.toNat

/-- A byte is one unit wide and stands for itself. -/
instance : Element UInt8 where
  width _ := 1
  width_pos _ := Nat.one_pos
  code b := b.toNat

/-- A number token is one unit wide and stands for itself. -/
instance : Element Int where
  width _ := 1
  width_pos _ := Nat.one_pos
  code n := n

namespace Sequence

variable {ε : Type} [Element ε]

open Element (width torn)

/-! ## §1. Lengths and offsets. -/

/-- The width of a whole sequence. -/
def nativeLen : List ε → Nat
  | [] => 0
  | e :: s => width e + nativeLen s

/-- The elements, each with the offset at which it starts. -/
def elementIndices (s : List ε) : List (Nat × ε) := go 0 s
where
  /-- The same for a sequence that itself starts at offset `base`. -/
  go (base : Nat) : List ε → List (Nat × ε)
    | [] => []
    | e :: s => (base, e) :: go (base + width e) s

/-- The offset just past the first `n` elements, if there are that many. -/
def offsetAt : (n : Nat) → List ε → Option Nat
  | 0, _ => some 0
  | _ + 1, [] => none
  | n + 1, e :: s => (offsetAt n s).map (width e + ·)

/-- The greatest boundary that is not past `offset`. -/
def clampOffset : List ε → (offset : Nat) → Nat
  | [], _ => 0
  | e :: s, offset =>
      if width e ≤ offset then width e + clampOffset s (offset - width e) else 0

/-- The distance from the start of `s` to `rest`, told from their lengths
alone.  It is exact when `rest` is a suffix of `s`, and a boundary always. -/
def offsetOf (s rest : List ε) : Nat := clampOffset s (nativeLen s - nativeLen rest)

/-! ## §2. Cutting. -/

/-- The two parts of a sequence at a boundary; nothing elsewhere. -/
def cut? : List ε → (offset : Nat) → Option (List ε × List ε)
  | s, 0 => some ([], s)
  | [], _ + 1 => none
  | e :: s, offset + 1 =>
      if width e ≤ offset + 1 then
        (cut? s (offset + 1 - width e)).map fun parts => (e :: parts.1, parts.2)
      else none

/-- The two parts of a sequence at an offset that is a boundary of it. -/
def splitAt (s : List ε) (offset : Nat) : List ε × List ε := (cut? s offset).getD (torn s offset)

/-- The empty sequence at the front of `s`. -/
def front (s : List ε) : List ε := (splitAt s 0).1

/-! ## §3. What parsers are made of. -/

/-- The first `n` elements and what follows them, if there are that many. -/
def take? (s : List ε) (n : Nat) : Option (List ε × List ε) := (offsetAt n s).map (splitAt s)

/-- The first element and what follows it. -/
def next? (s : List ε) : Option (ε × List ε) :=
  match s.head?, take? s 1 with
  | some e, some (_, rest) => some (e, rest)
  | _, _ => none

/-- What of `original` was used up to get to `rest`. -/
def consumed (original rest : List ε) : List ε := (splitAt original (offsetOf original rest)).1

/-- The offset of the first element that does not satisfy `p`, or of the end. -/
def spanWhile (p : ε → Bool) : List ε → Nat
  | [] => 0
  | e :: s => if p e then width e + spanWhile p s else 0

/-- The offset of the first element at which the sequence from there on
satisfies `p`; the empty sequence at the end is not tried. -/
def findOffset? (p : List ε → Bool) : List ε → Option Nat
  | [] => none
  | e :: s => if p (e :: s) then some 0 else (findOffset? p s).map (width e + ·)

end Sequence

end Parsing
