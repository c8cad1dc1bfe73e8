/-
  Parsing.Proofs.Encode.Utf8 — A TEXT AND ITS UTF-8 BYTES.

  UTF-8 writes an ASCII character as one byte below 128, and any other one as a
  leading byte of 192 or more with continuation bytes from 128 to 191.  So a
  byte tells whether a character begins with it, and with its first byte a
  word tells its length: UTF-8 is prefix-free and self-synchronizing.

  A byte of 128 or more is taken for a character that is not ASCII, whichever
  it may be.  Every test that the parsers of ASCII classes, lines and number
  literals make comes out alike for such a byte and for a character that is
  not ASCII; for an ASCII character there is only one byte to test.

  Main statements: `prefixFree_utf8`, `selfSynchronizing_utf8`,
  `location_error` (an error is in the same line, at the same offset), and one
  lemma for each parser.
-/
import Parsing.Location
import Parsing.Parser.Number
import Parsing.Proofs.Encode.Span

namespace Parsing

namespace Encoding

/-- Characters as their UTF-8 bytes. -/
def utf8 : Encoding Char UInt8 where
  word := String.utf8EncodeChar
  word_ne_nil _ := String.utf8EncodeChar_ne_nil

/-! ## §1. Words. -/

/-- An ASCII character is one byte, its code. -/
theorem word_of_ascii {c : Char} (h : c.toNat < 128) :
    utf8.word c = [UInt8.ofNat c.toNat] := by
  show String.utf8EncodeChar c = _
  rw [String.utf8EncodeChar]
  exact if_pos (Nat.le_of_lt_succ h)

/-- A leading byte, and continuation bytes. -/
theorem word_of_wide {c : Char} (h : 128 ≤ c.toNat) :
    ∃ first more, utf8.word c = first :: more ∧ 192 ≤ first.toNat ∧
      ∀ b ∈ more, 128 ≤ b.toNat ∧ b.toNat < 192 := by
  have hc : ¬ c.val.toNat ≤ 127 := Nat.not_le_of_lt h
  show ∃ first more, String.utf8EncodeChar c = _ ∧ _
  simp only [String.utf8EncodeChar, if_neg hc]
  split
  next => exact ⟨_, _, rfl, by simp; omega, by simp; omega⟩
  next =>
    split
    next => exact ⟨_, _, rfl, by simp; omega, by simp; omega⟩
    next => exact ⟨_, _, rfl, by simp; omega, by simp; omega⟩

/-- A byte that begins a character, and bytes that go on with it. -/
theorem exists_word (c : Char) :
    ∃ first more, utf8.word c = first :: more ∧ (first.toNat < 128 ∨ 192 ≤ first.toNat) ∧
      ∀ b ∈ more, 128 ≤ b.toNat ∧ b.toNat < 192 := by
  by_cases h : c.toNat < 128
  · exact ⟨_, [], word_of_ascii h, .inl (by simp; omega), by simp⟩
  · obtain ⟨first, more, hword, hlead, hcont⟩ := word_of_wide (Nat.le_of_not_lt h)
    exact ⟨first, more, hword, .inr hlead, hcont⟩

/-- What holds of the one byte of an ASCII character, and of bytes that are not
ASCII for any other one, holds of all bytes of a word. -/
theorem forall_mem_word {c : Char} {P : UInt8 → Prop}
    (hascii : c.toNat < 128 → P (UInt8.ofNat c.toNat))
    (hwide : 128 ≤ c.toNat → ∀ b : UInt8, 128 ≤ b.toNat → P b) : ∀ b ∈ utf8.word c, P b := by
  intro b hb
  by_cases h : c.toNat < 128
  · rw [word_of_ascii h, List.mem_singleton] at hb
    subst hb
    exact hascii h
  · have hc := Nat.le_of_not_lt h
    obtain ⟨first, more, hword, hlead, hcont⟩ := word_of_wide hc
    rw [hword, List.mem_cons] at hb
    rcases hb with rfl | hb
    · exact hwide hc b (by omega)
    · exact hwide hc b (hcont b hb).1

/-- No character's encoding is a proper prefix of another's. -/
theorem prefixFree_utf8 : utf8.PrefixFree := by
  rintro a b ⟨more, hmore⟩
  -- the decoder reads either character from the longer word
  have ha : ((String.utf8EncodeChar a).toByteArray ++ more.toByteArray).utf8DecodeChar? 0 =
      some a := ByteArray.utf8DecodeChar?_utf8EncodeChar_append
  have hb : ((String.utf8EncodeChar b).toByteArray ++ ByteArray.empty).utf8DecodeChar? 0 =
      some b := ByteArray.utf8DecodeChar?_utf8EncodeChar_append
  rw [← List.toByteArray_append] at ha
  rw [ByteArray.append_empty] at hb
  have hwords : String.utf8EncodeChar a ++ more = String.utf8EncodeChar b := hmore
  rw [hwords, hb] at ha
  exact (Option.some.inj ha).symm

/-- No character's encoding begins inside another's, since only a first byte is not a
continuation byte. -/
theorem selfSynchronizing_utf8 : utf8.SelfSynchronizing := by
  intro a b first more hword hfirst
  obtain ⟨_, _, ha, hlead, _⟩ := exists_word a
  obtain ⟨_, _, hb, _, hcont⟩ := exists_word b
  rw [ha, List.cons.injEq] at hword
  obtain ⟨rfl, rfl⟩ := hword
  rw [hb, List.tail_cons] at hfirst
  have := hcont _ hfirst
  omega

/-! ## §2. Single bytes. -/

/-- The byte of an ASCII character stands for that character. -/
theorem toChar_ofNat {c : Char} (h : c.toNat < 128) :
    CharLike.toChar (UInt8.ofNat c.toNat) = c := by
  show Char.ofNat (UInt8.ofNat c.toNat).toNat = c
  rw [UInt8.toNat_ofNat', Nat.mod_eq_of_lt (by omega), Char.ofNat_toNat]

/-- The character of a byte has the byte's own code. -/
theorem toNat_toChar (b : UInt8) : (CharLike.toChar b).toNat = b.toNat := by
  have hb : b.toNat < 256 := b.toNat_lt
  show (Char.ofNat b.toNat).toNat = b.toNat
  rw [Char.ofNat, dif_pos (.inl (by omega))]
  rfl

/-- Membership in an ASCII table. -/
theorem inTable_word (table : List Char) (c : Char) :
    ∀ b ∈ utf8.word c, CharLike.inTable table b = CharLike.inTable table c := by
  refine forall_mem_word (fun h => ?_) fun h b hb => ?_
  · rw [CharLike.inTable, toChar_ofNat h]
    rfl
  · have hb' : ¬ (CharLike.toChar b).toNat < 128 := by rw [toNat_toChar]; omega
    have hc' : ¬ (CharLike.toChar c).toNat < 128 := Nat.not_lt_of_le h
    simp [CharLike.inTable, hb', hc']

/-- Equality with an ASCII character. -/
theorem beq_ofByte_word {k : UInt8} (hk : k.toNat < 128) (c : Char) :
    ∀ b ∈ utf8.word c, (b == CharLike.ofByte k) = (c == CharLike.ofByte k) := by
  have hkChar : (CharLike.ofByte k : Char).toNat = k.toNat := toNat_toChar k
  -- an ASCII character is one byte; the bytes of any other one are none of ASCII
  refine forall_mem_word (fun h => ?_) fun h b hb => ?_
  · rw [Bool.eq_iff_iff, beq_iff_eq, beq_iff_eq, ← Char.toNat_inj, hkChar, ← UInt8.toNat_inj,
      UInt8.toNat_ofNat', Nat.mod_eq_of_lt (by omega)]
    rfl
  · have hb' : b ≠ CharLike.ofByte k := by
      rintro rfl
      exact absurd hb (Nat.not_le_of_lt hk)
    have hc' : c ≠ CharLike.ofByte k := by
      rintro rfl
      omega
    rw [beq_eq_false_iff_ne.mpr hb', beq_eq_false_iff_ne.mpr hc']

/-! ## §3. Widths and lines. -/

/-- The width of a text is the number of its bytes, so offsets on both sides count the
same. -/
theorem nativeLen_utf8 (s : List Char) :
    Sequence.nativeLen (utf8.sequence s) = Sequence.nativeLen s := by
  have hbytes : ∀ bytes : List UInt8, Sequence.nativeLen bytes = bytes.length :=
    Sequence.nativeLen_of_unit fun _ => rfl
  induction s with
  | nil => rfl
  | cons c s ih =>
    rw [sequence_cons, Sequence.nativeLen_append, ih, hbytes, Sequence.nativeLen_cons]
    exact congrArg (· + _) (String.length_utf8EncodeChar c)

/-- A byte is a newline exactly if its character is. -/
theorem isNewline_word (c : Char) :
    ∀ b ∈ utf8.word c, CharLike.isNewline b = CharLike.isNewline c := by
  have hbyte : ∀ b : UInt8, CharLike.isNewline b = (b == CharLike.ofByte 10) := by
    intro b
    rw [CharLike.isNewline, Bool.eq_iff_iff, decide_eq_true_iff, beq_iff_eq, ← Char.toNat_inj,
      toNat_toChar, ← UInt8.toNat_inj]
    rfl
  intro b hb
  rw [hbyte, beq_ofByte_word (by decide) c b hb]
  rfl

/-- A text has as many newlines as its bytes. -/
theorem countP_isNewline_utf8 (s : List Char) :
    (utf8.sequence s).countP CharLike.isNewline = s.countP CharLike.isNewline := by
  induction s with
  | nil => rfl
  | cons c s ih =>
    rw [sequence_cons, List.countP_append, ih, List.countP_cons, Nat.add_comm]
    congr 1
    -- a newline is one byte, and no other character has that byte
    cases hc : CharLike.isNewline c with
    | true =>
      obtain rfl : c = '\n' := of_decide_eq_true hc
      rfl
    | false =>
      rw [List.countP_eq_zero.mpr fun b hb => by simp [isNewline_word c b hb, hc]]
      rfl

/-- An error in a text and the error at that place of its bytes are in the same
line, and at the same offset. -/
theorem location_error {s : List Char} {e : ParseError Char} (h : e.rest <:+ s) :
    ((utf8.error e).location (utf8.sequence s)).line = (e.location s).line ∧
      ((utf8.error e).location (utf8.sequence s)).offset = (e.location s).offset := by
  constructor
  · show (Position.start.after _).line = (Position.start.after _).line
    rw [Position.line_after, Position.line_after, Encoding.error, utf8.consumed_sequence h,
      countP_isNewline_utf8]
  · obtain ⟨used, rfl⟩ := h
    show Sequence.offsetOf _ (utf8.sequence e.rest) = Sequence.offsetOf _ e.rest
    rw [sequence_append, Sequence.offsetOf_append, Sequence.offsetOf_append, nativeLen_utf8]

/-- The bytes of an ASCII text stand for its characters. -/
theorem render_utf8 {s : List Char} (h : ∀ c ∈ s, c.toNat < 128) :
    CharLike.render (utf8.sequence s) = CharLike.render s := by
  induction s with
  | nil => rfl
  | cons c s ih =>
    have hc := h c List.mem_cons_self
    have hs := ih fun d hd => h d (List.mem_cons_of_mem _ hd)
    rw [CharLike.render, CharLike.render] at hs ⊢
    rw [sequence_cons, word_of_ascii hc, List.map_append, hs, List.map_singleton, toChar_ofNat hc]
    rfl

end Encoding

/-! ## §4. Classes, lines and number literals. -/

namespace Parser

open Encoding

/-- A class of ASCII characters takes the same stretch of a text and of its bytes. -/
theorem encoded_class0 (c : CharClass) :
    Encoded utf8 (fun v w => w = utf8.sequence v) (class0 c) (class0 c) :=
  encoded_takeWhile (inTable_word c.table)

theorem encoded_class1 (c : CharClass) :
    Encoded utf8 (fun v w => w = utf8.sequence v) (class1 c) (class1 c) :=
  encoded_takeWhileSome (inTable_word c.table) c.kind

/-- An ASCII character is read as its one byte. -/
theorem encoded_char {k : UInt8} (hk : k.toNat < 128) :
    Encoded utf8 (fun c b => utf8.word c = [b]) (char (CharLike.ofByte k))
      (char (CharLike.ofByte k)) := by
  refine encoded_element (beq_ofByte_word hk) .char fun c hc => ?_
  obtain rfl := beq_iff_eq.mp hc
  exact ⟨_, word_of_ascii (lt_of_eq_of_lt (toNat_toChar k) hk)⟩

/-- A carriage return and a line feed are two bytes, in the same order. -/
theorem encoded_crlf : Encoded utf8 (fun v w => w = utf8.sequence v) crlf crlf :=
  (encoded_tag prefixFree_utf8 [CharLike.ofByte 13, CharLike.ofByte 10]).mapKind .crlf

theorem encoded_lineEnding :
    Encoded utf8 (fun v w => w = utf8.sequence v) lineEnding lineEnding := by
  have hnewline : Encoded utf8 _ newline newline := encoded_char (by decide)
  exact ((hnewline.recognize (onward_element .char _)).orElse encoded_crlf).mapKind .crlf

/-- The text of a line stops at the same place, since no byte of a wider character is one
of the two that end it. -/
theorem encoded_notLineEnding :
    Encoded utf8 (fun v w => w = utf8.sequence v) notLineEnding notLineEnding := by
  refine encoded_takeWhile fun c b hb => ?_
  rw [bne, bne, bne, bne, beq_ofByte_word (by decide) c b hb, beq_ofByte_word (by decide) c b hb]

/-- A number literal over a table of ASCII characters reads the same value from the
bytes, for any reading of its characters. -/
theorem encoded_literal {α : Type} (table : List Char) (kind : Kind)
    (read : List Char → Option α) :
    Encoded utf8 Eq (literal table kind read) (literal table kind read) := by
  intro s
  refine (encoded_takeWhileSome (inTable_word table) kind s).andThen
    fun rest run bytes h hbytes => ?_
  subst hbytes
  -- the run is made of characters of the table, which are ASCII
  have hascii : ∀ c ∈ run, c.toNat < 128 := by
    intro c hc
    rw [takeWhileSome_apply] at h
    split at h
    next => cases h
    next =>
      cases h
      exact (CharLike.inTable_iff.mp (List.all_eq_true.mp List.all_takeWhile c hc)).1
  rw [render_utf8 hascii]
  cases (Numeral.withoutSeparators? (CharLike.render run)).bind read with
  | none => exact .fail ⟨s, kind⟩
  | some value => exact .ok rest rfl

end Parser

end Parsing
