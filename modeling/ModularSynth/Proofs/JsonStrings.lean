-- Strings in JSON texts, as bytes. What is written for a character, be it the character itself or
-- an escape, is lexed as pieces that spell it, and so a quoted text is read back as it was.
import Mathlib.Tactic.SplitIfs
import ModularSynth.Json.Parser

namespace ModularSynth.Json

open Value

/-! ## Texts as bytes -/

theorem byteArray_toList_loop (b : ByteArray) (i : Nat) (before : List UInt8) :
    ByteArray.toList.loop b i before = before.reverse ++ b.data.toList.drop i := by
  fun_induction ByteArray.toList.loop b i before with
  | case1 i before inside ih =>
    have inside' : i < b.data.toList.length := by simpa using inside
    rw [ih, List.drop_eq_getElem_cons inside']
    simp [ByteArray.get!, inside]
  | case2 i before outside =>
    rw [List.drop_eq_nil_of_le (by simpa using Nat.le_of_not_lt outside)]
    simp

theorem byteArray_toList (b : ByteArray) : b.toList = b.data.toList := by
  unfold ByteArray.toList
  rw [byteArray_toList_loop]
  simp

theorem utf8_ofList (chars : List Char) :
    (String.ofList chars).toUTF8.toList = chars.flatMap String.utf8EncodeChar := by
  rw [byteArray_toList, String.toUTF8_eq_toByteArray, String.toByteArray_ofList, List.utf8Encode,
    List.toList_data_toByteArray]

theorem utf8_toList (s : String) : s.toUTF8.toList = s.toList.flatMap String.utf8EncodeChar := by
  rw [← utf8_ofList, String.ofList_toList]

theorem utf8_append (s t : String) :
    (s ++ t).toUTF8.toList = s.toUTF8.toList ++ t.toUTF8.toList := by
  rw [utf8_toList, utf8_toList, utf8_toList, String.toList_append, List.flatMap_append]

theorem fromUTF8?_toUTF8 (s : String) : String.fromUTF8? s.toUTF8 = some s := by
  unfold String.fromUTF8?
  rw [String.toUTF8_eq_toByteArray, dif_pos s.isValidUTF8]
  rfl

/-! ## Characters -/

/-- What stands in a string for a character. -/
def escapeBytes (c : Char) : List UInt8 :=
  (escape c).toUTF8.toList

/-- Are these bytes lexed as pieces that spell the character, wherever they stand in a string? -/
def LexedAs (bytes : List UInt8) (c : Char) : Prop :=
  ∃ pieces : List Piece,
    (∀ before rest, lexString before (bytes ++ rest) = lexString (pieces.reverse ++ before) rest) ∧
    ∀ spelt more, spell spelt (pieces ++ more) = spell (spelt ++ [c].utf8Encode) more

/-- A byte that stands for itself in a string. -/
def IsPlain (b : UInt8) : Prop :=
  b ≠ 0x22 ∧ ¬b < 0x20 ∧ b ≠ 0x5c

theorem lexString_plain {bytes : List UInt8} (plain : ∀ b ∈ bytes, IsPlain b)
    (before : List Piece) (rest : List UInt8) :
    lexString before (bytes ++ rest) =
      lexString ((bytes.map Piece.byte).reverse ++ before) rest := by
  induction bytes generalizing before with
  | nil => rfl
  | cons b bytes ih =>
    obtain ⟨quote, control, backslash⟩ := plain b List.mem_cons_self
    have step : lexString before (b :: (bytes ++ rest)) =
        lexString (.byte b :: before) (bytes ++ rest) := by
      rw [lexString.eq_def]
      simp only [if_neg quote, if_neg control, if_neg backslash]
    rw [List.cons_append, step, ih fun b mem => plain b (List.mem_cons_of_mem _ mem)]
    simp

theorem spell_bytes (bytes : List UInt8) (spelt : ByteArray) (more : List Piece) :
    spell spelt (bytes.map Piece.byte ++ more) = spell (spelt ++ bytes.toByteArray) more := by
  induction bytes generalizing spelt with
  | nil => simp
  | cons b bytes ih =>
    rw [List.map_cons, List.cons_append, spell, ih]
    congr 1
    apply ByteArray.ext
    simp

/-- A code unit that is no half of a pair spells its character. -/
theorem spell_codeUnit {u : Nat} (high : isHighHalf u = false) (low : isLowHalf u = false)
    (spelt : ByteArray) (more : List Piece) :
    spell spelt (.codeUnit u :: more) = spell (spelt ++ [Char.ofNat u].utf8Encode) more := by
  rcases more with _ | ⟨(b | v), more⟩
  · simp [spell, high, low]
  · simp [spell, high, low]
  · simp [spell, high, low]

/-- The bytes of a character that needs no escape all stand for themselves. -/
theorem isPlain_utf8EncodeChar {c : Char} (quote : c.toNat ≠ 0x22) (backslash : c.toNat ≠ 0x5c)
    (control : ¬c.toNat < 0x20) : ∀ b ∈ String.utf8EncodeChar c, IsPlain b := by
  intro b mem
  have code : c.val.toNat = c.toNat := rfl
  unfold IsPlain
  rw [UInt8.lt_iff_toNat_lt, ne_eq, ne_eq, ← UInt8.toNat_inj, ← UInt8.toNat_inj]
  unfold String.utf8EncodeChar at mem
  rw [code] at mem
  simp only at mem
  split at mem
  · rw [List.mem_singleton] at mem
    rw [mem, UInt8.toNat_ofNat']
    simp only [UInt8.reduceToNat]
    omega
  · -- every byte of a longer encoding is at least 0x80
    have large : 0x80 ≤ b.toNat := by
      split at mem
      · simp only [List.mem_cons, List.not_mem_nil, or_false] at mem
        rcases mem with rfl | rfl <;> rw [UInt8.toNat_ofNat'] <;> omega
      · split at mem
        · simp only [List.mem_cons, List.not_mem_nil, or_false] at mem
          rcases mem with rfl | rfl | rfl <;> rw [UInt8.toNat_ofNat'] <;> omega
        · simp only [List.mem_cons, List.not_mem_nil, or_false] at mem
          rcases mem with rfl | rfl | rfl | rfl <;> rw [UInt8.toNat_ofNat'] <;> omega
    simp only [UInt8.reduceToNat]
    omega

/-! ## Escapes by number -/

/-- The byte of a hexadecimal digit. -/
def hexByte (n : Nat) : UInt8 :=
  (if n < 10 then 0x30 + n else 0x57 + n).toUInt8

theorem utf8_hexDigit {n : Nat} (h : n < 16) :
    String.utf8EncodeChar (hexDigit n) = [hexByte n] := by
  decide +revert

theorem hexValue?_hexByte {n : Nat} (h : n < 16) : hexValue? (hexByte n) = some n := by
  decide +revert

theorem lexString_numbered {n : Nat} (h : n < 0x20) (before : List Piece) (rest : List UInt8) :
    lexString before
        (0x5c :: 0x75 :: 0x30 :: 0x30 :: hexByte (n / 16) :: hexByte (n % 16) :: rest) =
      lexString (.codeUnit n :: before) rest := by
  have high := hexValue?_hexByte (n := n / 16) (by omega)
  have low := hexValue?_hexByte (n := n % 16) (by omega)
  have zero : hexValue? 0x30 = some 0 := by decide
  have number : ((0 * 16 + 0) * 16 + n / 16) * 16 + n % 16 = n := by omega
  rw [lexString.eq_def]
  simp only [high, low, zero, number]
  rfl

/-- A character may stand as it is, if all its bytes do. -/
theorem lexedAs_plain {c : Char} (plain : ∀ b ∈ String.utf8EncodeChar c, IsPlain b) :
    LexedAs (String.utf8EncodeChar c) c := by
  refine ⟨(String.utf8EncodeChar c).map .byte, lexString_plain plain, ?_⟩
  intro spelt more
  rw [spell_bytes, List.utf8Encode_singleton]

/-- A character of one byte may stand as an escape of one letter. -/
theorem lexedAs_letter (c letter : Char) (b e : UInt8)
    (h : String.utf8EncodeChar c = [b] ∧ String.utf8EncodeChar letter = [e] ∧ e ≠ 0x75 ∧
      simpleEscape? e = some b) :
    LexedAs (String.ofList ['\\', letter]).toUTF8.toList c := by
  obtain ⟨charBytes, letterBytes, other, meaning⟩ := h
  have backslash : String.utf8EncodeChar '\\' = [0x5c] := by decide
  rw [utf8_ofList]
  refine ⟨[.byte b], ?_, ?_⟩
  · intro before rest
    rw [List.flatMap_cons, List.flatMap_cons, letterBytes, backslash, lexString.eq_def]
    simp [other, meaning]
  · intro spelt more
    rw [List.utf8Encode_singleton, charBytes]
    exact spell_bytes [b] spelt more

/-- A control character may stand as an escape by number. -/
theorem lexedAs_numbered {c : Char} (control : c.toNat < 0x20) :
    LexedAs [0x5c, 0x75, 0x30, 0x30, hexByte (c.toNat / 16), hexByte (c.toNat % 16)] c := by
  refine ⟨[.codeUnit c.toNat], ?_, ?_⟩
  · intro before rest
    exact lexString_numbered control before rest
  · intro spelt more
    rw [List.cons_append, spell_codeUnit, Char.ofNat_toNat]
    · rfl
    · simp [isHighHalf]
      omega
    · simp [isLowHalf]
      omega

theorem lexedAs_escapeBytes (c : Char) : LexedAs (escapeBytes c) c := by
  unfold escapeBytes escape
  split_ifs with quote backslash newline carriage tab backspace feed control
  · rw [quote]
    exact lexedAs_letter '"' '"' 0x22 0x22 (by decide)
  · rw [backslash]
    exact lexedAs_letter '\\' '\\' 0x5c 0x5c (by decide)
  · rw [newline]
    exact lexedAs_letter '\n' 'n' 0x0a 0x6e (by decide)
  · rw [carriage]
    exact lexedAs_letter '\r' 'r' 0x0d 0x72 (by decide)
  · rw [tab]
    exact lexedAs_letter '\t' 't' 0x09 0x74 (by decide)
  · rw [← Char.ofNat_toNat c, backspace]
    exact lexedAs_letter (Char.ofNat 0x08) 'b' 0x08 0x62 (by decide)
  · rw [← Char.ofNat_toNat c, feed]
    exact lexedAs_letter (Char.ofNat 0x0c) 'f' 0x0c 0x66 (by decide)
  · have start : "\\u00".toUTF8.toList = [0x5c, 0x75, 0x30, 0x30] :=
      (utf8_ofList ['\\', 'u', '0', '0']).trans (by decide)
    rw [utf8_append, start, utf8_ofList, List.flatMap_cons, List.flatMap_cons,
      utf8_hexDigit (by omega), utf8_hexDigit (by omega)]
    exact lexedAs_numbered control
  · rw [Char.toString_eq_singleton, String.singleton_eq_ofList, utf8_ofList,
      List.flatMap_singleton]
    apply lexedAs_plain
    apply isPlain_utf8EncodeChar _ _ control
    · intro same
      rw [← Char.ofNat_toNat c, same] at quote
      exact quote rfl
    · intro same
      rw [← Char.ofNat_toNat c, same] at backslash
      exact backslash rfl

/-! ## Strings -/

/-- What stands in a text for a string. -/
def quoteBytes (s : String) : List UInt8 :=
  0x22 :: (s.toList.flatMap escapeBytes ++ [0x22])

theorem utf8_foldl_escape (chars : List Char) (out : String) :
    (chars.foldl (fun out c => out ++ escape c) out).toUTF8.toList =
      out.toUTF8.toList ++ chars.flatMap escapeBytes := by
  induction chars generalizing out with
  | nil => simp
  | cons c chars ih =>
    rw [List.foldl_cons, ih, utf8_append, List.flatMap_cons, escapeBytes, List.append_assoc]

theorem utf8_quote (s : String) : (quote s).toUTF8.toList = quoteBytes s := by
  have mark : "\"".toUTF8.toList = [0x22] := (utf8_ofList ['"']).trans (by decide)
  unfold quote quoteBytes
  rw [String.foldl_eq_foldl_toList, utf8_append, utf8_foldl_escape, mark]
  rfl

/-- Characters are lexed as pieces that spell them, up to the quote after them. -/
theorem lexString_escapeBytes (chars : List Char) :
    ∃ pieces : List Piece,
      (∀ before rest, lexString before (chars.flatMap escapeBytes ++ 0x22 :: rest) =
        some (pieces.reverse ++ before, rest)) ∧
      ∀ spelt, spell spelt pieces = some (spelt ++ chars.utf8Encode) := by
  induction chars with
  | nil =>
    refine ⟨[], ?_, ?_⟩
    · intro before rest
      rw [List.flatMap_nil, List.nil_append, lexString.eq_def]
      rfl
    · intro spelt
      rw [spell, List.utf8Encode_nil, ByteArray.append_empty]
  | cons c chars ih =>
    obtain ⟨first, lexed, spelt⟩ := lexedAs_escapeBytes c
    obtain ⟨later, lexedLater, speltLater⟩ := ih
    refine ⟨first ++ later, ?_, ?_⟩
    · intro before rest
      rw [List.flatMap_cons, List.append_assoc, lexed, lexedLater, List.reverse_append,
        List.append_assoc]
    · intro bytes
      rw [spelt, speltLater, ByteArray.append_assoc, ← List.utf8Encode_append,
        List.singleton_append]

/-- A string is read back as it was. -/
theorem lexString_quoteBytes (s : String) (rest : List UInt8) :
    ∃ pieces, lexString [] (s.toList.flatMap escapeBytes ++ 0x22 :: rest) = some (pieces, rest) ∧
      textOf? pieces = some s := by
  obtain ⟨pieces, lexed, spelt⟩ := lexString_escapeBytes s.toList
  refine ⟨pieces.reverse, ?_, ?_⟩
  · rw [lexed, List.append_nil]
  · unfold textOf?
    rw [List.reverse_reverse, spelt, ByteArray.empty_append, String.utf8Encode_toList]
    exact fromUTF8?_toUTF8 s

end ModularSynth.Json
