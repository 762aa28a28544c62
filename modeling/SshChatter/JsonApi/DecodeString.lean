import SshChatter.Codepage.Utf8Validator
import SshChatter.JsonApi.Text
import SshChatter.Lib.JsonLiteral

namespace SshChatter.JsonApi
open CString JsonText List
open Codepage (Encoded encodeUtf8Codepoint)

def Denotes (pieces : List Piece) (text : List Nat) : Prop :=
  codepoints pieces = text ∧ ∀ codepoint ∈ text, Codepage.Scalar codepoint

/-- When the input begins with a string whose bytes are UTF-8 and the string is decoded, the string is a literal and
the output is the UTF-8 of the text that it denotes. -/
def ExactText (capacity : Nat) [NeZero capacity] (input : Bytes) : Prop :=
  ∀ raw next, input = quote :: (raw ++ quote :: next) → Encoded raw →
    (decodeString input : CBuffer capacity × Option Bytes).2 = some next →
    Encoded (decodeString input : CBuffer capacity × Option Bytes).1.text ∧
      (∃ pieces, raw = literalText pieces) ∧
      ∀ pieces, raw = literalText pieces → ∃ text, Denotes pieces text ∧
        (decodeString input : CBuffer capacity × Option Bytes).1.text = text.flatMap utf8

/-- A literal at the start of the input that fits the output has no half of a surrogate pair and no NUL. -/
def Plainly (capacity : Nat) (input : Bytes) : Prop :=
  ∀ pieces next, input = quote :: (literalText pieces ++ quote :: next) →
    ((codepoints pieces).flatMap utf8).length < capacity →
      ∀ codepoint ∈ codepoints pieces, Codepage.Scalar codepoint ∧ codepoint ≠ 0

section Encoding

variable {codepoint : Nat} {values : List Nat}

/-- Both encoders write the same bytes. -/
theorem utf8_eq (valid : codepoint ≤ 0x10FFFF) : utf8 codepoint = encodeUtf8Codepoint codepoint 4 := by
  rw [utf8]
  split_ifs with one two three
  · rw [Codepage.encode_one one]
  · rw [Codepage.encode_two (by omega) two, Codepage.twoBytes_eq]
  · rw [Codepage.encode_three (by omega) three, Codepage.threeBytes_eq]
  · rw [Codepage.encode_four (by omega) valid, Codepage.fourBytes_eq]

theorem flatMap_utf8_eq (scalars : ∀ value ∈ values, Codepage.Scalar value) :
    values.flatMap utf8 = values.flatMap fun value => encodeUtf8Codepoint value 4 := by
  induction values with
  | nil => rfl
  | cons value values ih =>
    obtain ⟨first, later⟩ := forall_mem_cons.mp scalars
    rw [Codepage.Scalar] at first
    rw [flatMap_cons, flatMap_cons, ih later, utf8_eq (by omega)]

/-- The UTF-8 of scalars is well formed. -/
theorem encoded_flatMap (scalars : ∀ value ∈ values, Codepage.Scalar value) : Encoded (values.flatMap utf8) :=
  ⟨values, scalars, flatMap_utf8_eq scalars⟩

/-- A well formed text is the UTF-8 of characters. -/
theorem encoded_iff (text : Bytes) :
    Encoded text ↔ ∃ values : List Nat, (∀ value ∈ values, Codepage.Scalar value) ∧ text = values.flatMap utf8 := by
  constructor
  · rintro ⟨values, scalars, rfl⟩
    exact ⟨values, scalars, (flatMap_utf8_eq scalars).symm⟩
  · rintro ⟨values, scalars, rfl⟩
    exact encoded_flatMap scalars

/-- A text of code points holds a NUL exactly when NUL is one of them. -/
theorem zero_mem_flatMap : 0 ∈ values.flatMap utf8 ↔ 0 ∈ values := by
  simp [zero_mem_utf8]

/-- A literal is written in UTF-8 itself. -/
theorem encoded_literalText (pieces : List Piece) : Encoded (literalText pieces) := by
  have ascii (text : Bytes) (low : ∀ c ∈ text, c < 0x80) : text = (text.map UInt8.toNat).flatMap utf8 := by
    induction text with
    | nil => rfl
    | cons c text ih =>
      obtain ⟨first, later⟩ := forall_mem_cons.mp low
      rw [map_cons, flatMap_cons, utf8_ascii (UInt8.lt_iff_toNat_lt.mp first), UInt8.ofNat_toNat, ← ih later]
      rfl
  have single (text : Bytes) (low : ∀ c ∈ text, c < 0x80) :
      ∃ values : List Nat, (∀ value ∈ values, Codepage.Scalar value) ∧ text = values.flatMap utf8 := by
    refine ⟨text.map UInt8.toNat, ?_, ascii text low⟩
    intro value member
    obtain ⟨c, -, rfl⟩ := mem_map.mp member
    have small := c.toNat_lt
    exact .inl (by omega)
  rw [encoded_iff]
  induction pieces with
  | nil => exact ⟨[], forall_mem_nil _, rfl⟩
  | cons piece pieces ih =>
    obtain ⟨later, scalars, rest⟩ := ih
    have first : ∃ values : List Nat, (∀ value ∈ values, Codepage.Scalar value) ∧ piece.text = values.flatMap utf8 := by
      cases piece with
      | char codepoint character => exact ⟨[codepoint], forall_mem_singleton.mpr character, by simp [Piece.text]⟩
      | letter name code named =>
        apply single
        have low := (simpleEscape_ascii (Option.isSome_iff_exists.mpr ⟨code, named⟩)).1
        exact forall_mem_cons.mpr ⟨by decide, forall_mem_singleton.mpr low⟩
      | unit digits number read =>
        apply single
        obtain ⟨found, split, -, hex⟩ := hexQuad_some read
        rw [append_nil] at split
        exact forall_mem_cons.mpr ⟨by decide, forall_mem_cons.mpr
          ⟨by decide, fun c member => hexValue_ascii (hex c (split ▸ member))⟩⟩
    obtain ⟨values, scalars', text⟩ := first
    refine ⟨values ++ later, forall_mem_append.mpr ⟨scalars', scalars⟩, ?_⟩
    rw [flatMap_append, ← text, ← rest]
    rfl

end Encoding

section Decoding

variable {capacity : Nat} [NeZero capacity] {raw next input : Bytes} {pieces : List Piece}

theorem decodeString_literal (next : Bytes) (fits : ((codepoints pieces).flatMap utf8).length < capacity) :
    (decodeString (quote :: (literalText pieces ++ quote :: next)) : CBuffer capacity × Option Bytes).1.text =
        cText ((codepoints pieces).flatMap utf8) ∧
      (decodeString (quote :: (literalText pieces ++ quote :: next)) : CBuffer capacity × Option Bytes).2 = some next :=
  decodeString_some (reads_literal pieces next) fits

theorem literal_of_decodeString (encoded : Encoded raw)
    (success : (decodeString (quote :: (raw ++ quote :: next)) : CBuffer capacity × Option Bytes).2 = some next) :
    ∃ pieces, raw = literalText pieces := by
  obtain ⟨values, scalars, rfl⟩ := (encoded_iff raw).mp encoded
  rw [decodeString, if_pos rfl] at success
  obtain ⟨failed, -⟩ | ⟨out, behind, equal, found, -⟩ :=
    decodeStringLoop_cases (le_refl (values.flatMap utf8 ++ quote :: next).length) (capacity - 1)
  · dsimp only at success
    rw [failed] at success
    cases success
  · dsimp only at success
    rw [equal] at success
    cases success
    exact literal_of_decode values scalars found

theorem literal_fits
    (success : (decodeString (quote :: (literalText pieces ++ quote :: next)) : CBuffer capacity × Option Bytes).2 =
      some next) :
    ((codepoints pieces).flatMap utf8).length < capacity := by
  by_contra long
  have refused :
      (decodeString (quote :: (literalText pieces ++ quote :: next)) : CBuffer capacity × Option Bytes).2 = none := by
    apply decodeString_none
    intro out rest found
    rw [reads_literal pieces next] at found
    obtain ⟨rfl, -⟩ := Prod.mk.inj (Option.some.inj found)
    exact not_lt.mp long
  rw [refused] at success
  cases success

theorem zero_not_mem_cText (text : Bytes) : 0 ∉ cText text := by
  intro member
  have kept := mem_takeWhile_imp member
  simp at kept

/-- When the decoder is exact, the literals that fit have no half of a surrogate pair and no NUL. -/
theorem plainly_of_exact (exactly : ExactText capacity input) : Plainly capacity input := by
  rintro pieces next rfl fits
  obtain ⟨written, success⟩ := decodeString_literal next fits
  obtain ⟨-, -, denoted⟩ := exactly (literalText pieces) next rfl (encoded_literalText pieces) success
  obtain ⟨text, ⟨same, scalars⟩, equal⟩ := denoted pieces rfl
  subst same
  have nulFree : 0 ∉ codepoints pieces := by
    rw [← zero_mem_flatMap, ← equal]
    exact zero_not_mem_cText _
  exact fun codepoint member => ⟨scalars codepoint member, fun zero => nulFree (zero ▸ member)⟩

/-- The decoder is exact on an input exactly when the literal there has no half of a surrogate pair and no NUL. -/
theorem decodeString_exact_iff (capacity : Nat) [NeZero capacity] (input : Bytes) :
    ExactText capacity input ↔ Plainly capacity input := by
  constructor
  · exact plainly_of_exact
  · intro plainly raw next start encoded success
    subst start
    obtain ⟨pieces, rfl⟩ := literal_of_decodeString encoded success
    -- The same text may be cut into pieces in one way only, but the argument holds for any.
    have denoted : ∀ pieces', literalText pieces = literalText pieces' →
        (∀ codepoint ∈ codepoints pieces', Codepage.Scalar codepoint) ∧
        (decodeString (quote :: (literalText pieces ++ quote :: next)) : CBuffer capacity × Option Bytes).1.text =
          (codepoints pieces').flatMap utf8 := by
      intro pieces' same
      rw [same] at success plainly ⊢
      have fits := literal_fits success
      have good := plainly pieces' next rfl fits
      have nulFree : 0 ∉ (codepoints pieces').flatMap utf8 := by
        rw [zero_mem_flatMap]
        exact fun zero => (good 0 zero).2 rfl
      refine ⟨fun codepoint member => (good codepoint member).1, ?_⟩
      rw [(decodeString_literal next fits).1, (cText_eq_iff _).mpr nulFree]
    obtain ⟨scalars, written⟩ := denoted pieces rfl
    refine ⟨written ▸ encoded_flatMap scalars, ⟨pieces, rfl⟩, fun pieces' same => ?_⟩
    obtain ⟨scalars', written'⟩ := denoted pieces' same
    exact ⟨codepoints pieces', ⟨rfl, scalars'⟩, written'⟩

/-- A literal of one letter is exact. -/
theorem decodeString_exact_letter : ExactText 64 (str "\"a\"") := by
  apply (decodeString_exact_iff 64 _).mpr
  intro pieces next same _ codepoint member
  have begins : literalText pieces ++ quote :: next = [97, quote] := (cons.inj same).2.symm
  cases pieces with
  | nil => cases member
  | cons piece pieces =>
    cases piece with
    | letter => exact absurd (cons.inj begins).1 (by decide)
    | unit => exact absurd (cons.inj begins).1 (by decide)
    | char value _ visible =>
      obtain ⟨first, bytes, written⟩ := exists_cons_of_ne_nil (show utf8 value ≠ [] from utf8_ne_nil)
      rw [literalText, flatMap_cons, Piece.text, written] at begins
      have small : value < 0x80 := by
        by_contra wide
        have high := utf8_wide (not_lt.mp wide) first (written ▸ mem_cons_self)
        rw [(cons.inj begins).1] at high
        exact absurd high (by decide)
      rw [utf8_ascii small] at written
      obtain rfl := (cons.inj written).2
      have alone : pieces = [] := by
        cases pieces with
        | nil => rfl
        | cons other =>
          have some : 0 < other.text.length := length_pos_iff.mpr (by cases other <;> simp [Piece.text, utf8_ne_nil])
          have length := congrArg length begins
          simp only [flatMap_cons, length_cons, length_append] at length
          omega
      subst alone
      obtain rfl : codepoint = value := mem_singleton.mp member
      exact ⟨.inl (by omega), by omega⟩

/-- Half of a surrogate pair is written as three bytes that are no UTF-8, and an escaped NUL cuts the text. -/
theorem decodeString_not_exact :
    ¬ ExactText 64 (str "\"\\ud800\"") ∧ ¬ ExactText 64 (str "\"a\\u0000b\"") := by
  constructor
  · intro exactly
    have plain := plainly_of_exact exactly [.unit (str "d800") 0xD800 rfl] [] rfl (by decide) 0xD800
      (by decide)
    rcases plain.1 with low | high <;> omega
  · intro exactly
    have plain := plainly_of_exact exactly
      [.char 97 (.inl (by decide)) (by decide) (by decide), .unit (str "0000") 0 rfl,
        .char 98 (.inl (by decide)) (by decide) (by decide)] [] rfl (by decide) 0 (by decide)
    exact plain.2 rfl

end Decoding

end SshChatter.JsonApi
