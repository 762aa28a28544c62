import SshChatter.Jwt.Base64Url
import SshChatter.Security.OnionLayer

namespace SshChatter.Onion
open CString Jwt

/-- The alphabet of `EVP_EncodeBlock`. -/
def blockChars : Bytes := str "ABCDEFGHIJKLMNOPQRSTUVWXYZabcdefghijklmnopqrstuvwxyz0123456789+/"

def blockChar (value : Nat) : UInt8 := blockChars.getD (value % 64) 0

def blockValue (c : UInt8) : Option Nat := if c = byte '=' then some 0 else blockChars.idxOf? c

def encodeBlock : Bytes → Bytes
  | [] => []
  | [a] => [blockChar (octetTriple a 0 0 / 2 ^ 18), blockChar (octetTriple a 0 0 / 2 ^ 12), byte '=', byte '=']
  | [a, b] =>
    [blockChar (octetTriple a b 0 / 2 ^ 18), blockChar (octetTriple a b 0 / 2 ^ 12),
      blockChar (octetTriple a b 0 / 2 ^ 6), byte '=']
  | a :: b :: c :: rest =>
    blockChar (octetTriple a b c / 2 ^ 18) :: blockChar (octetTriple a b c / 2 ^ 12) ::
      blockChar (octetTriple a b c / 2 ^ 6) :: blockChar (octetTriple a b c) :: encodeBlock rest

/-- This is `EVP_DecodeBlock` on a text without blanks at its ends. -/
def decodeBlock : Bytes → Option Bytes
  | [] => some []
  | a :: b :: c :: d :: rest =>
    match blockValue a, blockValue b, blockValue c, blockValue d, decodeBlock rest with
    | some a, some b, some c, some d, some later => some (decodeSextets a b c d ++ later)
    | _, _, _, _, _ => none
  | _ => none

theorem blockValue_char (value : Nat) : blockValue (blockChar value) = some (value % 64) := by
  have table : ∀ index < 64, blockValue (blockChars.getD index 0) = some index := by decide +kernel
  exact table _ (Nat.mod_lt _ (by decide))

/-- The alphabet has no dot, no NUL and no filling. -/
theorem blockChar_ne (value : Nat) :
    blockChar value ≠ dot ∧ blockChar value ≠ 0 ∧ blockChar value ≠ byte '=' := by
  have table : ∀ index < 64, blockChars.getD index 0 ≠ dot ∧ blockChars.getD index 0 ≠ 0 ∧
      blockChars.getD index 0 ≠ byte '=' := by
    decide +kernel
  exact table _ (Nat.mod_lt _ (by decide))

variable (block : Bytes)

theorem encodeBlock_length : (encodeBlock block).length = blockLength block.length := by
  induction block using encodeBlock.induct with
  | case1 => rfl
  | case2 => simp [encodeBlock, blockLength]
  | case3 => simp [encodeBlock, blockLength]
  | case4 a b c rest ih =>
    simp only [encodeBlock, List.length_cons, ih, blockLength]
    omega

/-- The text has no dot and no NUL. -/
theorem encodeBlock_clean : ∀ c ∈ encodeBlock block, c ≠ dot ∧ c ≠ 0 := by
  have filling : byte '=' ≠ dot ∧ byte '=' ≠ 0 := by decide
  induction block using encodeBlock.induct with
  | case1 => exact List.forall_mem_nil _
  | case2 => simp [encodeBlock, blockChar_ne, filling]
  | case3 => simp [encodeBlock, blockChar_ne, filling]
  | case4 a b c rest ih => simpa [encodeBlock, blockChar_ne] using ih

/-- The filling stands at the end of a text whose last group is not full. -/
theorem encodeBlock_filling (present : block ≠ []) :
    ((encodeBlock block)[(encodeBlock block).length - 1]? = some (byte '=') ↔ block.length % 3 ≠ 0) ∧
    ((encodeBlock block)[(encodeBlock block).length - 2]? = some (byte '=') ↔ block.length % 3 = 1) := by
  have plain (value : Nat) : blockChar value ≠ byte '=' := (blockChar_ne value).2.2
  induction block using encodeBlock.induct with
  | case1 => exact absurd rfl present
  | case2 => simp [encodeBlock]
  | case3 => simp [encodeBlock, plain]
  | case4 a b c rest ih =>
    by_cases last : rest = []
    · subst last
      simp [encodeBlock, plain]
    · have long : 4 ≤ (encodeBlock rest).length := by
        have some := List.length_pos_iff.mpr last
        rw [encodeBlock_length, blockLength]
        omega
      obtain ⟨size, size_eq⟩ := Nat.exists_eq_add_of_le' long
      have later := ih last
      rw [size_eq] at later
      simp only [encodeBlock, List.length_cons, size_eq]
      have same : (rest.length + 1 + 1 + 1) % 3 = rest.length % 3 := by omega
      rw [same]
      exact later

theorem decodeBlock_encode :
    decodeBlock (encodeBlock block) = some (block ++ List.replicate ((3 - block.length % 3) % 3) 0) := by
  have filling : blockValue (byte '=') = some 0 := rfl
  induction block using encodeBlock.induct with
  | case1 => rfl
  | case2 a =>
    have low : octetTriple a 0 0 / 2 ^ 6 % 64 = 0 ∧ octetTriple a 0 0 % 64 = 0 := by
      simp only [octetTriple, UInt8.toNat_zero]
      omega
    have octets := decodeSextets_triple a 0 0
    rw [low.1, low.2] at octets
    simp only [encodeBlock, decodeBlock, blockValue_char, filling, octets]
    rfl
  | case3 a b =>
    have low : octetTriple a b 0 % 64 = 0 := by
      simp only [octetTriple, UInt8.toNat_zero]
      omega
    have octets := decodeSextets_triple a b 0
    rw [low] at octets
    simp only [encodeBlock, decodeBlock, blockValue_char, filling, octets]
    rfl
  | case4 a b c rest ih =>
    have octets := decodeSextets_triple a b c
    have same : (3 - (a :: b :: c :: rest).length % 3) % 3 = (3 - rest.length % 3) % 3 := by
      simp only [List.length_cons]
      omega
    simp only [encodeBlock, decodeBlock, blockValue_char, ih, octets, same]
    rfl

end SshChatter.Onion
