import SshChatter.Lib.CString

namespace SshChatter.Jwt
open CString List

/-- This is `base64_chars`. No index reaches the blank at its end. -/
def base64Chars : Bytes := str "ABCDEFGHIJKLMNOPQRSTUVWXYZabcdefghijklmnopqrstuvwxyz0123456789-_ "

def sextetChar (value : Nat) : UInt8 := base64Chars.getD (value % 64) 0

def octetTriple (a b c : UInt8) : Nat := a.toNat * 2 ^ 16 + b.toNat * 2 ^ 8 + c.toNat

/-- Three octets give four characters, highest bits first. -/
def encodeTriple (a b c : UInt8) : Bytes :=
  let triple := octetTriple a b c
  [sextetChar (triple / 2 ^ 18), sextetChar (triple / 2 ^ 12), sextetChar (triple / 2 ^ 6), sextetChar triple]

def encodeGroups : Bytes → Bytes
  | [] => []
  | [a] => encodeTriple a 0 0
  | [a, b] => encodeTriple a b 0
  | a :: b :: c :: rest => encodeTriple a b c ++ encodeGroups rest

/-- This is `base64url_encode`. The characters of the filled octets are cut off. -/
def base64urlEncode (input : Bytes) : Bytes :=
  let padCount := (3 - input.length % 3) % 3
  (encodeGroups input).take ((encodeGroups input).length - padCount)

/-- This is the table `values`. A foreign character has all the bits of `(uint32_t)-1`. -/
def sextetValue (c : UInt8) : Nat :=
  if byte 'A' ≤ c ∧ c ≤ byte 'Z' then c.toNat - 65
  else if byte 'a' ≤ c ∧ c ≤ byte 'z' then c.toNat - 97 + 26
  else if byte '0' ≤ c ∧ c ≤ byte '9' then c.toNat - 48 + 52
  else if c = byte '-' then 62
  else if c = byte '_' then 63
  else 2 ^ 32 - 1

/-- Four sextets give three octets. The sum wraps like `uint32_t`. -/
def decodeSextets (a b c d : Nat) : Bytes :=
  let triple := (a * 2 ^ 18 + b * 2 ^ 12 + c * 2 ^ 6 + d) % 2 ^ 32
  [UInt8.ofNat (triple / 2 ^ 16 % 256), UInt8.ofNat (triple / 2 ^ 8 % 256), UInt8.ofNat (triple % 256)]

def decodeGroups : Bytes → Bytes
  | [] => []
  | [a] => decodeSextets (sextetValue a) 0 0 0
  | [a, b] => decodeSextets (sextetValue a) (sextetValue b) 0 0
  | [a, b, c] => decodeSextets (sextetValue a) (sextetValue b) (sextetValue c) 0
  | a :: b :: c :: d :: rest =>
    decodeSextets (sextetValue a) (sextetValue b) (sextetValue c) (sextetValue d) ++ decodeGroups rest

/-- The length that `base64url_decode` stores in `out_len`. -/
def outLen (input : Bytes) : Nat := input.length * 3 / 4

/-- This is `base64url_decode`. The buffer comes zeroed and has one byte more than the loop may fill. -/
def base64urlDecode (input : Bytes) : Bytes :=
  let padding := if input.length % 4 = 2 then 2 else if input.length % 4 = 3 then 1 else 0
  let limit := input.length * 3 / 4 + padding
  let written := (decodeGroups input).take limit
  written ++ replicate (limit + 1 - written.length) 0

/-- The letters, the digits, the minus sign and the underscore. -/
def isUrlSafe (c : UInt8) : Bool :=
  (byte 'A' ≤ c ∧ c ≤ byte 'Z') ∨ (byte 'a' ≤ c ∧ c ≤ byte 'z') ∨ (byte '0' ≤ c ∧ c ≤ byte '9') ∨
    c = byte '-' ∨ c = byte '_'

section Groups

def alphabet : { table : Bytes // ∀ index < 64, sextetValue (table.getD index 0) = index ∧
    isUrlSafe (table.getD index 0) } :=
  ⟨base64Chars, by decide +kernel⟩

theorem sextetValue_char (value : Nat) : sextetValue (sextetChar value) = value % 64 :=
  (alphabet.2 _ (Nat.mod_lt _ (by decide))).1

theorem isUrlSafe_sextet (value : Nat) : isUrlSafe (sextetChar value) :=
  (alphabet.2 _ (Nat.mod_lt _ (by decide))).2

variable (a b c : UInt8) (input : Bytes)

theorem octetTriple_bytes :
    octetTriple a b c / 2 ^ 16 % 256 = a.toNat ∧ octetTriple a b c / 2 ^ 8 % 256 = b.toNat ∧
      octetTriple a b c % 256 = c.toNat := by
  have boundA := a.toNat_lt
  have boundB := b.toNat_lt
  have boundC := c.toNat_lt
  simp only [octetTriple] at *
  refine ⟨?_, ?_, ?_⟩ <;> omega

theorem octetTriple_sextets :
    (octetTriple a b c / 2 ^ 18 % 64 * 2 ^ 18 + octetTriple a b c / 2 ^ 12 % 64 * 2 ^ 12 +
      octetTriple a b c / 2 ^ 6 % 64 * 2 ^ 6 + octetTriple a b c % 64) % 2 ^ 32 = octetTriple a b c := by
  have bound : octetTriple a b c < 2 ^ 24 := by
    have boundA := a.toNat_lt
    have boundB := b.toNat_lt
    have boundC := c.toNat_lt
    simp only [octetTriple] at *
    omega
  omega

theorem decodeSextets_triple :
    decodeSextets (octetTriple a b c / 2 ^ 18 % 64) (octetTriple a b c / 2 ^ 12 % 64)
      (octetTriple a b c / 2 ^ 6 % 64) (octetTriple a b c % 64) = [a, b, c] := by
  obtain ⟨first, second, third⟩ := octetTriple_bytes a b c
  simp only [decodeSextets, octetTriple_sextets, first, second, third, UInt8.ofNat_toNat]

theorem encodeGroups_length : (encodeGroups input).length = 4 * ((input.length + 2) / 3) := by
  induction input using encodeGroups.induct with
  | case1 => rfl
  | case2 => simp [encodeGroups, encodeTriple]
  | case3 => simp [encodeGroups, encodeTriple]
  | case4 a b c rest ih =>
    rw [encodeGroups, length_append, length_cons, length_cons, length_cons,
      show (encodeTriple a b c).length = 4 from rfl]
    omega

theorem base64urlEncode_triple (rest : Bytes) :
    base64urlEncode (a :: b :: c :: rest) = encodeTriple a b c ++ base64urlEncode rest := by
  have four : (encodeTriple a b c).length = 4 := rfl
  have long := encodeGroups_length rest
  have same : (3 - (a :: b :: c :: rest).length % 3) % 3 = (3 - rest.length % 3) % 3 := by
    simp only [length_cons]
    omega
  simp only [base64urlEncode, same, encodeGroups, length_append, four]
  rw [Nat.add_sub_assoc (by omega), ← four, take_length_add_append]

/-- The decoder gives the octets back, followed by the zero octets of the last group. -/
theorem decodeGroups_encode :
    decodeGroups (base64urlEncode input) = input ++ replicate ((3 - input.length % 3) % 3) 0 := by
  induction input using encodeGroups.induct with
  | case1 => rfl
  | case2 a =>
    have low : octetTriple a 0 0 / 2 ^ 6 % 64 = 0 ∧ octetTriple a 0 0 % 64 = 0 := by
      simp only [octetTriple, UInt8.toNat_zero]
      omega
    have octets := decodeSextets_triple a 0 0
    rw [low.1, low.2, ← sextetValue_char, ← sextetValue_char] at octets
    exact octets
  | case3 a b =>
    have low : octetTriple a b 0 % 64 = 0 := by
      simp only [octetTriple, UInt8.toNat_zero]
      omega
    have octets := decodeSextets_triple a b 0
    rw [low, ← sextetValue_char, ← sextetValue_char, ← sextetValue_char] at octets
    exact octets
  | case4 a b c rest ih =>
    have octets := decodeSextets_triple a b c
    rw [← sextetValue_char, ← sextetValue_char, ← sextetValue_char, ← sextetValue_char] at octets
    have same : (3 - (a :: b :: c :: rest).length % 3) % 3 = (3 - rest.length % 3) % 3 := by
      simp only [length_cons]
      omega
    rw [base64urlEncode_triple, same]
    calc decodeGroups (encodeTriple a b c ++ base64urlEncode rest)
        = [a, b, c] ++ decodeGroups (base64urlEncode rest) := by rw [← octets]; rfl
      _ = a :: b :: c :: rest ++ replicate ((3 - rest.length % 3) % 3) 0 := by rw [ih]; rfl

theorem base64urlEncode_length :
    (base64urlEncode input).length = 4 * ((input.length + 2) / 3) - (3 - input.length % 3) % 3 := by
  simp only [base64urlEncode, length_take, encodeGroups_length]
  omega

theorem encodeGroups_sextets : ∀ c ∈ encodeGroups input, ∃ value, c = sextetChar value := by
  have triple (a b c : UInt8) : ∀ char ∈ encodeTriple a b c, ∃ value, char = sextetChar value := by
    intro char member
    simp only [encodeTriple, mem_cons, not_mem_nil, or_false] at member
    rcases member with rfl | rfl | rfl | rfl <;> exact ⟨_, rfl⟩
  induction input using encodeGroups.induct with
  | case1 => simp [encodeGroups]
  | case2 a => exact triple a 0 0
  | case3 a b => exact triple a b 0
  | case4 a b c rest ih =>
    intro char member
    rcases mem_append.mp member with first | later
    · exact triple a b c char first
    · exact ih char later

end Groups

variable (input : Bytes)

theorem base64urlEncode_safe : ∀ c ∈ base64urlEncode input, isUrlSafe c := by
  intro c member
  obtain ⟨value, rfl⟩ := encodeGroups_sextets input c (mem_of_mem_take member)
  exact isUrlSafe_sextet value

theorem base64urlEncode_ne : ∀ c ∈ base64urlEncode input, c ≠ byte '.' ∧ c ≠ 0 := by
  intro c member
  have safe := base64urlEncode_safe input c member
  constructor <;> rintro rfl <;> exact absurd safe (by decide)

/-- The limit of the decoder admits all the groups, so its buffer holds the octets and then zeros. -/
theorem base64urlDecode_eq : ∃ count, base64urlDecode (base64urlEncode input) = input ++ replicate count 0 := by
  have length := base64urlEncode_length input
  have octets := decodeGroups_encode input
  have fits : (decodeGroups (base64urlEncode input)).length ≤
      (base64urlEncode input).length * 3 / 4 +
        (if (base64urlEncode input).length % 4 = 2 then 2
          else if (base64urlEncode input).length % 4 = 3 then 1 else 0) := by
    rw [octets, length_append, length_replicate, length]
    have remainder : input.length % 3 = 0 ∨ input.length % 3 = 1 ∨ input.length % 3 = 2 := by omega
    rcases remainder with rest | rest | rest <;> rw [rest] <;> split_ifs <;> omega
  simp only [base64urlDecode]
  rw [take_of_length_le fits, octets, append_assoc, replicate_append_replicate]
  exact ⟨_, rfl⟩

theorem base64urlDecode_encode {input : Bytes} (nulFree : 0 ∉ input) :
    (base64urlDecode (base64urlEncode input)).takeWhile (· ≠ 0) = input := by
  have visible : ∀ c ∈ input, decide (c ≠ 0) = true := by
    intro c member
    have different : c ≠ 0 := fun zero => nulFree (zero ▸ member)
    simp [different]
  obtain ⟨count, buffer⟩ := base64urlDecode_eq input
  rw [buffer, takeWhile_append_of_pos visible]
  simp

/-- Any octets are encoded in safe characters, four for three, and the decoder returns them with their length. -/
theorem base64url_round_trip (input : Bytes) :
    (∀ c ∈ base64urlEncode input, isUrlSafe c) ∧
      (base64urlEncode input).length = (4 * input.length + 2) / 3 ∧
      outLen (base64urlEncode input) = input.length ∧
      (base64urlDecode (base64urlEncode input)).take (outLen (base64urlEncode input)) = input := by
  have length : (base64urlEncode input).length = (4 * input.length + 2) / 3 := by
    rw [base64urlEncode_length]
    omega
  have decoded : outLen (base64urlEncode input) = input.length := by
    rw [outLen]
    omega
  obtain ⟨count, buffer⟩ := base64urlDecode_eq input
  refine ⟨base64urlEncode_safe input, length, decoded, ?_⟩
  rw [decoded, buffer, take_left]

end SshChatter.Jwt
