import SshChatter.Codepage.DoubleByteInput
import SshChatter.Codepage.Utf8Validator

namespace SshChatter.Codepage
open CString List

/-- The pages with a table. -/
inductive SinglePage where
  | cp437
  | cp850
  | cp852
  | cp1251
  deriving DecidableEq

/-- This is `session_codepage_t`. -/
inductive Page where
  | utf8
  | single (page : SinglePage)
  | multibyte (page : MultibytePage)
  | auto
  deriving DecidableEq

def cp437ToUnicode : List Nat :=
  [0x00C7, 0x00FC, 0x00E9, 0x00E2, 0x00E4, 0x00E0, 0x00E5, 0x00E7, 0x00EA, 0x00EB, 0x00E8, 0x00EF,
   0x00EE, 0x00EC, 0x00C4, 0x00C5, 0x00C9, 0x00E6, 0x00C6, 0x00F4, 0x00F6, 0x00F2, 0x00FB, 0x00F9,
   0x00FF, 0x00D6, 0x00DC, 0x00A2, 0x00A3, 0x00A5, 0x20A7, 0x0192, 0x00E1, 0x00ED, 0x00F3, 0x00FA,
   0x00F1, 0x00D1, 0x00AA, 0x00BA, 0x00BF, 0x2310, 0x00AC, 0x00BD, 0x00BC, 0x00A1, 0x00AB, 0x00BB,
   0x2591, 0x2592, 0x2593, 0x2502, 0x2524, 0x2561, 0x2562, 0x2556, 0x2555, 0x2563, 0x2551, 0x2557,
   0x255D, 0x255C, 0x255B, 0x2510, 0x2514, 0x2534, 0x252C, 0x251C, 0x2500, 0x253C, 0x255E, 0x255F,
   0x255A, 0x2554, 0x2569, 0x2566, 0x2560, 0x2550, 0x256C, 0x2567, 0x2568, 0x2564, 0x2565, 0x2559,
   0x2558, 0x2552, 0x2553, 0x256B, 0x256A, 0x2518, 0x250C, 0x2588, 0x2584, 0x258C, 0x2590, 0x2580,
   0x03B1, 0x00DF, 0x0393, 0x03C0, 0x03A3, 0x03C3, 0x00B5, 0x03C4, 0x03A6, 0x0398, 0x03A9, 0x03B4,
   0x221E, 0x03C6, 0x03B5, 0x2229, 0x2261, 0x00B1, 0x2265, 0x2264, 0x2320, 0x2321, 0x00F7, 0x2248,
   0x00B0, 0x2219, 0x00B7, 0x221A, 0x207F, 0x00B2, 0x25A0, 0x00A0]

def cp850ToUnicode : List Nat :=
  [0x00C7, 0x00FC, 0x00E9, 0x00E2, 0x00E4, 0x00E0, 0x00E5, 0x00E7, 0x00EA, 0x00EB, 0x00E8, 0x00EF,
   0x00EE, 0x00EC, 0x00C4, 0x00C5, 0x00C9, 0x00E6, 0x00C6, 0x00F4, 0x00F6, 0x00F2, 0x00FB, 0x00F9,
   0x00FF, 0x00D6, 0x00DC, 0x00F8, 0x00A3, 0x00D8, 0x00D7, 0x0192, 0x00E1, 0x00ED, 0x00F3, 0x00FA,
   0x00F1, 0x00D1, 0x00AA, 0x00BA, 0x00BF, 0x00AE, 0x00AC, 0x00BD, 0x00BC, 0x00A1, 0x00AB, 0x00BB,
   0x2591, 0x2592, 0x2593, 0x2502, 0x2524, 0x00C1, 0x00C2, 0x00C0, 0x00A9, 0x2563, 0x2551, 0x2557,
   0x255D, 0x00A2, 0x00A5, 0x2510, 0x2514, 0x2534, 0x252C, 0x251C, 0x2500, 0x253C, 0x00E3, 0x00C3,
   0x255A, 0x2554, 0x2569, 0x2566, 0x2560, 0x2550, 0x256C, 0x00A4, 0x00F0, 0x00D0, 0x00CA, 0x00CB,
   0x00C8, 0x0131, 0x00CD, 0x00CE, 0x00CF, 0x2518, 0x250C, 0x2588, 0x2584, 0x00A6, 0x00CC, 0x2580,
   0x00D3, 0x00DF, 0x00D4, 0x00D2, 0x00F5, 0x00D5, 0x00B5, 0x00FE, 0x00DE, 0x00DA, 0x00DB, 0x00D9,
   0x00FD, 0x00DD, 0x00AF, 0x00B4, 0x00AD, 0x00B1, 0x2017, 0x00BE, 0x00B6, 0x00A7, 0x00F7, 0x00B8,
   0x00B0, 0x00A8, 0x00B7, 0x00B9, 0x00B3, 0x00B2, 0x25A0, 0x00A0]

def cp852ToUnicode : List Nat :=
  [0x00C7, 0x00FC, 0x00E9, 0x00E2, 0x00E4, 0x016F, 0x0107, 0x00E7, 0x0142, 0x00EB, 0x0150, 0x0151,
   0x00EE, 0x0179, 0x00C4, 0x0106, 0x00C9, 0x0139, 0x013A, 0x00F4, 0x00F6, 0x013D, 0x013E, 0x015A,
   0x015B, 0x00D6, 0x00DC, 0x0164, 0x0165, 0x0141, 0x00D7, 0x010D, 0x00E1, 0x00ED, 0x00F3, 0x00FA,
   0x0104, 0x0105, 0x017D, 0x017E, 0x0118, 0x0119, 0x00AC, 0x017A, 0x010C, 0x015F, 0x00AB, 0x00BB,
   0x2591, 0x2592, 0x2593, 0x2502, 0x2524, 0x00C1, 0x00C2, 0x011A, 0x015E, 0x2563, 0x2551, 0x2557,
   0x255D, 0x017B, 0x017C, 0x2510, 0x2514, 0x2534, 0x252C, 0x251C, 0x2500, 0x253C, 0x0102, 0x0103,
   0x255A, 0x2554, 0x2569, 0x2566, 0x2560, 0x2550, 0x256C, 0x00A4, 0x0111, 0x0110, 0x010E, 0x00CB,
   0x010F, 0x0147, 0x00CD, 0x00CE, 0x011B, 0x2518, 0x250C, 0x2588, 0x2584, 0x0162, 0x016E, 0x2580,
   0x00D3, 0x00DF, 0x00D4, 0x0143, 0x0144, 0x0148, 0x0160, 0x0161, 0x0154, 0x00DA, 0x0155, 0x0170,
   0x00FD, 0x00DD, 0x0163, 0x00B4, 0x00AD, 0x02DD, 0x02DB, 0x02C7, 0x02D8, 0x00A7, 0x00F7, 0x00B8,
   0x00B0, 0x00A8, 0x02D9, 0x0171, 0x0158, 0x0159, 0x25A0, 0x00A0]

def cp1251ToUnicode : List Nat :=
  [0x0402, 0x0403, 0x201A, 0x0453, 0x201E, 0x2026, 0x2020, 0x2021, 0x20AC, 0x2030, 0x0409, 0x2039,
   0x040A, 0x040C, 0x040B, 0x040F, 0x0452, 0x2018, 0x2019, 0x201C, 0x201D, 0x2022, 0x2013, 0x2014,
   0x0098, 0x2122, 0x0459, 0x203A, 0x045A, 0x045C, 0x045B, 0x045F, 0x00A0, 0x040E, 0x045E, 0x0408,
   0x00A4, 0x0490, 0x00A6, 0x00A7, 0x0401, 0x00A9, 0x0404, 0x00AB, 0x00AC, 0x00AD, 0x00AE, 0x0407,
   0x00B0, 0x00B1, 0x0406, 0x0456, 0x0491, 0x00B5, 0x00B6, 0x00B7, 0x0451, 0x2116, 0x0454, 0x00BB,
   0x0458, 0x0405, 0x0455, 0x0457, 0x0410, 0x0411, 0x0412, 0x0413, 0x0414, 0x0415, 0x0416, 0x0417,
   0x0418, 0x0419, 0x041A, 0x041B, 0x041C, 0x041D, 0x041E, 0x041F, 0x0420, 0x0421, 0x0422, 0x0423,
   0x0424, 0x0425, 0x0426, 0x0427, 0x0428, 0x0429, 0x042A, 0x042B, 0x042C, 0x042D, 0x042E, 0x042F,
   0x0430, 0x0431, 0x0432, 0x0433, 0x0434, 0x0435, 0x0436, 0x0437, 0x0438, 0x0439, 0x043A, 0x043B,
   0x043C, 0x043D, 0x043E, 0x043F, 0x0440, 0x0441, 0x0442, 0x0443, 0x0444, 0x0445, 0x0446, 0x0447,
   0x0448, 0x0449, 0x044A, 0x044B, 0x044C, 0x044D, 0x044E, 0x044F]

/-- The table of a page: the code points of the bytes from 0x80 on. -/
def SinglePage.toUnicode : SinglePage → List Nat
  | .cp437 => cp437ToUnicode
  | .cp850 => cp850ToUnicode
  | .cp852 => cp852ToUnicode
  | .cp1251 => cp1251ToUnicode

/-- The end of `session_codepage_byte_to_utf8`: the code point that is found is written. -/
def writeCodepoint (codepoint capacity : Nat) : Bytes :=
  if codepoint = 0 ∨ encodeUtf8Codepoint codepoint capacity = [] then [byte '?']
    else encodeUtf8Codepoint codepoint capacity

/-- This is `session_codepage_byte_to_utf8` for all pages. The stateful conversion nests once. -/
def pageByteToUtf8 (iconv : Iconv) (page : Page) (context : Context) (byte : UInt8) (capacity : Nat) :
    Option (Context × Bytes) :=
  match page with
  | .multibyte page => byteToUtf8 iconv page 2 context byte capacity
  | page =>
    if capacity = 0 then some (context, [])
    else if byte < 0x80 then some (.new, [byte])
    else
      match page with
      | .single page => some (.new, writeCodepoint (page.toUnicode.getD (byte.toNat - 0x80) 0) capacity)
      | .utf8 => some (.new, [byte])
      | _ => some (.new, writeCodepoint 0xFFFD capacity)

def SinglePage.codepoint (page : SinglePage) (byte : UInt8) : Nat :=
  if byte < 0x80 then byte.toNat else page.toUnicode.getD (byte.toNat - 0x80) 0

variable {codepoint capacity : Nat} {byte : UInt8}
variable (page : SinglePage)

/-- The tables hold characters outside of ASCII only. -/
theorem toUnicode_bounds :
    page.toUnicode.length = 128 ∧ ∀ codepoint ∈ page.toUnicode, 0x80 ≤ codepoint ∧ codepoint < 0xD800 := by
  cases page <;> decide +kernel

theorem codepoint_bounds (high : ¬ byte < 0x80) : 0x80 ≤ page.codepoint byte ∧ page.codepoint byte < 0xD800 := by
  obtain ⟨length, all⟩ := toUnicode_bounds page
  have inside : byte.toNat - 0x80 < page.toUnicode.length := by
    have small := byte.toNat_lt
    omega
  rw [SinglePage.codepoint, if_neg high, getD_eq_getElem?_getD, getElem?_eq_getElem inside]
  exact all _ (getElem_mem inside)

theorem codepoint_scalar (byte : UInt8) : Scalar (page.codepoint byte) := by
  by_cases ascii : byte < 0x80
  · have small := UInt8.lt_iff_toNat_lt.mp ascii
    rw [SinglePage.codepoint, if_pos ascii]
    exact .inl (small.trans (by decide))
  · exact .inl (codepoint_bounds page ascii).2

theorem encode_room (room : 4 ≤ capacity) :
    encodeUtf8Codepoint codepoint capacity = encodeUtf8Codepoint codepoint 4 := by
  have two : ¬ capacity < 2 := by omega
  have three : ¬ capacity < 3 := by omega
  have four : ¬ capacity < 4 := by omega
  have zero : capacity ≠ 0 := by omega
  simp [encodeUtf8Codepoint, two, three, four, zero]

/-- A character outside of ASCII is written in more than one byte, all of them from 0x80 on. -/
theorem encode_high (scalar : Scalar codepoint) (high : 0x80 ≤ codepoint) :
    2 ≤ (encodeUtf8Codepoint codepoint 4).length ∧ ∀ c ∈ encodeUtf8Codepoint codepoint 4, 0x80 ≤ c.toNat := by
  have several : 2 ≤ (encodeUtf8Codepoint codepoint 4).length := by
    rw [Scalar] at scalar
    by_cases two : codepoint ≤ 0x7FF
    · rw [encode_two (by omega) two, twoBytes]
      simp
    by_cases three : codepoint ≤ 0xFFFF
    · rw [encode_three (by omega) three, threeBytes]
      simp
    · rw [encode_four (by omega) (by omega), fourBytes]
      simp
  refine ⟨several, ?_⟩
  have pattern := pattern_encode scalar
  revert several pattern
  generalize encodeUtf8Codepoint codepoint 4 = word
  intro several pattern
  cases pattern with
  | one => simp at several
  | two low high tail =>
    have tail := tail.1
    simp only [forall_mem_cons]
    exact ⟨by omega, tail, by simp⟩
  | three low high tail narrow narrow' tail' =>
    have tail := tail.1
    have tail' := tail'.1
    simp only [forall_mem_cons]
    exact ⟨by omega, tail, tail', by simp⟩
  | four low high tail narrow narrow' tail' tail'' =>
    have tail := tail.1
    have tail' := tail'.1
    have tail'' := tail''.1
    simp only [forall_mem_cons]
    exact ⟨by omega, tail, tail', tail'', by simp⟩

theorem encode_nonempty (scalar : Scalar codepoint) : encodeUtf8Codepoint codepoint 4 ≠ [] := by
  by_cases ascii : codepoint ≤ 0x7F
  · simp [encode_one ascii]
  · have several := (encode_high scalar (by omega)).1
    exact ne_nil_of_length_pos (by omega)

theorem pageByteToUtf8_single (iconv : Iconv) (page : SinglePage) (context : Context) (byte : UInt8)
    (room : 4 ≤ capacity) : pageByteToUtf8 iconv (.single page) context byte capacity =
      some (.new, encodeUtf8Codepoint (page.codepoint byte) 4) := by
  have positive : capacity ≠ 0 := by omega
  by_cases ascii : byte < 0x80
  · have small := UInt8.lt_iff_toNat_lt.mp ascii
    rw [SinglePage.codepoint, if_pos ascii, encode_one (Nat.le_of_lt_succ small), UInt8.ofNat_toNat]
    simp only [pageByteToUtf8, positive, if_false, ascii, if_true]
  · have bounds := codepoint_bounds page ascii
    have written := encode_nonempty (codepoint_scalar page byte)
    rw [SinglePage.codepoint, if_neg ascii] at bounds written ⊢
    have found : page.toUnicode.getD (byte.toNat - 0x80) 0 ≠ 0 := by omega
    simp only [pageByteToUtf8, positive, if_false, ascii, writeCodepoint, encode_room room, found, written, or_self]

end SshChatter.Codepage
