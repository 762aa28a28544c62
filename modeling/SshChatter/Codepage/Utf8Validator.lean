import SshChatter.Lib.CString
import SshChatter.Lib.LeadCode

namespace SshChatter.Codepage
open CString List

def twoBytes (codepoint : Nat) : Bytes :=
  [UInt8.ofNat (0xC0 ||| (codepoint >>> 6 &&& 0x1F)), UInt8.ofNat (0x80 ||| (codepoint &&& 0x3F))]

def threeBytes (codepoint : Nat) : Bytes :=
  [UInt8.ofNat (0xE0 ||| (codepoint >>> 12 &&& 0x0F)), UInt8.ofNat (0x80 ||| (codepoint >>> 6 &&& 0x3F)),
    UInt8.ofNat (0x80 ||| (codepoint &&& 0x3F))]

def fourBytes (codepoint : Nat) : Bytes :=
  [UInt8.ofNat (0xF0 ||| (codepoint >>> 18 &&& 0x07)), UInt8.ofNat (0x80 ||| (codepoint >>> 12 &&& 0x3F)),
    UInt8.ofNat (0x80 ||| (codepoint >>> 6 &&& 0x3F)), UInt8.ofNat (0x80 ||| (codepoint &&& 0x3F))]

/-- This is `session_encode_utf8_codepoint`: the bytes that it writes and counts. -/
def encodeUtf8Codepoint (codepoint capacity : Nat) : Bytes :=
  if capacity = 0 then []
  else if codepoint ≤ 0x7F then [UInt8.ofNat codepoint]
  else if codepoint ≤ 0x7FF then if capacity < 2 then [] else twoBytes codepoint
  else if codepoint ≤ 0xFFFF then if capacity < 3 then [] else threeBytes codepoint
  else if codepoint ≤ 0x10FFFF then if capacity < 4 then [] else fourBytes codepoint
  else [byte '?']

/-- The tests of `input[i]`, `input[i + 1]` and so on from left to right, up to the first that fails. A read behind
the end has no result. -/
def testBounds (input : Bytes) : Nat → List (UInt8 × UInt8) → Option Bool
  | _, [] => some true
  | i, (lo, hi) :: bounds =>
    input[i]?.bind fun c => if lo ≤ c ∧ c ≤ hi then testBounds input (i + 1) bounds else some false

/-- The value of `valid` for a lead byte at `i`: the bytes behind it must be there and lie in their bounds. -/
def checkTail (input : Bytes) (i : Nat) (bounds : List (UInt8 × UInt8)) : Option Bool :=
  if i + bounds.length < input.length then testBounds input (i + 1) bounds else some false

/-- One turn of the loop of the fast validation in `session_codepage_detect_auto`: the new `i` and `valid`. -/
def validateTurn (input : Bytes) (i : Nat) : Option (Nat × Bool) :=
  input[i]?.bind fun lead =>
    if lead < 0x80 then some (i + 1, true)
    else if 0xC2 ≤ lead ∧ lead ≤ 0xDF then (checkTail input i [(0x80, 0xBF)]).map fun valid => (i + 2, valid)
    else if 0xE0 ≤ lead ∧ lead ≤ 0xEF then
      let lo := if lead = 0xE0 then 0xA0 else 0x80
      let hi := if lead = 0xED then 0x9F else 0xBF
      (checkTail input i [(lo, hi), (0x80, 0xBF)]).map fun valid => (i + 3, valid)
    else if 0xF0 ≤ lead ∧ lead ≤ 0xF4 then
      let lo := if lead = 0xF0 then 0x90 else 0x80
      let hi := if lead = 0xF4 then 0x8F else 0xBF
      (checkTail input i [(lo, hi), (0x80, 0xBF), (0x80, 0xBF)]).map fun valid => (i + 4, valid)
    else some (i, false)

def validateLoop (input : Bytes) : Nat → Nat → Bool → Option (Nat × Bool)
  | 0, _, _ => none
  | turns + 1, i, valid =>
    if i < input.length ∧ valid then
      (validateTurn input i).bind fun next => validateLoop input turns next.1 next.2
    else some (i, valid)

def validUtf8 (input : Bytes) : Option Bool :=
  (validateLoop input (input.length + 1) 0 true).map fun last => last.2 && last.1 == input.length

/-- A code point outside the surrogates. -/
def Scalar (codepoint : Nat) : Prop := codepoint < 0xD800 ∨ 0xDFFF < codepoint ∧ codepoint ≤ 0x10FFFF

def tailBounds (lead : UInt8) : Option (List (UInt8 × UInt8)) :=
  if lead < 0x80 then some []
  else if 0xC2 ≤ lead ∧ lead ≤ 0xDF then some [(0x80, 0xBF)]
  else if 0xE0 ≤ lead ∧ lead ≤ 0xEF then
    some [(if lead = 0xE0 then 0xA0 else 0x80, if lead = 0xED then 0x9F else 0xBF), (0x80, 0xBF)]
  else if 0xF0 ≤ lead ∧ lead ≤ 0xF4 then
    some [(if lead = 0xF0 then 0x90 else 0x80, if lead = 0xF4 then 0x8F else 0xBF), (0x80, 0xBF), (0x80, 0xBF)]
  else none

/-- A text is the codes of code points that are no surrogates. -/
def Encoded (input : Bytes) : Prop :=
  ∃ codepoints : List Nat, (∀ codepoint ∈ codepoints, Scalar codepoint) ∧
    input = codepoints.flatMap fun codepoint => encodeUtf8Codepoint codepoint 4

/-- The validation rejects a text that goes on from an encoded text with a longer form than needed, with a surrogate,
with a number that is no code point, or with a code that is cut short. -/
structure RejectsAfter (front : Bytes) : Prop where
  two : ∀ codepoint ≤ 0x7F, ∀ rest, validUtf8 (front ++ (twoBytes codepoint ++ rest)) = some false
  three : ∀ codepoint, codepoint ≤ 0x7FF ∨ 0xD800 ≤ codepoint ∧ codepoint ≤ 0xDFFF →
    ∀ rest, validUtf8 (front ++ (threeBytes codepoint ++ rest)) = some false
  four : ∀ codepoint, codepoint ≤ 0xFFFF ∨ 0x10FFFF < codepoint ∧ codepoint < 0x200000 →
    ∀ rest, validUtf8 (front ++ (fourBytes codepoint ++ rest)) = some false
  truncated : ∀ codepoint, Scalar codepoint → ∀ size, 0 < size → size < (encodeUtf8Codepoint codepoint 4).length →
    validUtf8 (front ++ (encodeUtf8Codepoint codepoint 4).take size) = some false

/-- A byte behind a lead byte. -/
def Tail (c : UInt8) : Prop := 0x80 ≤ c.toNat ∧ c.toNat ≤ 0xBF

inductive Pattern : Bytes → Prop
  | one {a : UInt8} : a.toNat < 0x80 → Pattern [a]
  | two {a b : UInt8} : 0xC2 ≤ a.toNat → a.toNat ≤ 0xDF → Tail b → Pattern [a, b]
  | three {a b c : UInt8} : 0xE0 ≤ a.toNat → a.toNat ≤ 0xEF → Tail b → (a.toNat = 0xE0 → 0xA0 ≤ b.toNat) →
      (a.toNat = 0xED → b.toNat ≤ 0x9F) → Tail c → Pattern [a, b, c]
  | four {a b c d : UInt8} : 0xF0 ≤ a.toNat → a.toNat ≤ 0xF4 → Tail b → (a.toNat = 0xF0 → 0x90 ≤ b.toNat) →
      (a.toNat = 0xF4 → b.toNat ≤ 0x8F) → Tail c → Tail d → Pattern [a, b, c, d]

def Inside (bounds : UInt8 × UInt8) (c : UInt8) : Prop := bounds.1 ≤ c ∧ c ≤ bounds.2

abbrev Utf8Framed : Bytes → Prop := LeadCode.Framed Inside tailBounds

section Loop

variable {input : Bytes} {i : Nat}

theorem validateTurn_eq {lead : UInt8} (read : input[i]? = some lead) : validateTurn input i =
    match tailBounds lead with
    | none => some (i, false)
    | some bounds => (checkTail input i bounds).map fun valid => (i + bounds.length + 1, valid) := by
  have inside : i < input.length := (List.getElem?_eq_some_iff.mp read).1
  rw [validateTurn, read, Option.bind_some, tailBounds]
  split_ifs <;> simp [checkTail, testBounds, inside]

variable (bounds : List (UInt8 × UInt8))

theorem testBounds_spec (i : Nat) (room : i + bounds.length ≤ input.length) :
    ∃ passed, testBounds input i bounds = some passed ∧
      (passed ↔ List.Forall₂ Inside bounds ((input.drop i).take bounds.length)) := by
  induction bounds generalizing i with
  | nil => exact ⟨true, rfl, by simp⟩
  | cons bound bounds inductionHypothesis =>
    rw [length_cons] at room
    have inside : i < input.length := by omega
    obtain ⟨passed, result, later⟩ := inductionHypothesis (i + 1) (by omega)
    rw [testBounds, getElem?_eq_getElem inside, Option.bind_some, drop_eq_getElem_cons inside,
      length_cons, take_succ_cons, forall₂_cons]
    split_ifs with good
    · exact ⟨passed, result, later.trans (iff_and_self.mpr fun _ => good)⟩
    · exact ⟨false, rfl, by simp [Inside, good]⟩

/-- The tail of a lead byte is judged without a read behind the end. -/
theorem checkTail_spec (inside : i < input.length) :
    ∃ passed, checkTail input i bounds = some passed ∧
      (passed ↔ List.Forall₂ Inside bounds ((input.drop (i + 1)).take bounds.length)) := by
  by_cases room : i + bounds.length < input.length
  · rw [checkTail, if_pos room]
    exact testBounds_spec bounds (i + 1) (by omega)
  · rw [checkTail, if_neg room]
    refine ⟨false, rfl, by simp, fun passed => ?_⟩
    have size := passed.length_eq
    rw [length_take, length_drop] at size
    omega

/-- The loop ends, and it ends at the end of the input exactly when the rest of the input is framed. -/
theorem validateLoop_spec (input : Bytes) (turns i : Nat) (inside : i ≤ input.length)
    (enough : input.length - i < turns) : ∃ last, validateLoop input turns i true = some last ∧
      (last.2 ∧ last.1 = input.length ↔ Utf8Framed (input.drop i)) := by
  induction turns generalizing i with
  | zero => omega
  | succ turns inductionHypothesis =>
    rw [validateLoop]
    rcases lt_or_eq_of_le inside with more | rfl
    · rw [if_pos ⟨more, rfl⟩, validateTurn_eq (getElem?_eq_getElem more), drop_eq_getElem_cons more]
      have stop (next : Nat) : validateLoop input turns next false = some (next, false) := by
        obtain ⟨turns, rfl⟩ := Nat.exists_eq_succ_of_ne_zero (by omega : turns ≠ 0)
        simp [validateLoop]
      cases announced : tailBounds input[i] with
      | none => exact ⟨(i, false), stop i, iff_of_false (by simp) (LeadCode.not_framed_cons announced)⟩
      | some bounds =>
        obtain ⟨passed, checked, meaning⟩ := checkTail_spec bounds more
        have cut : Utf8Framed (input[i] :: input.drop (i + 1)) ↔
            passed ∧ Utf8Framed ((input.drop (i + 1)).drop bounds.length) := by
          rw [meaning]
          exact LeadCode.framed_cons_iff announced
        simp only [cut, checked]
        cases passed with
        | false => exact ⟨_, stop _, by simp⟩
        | true =>
          have size := (meaning.mp rfl).length_eq
          rw [length_take, length_drop] at size
          obtain ⟨last, result, framed⟩ := inductionHypothesis (i + bounds.length + 1) (by omega) (by omega)
          refine ⟨last, result, framed.trans ?_⟩
          rw [show i + bounds.length + 1 = i + 1 + bounds.length by omega]
          simp
    · rw [if_neg (by simp)]
      exact ⟨_, rfl, by simp [LeadCode.Framed.nil]⟩

theorem validUtf8_eq (input : Bytes) : ∃ accepted, validUtf8 input = some accepted ∧ (accepted ↔ Utf8Framed input) := by
  obtain ⟨last, result, framed⟩ := validateLoop_spec input (input.length + 1) 0 (Nat.zero_le _) (by omega)
  refine ⟨last.2 && last.1 == input.length, by rw [validUtf8, result]; rfl, ?_⟩
  rw [Bool.and_eq_true, beq_iff_eq, framed, drop_zero]

end Loop

section Words

variable {c : UInt8} {codepoint : Nat}

/-- The bits of a mark above the six bits of a value. -/
theorem or_low (value : Nat) : 0x80 ||| (value &&& 0x3F) = 0x80 + value % 64 := by
  rw [Nat.and_two_pow_sub_one_eq_mod value 6]
  exact (Nat.two_pow_add_eq_or_of_lt (Nat.mod_lt value (Nat.two_pow_pos 6)) 2).symm

theorem twoBytes_eq (codepoint : Nat) : twoBytes codepoint =
    [UInt8.ofNat (0xC0 + codepoint / 64 % 32), UInt8.ofNat (0x80 + codepoint % 64)] := by
  have lead : 0xC0 ||| (codepoint >>> 6 &&& 0x1F) = 0xC0 + codepoint / 64 % 32 := by
    rw [Nat.and_two_pow_sub_one_eq_mod _ 5, Nat.shiftRight_eq_div_pow]
    exact (Nat.two_pow_add_eq_or_of_lt (Nat.mod_lt _ (Nat.two_pow_pos 5)) 6).symm
  rw [twoBytes, lead, or_low]

theorem threeBytes_eq (codepoint : Nat) : threeBytes codepoint =
    [UInt8.ofNat (0xE0 + codepoint / 4096 % 16), UInt8.ofNat (0x80 + codepoint / 64 % 64),
      UInt8.ofNat (0x80 + codepoint % 64)] := by
  have lead : 0xE0 ||| (codepoint >>> 12 &&& 0x0F) = 0xE0 + codepoint / 4096 % 16 := by
    rw [Nat.and_two_pow_sub_one_eq_mod _ 4, Nat.shiftRight_eq_div_pow]
    exact (Nat.two_pow_add_eq_or_of_lt (Nat.mod_lt _ (Nat.two_pow_pos 4)) 14).symm
  rw [threeBytes, lead, or_low, or_low, Nat.shiftRight_eq_div_pow]

theorem fourBytes_eq (codepoint : Nat) : fourBytes codepoint =
    [UInt8.ofNat (0xF0 + codepoint / 262144 % 8), UInt8.ofNat (0x80 + codepoint / 4096 % 64),
      UInt8.ofNat (0x80 + codepoint / 64 % 64), UInt8.ofNat (0x80 + codepoint % 64)] := by
  have lead : 0xF0 ||| (codepoint >>> 18 &&& 0x07) = 0xF0 + codepoint / 262144 % 8 := by
    rw [Nat.and_two_pow_sub_one_eq_mod _ 3, Nat.shiftRight_eq_div_pow]
    exact (Nat.two_pow_add_eq_or_of_lt (Nat.mod_lt _ (Nat.two_pow_pos 3)) 30).symm
  rw [fourBytes, lead, or_low, or_low, or_low, Nat.shiftRight_eq_div_pow, Nat.shiftRight_eq_div_pow]

theorem tailBounds_eq (lead : UInt8) : tailBounds lead =
    if lead.toNat < 0x80 then some []
    else if 0xC2 ≤ lead.toNat ∧ lead.toNat ≤ 0xDF then some [(0x80, 0xBF)]
    else if 0xE0 ≤ lead.toNat ∧ lead.toNat ≤ 0xEF then
      some [(if lead.toNat = 0xE0 then 0xA0 else 0x80, if lead.toNat = 0xED then 0x9F else 0xBF), (0x80, 0xBF)]
    else if 0xF0 ≤ lead.toNat ∧ lead.toNat ≤ 0xF4 then
      some [(if lead.toNat = 0xF0 then 0x90 else 0x80, if lead.toNat = 0xF4 then 0x8F else 0xBF), (0x80, 0xBF),
        (0x80, 0xBF)]
    else none := by
  simp only [tailBounds, UInt8.lt_iff_toNat_lt, UInt8.le_iff_toNat_le, ← UInt8.toNat_inj, UInt8.reduceToNat]

theorem inside_iff : Inside (0x80, 0xBF) c ↔ Tail c := by
  rfl

theorem inside_narrow {a first last : Nat} {lo hi : UInt8} (low : 0x80 ≤ lo.toNat) (high : hi.toNat ≤ 0xBF) :
    Inside (if a = first then lo else 0x80, if a = last then hi else 0xBF) c ↔
      Tail c ∧ (a = first → lo.toNat ≤ c.toNat) ∧ (a = last → c.toNat ≤ hi.toNat) := by
  rw [Inside, Tail, UInt8.le_iff_toNat_le, UInt8.le_iff_toNat_le]
  split_ifs with isFirst isLast <;> simp <;> omega

theorem pattern_of_word {word : Bytes} (found : LeadCode.Word Inside tailBounds word) : Pattern word := by
  obtain ⟨announced, passed⟩ := found
  rename_i lead tests tail
  rw [tailBounds_eq] at announced
  by_cases one : lead.toNat < 0x80
  · rw [if_pos one, Option.some.injEq] at announced
    subst announced
    cases passed
    exact .one one
  by_cases two : 0xC2 ≤ lead.toNat ∧ lead.toNat ≤ 0xDF
  · rw [if_neg one, if_pos two, Option.some.injEq] at announced
    subst announced
    rcases passed with _ | ⟨b, _ | _⟩
    exact .two two.1 two.2 (inside_iff.mp b)
  by_cases three : 0xE0 ≤ lead.toNat ∧ lead.toNat ≤ 0xEF
  · rw [if_neg one, if_neg two, if_pos three, Option.some.injEq] at announced
    subst announced
    rcases passed with _ | ⟨b, _ | ⟨c, _ | _⟩⟩
    obtain ⟨b, narrow, narrow'⟩ := (inside_narrow (by decide) (by decide)).mp b
    exact .three three.1 three.2 b narrow narrow' (inside_iff.mp c)
  by_cases four : 0xF0 ≤ lead.toNat ∧ lead.toNat ≤ 0xF4
  · rw [if_neg one, if_neg two, if_neg three, if_pos four, Option.some.injEq] at announced
    subst announced
    rcases passed with _ | ⟨b, _ | ⟨c, _ | ⟨d, _ | _⟩⟩⟩
    obtain ⟨b, narrow, narrow'⟩ := (inside_narrow (by decide) (by decide)).mp b
    exact .four four.1 four.2 b narrow narrow' (inside_iff.mp c) (inside_iff.mp d)
  · rw [if_neg one, if_neg two, if_neg three, if_neg four] at announced
    cases announced

theorem Pattern.word {word : Bytes} (pattern : Pattern word) : LeadCode.Word Inside tailBounds word := by
  cases pattern with
  | one low => exact .intro ((tailBounds_eq _).trans (if_pos low)) .nil
  | two low high b =>
    refine .intro ?_ (.cons (inside_iff.mpr b) .nil)
    rw [tailBounds_eq, if_neg (by omega), if_pos ⟨low, high⟩]
  | @three a b c low high tail narrow narrow' tail' =>
    have announced := tailBounds_eq a
    rw [if_neg (by omega), if_neg (by omega), if_pos ⟨low, high⟩] at announced
    exact .intro announced (.cons ((inside_narrow (by decide) (by decide)).mpr ⟨tail, narrow, narrow'⟩)
      (.cons (inside_iff.mpr tail') .nil))
  | @four a b c d low high tail narrow narrow' tail' tail'' =>
    have announced := tailBounds_eq a
    rw [if_neg (by omega), if_neg (by omega), if_neg (by omega), if_pos ⟨low, high⟩] at announced
    exact .intro announced (.cons ((inside_narrow (by decide) (by decide)).mpr ⟨tail, narrow, narrow'⟩)
      (.cons (inside_iff.mpr tail') (.cons (inside_iff.mpr tail'') .nil)))

end Words

section Codes

variable {codepoint : Nat}

theorem encode_one (small : codepoint ≤ 0x7F) : encodeUtf8Codepoint codepoint 4 = [UInt8.ofNat codepoint] := by
  rw [encodeUtf8Codepoint, if_neg (by decide), if_pos small]

theorem encode_two (large : 0x7F < codepoint) (small : codepoint ≤ 0x7FF) :
    encodeUtf8Codepoint codepoint 4 = twoBytes codepoint := by
  rw [encodeUtf8Codepoint, if_neg (by decide), if_neg (by omega), if_pos small, if_neg (by decide)]

theorem encode_three (large : 0x7FF < codepoint) (small : codepoint ≤ 0xFFFF) :
    encodeUtf8Codepoint codepoint 4 = threeBytes codepoint := by
  rw [encodeUtf8Codepoint, if_neg (by decide), if_neg (by omega), if_neg (by omega), if_pos small, if_neg (by decide)]

theorem encode_four (large : 0xFFFF < codepoint) (small : codepoint ≤ 0x10FFFF) :
    encodeUtf8Codepoint codepoint 4 = fourBytes codepoint := by
  rw [encodeUtf8Codepoint, if_neg (by decide), if_neg (by omega), if_neg (by omega), if_neg (by omega), if_pos small,
    if_neg (by decide)]

/-- A byte is given by its number. -/
theorem ofNat_eq {value : Nat} {c : UInt8} (same : value = c.toNat) : UInt8.ofNat value = c := by
  rw [same, UInt8.ofNat_toNat]

theorem tail_ofNat (value : Nat) : Tail (UInt8.ofNat (0x80 + value % 64)) := by
  rw [Tail, UInt8.toNat_ofNat_of_lt' (by omega : 0x80 + value % 64 < 2 ^ 8)]
  omega

theorem Pattern.code {word : Bytes} (pattern : Pattern word) :
    ∃ codepoint, Scalar codepoint ∧ encodeUtf8Codepoint codepoint 4 = word := by
  cases pattern with
  | @one a => exact ⟨a.toNat, .inl (by omega), (encode_one (by omega)).trans (by rw [UInt8.ofNat_toNat])⟩
  | @two a b low high tail =>
    obtain ⟨low', high'⟩ := tail
    refine ⟨(a.toNat - 0xC0) * 64 + (b.toNat - 0x80), .inl (by omega), ?_⟩
    rw [encode_two (by omega) (by omega), twoBytes_eq, ofNat_eq (c := a) (by omega), ofNat_eq (c := b) (by omega)]
  | @three a b c low high tail narrow narrow' tail' =>
    rw [Tail] at tail tail'
    refine ⟨(a.toNat - 0xE0) * 4096 + (b.toNat - 0x80) * 64 + (c.toNat - 0x80), ?_, ?_⟩
    · rw [Scalar]
      omega
    · rw [encode_three (by omega) (by omega), threeBytes_eq, ofNat_eq (c := a) (by omega), ofNat_eq (c := b) (by omega),
        ofNat_eq (c := c) (by omega)]
  | @four a b c d low high tail narrow narrow' tail' tail'' =>
    rw [Tail] at tail tail' tail''
    refine ⟨(a.toNat - 0xF0) * 262144 + (b.toNat - 0x80) * 4096 + (c.toNat - 0x80) * 64 + (d.toNat - 0x80),
      .inr ⟨by omega, by omega⟩, ?_⟩
    rw [encode_four (by omega) (by omega), fourBytes_eq, ofNat_eq (c := a) (by omega), ofNat_eq (c := b) (by omega),
      ofNat_eq (c := c) (by omega), ofNat_eq (c := d) (by omega)]

theorem pattern_encode (scalar : Scalar codepoint) : Pattern (encodeUtf8Codepoint codepoint 4) := by
  rw [Scalar] at scalar
  have number {value : Nat} (small : value < 256) : (UInt8.ofNat value).toNat = value := UInt8.toNat_ofNat_of_lt' small
  by_cases one : codepoint ≤ 0x7F
  · rw [encode_one one]
    exact .one (by rw [number] <;> omega)
  by_cases two : codepoint ≤ 0x7FF
  · rw [encode_two (by omega) two, twoBytes_eq]
    refine .two ?_ ?_ (tail_ofNat _) <;> rw [number] <;> omega
  by_cases three : codepoint ≤ 0xFFFF
  · rw [encode_three (by omega) three, threeBytes_eq]
    refine .three ?_ ?_ (tail_ofNat _) ?_ ?_ (tail_ofNat _) <;> rw [number (by omega)]
    case refine_3 | refine_4 => rw [number (by omega)]; omega
    all_goals omega
  · rw [encode_four (by omega) (by omega), fourBytes_eq]
    refine .four ?_ ?_ (tail_ofNat _) ?_ ?_ (tail_ofNat _) (tail_ofNat _) <;> rw [number (by omega)]
    case refine_3 | refine_4 => rw [number (by omega)]; omega
    all_goals omega

/-- The words are the codes of the code points that are no surrogates. -/
theorem word_iff (word : Bytes) : LeadCode.Word Inside tailBounds word ↔
    ∃ codepoint, Scalar codepoint ∧ encodeUtf8Codepoint codepoint 4 = word := by
  constructor
  · exact fun found => (pattern_of_word found).code
  · rintro ⟨codepoint, scalar, rfl⟩
    exact (pattern_encode scalar).word

end Codes

section Rejections

variable {lead : UInt8} {rest : Bytes}

theorem pattern_of_framed (tail : Bytes) {bounds : List (UInt8 × UInt8)} (announced : tailBounds lead = some bounds)
    (size : tail.length = bounds.length) (framed : Utf8Framed (lead :: (tail ++ rest))) : Pattern (lead :: tail) := by
  have passed := ((LeadCode.framed_cons_iff announced).mp framed).1
  rw [← size, take_left] at passed
  exact pattern_of_word (.intro announced passed)

variable {codepoint : Nat}

theorem not_framed_twoBytes (short : codepoint ≤ 0x7F) : ¬ Utf8Framed (twoBytes codepoint ++ rest) := by
  rw [twoBytes_eq]
  apply LeadCode.not_framed_cons
  rw [tailBounds_eq, UInt8.toNat_ofNat_of_lt' (by omega : _ < 2 ^ 8)]
  rw [if_neg (by omega), if_neg (by omega), if_neg (by omega), if_neg (by omega)]

theorem not_framed_threeBytes (wrong : codepoint ≤ 0x7FF ∨ 0xD800 ≤ codepoint ∧ codepoint ≤ 0xDFFF) :
    ¬ Utf8Framed (threeBytes codepoint ++ rest) := by
  intro framed
  rw [threeBytes_eq] at framed
  have number {value : Nat} (small : value < 256) : (UInt8.ofNat value).toNat = value := UInt8.toNat_ofNat_of_lt' small
  have announced := tailBounds_eq (UInt8.ofNat (0xE0 + codepoint / 4096 % 16))
  rw [number (by omega), if_neg (by omega), if_neg (by omega), if_pos (by omega)] at announced
  cases pattern_of_framed [_, _] announced rfl framed with
  | three low high _ narrow narrow' _ =>
    rw [number (by omega), number (by omega)] at narrow narrow'
    omega

theorem not_framed_fourBytes (wrong : codepoint ≤ 0xFFFF ∨ 0x10FFFF < codepoint ∧ codepoint < 0x200000) :
    ¬ Utf8Framed (fourBytes codepoint ++ rest) := by
  intro framed
  rw [fourBytes_eq] at framed
  have number {value : Nat} (small : value < 256) : (UInt8.ofNat value).toNat = value := UInt8.toNat_ofNat_of_lt' small
  have announced := tailBounds_eq (UInt8.ofNat (0xF0 + codepoint / 262144 % 8))
  rw [number (by omega), if_neg (by omega), if_neg (by omega), if_neg (by omega)] at announced
  by_cases lead : 0xF0 + codepoint / 262144 % 8 ≤ 0xF4
  · rw [if_pos (by omega)] at announced
    cases pattern_of_framed [_, _, _] announced rfl framed with
    | four low high _ narrow narrow' _ _ =>
      rw [number (by omega), number (by omega)] at narrow narrow'
      omega
  · rw [if_neg (by omega)] at announced
    exact LeadCode.not_framed_cons announced framed

theorem validUtf8_eq_false (framed : ¬ Utf8Framed rest) : validUtf8 rest = some false := by
  obtain ⟨accepted, result, meaning⟩ := validUtf8_eq rest
  rw [result, Bool.eq_false_iff.mpr fun accepted => framed (meaning.mp accepted)]

end Rejections

/-- The fast validation never reads behind the input. It accepts exactly the texts that are encoded from code points
without surrogates, and rejects longer forms than needed, surrogates and codes that are cut short. -/
theorem valid_utf8_iff_encoded (input : Bytes) :
    (∃ accepted, validUtf8 input = some accepted ∧ (accepted ↔ Encoded input)) ∧
      (Encoded input → RejectsAfter input) := by
  have framed_iff (text : Bytes) : Utf8Framed text ↔ Encoded text := LeadCode.framed_iff_flatMap word_iff text
  constructor
  · obtain ⟨accepted, result, meaning⟩ := validUtf8_eq input
    exact ⟨accepted, result, meaning.trans (framed_iff input)⟩
  · intro encoded
    have rejects {rest : Bytes} (framed : ¬ Utf8Framed rest) : validUtf8 (input ++ rest) = some false :=
      validUtf8_eq_false (mt ((framed_iff input).mpr encoded).append_iff.mp framed)
    exact {
      two := fun _ short _ => rejects (not_framed_twoBytes short)
      three := fun _ wrong _ => rejects (not_framed_threeBytes wrong)
      four := fun _ wrong _ => rejects (not_framed_fourBytes wrong)
      truncated := fun codepoint scalar size some' short =>
        rejects (((word_iff _).mpr ⟨codepoint, scalar, rfl⟩).not_framed_take some' short) }

end SshChatter.Codepage
