import SshChatter.Lib.CString
import SshChatter.Lib.Numeral

namespace SshChatter.Transport
open CString Numeral List

/-- The letters of the suffix, the last one first. The array has room for 31 of them. -/
def suffixLetters : Nat → Nat → Option Bytes
  | _, 0 => some []
  | 0, _ + 1 => none
  | room + 1, index + 1 => (suffixLetters room (index / 26)).map fun rest => UInt8.ofNat (97 + index % 26) :: rest

def compactIdEncode (id length : Nat) : Option Bytes :=
  if length = 0 ∨ id = 0 then none
  else
    let base := decimal ((id - 1) % 9999 + 1)
    if length ≤ base.length then none
    else if (id - 1) / 9999 = 0 then some base
    else
      (suffixLetters 31 ((id - 1) / 9999)).bind fun suffix =>
        if length ≤ base.length + suffix.length then none else some (base ++ suffix.reverse)

/-- This is `isalpha` in the C locale. -/
def isAlpha (c : UInt8) : Bool := (65 ≤ c ∧ c ≤ 90) ∨ (97 ≤ c ∧ c ≤ 122)

def alphaIndex (c : UInt8) : Nat := (toLower c - 97).toNat

/-- The loop over the digits. It gives up above 9999. -/
def readBase : Bool → Nat → Bytes → Option (Bool × Nat × Bytes)
  | sawDigit, value, [] => some (sawDigit, value, [])
  | sawDigit, value, c :: text =>
    if isDigit c = false then some (sawDigit, value, c :: text)
    else if 9999 < value * 10 + (c.toNat - 48) then none
    else readBase true (value * 10 + (c.toNat - 48)) text

/-- The loop over the letters. It gives up in front of a step that leaves 64 bits. -/
def readSuffix : Nat → Bytes → Option (Nat × Bytes)
  | value, [] => some (value, [])
  | value, c :: text =>
    if isSpace c then some (value, c :: text)
    else if isAlpha c = false ∨ 26 ≤ alphaIndex c then none
    else if (2 ^ 64 - 1 - (alphaIndex c + 1)) / 26 < value then none
    else readSuffix (value * 26 + (alphaIndex c + 1)) text

/-- The product by 9999 is taken modulo 2^64, and only the sum is checked. -/
def joinId (base suffix : Nat) : Option Nat :=
  if 0 < suffix then
    let product := suffix * 9999 % 2 ^ 64
    if 2 ^ 64 - 1 - base < product then none else some (product + base)
  else some base

def compactIdDecode (text : Bytes) : Option Nat :=
  (readBase false 0 (text.dropWhile isSpace)).bind fun (sawDigit, base, text) =>
    if sawDigit = false ∨ base = 0 then none
    else
      (readSuffix 0 text).bind fun (suffix, text) =>
        if text.all isSpace = false then none else joinId base suffix

def digitStep (value : Nat) (c : UInt8) : Nat := value * 10 + (c.toNat - 48)

def letterStep (value : Nat) (c : UInt8) : Nat := value * 26 + (alphaIndex c + 1)

def suffixValue (letters : Bytes) : Nat := bijective 26 (letters.map alphaIndex)

/-- A compact id is a number from 1 to 9999 and letters, with blanks around them. -/
def CompactText (text : Bytes) (base : Nat) (letters : Bytes) : Prop :=
  ∃ front number back, text = front ++ (number ++ (letters ++ back)) ∧ (∀ c ∈ front, isSpace c) ∧
    (number ≠ [] ∧ ∀ c ∈ number, isDigit c) ∧ (digitsValue number = base ∧ 1 ≤ base ∧ base ≤ 9999) ∧
    (∀ c ∈ letters, isAlpha c) ∧ ∀ c ∈ back, isSpace c

/-- The id that a text stands for, without a bound on the arithmetic. -/
def Denotes (text : Bytes) (id : Nat) : Prop :=
  ∃ base letters, CompactText text base letters ∧ id = base + 9999 * suffixValue letters

/-- The suffix itself fits in 64 bits, its product by 9999 does not, and what is left of the product takes the base. -/
def Wraps (text : Bytes) : Prop :=
  ∃ base letters, CompactText text base letters ∧ suffixValue letters < 2 ^ 64 ∧ 2 ^ 64 ≤ suffixValue letters * 9999 ∧
    suffixValue letters * 9999 % 2 ^ 64 + base < 2 ^ 64

section Reading

variable {c : UInt8} {text rest : Bytes} {base id : Nat} {letters : Bytes}

theorem alphaIndex_lt (alpha : isAlpha c) : alphaIndex c < 26 := by
  have all : ∀ bits : BitVec 8, isAlpha (UInt8.ofBitVec bits) = true → alphaIndex (UInt8.ofBitVec bits) < 26 := by
    decide +kernel
  exact all c.toBitVec alpha

theorem classes_disjoint (c : UInt8) : (isSpace c → isAlpha c = false ∧ isDigit c = false) ∧
    (isAlpha c → isDigit c = false) := by
  have all : ∀ bits : BitVec 8, (isSpace (UInt8.ofBitVec bits) = true →
      isAlpha (UInt8.ofBitVec bits) = false ∧ isDigit (UInt8.ofBitVec bits) = false) ∧
      (isAlpha (UInt8.ofBitVec bits) → isDigit (UInt8.ofBitVec bits) = false) := by decide +kernel
  exact all c.toBitVec

theorem digitStep_grows (value : Nat) (c : UInt8) : value ≤ digitStep value c := by
  rw [digitStep]
  omega

theorem letterStep_grows (value : Nat) (c : UInt8) : value ≤ letterStep value c := by
  rw [letterStep]
  omega

theorem foldl_digitStep (text : Bytes) : text.foldl digitStep 0 = digitsValue text := by
  have same : digitStep = fun value c => 10 * value + (c.toNat - 48) := by
    funext value c
    rw [digitStep, mul_comm]
  rw [same, digitsValue]

theorem foldl_letterStep (letters : Bytes) : letters.foldl letterStep 0 = suffixValue letters := by
  rw [suffixValue, bijective, foldl_map]
  rfl

theorem readBase_eq (sawDigit : Bool) (value : Nat) (text : Bytes) : readBase sawDigit value text =
    (guarded 9999 digitStep value (text.takeWhile isDigit)).map fun value =>
      (sawDigit || !(text.takeWhile isDigit).isEmpty, value, text.dropWhile isDigit) := by
  fun_induction readBase sawDigit value text with
  | case1 => simp [guarded]
  | case2 sawDigit value c text noDigit => simp [noDigit, guarded]
  | case3 sawDigit value c text digit above =>
    have digit' : isDigit c := by simpa using digit
    simp [digit', guarded, digitStep, above]
  | case4 sawDigit value c text digit within ih =>
    have digit' : isDigit c := by simpa using digit
    rw [ih]
    simp [digit', guarded, digitStep, within]

/-- The letters are read as a number that has to stay in 64 bits. A text with anything but blanks behind the letters
is refused in the loop or behind it. -/
theorem readSuffix_eq {Value : Type} (goOn : Nat → Option Value) (value : Nat) (text : Bytes) :
    ((readSuffix value text).bind fun (suffix, text) => if text.all isSpace = false then none else goOn suffix) =
      if (text.dropWhile isAlpha).all isSpace = false then none
      else (guarded (2 ^ 64 - 1) letterStep value (text.takeWhile isAlpha)).bind goOn := by
  fun_induction readSuffix value text with
  | case1 => simp [guarded]
  | case2 value c text blank =>
    have noAlpha := ((classes_disjoint c).1 blank).1
    simp [noAlpha, blank, guarded]
  | case3 value c text noBlank noAlpha =>
    have noAlpha' : isAlpha c = false := by
      rcases noAlpha with outside | large
      · exact outside
      · by_contra alpha
        exact absurd (alphaIndex_lt (Bool.eq_true_of_not_eq_false alpha)) (not_lt.mpr large)
    simp [noAlpha', noBlank]
  | case4 value c text noBlank alpha =>
    rw [not_or, Bool.not_eq_false] at alpha
    have leaves : 2 ^ 64 - 1 < letterStep value c := by
      rw [letterStep]
      omega
    rw [takeWhile_cons_of_pos alpha.1, guarded, if_pos leaves, Option.bind_none, Option.bind_none, ite_self]
  | case5 value c text noBlank alpha within ih =>
    rw [not_or, Bool.not_eq_false] at alpha
    have stays : ¬ 2 ^ 64 - 1 < letterStep value c := by
      rw [letterStep]
      omega
    rw [ih, takeWhile_cons_of_pos alpha.1, dropWhile_cons_of_pos alpha.1, guarded, if_neg stays]
    rfl

/-- A run of one class ends in front of the first byte of another class. -/
theorem span_append {class' : UInt8 → Bool} {front back : Bytes} (inside : ∀ c ∈ front, class' c = true)
    (stops : ∀ c ∈ back.head?, class' c = false) :
    (front ++ back).takeWhile class' = front ∧ (front ++ back).dropWhile class' = back := by
  have rest : back.takeWhile class' = [] ∧ back.dropWhile class' = back := by
    cases back with
    | nil => simp
    | cons c => simp [stops c rfl]
  rw [takeWhile_append_of_pos inside, dropWhile_append_of_pos inside, rest.1, rest.2, append_nil]
  exact ⟨rfl, rfl⟩

/-- The pieces of a compact id are found from the front. -/
theorem compactText_iff : CompactText text base letters ↔
    (digitsValue ((text.dropWhile isSpace).takeWhile isDigit) = base ∧ 1 ≤ base ∧ base ≤ 9999) ∧
      letters = ((text.dropWhile isSpace).dropWhile isDigit).takeWhile isAlpha ∧
      (((text.dropWhile isSpace).dropWhile isDigit).dropWhile isAlpha).all isSpace = true := by
  constructor
  · rintro ⟨front, number, back, rfl, blanks, ⟨some', digits⟩, value, alphas, blanks'⟩
    have atBack : ∀ c ∈ back.head?, isAlpha c = false ∧ isDigit c = false := fun c first =>
      (classes_disjoint c).1 (blanks' c (mem_of_mem_head? first))
    have atLetters : ∀ c ∈ (letters ++ back).head?, isDigit c = false := by
      intro c first
      cases letters with
      | nil => exact (atBack c first).2
      | cons d =>
        cases first
        exact (classes_disjoint c).2 (alphas c mem_cons_self)
    have atNumber : ∀ c ∈ (number ++ (letters ++ back)).head?, isSpace c = false := by
      intro c first
      cases number with
      | nil => exact absurd rfl some'
      | cons d =>
        cases first
        have digit := digits c mem_cons_self
        by_contra blank
        have noDigit := ((classes_disjoint c).1 (Bool.eq_true_of_not_eq_false blank)).2
        rw [digit] at noDigit
        cases noDigit
    have behind := (span_append blanks atNumber).2
    have number' := span_append digits atLetters
    have letters' := span_append alphas fun c first => (atBack c first).1
    rw [behind, number'.1, number'.2, letters'.1, letters'.2]
    exact ⟨value, rfl, all_eq_true.mpr blanks'⟩
  · rintro ⟨value, rfl, blanks⟩
    refine ⟨text.takeWhile isSpace, (text.dropWhile isSpace).takeWhile isDigit, _, ?_, ?_, ⟨?_, ?_⟩, value, ?_,
      all_eq_true.mp blanks⟩
    · rw [takeWhile_append_dropWhile, takeWhile_append_dropWhile, takeWhile_append_dropWhile]
    · exact fun c member => mem_takeWhile_imp member
    · intro empty
      rw [empty] at value
      exact absurd value.1 (by change 0 ≠ base; omega)
    · exact fun c member => mem_takeWhile_imp member
    · exact fun c member => mem_takeWhile_imp member

/-- The sum is refused when it leaves 64 bits. -/
theorem joinId_iff {suffix : Nat} (inside : base ≤ 9999) : joinId base suffix = some id ↔
    suffix * 9999 % 2 ^ 64 + base < 2 ^ 64 ∧ id = suffix * 9999 % 2 ^ 64 + base := by
  by_cases positive : 0 < suffix
  · by_cases full : 2 ^ 64 - 1 - base < suffix * 9999 % 2 ^ 64
    · simp only [joinId, if_pos positive, if_pos full, reduceCtorEq, false_iff]
      omega
    · simp only [joinId, if_pos positive, if_neg full, Option.some.injEq]
      omega
  · simp only [joinId, if_neg positive, Option.some.injEq]
    omega

/-- The decoder checks the base, the letters and the text behind them, and joins the two numbers. -/
theorem compactIdDecode_eq {number tail : Bytes} (digits : (text.dropWhile isSpace).takeWhile isDigit = number)
    (behind : (text.dropWhile isSpace).dropWhile isDigit = tail) : compactIdDecode text =
    if (1 ≤ digitsValue number ∧ digitsValue number ≤ 9999) ∧ (tail.dropWhile isAlpha).all isSpace = true ∧
        suffixValue (tail.takeWhile isAlpha) < 2 ^ 64 then
      joinId (digitsValue number) (suffixValue (tail.takeWhile isAlpha))
    else none := by
  rw [compactIdDecode, readBase_eq, guarded_eq digitStep_grows _ (Nat.zero_le _), foldl_digitStep, digits, behind]
  by_cases inside : digitsValue number ≤ 9999
  · rw [if_pos inside, Option.map_some, Option.bind_some]
    dsimp only
    by_cases positive : digitsValue number = 0
    · rw [if_pos (.inr positive), if_neg (by omega)]
    · have saw : (false || !number.isEmpty) := by
        cases number with
        | nil => exact absurd rfl positive
        | cons => rfl
      rw [if_neg (by simp [saw, positive]), readSuffix_eq (joinId (digitsValue number)) 0 tail,
        guarded_eq letterStep_grows _ (Nat.zero_le _), foldl_letterStep]
      by_cases clean : (tail.dropWhile isAlpha).all isSpace = true
      · rw [if_neg (by simp [clean])]
        by_cases small : suffixValue (tail.takeWhile isAlpha) < 2 ^ 64
        · rw [if_pos (Nat.le_sub_one_of_lt small), if_pos ⟨⟨pos_of_ne_zero positive, inside⟩, clean, small⟩]
          rfl
        · rw [if_neg (by omega), if_neg fun all => small all.2.2]
          rfl
      · rw [if_pos (by simpa using clean), if_neg fun all => clean all.2.1]
  · rw [if_neg inside, if_neg fun all => inside all.1.2]
    rfl

/-- A text is decoded when its suffix fits in 64 bits and what is left of the product takes the base. -/
theorem compactIdDecode_iff : compactIdDecode text = some id ↔ ∃ base letters, CompactText text base letters ∧
    suffixValue letters < 2 ^ 64 ∧ suffixValue letters * 9999 % 2 ^ 64 + base < 2 ^ 64 ∧
    id = suffixValue letters * 9999 % 2 ^ 64 + base := by
  rw [compactIdDecode_eq rfl rfl, Option.ite_none_right_eq_some]
  constructor
  · rintro ⟨⟨bounds, clean, small⟩, joined⟩
    exact ⟨_, _, compactText_iff.mpr ⟨⟨rfl, bounds⟩, rfl, clean⟩, small, (joinId_iff bounds.2).mp joined⟩
  · rintro ⟨base, letters, numeral, small, joined⟩
    obtain ⟨⟨rfl, bounds⟩, rfl, clean⟩ := compactText_iff.mp numeral
    exact ⟨⟨bounds, clean, small⟩, (joinId_iff bounds.2).mpr joined⟩

theorem CompactText.unique {base' : Nat} {letters' : Bytes} (here : CompactText text base letters)
    (there : CompactText text base' letters') : base' = base ∧ letters' = letters := by
  obtain ⟨⟨value, -⟩, rfl, -⟩ := compactText_iff.mp here
  obtain ⟨⟨value', -⟩, rfl, -⟩ := compactText_iff.mp there
  exact ⟨value'.symm.trans value, rfl⟩

/-- The decoder gives the id that a text stands for, and nothing else, unless the product wraps. -/
theorem decode_exact_iff : (∀ id, compactIdDecode text = some id ↔ Denotes text id ∧ id < 2 ^ 64) ↔ ¬ Wraps text := by
  constructor
  · rintro exact' ⟨base, letters, numeral, small, large, room⟩
    have decoded := compactIdDecode_iff.mpr ⟨base, letters, numeral, small, room, rfl⟩
    obtain ⟨⟨base', letters', numeral', value⟩, -⟩ := (exact' _).mp decoded
    obtain ⟨rfl, rfl⟩ := numeral.unique numeral'
    omega
  · intro straight id
    rw [compactIdDecode_iff]
    constructor
    · rintro ⟨base, letters, numeral, small, room, rfl⟩
      have fits : suffixValue letters * 9999 < 2 ^ 64 := by
        by_contra large
        exact straight ⟨base, letters, numeral, small, not_lt.mp large, room⟩
      exact ⟨⟨base, letters, numeral, by omega⟩, room⟩
    · rintro ⟨⟨base, letters, numeral, rfl⟩, room⟩
      exact ⟨base, letters, numeral, by omega, by omega, by omega⟩

end Reading

section Writing

theorem alphaIndex_letter {digit : Nat} (small : digit < 26) :
    isAlpha (UInt8.ofNat (97 + digit)) ∧ alphaIndex (UInt8.ofNat (97 + digit)) = digit := by
  interval_cases digit <;> decide

theorem suffixLetters_eq {room index : Nat} (enough : (digits 26 index).length ≤ room) :
    suffixLetters room index = some ((digits 26 index).map fun digit => UInt8.ofNat (97 + digit)) := by
  fun_induction suffixLetters room index with
  | case1 => simp [digits]
  | case2 => simp [digits] at enough
  | case3 room index ih =>
    rw [digits] at enough
    rw [ih (Nat.le_of_succ_le_succ enough), digits]
    rfl

theorem suffixValue_letters (index : Nat) :
    suffixValue ((digits 26 index).reverse.map fun digit => UInt8.ofNat (97 + digit)) = index := by
  have read : ((digits 26 index).reverse.map fun digit => UInt8.ofNat (97 + digit)).map alphaIndex =
      (digits 26 index).reverse := by
    rw [map_map]
    refine (map_congr_left ?_).trans (map_id _)
    intro digit member
    exact (alphaIndex_letter (digits_lt (by decide) index digit (mem_reverse.mp member))).2
  rw [suffixValue, read, bijective_digits]

def idText (id : Nat) : Bytes :=
  decimal ((id - 1) % 9999 + 1) ++ (digits 26 ((id - 1) / 9999)).reverse.map fun digit => UInt8.ofNat (97 + digit)

variable {id : Nat}

/-- An id of 64 bits takes at most eleven letters. -/
theorem digits_id_length (small : id < 2 ^ 64) : (digits 26 ((id - 1) / 9999)).length ≤ 11 :=
  digits_length_le 11 (by omega)

/-- Every id of 64 bits is written into a buffer of 32 bytes. -/
theorem compactIdEncode_eq (positive : 0 < id) (small : id < 2 ^ 64) : compactIdEncode id 32 = some (idText id) := by
  have number : (decimal ((id - 1) % 9999 + 1)).length ≤ 4 := decimal_length (by omega) (by decide)
  have letters := digits_id_length small
  simp only [compactIdEncode, idText]
  rw [if_neg (by omega), if_neg (by omega)]
  by_cases single : (id - 1) / 9999 = 0
  · rw [single, digits]
    simp
  · rw [if_neg single, suffixLetters_eq (by omega), Option.bind_some, length_map, if_neg (by omega),
      map_reverse]

theorem compactText_idText (id : Nat) : CompactText (idText id) ((id - 1) % 9999 + 1)
    ((digits 26 ((id - 1) / 9999)).reverse.map fun digit => UInt8.ofNat (97 + digit)) := by
  refine ⟨[], decimal ((id - 1) % 9999 + 1), [], by simp [idText], by simp, ⟨decimal_ne_nil _, decimal_isDigit _⟩,
    ⟨digitsValue_decimal _, by omega, by omega⟩, ?_, by simp⟩
  intro c member
  obtain ⟨digit, found, rfl⟩ := mem_map.mp member
  exact (alphaIndex_letter (digits_lt (by decide) _ digit (mem_reverse.mp found))).1

/-- What is written is read back. -/
theorem compactIdDecode_idText (positive : 0 < id) (small : id < 2 ^ 64) : compactIdDecode (idText id) = some id := by
  refine compactIdDecode_iff.mpr ⟨_, _, compactText_idText id, ?_⟩
  rw [suffixValue_letters]
  omega

/-- Every id of 64 bits is written and read back, and two ids are written in two ways. A text is read as the id that it
stands for exactly when the product of its suffix by 9999 does not wrap into a number that still takes the base. -/
theorem compactId_codec (text : Bytes) :
    (∀ id, 1 ≤ id → id ≤ 2 ^ 64 - 1 → ∃ text, compactIdEncode id 32 = some text ∧ compactIdDecode text = some id) ∧
    (∀ id id', 1 ≤ id → id ≤ 2 ^ 64 - 1 → 1 ≤ id' → id' ≤ 2 ^ 64 - 1 →
      compactIdEncode id 32 = compactIdEncode id' 32 → id = id') ∧
    ((∀ id, compactIdDecode text = some id ↔ Denotes text id ∧ id < 2 ^ 64) ↔ ¬ Wraps text) := by
  refine ⟨?_, ?_, decode_exact_iff⟩
  · intro id positive small
    exact ⟨idText id, compactIdEncode_eq positive (by omega), compactIdDecode_idText positive (by omega)⟩
  · intro id id' positive small positive' small' same
    rw [compactIdEncode_eq positive (by omega), compactIdEncode_eq positive' (by omega)] at same
    have read := compactIdDecode_idText positive (by omega)
    rw [Option.some.inj same, compactIdDecode_idText positive' (by omega)] at read
    exact (Option.some.inj read).symm

/-- The product of this suffix is a little more than 2^64, and the text is read as the id 8103. -/
theorem compactIdDecode_wraps : compactIdDecode (str "1matizxciqsp") = some 8103 ∧
    ¬ (Denotes (str "1matizxciqsp") 8103 ∧ 8103 < 2 ^ 64) := by
  have numeral : CompactText (str "1matizxciqsp") 1 (str "matizxciqsp") := compactText_iff.mpr (by decide)
  refine ⟨by decide, ?_⟩
  rintro ⟨⟨base, letters, numeral', value⟩, -⟩
  obtain ⟨rfl, rfl⟩ := numeral.unique numeral'
  exact absurd value (by decide)

end Writing

end SshChatter.Transport
