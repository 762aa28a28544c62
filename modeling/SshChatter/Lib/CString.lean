import Mathlib.Data.Nat.Digits.Lemmas
import Mathlib.Data.List.DropRight
import Mathlib.Data.List.TakeWhile
import Mathlib.Tactic

namespace CString
open List

abbrev Bytes := List UInt8

/-- The bytes of a text are tested, not all bytes. -/
instance (priority := high) (p : UInt8 → Prop) [DecidablePred p] (text : Bytes) : Decidable (∀ c ∈ text, p c) :=
  text.decidableBAll p

instance lawfulBytes : LawfulBEq Bytes := inferInstance

def byte (char : Char) : UInt8 := UInt8.ofNat char.toNat

def str (text : String) : Bytes := text.toList.map byte

/-- A character array holds a string and its terminator. -/
structure CBuffer (capacity : Nat) where
  text : Bytes
  fits : text.length < capacity
  deriving DecidableEq

def CBuffer.print {capacity : Nat} [NeZero capacity] (text : Bytes) : CBuffer capacity where
  text := text.take (capacity - 1)
  fits := by
    have positive := Nat.pos_of_neZero capacity
    rw [length_take]
    omega

theorem CBuffer.print_text {capacity : Nat} [NeZero capacity] (buffer : CBuffer capacity) :
    CBuffer.print buffer.text = buffer := by
  have fits := buffer.fits
  have whole : buffer.text.take (capacity - 1) = buffer.text := take_of_length_le (by omega)
  cases buffer
  simp only [print, mk.injEq]
  exact whole

/-- A cleared character array holds the empty string. -/
def CBuffer.zero {capacity : Nat} [NeZero capacity] : CBuffer capacity where
  text := []
  fits := Nat.pos_of_neZero capacity

instance room16 : NeZero 16 := ⟨by decide⟩

instance room32 : NeZero 32 := ⟨by decide⟩

instance room64 : NeZero 64 := ⟨by decide⟩

instance room256 : NeZero 256 := ⟨by decide⟩

instance room1024 : NeZero 1024 := ⟨by decide⟩

instance room4096 : NeZero 4096 := ⟨by decide⟩

/-- This is `tolower` in the C locale. -/
def toLower (c : UInt8) : UInt8 := if 65 ≤ c ∧ c ≤ 90 then c + 32 else c

def isDigit (c : UInt8) : Bool := 48 ≤ c ∧ c ≤ 57

/-- The conversion `%u` writes the decimal digits without padding. -/
def decimal (n : Nat) : Bytes :=
  if n = 0 then [48] else ((Nat.digits 10 n).reverse.map fun digit => UInt8.ofNat (48 + digit))

def digitsValue (text : Bytes) : Nat := text.foldl (fun value c => 10 * value + (c.toNat - 48)) 0

/-- This is `strtoul` in base ten at a digit. It saturates and returns the rest of the text. -/
def strtoul (text : Bytes) : Nat × Bytes :=
  (min (digitsValue (text.takeWhile isDigit)) (2 ^ 64 - 1), text.dropWhile isDigit)

/-- The conversion `%ld` writes a sign in front of a negative number. -/
def decimalInt (value : Int) : Bytes :=
  if value < 0 then byte '-' :: decimal value.natAbs else decimal value.natAbs

/-- This is `isspace` in the C locale. -/
def isSpace (c : UInt8) : Bool := c = 32 ∨ (9 ≤ c ∧ c ≤ 13)

/-- This is `atol`. It skips blanks, reads a sign and digits, and saturates like `strtol`. -/
def atol (text : Bytes) : Int :=
  match text.dropWhile isSpace with
  | [] => 0
  | c :: rest =>
    if c = byte '-' then max (-(digitsValue (rest.takeWhile isDigit) : Int)) (-2 ^ 63)
    else if c = byte '+' then min (digitsValue (rest.takeWhile isDigit) : Int) (2 ^ 63 - 1)
    else min (digitsValue ((c :: rest).takeWhile isDigit) : Int) (2 ^ 63 - 1)

/-- This is `strtol` in base ten. It has no result when no digit is read. -/
def strtol (text : Bytes) : Option Int :=
  match text.dropWhile isSpace with
  | [] => none
  | c :: rest =>
    let digits := if c = byte '-' ∨ c = byte '+' then rest.takeWhile isDigit else (c :: rest).takeWhile isDigit
    if digits = [] then none
    else if c = byte '-' then some (max (-(digitsValue digits : Int)) (-2 ^ 63))
    else some (min (digitsValue digits : Int) (2 ^ 63 - 1))

/-- This is `strtoul` in base ten where the text need not start with a digit. It skips blanks, negates behind a minus
sign, saturates, and has no result when no digit is read. -/
def strtoulField (text : Bytes) : Option Nat :=
  match text.dropWhile isSpace with
  | [] => none
  | c :: rest =>
    let digits := if c = byte '-' ∨ c = byte '+' then rest.takeWhile isDigit else (c :: rest).takeWhile isDigit
    if digits = [] then none
    else if 2 ^ 64 ≤ digitsValue digits then some (2 ^ 64 - 1)
    else if c = byte '-' then some ((2 ^ 64 - digitsValue digits) % 2 ^ 64)
    else some (digitsValue digits)

/-- The blanks around a text are removed. -/
def trimSpace (text : Bytes) : Bytes := (text.dropWhile isSpace).rdropWhile isSpace

/-- This is `strchr`. It returns the text before the first occurrence and the text behind it. -/
def strchr (c : UInt8) : Bytes → Option (Bytes × Bytes)
  | [] => none
  | d :: text => if d = c then some ([], text) else (strchr c text).map fun found => (d :: found.1, found.2)

/-- This is `strstr`. It returns the text before the first occurrence and the text from it on. -/
def strstr (needle : Bytes) : Bytes → Option (Bytes × Bytes)
  | [] => if needle = [] then some ([], []) else none
  | c :: text =>
    if needle <+: c :: text then some ([], c :: text)
    else (strstr needle text).map fun found => (c :: found.1, found.2)

theorem isDigit_digit {digit : Nat} (small : digit < 10) : isDigit (UInt8.ofNat (48 + digit)) := by
  interval_cases digit <;> decide

theorem digit_value {digit : Nat} (small : digit < 10) :
    (UInt8.ofNat (48 + digit)).toNat - 48 = digit := by
  interval_cases digit <;> decide

variable {c : UInt8} {needle text before found : Bytes} {rest : Bytes} (n : Nat) {value : Int}

theorem decimal_isDigit : ∀ c ∈ decimal n, isDigit c := by
  intro c member
  unfold decimal at member
  split at member
  · rw [mem_singleton] at member
    rw [member]
    decide
  · obtain ⟨digit, inside, rfl⟩ := mem_map.mp member
    exact isDigit_digit (Nat.digits_lt_base (by decide) (mem_reverse.mp inside))

/-- A printed number is not empty. -/
theorem decimal_ne_nil : decimal n ≠ [] := by
  unfold decimal
  split
  · simp
  next nonZero => simpa using Nat.digits_ne_nil_iff_ne_zero.mpr nonZero

/-- A printed number has no more digits than its bound allows. -/
theorem decimal_length {n places : Nat} (small : n < 10 ^ places) (some : 0 < places) :
    (decimal n).length ≤ places := by
  rw [decimal]
  split_ifs
  · exact some
  · rw [length_map, length_reverse]
    exact (Nat.digits_length_le_iff (by decide) n).mpr small

/-- The digits of a printed number give the number back. -/
theorem digitsValue_decimal : digitsValue (decimal n) = n := by
  unfold decimal
  split
  next zero => rw [zero]; decide
  next =>
    rw [digitsValue, foldl_map]
    calc (Nat.digits 10 n).reverse.foldl
          (fun value digit => 10 * value + ((UInt8.ofNat (48 + digit)).toNat - 48)) 0
        = (Nat.digits 10 n).foldr
          (fun digit value => 10 * value + ((UInt8.ofNat (48 + digit)).toNat - 48)) 0 :=
          foldl_reverse
      _ = Nat.ofDigits 10 (Nat.digits 10 n) := by
          have small : ∀ digit ∈ Nat.digits 10 n, digit < 10 := fun digit inside =>
            Nat.digits_lt_base (by decide) inside
          generalize Nat.digits 10 n = digits at small
          induction digits with
          | nil => rfl
          | cons digit rest ih =>
            rw [foldr_cons, ih fun d inside => small d (mem_cons_of_mem _ inside),
              digit_value (small digit mem_cons_self), Nat.ofDigits_cons]
            omega
      _ = n := Nat.ofDigits_digits 10 n

/-- The parser reads a printed number back when no digit follows it. -/
theorem strtoul_decimal {n : Nat} (small : n < 2 ^ 64) (stops : ∀ c, rest.head? = some c → isDigit c = false) :
    strtoul (decimal n ++ rest) = (n, rest) := by
  have rest' : rest.takeWhile isDigit = [] ∧ rest.dropWhile isDigit = rest := by
    cases rest with
    | nil => simp
    | cons c => simp [stops c rfl]
  rw [strtoul, takeWhile_append_of_pos (decimal_isDigit n),
    dropWhile_append_of_pos (decimal_isDigit n), rest'.1, rest'.2, append_nil,
    digitsValue_decimal, min_eq_left (by omega)]

/-- The search finds the first occurrence of the character. -/
theorem strchr_append {before : Bytes} (absent : c ∉ before) (rest : Bytes) :
    strchr c (before ++ c :: rest) = some (before, rest) := by
  induction before with
  | nil => simp [strchr]
  | cons d before ih =>
    rw [mem_cons, not_or] at absent
    rw [cons_append, strchr, if_neg (Ne.symm absent.1), ih absent.2]
    rfl

/-- The text before the first occurrence does not hold the character. -/
theorem strchr_some {text before rest : Bytes} (hit : strchr c text = some (before, rest)) :
    text = before ++ c :: rest ∧ c ∉ before := by
  induction text generalizing before with
  | nil => exact absurd hit (by simp [strchr])
  | cons d text ih =>
    rw [strchr] at hit
    split at hit
    next same =>
      obtain ⟨rfl, rfl⟩ := Prod.mk.inj (Option.some.inj hit)
      exact ⟨by rw [same]; rfl, not_mem_nil⟩
    next different =>
      obtain ⟨⟨before', rest'⟩, inner, same⟩ := Option.map_eq_some_iff.mp hit
      obtain ⟨rfl, rfl⟩ := Prod.mk.inj same
      obtain ⟨cut, absent⟩ := ih inner
      refine ⟨by rw [cut]; rfl, ?_⟩
      rw [mem_cons, not_or]
      exact ⟨Ne.symm different, absent⟩

/-- The search succeeds exactly when the text holds the character. -/
theorem strchr_isSome (c : UInt8) (text : Bytes) : (strchr c text).isSome ↔ c ∈ text := by
  constructor
  · intro hit
    obtain ⟨⟨before, rest⟩, hit⟩ := Option.isSome_iff_exists.mp hit
    rw [(strchr_some hit).1]
    exact mem_append_right _ mem_cons_self
  · intro member
    obtain ⟨before, rest, rfl, absent⟩ := eq_append_cons_of_mem member
    rw [strchr_append absent]
    rfl

/-- The search cuts the text at an occurrence. -/
theorem strstr_some (hit : strstr needle text = some (before, found)) :
    text = before ++ found ∧ needle <+: found := by
  induction text generalizing before with
  | nil =>
    simp only [strstr, Option.ite_none_right_eq_some] at hit
    obtain ⟨rfl, rfl, rfl⟩ := hit
    exact ⟨rfl, prefix_rfl⟩
  | cons c text ih =>
    rw [strstr] at hit
    split at hit
    next starts =>
      obtain ⟨rfl, rfl⟩ := Prod.mk.inj (Option.some.inj hit)
      exact ⟨rfl, starts⟩
    next =>
      obtain ⟨⟨before', found'⟩, inner, same⟩ := Option.map_eq_some_iff.mp hit
      obtain ⟨rfl, rfl⟩ := Prod.mk.inj same
      obtain ⟨cut, starts⟩ := ih inner
      exact ⟨by rw [cut, cons_append], starts⟩

/-- The search succeeds exactly when the text contains the needle. -/
theorem strstr_isSome (needle text : Bytes) : (strstr needle text).isSome ↔ needle <:+: text := by
  constructor
  · intro hit
    obtain ⟨⟨before, found⟩, hit⟩ := Option.isSome_iff_exists.mp hit
    obtain ⟨rfl, rest, rfl⟩ := strstr_some hit
    exact ⟨before, rest, by rw [append_assoc]⟩
  · intro inside
    induction text with
    | nil => simp [strstr, infix_nil.mp inside]
    | cons c text ih =>
      rw [strstr]
      split
      next => rfl
      next later =>
        rw [Option.isSome_map]
        rcases infix_cons_iff.mp inside with starts | inside
        · exact absurd starts later
        · exact ih inside

/-- Text without the first character of the needle is passed over. -/
theorem strstr_skip {needle before : Bytes} (absent : c ∉ before) (text : Bytes) :
    strstr (c :: needle) (before ++ text) =
      (strstr (c :: needle) text).map fun found => (before ++ found.1, found.2) := by
  induction before with
  | nil => simp
  | cons d before ih =>
    rw [mem_cons, not_or] at absent
    rw [cons_append, strstr, if_neg, ih absent.2, Option.map_map]
    · rfl
    · rw [cons_prefix_cons]
      exact fun starts => absent.1 starts.1

/-- A needle in front of the text is found there. -/
theorem strstr_self {needle : Bytes} (nonEmpty : needle ≠ []) (rest : Bytes) :
    strstr needle (needle ++ rest) = some ([], needle ++ rest) := by
  obtain ⟨c, needle, rfl⟩ := exists_cons_of_ne_nil nonEmpty
  rw [cons_append, strstr, if_pos]
  exact prefix_append _ _

/-- A needle that does not start here is searched behind the first character. -/
theorem strstr_cons {needle text : Bytes} (later : ¬ needle <+: c :: text) :
    strstr needle (c :: text) = (strstr needle text).map fun found => (c :: found.1, found.2) := by
  rw [strstr, if_neg later]

/-- A needle that starts with a character but not here is searched from the next such character on. -/
theorem strstr_segment {needle segment : Bytes} (absent : c ∉ segment) {text : Bytes}
    (later : ¬ needle <+: segment ++ text) :
    (strstr (c :: needle) (c :: (segment ++ text))).map Prod.snd =
      (strstr (c :: needle) text).map Prod.snd := by
  rw [strstr_cons (by rw [cons_prefix_cons]; exact fun starts => later starts.2),
    strstr_skip absent, Option.map_map, Option.map_map]
  rfl

/-- A cut text has the same first occurrence when the cut leaves it, and none otherwise. -/
theorem strstr_take (hit : strstr needle text = some (before, found)) (n : Nat) :
    strstr needle (text.take n) =
      if before.length + needle.length ≤ n then some (before, found.take (n - before.length)) else none := by
  induction text generalizing before n with
  | nil =>
    simp only [strstr, Option.ite_none_right_eq_some] at hit
    obtain ⟨rfl, rfl, rfl⟩ := hit
    simp [strstr]
  | cons c text ih =>
    by_cases starts : needle <+: c :: text
    · rw [strstr, if_pos starts] at hit
      obtain ⟨rfl, rfl⟩ := Prod.mk.inj (Option.some.inj hit)
      rw [length_nil, zero_add]
      split
      next fits =>
        have starts' : needle <+: (c :: text).take n := prefix_take_iff.mpr ⟨starts, fits⟩
        cases shown : (c :: text).take n with
        | nil =>
          rw [shown, prefix_nil] at starts'
          rw [starts']
          rfl
        | cons =>
          rw [shown] at starts'
          rw [strstr, if_pos starts']
      next short =>
        rw [← Option.not_isSome_iff_eq_none, strstr_isSome]
        intro inside
        have bound := inside.length_le
        rw [length_take] at bound
        omega
    · rw [strstr_cons starts] at hit
      obtain ⟨⟨before', found'⟩, inner, same⟩ := Option.map_eq_some_iff.mp hit
      obtain ⟨rfl, rfl⟩ := Prod.mk.inj same
      cases n with
      | zero =>
        have nonEmpty : needle ≠ [] := fun empty => starts (empty ▸ nil_prefix)
        simp [strstr, nonEmpty]
      | succ n =>
        have starts' : ¬ needle <+: c :: text.take n := fun cut =>
          starts (cut.trans (List.take_prefix (n + 1) (c :: text)))
        rw [take_succ_cons, strstr_cons starts', ih inner n]
        simp only [length_cons]
        by_cases fits : before'.length + needle.length ≤ n
        · rw [if_pos fits, if_pos (by omega), Nat.add_sub_add_right]
          rfl
        · rw [if_neg fits, if_neg (by omega)]
          rfl

theorem digitsValue_append (text text' : Bytes) :
    digitsValue (text ++ text') = digitsValue text * 10 ^ text'.length + digitsValue text' := by
  have continued (start : Nat) (rest : Bytes) :
      rest.foldl (fun value c => 10 * value + (c.toNat - 48)) start =
        start * 10 ^ rest.length + digitsValue rest := by
    induction rest using reverseRecOn with
    | nil => simp [digitsValue]
    | append_singleton rest c ih =>
      rw [digitsValue, foldl_append, foldl_append, ih, length_append]
      simp only [foldl_cons, foldl_nil, length_singleton, digitsValue]
      ring
  rw [digitsValue, foldl_append, continued]
  rfl

/-- A printed number that is cut short reads as a smaller number. -/
theorem digitsValue_take_lt {n k : Nat} (positive : n ≠ 0) (short : k < (decimal n).length) :
    digitsValue ((decimal n).take k) < n := by
  have whole : digitsValue ((decimal n).take k ++ (decimal n).drop k) = n := by
    rw [take_append_drop, digitsValue_decimal]
  have longer : 10 ^ 1 ≤ 10 ^ ((decimal n).drop k).length :=
    Nat.pow_le_pow_right (by decide) (by rw [length_drop]; omega)
  rw [digitsValue_append] at whole
  have scaled := Nat.mul_le_mul_left (digitsValue ((decimal n).take k)) longer
  omega

/-- A digit is neither a blank nor a sign. -/
theorem isDigit_plain (digit : isDigit c) : isSpace c = false ∧ c ≠ byte '-' ∧ c ≠ byte '+' := by
  simp only [isDigit, decide_eq_true_eq, UInt8.le_iff_toNat_le] at digit
  have low : (48 : UInt8).toNat = 48 := rfl
  refine ⟨?_, ?_, ?_⟩
  · simp only [isSpace, decide_eq_false_iff_not, UInt8.le_iff_toNat_le, ← UInt8.toNat_inj]
    have space : (32 : UInt8).toNat = 32 := rfl
    have last : (13 : UInt8).toNat = 13 := rfl
    omega
  all_goals
    intro same
    rw [same] at digit
    revert digit
    decide

theorem takeWhile_isDigit {digits rest : Bytes} (all : ∀ c ∈ digits, isDigit c = true)
    (stops : ∀ c, rest.head? = some c → isDigit c = false) : (digits ++ rest).takeWhile isDigit = digits := by
  rw [takeWhile_append_of_pos all]
  cases rest with
  | nil => simp
  | cons c => simp [stops c rfl]

theorem atol_digits {digits rest : Bytes} (all : ∀ c ∈ digits, isDigit c = true) (nonEmpty : digits ≠ [])
    (stops : ∀ c, rest.head? = some c → isDigit c = false) :
    atol (digits ++ rest) = min (digitsValue digits : Int) (2 ^ 63 - 1) := by
  have run := takeWhile_isDigit all stops
  obtain ⟨c, digits', rfl⟩ := exists_cons_of_ne_nil nonEmpty
  obtain ⟨notSpace, notMinus, notPlus⟩ := isDigit_plain (all c mem_cons_self)
  rw [cons_append] at run ⊢
  rw [atol, dropWhile_cons_of_neg (by simp [notSpace])]
  dsimp only
  rw [if_neg notMinus, if_neg notPlus, run]

theorem atol_minus {digits rest : Bytes} (all : ∀ c ∈ digits, isDigit c = true)
    (stops : ∀ c, rest.head? = some c → isDigit c = false) :
    atol (byte '-' :: (digits ++ rest)) = max (-(digitsValue digits : Int)) (-2 ^ 63) := by
  have run := takeWhile_isDigit all stops
  rw [atol, dropWhile_cons_of_neg (by decide)]
  dsimp only
  rw [if_pos rfl, run]

/-- The parser reads a printed number back when no digit follows it. -/
theorem atol_decimalInt (low : -2 ^ 63 ≤ value) (high : value < 2 ^ 63)
    (stops : ∀ c, rest.head? = some c → isDigit c = false) : atol (decimalInt value ++ rest) = value := by
  unfold decimalInt
  split
  next negative =>
    rw [cons_append, atol_minus (decimal_isDigit _) stops, digitsValue_decimal]
    omega
  next =>
    rw [atol_digits (decimal_isDigit _) (decimal_ne_nil _) stops, digitsValue_decimal]
    omega

theorem strtol_blank (text : Bytes) : strtol (byte ' ' :: text) = strtol text := by
  unfold strtol
  rw [dropWhile_cons_of_pos (by decide)]

/-- `strtol` reads a printed number back when no digit follows it. -/
theorem strtol_decimal {n : Nat} (small : n < 2 ^ 63) (stops : ∀ c, rest.head? = some c → isDigit c = false) :
    strtol (decimal n ++ rest) = some (n : Int) := by
  have run := takeWhile_isDigit (decimal_isDigit n) stops
  have value := digitsValue_decimal n
  have digit := decimal_isDigit n
  obtain ⟨c, digits, form⟩ := exists_cons_of_ne_nil (decimal_ne_nil n)
  rw [form] at run digit value ⊢
  obtain ⟨notSpace, notMinus, notPlus⟩ := isDigit_plain (digit c mem_cons_self)
  rw [cons_append] at run ⊢
  rw [strtol, dropWhile_cons_of_neg (by simp [notSpace])]
  simp only [notMinus, notPlus, or_self, if_false, run]
  rw [if_neg (cons_ne_nil _ _)]
  congr 1
  omega

/-- A printed number that is cut short reads as another number, unless it is zero. -/
theorem atol_decimalInt_take {k : Nat} (short : k < (decimalInt value).length) :
    atol ((decimalInt value).take k) = value ↔ value = 0 := by
  have stops : ∀ c, ([] : Bytes).head? = some c → isDigit c = false := by simp
  have part (n j : Nat) : ∀ c ∈ (decimal n).take j, isDigit c := fun c member =>
    decimal_isDigit n c (mem_of_mem_take member)
  cases k with
  | zero =>
    exact ⟨fun same => same.symm, fun same => same.symm⟩
  | succ k =>
    unfold decimalInt at short ⊢
    split at short
    next negative =>
      have smaller := digitsValue_take_lt (by omega) (Nat.lt_of_succ_lt_succ short)
      have read := atol_minus (part value.natAbs k) stops
      rw [append_nil] at read
      rw [if_pos negative, take_succ_cons]
      omega
    next natural =>
      have nonEmpty : (decimal value.natAbs).take (k + 1) ≠ [] := by
        rw [ne_eq, take_eq_nil_iff, not_or]
        exact ⟨Nat.succ_ne_zero k, decimal_ne_nil _⟩
      have read := atol_digits (part value.natAbs (k + 1)) nonEmpty stops
      rw [append_nil] at read
      rw [if_neg natural]
      by_cases zero : value.natAbs = 0
      · rw [zero, show (decimal 0).length = 1 from rfl] at short
        omega
      · have smaller := digitsValue_take_lt zero short
        omega

/-- A printed number has only digits and a sign. -/
theorem decimalInt_plain (value : Int) : ∀ c ∈ decimalInt value, isDigit c ∨ c = byte '-' := by
  intro c member
  unfold decimalInt at member
  split at member
  · rcases mem_cons.mp member with sign | digit
    · exact .inr sign
    · exact .inl (decimal_isDigit _ c digit)
  · exact .inl (decimal_isDigit _ c member)

/-- The parser returns a `long`. -/
theorem atol_range (text : Bytes) : -2 ^ 63 ≤ atol text ∧ atol text < 2 ^ 63 := by
  unfold atol
  split
  · decide
  · split_ifs <;> omega

/-- Text that is cut off a negative number never reads as a positive one. -/
theorem atol_nonpos (negative : value < 0) (rest : Bytes) (k : Nat) :
    atol ((decimalInt value ++ rest).take k) ≤ 0 := by
  cases k with
  | zero => exact Int.le_refl 0
  | succ =>
    rw [decimalInt, if_pos negative, cons_append, take_succ_cons, atol,
      dropWhile_cons_of_neg (by decide)]
    dsimp only
    rw [if_pos rfl]
    omega

/-- More text behind the first occurrence does not move it. -/
theorem strstr_append (hit : strstr needle text = some (before, found)) (rest : Bytes) :
    strstr needle (text ++ rest) = some (before, found ++ rest) := by
  obtain ⟨split, starts⟩ := strstr_some hit
  have inside : needle <:+: text ++ rest :=
    ((strstr_isSome needle text).mp (by rw [hit]; rfl)).trans (infix_append' [] text rest)
  obtain ⟨⟨before', found'⟩, whole⟩ := Option.isSome_iff_exists.mp ((strstr_isSome needle (text ++ rest)).mpr inside)
  have cut := strstr_take whole text.length
  rw [take_left, hit] at cut
  split_ifs at cut
  obtain ⟨rfl, -⟩ := Prod.mk.inj (Option.some.inj cut)
  obtain ⟨joined, -⟩ := strstr_some whole
  rw [split, append_assoc] at joined
  rw [whole, append_cancel_left joined]

/-- A needle without the character does not reach across it. -/
theorem prefix_stop {needle : Bytes} (clean : c ∉ needle) (front rest : Bytes) :
    needle <+: front ++ c :: rest ↔ needle <+: front := by
  constructor
  · rintro ⟨behind, same⟩
    rcases append_eq_append_iff.mp same with ⟨more, frontEq, -⟩ | ⟨more, needleEq, restEq⟩
    · exact ⟨more, frontEq.symm⟩
    · cases more with
      | nil => exact ⟨[], by simpa using needleEq⟩
      | cons =>
        obtain ⟨rfl, -⟩ := cons.inj restEq
        exact absurd (by rw [needleEq]; simp) clean
  · exact fun starts => starts.trans (prefix_append _ _)

/-- A needle without the character is not found across it. -/
theorem strstr_past {needle text : Bytes} (nonEmpty : needle ≠ []) (clean : c ∉ needle) (absent : ¬ needle <:+: text)
    (rest : Bytes) :
    (strstr needle (text ++ c :: rest)).map Prod.snd = (strstr needle rest).map Prod.snd := by
  induction text with
  | nil =>
    rw [nil_append, strstr_cons, Option.map_map]
    · rfl
    · intro starts
      exact nonEmpty (prefix_nil.mp ((prefix_stop clean [] rest).mp starts))
  | cons d text ih =>
    rw [cons_append, strstr_cons, Option.map_map]
    · exact ih fun inside => absent (infix_cons inside)
    · intro starts
      exact absent ((prefix_stop clean (d :: text) rest).mp starts).isInfix

theorem dropWhile_stop {p : UInt8 → Bool} (stop : p c = false) (text w : Bytes) :
    (text ++ c :: w).dropWhile p = text.dropWhile p ++ c :: w := by
  rw [dropWhile_append]
  split_ifs with all
  · rw [isEmpty_iff.mp all, dropWhile_cons_of_neg (by simp [stop])]
    rfl
  · rfl

theorem takeWhile_stop {p : UInt8 → Bool} (stop : p c = false) (text w : Bytes) :
    (text ++ c :: w).takeWhile p = text.takeWhile p := by
  rw [takeWhile_append]
  split_ifs with all
  · rw [takeWhile_cons_of_neg (by simp [stop]), append_nil,
      (List.takeWhile_prefix p).eq_of_length all]
  · rfl

/-- What is read in front of another character does not depend on the text behind it. -/
theorem strtoulField_stop (space : isSpace c = false) (digit : isDigit c = false)
    (sign : ¬ (c = byte '-' ∨ c = byte '+')) (text w w' : Bytes) :
    strtoulField (text ++ c :: w) = strtoulField (text ++ c :: w') := by
  rw [strtoulField, strtoulField, dropWhile_stop space, dropWhile_stop space]
  cases text.dropWhile isSpace with
  | nil => simp [sign, digit]
  | cons d rest =>
      have run (w : Bytes) : (d :: (rest ++ c :: w)).takeWhile isDigit = (d :: rest).takeWhile isDigit :=
        takeWhile_stop digit (d :: rest) w
      simp only [cons_append, takeWhile_stop digit, run]

/-- A printed number is read back, and saturates. -/
theorem strtoulField_decimal (stops : ∀ c, rest.head? = some c → isDigit c = false) :
    strtoulField (decimal n ++ rest) = some (min n (2 ^ 64 - 1)) := by
  have run := takeWhile_isDigit (decimal_isDigit n) stops
  have value := digitsValue_decimal n
  obtain ⟨c, digits, printed⟩ := exists_cons_of_ne_nil (decimal_ne_nil n)
  obtain ⟨notSpace, notMinus, notPlus⟩ := isDigit_plain (decimal_isDigit n c (by rw [printed]; exact mem_cons_self))
  rw [printed] at run value ⊢
  rw [cons_append] at run ⊢
  rw [strtoulField, dropWhile_cons_of_neg (by simp [notSpace])]
  have unsigned : ¬ (c = byte '-' ∨ c = byte '+') := not_or.mpr ⟨notMinus, notPlus⟩
  simp only [if_neg unsigned, run, value, if_neg (cons_ne_nil _ _)]
  split_ifs with large
  · rw [Nat.min_eq_right (by omega)]
  · rw [min_eq_left (by omega)]

/-- A character array of one more byte than the room holds a text without NUL and its terminator. -/
structure CText (room : Nat) where
  text : Bytes
  fits : text.length ≤ room
  clean : 0 ∉ text
  deriving DecidableEq

theorem mem_printed {text : Bytes} {room : Nat} : 0 ∉ (text.takeWhile (· ≠ 0)).take room := by
  intro member
  have kept := all_eq_true.mp all_takeWhile 0 (mem_of_mem_take member)
  simp at kept

def CText.print {room : Nat} (text : Bytes) : CText room :=
  ⟨(text.takeWhile (· ≠ 0)).take room, length_take_le room _, mem_printed⟩

/-- A cleared character array. -/
def CText.zero {room : Nat} : CText room := ⟨[], Nat.zero_le _, not_mem_nil⟩

theorem CText.print_text {room : Nat} (buffer : CText room) : CText.print buffer.text = buffer := by
  have visible : buffer.text.takeWhile (· ≠ 0) = buffer.text := by
    apply takeWhile_eq_self_iff.mpr
    intro c member
    exact decide_eq_true fun zero => buffer.clean (zero ▸ member)
  have whole : (buffer.text.takeWhile (· ≠ 0)).take room = buffer.text := by
    rw [visible, take_of_length_le buffer.fits]
  cases buffer
  simp only [print, mk.injEq]
  exact whole

/-- What one call of `fgets` reads into a buffer of the size. -/
def fgets (size : Nat) (file : Bytes) : Bytes :=
  match strchr 10 (file.take (size - 1)) with
  | some (line, _) => line ++ [10]
  | none => file.take (size - 1)

/-- The lines that `fgets` reads until the end of a file, for at most so many calls. -/
def fgetsLines (size : Nat) : Nat → Bytes → List Bytes
  | 0, _ => []
  | calls + 1, file =>
    if file = [] then [] else fgets size file :: fgetsLines size calls (file.drop (fgets size file).length)

theorem fgetsLines_lines {size : Nat} {lines : List Bytes} (fits : ∀ line ∈ lines, 10 ∉ line ∧ line.length + 1 < size)
    {calls : Nat} (enough : lines.length ≤ calls) :
    fgetsLines size calls (lines.flatMap (· ++ [10])) = lines.map (· ++ [10]) := by
  induction lines generalizing calls with
  | nil =>
    cases calls with
    | zero => rfl
    | succ => rfl
  | cons line rest ih =>
    obtain ⟨⟨clean, short⟩, later⟩ := forall_mem_cons.mp fits
    cases calls with
    | zero => exact absurd enough (by simp)
    | succ =>
      have first : fgets size (line ++ [10] ++ rest.flatMap (· ++ [10])) = line ++ [10] := by
        have window : (line ++ [10] ++ rest.flatMap (· ++ [10])).take (size - 1) =
            line ++ 10 :: (rest.flatMap (· ++ [10])).take (size - 1 - (line ++ [10]).length) := by
          rw [take_append, take_of_length_le (by simp; omega), append_assoc]
          rfl
        rw [fgets, window, strchr_append clean]
      rw [flatMap_cons, fgetsLines, if_neg (by simp), first, drop_left, ih later (by simpa using enough)]
      rfl

end CString
