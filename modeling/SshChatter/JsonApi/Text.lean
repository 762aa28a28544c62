import SshChatter.Lib.JsonText

namespace SshChatter.JsonApi
open CString JsonText List

/-- The bytes that `json_api_decode_string` has written, and the cursor behind the string when it succeeds. -/
structure Decoded where
  written : Bytes
  next : Option Bytes
  deriving DecidableEq

def Decoded.after (out : Bytes) (later : Decoded) : Decoded := ⟨out ++ later.written, later.next⟩

def decodeStringLoop : Nat → Nat → Bytes → Decoded
  | 0, _, _ => ⟨[], none⟩
  | _ + 1, _, [] => ⟨[], none⟩
  | fuel + 1, remaining, c :: cursor =>
    if c = quote then ⟨[], some cursor⟩
    else if c = backslash then
      match unescape cursor with
      | none => ⟨[], none⟩
      | some (out, cursor) =>
        if remaining < out.length then ⟨[], none⟩
        else (decodeStringLoop fuel (remaining - out.length) cursor).after out
    else if c < 0x20 then ⟨[], none⟩
    else if remaining < 1 then ⟨[], none⟩
    else (decodeStringLoop fuel (remaining - 1) cursor).after [c]

/-- The output is written within its room. -/
theorem decodeStringLoop_written (fuel remaining : Nat) (cursor : Bytes) :
    (decodeStringLoop fuel remaining cursor).written.length ≤ remaining := by
  induction fuel generalizing remaining cursor with
  | zero => exact Nat.zero_le _
  | succ fuel ih =>
    cases cursor with
    | nil => exact Nat.zero_le _
    | cons c cursor =>
      have later (room : Nat) (out next : Bytes) (fits : ¬ room < out.length) :
          ((decodeStringLoop fuel (room - out.length) next).after out).written.length ≤ room := by
        have bound := ih (room - out.length) next
        rw [Decoded.after, length_append]
        omega
      rw [decodeStringLoop]
      split_ifs with closing escape control full
      · exact Nat.zero_le _
      · cases unescape cursor with
        | none => exact Nat.zero_le _
        | some result =>
          obtain ⟨out, next⟩ := result
          dsimp only
          split_ifs with full
          · exact Nat.zero_le _
          · exact later remaining out next full
      · exact Nat.zero_le _
      · exact Nat.zero_le _
      · exact later remaining [c] cursor full

/-- The string in a character array ends at its first NUL. -/
def cText (written : Bytes) : Bytes := written.takeWhile (· ≠ 0)

theorem cText_length_le (written : Bytes) : (cText written).length ≤ written.length :=
  (List.takeWhile_prefix _).length_le

theorem cText_eq_iff (text : Bytes) : cText text = text ↔ 0 ∉ text := by
  rw [cText, takeWhile_eq_self_iff]
  simp only [decide_not, Bool.not_eq_eq_eq_not, Bool.not_true, decide_eq_false_iff_not]
  constructor
  · exact fun all zero => all 0 zero rfl
  · rintro clean c member rfl
    exact clean member

theorem decodeStringLoop_cases {fuel : Nat} {cursor : Bytes} (enough : cursor.length ≤ fuel) (remaining : Nat) :
    ((decodeStringLoop fuel remaining cursor).next = none ∧
        ∀ out next, decode cursor = some (out, next) → remaining < out.length) ∨
      ∃ out next, decodeStringLoop fuel remaining cursor = ⟨out, some next⟩ ∧ decode cursor = some (out, next) ∧
        out.length ≤ remaining := by
  induction fuel generalizing remaining cursor with
  | zero =>
    obtain rfl := length_eq_zero_iff.mp (Nat.le_zero.mp enough)
    exact .inl ⟨rfl, fun _ _ found => by cases found⟩
  | succ fuel ih =>
    -- A step that writes leaves the claim to the steps behind it.
    have later (code next : Bytes) (short : next.length ≤ fuel) (room : code.length ≤ remaining)
        (step : decode cursor = (decode next).map fun later => (code ++ later.1, later.2))
        (written : decodeStringLoop (fuel + 1) remaining cursor =
          (decodeStringLoop fuel (remaining - code.length) next).after code) :
        ((decodeStringLoop (fuel + 1) remaining cursor).next = none ∧
            ∀ out next, decode cursor = some (out, next) → remaining < out.length) ∨
          ∃ out next, decodeStringLoop (fuel + 1) remaining cursor = ⟨out, some next⟩ ∧
            decode cursor = some (out, next) ∧ out.length ≤ remaining := by
      rw [written, step]
      rcases ih short (remaining - code.length) with ⟨failed, long⟩ | ⟨out, final, equal, found, fits⟩
      · refine .inl ⟨failed, fun out final found => ?_⟩
        obtain ⟨⟨text, behind⟩, inner, same⟩ := Option.map_eq_some_iff.mp found
        obtain ⟨rfl, rfl⟩ := Prod.mk.inj same
        have rest := long text behind inner
        change remaining < (code ++ text).length
        rw [length_append]
        omega
      · refine .inr ⟨code ++ out, final, by rw [equal]; rfl, by rw [found]; rfl, ?_⟩
        rw [length_append]
        omega
    cases cursor with
    | nil => exact .inl ⟨rfl, fun _ _ found => by cases found⟩
    | cons c cursor =>
      have short : cursor.length ≤ fuel := Nat.le_of_succ_le_succ enough
      rcases byte_cases c with plain | rfl | rfl | control
      · have step : decode (c :: cursor) = (decode cursor).map fun later => (c :: later.1, later.2) :=
          decode_plain plain
        simp only [isPlain, Bool.and_eq_true, decide_eq_true_eq] at plain
        have unfolded : decodeStringLoop (fuel + 1) remaining (c :: cursor) =
            if remaining < 1 then ⟨[], none⟩ else (decodeStringLoop fuel (remaining - 1) cursor).after [c] := by
          rw [decodeStringLoop, if_neg plain.1.1, if_neg plain.1.2, if_neg (UInt8.not_lt.mpr plain.2)]
        by_cases full : remaining < 1
        · refine .inl ⟨by rw [unfolded, if_pos full], fun out next found => ?_⟩
          rw [step] at found
          obtain ⟨text, -, same⟩ := Option.map_eq_some_iff.mp found
          obtain ⟨rfl, -⟩ := Prod.mk.inj same
          rw [length_cons]
          omega
        · apply later [c] cursor short (by rw [length_singleton]; omega) step
          rw [unfolded, if_neg full]
          rfl
      · exact .inr ⟨[], cursor, rfl, decode_quote, Nat.zero_le _⟩
      · cases escape : unescape cursor with
        | none =>
          refine .inl ⟨by rw [decodeStringLoop, if_neg (by decide), if_pos rfl, escape], fun out next found => ?_⟩
          rw [decode_bad_escape escape] at found
          cases found
        | some result =>
          obtain ⟨code, next⟩ := result
          obtain ⟨raw, split, -⟩ := unescape_spec escape
          have shorter : next.length ≤ fuel := by
            rw [split, length_append] at short
            omega
          have step := decode_escape escape
          have unfolded : decodeStringLoop (fuel + 1) remaining (backslash :: cursor) =
              if remaining < code.length then ⟨[], none⟩
              else (decodeStringLoop fuel (remaining - code.length) next).after code := by
            rw [decodeStringLoop, if_neg (by decide), if_pos rfl, escape]
          by_cases full : remaining < code.length
          · refine .inl ⟨by rw [unfolded, if_pos full], fun out next found => ?_⟩
            rw [step] at found
            obtain ⟨text, -, same⟩ := Option.map_eq_some_iff.mp found
            obtain ⟨rfl, -⟩ := Prod.mk.inj same
            rw [length_append]
            omega
          · apply later code next shorter (not_lt.mp full) step
            rw [unfolded, if_neg full]
      · have other : c ≠ quote ∧ c ≠ backslash := by
          constructor <;> rintro rfl <;> exact absurd control (by decide)
        refine .inl ⟨by rw [decodeStringLoop, if_neg other.1, if_neg other.2, if_pos control], fun out next found => ?_⟩
        rw [decode_control control] at found
        cases found

section Extraction

variable {capacity : Nat} [NeZero capacity]

theorem decodeString_fits (cursor : Bytes) :
    (cText (decodeStringLoop cursor.length (capacity - 1) cursor).written).length < capacity := by
  have positive := Nat.pos_of_neZero capacity
  have bound := decodeStringLoop_written cursor.length (capacity - 1) cursor
  have shorter := cText_length_le (decodeStringLoop cursor.length (capacity - 1) cursor).written
  omega

/-- This is `json_api_decode_string` into a cleared output. A failure leaves what it has written. -/
def decodeString (input : Bytes) : CBuffer capacity × Option Bytes :=
  match input with
  | [] => (CBuffer.zero, none)
  | c :: cursor =>
    if c = quote then
      (⟨cText (decodeStringLoop cursor.length (capacity - 1) cursor).written, decodeString_fits cursor⟩,
        (decodeStringLoop cursor.length (capacity - 1) cursor).next)
    else (CBuffer.zero, none)

theorem decodeString_some {text out rest : Bytes} (found : decode text = some (out, rest))
    (fits : out.length < capacity) :
    (decodeString (quote :: text) : CBuffer capacity × Option Bytes).1.text = cText out ∧
      (decodeString (quote :: text) : CBuffer capacity × Option Bytes).2 = some rest := by
  rw [decodeString, if_pos rfl]
  rcases decodeStringLoop_cases (le_refl text.length) (capacity - 1) with ⟨-, long⟩ | ⟨written, next, equal, inner, -⟩
  · have short := long out rest found
    omega
  · rw [found] at inner
    obtain ⟨rfl, rfl⟩ := Prod.mk.inj (Option.some.inj inner)
    dsimp only
    rw [equal]
    exact ⟨rfl, rfl⟩

theorem decodeString_none {text : Bytes} (failed : ∀ out rest, decode text = some (out, rest) → capacity ≤ out.length) :
    (decodeString (quote :: text) : CBuffer capacity × Option Bytes).2 = none := by
  have positive := Nat.pos_of_neZero capacity
  rcases decodeStringLoop_cases (le_refl text.length) (capacity - 1) with ⟨fails, -⟩ | ⟨out, next, -, found, fits⟩
  · exact fails
  · have long := failed out next found
    omega

def quoted (name : Bytes) : Bytes := quote :: (name ++ [quote])

def findKey (json key : Bytes) : Option Bytes :=
  match strstr key json with
  | none => none
  | some (_, keyPos) => (strchr (byte ':') (keyPos.drop key.length)).map Prod.snd

def skipWhitespace (cursor : Bytes) : Bytes := cursor.dropWhile isBlank

def extractString (json key : Bytes) : CBuffer capacity × Bool :=
  match findKey json key with
  | none => (CBuffer.zero, false)
  | some cursor =>
    let decoded := decodeString (skipWhitespace cursor)
    (decoded.1, decoded.2.isSome)

def extractBool (json key : Bytes) : Option Bool :=
  match findKey json key with
  | none => none
  | some cursor =>
    if str "true" <+: skipWhitespace cursor then some true
    else if str "false" <+: skipWhitespace cursor then some false
    else none

def extractUint (json key : Bytes) : Option Nat :=
  match findKey json key with
  | none => none
  | some cursor => strtoulField (skipWhitespace cursor)

/-- The loop of `json_api_extract_string_array` with the number of free items. It returns the items that it has
written, the number of complete ones among them, and its answer. -/
def extractItems : Nat → Nat → Bytes → List (CBuffer capacity) × Nat × Bool
  | 0, _, _ => ([], 0, false)
  | fuel + 1, free, cursor =>
    match cursor with
    | [] => ([], 0, false)
    | _ :: _ =>
      match skipWhitespace cursor with
      | [] => ([], 0, false)
      | c :: rest =>
        if c = byte ']' then ([], 0, true)
        else if c ≠ quote then ([], 0, false)
        else if free = 0 then ([], 0, false)
        else
          match decodeString (c :: rest) with
          | (item, none) => ([item], 0, false)
          | (item, some next) =>
            match skipWhitespace next with
            | [] => ([item], 1, false)
            | d :: behind =>
              if d = byte ',' then
                let later := extractItems fuel (free - 1) behind
                (item :: later.1, later.2.1 + 1, later.2.2)
              else ([item], 1, d = byte ']')

def extractStringArray (json key : Bytes) (maxItems : Nat) : List (CBuffer capacity) × Nat × Bool :=
  match findKey json key with
  | none => ([], 0, false)
  | some cursor =>
    match skipWhitespace cursor with
    | [] => ([], 0, false)
    | c :: rest => if c = byte '[' then extractItems rest.length maxItems rest else ([], 0, false)

end Extraction

def normalizeToken (text : Bytes) : Bytes :=
  match text.map toLower with
  | [] => []
  | c :: rest => if c = byte '/' then rest else c :: rest

/-- A digit of the conversion `%x`. -/
def hexDigit (value : Nat) : UInt8 := if value < 10 then UInt8.ofNat (48 + value) else UInt8.ofNat (87 + value)

def escapeByte (c : UInt8) : Bytes :=
  if c = quote then [backslash, quote]
  else if c = backslash then [backslash, backslash]
  else if c = 8 then [backslash, byte 'b']
  else if c = 12 then [backslash, byte 'f']
  else if c = 10 then [backslash, byte 'n']
  else if c = 13 then [backslash, byte 'r']
  else if c = 9 then [backslash, byte 't']
  else if c < 0x20 then
    [backslash, byte 'u', byte '0', byte '0', hexDigit (c.toNat / 16), hexDigit (c.toNat % 16)]
  else [c]

def escapeString (input : Bytes) : Bytes := input.flatMap escapeByte

theorem unescape_control {c : UInt8} (control : c < 0x20) (behind : Bytes) :
    unescape ([byte 'u', byte '0', byte '0', hexDigit (c.toNat / 16), hexDigit (c.toNat % 16)] ++ behind) =
      some ([c], behind) := by
  have small : c.toNat < 32 := UInt8.lt_iff_toNat_lt.mp control
  obtain ⟨n, rfl⟩ : ∃ n : Fin 32, c = UInt8.ofNat n := ⟨⟨c.toNat, small⟩, by simp⟩
  fin_cases n <;> rfl

theorem reads_escapeByte (c : UInt8) {body out : Bytes} (reads : Reads body out) :
    Reads (escapeByte c ++ body) (c :: out) := by
  rw [escapeByte]
  split_ifs with isQuote isBackslash isB isF isN isR isT control
  · exact reads_simple (by rw [isQuote]; rfl) reads
  · exact reads_simple (by rw [isBackslash]; rfl) reads
  · exact reads_simple (by rw [isB]; rfl) reads
  · exact reads_simple (by rw [isF]; rfl) reads
  · exact reads_simple (by rw [isN]; rfl) reads
  · exact reads_simple (by rw [isR]; rfl) reads
  · exact reads_simple (by rw [isT]; rfl) reads
  · exact reads_escape (unescape_control control) reads
  · apply reads_cons _ reads
    simp [isPlain, isQuote, isBackslash, UInt8.not_lt.mp control]

theorem reads_escapeString (text : Bytes) : Reads (escapeString text) text := by
  induction text with
  | nil => exact reads_nil
  | cons c text ih =>
    exact reads_escapeByte c ih

def bareQuote : Bytes → Bool
  | [] => false
  | [c] => c = quote
  | c :: d :: text => if c = backslash then bareQuote text else c = quote || bareQuote (d :: text)

theorem bareQuote_plain {c : UInt8} (plain : isPlain c) (text : Bytes) : bareQuote (c :: text) = bareQuote text := by
  simp only [isPlain, Bool.and_eq_true, decide_eq_true_eq] at plain
  cases text with
  | nil => simp [bareQuote, plain]
  | cons => simp [bareQuote, plain]

theorem hexDigit_plain {n : Nat} (digit : n < 16) : isPlain (hexDigit n) := by
  interval_cases n <;> rfl

theorem bareQuote_escapeByte (c : UInt8) (text : Bytes) : bareQuote (escapeByte c ++ text) = bareQuote text := by
  rw [escapeByte]
  split_ifs with isQuote isBackslash isB isF isN isR isT control
  iterate 7 rfl
  · have small : c.toNat < 32 := UInt8.lt_iff_toNat_lt.mp control
    have high := hexDigit_plain (show c.toNat / 16 < 16 by omega)
    have low := hexDigit_plain (show c.toNat % 16 < 16 by omega)
    have zero : isPlain (byte '0') := by decide
    change bareQuote (byte '0' :: byte '0' :: hexDigit (c.toNat / 16) :: hexDigit (c.toNat % 16) :: text) = _
    rw [bareQuote_plain zero, bareQuote_plain zero, bareQuote_plain high, bareQuote_plain low]
  · apply bareQuote_plain
    simp [isPlain, isQuote, isBackslash, UInt8.not_lt.mp control]

theorem escapeByte_visible (c : UInt8) : ∀ d ∈ escapeByte c, 0x20 ≤ d := by
  rw [escapeByte]
  split_ifs with isQuote isBackslash isB isF isN isR isT control
  iterate 7 (rw [forall_mem_cons]; decide +kernel)
  · have small : c.toNat < 32 := UInt8.lt_iff_toNat_lt.mp control
    have visible {n : Nat} (digit : n < 16) : 0x20 ≤ hexDigit n := by
      have plain := hexDigit_plain digit
      simp only [isPlain, Bool.and_eq_true, decide_eq_true_eq] at plain
      exact plain.2
    have high := visible (show c.toNat / 16 < 16 by omega)
    have low := visible (show c.toNat % 16 < 16 by omega)
    simp only [forall_mem_cons]
    exact ⟨by decide, by decide, by decide, by decide, high, low, forall_mem_nil _⟩
  · rw [forall_mem_singleton]
    exact UInt8.not_lt.mp control

theorem escapeString_clean (text : Bytes) :
    bareQuote (escapeString text) = false ∧ ∀ c ∈ escapeString text, 0x20 ≤ c := by
  constructor
  · induction text with
    | nil => rfl
    | cons c text ih =>
      rw [escapeString, flatMap_cons, bareQuote_escapeByte]
      exact ih
  · intro d member
    obtain ⟨c, -, inside⟩ := mem_flatMap.mp member
    exact escapeByte_visible c d inside

/-- A text without NUL that fits is decoded from its escaped form between quotes, whatever stands behind it. -/
theorem string_round_trip {capacity : Nat} [NeZero capacity] {text : Bytes} (nulFree : 0 ∉ text)
    (fits : text.length < capacity) (rest : Bytes) :
    (decodeString (quote :: (escapeString text ++ quote :: rest)) : CBuffer capacity × Option Bytes) =
        (⟨text, fits⟩, some rest) ∧
      bareQuote (escapeString text) = false ∧ ∀ c ∈ escapeString text, 0x20 ≤ c := by
  refine ⟨?_, escapeString_clean text⟩
  have found := reads_escapeString text rest
  have decoded : (decodeString (quote :: (escapeString text ++ quote :: rest)) : CBuffer capacity × Option
        Bytes).1.text = cText text ∧
      (decodeString (quote :: (escapeString text ++ quote :: rest)) : CBuffer capacity × Option Bytes).2 = some rest :=
    decodeString_some found fits
  obtain ⟨written, behind⟩ := decoded
  have whole : cText text = text := by
    apply takeWhile_eq_self_iff.mpr
    intro c member
    have different : c ≠ 0 := fun zero => nulFree (zero ▸ member)
    simp [different]
  rw [whole] at written
  generalize (decodeString (quote :: (escapeString text ++ quote :: rest)) : CBuffer capacity × Option Bytes) = decoded
    at written behind ⊢
  obtain ⟨⟨out, room⟩, next⟩ := decoded
  subst written behind
  rfl

/-- A quote, a newline and a control character return from a buffer of four bytes. -/
theorem string_round_trip_control :
    (decodeString (quote :: (escapeString [quote, 10, 1] ++ quote :: str ",")) : CBuffer 4 × Option Bytes) =
        (⟨[quote, 10, 1], by decide⟩, some (str ",")) ∧
      bareQuote (escapeString [quote, 10, 1]) = false ∧ ∀ c ∈ escapeString [quote, 10, 1], 0x20 ≤ c :=
  string_round_trip (by decide) (by decide) (str ",")

end SshChatter.JsonApi
