import SshChatter.JsonApi.Text
import SshChatter.Lib.JsonObject

namespace SshChatter.JsonApi
open CString JsonText List

/-- The three extractions. Every output of a string has room for a byte and the terminator. -/
inductive Wanted where
  | string (extra : Nat)
  | bool
  | uint

inductive FieldValue where
  | string (text : Bytes)
  | bool (value : Bool)
  | uint (value : Nat)
  deriving DecidableEq

/-- The keys of the source are identifiers. -/
structure Key where
  text : Bytes
  noQuote : quote ∉ text
  noColon : byte ':' ∉ text

/-- What an extraction reads behind the colon. -/
def readValue (wanted : Wanted) (cursor : Bytes) : Option FieldValue :=
  match wanted with
  | .string extra =>
    let decoded : CBuffer (extra + 2) × Option Bytes := decodeString (skipWhitespace cursor)
    if decoded.2.isSome then some (.string decoded.1.text) else none
  | .bool =>
    if str "true" <+: skipWhitespace cursor then some (.bool true)
    else if str "false" <+: skipWhitespace cursor then some (.bool false)
    else none
  | .uint => (strtoulField (skipWhitespace cursor)).map .uint

def extract (wanted : Wanted) (json : Bytes) (key : Key) : Option FieldValue :=
  match wanted with
  | .string extra =>
    let found : CBuffer (extra + 2) × Bool := extractString json (quoted key.text)
    if found.2 then some (.string found.1.text) else none
  | .bool => (extractBool json (quoted key.text)).map .bool
  | .uint => (extractUint json (quoted key.text)).map .uint

theorem extract_eq (wanted : Wanted) (json : Bytes) (key : Key) :
    extract wanted json key = (findKey json (quoted key.text)).bind (readValue wanted) := by
  cases wanted with
  | string =>
    rw [extract, extractString]
    cases findKey json (quoted key.text) with
    | none => rfl
    | some => rfl
  | bool =>
    rw [extract, extractBool]
    cases findKey json (quoted key.text) with
    | none => rfl
    | some =>
      simp only [Option.bind_some, readValue]
      split_ifs <;> rfl
  | uint =>
    rw [extract, extractUint]
    cases findKey json (quoted key.text) with
    | none => rfl
    | some => rfl

/-- A value of the type that is wanted, and the field that it gives. -/
inductive Matches : Wanted → Scalar → FieldValue → Prop
  | string (extra : Nat) (content : JsonString) : Matches (.string extra) (.string content) (.string content.out)
  | bool (value : Bool) : Matches .bool (.bool value) (.bool value)
  | uint (value : Nat) (isNumber : NumberToken (decimal value)) :
      Matches .uint (.number (decimal value) isNumber) (.uint value)

/-- The output can hold the field. -/
def Fits : Wanted → FieldValue → Prop
  | .string extra, .string text => text.length < extra + 2 ∧ 0 ∉ text
  | .uint, .uint value => value < 2 ^ 64
  | _, _ => True

/-- The text of a value that an extraction accepts. -/
inductive Token : Wanted → Bytes → Prop
  | string {extra : Nat} {token out : Bytes} : StringToken token out → out.length < extra + 2 →
      Token (.string extra) token
  | true : Token .bool (str "true")
  | false : Token .bool (str "false")
  | uint {spaces sign : Bytes} {digit : UInt8} : (∀ c ∈ spaces, isSpace c) →
      sign = [] ∨ sign = [byte '-'] ∨ sign = [byte '+'] → isDigit digit → Token .uint (spaces ++ sign ++ [digit])

/-- The first occurrence of the key has no colon between it and the colon of the member. -/
def Direct (slot : Slot) (key : Key) : Prop :=
  ∃ before behind, strstr (quoted key.text) slot.head = some (before, quoted key.text ++ behind) ∧ byte ':' ∉ behind

/-- Behind the first colon behind the first occurrence of the key stands a value of the type that is wanted. -/
def Misled (wanted : Wanted) (key : Key) (text : Bytes) : Prop :=
  ∃ before behind gap token rest,
    strstr (quoted key.text) text =
      some (before, quoted key.text ++ (behind ++ byte ':' :: (gap ++ (token ++ rest)))) ∧
    byte ':' ∉ behind ∧ Blank gap ∧ Token wanted token

/-- The member with the name of the key gives the field, whatever its value is, and an object without such a member
gives none. -/
structure ByName (wanted : Wanted) (key : Key) (object : FlatObject) : Prop where
  present : ∀ slot : Slot, slot.IsOf object → slot.name.out = key.text → ∀ value field, Matches wanted value field →
    (extract wanted (slot.fill value) key = some field ↔ Fits wanted field)
  absent : key.text ∉ object.names → extract wanted object.text key = none

/-- No other text of the object is taken for the member. -/
structure Undisturbed (wanted : Wanted) (key : Key) (object : FlatObject) : Prop where
  present : ∀ slot : Slot, slot.IsOf object → slot.name.out = key.text → Direct slot key
  absent : key.text ∉ object.names → ¬ Misled wanted key object.text

section Reading

variable {extra : Nat} {gap text token rest out : Bytes} {c : UInt8}

theorem skipWhitespace_gap (blank : Blank gap) (dense : isBlank c = false) (rest : Bytes) :
    skipWhitespace (gap ++ c :: rest) = c :: rest := by
  rw [skipWhitespace, dropWhile_append_of_pos blank, dropWhile_cons_of_neg (by simp [dense])]

theorem skipWhitespace_split (text : Bytes) : ∃ gap, Blank gap ∧ text = gap ++ skipWhitespace text :=
  ⟨text.takeWhile isBlank, fun _ member => mem_takeWhile_imp member, (takeWhile_append_dropWhile ..).symm⟩

variable {cursor : Bytes}

theorem readValue_string (start : skipWhitespace cursor = quote :: text) (found : decode text = some (out, rest)) :
    readValue (.string extra) cursor = if out.length < extra + 2 then some (.string (cText out)) else none := by
  rw [readValue, start]
  by_cases fits : out.length < extra + 2
  · obtain ⟨written, complete⟩ := decodeString_some found fits
    simp only [complete, written, Option.isSome_some, if_true, if_pos fits]
  · have failed : (decodeString (quote :: text) : CBuffer (extra + 2) × Option Bytes).2 = none := by
      apply decodeString_none
      intro other behind again
      obtain ⟨rfl, -⟩ := Prod.mk.inj (Option.some.inj (found.symm.trans again))
      exact not_lt.mp fits
    simp [failed, fits]

theorem readValue_string_none (start : skipWhitespace cursor = quote :: text) (failed : decode text = none) :
    readValue (.string extra) cursor = none := by
  have refused : (decodeString (quote :: text) : CBuffer (extra + 2) × Option Bytes).2 = none := by
    apply decodeString_none
    intro out rest found
    rw [failed] at found
    cases found
  rw [readValue, start]
  simp [refused]

theorem readValue_string_other (start : ∀ text, skipWhitespace cursor ≠ quote :: text) :
    readValue (.string extra) cursor = none := by
  have refused : (decodeString (skipWhitespace cursor) : CBuffer (extra + 2) × Option Bytes).2 = none := by
    cases skipped : skipWhitespace cursor with
    | nil => rfl
    | cons c text =>
      have other : c ≠ quote := by
        rintro rfl
        exact start text skipped
      rw [decodeString, if_neg other]
  rw [readValue]
  simp [refused]

theorem not_isDigit_of_separator (kind : isBlank c ∨ c = byte ',' ∨ c = byte '\x7d') : isDigit c = false := by
  rcases kind with blank | rfl | rfl
  · simp only [isBlank, Bool.or_eq_true, decide_eq_true_eq] at blank
    rcases blank with ((rfl | rfl) | rfl) | rfl <;> decide
  · decide
  · decide

theorem isBlank_of_isDigit (digit : isDigit c) : isBlank c = false := by
  rw [Bool.eq_false_iff]
  intro space
  have stop := not_isDigit_of_separator (.inl space)
  rw [digit] at stop
  cases stop

theorem readValue_slot (slot : Slot) {wanted : Wanted} {value : Scalar} {field : FieldValue}
    (isField : Matches wanted value field) :
    readValue wanted (slot.after.val ++ (value.text ++ slot.tail)) = some field ↔ Fits wanted field := by
  have blank := slot.after.property
  cases isField with
  | string extra content =>
    have shape : Scalar.text (.string content) ++ slot.tail = quote :: (content.body ++ quote :: slot.tail) := by
      simp [Scalar.text, JsonString.token]
    have start := skipWhitespace_gap blank (c := quote) (by decide) (content.body ++ quote :: slot.tail)
    rw [shape, readValue_string start (content.reads slot.tail), Fits]
    by_cases fits : content.out.length < extra + 2
    · simp [cText_eq_iff]
    · simp [fits]
  | bool value =>
    cases value with
    | false =>
      have start := skipWhitespace_gap blank (c := byte 'f') (by decide) (str "alse" ++ slot.tail)
      have other : ¬ str "true" <+: byte 'f' :: (str "alse" ++ slot.tail) :=
        fun starts => absurd (cons_prefix_cons.mp starts).1 (by decide)
      have isFalse : str "false" <+: byte 'f' :: (str "alse" ++ slot.tail) := ⟨slot.tail, rfl⟩
      change readValue .bool (slot.after.val ++ byte 'f' :: (str "alse" ++ slot.tail)) = _ ↔ True
      simp only [readValue, start, if_neg other, if_pos isFalse]
    | true =>
      have start := skipWhitespace_gap blank (c := byte 't') (by decide) (str "rue" ++ slot.tail)
      have isTrue : str "true" <+: byte 't' :: (str "rue" ++ slot.tail) := ⟨slot.tail, rfl⟩
      change readValue .bool (slot.after.val ++ byte 't' :: (str "rue" ++ slot.tail)) = _ ↔ True
      simp only [readValue, start, if_pos isTrue]
  | uint value =>
    have stops : ∀ c, slot.tail.head? = some c → isDigit c = false := by
      intro c head
      obtain ⟨d, rest, shape, kind⟩ := slot.tail_head
      rw [shape] at head
      cases head
      exact not_isDigit_of_separator kind
    have read := strtoulField_decimal value stops
    obtain ⟨c, digits, printed⟩ := exists_cons_of_ne_nil (decimal_ne_nil value)
    have digit := decimal_isDigit value c (by rw [printed]; exact mem_cons_self)
    have dense := isBlank_of_isDigit digit
    have start : skipWhitespace (slot.after.val ++ (decimal value ++ slot.tail)) = decimal value ++ slot.tail := by
      rw [printed]
      exact skipWhitespace_gap blank dense _
    change readValue .uint (slot.after.val ++ (decimal value ++ slot.tail)) = _ ↔ value < 2 ^ 64
    rw [readValue, start, read]
    simp only [Option.map_some, Option.some.injEq, FieldValue.uint.injEq]
    omega

end Reading

section Present

variable {slot : Slot} {key : Key} {wanted : Wanted}

theorem findKey_eq (json key : Bytes) :
    findKey json key =
      ((strstr key json).map Prod.snd).bind fun pos => (strchr (byte ':') (pos.drop key.length)).map Prod.snd := by
  rw [findKey]
  cases strstr key json with
  | none => rfl
  | some => rfl

/-- An occurrence in front of the colon leads to the first colon behind it. -/
theorem findKey_found {head before behind : Bytes}
    (hit : strstr (quoted key.text) head = some (before, quoted key.text ++ behind)) (rest : Bytes) :
    findKey (head ++ rest) (quoted key.text) = (strchr (byte ':') (behind ++ rest)).map Prod.snd := by
  rw [findKey, strstr_append hit]
  dsimp only
  rw [append_assoc, drop_left]

theorem extract_of_direct (direct : Direct slot key) {value : Scalar} {field : FieldValue}
    (isField : Matches wanted value field) : extract wanted (slot.fill value) key = some field ↔ Fits wanted field := by
  obtain ⟨before, behind, hit, noColon⟩ := direct
  rw [extract_eq, Slot.fill, findKey_found hit, strchr_append noColon]
  exact readValue_slot slot isField

theorem search_skip {text : Bytes} (bare : quote ∉ text) (rest : Bytes) :
    (strstr (quoted key.text) (text ++ rest)).map Prod.snd = (strstr (quoted key.text) rest).map Prod.snd := by
  rw [quoted, strstr_skip bare, Option.map_map]
  rfl

/-- Two values that the search and the reading cannot tell apart when the member is missed. -/
structure Alike (key : Key) (wanted : Wanted) (value value' : Scalar) : Prop where
  search : ∀ tail, (strstr (quoted key.text) (value.text ++ tail)).map Prod.snd =
    (strstr (quoted key.text) (value'.text ++ tail)).map Prod.snd
  read : ∀ front gap tail, Blank gap → readValue wanted (front ++ byte ':' :: (gap ++ (value.text ++ tail))) =
    readValue wanted (front ++ byte ':' :: (gap ++ (value'.text ++ tail)))

/-- Without a direct occurrence the field does not depend on such values. -/
theorem extract_alike (missed : ¬ Direct slot key) {value value' : Scalar} (alike : Alike key wanted value value') :
    extract wanted (slot.fill value) key = extract wanted (slot.fill value') key := by
  rw [extract_eq, extract_eq, Slot.fill, Slot.fill]
  have blank := slot.after.property
  cases hit : strstr (quoted key.text) slot.head with
  | none =>
    -- The key is not in front of the colon, and it cannot reach across it.
    have absent : ¬ quoted key.text <:+: slot.head := by
      rw [← strstr_isSome, hit]
      exact Bool.false_ne_true
    have clean : byte ':' ∉ quoted key.text := by
      have other : byte ':' ≠ quote := by decide
      simp [quoted, other, key.noColon]
    have nonEmpty : quoted key.text ≠ [] := cons_ne_nil _ _
    have past (text : Bytes) := strstr_past nonEmpty clean absent text
    have gap : quote ∉ slot.after.val := fun member => absurd (blank quote member) (by decide)
    rw [findKey_eq, findKey_eq, past, past, search_skip gap, search_skip gap, alike.search]
  | some found =>
    obtain ⟨before, pos⟩ := found
    obtain ⟨-, behind, rfl⟩ := strstr_some hit
    rw [findKey_found hit, findKey_found hit]
    have colon : byte ':' ∈ behind := by
      by_contra noColon
      exact missed ⟨before, behind, hit, noColon⟩
    obtain ⟨front, rest, rfl, noColon⟩ := eq_append_cons_of_mem colon
    rw [append_assoc, append_assoc, cons_append, cons_append, strchr_append noColon,
      strchr_append noColon]
    exact alike.read rest slot.after.val slot.tail blank

theorem skipWhitespace_colon (front rest : Bytes) :
    skipWhitespace (front ++ byte ':' :: rest) = skipWhitespace front ++ byte ':' :: rest :=
  dropWhile_stop (by decide) front rest

theorem alike_bool : Alike key .bool (.bool true) (.bool false) where
  search tail := by rw [search_skip (by decide), search_skip (by decide)]
  read front gap tail _ := by
    have isTrue : byte ':' ∉ str "true" := by decide
    have isFalse : byte ':' ∉ str "false" := by decide
    simp only [readValue, skipWhitespace_colon, prefix_stop isTrue, prefix_stop isFalse]

theorem alike_uint (first second : Nat) (isFirst : NumberToken (decimal first))
    (isSecond : NumberToken (decimal second)) :
    Alike key .uint (.number (decimal first) isFirst) (.number (decimal second) isSecond) where
  search tail := by
    have bare (n : Nat) : quote ∉ decimal n := fun member => absurd (decimal_isDigit n quote member) (by decide)
    simp only [Scalar.text]
    rw [search_skip (bare first), search_skip (bare second)]
  read front gap tail _ := by
    simp only [readValue, skipWhitespace_colon]
    rw [strtoulField_stop (by decide) (by decide) (by decide)]

/-- What is read in front of a quote without a backslash does not depend on the text behind it. -/
theorem readValue_string_stop {extra : Nat} {front gap : Bytes} (blank : Blank gap) (w w' : Bytes) :
    readValue (.string extra) (front ++ byte ':' :: (gap ++ quote :: w)) =
      readValue (.string extra) (front ++ byte ':' :: (gap ++ quote :: w')) := by
  have bare (text : Bytes) : (text ++ byte ':' :: gap).getLast? ≠ some backslash := by
    intro ends
    rw [getLast?_append_of_ne_nil _ (cons_ne_nil _ _)] at ends
    rcases mem_cons.mp (mem_of_getLast? ends) with same | member
    · exact absurd same (by decide)
    · exact absurd (blank backslash member) (by decide)
  have start (w : Bytes) : skipWhitespace (front ++ byte ':' :: (gap ++ quote :: w)) =
      skipWhitespace front ++ byte ':' :: gap ++ quote :: w := by
    rw [skipWhitespace_colon, append_assoc, cons_append]
  cases skipped : skipWhitespace front with
  | nil =>
    have other (w text : Bytes) : skipWhitespace (front ++ byte ':' :: (gap ++ quote :: w)) ≠ quote :: text := by
      rw [start, skipped]
      exact fun same => absurd (cons.inj same).1 (by decide)
    rw [readValue_string_other (other w), readValue_string_other (other w')]
  | cons c rest =>
    simp only [skipped] at start
    by_cases opening : c = quote
    · rw [opening] at start
      rcases decode_settles (bare rest) with failed | ⟨out, later, found⟩
      · rw [readValue_string_none (start w) (failed w), readValue_string_none (start w') (failed w')]
      · rw [readValue_string (start w) (found w), readValue_string (start w') (found w')]
    · have other (w text : Bytes) : skipWhitespace (front ++ byte ':' :: (gap ++ quote :: w)) ≠ quote :: text := by
        rw [start]
        exact fun same => opening (cons.inj same).1
      rw [readValue_string_other (other w), readValue_string_other (other w')]

def singleton (c : UInt8) (plain : isPlain c) : JsonString :=
  .word [c] (forall_mem_singleton.mpr plain)

theorem alike_string {extra : Nat} {c d : UInt8} (plain : isPlain c) (plain' : isPlain d)
    (other : key.text ≠ [c]) (other' : key.text ≠ [d]) :
    Alike key (.string extra) (.string (singleton c plain)) (.string (singleton d plain')) where
  search tail := by
    have behind {c : UInt8} (plain : isPlain c) (other : key.text ≠ [c]) :
        (strstr (quoted key.text) (Scalar.text (.string (singleton c plain)) ++ tail)).map Prod.snd =
          (strstr (quoted key.text) (quote :: tail)).map Prod.snd := by
      have bare : quote ∉ [c] := by
        rw [mem_singleton]
        rintro rfl
        exact absurd plain (by decide)
      apply strstr_segment bare
      rintro ⟨rest, same⟩
      cases text : key.text with
      | nil =>
        rw [text] at same
        exact bare (mem_singleton.mpr (cons.inj same).1)
      | cons d name =>
        rw [text] at same
        obtain ⟨rfl, behind⟩ := cons.inj same
        cases name with
        | nil => exact other text
        | cons =>
          have first := (cons.inj behind).1
          exact key.noQuote (by rw [text, first]; simp)
    rw [behind plain other, behind plain' other']
  read front gap tail blank := readValue_string_stop blank _ _

theorem exists_two_bytes (text : Bytes) :
    ∃ c d, isPlain c ∧ isPlain d ∧ c ≠ d ∧ text ≠ [c] ∧ text ≠ [d] := by
  by_cases first : text = [byte 'x']
  · rw [first]
    exact ⟨byte 'y', byte 'z', by decide, by decide, by decide, by decide, by decide⟩
  · by_cases second : text = [byte 'y']
    · rw [second]
      exact ⟨byte 'x', byte 'z', by decide, by decide, by decide, by decide, by decide⟩
    · exact ⟨byte 'x', byte 'y', by decide, by decide, by decide, first, second⟩

/-- A member whose value is always returned has a direct occurrence. -/
theorem direct_of_returned
    (returned : ∀ value field, Matches wanted value field → (extract wanted (slot.fill value) key = some field ↔
      Fits wanted field)) :
    Direct slot key := by
  by_contra missed
  cases wanted with
  | string extra =>
    obtain ⟨c, d, plain, plain', different, other, other'⟩ := exists_two_bytes key.text
    have fits {c : UInt8} (plain : isPlain c) : Fits (.string extra) (.string [c]) := by
      refine ⟨by rw [length_singleton]; omega, ?_⟩
      rw [mem_singleton]
      rintro rfl
      exact absurd plain (by decide)
    have first := (returned _ _ (.string extra (singleton c plain))).mpr (fits plain)
    have second := (returned _ _ (.string extra (singleton d plain'))).mpr (fits plain')
    rw [extract_alike missed (alike_string plain plain' other other'), second] at first
    injection first with same
    injection same with same
    exact different (cons.inj same).1.symm
  | bool =>
    have first := (returned _ _ (.bool true)).mpr trivial
    have second := (returned _ _ (.bool false)).mpr trivial
    rw [extract_alike missed alike_bool, second] at first
    cases first
  | uint =>
    have isNumber (n : Nat) : NumberToken (decimal n) := by
      have token := numberToken_decimal n (k := (decimal n).length + 1) (Nat.succ_pos _)
      rwa [take_of_length_le (Nat.le_succ _)] at token
    have first := (returned _ _ (.uint 0 (isNumber 0))).mpr (by rw [Fits]; decide)
    have second := (returned _ _ (.uint 1 (isNumber 1))).mpr (by rw [Fits]; decide)
    rw [extract_alike missed (alike_uint 0 1 (isNumber 0) (isNumber 1)), second] at first
    cases first

end Present

section Absent

variable {key : Key} {wanted : Wanted}

/-- A number is read exactly when a digit stands behind white space and a sign. -/
theorem strtoulField_isSome (text : Bytes) :
    (strtoulField text).isSome ↔ ∃ spaces sign digit rest, text = spaces ++ sign ++ digit :: rest ∧
      (∀ c ∈ spaces, isSpace c) ∧ (sign = [] ∨ sign = [byte '-'] ∨ sign = [byte '+']) ∧ isDigit digit := by
  constructor
  · intro found
    have spaces : ∀ c ∈ text.takeWhile isSpace, isSpace c = true := fun _ member => mem_takeWhile_imp member
    have split : text = text.takeWhile isSpace ++ text.dropWhile isSpace := (takeWhile_append_dropWhile ..).symm
    rw [strtoulField] at found
    cases start : text.dropWhile isSpace with
    | nil =>
      rw [start] at found
      cases found
    | cons c rest =>
      rw [start] at found split
      by_cases signed : c = byte '-' ∨ c = byte '+'
      · cases digits : rest.takeWhile isDigit with
        | nil =>
          simp [signed, digits] at found
        | cons d run =>
          obtain ⟨tail, rfl⟩ : ∃ tail, rest = d :: tail := by
            obtain ⟨tail, joined⟩ := takeWhile_prefix (l := rest) isDigit
            exact ⟨run ++ tail, by rw [← joined, digits]; rfl⟩
          have digit : isDigit d = true := mem_takeWhile_imp (by rw [digits]; exact mem_cons_self)
          refine ⟨_, [c], d, tail, split.trans (by simp), spaces, ?_, digit⟩
          rcases signed with rfl | rfl
          · exact .inr (.inl rfl)
          · exact .inr (.inr rfl)
      · by_cases digit : isDigit c
        · exact ⟨_, [], c, rest, split.trans (by simp), spaces, .inl rfl, digit⟩
        · simp [signed, digit] at found
  · rintro ⟨spaces, sign, digit, rest, rfl, blank, signed, isDig⟩
    obtain ⟨notSpace, notMinus, notPlus⟩ := isDigit_plain isDig
    have apart : ¬ (digit = byte '-' ∨ digit = byte '+') := not_or.mpr ⟨notMinus, notPlus⟩
    have answered (c : UInt8) (digits : Bytes) (nonEmpty : digits ≠ []) :
        (if digits = [] then none
          else if 2 ^ 64 ≤ digitsValue digits then some (2 ^ 64 - 1)
          else if c = byte '-' then some ((2 ^ 64 - digitsValue digits) % 2 ^ 64)
          else some (digitsValue digits) : Option Nat).isSome := by
      rw [if_neg nonEmpty]
      split_ifs <;> rfl
    have run : (digit :: rest).takeWhile isDigit ≠ [] := by simp [isDig]
    rw [strtoulField, append_assoc, dropWhile_append_of_pos blank]
    rcases signed with rfl | rfl | rfl
    · rw [nil_append, dropWhile_cons_of_neg (by simp [notSpace])]
      simp only [if_neg apart]
      exact answered _ _ run
    · rw [singleton_append]
      exact answered _ _ run
    · rw [singleton_append]
      exact answered _ _ run

theorem readValue_isSome (cursor : Bytes) :
    (readValue wanted cursor).isSome ↔ ∃ gap token rest, cursor = gap ++ (token ++ rest) ∧ Blank gap ∧
      Token wanted token := by
  obtain ⟨space, blankSpace, split⟩ := skipWhitespace_split cursor
  constructor
  · intro found
    cases wanted with
    | string =>
      by_cases opening : ∃ text, skipWhitespace cursor = quote :: text
      · obtain ⟨text, start⟩ := opening
        cases decoded : decode text with
        | none =>
          rw [readValue_string_none start decoded] at found
          cases found
        | some result =>
          obtain ⟨out, rest⟩ := result
          obtain ⟨body, rfl, reads⟩ := reads_of_decode decoded
          rw [readValue_string start decoded] at found
          split_ifs at found with fits
          · refine ⟨space, _, rest, ?_, blankSpace, .string (stringToken_quoted reads) fits⟩
            rw [split, start]
            simp
          · cases found
      · rw [readValue_string_other (not_exists.mp opening)] at found
        cases found
    | bool =>
      rw [readValue] at found
      split_ifs at found with isTrue isFalse
      · obtain ⟨rest, joined⟩ := isTrue
        exact ⟨space, _, rest, by rw [joined, ← split], blankSpace, .true⟩
      · obtain ⟨rest, joined⟩ := isFalse
        exact ⟨space, _, rest, by rw [joined, ← split], blankSpace, .false⟩
      · cases found
    | uint =>
      rw [readValue, Option.isSome_map] at found
      obtain ⟨spaces, sign, digit, rest, start, blank, signed, isDig⟩ := (strtoulField_isSome _).mp found
      refine ⟨space, _, rest, ?_, blankSpace, .uint blank signed isDig⟩
      rw [split, start]
      simp
  · rintro ⟨gap, token, rest, rfl, blank, isToken⟩
    cases isToken with
    | string isString fits =>
      obtain ⟨body, rfl, reads⟩ := isString
      have start := skipWhitespace_gap blank (c := quote) (by decide) (body ++ quote :: rest)
      have shape : quote :: (body ++ [quote]) ++ rest = quote :: (body ++ quote :: rest) := by simp
      rw [shape, readValue_string start (reads rest), if_pos fits]
      rfl
    | true =>
      have start := skipWhitespace_gap blank (c := byte 't') (by decide) (str "rue" ++ rest)
      have isTrue : str "true" <+: byte 't' :: (str "rue" ++ rest) := ⟨rest, rfl⟩
      change (readValue .bool (gap ++ byte 't' :: (str "rue" ++ rest))).isSome
      simp only [readValue, start, if_pos isTrue, Option.isSome_some]
    | false =>
      have start := skipWhitespace_gap blank (c := byte 'f') (by decide) (str "alse" ++ rest)
      have isFalse : str "false" <+: byte 'f' :: (str "alse" ++ rest) := ⟨rest, rfl⟩
      change (readValue .bool (gap ++ byte 'f' :: (str "alse" ++ rest))).isSome
      rw [readValue, start]
      split_ifs <;> rfl
    | @uint spaces sign digit blankSpaces signed isDig =>
      obtain ⟨c, tail, shape, dense⟩ : ∃ c tail, sign ++ digit :: rest = c :: tail ∧ isBlank c = false := by
        rcases signed with rfl | rfl | rfl
        · exact ⟨digit, rest, rfl, isBlank_of_isDigit isDig⟩
        · exact ⟨_, _, rfl, by decide⟩
        · exact ⟨_, _, rfl, by decide⟩
      have start : skipWhitespace (gap ++ (spaces ++ sign ++ [digit] ++ rest)) =
          spaces.dropWhile isBlank ++ sign ++ digit :: rest := by
        rw [skipWhitespace, dropWhile_append_of_pos blank, append_assoc, append_assoc,
          singleton_append, shape, dropWhile_stop dense, ← shape, append_assoc]
      rw [readValue, Option.isSome_map, strtoulField_isSome, start]
      exact ⟨_, sign, digit, rest, rfl, fun c member => blankSpaces c (dropWhile_sublist _ |>.subset member),
        signed, isDig⟩

theorem extract_isSome (text : Bytes) : (extract wanted text key).isSome ↔ Misled wanted key text := by
  rw [extract_eq]
  constructor
  · intro found
    cases hit : strstr (quoted key.text) text with
    | none =>
      rw [findKey, hit] at found
      cases found
    | some result =>
      obtain ⟨before, pos⟩ := result
      obtain ⟨-, behind, rfl⟩ := strstr_some hit
      simp only [findKey, hit, drop_left] at found
      cases colon : strchr (byte ':') behind with
      | none =>
        rw [colon] at found
        cases found
      | some cut =>
        obtain ⟨front, cursor⟩ := cut
        obtain ⟨rfl, noColon⟩ := strchr_some colon
        rw [colon] at found
        obtain ⟨gap, token, rest, rfl, blank, isToken⟩ := (readValue_isSome cursor).mp found
        exact ⟨before, front, gap, token, rest, hit, noColon, blank, isToken⟩
  · rintro ⟨before, behind, gap, token, rest, hit, noColon, blank, isToken⟩
    simp only [findKey, hit, drop_left, strchr_append noColon]
    exact (readValue_isSome _).mpr ⟨gap, token, rest, rfl, blank, isToken⟩

end Absent

/-- The extractions return the value of the member with the name of the key, and nothing without such a member, exactly
when no other text of the object is taken for the member. -/
theorem extract_byName_iff (wanted : Wanted) (key : Key) (object : FlatObject) :
    ByName wanted key object ↔ Undisturbed wanted key object := by
  constructor
  · intro byName
    constructor
    · intro slot isOf named
      exact direct_of_returned (byName.present slot isOf named)
    · intro missing misled
      have found := (extract_isSome object.text).mpr misled
      rw [byName.absent missing] at found
      cases found
  · intro undisturbed
    constructor
    · intro slot isOf named value field isField
      exact extract_of_direct (undisturbed.present slot isOf named) isField
    · intro missing
      rw [← Option.not_isSome_iff_eq_none, extract_isSome]
      exact undisturbed.absent missing

def operatorMessage : FlatObject where
  members :=
    [.compact (.word (str "message") (by decide +kernel)) (.string (.word (str "is_operator") (by decide +kernel))),
    .compact (.word (str "allow_multiple") (by decide +kernel)) (.bool true)]
  gap := Gap.none
  distinct := by decide +kernel

def operatorKey : Key := ⟨str "is_operator", by decide +kernel, by decide +kernel⟩

/-- A message that is equal to a key takes the value of the next member for the member with that name. -/
theorem extract_operator_message :
    operatorMessage.text = str "\x7b\"message\":\"is_operator\",\"allow_multiple\":true\x7d" ∧
      operatorKey.text ∉ operatorMessage.names ∧
      extract .bool operatorMessage.text operatorKey = some (.bool true) ∧
      ¬ ByName .bool operatorKey operatorMessage := by
  have missing : operatorKey.text ∉ operatorMessage.names := by decide +kernel
  have found : extract .bool operatorMessage.text operatorKey = some (.bool true) := by decide +kernel
  refine ⟨by decide +kernel, missing, found, fun byName => ?_⟩
  have absent := byName.absent missing
  cases absent

end SshChatter.JsonApi
