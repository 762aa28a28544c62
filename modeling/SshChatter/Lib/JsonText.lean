import SshChatter.Lib.CString

namespace JsonText
open CString List

def quote : UInt8 := byte '"'

def backslash : UInt8 := byte '\\'

/-- A byte that may stand for itself in a string. -/
def isPlain (c : UInt8) : Bool := c ≠ quote && c ≠ backslash && 0x20 ≤ c

def hexValue (c : UInt8) : Option Nat :=
  if byte '0' ≤ c ∧ c ≤ byte '9' then some (c.toNat - 48)
  else if byte 'a' ≤ c ∧ c ≤ byte 'f' then some (c.toNat - 97 + 10)
  else if byte 'A' ≤ c ∧ c ≤ byte 'F' then some (c.toNat - 65 + 10)
  else none

/-- The number of four hexadecimal digits. -/
def hexQuad : Bytes → Option (Nat × Bytes)
  | a :: b :: c :: d :: rest =>
    match hexValue a, hexValue b, hexValue c, hexValue d with
    | some a, some b, some c, some d => some (((a * 16 + b) * 16 + c) * 16 + d, rest)
    | _, _, _, _ => none
  | _ => none

/-- The UTF-8 bytes of a code point. -/
def utf8 (codepoint : Nat) : Bytes :=
  if codepoint ≤ 0x7F then [UInt8.ofNat codepoint]
  else if codepoint ≤ 0x7FF then [UInt8.ofNat (0xC0 + codepoint / 64 % 32), UInt8.ofNat (0x80 + codepoint % 64)]
  else if codepoint ≤ 0xFFFF then
    [UInt8.ofNat (0xE0 + codepoint / 4096 % 16), UInt8.ofNat (0x80 + codepoint / 64 % 64),
      UInt8.ofNat (0x80 + codepoint % 64)]
  else
    [UInt8.ofNat (0xF0 + codepoint / 262144 % 8), UInt8.ofNat (0x80 + codepoint / 4096 % 64),
      UInt8.ofNat (0x80 + codepoint / 64 % 64), UInt8.ofNat (0x80 + codepoint % 64)]

def simpleEscape (c : UInt8) : Option UInt8 :=
  if c = quote then some quote
  else if c = backslash then some backslash
  else if c = byte '/' then some (byte '/')
  else if c = byte 'b' then some 8
  else if c = byte 'f' then some 12
  else if c = byte 'n' then some 10
  else if c = byte 'r' then some 13
  else if c = byte 't' then some 9
  else none

def lowSurrogate : Bytes → Option (Option (Nat × Bytes))
  | b :: u :: rest =>
    if b = backslash ∧ u = byte 'u' then
      match hexQuad rest with
      | none => none
      | some (low, next) => if 0xDC00 ≤ low ∧ low ≤ 0xDFFF then some (some (low, next)) else some none
    else some none
  | _ => some none

/-- The bytes of an escape behind its backslash, and the text behind it. A surrogate that has no partner stands for
itself. -/
def unescape : Bytes → Option (Bytes × Bytes)
  | [] => none
  | c :: rest =>
    if c = byte 'u' then
      match hexQuad rest with
      | none => none
      | some (high, next) =>
        if 0xD800 ≤ high ∧ high ≤ 0xDBFF then
          match lowSurrogate next with
          | none => none
          | some none => some (utf8 high, next)
          | some (some (low, behind)) => some (utf8 (0x10000 + (high - 0xD800) * 1024 + (low - 0xDC00)), behind)
        else some (utf8 high, next)
    else (simpleEscape c).map fun out => ([out], rest)

/-- A string behind its opening quote, with the text behind the closing one. -/
def decodeLoop : Nat → Bytes → Option (Bytes × Bytes)
  | 0, _ => none
  | _ + 1, [] => none
  | fuel + 1, c :: rest =>
    if c = quote then some ([], rest)
    else if c = backslash then
      match unescape rest with
      | none => none
      | some (out, next) => (decodeLoop fuel next).map fun later => (out ++ later.1, later.2)
    else if c < 0x20 then none
    else (decodeLoop fuel rest).map fun later => (c :: later.1, later.2)

/-- Every step of the loop consumes a byte. -/
def decode (text : Bytes) : Option (Bytes × Bytes) := decodeLoop text.length text

section Decoding

variable {text rest out next behind : Bytes} {c : UInt8} {value : Nat}

theorem hexQuad_some (found : hexQuad text = some (value, rest)) :
    ∃ digits : Bytes, text = digits ++ rest ∧ digits.length = 4 ∧ ∀ c ∈ digits, (hexValue c).isSome := by
  match text with
  | [] | [_] | [_, _] | [_, _, _] => cases found
  | a :: b :: c :: d :: tail =>
    simp only [hexQuad] at found
    split at found
    · rename_i first second third fourth
      obtain ⟨-, rfl⟩ := Prod.mk.inj (Option.some.inj found)
      exact ⟨[a, b, c, d], rfl, rfl, by simp [first, second, third, fourth]⟩
    · cases found

theorem utf8_length_le (codepoint : Nat) :
    (utf8 codepoint).length ≤ 4 ∧ (codepoint ≤ 0xFFFF → (utf8 codepoint).length ≤ 3) := by
  rw [utf8]
  split_ifs <;> simp
  omega

theorem hexValue_quote : hexValue quote = none := by decide

theorem hexQuad_le (found : hexQuad text = some (value, rest)) : value ≤ 0xFFFF := by
  have digit (c : UInt8) (value : Nat) (some : hexValue c = some value) : value ≤ 15 := by
    simp only [hexValue, UInt8.le_iff_toNat_le] at some
    split_ifs at some with decimal lower upper <;> simp [byte] at * <;> omega
  match text with
  | [] | [_] | [_, _] | [_, _, _] => cases found
  | a :: b :: c :: d :: tail =>
    simp only [hexQuad] at found
    split at found
    · rename_i p q r s first second third fourth
      obtain ⟨rfl, -⟩ := Prod.mk.inj (Option.some.inj found)
      have bounds := And.intro (digit a p first)
        (And.intro (digit b q second) (And.intro (digit c r third) (digit d s fourth)))
      omega
    · cases found

theorem hexQuad_spec (found : hexQuad text = some (value, rest)) :
    ∃ digits : Bytes, text = digits ++ rest ∧ digits.length = 4 ∧ quote ∉ digits := by
  obtain ⟨digits, split, four, hex⟩ := hexQuad_some found
  refine ⟨digits, split, four, ?_⟩
  intro member
  have digit := hex quote member
  cases digit

theorem lowSurrogate_spec (found : lowSurrogate text = some (some (value, rest))) :
    ∃ raw : Bytes, text = raw ++ rest ∧ raw.length = 6 ∧ quote ∉ raw := by
  match text with
  | [] | [_] => cases found
  | b :: u :: tail =>
    by_cases pair : b = backslash ∧ u = byte 'u'
    · rw [lowSurrogate, if_pos pair] at found
      cases quad : hexQuad tail with
      | none =>
        rw [quad] at found
        cases found
      | some =>
        obtain ⟨digits, split, four, clean⟩ := hexQuad_spec quad
        simp only [quad] at found
        split_ifs at found
        · obtain ⟨-, rfl⟩ := Prod.mk.inj (Option.some.inj (Option.some.inj found))
          refine ⟨b :: u :: digits, by rw [split]; rfl, by simp [four], ?_⟩
          have apart : quote ≠ backslash ∧ quote ≠ byte 'u' := by decide
          simp [pair, apart, clean]
        · cases found
    · rw [lowSurrogate, if_neg pair] at found
      cases found

/-- An escape consumes at least the bytes that it stands for, and no quote but an escaped one. -/
theorem unescape_spec (found : unescape text = some (out, rest)) :
    ∃ raw : Bytes, text = raw ++ rest ∧ raw ≠ [] ∧ out.length ≤ raw.length ∧
      (raw = [quote] ∧ out = [quote] ∨ quote ∉ raw) := by
  cases text with
  | nil => cases found
  | cons c tail =>
    by_cases unicode : c = byte 'u'
    · have letter : quote ≠ byte 'u' := by decide
      rw [unescape, if_pos unicode] at found
      cases quad : hexQuad tail with
      | none =>
        rw [quad] at found
        cases found
      | some result =>
        obtain ⟨high, next⟩ := result
        obtain ⟨digits, split, four, clean⟩ := hexQuad_spec quad
        have small := (utf8_length_le high).2 (hexQuad_le quad)
        have lone : ∃ raw : Bytes, c :: tail = raw ++ next ∧ raw ≠ [] ∧ (utf8 high).length ≤ raw.length ∧
            (raw = [quote] ∧ utf8 high = [quote] ∨ quote ∉ raw) := by
          refine ⟨c :: digits, by rw [split]; rfl, cons_ne_nil _ _, ?_, .inr ?_⟩
          · rw [length_cons]
            omega
          · simp [unicode, letter, clean]
        simp only [quad] at found
        by_cases surrogate : 0xD800 ≤ high ∧ high ≤ 0xDBFF
        · rw [if_pos surrogate] at found
          cases pair : lowSurrogate next with
          | none =>
            rw [pair] at found
            cases found
          | some partner =>
            cases partner with
            | none =>
              rw [pair] at found
              obtain ⟨rfl, rfl⟩ := Prod.mk.inj (Option.some.inj found)
              exact lone
            | some low =>
              obtain ⟨raw, second, six, pairClean⟩ := lowSurrogate_spec pair
              rw [pair] at found
              obtain ⟨rfl, rfl⟩ := Prod.mk.inj (Option.some.inj found)
              refine ⟨c :: digits ++ raw, ?_, by simp, ?_, .inr ?_⟩
              · rw [split, second, append_assoc, cons_append]
              · have four' := (utf8_length_le (0x10000 + (high - 0xD800) * 1024 + (low.1 - 0xDC00))).1
                simp only [length_append]
                omega
              · simp [unicode, letter, clean, pairClean]
        · rw [if_neg surrogate] at found
          obtain ⟨rfl, rfl⟩ := Prod.mk.inj (Option.some.inj found)
          exact lone
    · rw [unescape, if_neg unicode] at found
      obtain ⟨byte, simple, equal⟩ := Option.map_eq_some_iff.mp found
      obtain ⟨rfl, rfl⟩ := Prod.mk.inj equal
      refine ⟨[c], rfl, cons_ne_nil _ _, le_rfl, ?_⟩
      by_cases closing : c = quote
      · rw [closing] at simple
        obtain rfl := Option.some.inj simple
        exact .inl ⟨by rw [closing], rfl⟩
      · exact .inr (by simpa using Ne.symm closing)

/-- More fuel than bytes changes nothing. -/
theorem decodeLoop_fuel {fuel : Nat} (enough : text.length ≤ fuel) : decodeLoop fuel text = decode text := by
  rw [decode]
  induction fuel using Nat.strong_induction_on generalizing text with
  | _ fuel ih =>
    cases text with
    | nil =>
      cases fuel with
      | zero => rfl
      | succ => rfl
    | cons c rest =>
      obtain ⟨fuel, rfl⟩ : ∃ smaller, fuel = smaller + 1 := ⟨fuel - 1, by rw [length_cons] at enough; omega⟩
      rw [length_cons] at enough ⊢
      rw [decodeLoop, decodeLoop]
      have short : rest.length ≤ fuel := by omega
      rw [ih fuel (Nat.lt_succ_self _) short]
      cases found : unescape rest with
      | none => rfl
      | some result =>
        obtain ⟨out, next⟩ := result
        obtain ⟨raw, split, -⟩ := unescape_spec found
        have shorter : next.length ≤ rest.length := by
          rw [split, length_append]
          omega
        dsimp only
        rw [ih fuel (Nat.lt_succ_self _) (shorter.trans short), ih rest.length (by omega) shorter]

@[simp] theorem decode_nil : decode [] = none := rfl

@[simp] theorem decode_quote : decode (quote :: rest) = some ([], rest) := rfl

theorem decode_plain (plain : isPlain c) :
    decode (c :: rest) = (decode rest).map fun later => (c :: later.1, later.2) := by
  simp only [isPlain, Bool.and_eq_true, decide_eq_true_eq] at plain
  rw [decode, length_cons, decodeLoop, if_neg plain.1.1, if_neg plain.1.2, if_neg (UInt8.not_lt.mpr plain.2)]
  rfl

theorem decode_control (control : c < 0x20) : decode (c :: rest) = none := by
  have other : c ≠ quote ∧ c ≠ backslash := by
    constructor <;> rintro rfl <;> exact absurd control (by decide)
  rw [decode, length_cons, decodeLoop, if_neg other.1, if_neg other.2, if_pos control]

theorem decode_escape (found : unescape rest = some (out, next)) :
    decode (backslash :: rest) = (decode next).map fun later => (out ++ later.1, later.2) := by
  obtain ⟨raw, split, -⟩ := unescape_spec found
  have shorter : next.length ≤ rest.length := by
    rw [split, length_append]
    omega
  rw [decode, length_cons, decodeLoop, if_neg (by decide), if_pos rfl, found]
  dsimp only
  rw [decodeLoop_fuel shorter]

theorem decode_bad_escape (found : unescape rest = none) : decode (backslash :: rest) = none := by
  rw [decode, length_cons, decodeLoop, if_neg (by decide), if_pos rfl, found]

theorem byte_cases (c : UInt8) : isPlain c ∨ c = quote ∨ c = backslash ∨ c < 0x20 := by
  by_cases plain : isPlain c
  · exact .inl plain
  · simp only [isPlain, Bool.and_eq_true, decide_eq_true_eq, not_and_or, not_not, UInt8.not_le] at plain
    rcases plain with (closing | escape) | control
    · exact .inr (.inl closing)
    · exact .inr (.inr (.inl escape))
    · exact .inr (.inr (.inr control))

theorem split_before_quote {raw x tail : Bytes} (same : x ++ quote :: tail = raw ++ rest) (clean : quote ∉ raw) :
    ∃ later, x = raw ++ later ∧ rest = later ++ quote :: tail := by
  rcases append_eq_append_iff.mp same with ⟨more, rawEq, tailEq⟩ | ⟨later, xEq, restEq⟩
  · cases more with
    | nil => exact ⟨[], by simpa using rawEq.symm, by simpa using tailEq.symm⟩
    | cons =>
      obtain ⟨rfl, -⟩ := cons.inj tailEq
      exact absurd (rawEq ▸ by simp) clean
  · exact ⟨later, xEq, restEq⟩

theorem unescape_before_quote {x tail : Bytes} (found : unescape (x ++ quote :: tail) = some (out, rest)) :
    (x = [] ∧ out = [quote] ∧ rest = tail) ∨
      ∃ raw later, x = raw ++ later ∧ raw ≠ [] ∧ rest = later ++ quote :: tail ∧ out.length ≤ raw.length := by
  obtain ⟨raw, split, some, short, ⟨rawEq, outEq⟩ | clean⟩ := unescape_spec found
  · cases x with
    | nil =>
      rw [rawEq] at split
      exact .inl ⟨rfl, outEq, (cons.inj split).2.symm⟩
    | cons c later =>
      rw [rawEq] at split
      obtain ⟨rfl, equal⟩ := cons.inj split
      refine .inr ⟨[quote], later, rfl, cons_ne_nil _ _, equal.symm, ?_⟩
      rw [outEq]
  · obtain ⟨later, xEq, restEq⟩ := split_before_quote split clean
    exact .inr ⟨raw, later, xEq, some, restEq, short⟩

end Decoding

section Strings

variable {body out tail : Bytes} {c sep : UInt8}

def Reads (body out : Bytes) : Prop := ∀ behind, decode (body ++ quote :: behind) = some (out, behind)

theorem reads_nil : Reads [] [] := fun _ => rfl

theorem reads_cons (plain : isPlain c) (reads : Reads body out) : Reads (c :: body) (c :: out) := by
  intro behind
  rw [cons_append, decode_plain plain, reads behind]
  rfl

theorem reads_escape {raw code : Bytes} (escape : ∀ behind, unescape (raw ++ behind) = some (code, behind))
    (reads : Reads body out) : Reads (backslash :: (raw ++ body)) (code ++ out) := by
  intro behind
  rw [cons_append, append_assoc, decode_escape (escape _), reads behind]
  rfl

theorem reads_simple {letter code : UInt8} (named : simpleEscape letter = some code) (reads : Reads body out) :
    Reads (backslash :: letter :: body) (code :: out) := by
  have notUnicode : letter ≠ byte 'u' := by
    rintro rfl
    cases named
  have escape (behind : Bytes) : unescape ([letter] ++ behind) = some ([code], behind) := by
    rw [singleton_append, unescape, if_neg notUnicode, named]
    rfl
  exact reads_escape escape reads

theorem reads_plain (plain : ∀ c ∈ body, isPlain c) : Reads body body := by
  induction body with
  | nil => exact reads_nil
  | cons c body ih =>
    obtain ⟨first, later⟩ := forall_mem_cons.mp plain
    exact reads_cons first (ih later)

/-- A string that has to give more bytes than stand in front of the quote is never complete. A string that goes on
behind the quote ends before it could make up for them. -/
theorem decode_ne_append (behind : ∀ out more, decode tail = some (out, more) → out = [sep])
    (different : sep ≠ backslash)
    (x : Bytes) {y : Bytes} (lag : y ≠ []) (rest : Bytes) : decode (x ++ quote :: tail) ≠ some (y ++ x, rest) := by
  induction size : x.length using Nat.strong_induction_on generalizing x y with
  | _ size ih =>
    intro found
    cases x with
    | nil =>
      rw [append_nil] at found
      exact lag (Prod.mk.inj (Option.some.inj found)).1.symm
    | cons c x =>
      rw [length_cons] at size
      rw [cons_append] at found
      rcases byte_cases c with plain | rfl | rfl | control
      · rw [decode_plain plain] at found
        obtain ⟨result, later, equal⟩ := Option.map_eq_some_iff.mp found
        obtain ⟨first, rfl⟩ := Prod.mk.inj equal
        obtain ⟨d, y, rfl⟩ := exists_cons_of_ne_nil lag
        have outEq : result.1 = y ++ c :: x := (cons.inj first).2
        apply ih x.length (by omega) x (y := y ++ [c]) (by simp) rfl
        rw [later, append_assoc, singleton_append, ← outEq]
      · rw [decode_quote] at found
        have empty := (Prod.mk.inj (Option.some.inj found)).1
        simp at empty
      · cases escape : unescape (x ++ quote :: tail) with
        | none =>
          rw [decode_bad_escape escape] at found
          cases found
        | some result =>
          obtain ⟨code, next⟩ := result
          rw [decode_escape escape] at found
          obtain ⟨⟨out, final⟩, later, equal⟩ := Option.map_eq_some_iff.mp found
          obtain ⟨outEq, rfl⟩ := Prod.mk.inj equal
          rcases unescape_before_quote escape with ⟨rfl, rfl, rfl⟩ | ⟨raw, left, rfl, -, rfl, short⟩
          · -- The backslash escapes the quote, so the string ends with the separator.
            obtain rfl := behind _ _ later
            have ends := congrArg getLast? outEq
            simp at ends
            exact different ends
          · have room : code.length < (y ++ backslash :: raw).length := by
              rw [length_append, length_cons]
              omega
            have regroup : y ++ backslash :: (raw ++ left) = (y ++ backslash :: raw) ++ left := by simp
            have cut := congrArg (drop code.length) outEq
            rw [drop_left, regroup, drop_append_of_le_length room.le] at cut
            apply ih left.length (by rw [length_append] at size; omega) left
              (y := (y ++ backslash :: raw).drop code.length) ?_ rfl
            · rw [later, ← cut]
            · rw [ne_eq, drop_eq_nil_iff, not_le]
              exact room
      · rw [decode_control control] at found
        cases found

theorem plain_of_decode_self (behind : ∀ out more, decode tail = some (out, more) → out = [sep])
    (different : sep ≠ backslash) {text rest : Bytes} (found : decode (text ++ quote :: tail) = some (text, rest)) :
      ∀ c ∈ text, isPlain c := by
  induction text with
  | nil => exact forall_mem_nil _
  | cons c text ih =>
    rw [cons_append] at found
    rcases byte_cases c with plain | rfl | rfl | control
    · rw [decode_plain plain] at found
      obtain ⟨⟨out, final⟩, later, equal⟩ := Option.map_eq_some_iff.mp found
      obtain ⟨first, rfl⟩ := Prod.mk.inj equal
      obtain ⟨-, rfl⟩ := cons.inj first
      rw [forall_mem_cons]
      exact ⟨plain, ih later⟩
    · rw [decode_quote] at found
      cases found
    · cases escape : unescape (text ++ quote :: tail) with
      | none =>
        rw [decode_bad_escape escape] at found
        cases found
      | some result =>
        obtain ⟨code, next⟩ := result
        rw [decode_escape escape] at found
        obtain ⟨⟨out, final⟩, later, equal⟩ := Option.map_eq_some_iff.mp found
        obtain ⟨outEq, rfl⟩ := Prod.mk.inj equal
        rcases unescape_before_quote escape with ⟨rfl, rfl, rfl⟩ | ⟨raw, left, rfl, -, rfl, short⟩
        · exact absurd (cons.inj outEq).1 (by decide)
        · have room : code.length < (backslash :: raw).length := Nat.lt_succ_of_le short
          have cut := congrArg (drop code.length) outEq
          rw [drop_left, ← cons_append, drop_append_of_le_length room.le] at cut
          change out = _ at cut
          refine absurd later ?_
          rw [cut]
          apply decode_ne_append behind different left
          rw [ne_eq, drop_eq_nil_iff, not_le]
          exact room
    · rw [decode_control control] at found
      cases found

end Strings

section Settling

def Settles {α : Type} (scan : Bytes → Option (α × Bytes)) (x : Bytes) : Prop :=
  (∀ w, scan (x ++ quote :: w) = none) ∨
    ∃ value later, later <:+ x ∧ ∀ w, scan (x ++ quote :: w) = some (value, later ++ quote :: w)

theorem hexQuad_settles (x : Bytes) : Settles hexQuad x := by
  have stop := hexValue_quote
  match x with
  | [] =>
    refine .inl fun w => ?_
    match w with
    | [] | [_] | [_, _] => rfl
    | _ :: _ :: _ :: _ => simp [hexQuad, stop]
  | [a] =>
    refine .inl fun w => ?_
    match w with
    | [] | [_] => rfl
    | _ :: _ :: _ => simp [hexQuad, stop]
  | [a, b] =>
    refine .inl fun w => ?_
    match w with
    | [] => rfl
    | _ :: _ => simp [hexQuad, stop]
  | [a, b, c] => exact .inl fun w => by simp [hexQuad, stop]
  | a :: b :: c :: d :: later =>
    have suffix : later <:+ a :: b :: c :: d :: later := ⟨[a, b, c, d], rfl⟩
    cases first : hexValue a with
    | none => exact .inl fun w => by simp [hexQuad, first]
    | some =>
      cases second : hexValue b with
      | none => exact .inl fun w => by simp [hexQuad, second]
      | some =>
        cases third : hexValue c with
        | none => exact .inl fun w => by simp [hexQuad, third]
        | some =>
          cases fourth : hexValue d with
          | none => exact .inl fun w => by simp [hexQuad, fourth]
          | some =>
            exact .inr ⟨_, later, suffix, fun w => by simp [hexQuad, first, second, third, fourth]; rfl⟩

theorem lowSurrogate_settles (x : Bytes) :
    (∀ w, lowSurrogate (x ++ quote :: w) = none) ∨ (∀ w, lowSurrogate (x ++ quote :: w) = some none) ∨
      ∃ value later, later <:+ x ∧ ∀ w, lowSurrogate (x ++ quote :: w) = some (some (value, later ++ quote :: w)) := by
  have apart : quote ≠ backslash ∧ quote ≠ byte 'u' := by decide
  match x with
  | [] =>
    refine .inr (.inl fun w => ?_)
    cases w with
    | nil => rfl
    | cons => simp [lowSurrogate, apart]
  | [b] => exact .inr (.inl fun w => by simp [lowSurrogate, apart])
  | b :: u :: x =>
    by_cases pair : b = backslash ∧ u = byte 'u'
    · rcases hexQuad_settles x with failed | ⟨value, later, suffix, found⟩
      · exact .inl fun w => by simp [lowSurrogate, pair, failed]
      · by_cases low : 0xDC00 ≤ value ∧ value ≤ 0xDFFF
        · have longer : later <:+ b :: u :: x := suffix.trans ⟨[b, u], rfl⟩
          exact .inr (.inr ⟨value, later, longer, fun w => by simp [lowSurrogate, pair, found, low]⟩)
        · exact .inr (.inl fun w => by simp [lowSurrogate, found, low])
    · exact .inr (.inl fun w => by rw [cons_append, cons_append, lowSurrogate, if_neg pair])

/-- An escape that does not begin at the quote. -/
theorem unescape_settles {x : Bytes} (some : x ≠ []) : Settles unescape x := by
  obtain ⟨c, x, rfl⟩ := exists_cons_of_ne_nil some
  by_cases unicode : c = byte 'u'
  · have longer {later : Bytes} (suffix : later <:+ x) : later <:+ c :: x := suffix.trans ⟨[c], rfl⟩
    rcases hexQuad_settles x with failed | ⟨high, next, suffix, found⟩
    · exact .inl fun w => by simp [unescape, unicode, failed]
    · by_cases surrogate : 0xD800 ≤ high ∧ high ≤ 0xDBFF
      · rcases lowSurrogate_settles next with failed | lone | ⟨low, later, inner, pair⟩
        · exact .inl fun w => by simp [unescape, unicode, found, surrogate, failed]
        · exact .inr ⟨utf8 high, next, longer suffix, fun w => by simp [unescape, unicode, found, lone]⟩
        · exact .inr ⟨utf8 (0x10000 + (high - 0xD800) * 1024 + (low - 0xDC00)), later, longer (inner.trans suffix),
            fun w => by simp [unescape, unicode, found, surrogate, pair]⟩
      · exact .inr ⟨utf8 high, next, longer suffix, fun w => by simp [unescape, unicode, found, surrogate]⟩
  · have unfolded (w : Bytes) : unescape (c :: x ++ quote :: w) =
        (simpleEscape c).map fun out => ([out], x ++ quote :: w) := by
      rw [cons_append, unescape, if_neg unicode]
    cases simple : simpleEscape c with
    | none => exact .inl fun w => by rw [unfolded, simple]; rfl
    | some => exact .inr ⟨_, x, ⟨[c], rfl⟩, fun w => by rw [unfolded, simple]; rfl⟩

/-- A string that reaches a quote without a backslash in front of it ends there or before. -/
theorem decode_settles {u : Bytes} (bare : u.getLast? ≠ some backslash) :
    (∀ w, decode (u ++ quote :: w) = none) ∨ ∃ out later, ∀ w, decode (u ++ quote :: w) = some (out, later ++ w) := by
  induction size : u.length using Nat.strong_induction_on generalizing u with
  | _ size ih =>
    cases u with
    | nil => exact .inr ⟨[], [], fun w => decode_quote⟩
    | cons c u =>
      rw [length_cons] at size
      have bareTail {later : Bytes} (suffix : later <:+ u) : later.getLast? ≠ some backslash := by
        obtain ⟨front, rfl⟩ := suffix
        intro ends
        apply bare
        obtain ⟨text, rfl⟩ := getLast?_eq_some_iff.mp ends
        exact getLast?_eq_some_iff.mpr ⟨c :: (front ++ text), by simp⟩
      -- The rest of the string settles as well, and so does the string with what the step adds.
      have continued (code later : Bytes) (suffix : later <:+ u)
          (step : ∀ w, decode (c :: u ++ quote :: w) =
            (decode (later ++ quote :: w)).map fun rest => (code ++ rest.1, rest.2)) :
          (∀ w, decode (c :: u ++ quote :: w) = none) ∨
            ∃ out later, ∀ w, decode (c :: u ++ quote :: w) = some (out, later ++ w) := by
        have shorter := suffix.length_le
        rcases ih later.length (by omega) (bareTail suffix) rfl with failed | ⟨out, final, found⟩
        · exact .inl fun w => by rw [step, failed]; rfl
        · exact .inr ⟨code ++ out, final, fun w => by rw [step, found]; rfl⟩
      rcases byte_cases c with plain | rfl | rfl | control
      · exact continued [c] u suffix_rfl fun w => decode_plain plain
      · exact .inr ⟨[], u ++ [quote], fun w => by simp⟩
      · have some : u ≠ [] := by
          rintro rfl
          exact bare rfl
        rcases unescape_settles some with failed | ⟨code, later, suffix, found⟩
        · exact .inl fun w => decode_bad_escape (failed w)
        · exact continued code later suffix fun w => decode_escape (found w)
      · exact .inl fun w => decode_control control

variable {out text rest : Bytes}

/-- A string that is read is the body of a token. -/
theorem reads_of_decode (found : decode text = some (out, rest)) :
    ∃ body, text = body ++ quote :: rest ∧ Reads body out := by
  induction size : text.length using Nat.strong_induction_on generalizing text out with
  | _ size ih =>
    cases text with
    | nil => cases found
    | cons c text =>
      rw [length_cons] at size
      rcases byte_cases c with plain | rfl | rfl | control
      · rw [decode_plain plain] at found
        obtain ⟨⟨later, final⟩, inner, equal⟩ := Option.map_eq_some_iff.mp found
        obtain ⟨rfl, rfl⟩ := Prod.mk.inj equal
        obtain ⟨body, rfl, reads⟩ := ih text.length (by omega) inner rfl
        exact ⟨c :: body, rfl, reads_cons plain reads⟩
      · rw [decode_quote] at found
        obtain ⟨rfl, rfl⟩ := Prod.mk.inj (Option.some.inj found)
        exact ⟨[], rfl, reads_nil⟩
      · cases escape : unescape text with
        | none =>
          rw [decode_bad_escape escape] at found
          cases found
        | some result =>
          obtain ⟨code, next⟩ := result
          obtain ⟨raw, rfl, some, -⟩ := unescape_spec escape
          rw [decode_escape escape] at found
          obtain ⟨⟨later, final⟩, inner, equal⟩ := Option.map_eq_some_iff.mp found
          obtain ⟨rfl, rfl⟩ := Prod.mk.inj equal
          rw [length_append] at size
          obtain ⟨body, rfl, reads⟩ := ih next.length (by omega) inner rfl
          refine ⟨backslash :: (raw ++ body), by simp, fun behind => ?_⟩
          -- The escape may look ahead, but not past the closing quote.
          have nonEmpty : raw ++ body ≠ [] := by simp [some]
          rw [← append_assoc] at escape
          rcases unescape_settles nonEmpty with failed | ⟨other, left, -, settled⟩
          · rw [failed] at escape
            cases escape
          · rw [settled] at escape
            obtain ⟨rfl, remains⟩ := Prod.mk.inj (Option.some.inj escape)
            obtain rfl := append_cancel_right remains
            rw [cons_append, decode_escape (settled behind), reads behind]
            rfl
      · rw [decode_control control] at found
        cases found

end Settling

section Grammar

/-- The white space between tokens. -/
def isBlank (c : UInt8) : Bool := c = 32 || c = 9 || c = 10 || c = 13

def Blank (gap : Bytes) : Prop := ∀ c ∈ gap, isBlank c

def StringToken (token out : Bytes) : Prop := ∃ body, token = quote :: (body ++ [quote]) ∧ Reads body out

def Digits (text : Bytes) : Prop := text ≠ [] ∧ ∀ c ∈ text, isDigit c

/-- A number has a sign, an integer without leading zeros, a fraction and an exponent. -/
structure NumberToken (token : Bytes) : Prop where
  parts : ∃ sign int frac exp : Bytes, token = sign ++ int ++ frac ++ exp ∧
    (sign = [] ∨ sign = [byte '-']) ∧
    Digits int ∧ (int.head? = some (byte '0') → int.length = 1) ∧
    (frac = [] ∨ ∃ digits, frac = byte '.' :: digits ∧ Digits digits) ∧
    (exp = [] ∨ ∃ mark digits sign, exp = mark :: (sign ++ digits) ∧ (mark = byte 'e' ∨ mark = byte 'E') ∧
      (sign = [] ∨ sign = [byte '+'] ∨ sign = [byte '-']) ∧ Digits digits)

theorem decimal_leading {n : Nat} (leading : (decimal n).head? = some (byte '0')) : decimal n = [byte '0'] := by
  by_cases zero : n = 0
  · rw [decimal, if_pos zero]
    rfl
  · have digits : Nat.digits 10 n ≠ [] := Nat.digits_ne_nil_iff_ne_zero.mpr zero
    rw [decimal, if_neg zero, head?_map, head?_reverse, getLast?_eq_some_getLast digits] at leading
    have small := Nat.digits_lt_base (b := 10) (by decide) (getLast_mem digits)
    have first := Nat.getLast_digit_ne_zero 10 zero
    have same : UInt8.ofNat (48 + (Nat.digits 10 n).getLast digits) = UInt8.ofNat 48 := Option.some.inj leading
    have value := congrArg UInt8.toNat same
    simp only [UInt8.toNat_ofNat'] at value
    omega

theorem numberToken_decimal (n : Nat) {k : Nat} (some : 0 < k) : NumberToken ((decimal n).take k) := by
  obtain ⟨c, rest, printed⟩ := exists_cons_of_ne_nil (decimal_ne_nil n)
  obtain ⟨k, rfl⟩ : ∃ smaller, k = smaller + 1 := ⟨k - 1, by omega⟩
  refine ⟨[], (decimal n).take (k + 1), [], [], by simp, .inl rfl, ⟨?_, ?_⟩, ?_, .inl rfl, .inl rfl⟩
  · rw [printed]
    exact cons_ne_nil _ _
  · exact fun c member => decimal_isDigit n c (mem_of_mem_take member)
  · intro leading
    have whole : (decimal n).head? = Option.some (byte '0') := by
      rw [printed] at leading ⊢
      exact leading
    rw [decimal_leading whole]
    simp

inductive Kind
  | value
  | elements
  | members

inductive Json : Kind → Bytes → Prop
  | literal {text : Bytes} : text = str "null" ∨ text = str "true" ∨ text = str "false" → Json .value text
  | number {text : Bytes} : NumberToken text → Json .value text
  | string {text out : Bytes} : StringToken text out → Json .value text
  | emptyArray {gap : Bytes} : Blank gap → Json .value (byte '[' :: (gap ++ [byte ']']))
  | array {body : Bytes} : Json .elements body → Json .value (byte '[' :: (body ++ [byte ']']))
  | emptyObject {gap : Bytes} : Blank gap → Json .value (byte '\x7b' :: (gap ++ [byte '\x7d']))
  | object {body : Bytes} : Json .members body → Json .value (byte '\x7b' :: (body ++ [byte '\x7d']))
  | element {before value after : Bytes} : Blank before → Json .value value → Blank after →
      Json .elements (before ++ value ++ after)
  | nextElement {before value after rest : Bytes} : Blank before → Json .value value → Blank after →
      Json .elements rest → Json .elements (before ++ value ++ after ++ byte ',' :: rest)
  | member {before name out gap after value last : Bytes} : Blank before → StringToken name out → Blank gap →
      Blank after → Json .value value → Blank last →
      Json .members (before ++ name ++ gap ++ byte ':' :: (after ++ value ++ last))
  | nextMember {before name out gap after value last rest : Bytes} : Blank before → StringToken name out →
      Blank gap → Blank after → Json .value value → Blank last → Json .members rest →
      Json .members (before ++ name ++ gap ++ byte ':' :: (after ++ value ++ last) ++ byte ',' :: rest)

inductive Members : List (Bytes × Bytes) → Bytes → Prop
  | last {before name out gap after value trail : Bytes} : Blank before → StringToken name out → Blank gap →
      Blank after → Json .value value → Blank trail →
      Members [(out, value)] (before ++ name ++ gap ++ byte ':' :: (after ++ value ++ trail))
  | next {before name out gap after value trail text : Bytes} {rest : List (Bytes × Bytes)} : Blank before →
      StringToken name out → Blank gap → Blank after → Json .value value → Blank trail → Members rest text →
      Members ((out, value) :: rest) (before ++ name ++ gap ++ byte ':' :: (after ++ value ++ trail) ++
        byte ',' :: text)

def ReadsObject (text : Bytes) (members : List (Bytes × Bytes)) : Prop :=
  ∃ body, text = byte '\x7b' :: (body ++ [byte '\x7d']) ∧ Members members body

variable {members : List (Bytes × Bytes)} {text token out name value behind : Bytes}

theorem stringToken_decode (isString : StringToken token out) (behind : Bytes) :
    ∃ body, token ++ behind = quote :: body ∧ decode body = some (out, behind) := by
  obtain ⟨body, rfl, reads⟩ := isString
  exact ⟨body ++ quote :: behind, by simp, reads behind⟩

theorem json_string (json : Json .value value) (quoted : value.head? = some quote) : ∃ out, StringToken value out := by
  cases json with
  | literal named => rcases named with rfl | rfl | rfl <;> exact absurd quoted (by decide)
  | number isNumber =>
    obtain ⟨sign, int, frac, exp, rfl, signed, ⟨some, digits⟩, -⟩ := isNumber.parts
    obtain ⟨d, int, rfl⟩ := exists_cons_of_ne_nil some
    have digit := digits d mem_cons_self
    rcases signed with rfl | rfl
    · obtain rfl := Option.some.inj quoted
      exact absurd digit (by decide)
    · exact absurd (Option.some.inj quoted) (by decide)
  | string isString => exact ⟨_, isString⟩
  | emptyArray => exact absurd (Option.some.inj quoted) (by decide)
  | array => exact absurd (Option.some.inj quoted) (by decide)
  | emptyObject => exact absurd (Option.some.inj quoted) (by decide)
  | object => exact absurd (Option.some.inj quoted) (by decide)

/-- A value has a first byte that is not white space. -/
theorem json_head (json : Json .value value) : ∃ c rest, value = c :: rest ∧ isBlank c = false := by
  cases json with
  | literal named => rcases named with rfl | rfl | rfl <;> exact ⟨_, _, rfl, by decide⟩
  | number isNumber =>
    obtain ⟨sign, int, frac, exp, rfl, signed, ⟨some, digits⟩, -⟩ := isNumber.parts
    obtain ⟨d, int, rfl⟩ := exists_cons_of_ne_nil some
    have digit := digits d mem_cons_self
    rcases signed with rfl | rfl
    · refine ⟨d, int ++ frac ++ exp, rfl, Bool.eq_false_iff.mpr fun blank => ?_⟩
      simp only [isBlank, Bool.or_eq_true, decide_eq_true_eq] at blank
      rcases blank with ((rfl | rfl) | rfl) | rfl <;> exact absurd digit (by decide)
    · exact ⟨byte '-', _, rfl, by decide⟩
  | string isString =>
    obtain ⟨body, rfl, -⟩ := isString
    exact ⟨quote, _, rfl, by decide⟩
  | emptyArray => exact ⟨_, _, rfl, by decide⟩
  | array => exact ⟨_, _, rfl, by decide⟩
  | emptyObject => exact ⟨_, _, rfl, by decide⟩
  | object => exact ⟨_, _, rfl, by decide⟩

variable {c : UInt8}

/-- White space in front of another byte is empty. -/
theorem blank_nil {gap rest tail : Bytes} (blank : Blank gap) (same : gap ++ rest = c :: tail)
    (other : isBlank c = false) : gap = [] := by
  cases gap with
  | nil => rfl
  | cons d =>
    obtain ⟨rfl, -⟩ := cons.inj same
    exact absurd (blank d mem_cons_self) (by simp [other])

theorem member_split {body tail before gap after trail later : Bytes} {out' : Bytes} (reads : Reads body out)
    (dense : isBlank c = false) (space : Blank before) (named : StringToken name out') (gapBlank : Blank gap)
    (afterBlank : Blank after) (json : Json .value value)
    (same : quote :: (body ++ quote :: byte ':' :: (c :: tail)) = before ++ name ++ gap ++
      byte ':' :: (after ++ value ++ trail) ++ later) :
    out' = out ∧ c :: tail = value ++ (trail ++ later) := by
  obtain ⟨d, value, rfl, denseValue⟩ := json_head json
  simp only [append_assoc, cons_append] at same
  obtain rfl := blank_nil space same.symm (by decide)
  obtain ⟨text, joined, decoded⟩ :=
    stringToken_decode named (gap ++ byte ':' :: (after ++ d :: (value ++ (trail ++ later))))
  rw [joined] at same
  obtain rfl := (cons.inj same).2
  rw [reads] at decoded
  obtain ⟨rfl, rest⟩ := Prod.mk.inj (Option.some.inj decoded)
  obtain rfl := blank_nil gapBlank rest.symm (by decide)
  have colon := (cons.inj rest).2
  obtain rfl := blank_nil afterBlank colon.symm dense
  exact ⟨rfl, by simpa using colon⟩

theorem members_first {body tail : Bytes} (reads : Reads body out) (dense : isBlank c = false)
    (listed : Members members (quote :: (body ++ quote :: byte ':' :: (c :: tail)))) :
    ∃ value trail later rest, members = (out, value) :: rest ∧ Json .value value ∧ Blank trail ∧
      c :: tail = value ++ (trail ++ later) ∧
      (rest = [] ∧ later = [] ∨ ∃ text, later = byte ',' :: text ∧ Members rest text) := by
  generalize same : quote :: (body ++ quote :: byte ':' :: (c :: tail)) = text at listed
  cases listed with
  | last before name gap after json trail =>
    have padded := same.trans (append_nil _).symm
    obtain ⟨rfl, split⟩ := member_split reads dense before name gap after json padded
    exact ⟨_, _, [], [], rfl, json, trail, split, .inl ⟨rfl, rfl⟩⟩
  | next before name gap after json trail rest =>
    obtain ⟨rfl, split⟩ := member_split reads dense before name gap after json same
    exact ⟨_, _, _, _, rfl, json, trail, split, .inr ⟨_, rfl, rest⟩⟩

theorem string_value {body : Bytes} (json : Json .value value) (same : quote :: body = value ++ behind) :
    ∃ out, StringToken value out ∧ decode body = some (out, behind) := by
  obtain ⟨c, rest, rfl, -⟩ := json_head json
  obtain ⟨rfl, -⟩ := cons.inj same
  obtain ⟨out, isString⟩ := json_string json rfl
  obtain ⟨text, joined, decoded⟩ := stringToken_decode isString behind
  rw [joined] at same
  obtain rfl := (cons.inj same).2
  exact ⟨out, isString, decoded⟩

theorem stringToken_unique {other : Bytes} (first : StringToken token out) (second : StringToken token other) :
    out = other := by
  obtain ⟨body, joined, decoded⟩ := stringToken_decode first []
  obtain ⟨body', joined', decoded'⟩ := stringToken_decode second []
  obtain rfl := (cons.inj (joined.symm.trans joined')).2
  exact (Prod.mk.inj (Option.some.inj (decoded.symm.trans decoded'))).1

/-- A member without white space. -/
def field (name value : Bytes) : Bytes := quote :: (name ++ quote :: byte ':' :: value)

def fields (listed : List (Bytes × Bytes)) : Bytes := listed.flatMap fun member => byte ',' :: field member.1 member.2

theorem stringToken_quoted {body : Bytes} (reads : Reads body out) : StringToken (quote :: (body ++ [quote])) out :=
  ⟨body, rfl, reads⟩

theorem members_fields {rest : List (Bytes × Bytes)} (reads : Reads name name) (json : Json .value value)
    (later : ∀ member ∈ rest, Reads member.1 member.1 ∧ Json .value member.2) :
    Members ((name, value) :: rest) (field name value ++ fields rest) := by
  have blank : Blank [] := forall_mem_nil _
  have shape (name value : Bytes) :
      field name value = [] ++ (quote :: (name ++ [quote])) ++ [] ++ byte ':' :: ([] ++ value ++ []) := by simp [field]
  induction rest generalizing name value with
  | nil =>
    rw [fields, flatMap_nil, append_nil, shape]
    exact .last blank (stringToken_quoted reads) blank blank json blank
  | cons member rest ih =>
    obtain ⟨first, later⟩ := forall_mem_cons.mp later
    rw [shape]
    exact .next blank (stringToken_quoted reads) blank blank json blank (ih first.1 first.2 later)

end Grammar

end JsonText
