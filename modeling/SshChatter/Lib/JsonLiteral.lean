import SshChatter.Lib.JsonText

namespace JsonText
open CString List

/-- A code point that is no half of a surrogate pair. -/
def Character (codepoint : Nat) : Prop := codepoint < 0xD800 ∨ 0xDFFF < codepoint ∧ codepoint ≤ 0x10FFFF

/-- The first half of a surrogate pair. -/
def High (value : Nat) : Prop := 0xD800 ≤ value ∧ value ≤ 0xDBFF

/-- The second half of a surrogate pair. -/
def Low (value : Nat) : Prop := 0xDC00 ≤ value ∧ value ≤ 0xDFFF

instance (value : Nat) : Decidable (High value) := inferInstanceAs (Decidable (_ ∧ _))
instance (value : Nat) : Decidable (Low value) := inferInstanceAs (Decidable (_ ∧ _))

/-- A string between its quotes is made of characters, escapes of one letter and escapes of four digits. -/
inductive Piece
  | char (codepoint : Nat) (character : Character codepoint) (visible : 0x20 ≤ codepoint)
      (plain : codepoint ≠ 0x22 ∧ codepoint ≠ 0x5C)
  | letter (name code : UInt8) (named : simpleEscape name = some code)
  | unit (digits : Bytes) (number : Nat) (read : hexQuad digits = some (number, []))

namespace Piece

def text : Piece → Bytes
  | char codepoint _ _ _ => utf8 codepoint
  | letter name _ _ => [backslash, name]
  | unit digits _ _ => backslash :: byte 'u' :: digits

def value : Piece → Nat
  | char codepoint _ _ _ => codepoint
  | letter _ code _ => code.toNat
  | unit _ number _ => number

end Piece

/-- The two halves of a surrogate pair become one code point. A half without its partner stays. -/
def joinHalves : List Nat → List Nat
  | high :: low :: rest =>
    if High high ∧ Low low then (0x10000 + (high - 0xD800) * 1024 + (low - 0xDC00)) :: joinHalves rest
    else high :: joinHalves (low :: rest)
  | short => short

def literalText (pieces : List Piece) : Bytes := pieces.flatMap Piece.text

def codepoints (pieces : List Piece) : List Nat := joinHalves (pieces.map Piece.value)

section Characters

variable {codepoint : Nat} {rest behind : Bytes} {c : UInt8}

theorem utf8_ascii (small : codepoint < 0x80) : utf8 codepoint = [UInt8.ofNat codepoint] :=
  if_pos (by omega)

/-- The bytes of a code point outside ASCII have the high bit. -/
theorem utf8_wide (large : 0x80 ≤ codepoint) : ∀ c ∈ utf8 codepoint, 0x80 ≤ c := by
  have mark {value : Nat} (low : 0x80 ≤ value) (high : value < 256) : 0x80 ≤ UInt8.ofNat value := by
    rw [UInt8.le_iff_toNat_le, UInt8.toNat_ofNat_of_lt' high]
    exact low
  rw [utf8, if_neg (by omega)]
  split_ifs
  all_goals
    simp only [forall_mem_cons, not_mem_nil, false_implies, implies_true, and_true]
  · exact ⟨mark (by omega) (by omega), mark (by omega) (by omega)⟩
  · exact ⟨mark (by omega) (by omega), mark (by omega) (by omega), mark (by omega) (by omega)⟩
  · exact ⟨mark (by omega) (by omega), mark (by omega) (by omega), mark (by omega) (by omega),
      mark (by omega) (by omega)⟩

theorem utf8_ne_nil : utf8 codepoint ≠ [] := by
  rw [utf8]
  split_ifs <;> simp

/-- Only the code of NUL holds a NUL. -/
theorem zero_mem_utf8 : 0 ∈ utf8 codepoint ↔ codepoint = 0 := by
  by_cases small : codepoint < 0x80
  · rw [utf8_ascii small, mem_singleton, ← UInt8.toNat_inj,
      UInt8.toNat_ofNat_of_lt' (show codepoint < 2 ^ 8 by omega)]
    simp [eq_comm]
  · apply iff_of_false
    · intro member
      exact absurd (utf8_wide (not_lt.mp small) 0 member) (by decide)
    · omega

theorem isPlain_wide (wide : 0x80 ≤ c) : isPlain c := by
  have number := UInt8.le_iff_toNat_le.mp wide
  simp only [isPlain, Bool.and_eq_true, decide_eq_true_eq, ne_eq, UInt8.le_iff_toNat_le, ← UInt8.toNat_inj]
  have named : quote.toNat = 34 ∧ backslash.toNat = 92 := by decide
  have bounds : (0x80 : UInt8).toNat = 128 ∧ (0x20 : UInt8).toNat = 32 := by decide
  omega

theorem utf8_plain (visible : 0x20 ≤ codepoint) (plain : codepoint ≠ 0x22 ∧ codepoint ≠ 0x5C) :
    ∀ c ∈ utf8 codepoint, isPlain c := by
  by_cases small : codepoint < 0x80
  · rw [utf8_ascii small, forall_mem_singleton]
    simp only [isPlain, Bool.and_eq_true, decide_eq_true_eq, ne_eq, UInt8.le_iff_toNat_le, ← UInt8.toNat_inj,
      UInt8.toNat_ofNat_of_lt' (show codepoint < 2 ^ 8 by omega)]
    have named : quote.toNat = 34 ∧ backslash.toNat = 92 ∧ (0x20 : UInt8).toNat = 32 := by decide
    omega
  · exact fun c member => isPlain_wide (utf8_wide (not_lt.mp small) c member)

theorem decode_plain_append {front : Bytes} (plain : ∀ c ∈ front, isPlain c) :
    decode (front ++ rest) = (decode rest).map fun later => (front ++ later.1, later.2) := by
  induction front with
  | nil => simp
  | cons c front ih =>
    obtain ⟨first, later⟩ := forall_mem_cons.mp plain
    rw [cons_append, decode_plain first, ih later, Option.map_map]
    rfl

variable {codepoints : List Nat}

/-- The first byte below 0x80 is the first code point. -/
theorem flatMap_utf8_ascii (ascii : c < 0x80) (front : codepoints.flatMap utf8 = c :: rest) :
    ∃ later, codepoints = c.toNat :: later ∧ rest = later.flatMap utf8 := by
  cases codepoints with
  | nil => cases front
  | cons first later =>
    rw [flatMap_cons] at front
    by_cases small : first < 0x80
    · rw [utf8_ascii small] at front
      obtain ⟨rfl, rfl⟩ := cons.inj front
      refine ⟨later, ?_, rfl⟩
      rw [UInt8.toNat_ofNat_of_lt' (show first < 2 ^ 8 by omega)]
    · obtain ⟨lead, tail, code⟩ := exists_cons_of_ne_nil (show utf8 first ≠ [] from utf8_ne_nil)
      rw [code] at front
      obtain rfl := (cons.inj front).1
      have wide := utf8_wide (not_lt.mp small) lead (code ▸ mem_cons_self)
      exact absurd ascii (UInt8.not_lt.mpr wide)

/-- Bytes below 0x80 in front leave the codes of the other code points. -/
theorem flatMap_utf8_drop {front : Bytes} (ascii : ∀ c ∈ front, c < 0x80)
    (split : codepoints.flatMap utf8 = front ++ rest) :
    ∃ later, later <:+ codepoints ∧ rest = later.flatMap utf8 ∧ later.length + front.length = codepoints.length := by
  induction front generalizing codepoints with
  | nil => exact ⟨codepoints, suffix_refl _, split.symm, rfl⟩
  | cons c front ih =>
    obtain ⟨first, others⟩ := forall_mem_cons.mp ascii
    obtain ⟨later, rfl, equal⟩ := flatMap_utf8_ascii first split
    obtain ⟨last, suffix, rest, size⟩ := ih others equal.symm
    refine ⟨last, suffix.trans (suffix_cons _ _), rest, ?_⟩
    simp only [length_cons]
    omega

end Characters

section Digits

variable {digits behind : Bytes} {number : Nat} {c : UInt8}

theorem hexQuad_append (read : hexQuad digits = some (number, [])) (behind : Bytes) :
    hexQuad (digits ++ behind) = some (number, behind) := by
  match digits with
  | [] | [_] | [_, _] | [_, _, _] => cases read
  | a :: b :: c :: d :: tail =>
    simp only [hexQuad, cons_append] at read ⊢
    split at read
    · obtain ⟨rfl, rfl⟩ := Prod.mk.inj (Option.some.inj read)
      rfl
    · cases read

theorem hexQuad_alone (read : hexQuad (digits ++ behind) = some (number, behind)) :
    hexQuad digits = some (number, []) := by
  obtain ⟨found, split, four, -⟩ := hexQuad_some read
  obtain rfl := append_cancel_right split
  match digits, four with
  | [a, b, c, d], _ =>
    simp only [hexQuad, cons_append] at read ⊢
    split at read
    · obtain ⟨rfl, -⟩ := Prod.mk.inj (Option.some.inj read)
      rfl
    · cases read

theorem hexValue_ascii (digit : (hexValue c).isSome) : c < 0x80 := by
  rw [UInt8.lt_iff_toNat_lt]
  simp only [hexValue, UInt8.le_iff_toNat_le] at digit
  have bounds : (byte '9').toNat = 57 ∧ (byte 'f').toNat = 102 ∧ (byte 'F').toNat = 70 ∧
    (0x80 : UInt8).toNat = 128 := by
    decide
  split_ifs at digit <;> first | omega | cases digit

theorem hexQuad_split {text rest : Bytes} (read : hexQuad text = some (number, rest)) :
    ∃ digits : Bytes, text = digits ++ rest ∧ hexQuad digits = some (number, []) ∧ quote ∉ digits ∧
      ∀ c ∈ digits, c < 0x80 := by
  obtain ⟨digits, rfl, four, hex⟩ := hexQuad_some read
  refine ⟨digits, rfl, hexQuad_alone read, ?_, fun c member => hexValue_ascii (hex c member)⟩
  intro member
  have digit := hex quote member
  cases digit

theorem simpleEscape_ascii (named : (simpleEscape c).isSome) : c < 0x80 ∧ c ≠ byte 'u' := by
  simp only [simpleEscape] at named
  split_ifs at named <;> first | (subst_vars; decide) | cases named

end Digits

section Joining

variable {first second : Nat} {rest : List Nat}

theorem joinHalves_pair (high : High first) (low : Low second) :
    joinHalves (first :: second :: rest) = (0x10000 + (first - 0xD800) * 1024 + (second - 0xDC00)) :: joinHalves rest :=
  if_pos ⟨high, low⟩

/-- A number without a partner stays. -/
theorem joinHalves_lone (lone : High first → ∀ next, rest.head? = some next → ¬ Low next) :
    joinHalves (first :: rest) = first :: joinHalves rest := by
  cases rest with
  | nil => rfl
  | cons second => exact if_neg fun both => lone both.1 second rfl both.2

end Joining

section Reading

variable {pieces : List Piece} {piece : Piece} {behind : Bytes}

/-- The first bytes of a piece that is no second half are no second half. -/
theorem lowSurrogate_piece (other : ¬ Low piece.value) : lowSurrogate (piece.text ++ behind) = some none := by
  cases piece with
  | char codepoint character visible plain =>
    obtain ⟨lead, tail, code⟩ := exists_cons_of_ne_nil (show utf8 codepoint ≠ [] from utf8_ne_nil)
    have solid := utf8_plain visible plain lead (code ▸ mem_cons_self)
    have different : lead ≠ backslash := by
      rintro rfl
      cases solid
    rw [Piece.text, code, cons_append]
    cases tail ++ behind with
    | nil => rfl
    | cons => rw [lowSurrogate, if_neg fun both => different both.1]
  | letter name code named =>
    have different := (simpleEscape_ascii (Option.isSome_iff_exists.mpr ⟨code, named⟩)).2
    show lowSurrogate (backslash :: name :: behind) = some none
    rw [lowSurrogate, if_neg fun both => different both.2]
  | unit digits number read =>
    show lowSurrogate (backslash :: byte 'u' :: (digits ++ behind)) = some none
    rw [lowSurrogate, hexQuad_append read]
    exact if_neg other

theorem lowSurrogate_unit {digits : Bytes} {number : Nat} (read : hexQuad digits = some (number, []))
    (low : Low number) : lowSurrogate (backslash :: byte 'u' :: (digits ++ behind)) = some (some (number, behind)) := by
  rw [lowSurrogate, hexQuad_append read]
  exact if_pos low

/-- Behind a first half that has no partner stands no second half. -/
theorem lowSurrogate_literal (behind : Bytes) (lone : ∀ next, (pieces.map Piece.value).head? = some next → ¬ Low next) :
    lowSurrogate (literalText pieces ++ quote :: behind) = some none := by
  cases pieces with
  | nil =>
    cases behind with
    | nil => rfl
    | cons c behind =>
      show lowSurrogate (quote :: c :: behind) = some none
      have apart : ¬ (quote = backslash ∧ c = byte 'u') := fun both => absurd both.1 (by decide)
      rw [lowSurrogate, if_neg apart]
  | cons piece =>
    rw [literalText, flatMap_cons, append_assoc]
    exact lowSurrogate_piece (lone piece.value rfl)

/-- An escape of four digits without a partner stands for its number. -/
theorem unescape_lone {digits text : Bytes} {number : Nat} (read : hexQuad digits = some (number, []))
    (lone : High number → lowSurrogate text = some none) :
    unescape (byte 'u' :: (digits ++ text)) = some (utf8 number, text) := by
  rw [unescape, hexQuad_append read]
  by_cases high : High number
  · simp only [lone high]
    exact if_pos high
  · exact if_neg high

/-- Two escapes that form a surrogate pair stand for one code point. -/
theorem unescape_pair {digits digits' text : Bytes} {number number' : Nat} (read : hexQuad digits = some (number, []))
    (read' : hexQuad digits' = some (number', [])) (high : High number) (low : Low number') :
    unescape (byte 'u' :: (digits ++ (backslash :: byte 'u' :: (digits' ++ text)))) =
      some (utf8 (0x10000 + (number - 0xD800) * 1024 + (number' - 0xDC00)), text) := by
  rw [unescape, hexQuad_append read]
  simp only [lowSurrogate_unit read' low]
  exact if_pos high

/-- A piece without a partner is decoded to its own code point. -/
theorem reads_lone {out : Bytes} (piece : Piece)
    (lone : High piece.value → ∀ next, (pieces.map Piece.value).head? = some next → ¬ Low next)
    (later : Reads (literalText pieces) out) : Reads (piece.text ++ literalText pieces) (utf8 piece.value ++ out) := by
  intro behind
  rw [append_assoc]
  cases piece with
  | char codepoint character visible plain =>
    rw [Piece.text, decode_plain_append (utf8_plain visible plain)]
    exact congrArg (Option.map _) (later behind)
  | letter name code named =>
    have code' : utf8 code.toNat = [code] := by
      have small : code.toNat < 0x80 := by
        simp only [simpleEscape] at named
        split_ifs at named <;> cases named <;> decide
      rw [utf8_ascii small, UInt8.ofNat_toNat]
    rw [Piece.value, code']
    exact reads_simple named later behind
  | unit digits number read =>
    have escape := unescape_lone read fun high => lowSurrogate_literal behind (lone high)
    show decode (backslash :: (byte 'u' :: (digits ++ (literalText pieces ++ quote :: behind)))) = _
    rw [decode_escape escape, later behind]
    rfl

/-- Two escapes that form a surrogate pair are decoded to one code point. -/
theorem reads_pair {digits digits' text out : Bytes} {number number' : Nat} (read : hexQuad digits = some (number, []))
    (read' : hexQuad digits' = some (number', [])) (high : High number) (low : Low number') (later : Reads text out) :
    Reads (backslash :: byte 'u' :: digits ++ (backslash :: byte 'u' :: digits' ++ text))
      (utf8 (0x10000 + (number - 0xD800) * 1024 + (number' - 0xDC00)) ++ out) := by
  intro behind
  have escape : unescape (byte 'u' :: (digits ++ (backslash :: byte 'u' :: (digits' ++ (text ++ quote :: behind))))) =
      some (utf8 _, text ++ quote :: behind) := unescape_pair read read' high low
  simp only [append_assoc, cons_append]
  rw [decode_escape escape, later behind]
  rfl

/-- Only an escape of four digits can be a half of a surrogate pair. -/
theorem Piece.eq_unit (half : High piece.value ∨ Low piece.value) :
    ∃ digits number, ∃ read : hexQuad digits = some (number, []), piece = .unit digits number read := by
  cases piece with
  | char codepoint character =>
    simp only [Piece.value, High, Low] at half
    rw [Character] at character
    omega
  | letter name code =>
    have small := code.toNat_lt
    simp only [Piece.value, High, Low] at half
    omega
  | unit digits number read => exact ⟨digits, number, read, rfl⟩

/-- A literal is decoded to the UTF-8 of its code points. -/
theorem reads_literal (pieces : List Piece) : Reads (literalText pieces) ((codepoints pieces).flatMap utf8) := by
  induction size : pieces.length using Nat.strong_induction_on generalizing pieces with
  | _ size ih =>
    cases pieces with
    | nil => exact reads_nil
    | cons piece pieces =>
      rw [length_cons] at size
      by_cases lone : High piece.value → ∀ next, (pieces.map Piece.value).head? = some next → ¬ Low next
      · have joined : codepoints (piece :: pieces) = piece.value :: codepoints pieces := joinHalves_lone lone
        rw [joined]
        exact reads_lone piece lone (ih pieces.length (by omega) pieces rfl)
      · push Not at lone
        obtain ⟨high, next, second, low⟩ := lone
        cases pieces with
        | nil => cases second
        | cons partner pieces =>
          cases second
          rw [length_cons] at size
          have joined : codepoints (piece :: partner :: pieces) =
              (0x10000 + (piece.value - 0xD800) * 1024 + (partner.value - 0xDC00)) :: codepoints pieces :=
            joinHalves_pair high low
          obtain ⟨digits, number, read, rfl⟩ := Piece.eq_unit (.inl high)
          obtain ⟨digits', number', read', rfl⟩ := Piece.eq_unit (.inr low)
          rw [joined]
          exact reads_pair read read' high low (ih pieces.length (by omega) pieces rfl)

end Reading

theorem decode_shorter {text out next : Bytes} (found : decode text = some (out, next)) :
    next.length < text.length := by
  obtain ⟨body, rfl, -⟩ := reads_of_decode found
  rw [length_append, length_cons]
  omega

theorem lowSurrogate_split {text rest : Bytes} {number : Nat} (found : lowSurrogate text = some (some (number, rest))) :
    ∃ digits : Bytes, text = backslash :: byte 'u' :: (digits ++ rest) ∧ hexQuad digits = some (number, []) ∧
      ∀ c ∈ digits, c < 0x80 := by
  match text with
  | [] | [_] => cases found
  | b :: u :: tail =>
    by_cases pair : b = backslash ∧ u = byte 'u'
    · rw [lowSurrogate, if_pos pair] at found
      cases quad : hexQuad tail with
      | none =>
        rw [quad] at found
        cases found
      | some =>
        obtain ⟨digits, rfl, read, -, ascii⟩ := hexQuad_split quad
        simp only [quad] at found
        split_ifs at found
        · obtain ⟨rfl, rfl⟩ := Prod.mk.inj (Option.some.inj (Option.some.inj found))
          exact ⟨digits, by rw [pair.1, pair.2], read, ascii⟩
        · cases found
    · rw [lowSurrogate, if_neg pair] at found
      cases found

/-- An escape is one piece or two. -/
theorem unescape_split {text out rest : Bytes} (found : unescape text = some (out, rest)) :
    ∃ (front : Bytes) (pieces : List Piece), text = front ++ rest ∧ backslash :: front = literalText pieces ∧
      ∀ c ∈ front, c < 0x80 := by
  cases text with
  | nil => cases found
  | cons c tail =>
    by_cases unicode : c = byte 'u'
    · rw [unescape, if_pos unicode] at found
      cases quad : hexQuad tail with
      | none =>
        rw [quad] at found
        cases found
      | some result =>
        obtain ⟨high, next⟩ := result
        obtain ⟨digits, rfl, read, -, ascii⟩ := hexQuad_split quad
        have marked : ∀ d ∈ c :: digits, d < 0x80 :=
          forall_mem_cons.mpr ⟨unicode ▸ (by decide : byte 'u' < 0x80), ascii⟩
        have lone : ∃ (front : Bytes) (pieces : List Piece), c :: (digits ++ next) = front ++ next ∧
            backslash :: front = literalText pieces ∧ ∀ c ∈ front, c < 0x80 :=
          ⟨c :: digits, [.unit digits high read], rfl, by simp [literalText, Piece.text, unicode], marked⟩
        simp only [quad] at found
        split_ifs at found
        · cases pair : lowSurrogate next with
          | none =>
            rw [pair] at found
            cases found
          | some partner =>
            cases partner with
            | none =>
              rw [pair] at found
              obtain ⟨-, rfl⟩ := Prod.mk.inj (Option.some.inj found)
              exact lone
            | some low =>
              obtain ⟨digits', rfl, read', ascii'⟩ := lowSurrogate_split pair
              rw [pair] at found
              obtain ⟨-, rfl⟩ := Prod.mk.inj (Option.some.inj found)
              refine ⟨c :: digits ++ backslash :: byte 'u' :: digits',
                [.unit digits high read, .unit digits' low.1 read'],
                by simp, by simp [literalText, Piece.text, unicode], ?_⟩
              have second : ∀ d ∈ backslash :: byte 'u' :: digits', d < 0x80 :=
                forall_mem_cons.mpr ⟨by decide, forall_mem_cons.mpr ⟨by decide, ascii'⟩⟩
              exact forall_mem_append.mpr ⟨marked, second⟩
        · obtain ⟨-, rfl⟩ := Prod.mk.inj (Option.some.inj found)
          exact lone
    · rw [unescape, if_neg unicode] at found
      obtain ⟨code, named, equal⟩ := Option.map_eq_some_iff.mp found
      obtain ⟨-, rfl⟩ := Prod.mk.inj equal
      have ascii := (simpleEscape_ascii (Option.isSome_iff_exists.mpr ⟨code, named⟩)).1
      exact ⟨[c], [.letter c code named], rfl, rfl, forall_mem_singleton.mpr ascii⟩

theorem escape_front {values : List Nat} {code text rest next : Bytes}
    (escape : unescape (values.flatMap utf8 ++ quote :: next) = some (code, rest))
      (inner : decode rest = some (text, next)) :
    ∃ (head : List Piece) (later : List Nat), later <:+ values ∧ later.length < values.length ∧
      rest = later.flatMap utf8 ++ quote :: next ∧
        backslash :: values.flatMap utf8 = literalText head ++ later.flatMap utf8 := by
  obtain ⟨front, head, split, written, ascii⟩ := unescape_split escape
  rcases unescape_before_quote escape with ⟨-, -, rfl⟩ | ⟨raw, remaining, cut, some', rfl, -⟩
  · exact absurd (decode_shorter inner) (lt_irrefl _)
  · rw [cut, append_assoc] at split
    obtain rfl := append_cancel_right split
    obtain ⟨later, suffix, rfl, count⟩ := flatMap_utf8_drop ascii cut
    have positive := length_pos_iff.mpr some'
    refine ⟨head, later, suffix, by omega, rfl, ?_⟩
    rw [cut, ← cons_append, written]

theorem literal_of_decode (values : List Nat) (characters : ∀ value ∈ values, Character value) {out next : Bytes}
    (found : decode (values.flatMap utf8 ++ quote :: next) = some (out, next)) :
    ∃ pieces, values.flatMap utf8 = literalText pieces := by
  induction size : values.length using Nat.strong_induction_on generalizing values out with
  | _ size ih =>
    cases values with
    | nil => exact ⟨[], rfl⟩
    | cons value values =>
      obtain ⟨character, others⟩ := forall_mem_cons.mp characters
      rw [length_cons] at size
      by_cases plain : 0x20 ≤ value ∧ value ≠ 0x22 ∧ value ≠ 0x5C
      · rw [flatMap_cons, append_assoc, decode_plain_append (utf8_plain plain.1 plain.2)] at found
        obtain ⟨⟨text, final⟩, inner, equal⟩ := Option.map_eq_some_iff.mp found
        obtain ⟨-, rfl⟩ := Prod.mk.inj equal
        obtain ⟨pieces, split⟩ := ih values.length (by omega) values others inner rfl
        refine ⟨.char value character plain.1 plain.2 :: pieces, ?_⟩
        rw [flatMap_cons, split]
        rfl
      · have small : value < 0x80 := by omega
        rw [flatMap_cons, utf8_ascii small, singleton_append] at found ⊢
        rw [cons_append] at found
        by_cases control : value < 0x20
        · have refused : decode (UInt8.ofNat value :: (values.flatMap utf8 ++ quote :: next)) = none := by
            apply decode_control
            rw [UInt8.lt_iff_toNat_lt, UInt8.toNat_ofNat_of_lt' (show value < 2 ^ 8 by omega)]
            exact control
          rw [refused] at found
          cases found
        by_cases closing : value = 0x22
        · have behind : decode (UInt8.ofNat value :: (values.flatMap utf8 ++ quote :: next)) =
              some ([], values.flatMap utf8 ++ quote :: next) := by
            rw [closing]
            exact decode_quote
          rw [behind] at found
          have shorter := congrArg length (Prod.mk.inj (Option.some.inj found)).2
          rw [length_append, length_cons] at shorter
          omega
        · obtain rfl : value = 0x5C := by omega
          change decode (backslash :: (values.flatMap utf8 ++ quote :: next)) = some (out, next) at found
          show ∃ pieces, backslash :: values.flatMap utf8 = literalText pieces
          cases escape : unescape (values.flatMap utf8 ++ quote :: next) with
          | none =>
            rw [decode_bad_escape escape] at found
            cases found
          | some result =>
            obtain ⟨code, rest⟩ := result
            rw [decode_escape escape] at found
            obtain ⟨⟨text, final⟩, inner, equal⟩ := Option.map_eq_some_iff.mp found
            obtain ⟨-, rfl⟩ := Prod.mk.inj equal
            obtain ⟨head, later, suffix, shorter, rfl, split⟩ := escape_front escape inner
            obtain ⟨pieces, tail⟩ := ih later.length (by omega) later
              (fun value member => others value (suffix.subset member)) inner rfl
            refine ⟨head ++ pieces, ?_⟩
            rw [split, tail, literalText, literalText, literalText, flatMap_append]

end JsonText
