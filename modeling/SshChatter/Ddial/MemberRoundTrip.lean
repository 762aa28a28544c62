import SshChatter.Ddial.MemberFile

namespace SshChatter.Ddial
open CString FieldRecord List

theorem escapeChar_cases (c : UInt8) :
    (∃ next, escapeChar c = [byte '\\', next] ∧ unescapeChar next = c ∧ next ∉ [0, tab, 10, 13]) ∨
      (escapeChar c = [c] ∧ c ∉ [byte '\\', tab, 10, 13]) := by
  by_cases backslash : c = byte '\\'
  · exact .inl ⟨byte '\\', by rw [backslash]; decide, by rw [backslash]; decide, by decide⟩
  · by_cases tabulator : c = tab
    · exact .inl ⟨byte 't', by rw [tabulator]; decide, by rw [tabulator]; decide, by decide⟩
    · by_cases newline : c = 10
      · exact .inl ⟨byte 'n', by rw [newline]; decide, by rw [newline]; decide, by decide⟩
      · by_cases ret : c = 13
        · exact .inl ⟨byte 'r', by rw [ret]; decide, by rw [ret]; decide, by decide⟩
        · refine .inr ⟨?_, by simp [backslash, tabulator, newline, ret]⟩
          rw [escapeChar, if_neg backslash, if_neg tabulator, if_neg newline, if_neg ret]

theorem memberEscape_cons (c : UInt8) (value : Bytes) :
    memberEscape (c :: value) = escapeChar c ++ memberEscape value :=
  flatMap_cons

/-- An escaped text that has room is read back. -/
theorem memberUnescape_escape {value : Bytes} {room : Nat} (fits : value.length ≤ room) :
    memberUnescape room (memberEscape value) = value := by
  induction value generalizing room with
  | nil => cases room <;> rfl
  | cons c rest ih =>
    cases room with
    | zero => exact absurd fits (by simp)
    | succ room =>
      have later := ih (Nat.le_of_succ_le_succ fits)
      rw [memberEscape_cons]
      rcases escapeChar_cases c with ⟨next, written, means, -⟩ | ⟨written, plain⟩
      · rw [written, cons_append, singleton_append, memberUnescape, if_pos rfl, means, later]
      · rw [written, singleton_append]
        cases text : memberEscape rest with
        | nil =>
          rw [text] at later
          rw [← later]
          cases room <;> rfl
        | cons =>
          have notBackslash : c ≠ byte '\\' := fun same => plain (by simp [same])
          rw [memberUnescape, if_neg notBackslash, ← text, later]

/-- The escaped text has no separator, no line ending and no new NUL. -/
theorem memberEscape_clean (value : Bytes) : ∀ c ∈ memberEscape value, c ∉ [tab, 10, 13] ∧ (0 ∉ value → c ≠ 0) := by
  intro c member
  obtain ⟨d, inside, written⟩ := mem_flatMap.mp member
  rcases escapeChar_cases d with ⟨next, text, -, clean⟩ | ⟨text, plain⟩
  · rw [text] at written
    rcases mem_cons.mp written with rfl | last
    · exact ⟨by decide, fun _ => by decide⟩
    · obtain rfl := mem_singleton.mp last
      simp only [mem_cons, not_or] at clean ⊢
      exact ⟨clean.2, fun _ => clean.1⟩
  · rw [text] at written
    obtain rfl := mem_singleton.mp written
    simp only [mem_cons, not_or] at plain ⊢
    exact ⟨plain.2, fun free zero => free (zero ▸ inside)⟩

theorem memberEscape_length (value : Bytes) : (memberEscape value).length ≤ 2 * value.length := by
  induction value with
  | nil => exact Nat.zero_le _
  | cons c =>
    rw [memberEscape_cons, length_append]
    rcases escapeChar_cases c with ⟨next, written, -⟩ | ⟨written, -⟩
    · rw [written]
      simp only [length_cons, length_nil]
      omega
    · rw [written]
      simp only [length_cons, length_nil]
      omega

def hexTable : { digits : Bytes // (∀ n < 16, digits.getD n 0 ≠ 0) ∧ ∀ n < 256, isSpace (digits.getD (n / 16) 0) =
    false ∧
    scanHex [digits.getD (n / 16) 0, digits.getD (n % 16) 0] = some (UInt8.ofNat n) } :=
  ⟨hexDigits, by decide +kernel⟩

theorem scanHex_digits (b : UInt8) (rest : Bytes) :
    scanHex (hexDigits.getD (b.toNat / 16) 0 :: hexDigits.getD (b.toNat % 16) 0 :: rest) = some b := by
  have entry : isSpace (hexDigits.getD (b.toNat / 16) 0) = false ∧
      scanHex [hexDigits.getD (b.toNat / 16) 0, hexDigits.getD (b.toNat % 16) 0] = some (UInt8.ofNat b.toNat) :=
    hexTable.2.2 b.toNat b.toNat_lt
  obtain ⟨solid, read⟩ := entry
  rw [scanHex, dropWhile_cons_of_neg (by rw [solid]; exact Bool.false_ne_true)] at read ⊢
  rw [UInt8.ofNat_toNat] at read
  exact read

theorem memberUnhex_hex {len : Nat} (octets : Octets len) : memberUnhex len (memberHex octets.bytes) = octets := by
  have loop : ∀ (bytes : Bytes), unhexLoop bytes.length (memberHex bytes) = bytes := by
    intro bytes
    induction bytes with
    | nil => rfl
    | cons b rest ih =>
      change (scanHex (_ :: _ :: memberHex rest)).getD 0 :: unhexLoop rest.length (memberHex rest) = _
      rw [ih, scanHex_digits, Option.getD_some]
  obtain ⟨bytes, rfl⟩ := octets
  rw [memberUnhex]
  simp only [loop]

theorem memberHex_length (bytes : Bytes) : (memberHex bytes).length = 2 * bytes.length := by
  induction bytes with
  | nil => rfl
  | cons b rest ih =>
    rw [memberHex, flatMap_cons] at *
    rw [length_append]
    simp only [length_cons, length_nil]
    omega

theorem memberHex_clean (bytes : Bytes) : 0 ∉ memberHex bytes := by
  have digits : ∀ n < 16, hexDigits.getD n 0 ≠ 0 := hexTable.2.1
  intro member
  obtain ⟨b, -, written⟩ := mem_flatMap.mp member
  have high := digits (b.toNat / 16) (by have := b.toNat_lt; omega)
  have low := digits (b.toNat % 16) (Nat.mod_lt _ (by decide))
  simp only [mem_cons, not_mem_nil, or_false] at written
  rcases written with same | same
  · exact high same.symm
  · exact low same.symm

theorem atol_decimal (n : Nat) (small : n < 2 ^ 63) : atol (decimal n) = n := by
  have read : atol (decimal n ++ []) = _ := atol_digits (decimal_isDigit n) (decimal_ne_nil n) (by simp)
  rw [append_nil, digitsValue_decimal] at read
  omega

theorem atoi_decimal (n : Nat) (small : n < 2 ^ 31) : atoi (decimal n) = n := by
  rw [atoi, atol_decimal n (by omega)]
  apply Int.bmod_eq_of_le <;> omega

theorem strtoulField_number (n : UInt32) : UInt32.ofNat ((strtoulField (decimal n.toNat)).getD 0) = n := by
  have read : strtoulField (decimal n.toNat ++ []) = _ := strtoulField_decimal n.toNat (by simp)
  have small := n.toNat_lt
  rw [append_nil, min_eq_left (by omega)] at read
  rw [read, Option.getD_some, UInt32.ofNat_toNat]

theorem decimal_clean (n : Nat) : 0 ∉ decimal n := fun member => absurd (decimal_isDigit n 0 member) (by decide)

section Fields

variable {Record : Type} {source record : Record} {key : String}

/-- The values of a field have at most so many bytes and no NUL. -/
def Fits (source : Record) (field : NamedField Record) (width : Nat) : Prop :=
  ∀ value, field.value source = some value → value.length ≤ width ∧ 0 ∉ value

theorem copyField_text {room : Nat} (get : Record → CText room) (set : CText room → Record → Record) :
    copyField source record (textField key get set) = set (get source) record := by
  change set (CText.print (get source).text) record = _
  rw [CText.print_text]

theorem fits_text {room : Nat} (get : Record → CText room) (set : CText room → Record → Record) :
    Fits source (textField key get set) room := by
  intro value written
  cases written
  exact ⟨(get source).fits, (get source).clean⟩

theorem copyField_hex {len : Nat} (get : Record → Octets len) (set : Octets len → Record → Record) :
    copyField source record (hexField key get set) = set (get source) record := by
  change set (memberUnhex len (memberHex (get source).bytes)) record = _
  rw [memberUnhex_hex]

theorem fits_hex {len : Nat} (get : Record → Octets len) (set : Octets len → Record → Record) :
    Fits source (hexField key get set) (2 * len) := by
  intro value written
  cases written
  exact ⟨(memberHex_length _).trans (by rw [(get source).length]) |>.le, memberHex_clean _⟩

theorem copyField_flag (get : Record → Bool) (set : Bool → Record → Record) :
    copyField source record (flagField key get set) = set (get source) record := by
  change set (decide (atoi (decimal (if get source then 1 else 0)) ≠ 0)) record = _
  cases get source <;> rfl

theorem fits_flag (get : Record → Bool) (set : Bool → Record → Record) : Fits source (flagField key get set) 20 := by
  intro value written
  cases written
  exact ⟨decimal_length (by split_ifs <;> decide) (by decide), decimal_clean _⟩

theorem copyField_byte (get : Record → UInt8) (set : UInt8 → Record → Record) :
    copyField source record (byteField key get set) = set (get source) record := by
  have small := (get source).toNat_lt
  change set (.ofNat (atoi (decimal (get source).toNat) % 256).toNat) record = _
  rw [atoi_decimal _ (by omega), Int.emod_eq_of_lt (by omega) (by omega), Int.toNat_natCast, UInt8.ofNat_toNat]

theorem fits_byte (get : Record → UInt8) (set : UInt8 → Record → Record) : Fits source (byteField key get set) 20 := by
  intro value written
  have small := (get source).toNat_lt
  cases written
  exact ⟨decimal_length (by omega) (by decide), decimal_clean _⟩

theorem copyField_word (get : Record → UInt16) (set : UInt16 → Record → Record) :
    copyField source record (wordField key get set) = set (get source) record := by
  have small := (get source).toNat_lt
  change set (.ofNat (atoi (decimal (get source).toNat) % 65536).toNat) record = _
  rw [atoi_decimal _ (by omega), Int.emod_eq_of_lt (by omega) (by omega), Int.toNat_natCast, UInt16.ofNat_toNat]

theorem fits_word (get : Record → UInt16) (set : UInt16 → Record → Record) :
    Fits source (wordField key get set) 20 := by
  intro value written
  have small := (get source).toNat_lt
  cases written
  exact ⟨decimal_length (by omega) (by decide), decimal_clean _⟩

theorem copyField_number (get : Record → UInt32) (set : UInt32 → Record → Record) :
    copyField source record (numberField key get set) = set (get source) record := by
  change set (.ofNat ((strtoulField (decimal (get source).toNat)).getD 0)) record = _
  rw [strtoulField_number]

theorem fits_number (get : Record → UInt32) (set : UInt32 → Record → Record) :
    Fits source (numberField key get set) 20 := by
  intro value written
  have small := (get source).toNat_lt
  cases written
  exact ⟨decimal_length (by omega) (by decide), decimal_clean _⟩

theorem copyField_time {get : Record → Int} (set : Int → Record → Record) (past : 0 ≤ get source)
    (range : get source < 2 ^ 63) : copyField source record (timeField key get set) = set (get source) record := by
  change set (atol (decimal (get source % 2 ^ 64).toNat)) record = _
  rw [Int.emod_eq_of_lt past (by omega), atol_decimal _ (by omega), Int.toNat_of_nonneg past]

theorem fits_time (get : Record → Int) (set : Int → Record → Record) : Fits source (timeField key get set) 20 := by
  intro value written
  cases written
  refine ⟨decimal_length ?_ (by decide), decimal_clean _⟩
  omega

end Fields

section Tables

/-- The names of a table are told apart by the reader. -/
structure Named {Record : Type} (table : List (NamedField Record)) : Prop where
  distinct : (table.map NamedField.key).Nodup
  clean : ∀ key ∈ table.map NamedField.key, ∀ c ∈ key, c ∉ [0, tab, 10, 13, byte '=']

theorem memberTable_named : Named memberTable := ⟨by decide +kernel, by decide +kernel⟩

theorem mailTable_named : Named mailTable := ⟨by decide +kernel, by decide +kernel⟩

def memberWidths : List Nat :=
  [20, 31, 32, 64, 20, 159, 15, 47, 47, 95, 511, 10, 20, 511, 20] ++ replicate 9 31 ++
    [47, 20, 20, 20, 20, 20, 20, 20, 20, 20, 20, 20, 20, 20]

def mailWidths : List Nat := [20, 20, 20, 31, 20, 20, 511]

variable (m : Member)

theorem fits_saved (index : Fin 9) : Fits m (savedField index) 31 := by
  intro value written
  change (if (m.savedHandles index).text = [] then none else some (m.savedHandles index).text) = some value at written
  split_ifs at written
  cases written
  exact ⟨(m.savedHandles index).fits, (m.savedHandles index).clean⟩

theorem memberTable_fits : List.Forall₂ (Fits m) memberTable memberWidths := by
  have saved : ∀ indices : List (Fin 9), List.Forall₂ (Fits m) (indices.map savedField)
    (replicate indices.length 31) := by
    intro indices
    induction indices with
    | nil => exact .nil
    | cons index rest ih => exact .cons (fits_saved m index) ih
  apply rel_append (rel_append _ (saved (finRange 9)))
  · simp only [forall₂_cons, List.Forall₂.nil, and_true]
    exact ⟨fits_text _ _, fits_flag _ _, fits_byte _ _, fits_byte _ _, fits_word _ _, fits_flag _ _, fits_flag _ _,
      fits_flag _ _, fits_flag _ _, fits_flag _ _, fits_number _ _, fits_number _ _, fits_time _ _, fits_time _ _⟩
  · simp only [forall₂_cons, List.Forall₂.nil, and_true]
    exact ⟨fits_number _ _, fits_text _ _, fits_hex _ _, fits_hex _ _, fits_flag _ _, fits_text _ _, fits_text _ _,
      fits_text _ _, fits_text _ _, fits_text _ _, fits_text _ _, fits_text _ _, fits_flag _ _, fits_text _ _,
      fits_flag _ _⟩

theorem mailTable_fits (m : Mail) : List.Forall₂ (Fits m) mailTable mailWidths := by
  simp only [mailTable, mailWidths, forall₂_cons, List.Forall₂.nil, and_true]
  exact ⟨fits_number _ _, fits_number _ _, fits_number _ _, fits_text _ _, fits_time _ _, fits_flag _ _, fits_text _ _⟩

/-- The handles that are saved are copied, and the others stay empty. -/
theorem copy_saved {indices : List (Fin 9)} {record : Member} (once : indices.Nodup)
    (cleared : ∀ index ∈ indices, record.savedHandles index = .zero) :
    (indices.map savedField).foldl (copyField m) record =
      { record with savedHandles := fun index =>
          if index ∈ indices then m.savedHandles index else record.savedHandles index } := by
  induction indices generalizing record with
  | nil => simp
  | cons first rest ih =>
    obtain ⟨absent, distinct⟩ := nodup_cons.mp once
    have step : copyField m record (savedField first) =
        { record with savedHandles := Function.update record.savedHandles first (m.savedHandles first) } := by
      by_cases none : (m.savedHandles first).text = []
      · have empty : m.savedHandles first = record.savedHandles first := by
          rw [cleared first mem_cons_self]
          cases saved : m.savedHandles first with
          | mk =>
            rw [saved] at none
            subst none
            rfl
        rw [empty, Function.update_eq_self]
        simp only [copyField, savedField, none, if_true]
      · simp only [copyField, savedField, none, if_false, CText.print_text]
    rw [map_cons, foldl_cons, step, ih distinct]
    · congr 1
      funext index
      by_cases same : index = first
      · subst same
        simp [absent]
      · simp [same]
    · intro index member
      have other : index ≠ first := fun same => absent (same ▸ member)
      simp only [Function.update_of_ne other]
      exact cleared index (mem_cons_of_mem _ member)

/-- A member that the file can hold. -/
structure Member.Valid (m : Member) : Prop where
  number : m.number ≠ 0
  handle : m.handle.text ≠ []
  created : 0 ≤ m.created ∧ m.created < 2 ^ 63
  lastSeen : 0 ≤ m.lastSeen ∧ m.lastSeen < 2 ^ 63

/-- A mail that the file can hold. -/
structure Mail.Valid (m : Mail) : Prop where
  id : m.id ≠ 0
  toNumber : m.toNumber ≠ 0
  sent : 0 ≤ m.sent ∧ m.sent < 2 ^ 63

theorem copy_member {m : Member} (valid : m.Valid) : memberTable.foldl (copyField m) .zero = m := by
  rw [memberTable, foldl_append, foldl_append]
  simp only [foldl_cons, foldl_nil, copyField_text, copyField_hex, copyField_flag, copyField_number]
  rw [copy_saved m (nodup_finRange 9) fun _ _ => rfl]
  simp only [copyField_byte, copyField_word, copyField_time _ valid.created.1 valid.created.2,
    copyField_time _ valid.lastSeen.1 valid.lastSeen.2, mem_finRange, if_true]

theorem copy_mail {m : Mail} (valid : m.Valid) : mailTable.foldl (copyField m) .zero = m := by
  simp only [mailTable, foldl_cons, foldl_nil, copyField_text, copyField_flag, copyField_number,
    copyField_time _ valid.sent.1 valid.sent.2]

end Tables

section Lines

variable {Record : Type} {table : List (NamedField Record)} {source : Record} {widths : List Nat}

def tableLength (table : List (NamedField Record)) (widths : List Nat) : Nat :=
  ((table.map fun field => field.key.length + 2).zipWith (fun key width => key + 2 * width) widths).sum

theorem recordFields_length (fits : List.Forall₂ (Fits source) table widths) :
    (recordFields table source).length ≤ tableLength table widths := by
  induction fits with
  | nil => exact Nat.zero_le _
  | @cons field width table widths fits _ ih =>
    rw [recordFields, printFields] at ih ⊢
    rw [flatMap_cons, length_append, tableLength, map_cons, zipWith_cons_cons, sum_cons]
    rw [tableLength] at ih
    have first : (printField tab (byte '=') memberEscape source field).length ≤ field.key.length + 2 + 2 * width := by
      rw [printField]
      cases written : field.value source with
      | none => exact Nat.zero_le _
      | some value =>
        have short := (fits value written).1
        have escaped := memberEscape_length value
        simp only [length_append, length_cons, length_nil]
        omega
    omega

theorem fits_of_mem (fits : List.Forall₂ (Fits source) table widths) {field : NamedField Record}
    (member : field ∈ table) : ∃ width ∈ widths, Fits source field width := by
  induction fits with
  | nil => cases member
  | @cons other width table widths first _ ih =>
    rcases mem_cons.mp member with rfl | later
    · exact ⟨width, mem_cons_self, first⟩
    · obtain ⟨width, inside, fitting⟩ := ih later
      exact ⟨width, mem_cons_of_mem _ inside, fitting⟩

/-- The fields of a record hold no line ending and no NUL. -/
theorem recordFields_clean (named : Named table) (fits : List.Forall₂ (Fits source) table widths) :
    ∀ c ∈ recordFields table source, c ∉ [0, 10, 13] := by
  intro c member
  obtain ⟨field, inside, written⟩ := mem_flatMap.mp member
  rw [printField] at written
  cases text : field.value source with
  | none =>
    rw [text] at written
    cases written
  | some value =>
    rw [text] at written
    obtain ⟨width, -, fitting⟩ := fits_of_mem fits inside
    have key := named.clean field.key (mem_map_of_mem inside)
    have escaped := memberEscape_clean value
    rw [mem_append, mem_append, mem_cons, mem_singleton] at written
    rcases written with (name | rfl | inner) | rfl
    · have plain := key c name
      simp only [mem_cons, not_mem_nil, or_false, not_or] at plain ⊢
      exact ⟨plain.1, plain.2.2.1, plain.2.2.2.1⟩
    · decide
    · obtain ⟨plain, noNul⟩ := escaped c inner
      simp only [mem_cons, not_or] at plain ⊢
      exact ⟨noNul (fitting value text).2, plain.2⟩
    · decide

theorem parseRecord_fields (named : Named table) (fits : List.Forall₂ (Fits source) table widths)
    (narrow : ∀ width ∈ widths, width ≤ unescapeRoom) (zero : Record) :
    parseRecord table zero (recordFields table source ++ [10]) = table.foldl (copyField source) zero := by
  have clean := recordFields_clean named fits
  have readable : Readable tab (byte '=') memberEscape (memberUnescape unescapeRoom) table source := by
    refine ⟨named.distinct, ?_, by decide, ?_⟩
    · intro field member
      have key := named.clean field.key (mem_map_of_mem member)
      exact ⟨fun inside => key _ inside (by simp), fun inside => key _ inside (by simp)⟩
    · intro field member value written
      obtain ⟨width, inside, fitting⟩ := fits_of_mem fits member
      refine ⟨fun separator => (memberEscape_clean value _ separator).1 (by simp), memberUnescape_escape ?_⟩
      exact (fitting value written).1.trans (narrow width inside)
  have visible : (recordFields table source ++ [10]).takeWhile (· ≠ 0) = recordFields table source ++ [10] := by
    apply takeWhile_eq_self_iff.mpr
    intro c member
    rcases mem_append.mp member with inside | last
    · exact decide_eq_true fun zero => clean c inside (by simp [zero])
    · rw [mem_singleton.mp last]
      decide
  have line : (recordFields table source ++ [10]).takeWhile (fun c => c ≠ 13 ∧ c ≠ 10) = recordFields table source := by
    rw [takeWhile_append_of_pos, takeWhile_cons_of_neg (by decide), append_nil]
    intro c member
    have plain := clean c member
    simp only [mem_cons, not_mem_nil, or_false, not_or] at plain
    exact decide_eq_true ⟨plain.2.2, plain.2.1⟩
  rw [parseRecord, visible, line]
  exact parseFields_print readable zero

theorem fileLines_save {records : List Record}
    (short : ∀ record ∈ records, 10 ∉ recordFields table record ∧ (recordFields table record).length + 1 < lineSize) :
    fileLines (saveRecords table records) = records.map fun record => recordFields table record ++ [10] := by
  have file : saveRecords table records = (records.map (recordFields table)).flatMap (· ++ [10]) := by
    rw [saveRecords, flatMap_map]
  have enough : (records.map (recordFields table)).length ≤ (saveRecords table records).length := by
    rw [length_map, saveRecords]
    clear short file
    induction records with
    | nil => rfl
    | cons =>
      rw [flatMap_cons, length_append, length_append, length_cons, length_singleton]
      omega
  rw [fileLines]
  conv_lhs => rw [file]
  rw [file] at enough
  rw [fgetsLines_lines _ enough, map_map]
  · rfl
  · intro line member
    obtain ⟨record, inside, rfl⟩ := mem_map.mp member
    exact short record inside

end Lines

theorem member_line (m : Member) :
    10 ∉ recordFields memberTable m ∧ (recordFields memberTable m).length + 1 < lineSize := by
  have clean := recordFields_clean memberTable_named (memberTable_fits m)
  have short := recordFields_length (memberTable_fits m)
  have bound : tableLength memberTable memberWidths + 1 < lineSize := by decide +kernel
  exact ⟨fun member => clean 10 member (by simp), by omega⟩

theorem mail_line (m : Mail) : 10 ∉ recordFields mailTable m ∧ (recordFields mailTable m).length + 1 < lineSize := by
  have clean := recordFields_clean mailTable_named (mailTable_fits m)
  have short := recordFields_length (mailTable_fits m)
  have bound : tableLength mailTable mailWidths + 1 < lineSize := by decide +kernel
  exact ⟨fun member => clean 10 member (by simp), by omega⟩

theorem parse_member {m : Member} (valid : m.Valid) :
    parseRecord memberTable .zero (recordFields memberTable m ++ [10]) = m := by
  rw [parseRecord_fields memberTable_named (memberTable_fits m) (by decide), copy_member valid]

theorem parse_mail {m : Mail} (valid : m.Valid) :
    parseRecord mailTable .zero (recordFields mailTable m ++ [10]) = m := by
  rw [parseRecord_fields mailTable_named (mailTable_fits m) (by decide), copy_mail valid]

theorem load_members {members : List Member} (valid : ∀ m ∈ members, m.Valid) {store : MemberStore}
    (room : store.members.length + members.length ≤ memberMax) :
    (members.map fun m => recordFields memberTable m ++ [10]).foldl MemberStore.loadMember store =
      { store with members := store.members ++ members } := by
  induction members generalizing store with
  | nil => simp
  | cons m rest ih =>
    obtain ⟨first, later⟩ := forall_mem_cons.mp valid
    rw [length_cons] at room
    have step : store.loadMember (recordFields memberTable m ++ [10]) =
        { store with members := store.members ++ [m] } := by
      rw [MemberStore.loadMember, if_pos (by omega), parse_member first]
      exact if_pos ⟨first.number, first.handle⟩
    rw [map_cons, foldl_cons, step, ih later (by simp; omega)]
    simp

/-- The mails of the file are appended, and the next identifier passes all of theirs. -/
theorem load_mails {mails : List Mail} (valid : ∀ m ∈ mails, m.Valid) (below : ∀ m ∈ mails, m.id.toNat < 2 ^ 32 - 1)
    {store : MemberStore} (room : store.mails.length + mails.length ≤ mailMax) :
    ∃ nextId, (mails.map fun m => recordFields mailTable m ++ [10]).foldl MemberStore.loadMail store =
        { store with mails := store.mails ++ mails, nextId := nextId } ∧
      store.nextId ≤ nextId ∧ ∀ m ∈ mails, m.id < nextId := by
  induction mails generalizing store with
  | nil => exact ⟨store.nextId, by simp, UInt32.le_refl _, forall_mem_nil _⟩
  | cons m rest ih =>
    obtain ⟨first, later⟩ := forall_mem_cons.mp valid
    obtain ⟨small, others⟩ := forall_mem_cons.mp below
    rw [length_cons] at room
    have step : store.loadMail (recordFields mailTable m ++ [10]) =
        { store with mails := store.mails ++ [m], nextId := if store.nextId ≤ m.id then m.id + 1 else
          store.nextId } := by
      rw [MemberStore.loadMail, if_pos (by omega), parse_mail first]
      exact if_pos ⟨first.id, first.toNumber⟩
    have left : ({ store with mails := store.mails ++ [m],
                              nextId :=
                                if store.nextId ≤ m.id then m.id + 1 else store.nextId } : MemberStore).mails.length +
        rest.length ≤ mailMax := by
      simp only [length_append, length_singleton]
      omega
    obtain ⟨nextId, loaded, least, above⟩ := ih later others left
    have next : (m.id + 1).toNat = m.id.toNat + 1 := by
      change (m.id.toNat + 1) % 4294967296 = _
      omega
    have passed : store.nextId.toNat ≤ nextId.toNat ∧ m.id.toNat < nextId.toNat := by
      rw [UInt32.le_iff_toNat_le] at least
      dsimp only at least
      split_ifs at least with lower
      · rw [UInt32.le_iff_toNat_le] at lower
        omega
      · rw [UInt32.le_iff_toNat_le] at lower
        omega
    refine ⟨nextId, ?_, UInt32.le_iff_toNat_le.mpr passed.1, ?_⟩
    · rw [map_cons, foldl_cons, step, loaded]
      simp
    · exact forall_mem_cons.mpr ⟨UInt32.lt_iff_toNat_lt.mpr passed.2, above⟩

/-- What is saved is loaded into an empty store. Every line fits the buffer, and the next mail has a new identifier. -/
theorem member_files_round_trip (store : MemberStore) (memberCount : store.members.length ≤ memberMax)
    (mailCount : store.mails.length ≤ mailMax) (members : ∀ m ∈ store.members, m.Valid)
    (mails : ∀ m ∈ store.mails, m.Valid) (below : ∀ m ∈ store.mails, m.id.toNat < 2 ^ 32 - 1) :
    (MemberStore.empty.ensureLoadedLocked store.membersSaveLocked store.mailSaveLocked).members = store.members ∧
    (MemberStore.empty.ensureLoadedLocked store.membersSaveLocked store.mailSaveLocked).mails = store.mails ∧
    (∀ m ∈ store.members, (recordFields memberTable m ++ [10]).length < lineSize) ∧
    (∀ m ∈ store.mails, (recordFields mailTable m ++ [10]).length < lineSize) ∧
    ∀ m ∈ store.mails,
      m.id < (MemberStore.empty.ensureLoadedLocked store.membersSaveLocked store.mailSaveLocked).nextId := by
  have memberLines := fileLines_save fun m (_ : m ∈ store.members) => member_line m
  have mailLines := fileLines_save fun m (_ : m ∈ store.mails) => mail_line m
  have membersRoom : MemberStore.empty.members.length + store.members.length ≤ memberMax := by
    simpa [MemberStore.empty] using memberCount
  have mailsRoom : ({ MemberStore.empty with members := store.members } : MemberStore).mails.length +
      store.mails.length ≤ mailMax := by
    simpa [MemberStore.empty] using mailCount
  obtain ⟨nextId, loaded, -, above⟩ := load_mails mails below mailsRoom
  have result : MemberStore.empty.ensureLoadedLocked store.membersSaveLocked store.mailSaveLocked =
      ⟨store.members, store.mails, nextId⟩ := by
    rw [MemberStore.ensureLoadedLocked, MemberStore.membersSaveLocked, MemberStore.mailSaveLocked, memberLines,
      mailLines, load_members members membersRoom]
    exact loaded
  rw [result]
  refine ⟨rfl, rfl, ?_, ?_, above⟩
  · intro m _
    rw [length_append]
    exact (member_line m).2
  · intro m _
    rw [length_append]
    exact (mail_line m).2

def tabbedStore : MemberStore :=
  ⟨[{ Member.zero with number := 1, handle := .print [97, 9, 61, 92, 98] }],
    [{ Mail.zero with id := 7, toNumber := 1, text := .print [13, 10] }], 8⟩

theorem member_files_round_trip_tabbed :
    (MemberStore.empty.ensureLoadedLocked tabbedStore.membersSaveLocked tabbedStore.mailSaveLocked).members =
        tabbedStore.members ∧
      (MemberStore.empty.ensureLoadedLocked tabbedStore.membersSaveLocked tabbedStore.mailSaveLocked).mails =
        tabbedStore.mails := by
  have members : ∀ m ∈ tabbedStore.members, m.Valid := by
    intro m member
    rw [mem_singleton.mp member]
    exact ⟨by decide, by decide, by decide, by decide⟩
  have mails : ∀ m ∈ tabbedStore.mails, m.Valid ∧ m.id.toNat < 2 ^ 32 - 1 := by
    intro m member
    rw [mem_singleton.mp member]
    exact ⟨⟨by decide, by decide, by decide⟩, by decide⟩
  have result := member_files_round_trip tabbedStore (by decide) (by decide) members
    (fun m member => (mails m member).1) fun m member => (mails m member).2
  exact ⟨result.1, result.2.1⟩

end SshChatter.Ddial
