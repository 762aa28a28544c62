import SshChatter.Display.Wrap
import Mathlib.Algebra.BigOperators.Group.List.Basic

namespace SshChatter.DisplayModel
open CString List

def charBytes (cursor : Bytes) : Bytes := cursor.take (utf8CharWidth cursor).1

def charColumns (cursor : Bytes) : Nat := (utf8CharWidth cursor).2.toNat

/-- What one turn of the outer loop takes: the cursors of its characters, and the cursor where it stops. -/
structure LineTrace where
  chars : List Bytes
  stop : Bytes

/-- The inner loop of `display_model_wrap_line` without the copies. -/
def lineTrace (width : UInt32) (cursor : Bytes) (col : UInt32) : LineTrace :=
  if _stop : byteAt cursor 0 = 0 ∨ byteAt cursor 0 = 10 then ⟨[], cursor⟩
  else if width < col + (utf8CharWidth cursor).2 ∧ 0 < col then ⟨[], cursor⟩
  else
    let rest := cursor.drop (utf8CharWidth cursor).1
    if width < (utf8CharWidth cursor).2 ∧ col = 0 then ⟨[cursor], rest⟩
    else
      let later := lineTrace width rest (col + (utf8CharWidth cursor).2)
      ⟨cursor :: later.chars, later.stop⟩
termination_by cursor.length
decreasing_by
  have moved := utf8CharWidth_pos cursor
  have present : cursor ≠ [] := by
    intro empty
    exact _stop (Or.inl (by simp [byteAt, empty]))
  have positive := length_pos_iff.mpr present
  rw [length_drop]
  omega

def copyChar (text : LineText) (cursor : Bytes) : LineText := text.copy cursor (utf8CharWidth cursor).1

def copiedChars (text : LineText) : List Bytes → List Bytes
  | [] => []
  | cursor :: rest =>
    if text.text.length + (utf8CharWidth cursor).1 < displayLineTextMax - 1 then
      cursor :: copiedChars (copyChar text cursor) rest
    else copiedChars text rest

def LineTrace.copied (line : LineTrace) : List Bytes := copiedChars .zero line.chars

def LineTrace.newline (line : LineTrace) : Bool := byteAt line.stop 0 = 10

/-- The outer loop of `display_model_wrap_line`. -/
def wrapTrace (width : UInt32) : Nat → Bytes → List LineTrace
  | 0, _ => []
  | capacity + 1, cursor =>
    if byteAt cursor 0 = 0 then []
    else
      let line := lineTrace width cursor 0
      line :: wrapTrace width capacity (skipNewline line.stop)

def wrapStop (width : UInt32) : Nat → Bytes → Bytes
  | 0, cursor => cursor
  | capacity + 1, cursor =>
    if byteAt cursor 0 = 0 then cursor
    else wrapStop width capacity (skipNewline (lineTrace width cursor 0).stop)

section Copies

variable {width : UInt32} {cursor : Bytes} {col : UInt32} {text : LineText}

theorem charBytes_append (cursor : Bytes) : charBytes cursor ++ cursor.drop (utf8CharWidth cursor).1 = cursor :=
  take_append_drop _ _

theorem lineTrace_stop (stop : byteAt cursor 0 = 0 ∨ byteAt cursor 0 = 10) :
    lineTrace width cursor col = ⟨[], cursor⟩ := by
  rw [lineTrace, dif_pos stop]

/-- The inner loop copies the characters of its trace. -/
theorem fillLine_eq (width : UInt32) (cursor : Bytes) (col : UInt32) (text : LineText) :
    fillLine width cursor col text =
      ((lineTrace width cursor col).chars.foldl copyChar text, (lineTrace width cursor col).stop) := by
  fun_induction fillLine width cursor col text with
  | case1 cursor col text stop => rw [lineTrace_stop stop]; rfl
  | case2 cursor col text stop cw wraps => rw [lineTrace, dif_neg stop, if_pos wraps]; rfl
  | case3 cursor col text stop cw wraps copied rest wide =>
    rw [lineTrace, dif_neg stop, if_neg wraps]
    rw [if_pos wide]
    rfl
  | case4 cursor col text stop cw wraps copied rest wide ih =>
    rw [lineTrace, dif_neg stop, if_neg wraps]
    rw [if_neg wide, ih]
    rfl

theorem lineTrace_bytes (width : UInt32) (cursor : Bytes) (col : UInt32) :
    (lineTrace width cursor col).chars.flatMap charBytes ++ (lineTrace width cursor col).stop = cursor := by
  fun_induction lineTrace width cursor col with
  | case1 => rfl
  | case2 => rfl
  | case3 => rw [flatMap_singleton, charBytes_append]
  | case4 cursor col stop wraps rest wide later ih => rw [flatMap_cons, append_assoc, ih, charBytes_append]

theorem foldl_copyChar (chars : List Bytes) (text : LineText) :
    (chars.foldl copyChar text).text = text.text ++ (copiedChars text chars).flatMap charBytes := by
  induction chars generalizing text with
  | nil => exact (append_nil _).symm
  | cons cursor rest ih =>
    rw [foldl_cons, ih, copiedChars]
    by_cases room : text.text.length + (utf8CharWidth cursor).1 < displayLineTextMax - 1
    · have copy : (copyChar text cursor).text = text.text ++ charBytes cursor := by
        rw [copyChar, LineText.copy, dif_pos room]
        rfl
      rw [if_pos room, flatMap_cons, ← append_assoc, copy]
    · have same : copyChar text cursor = text := by rw [copyChar, LineText.copy, dif_neg room]
      rw [if_neg room, same]

theorem copiedChars_sublist (text : LineText) (chars : List Bytes) : (copiedChars text chars).Sublist chars := by
  induction chars generalizing text with
  | nil => exact List.Sublist.refl _
  | cons cursor rest ih =>
    rw [copiedChars]
    split_ifs
    · exact (ih _).cons_cons cursor
    · exact (ih text).cons cursor

theorem copiedChars_all {chars : List Bytes} (room : text.text.length + (chars.map fun c => (utf8CharWidth c).1).sum <
    displayLineTextMax - 1) : copiedChars text chars = chars := by
  induction chars generalizing text with
  | nil => rfl
  | cons cursor rest ih =>
    rw [map_cons, sum_cons] at room
    have fits : text.text.length + (utf8CharWidth cursor).1 < displayLineTextMax - 1 := by omega
    rw [copiedChars, if_pos fits, ih]
    have length : (copyChar text cursor).text.length ≤ text.text.length + (utf8CharWidth cursor).1 := by
      rw [copyChar, LineText.copy, dif_pos fits, length_append, length_take]
      omega
    omega

theorem wrapLoop_texts (width : UInt32) (messageId : UInt64) (capacity : Nat) (cursor : Bytes) (subline : UInt16) :
    (wrapLoop width messageId capacity cursor subline).map (·.text.text) =
      (wrapTrace width capacity cursor).map fun line => line.copied.flatMap charBytes := by
  induction capacity generalizing cursor subline with
  | zero => rfl
  | succ capacity ih =>
    rw [wrapLoop, wrapTrace]
    split_ifs with ended
    · rfl
    · dsimp only
      rw [map_cons, fillLine_eq, ih, foldl_copyChar]
      rfl

end Copies

section Columns

variable {width : UInt32} {cursor : Bytes} {col : UInt32}

theorem leadWidth_columns (cursor : Bytes) : (leadWidth cursor).2 ≤ 2 := by
  unfold leadWidth
  dsimp only
  split_ifs <;> decide

theorem charColumns_le (cursor : Bytes) : charColumns cursor ≤ 2 := by
  unfold charColumns utf8CharWidth
  split_ifs
  · exact Nat.zero_le _
  · decide
  · exact Nat.zero_le _
  · exact UInt32.le_iff_toNat_le.mp (leadWidth_columns cursor)

def columns (chars : List Bytes) : Nat := (chars.map charColumns).sum

theorem columns_cons (cursor : Bytes) (chars : List Bytes) :
    columns (cursor :: chars) = charColumns cursor + columns chars := by
  rfl

theorem columns_sublist {chars others : List Bytes} (part : chars.Sublist others) : columns chars ≤ columns others :=
  (part.map charColumns).sum_le_sum fun _ _ => Nat.zero_le _

/-- The characters fit in the width, or the width is one and a character of two columns stands behind items without
columns. -/
def FitsIn (width : UInt32) (chars : List Bytes) : Prop :=
  columns chars ≤ width.toNat ∨
    (width = 1 ∧ ∃ items wide, chars = items ++ [wide] ∧ columns items = 0 ∧ charColumns wide = 2)

theorem add_columns (room : col.toNat + charColumns cursor < 2 ^ 32) :
    (col + (utf8CharWidth cursor).2).toNat = col.toNat + charColumns cursor := by
  exact Nat.mod_eq_of_lt room

/-- A line does not take more columns than there are, unless its one character is too wide. -/
theorem lineTrace_fits (cursor : Bytes) (small : width.toNat + 2 < 2 ^ 32) (positive : 0 < width)
    (inside : col ≤ width) : col.toNat + columns (lineTrace width cursor col).chars ≤ width.toNat ∨
      (width = 1 ∧ col = 0 ∧ ∃ items wide, (lineTrace width cursor col).chars = items ++ [wide] ∧ columns items = 0 ∧
        charColumns wide = 2) := by
  have low : col.toNat ≤ width.toNat := UInt32.le_iff_toNat_le.mp inside
  fun_induction lineTrace width cursor col with
  | case1 => exact .inl low
  | case2 => exact .inl low
  | case3 cursor col stop wraps rest wide =>
    obtain ⟨larger, rfl⟩ := wide
    right
    have two := charColumns_le cursor
    have more : width.toNat < charColumns cursor := UInt32.lt_iff_toNat_lt.mp larger
    have some : 0 < width.toNat := UInt32.lt_iff_toNat_lt.mp positive
    have one : width.toNat = 1 := by omega
    exact ⟨UInt32.toNat_inj.mp one, rfl, [], cursor, rfl, rfl, by omega⟩
  | case4 cursor col stop wraps rest wide later ih =>
    have two := charColumns_le cursor
    have sum := add_columns (by omega : col.toNat + charColumns cursor < 2 ^ 32)
    have fits : (col + (utf8CharWidth cursor).2).toNat ≤ width.toNat := by
      by_contra more
      have larger : width < col + (utf8CharWidth cursor).2 := by
        rw [UInt32.lt_iff_toNat_lt]
        omega
      have first : ¬ 0 < col := fun some => wraps ⟨larger, some⟩
      have zero : col = 0 := by
        exact UInt32.toNat_inj.mp (Nat.eq_zero_of_not_pos first)
      subst zero
      rw [UInt32.zero_add] at larger
      exact wide ⟨larger, rfl⟩
    rw [columns_cons]
    rcases ih (UInt32.le_iff_toNat_le.mpr fits) fits with within | ⟨one, zero, items, last, same, none, double⟩
    · left
      rw [sum] at within
      change col.toNat + charColumns cursor + columns later.chars ≤ width.toNat at within
      omega
    · right
      rw [zero] at sum
      change 0 = _ at sum
      have start : col = 0 := UInt32.toNat_inj.mp (show col.toNat = 0 by omega)
      refine ⟨one, start, cursor :: items, last, congrArg (cursor :: ·) same, ?_, double⟩
      rw [columns_cons]
      omega

/-- A line that stops inside of the text has no room for the next character. -/
theorem lineTrace_full (two : 2 ≤ width) (inside : byteAt (lineTrace width cursor col).stop 0 ≠ 0)
    (noNewline : byteAt (lineTrace width cursor col).stop 0 ≠ 10) :
    width.toNat < col.toNat + columns (lineTrace width cursor col).chars + charColumns
      (lineTrace width cursor col).stop := by
  have atMost (col : UInt32) (cursor : Bytes) :
      (col + (utf8CharWidth cursor).2).toNat ≤ col.toNat + charColumns cursor := by
    exact Nat.mod_le _ _
  fun_induction lineTrace width cursor col with
  | case1 cursor col stop =>
    rcases stop with zero | newline
    · exact absurd zero inside
    · exact absurd newline noNewline
  | case2 cursor col stop wraps =>
    have more := UInt32.lt_iff_toNat_lt.mp wraps.1
    exact more.trans_le (atMost col cursor)
  | case3 cursor col stop wraps rest wide =>
    have larger := UInt32.lt_iff_toNat_lt.mp wide.1
    have most := charColumns_le cursor
    have least : 2 ≤ width.toNat := UInt32.le_iff_toNat_le.mp two
    change width.toNat < charColumns cursor at larger
    omega
  | case4 cursor col stop wraps rest wide later ih =>
    have full : width.toNat < (col + (utf8CharWidth cursor).2).toNat + columns later.chars + charColumns later.stop :=
      ih inside noNewline
    have step := atMost col cursor
    change width.toNat < col.toNat + columns (cursor :: later.chars) + charColumns later.stop
    rw [columns_cons]
    omega

theorem lineTrace_first (width : UInt32) (inside : byteAt cursor 0 ≠ 0) (noNewline : byteAt cursor 0 ≠ 10) :
    ∃ rest, (lineTrace width cursor 0).chars = cursor :: rest := by
  rw [lineTrace, dif_neg (not_or.mpr ⟨inside, noNewline⟩), if_neg (fun wraps => absurd wraps.2 (by decide))]
  split_ifs
  · exact ⟨[], rfl⟩
  · exact ⟨_, rfl⟩

theorem lineTrace_ne (width : UInt32) (cursor : Bytes) (col : UInt32) :
    ∀ c ∈ (lineTrace width cursor col).chars, c ≠ [] := by
  have some {cursor : Bytes} (stop : ¬(byteAt cursor 0 = 0 ∨ byteAt cursor 0 = 10)) : cursor ≠ [] := by
    intro empty
    exact stop (Or.inl (by simp [byteAt, empty]))
  fun_induction lineTrace width cursor col with
  | case1 => exact fun _ inside => absurd inside not_mem_nil
  | case2 => exact fun _ inside => absurd inside not_mem_nil
  | case3 cursor col stop => exact forall_mem_singleton.mpr (some stop)
  | case4 cursor col stop wraps rest wide later ih => exact forall_mem_cons.mpr ⟨some stop, ih⟩

theorem copied_fits (positive : 0 < width) (cursor : Bytes) : FitsIn width (lineTrace width cursor 0).copied := by
  have part := copiedChars_sublist .zero (lineTrace width cursor 0).chars
  by_cases small : width.toNat + 2 < 2 ^ 32
  · have least : (0 : UInt32) ≤ width := UInt32.le_iff_toNat_le.mpr (Nat.zero_le _)
    rcases lineTrace_fits cursor small positive least with within | ⟨one, -, items, wide, whole, none, double⟩
    · left
      exact (columns_sublist part).trans ((Nat.le_add_left _ _).trans within)
    · rw [whole] at part
      obtain ⟨before, last, same, front, back⟩ := sublist_append_iff.mp part
      have empty : columns before = 0 := Nat.le_zero.mp (none ▸ columns_sublist front)
      rw [LineTrace.copied, whole, same]
      rcases sublist_singleton.mp back with rfl | rfl
      · left
        rw [append_nil, empty]
        exact Nat.zero_le _
      · exact .inr ⟨one, before, wide, rfl, empty, double⟩
  · -- A line has too few bytes for so many columns.
    left
    have most : ∀ chars : List Bytes, columns chars ≤ 2 * chars.length := by
      intro chars
      induction chars with
      | nil => exact le_refl 0
      | cons c =>
        have two := charColumns_le c
        rw [columns_cons, length_cons]
        omega
    have bytes : ∀ chars : List Bytes, (∀ c ∈ chars, c ≠ []) → chars.length ≤ (chars.flatMap charBytes).length := by
      intro chars
      induction chars with
      | nil => exact fun _ => le_refl 0
      | cons c chars ih =>
        intro some
        obtain ⟨first, later⟩ := forall_mem_cons.mp some
        have one : 0 < (charBytes c).length := by
          rw [charBytes, length_take]
          exact Nat.lt_min.mpr ⟨utf8CharWidth_pos c, length_pos_iff.mpr first⟩
        have rest := ih later
        rw [flatMap_cons, length_append, length_cons]
        omega
    have count := bytes (lineTrace width cursor 0).copied fun c inside =>
      lineTrace_ne width cursor 0 c (part.subset inside)
    have fits := ((lineTrace width cursor 0).chars.foldl copyChar .zero).fits
    rw [foldl_copyChar] at fits
    have short : ((lineTrace width cursor 0).copied.flatMap charBytes).length < displayLineTextMax := by
      rw [length_append] at fits
      exact (Nat.le_add_left _ _).trans_lt fits
    have double := most (lineTrace width cursor 0).copied
    have bound : displayLineTextMax = 4096 := rfl
    omega

end Columns

section Lines

variable {width : UInt32} {capacity : Nat} {text : Bytes}

theorem mem_wrapTrace {line : LineTrace} (inside : line ∈ wrapTrace width capacity text) :
    ∃ cursor, line = lineTrace width cursor 0 := by
  induction capacity generalizing text with
  | zero => cases inside
  | succ capacity ih =>
    rw [wrapTrace] at inside
    split_ifs at inside
    · cases inside
    · rcases mem_cons.mp inside with rfl | later
      · exact ⟨text, rfl⟩
      · exact ih later

/-- A line begins where the one before it stopped, unless there is a newline. -/
theorem wrapTrace_next {place : Nat} {line next : LineTrace} (first : (wrapTrace width capacity text)[place]? =
    some line)
    (second : (wrapTrace width capacity text)[place + 1]? = some next) (wrapped : line.newline = false) :
    byteAt line.stop 0 ≠ 0 ∧ byteAt line.stop 0 ≠ 10 ∧ next = lineTrace width line.stop 0 := by
  induction capacity generalizing text place with
  | zero => cases first
  | succ capacity ih =>
    rw [wrapTrace] at first second
    split_ifs at first second with ended
    · cases first
    · dsimp only at first second
      cases place with
      | succ =>
        exact ih first second
      | zero =>
        cases first
        have noNewline : byteAt (lineTrace width text 0).stop 0 ≠ 10 := by
          intro same
          rw [LineTrace.newline, same] at wrapped
          cases wrapped
        rw [skipNewline, if_neg noNewline] at second
        cases capacity with
        | zero => cases second
        | succ =>
          rw [wrapTrace] at second
          split_ifs at second with stopped
          · cases second
          · exact ⟨stopped, noNewline, (Option.some.inj second).symm⟩

theorem wrapLine_texts (text : Bytes) (positive : 0 < width) (messageId : UInt64) (room : 0 < capacity) :
    (wrapLine (some text) width messageId capacity).map (·.text.text) =
      if byteAt text 0 = 0 then [[]] else (wrapTrace width capacity text).map fun line =>
        line.copied.flatMap charBytes := by
  have some : ¬(width = 0 ∨ capacity = 0) := by
    rintro (zero | zero)
    · rw [zero] at positive
      exact absurd positive (by decide)
    · omega
  have texts := wrapLoop_texts width messageId capacity text 0
  obtain ⟨count, rfl⟩ := Nat.exists_eq_succ_of_ne_zero (ne_of_gt room)
  rw [wrapLine, if_neg some]
  split_ifs with ended
  · rw [wrapLoop, if_pos ended]
    rfl
  · rw [← texts, wrapLoop, if_neg ended]

/-- Each line takes no more columns than the width, apart from a single wide character in a width of one. From a width
of two on, the first character of a line did not fit on the line before it, unless a newline stands between them. -/
theorem wrapped_lines_fit (text : Bytes) (positive : 0 < width) (messageId : UInt64) (room : 0 < capacity) :
    (wrapLine (some text) width messageId capacity).map (·.text.text) =
        (if byteAt text 0 = 0 then [[]] else (wrapTrace width capacity text).map fun line =>
          line.copied.flatMap charBytes) ∧
      (∀ line ∈ wrapTrace width capacity text, FitsIn width line.copied) ∧
      (2 ≤ width → ∀ place line next, (wrapTrace width capacity text)[place]? = some line →
        (wrapTrace width capacity text)[place + 1]? = some next → line.newline = false →
        ∃ first rest, next.chars = first :: rest ∧ width.toNat < columns line.chars + charColumns first) := by
  refine ⟨wrapLine_texts text positive messageId room, ?_, ?_⟩
  · intro line inside
    obtain ⟨cursor, rfl⟩ := mem_wrapTrace inside
    exact copied_fits positive cursor
  · intro two place line next first second wrapped
    obtain ⟨inside, noNewline, rfl⟩ := wrapTrace_next first second wrapped
    obtain ⟨cursor, rfl⟩ := mem_wrapTrace (mem_of_getElem? first)
    obtain ⟨rest, begins⟩ := lineTrace_first width inside noNewline
    have full := lineTrace_full two inside noNewline
    change width.toNat < 0 + columns (lineTrace width cursor 0).chars + charColumns (lineTrace width cursor 0).stop
      at full
    rw [zero_add] at full
    exact ⟨_, rest, begins, full⟩

/-- A wide character stands alone in a width of one. -/
theorem wide_character_fits : FitsIn 1 (lineTrace 1 [0xE6, 0xBC, 0xA2] 0).copied := by
  have positive : (0 : UInt32) < 1 := by decide
  have inside : lineTrace 1 [0xE6, 0xBC, 0xA2] 0 ∈ wrapTrace 1 1 [0xE6, 0xBC, 0xA2] := by
    exact mem_cons_self
  exact (wrapped_lines_fit [0xE6, 0xBC, 0xA2] positive 7 Nat.one_pos).2.1 _ inside

end Lines

end SshChatter.DisplayModel
