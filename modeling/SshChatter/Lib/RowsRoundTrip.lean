import SshChatter.Lib.DelimitedRows

namespace DelimitedRows
open CString List

section Lines

variable {format : Format} {row : List Cell}
variable {size : Nat} {line : Bytes}

theorem chunks_short (noFeed : 10 ∉ line) (short : line.length + 1 < size) :
    chunks size (line ++ [10]) = [line ++ [10]] := by
  have one : ([line] : List Bytes).length ≤ (line ++ [10]).length := by
    rw [length_append]
    exact Nat.le_add_left _ _
  have clean : ∀ other ∈ [line], 10 ∉ other ∧ other.length + 1 < size := by simpa using ⟨noFeed, short⟩
  have read := fgetsLines_lines clean one
  simpa [chunks] using read

theorem fgets_long (noFeed : 10 ∉ line) (long : size - 1 ≤ line.length) :
    fgets size (line ++ [10]) = line.take (size - 1) := by
  rw [fgets, take_append_of_le_length long]
  cases hit : strchr 10 (line.take (size - 1)) with
  | none => rfl
  | some =>
    have there := (strchr_isSome 10 _).mp (by rw [hit]; rfl)
    exact absurd (mem_of_mem_take there) noFeed

theorem chunks_long (enough : 2 ≤ size) (noFeed : 10 ∉ line) (long : size - 1 ≤ line.length) :
    chunks size (line ++ [10]) = line.take (size - 1) :: chunks size (line.drop (size - 1) ++ [10]) := by
  rw [chunks_cons enough (append_ne_nil_of_right_ne_nil _ (cons_ne_nil _ _)), fgets_long noFeed long,
    length_take_of_le long, drop_append_of_le_length long]

theorem Format.readRows_short (sound : format.Sound) (held : format.Held row) (safe : format.Safe row)
    (short : (printRow row).length < format.size) : format.readRows (printRow row ++ [10]) = [row] := by
  obtain ⟨cells, cell, rfl, front, last⟩ := held.split
  have bars : ∀ other ∈ cells, bar ∉ other.print := fun other member => (safe.prints (mem_append_left _ member)).1
  have prints := safe.prints (mem_append_right cells mem_cons_self)
  obtain ⟨noFeed, noReturn⟩ := safe.line
  obtain ⟨kept, cut⟩ := format.stripped_clean noFeed noReturn
  have content := printRow_concat cells cell
  have room := sound.room
  have back := Column.read_print last
  by_cases fits : (printRow (cells ++ [cell])).length + 1 < format.size
  · have parsed : format.parseLine (printRow (cells ++ [cell]) ++ [10]) = some (cells ++ [cell]) := by
      rcases sound.ends with ⟨strips, -⟩ | ⟨raw, long⟩
      · rw [Format.parseLine_parts sound front bars prints.1 ((cut strips).trans content), back]
      · have whole : format.stripped (printRow (cells ++ [cell]) ++ [10]) =
            barred (cells.map Cell.print) ++ (cell.print ++ [10]) := by
          rw [Format.stripped, raw, content, append_assoc]
          rfl
        have clean : bar ∉ cell.print ++ [10] := by
          rw [mem_append, not_or]
          exact ⟨prints.1, by decide⟩
        rw [Format.parseLine_parts sound front bars clean whole, long]
        rw [long] at last
        cases cell with
        | text => exact last.elim
        | number =>
          rw [Cell.print, read_long_feed last.1 last.2]
    rw [Format.readRows, chunks_short noFeed fits, filterMap_cons_some parsed]
    rfl
  · have exact : (printRow (cells ++ [cell])).length = format.size - 1 := by omega
    have parsed : format.parseLine (printRow (cells ++ [cell])) = some (cells ++ [cell]) := by
      rw [Format.parseLine_parts sound front bars prints.1 (kept.trans content), back]
    have feed : chunks format.size ([] ++ [10]) = [[10]] := chunks_short not_mem_nil (by simp; omega)
    rw [Format.readRows, chunks_long (by omega) noFeed exact.ge, take_of_length_le exact.le, drop_of_length_le exact.le,
      feed, filterMap_cons_some parsed, filterMap_cons_none (Format.parseLine_none sound (by decide))]
    rfl

/-- A zero at the end may be cut off. -/
theorem Format.readRows_zero (sound : format.Sound) (held : format.Held row) (safe : format.Safe row)
    (long : (printRow row).length = format.size) (zero : row.getLast? = some (.number 0)) :
    format.readRows (printRow row ++ [10]) = [row] := by
  obtain ⟨cells, cell, rfl, front, last⟩ := held.split
  rw [getLast?_concat, Option.some.injEq] at zero
  subst zero
  have bars : ∀ other ∈ cells, bar ∉ other.print := fun other member => (safe.prints (mem_append_left _ member)).1
  obtain ⟨noFeed, noReturn⟩ := safe.line
  have room := sound.room
  have printed : (Cell.number 0).print = [48] := by decide
  have content := printRow_concat cells (.number 0)
  rw [printed] at content
  have size : (barred (cells.map Cell.print)).length = format.size - 1 := by
    rw [content, length_append, length_singleton] at long
    omega
  have taken : (printRow (cells ++ [.number 0])).take (format.size - 1) = barred (cells.map Cell.print) := by
    rw [content, take_append_of_le_length size.ge, take_of_length_le size.le]
  have dropped : (printRow (cells ++ [.number 0])).drop (format.size - 1) = [48] := by
    rw [content, drop_left' size]
  have short : chunks format.size ([48] ++ [10]) = [[48, 10]] := chunks_short (by decide) (by simp; omega)
  have isLong : format.last = .long := by
    rcases sound.ends with ⟨-, width, text⟩ | ⟨-, long⟩
    · rw [text] at last
      exact last.elim
    · exact long
  have kept : format.stripped (barred (cells.map Cell.print)) = barred (cells.map Cell.print) ++ [] := by
    rw [append_nil]
    refine (format.stripped_clean ?_ ?_).1
    · intro inside
      exact noFeed (content ▸ mem_append_left _ inside)
    · intro strips inside
      exact noReturn strips (content ▸ mem_append_left _ inside)
  have parsed : format.parseLine (barred (cells.map Cell.print)) = some (cells ++ [.number 0]) := by
    rw [Format.parseLine_parts sound front bars not_mem_nil kept, isLong]
    rfl
  rw [Format.readRows, chunks_long (by omega) noFeed (by omega), taken, dropped, short, filterMap_cons_some parsed,
    filterMap_cons_none (Format.parseLine_none sound (by decide))]
  rfl

/-- The lines that are read have bars of their own. -/
theorem Format.parsed_count (format : Format) (lines : List Bytes) :
    (format.needed - 1) * (lines.filterMap format.parseLine).length ≤ lines.flatten.count bar := by
  induction lines with
  | nil => exact Nat.zero_le _
  | cons line =>
    rw [flatten_cons, count_append]
    cases found : format.parseLine line with
    | none =>
      rw [filterMap_cons_none found]
      omega
    | some =>
      have bars := Format.parseLine_count found
      rw [filterMap_cons_some found, length_cons, Nat.mul_succ]
      omega

theorem Format.Safe.count (held : format.Held row) (safe : format.Safe row) :
    (printRow row).count bar = format.init.length := by
  obtain ⟨cells, cell, rfl, front, last⟩ := held.split
  have clean : ∀ part ∈ cells.map Cell.print, bar ∉ part :=
    forall_mem_map.mpr fun other member => (safe.prints (mem_append_left _ member)).1
  have noBar := (safe.prints (mem_append_right cells mem_cons_self)).1
  rw [printRow_concat, count_append, count_barred clean, count_eq_zero_of_not_mem noBar, length_map,
    front.length_eq, add_zero]

theorem Format.readRows_few (sound : format.Sound) (held : format.Held row) (safe : format.Safe row) :
    (format.readRows (printRow row ++ [10])).length ≤ 1 := by
  by_cases short : (printRow row).length < format.size
  · rw [format.readRows_short sound held safe short]
    exact le_rfl
  · have needed : format.needed = format.init.length + 1 := sound.whole.resolve_right fun either =>
      short (either.2 row held)
    have positive := length_pos_iff.mpr sound.some
    have room := sound.room
    have bars := format.parsed_count (chunks format.size (printRow row ++ [10]))
    rw [chunks_flatten (by omega), count_append, safe.count held, needed, Nat.add_sub_cancel] at bars
    by_contra many
    have two : 2 ≤ (format.readRows (printRow row ++ [10])).length := by omega
    have product := Nat.mul_le_mul_left format.init.length two
    have none : ([10] : Bytes).count bar = 0 := by decide
    rw [Format.readRows] at product
    omega

/-- A cut last value is another one unless it is a zero. -/
theorem read_cut (sound : format.Sound) {cell : Cell} (holds : format.last.Holds cell)
    (short : size < cell.print.length) (same : format.last.read (cell.print.take size) = cell) :
    cell = .number 0 := by
  rcases sound.ends with ⟨-, room, text⟩ | ⟨-, long⟩
  · rw [text] at holds same
    cases cell with
    | number => exact holds.elim
    | text value =>
      have shorter := (read_text same).1
      rw [length_take] at shorter
      change size < value.length at short
      omega
  · rw [long] at holds same
    cases cell with
    | text => exact holds.elim
    | number =>
      rw [Column.read, Cell.number.injEq] at same
      exact congrArg Cell.number ((atol_decimalInt_take short).mp same)

theorem first_bar {first second rest later : Bytes} (noBar : bar ∉ first) (noBar' : bar ∉ second)
    (same : first ++ bar :: rest = second ++ bar :: later) : first = second := by
  have found := strchr_append noBar rest
  rw [same, strchr_append noBar'] at found
  exact (Prod.mk.inj (Option.some.inj found)).1.symm

/-- A row that begins before a piece is not read from the piece. -/
theorem not_read_later (sound : format.Sound) (held : format.Held row) (safe : format.Safe row)
    (needed : format.needed = format.init.length + 1) (long : format.size ≤ (printRow row).length) {chunk : Bytes}
    (inside : chunk ∈ chunks format.size ((printRow row).drop (format.size - 1) ++ [10])) :
      format.parseLine chunk ≠ some row := by
  intro found
  have room := sound.room
  have bars := Format.parseLine_count found
  have total := safe.count held
  obtain ⟨before, after, pieces⟩ := append_of_mem inside
  have rest := chunks_flatten (by omega : 2 ≤ format.size) ((printRow row).drop (format.size - 1) ++ [10])
  rw [pieces, flatten_append, flatten_cons] at rest
  rw [← take_append_drop (format.size - 1) (printRow row), count_append] at total
  have counted := congrArg (count bar) rest
  have feed : ([10] : Bytes).count bar = 0 := by decide
  rw [count_append, count_append, count_append] at counted
  have noBefore : bar ∉ before.flatten := count_eq_zero.mp (by omega)
  have noFront : bar ∉ (printRow row).take (format.size - 1) := count_eq_zero.mp (by omega)
  -- The first field of the piece is a part of the first value of the row.
  obtain ⟨front, last, tail, split, whole, clean, -⟩ := splitFields_spec format.init.length (format.stripped chunk)
  obtain ⟨cells, cell, rfl, holds, -⟩ := held.split
  rw [Format.parseLine, columns_length, split] at found
  split_ifs at found with few
  rw [length_append, length_singleton] at few
  obtain ⟨column, columns, init⟩ := exists_cons_of_ne_nil sound.some
  rw [init] at holds needed
  cases front with
  | nil =>
    rw [length_nil, needed, length_cons] at few
    omega
  | cons field =>
    cases holds with
    | @cons _ first _ others firstHolds =>
      have same : column.read field = first := by
        rw [Format.columns, init] at found
        exact (cons.inj (Option.some.inj found)).1
      have noField : bar ∉ field := clean field (mem_append_left _ mem_cons_self)
      have prints := safe.prints (mem_append_left [cell] (mem_cons_self : first ∈ first :: others))
      have stripped : ∃ behind, chunk = field ++ bar :: behind := by
        have front : format.stripped chunk <+: chunk := by
          rw [Format.stripped]
          split_ifs
          · exact takeWhile_prefix _
          · exact prefix_rfl
        obtain ⟨behind, joined⟩ := front
        rw [whole, barred_cons] at joined
        exact ⟨_, by rw [← joined]; simp only [append_assoc]; rfl⟩
      obtain ⟨behind, chunkWhole⟩ := stripped
      have content : printRow (first :: others ++ [cell]) =
          first.print ++ bar :: (barred (others.map Cell.print) ++ cell.print) := by
        rw [printRow_concat, map_cons, barred_cons, append_assoc]
        rfl
      -- The first bar of the line is behind the piece in front.
      have reaches : format.size - 1 ≤ first.print.length := by
        by_contra short
        apply noFront
        rw [content, take_append, mem_append]
        right
        obtain ⟨count, gap⟩ := Nat.exists_eq_succ_of_ne_zero (by omega : format.size - 1 - first.print.length ≠ 0)
        rw [gap]
        exact mem_cons_self
      cases first with
      | number =>
        have small := number_length firstHolds rfl
        omega
      | text value =>
        have longer : field.length + (format.size - 1) ≤ value.length := by
          have noDrop : bar ∉ value.drop (format.size - 1) := fun member => prints.1 (mem_of_mem_drop member)
          have noFirst : bar ∉ before.flatten ++ field := by
            rw [mem_append, not_or]
            exact ⟨noBefore, noField⟩
          have joined : (before.flatten ++ field) ++ bar :: (behind ++ after.flatten) =
              value.drop (format.size - 1) ++ bar :: (barred (others.map Cell.print) ++ cell.print ++ [10]) := by
            rw [content, chunkWhole, drop_append_of_le_length reaches] at rest
            simpa only [append_assoc, cons_append, Cell.print] using rest
          have lengths := congrArg length (first_bar noFirst noDrop joined)
          rw [length_append, length_drop] at lengths
          change format.size - 1 ≤ value.length at reaches
          omega
        cases column with
        | text =>
          have shorter := (read_text same).1
          omega
        | long => exact firstHolds.elim
        | int => exact firstHolds.elim
        | unsignedLong => exact firstHolds.elim

theorem Format.fits_of_read (sound : format.Sound) (held : format.Held row) (safe : format.Safe row)
    (back : format.readRows (printRow row ++ [10]) = [row]) : format.Fits row := by
  by_cases short : (printRow row).length < format.size
  · exact .inl short
  have needed : format.needed = format.init.length + 1 := sound.whole.resolve_right fun either =>
    short (either.2 row held)
  have long : format.size ≤ (printRow row).length := Nat.le_of_not_lt short
  have room := sound.room
  obtain ⟨noFeed, noReturn⟩ := safe.line
  rw [Format.readRows, chunks_long (by omega) noFeed (by omega)] at back
  cases found : format.parseLine ((printRow row).take (format.size - 1)) with
  | none =>
    rw [filterMap_cons_none found] at back
    have member : row ∈ (chunks format.size ((printRow row).drop (format.size - 1) ++ [10])).filterMap
      format.parseLine := by
      rw [back]
      exact mem_cons_self
    obtain ⟨chunk, inside, parsed⟩ := mem_filterMap.mp member
    exact absurd parsed (not_read_later sound held safe needed long inside)
  | some read =>
    rw [filterMap_cons_some found] at back
    have same : read = row := (cons.inj back).1
    subst same
    have bars := Format.parseLine_count found
    obtain ⟨cells, cell, rfl, front, last⟩ := held.split
    have clean : ∀ other ∈ cells, bar ∉ other.print := fun other member => (safe.prints (mem_append_left _ member)).1
    have prints := safe.prints (mem_append_right cells mem_cons_self)
    have content := printRow_concat cells cell
    -- All bars are in the first piece, so only the last value is cut.
    have inFront : (barred (cells.map Cell.print)).length ≤ format.size - 1 := by
      by_contra cut
      rcases eq_nil_or_concat cells with rfl | ⟨others, other, rfl⟩
      · exact cut (Nat.zero_le _)
      · have ends : barred ((others.concat other).map Cell.print) =
            barred (others.map Cell.print) ++ other.print ++ [bar] := by
          rw [concat_eq_append, map_append, barred, flatMap_append, ← barred]
          simp
        have piece : (printRow ((others.concat other) ++ [cell])).take (format.size - 1) <+:
            barred (others.map Cell.print) ++ other.print := by
          rw [content, ends]
          rw [ends, length_append, length_singleton] at cut
          rw [append_assoc, take_append_of_le_length (by omega)]
          exact take_prefix _ _
        have fewer := piece.sublist.count_le bar
        have partsClean : ∀ part ∈ others.map Cell.print, bar ∉ part :=
          forall_mem_map.mpr fun third member => clean third (by simp [member])
        rw [count_append, count_barred partsClean, count_eq_zero_of_not_mem (clean other (by simp)),
          length_map] at fewer
        have size := front.length_eq
        rw [concat_eq_append, length_append, length_singleton] at size
        omega
    have taken : (printRow (cells ++ [cell])).take (format.size - 1) =
        barred (cells.map Cell.print) ++
          cell.print.take (format.size - 1 - (barred (cells.map Cell.print)).length) := by
      rw [content, take_append, take_of_length_le inFront]
    have kept : format.stripped ((printRow (cells ++ [cell])).take (format.size - 1)) =
        barred (cells.map Cell.print) ++
          cell.print.take (format.size - 1 - (barred (cells.map Cell.print)).length) := by
      rw [← taken]
      exact (format.stripped_clean (fun inside => noFeed (mem_of_mem_take inside))
        fun strips inside => noReturn strips (mem_of_mem_take inside)).1
    have lastClean : bar ∉ cell.print.take (format.size - 1 - (barred (cells.map Cell.print)).length) :=
      fun inside => prints.1 (mem_of_mem_take inside)
    rw [Format.parseLine_parts sound front clean lastClean kept] at found
    have equal := append_inj_right' (Option.some.inj found) rfl
    have lengths : (printRow (cells ++ [cell])).length = (barred (cells.map Cell.print)).length +
      cell.print.length := by
      rw [content, length_append]
    have zero := read_cut sound last (by omega) (cons.inj equal).1
    subst zero
    have printed : (Cell.number 0).print.length = 1 := by decide
    exact .inr ⟨by omega, getLast?_concat⟩

end Lines

section Files

variable {format : Format} {row : List Cell} {rows : List (List Cell)}

theorem mem_readCells {value : Bytes} {columns : List Column} {fields : List Bytes}
    (inside : Cell.text value ∈ readCells columns fields) :
    value = [] ∨ ∃ (place room : Nat) (field : Bytes), columns[place]? = some (Column.text room) ∧
      fields[place]? = some field ∧ (Column.text room).read field = .text value := by
  induction columns generalizing fields with
  | nil => cases inside
  | cons column columns ih =>
    cases fields with
    | nil =>
      rcases mem_cons.mp inside with here | later
      · cases column with
        | text => exact .inl (Cell.text.inj here)
        | long => exact absurd here (by simp [Column.blank])
        | int => exact absurd here (by simp [Column.blank])
        | unsignedLong => exact absurd here (by simp [Column.blank])
      · rcases ih later with none | ⟨place, room, field, found, missing, read⟩
        · exact .inl none
        · cases missing
    | cons field =>
      rcases mem_cons.mp inside with here | later
      · cases column with
        | text room => exact .inr ⟨0, room, field, rfl, rfl, here.symm⟩
        | long => exact absurd here (by simp [Column.read])
        | int => exact absurd here (by simp [Column.read])
        | unsignedLong => exact absurd here (by simp [Column.read])
      · rcases ih later with none | ⟨place, room, other, found, there, read⟩
        · exact .inl none
        · exact .inr ⟨place + 1, room, other, found, there, read⟩

theorem feed_inside {parts : List Bytes} {rest : Bytes} (feed : 10 ∈ barred parts) :
    10 ∈ (barred parts ++ rest).dropLast := by
  rcases eq_nil_or_concat parts with rfl | ⟨others, part, rfl⟩
  · cases feed
  · have ends : barred (others.concat part) = barred others ++ part ++ [bar] := by
      rw [concat_eq_append, barred, flatMap_append, ← barred]
      simp
    rw [ends] at feed ⊢
    have early : 10 ∈ barred others ++ part := by
      rcases mem_append.mp feed with front | last
      · exact front
      · exact absurd last (by decide)
    cases rest with
    | nil =>
      rw [append_nil, dropLast_concat]
      exact early
    | cons =>
      rw [dropLast_append_cons]
      exact mem_append_left _ (mem_append_left _ early)

/-- The rows that are read have texts that do not end a field or a line. -/
theorem Format.readRows_safe (sound : format.Sound) {file : Bytes} (inside : row ∈ format.readRows file) :
    format.Safe row := by
  obtain ⟨chunk, member, found⟩ := mem_filterMap.mp inside
  have room := sound.room
  have feed := chunks_feed (by omega : 2 ≤ format.size) member
  obtain ⟨front, last, tail, split, whole, clean, -⟩ := splitFields_spec format.init.length (format.stripped chunk)
  rw [Format.parseLine, columns_length, split] at found
  split_ifs at found with few
  rw [length_append, length_singleton] at few
  cases found
  intro value text
  rcases mem_readCells text with rfl | ⟨place, width, field, column, there, read⟩
  · exact ⟨not_mem_nil, not_mem_nil, fun _ => not_mem_nil⟩
  have bytes := (read_text read).2
  have listed := mem_of_getElem? there
  have within : ∀ c ∈ field, c ∈ format.stripped chunk := by
    intro c inField
    rw [whole]
    rcases mem_append.mp listed with early | late
    · apply mem_append_left
      exact mem_flatMap.mpr ⟨field, early, mem_append_left _ inField⟩
    · rw [mem_singleton.mp late] at inField
      exact mem_append_right _ (mem_append_left _ inField)
  refine ⟨fun noBar => clean field listed (bytes bar noBar), fun isFeed => ?_, fun strips isReturn => ?_⟩
  · rcases sound.ends with ⟨strips, -⟩ | ⟨raw, long⟩
    · have there := within 10 (bytes 10 isFeed)
      rw [Format.stripped, if_pos strips] at there
      have kept := mem_takeWhile_imp there
      simp at kept
    · have needed : format.needed = format.init.length + 1 := sound.whole.resolve_right (by rw [raw]; simp)
      have early : field ∈ front := by
        have notLast : place < format.init.length := by
          by_contra beyond
          have bound := (List.getElem?_eq_some_iff.mp column).1
          rw [columns_length] at bound
          have same : place = format.init.length := by omega
          rw [same, Format.columns, getElem?_append_right le_rfl, Nat.sub_self, long] at column
          cases column
        rw [getElem?_append_left (by omega)] at there
        exact mem_of_getElem? there
      have noStrip : format.stripped chunk = chunk := by
        rw [Format.stripped, raw]
        rfl
      rw [noStrip] at whole
      rw [whole] at feed
      exact feed (feed_inside (mem_flatMap.mpr ⟨field, early, mem_append_left _ (bytes 10 isFeed)⟩))
  · have there := within 13 (bytes 13 isReturn)
    rw [Format.stripped, if_pos strips] at there
    have kept := mem_takeWhile_imp there
    simp at kept

theorem Format.readRows_write (sound : format.Sound) (rows : List (List Cell)) :
    format.readRows (writeRows rows) = rows.flatMap fun row => format.readRows (printRow row ++ [10]) := by
  have room := sound.room
  induction rows with
  | nil => rfl
  | cons row rows ih =>
    rw [flatMap_cons, ← ih, Format.readRows, writeRows, flatMap_cons,
      chunks_append (by omega) getLast?_concat, filterMap_append]
    rfl

theorem flatMap_eq_self {Value : Type} {g : Value → List Value} {values : List Value}
    (few : ∀ value ∈ values, (g value).length ≤ 1) (same : values.flatMap g = values) :
      ∀ value ∈ values, g value = [value] := by
  induction values with
  | nil => exact fun _ inside => absurd inside not_mem_nil
  | cons first rest ih =>
    obtain ⟨here, later⟩ := forall_mem_cons.mp few
    rw [flatMap_cons] at same
    have short : (rest.flatMap g).length ≤ rest.length := by
      rw [length_flatMap]
      exact (sum_le_card_nsmul _ 1 (by simpa using later)).trans (by simp)
    cases made : g first with
    | nil =>
      rw [made, nil_append] at same
      rw [same, length_cons] at short
      omega
    | cons one others =>
      rw [made, length_cons] at here
      have none : others = [] := eq_nil_of_length_eq_zero (by omega)
      rw [made, none, singleton_append, cons.injEq] at same
      rw [forall_mem_cons, made, none, same.1]
      exact ⟨rfl, ih later same.2⟩

theorem foldl_pushNewest {Entry : Type} {room : Nat} (positive : 0 < room) (entries : List Entry) :
    entries.foldl (pushNewest room) [] = entries.drop (entries.length - room) := by
  induction entries using reverseRecOn with
  | nil => exact (drop_nil).symm
  | append_singleton entries entry ih =>
    rw [foldl_append, foldl_cons, foldl_nil, ih, pushNewest, length_append, length_singleton]
    by_cases full : room ≤ entries.length
    · rw [if_pos (by rw [length_drop]; omega), drop_drop, drop_append_of_le_length (by omega)]
      congr 2
      omega
    · rw [if_neg (by rw [length_drop]; omega), drop_append_of_le_length (by omega)]
      congr 2
      omega

/-- A file gives its rows back exactly when each of them is safe and fits. -/
theorem rows_restored (sound : format.Sound) {room : Nat} (within : rows.length ≤ room)
    (held : ∀ row ∈ rows, format.Held row) : (format.readRows (writeRows rows)).foldl (pushNewest room) [] = rows ↔
      ∀ row ∈ rows, format.Safe row ∧ format.Fits row := by
  cases rows with
  | nil => exact iff_of_true rfl fun _ inside => absurd inside not_mem_nil
  | cons first rest =>
    have positive : 0 < room := by
      rw [length_cons] at within
      omega
    generalize first :: rest = rows at *
    rw [foldl_pushNewest positive]
    constructor
    · intro same
      have safe : ∀ row ∈ rows, format.Safe row := by
        intro row inside
        rw [← same] at inside
        exact Format.readRows_safe sound (mem_of_mem_drop inside)
      have few : ∀ row ∈ rows, (format.readRows (printRow row ++ [10])).length ≤ 1 :=
        fun row inside => format.readRows_few sound (held row inside) (safe row inside)
      have short : (format.readRows (writeRows rows)).length ≤ rows.length := by
        rw [Format.readRows_write sound, length_flatMap]
        exact (sum_le_card_nsmul _ 1 (by simpa using few)).trans (by simp)
      rw [Nat.sub_eq_zero_of_le (short.trans within), Format.readRows_write sound] at same
      intro row inside
      exact ⟨safe row inside,
        format.fits_of_read sound (held row inside) (safe row inside) (flatMap_eq_self few same row inside)⟩
    · intro each
      have single : ∀ row ∈ rows, format.readRows (printRow row ++ [10]) = [row] := by
        intro row inside
        obtain ⟨safe, short | ⟨exact, zero⟩⟩ := each row inside
        · exact format.readRows_short sound (held row inside) safe short
        · exact format.readRows_zero sound (held row inside) safe exact zero
      have back : format.readRows (writeRows rows) = rows := by
        rw [Format.readRows_write sound, flatMap_congr single]
        exact flatMap_pure_eq_map id rows |>.trans (map_id rows)
      rw [back, Nat.sub_eq_zero_of_le within, drop_zero]

end Files

section Tables

variable {Entry : Type} {column : Column} {format : Format} {row : List Cell}

theorem strtoulField_lt (field : Bytes) : (strtoulField field).getD 0 < 2 ^ 64 := by
  unfold strtoulField
  split
  next => decide
  next c rest _ =>
    dsimp only
    generalize (if c = byte '-' ∨ c = byte '+' then rest.takeWhile isDigit else (c :: rest).takeWhile isDigit) = digits
    split_ifs
    · decide
    · decide
    · exact Nat.mod_lt _ (by decide)
    · rw [Option.getD_some]
      omega

theorem Column.holds_read (column : Column) (field : Bytes) : column.Holds (column.read field) := by
  cases column with
  | text room => exact ⟨length_take_le room _, mem_printed⟩
  | long =>
    have range := atol_range field
    exact ⟨range.1, by omega⟩
  | int => exact ⟨Int32.le_toInt _, Int32.toInt_lt _⟩
  | unsignedLong =>
    have small := strtoulField_lt field
    exact ⟨Int.natCast_nonneg _, by omega⟩

theorem Column.holds_blank (column : Column) : column.Holds column.blank := by
  cases column with
  | text => exact ⟨Nat.zero_le _, not_mem_nil⟩
  | long => exact ⟨by decide, by decide⟩
  | int => exact ⟨by decide, by decide⟩
  | unsignedLong => exact ⟨by decide, by decide⟩

theorem readCells_holds (columns : List Column) (fields : List Bytes) :
    List.Forall₂ Column.Holds columns (readCells columns fields) := by
  induction columns generalizing fields with
  | nil => exact .nil
  | cons column columns ih =>
    cases fields with
    | nil => exact .cons column.holds_blank (ih [])
    | cons field fields => exact .cons (column.holds_read field) (ih fields)

theorem Format.readRows_held {file : Bytes} (inside : row ∈ format.readRows file) : format.Held row := by
  obtain ⟨chunk, -, found⟩ := mem_filterMap.mp inside
  rw [Format.parseLine] at found
  split_ifs at found
  cases found
  exact readCells_holds _ _

/-- A list of entries that is stored as the rows of a file. Rows that the columns hold and entries of the right type
are the same. -/
structure Table (Entry : Type) where
  format : Format
  room : Nat
  cells : Entry → List Cell
  build : List Cell → Entry
  Typed : Entry → Prop
  sound : format.Sound
  held : ∀ entry, Typed entry → format.Held (cells entry)
  back : ∀ entry, Typed entry → build (cells entry) = entry
  again : ∀ row, format.Held row → cells (build row) = row

variable {table : Table Entry} {entries : List Entry}

def Table.save (table : Table Entry) (entries : List Entry) : Bytes := writeRows (entries.map table.cells)

def Table.load (table : Table Entry) (file : Bytes) : List Entry :=
  ((table.format.readRows file).map table.build).foldl (pushNewest table.room) []

/-- An entry whose line is read as it was written. -/
def Table.Plain (table : Table Entry) (entry : Entry) : Prop :=
  table.format.Safe (table.cells entry) ∧ table.format.Fits (table.cells entry)

theorem pushNewest_map {Other : Type} (room : Nat) (f : Entry → Other) (entries : List Entry) (entry : Entry) :
    pushNewest room (entries.map f) (f entry) = (pushNewest room entries entry).map f := by
  rw [pushNewest, pushNewest, length_map]
  split_ifs
  · rw [map_append, map_drop]
    rfl
  · rw [map_append]
    rfl

theorem foldl_pushNewest_map {Other : Type} (room : Nat) (f : Entry → Other) (entries before : List Entry) :
    (entries.map f).foldl (pushNewest room) (before.map f) = (entries.foldl (pushNewest room) before).map f := by
  induction entries generalizing before with
  | nil => rfl
  | cons entry entries ih => rw [map_cons, foldl_cons, foldl_cons, pushNewest_map, ih]

theorem mem_foldl_pushNewest {room : Nat} {before : List Entry} {entry : Entry}
    (inside : entry ∈ entries.foldl (pushNewest room) before) : entry ∈ before ∨ entry ∈ entries := by
  induction entries generalizing before with
  | nil => exact .inl inside
  | cons first rest ih =>
    rcases ih inside with early | late
    · rw [pushNewest, mem_append] at early
      rcases early with old | new
      · left
        split_ifs at old
        · exact mem_of_mem_drop old
        · exact old
      · exact .inr (mem_singleton.mp new ▸ mem_cons_self)
    · exact .inr (mem_cons_of_mem _ late)

theorem Table.restored (within : entries.length ≤ table.room) (typed : ∀ entry ∈ entries, table.Typed entry) :
    table.load (table.save entries) = entries ↔ ∀ entry ∈ entries, table.Plain entry := by
  have held : ∀ row ∈ entries.map table.cells, table.format.Held row :=
    forall_mem_map.mpr fun entry inside => table.held entry (typed entry inside)
  have short : (entries.map table.cells).length ≤ table.room := by rwa [length_map]
  have rows := rows_restored table.sound short held
  have loaded := foldl_pushNewest_map table.room table.build (table.format.readRows
    (writeRows (entries.map table.cells))) []
  rw [map_nil] at loaded
  rw [Table.load, Table.save, loaded]
  constructor
  · intro same
    have whole : (table.format.readRows (writeRows (entries.map table.cells))).foldl (pushNewest table.room) [] =
        entries.map table.cells := by
      conv_rhs => rw [← same, map_map]
      symm
      refine (map_congr_left fun row inside => ?_).trans (map_id _)
      rcases mem_foldl_pushNewest inside with none | read
      · cases none
      · exact table.again row (Format.readRows_held read)
    exact fun entry inside => rows.mp whole (table.cells entry) (mem_map_of_mem inside)
  · intro plain
    rw [rows.mpr (forall_mem_map.mpr plain), map_map]
    exact (map_congr_left fun entry inside => table.back entry (typed entry inside)).trans (map_id entries)

end Tables

end DelimitedRows
