import SshChatter.Lib.CString
import Mathlib.Data.List.Basic

namespace DelimitedRows
open CString List

section Chunks

variable {size : Nat} {file front back : Bytes}

/-- What `fgets` reads of a file until its end. -/
def chunks (size : Nat) (file : Bytes) : List Bytes := fgetsLines size file.length file

theorem fgets_front (size : Nat) (file : Bytes) : fgets size file <+: file := by
  rw [fgets]
  split
  next line rest hit =>
    have whole := (strchr_some hit).1
    have front : line ++ [10] <+: file.take (size - 1) := by
      rw [whole]
      exact ⟨rest, by rw [append_assoc]; rfl⟩
    exact front.trans (List.take_prefix _ _)
  next => exact take_prefix _ _

theorem fgets_ne (enough : 2 ≤ size) (some : file ≠ []) : fgets size file ≠ [] := by
  rw [fgets]
  split
  next => exact append_ne_nil_of_right_ne_nil _ (cons_ne_nil _ _)
  next =>
    intro empty
    rcases take_eq_nil_iff.mp empty with none | none
    · omega
    · exact some none

theorem fgets_feed (size : Nat) (file : Bytes) : 10 ∉ (fgets size file).dropLast := by
  rw [fgets]
  split
  next line rest hit =>
    rw [dropLast_concat]
    exact (strchr_some hit).2
  next miss =>
    intro inside
    have there := (strchr_isSome 10 _).mpr (mem_of_mem_dropLast inside)
    rw [miss] at there
    cases there

/-- The number of calls does not matter when it is large. -/
theorem fgetsLines_calls (enough : 2 ≤ size) {calls calls' : Nat} (first : file.length ≤ calls)
    (second : file.length ≤ calls') : fgetsLines size calls file = fgetsLines size calls' file := by
  induction calls generalizing file calls' with
  | zero =>
    have empty : file = [] := eq_nil_of_length_eq_zero (Nat.le_zero.mp first)
    subst empty
    cases calls' <;> rfl
  | succ calls ih =>
    cases calls' with
    | zero =>
      have empty : file = [] := eq_nil_of_length_eq_zero (Nat.le_zero.mp second)
      subst empty
      rfl
    | succ =>
      rw [fgetsLines, fgetsLines]
      by_cases empty : file = []
      · rw [if_pos empty, if_pos empty]
      · have taken := length_pos_iff.mpr (fgets_ne enough empty)
        rw [if_neg empty, if_neg empty]
        congr 1
        exact ih (by rw [length_drop]; omega) (by rw [length_drop]; omega)

theorem chunks_cons (enough : 2 ≤ size) (some : file ≠ []) :
    chunks size file = fgets size file :: chunks size (file.drop (fgets size file).length) := by
  have taken := length_pos_iff.mpr (fgets_ne enough some)
  have long := length_pos_iff.mpr some
  obtain ⟨calls, same⟩ := Nat.exists_eq_succ_of_ne_zero long.ne'
  rw [chunks, same, fgetsLines, if_neg some]
  congr 1
  exact fgetsLines_calls enough (by rw [length_drop]; omega) le_rfl

theorem chunks_flatten (enough : 2 ≤ size) (file : Bytes) : (chunks size file).flatten = file := by
  induction length : file.length using Nat.strong_induction_on generalizing file with
  | h length' ih =>
    by_cases empty : file = []
    · subst empty
      rfl
    · have taken := length_pos_iff.mpr (fgets_ne enough empty)
      have long := length_pos_iff.mpr empty
      rw [chunks_cons enough empty, flatten_cons,
        ih _ (by rw [length_drop]; omega) (file.drop (fgets size file).length) rfl]
      exact (prefix_iff_eq_append.mp (fgets_front size file))

theorem chunks_feed (enough : 2 ≤ size) {chunk : Bytes} (inside : chunk ∈ chunks size file) : 10 ∉ chunk.dropLast := by
  induction length : file.length using Nat.strong_induction_on generalizing file with
  | h length' ih =>
    by_cases empty : file = []
    · subst empty
      cases inside
    · have taken := length_pos_iff.mpr (fgets_ne enough empty)
      have long := length_pos_iff.mpr empty
      rw [chunks_cons enough empty] at inside
      rcases mem_cons.mp inside with rfl | later
      · exact fgets_feed size file
      · exact ih _ (by rw [length_drop]; omega) later rfl

/-- What stands behind a line feed is read on its own. -/
theorem fgets_append (ends : front.getLast? = some 10) (back : Bytes) :
    fgets size (front ++ back) = fgets size front := by
  by_cases short : front.length ≤ size - 1
  · obtain ⟨line, rfl⟩ := getLast?_eq_some_iff.mp ends
    have inside : (10 : UInt8) ∈ line ++ [10] := mem_append_right _ mem_cons_self
    obtain ⟨before, after, whole, absent⟩ := eq_append_cons_of_mem inside
    rw [fgets, fgets, take_append, take_of_length_le short, whole, append_assoc, cons_append,
      strchr_append absent, strchr_append absent]
  · rw [fgets, fgets, take_append_of_le_length (by omega)]

/-- The chunks of a text that ends a line and of the text behind it. -/
theorem chunks_append (enough : 2 ≤ size) (ends : front.getLast? = some 10) (back : Bytes) :
    chunks size (front ++ back) = chunks size front ++ chunks size back := by
  induction length : front.length using Nat.strong_induction_on generalizing front with
  | h length' ih =>
    have some : front ≠ [] := by
      rintro rfl
      cases ends
    have taken := length_pos_iff.mpr (fgets_ne enough some)
    have within := (fgets_front size front).length_le
    rw [chunks_cons enough (append_ne_nil_of_left_ne_nil some back), chunks_cons enough some, fgets_append ends,
      drop_append_of_le_length within]
    congr 1
    by_cases rest : front.drop (fgets size front).length = []
    · rw [rest]
      rfl
    · apply ih _ _ _ rfl
      · rw [length_drop]
        omega
      · rw [getLast?_drop, if_neg (by rw [drop_eq_nil_iff] at rest; omega)]
        exact ends

end Chunks

/-- The byte between two fields. -/
def bar : UInt8 := 124

inductive Cell where
  | text (value : Bytes)
  | number (value : Int)
  deriving DecidableEq

/-- How a value is read: to an array with room for some bytes, or as a number of a type. -/
inductive Column where
  | text (room : Nat)
  | long
  | int
  | unsignedLong
  deriving DecidableEq

def Cell.print : Cell → Bytes
  | text value => value
  | number value => decimalInt value

/-- A field is copied by `snprintf`, or read by `strtoll`, `strtol` or `strtoull`. -/
def Column.read : Column → Bytes → Cell
  | text room, field => .text ((field.takeWhile (· ≠ 0)).take room)
  | long, field => .number (atol field)
  | int, field => .number (Int32.ofInt (atol field)).toInt
  | unsignedLong, field => .number ((strtoulField field).getD 0 : Nat)

/-- The value of a cleared member. -/
def Column.blank : Column → Cell
  | text _ => .text []
  | _ => .number 0

def Column.Holds : Column → Cell → Prop
  | text room, .text value => value.length ≤ room ∧ 0 ∉ value
  | long, .number value => -2 ^ 63 ≤ value ∧ value < 2 ^ 63
  | int, .number value => -2 ^ 31 ≤ value ∧ value < 2 ^ 31
  | unsignedLong, .number value => 0 ≤ value ∧ value < 2 ^ 64
  | _, _ => False

/-- The columns of a file and how its lines are read: the buffer of `fgets`, the number of fields that a line needs,
and whether the end of a line is cut off. -/
structure Format where
  size : Nat
  init : List Column
  last : Column
  needed : Nat
  strips : Bool

def Format.columns (format : Format) : List Column := format.init ++ [format.last]

def printRow : List Cell → Bytes
  | [] => []
  | [cell] => cell.print
  | cell :: rest => cell.print ++ bar :: printRow rest

/-- The text of a file. -/
def writeRows (rows : List (List Cell)) : Bytes := rows.flatMap fun row => printRow row ++ [10]

def splitFields : Nat → Bytes → List Bytes
  | 0, _ => []
  | count + 1, cursor =>
    match strchr bar cursor with
    | none => [cursor]
    | some (field, rest) => field :: splitFields count rest

/-- A field that is missing leaves its member cleared. -/
def readCells : List Column → List Bytes → List Cell
  | [], _ => []
  | column :: columns, [] => column.blank :: readCells columns []
  | column :: columns, field :: fields => column.read field :: readCells columns fields

def Format.stripped (format : Format) (line : Bytes) : Bytes :=
  if format.strips then line.takeWhile fun c => c ≠ 13 ∧ c ≠ 10 else line

def Format.parseLine (format : Format) (line : Bytes) : Option (List Cell) :=
  let fields := splitFields format.columns.length (format.stripped line)
  if fields.length < format.needed then none else some (readCells format.columns fields)

def Format.readRows (format : Format) (file : Bytes) :
    List (List Cell) := (chunks format.size file).filterMap format.parseLine

def pushNewest {Entry : Type} (room : Nat) (entries : List Entry) (entry : Entry) : List Entry :=
  (if room ≤ entries.length then entries.drop 1 else entries) ++ [entry]

/-- The texts of a row have no byte that ends a field or a line. -/
def Format.Safe (format : Format) (row : List Cell) : Prop :=
  ∀ value, .text value ∈ row → bar ∉ value ∧ 10 ∉ value ∧ (format.strips → 13 ∉ value)

/-- The line of a row fits the buffer without its line feed. One byte more is no harm when it is a zero at the end. -/
def Format.Fits (format : Format) (row : List Cell) : Prop :=
  (printRow row).length < format.size ∨ (printRow row).length = format.size ∧ row.getLast? = some (.number 0)

def Format.Held (format : Format) (row : List Cell) : Prop := List.Forall₂ Column.Holds format.columns row

/-- A format that is read as it is written. A line needs all fields, or all lines are short. A text at its end is
stripped. -/
structure Format.Sound (format : Format) : Prop where
  room : 22 ≤ format.size
  some : format.init ≠ []
  several : 2 ≤ format.needed ∧ format.needed ≤ format.init.length + 1
  whole : format.needed = format.init.length + 1 ∨
    format.strips ∧ ∀ row, format.Held row → (printRow row).length < format.size
  ends : (format.strips ∧ ∃ room, format.last = .text room) ∨ (format.strips = false ∧ format.last = .long)

section Cells

variable {column : Column} {cell : Cell} {format : Format} {row : List Cell}

/-- A number is printed in at most twenty bytes. -/
theorem decimalInt_length {value : Int} (low : -2 ^ 63 ≤ value) (high : value < 2 ^ 64) :
    (decimalInt value).length ≤ 20 := by
  unfold decimalInt
  split
  next negative =>
    have digits : (decimal value.natAbs).length ≤ 19 := decimal_length (by omega) (by decide)
    rw [length_cons]
    omega
  next => exact decimal_length (by omega) (by decide)

theorem number_length (holds : column.Holds cell) {value : Int} (same : cell = .number value) :
    cell.print.length ≤ 20 := by
  subst same
  cases column with
  | text => exact holds.elim
  | long => exact decimalInt_length holds.1 (by have high := holds.2; omega)
  | int => exact decimalInt_length (by have low := holds.1; omega) (by have high := holds.2; omega)
  | unsignedLong => exact decimalInt_length (by have low := holds.1; omega) holds.2

/-- How long the print of a value is at most. -/
def Column.width : Column → Nat
  | text room => room
  | _ => 20

theorem Column.Holds.short (holds : column.Holds cell) : cell.print.length ≤ column.width := by
  cases cell with
  | text =>
    cases column with
    | text => exact holds.1
    | long => exact holds.elim
    | int => exact holds.elim
    | unsignedLong => exact holds.elim
  | number =>
    have digits := number_length holds rfl
    cases column with
    | text => exact holds.elim
    | long => exact digits
    | int => exact digits
    | unsignedLong => exact digits

theorem printRow_length {columns : List Column} (held : List.Forall₂ Column.Holds columns row) :
    (printRow row).length ≤ (columns.map (·.width + 1)).sum := by
  induction held with
  | nil => exact le_refl 0
  | @cons column cell columns row holds =>
    have short := holds.short
    rw [map_cons, sum_cons]
    cases row with
    | nil =>
      rw [printRow]
      omega
    | cons =>
      rw [printRow, length_append, length_cons]
      · omega
      · simp

/-- A printed number has no byte that ends a field or a line. -/
theorem decimalInt_clean (value : Int) : bar ∉ decimalInt value ∧ 10 ∉ decimalInt value ∧ 13 ∉ decimalInt value := by
  have plain (c : UInt8) (digit : isDigit c = false) (minus : c ≠ byte '-') : c ∉ decimalInt value := by
    intro inside
    rcases decimalInt_plain value c inside with isIt | isIt
    · rw [digit] at isIt
      cases isIt
    · exact minus isIt
  exact ⟨plain bar (by decide) (by decide), plain 10 (by decide) (by decide), plain 13 (by decide) (by decide)⟩

theorem Column.read_print (holds : column.Holds cell) : column.read cell.print = cell := by
  have stops : ∀ c, ([] : Bytes).head? = some c → isDigit c = false := by simp
  cases column with
  | text =>
    cases cell with
    | text value =>
      have clean : value.takeWhile (· ≠ 0) = value := by
        apply takeWhile_eq_self_iff.mpr
        intro c inside
        exact decide_eq_true fun zero => holds.2 (zero ▸ inside)
      rw [Column.read, Cell.print, clean, take_of_length_le holds.1]
    | number => exact holds.elim
  | long =>
    cases cell with
    | text => exact holds.elim
    | number =>
      have read := atol_decimalInt holds.1 holds.2 stops
      rw [append_nil] at read
      rw [Column.read, Cell.print, read]
  | int =>
    cases cell with
    | text => exact holds.elim
    | number value =>
      obtain ⟨low, high⟩ := holds
      have read : atol (decimalInt value ++ []) = value := atol_decimalInt (by omega) (by omega) stops
      rw [append_nil] at read
      rw [Column.read, Cell.print, read, Int32.toInt_ofInt_of_le (by omega) (by omega)]
  | unsignedLong =>
    cases cell with
    | text => exact holds.elim
    | number value =>
      obtain ⟨low, high⟩ := holds
      have read := strtoulField_decimal value.natAbs stops
      rw [append_nil] at read
      rw [Column.read, Cell.print, decimalInt, if_neg (by omega), read, Option.getD_some]
      congr 1
      omega

theorem read_long_feed {value : Int} (low : -2 ^ 63 ≤ value) (high : value < 2 ^ 63) :
    Column.long.read (decimalInt value ++ [10]) = .number value := by
  have stops : ∀ c, ([10] : Bytes).head? = some c → isDigit c = false := by simp [isDigit]
  rw [Column.read, atol_decimalInt low high stops]

/-- A number ends in front of a bar. -/
theorem atol_bar (field rest : Bytes) : atol (field ++ bar :: rest) = atol field := by
  have noDigit : isDigit bar = false := by decide
  unfold atol
  rw [dropWhile_append]
  cases blanks : field.dropWhile isSpace with
  | nil =>
    rfl
  | cons c more =>
    have stops (text : Bytes) : (text ++ bar :: rest).takeWhile isDigit = text.takeWhile isDigit := by
      rw [takeWhile_append]
      split_ifs with all
      · rw [takeWhile_cons_of_neg (by rw [noDigit]; exact Bool.false_ne_true), append_nil]
        exact ((List.takeWhile_prefix isDigit).eq_of_length all).symm
      · rfl
    rw [if_neg (by simp), cons_append]
    dsimp only
    rw [stops more, ← cons_append, stops (c :: more)]

theorem read_text {room : Nat} {field value : Bytes} (read : (Column.text room).read field = .text value) :
    value.length ≤ field.length ∧ ∀ c ∈ value, c ∈ field := by
  rw [Column.read, Cell.text.injEq] at read
  subst read
  refine ⟨?_, fun c inside => (List.takeWhile_prefix _).mem (mem_of_mem_take inside)⟩
  rw [length_take]
  exact (min_le_right _ _).trans (List.takeWhile_prefix _).length_le

theorem Column.Holds.toText {room : Nat} (holds : (Column.text room).Holds cell) :
    ∃ value : CText room, cell = .text value.text := by
  cases cell with
  | text value => exact ⟨⟨value, holds.1, holds.2⟩, rfl⟩
  | number => exact holds.elim

theorem Column.Holds.toLong (holds : Column.long.Holds cell) : ∃ value, cell = .number value := by
  cases cell with
  | text => exact holds.elim
  | number value => exact ⟨value, rfl⟩

theorem Column.Holds.toInt (holds : Column.int.Holds cell) : ∃ value, cell = .number value := by
  cases cell with
  | text => exact holds.elim
  | number value => exact ⟨value, rfl⟩

theorem Column.Holds.toNat (holds : Column.unsignedLong.Holds cell) : ∃ value : Nat, cell = .number value := by
  cases cell with
  | text => exact holds.elim
  | number value => exact ⟨value.toNat, congrArg Cell.number (Int.toNat_of_nonneg holds.1).symm⟩

theorem holds_text {room : Nat} (value : CText room) : (Column.text room).Holds (.text value.text) :=
    ⟨value.fits, value.clean⟩

end Cells

section Fields

variable {format : Format} {row cells : List Cell} {cell : Cell} {parts fields : List Bytes} {text x : Bytes}

/-- The fields of a line in front of its last one, each with its bar. -/
def barred (parts : List Bytes) : Bytes := parts.flatMap (· ++ [bar])

theorem barred_cons (part : Bytes) (parts : List Bytes) : barred (part :: parts) = part ++ bar :: barred parts := by
  rw [barred, flatMap_cons, append_assoc]
  rfl

theorem splitFields_parts (clean : ∀ part ∈ parts, bar ∉ part) (last : bar ∉ x) :
    splitFields (parts.length + 1) (barred parts ++ x) = parts ++ [x] := by
  induction parts with
  | nil =>
    have none : strchr bar x = none := by
      cases hit : strchr bar x with
      | none => rfl
      | some =>
        have there := (strchr_isSome bar x).mp (by rw [hit]; rfl)
        exact absurd there last
    change splitFields 1 x = [x]
    rw [splitFields, none]
  | cons part parts ih =>
    obtain ⟨here, later⟩ := forall_mem_cons.mp clean
    rw [barred_cons, append_assoc, cons_append, splitFields, strchr_append here]
    exact congrArg (part :: ·) (ih later)

/-- The fields of a line as parts of it. -/
theorem splitFields_spec (count : Nat) (text : Bytes) :
    ∃ front last tail, splitFields (count + 1) text = front ++ [last] ∧ text = barred front ++ (last ++ tail) ∧
      (∀ field ∈ front ++ [last], bar ∉ field) ∧ front.length ≤ count := by
  induction count generalizing text with
  | zero =>
    rw [splitFields]
    cases hit : strchr bar text with
    | none =>
      have absent : bar ∉ text := by
        rw [← strchr_isSome, hit]
        exact Bool.false_ne_true
      exact ⟨[], text, [], rfl, (append_nil text).symm, by simpa using absent, Nat.zero_le _⟩
    | some found =>
      obtain ⟨whole, absent⟩ := strchr_some hit
      exact ⟨[], found.1, bar :: found.2, rfl, whole, by simpa using absent, Nat.zero_le _⟩
  | succ count ih =>
    rw [splitFields]
    cases hit : strchr bar text with
    | none =>
      have absent : bar ∉ text := by
        rw [← strchr_isSome, hit]
        exact Bool.false_ne_true
      exact ⟨[], text, [], rfl, (append_nil text).symm, by simpa using absent, Nat.zero_le _⟩
    | some found =>
      obtain ⟨whole, absent⟩ := strchr_some hit
      obtain ⟨front, last, tail, split, rest, clean, short⟩ := ih found.2
      refine ⟨found.1 :: front, last, tail, ?_, ?_, ?_, Nat.succ_le_succ short⟩
      · dsimp only
        rw [split]
        rfl
      · rw [barred_cons, append_assoc, cons_append, ← rest]
        exact whole
      · rw [cons_append, forall_mem_cons]
        exact ⟨absent, clean⟩

theorem count_barred (clean : ∀ part ∈ parts, bar ∉ part) : (barred parts).count bar = parts.length := by
  induction parts with
  | nil => rfl
  | cons part parts ih =>
    obtain ⟨here, later⟩ := forall_mem_cons.mp clean
    rw [barred_cons, count_append, count_cons_self, ih later, count_eq_zero_of_not_mem here, length_cons,
      zero_add]

theorem count_barred_ge (parts : List Bytes) : parts.length ≤ (barred parts).count bar := by
  induction parts with
  | nil => exact Nat.zero_le _
  | cons =>
    rw [barred_cons, count_append, count_cons_self, length_cons]
    omega

theorem Format.parseLine_count {line : Bytes} {read : List Cell} (found : format.parseLine line = some read) :
    format.needed ≤ line.count bar + 1 := by
  rw [Format.parseLine] at found
  split_ifs at found with few
  have columns : format.columns.length = format.init.length + 1 := by rw [Format.columns, length_append]; rfl
  obtain ⟨front, last, tail, split, whole, -⟩ := splitFields_spec format.init.length (format.stripped line)
  rw [columns, split, length_append, length_singleton] at few
  have bars : front.length ≤ (format.stripped line).count bar := by
    rw [whole, count_append]
    exact (count_barred_ge front).trans (Nat.le_add_right _ _)
  have within : (format.stripped line).count bar ≤ line.count bar := by
    rw [Format.stripped]
    split_ifs
    · exact (List.takeWhile_prefix _).sublist.count_le _
    · exact le_rfl
  omega

theorem Format.Held.split (held : format.Held row) :
    ∃ cells cell, row = cells ++ [cell] ∧ List.Forall₂ Column.Holds format.init cells ∧ format.last.Holds cell := by
  rw [Format.Held, Format.columns] at held
  generalize format.init = columns at held
  induction columns generalizing row with
  | nil =>
    cases held with
    | cons first rest =>
      cases rest
      exact ⟨[], _, rfl, .nil, first⟩
  | cons column columns ih =>
    cases held with
    | @cons _ first _ later holds rest =>
      obtain ⟨cells, cell, rfl, front, last⟩ := ih rest
      exact ⟨first :: cells, cell, rfl, .cons holds front, last⟩

theorem printRow_concat (cells : List Cell) (cell : Cell) :
    printRow (cells ++ [cell]) = barred (cells.map Cell.print) ++ cell.print := by
  induction cells with
  | nil => rfl
  | cons first cells ih =>
    rw [map_cons, barred_cons, append_assoc, cons_append, cons_append, ← ih]
    cases cells <;> rfl

theorem readCells_concat {columns : List Column} (last : Column) (held : List.Forall₂ Column.Holds columns cells)
    (x : Bytes) : readCells (columns ++ [last]) (cells.map Cell.print ++ [x]) = cells ++ [last.read x] := by
  induction held with
  | nil => rfl
  | cons holds _ ih =>
    rw [cons_append, map_cons, cons_append, readCells, Column.read_print holds, ih]
    rfl

theorem Format.Safe.prints (safe : format.Safe row) (member : cell ∈ row) :
    bar ∉ cell.print ∧ 10 ∉ cell.print ∧ (format.strips → 13 ∉ cell.print) := by
  cases cell with
  | text value => exact safe value member
  | number value =>
    obtain ⟨noBar, noFeed, noReturn⟩ := decimalInt_clean value
    exact ⟨noBar, noFeed, fun _ => noReturn⟩

theorem mem_printRow {c : UInt8} (other : c ≠ bar) (inside : c ∈ printRow row) : ∃ cell ∈ row, c ∈ cell.print := by
  induction row with
  | nil => cases inside
  | cons first rest ih =>
    cases rest with
    | nil => exact ⟨first, mem_cons_self, inside⟩
    | cons =>
      rw [printRow] at inside
      · rcases mem_append.mp inside with here | later
        · exact ⟨first, mem_cons_self, here⟩
        · obtain ⟨cell, member, there⟩ := ih ((mem_cons.mp later).resolve_left other)
          exact ⟨cell, mem_cons_of_mem _ member, there⟩
      · simp

theorem Format.Safe.line (safe : format.Safe row) :
    10 ∉ printRow row ∧ (format.strips → 13 ∉ printRow row) := by
  constructor
  · intro inside
    obtain ⟨cell, member, there⟩ := mem_printRow (by decide) inside
    exact (safe.prints member).2.1 there
  · intro strips inside
    obtain ⟨cell, member, there⟩ := mem_printRow (by decide) inside
    exact (safe.prints member).2.2 strips there

/-- A part of a line without returns and line feeds is not cut. -/
theorem Format.stripped_clean (format : Format) (noFeed : 10 ∉ text) (noReturn : format.strips → 13 ∉ text) :
    format.stripped text = text ∧ (format.strips → format.stripped (text ++ [10]) = text) := by
  have clean (strips : format.strips = true) : ∀ c ∈ text, (c ≠ 13 ∧ c ≠ 10 : Bool) = true := by
    intro c inside
    apply decide_eq_true
    exact ⟨fun same => noReturn strips (same ▸ inside), fun same => noFeed (same ▸ inside)⟩
  rw [Format.stripped]
  constructor
  · split_ifs with strips
    · exact takeWhile_eq_self_iff.mpr (clean strips)
    · rfl
  · intro strips
    rw [Format.stripped, if_pos strips, takeWhile_append_of_pos (clean strips)]
    exact append_nil text

theorem columns_length (format : Format) : format.columns.length = format.init.length + 1 := by
  rw [Format.columns, length_append]
  rfl

theorem Format.parseLine_parts (sound : format.Sound) (held : List.Forall₂ Column.Holds format.init cells)
    (safe : ∀ cell ∈ cells, bar ∉ cell.print) (last : bar ∉ x) {line : Bytes}
    (whole : format.stripped line = barred (cells.map Cell.print) ++ x) :
    format.parseLine line = some (cells ++ [format.last.read x]) := by
  have size : format.init.length = (cells.map Cell.print).length := by rw [length_map, held.length_eq]
  have fields := splitFields_parts (forall_mem_map.mpr safe) last
  rw [← size] at fields
  have several := sound.several
  rw [Format.parseLine, whole, columns_length, fields, if_neg (by rw [length_append, ← size]; simp; omega),
    Format.columns, readCells_concat format.last held]

theorem Format.parseLine_none (sound : format.Sound) {line : Bytes} (noBar : bar ∉ line) :
    format.parseLine line = none := by
  cases found : format.parseLine line with
  | none => rfl
  | some =>
    have bars := Format.parseLine_count found
    rw [count_eq_zero_of_not_mem noBar] at bars
    have several := sound.several
    omega

end Fields

end DelimitedRows
