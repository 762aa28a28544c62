import SshChatter.Lib.CString
import SshChatter.Lib.Segments

namespace FieldRecord
open CString List

structure NamedField (Record : Type) where
  key : Bytes
  value : Record → Option Bytes
  store : Bytes → Record → Record

section Text

variable {Record : Type} (sep eq : UInt8) (encode decode : Bytes → Bytes)

def printField (source : Record) (field : NamedField Record) : Bytes :=
  match field.value source with
  | none => []
  | some value => field.key ++ eq :: encode value ++ [sep]

def printFields (table : List (NamedField Record)) (source : Record) :
    Bytes := table.flatMap (printField sep eq encode source)

def storeToken (table : List (NamedField Record)) (record : Record) (token : Bytes) : Record :=
  match strchr eq token with
  | none => record
  | some (key, value) =>
    match table.find? (fun field => field.key = key) with
    | none => record
    | some field => field.store (decode value) record

def parseFields (table : List (NamedField Record)) (line : Bytes) (record : Record) : Record :=
  (Segments.segments sep line).foldl (storeToken eq decode table) record

def copyField (source record : Record) (field : NamedField Record) : Record :=
  match field.value source with
  | none => record
  | some value => field.store value record

variable {sep eq encode decode} {table : List (NamedField Record)} {source : Record}

/-- Each name is found again, and each value is decoded to itself. -/
structure Readable (sep eq : UInt8) (encode decode : Bytes → Bytes) (table : List (NamedField Record))
    (source : Record) : Prop where
  distinct : (table.map NamedField.key).Nodup
  keys : ∀ field ∈ table, sep ∉ field.key ∧ eq ∉ field.key
  separator : sep ≠ eq
  values : ∀ field ∈ table, ∀ value, field.value source = some value → sep ∉ encode value ∧
    decode (encode value) = value

theorem storeToken_print (readable : Readable sep eq encode decode table source) {field : NamedField Record}
    (member : field ∈ table) {value : Bytes} (written : field.value source = some value) (record : Record) :
    storeToken eq decode table record (field.key ++ eq :: encode value) = field.store value record := by
  have found : table.find? (fun other => other.key = field.key) = some field := by
    rw [find?_eq_some_iff_append]
    obtain ⟨before, after, rfl⟩ := append_of_mem member
    refine ⟨decide_eq_true rfl, before, after, rfl, ?_⟩
    intro other inside
    have distinct := readable.distinct
    rw [map_append, nodup_append] at distinct
    have different := distinct.2.2 other.key (mem_map_of_mem inside) field.key
      (mem_map_of_mem mem_cons_self)
    simpa using different
  rw [storeToken, strchr_append (readable.keys field member).2]
  simp only [found, (readable.values field member value written).2]

/-- The written fields are read back one by one. -/
theorem parseFields_print (readable : Readable sep eq encode decode table source) (record : Record) :
    parseFields sep eq decode table (printFields sep eq encode table source) record =
      table.foldl (copyField source) record := by
  have part : ∀ fields, (∀ field ∈ fields, field ∈ table) → ∀ record,
      (Segments.segments sep (printFields sep eq encode fields source)).foldl (storeToken eq decode table) record =
        fields.foldl (copyField source) record := by
    intro fields
    induction fields with
    | nil =>
      intro _ record
      rfl
    | cons field rest ih =>
      intro members record
      obtain ⟨member, later⟩ := forall_mem_cons.mp members
      rw [printFields, flatMap_cons, foldl_cons]
      rw [printFields] at ih
      cases written : field.value source with
      | none =>
        rw [printField, copyField, written]
        exact ih later record
      | some value =>
        obtain ⟨clean, -⟩ := readable.values field member value written
        have token : sep ∉ field.key ++ eq :: encode value := by
          rw [mem_append, mem_cons, not_or, not_or]
          exact ⟨(readable.keys field member).1, readable.separator, clean⟩
        rw [printField, copyField, written]
        rw [append_assoc, Segments.segments_part (by simp) token (by simp), singleton_append,
          Segments.segments_sep_cons, foldl_cons, storeToken_print readable member written, ih later]
  exact part table (fun _ member => member) record

end Text

end FieldRecord
