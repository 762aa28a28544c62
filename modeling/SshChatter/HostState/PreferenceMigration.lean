import SshChatter.HostState.PreferenceEntry

namespace SshChatter.HostState
open CString RecordLayout List

section Meaning

open PreferenceField

/-- The fields that hold a string. -/
def isText : PreferenceField → Bool
  | username | ip | userColorCode | userHighlightCode | userColorName | userHighlightName | systemFgName | systemBgName
  | systemHighlightName | osName | dailyFunction | birthday | outputTranslationLanguage | inputTranslationLanguage
  | uiLanguage | providerLabel => true
  | _ => false

def meaningful (members : List (Member PreferenceField)) : List PreferenceField :=
  (members.map Member.field).filter fun field => field ≠ reserved ∧ field ≠ reserved2

def meaning (members : List (Member PreferenceField)) (record : Memory) (field : PreferenceField) : Bytes :=
  if isText field then textOf (valueOf members record field) else valueOf members record field

/-- Every string ends inside its array. -/
def Terminated (members : List (Member PreferenceField)) (record : Memory) : Prop :=
  ∀ field ∈ meaningful members, isText field → (0 : UInt8) ∈ valueOf members record field

/-- A field is empty or zero. -/
def Blank (members : List (Member PreferenceField)) (record : Memory) (field : PreferenceField) : Prop :=
  ∀ c ∈ meaning members record field, c = 0

def newFields : List PreferenceField := [ip, userColorCode, userHighlightCode, providerLabel]

/-- Each old field keeps its meaning, and the new fields are empty. -/
structure Preserved (members : List (Member PreferenceField)) (legacy out : Memory) : Prop where
  kept : ∀ field ∈ meaningful members, meaning entry out field = meaning members legacy field
  empty : ∀ field ∈ newFields, meaning entry out field = []

end Meaning

section Copies

theorem entry_aligned : ∀ member ∈ entry, 0 < member.align := by decide

theorem textOf_cleared (size : Nat) : textOf (replicate size 0) = [] := by
  cases size <;> rfl

theorem readRange_cleared (offset size : Nat) : readRange cleared offset size = replicate size 0 := by
  show (range size).map (fun _ => (0 : UInt8)) = replicate size 0
  rw [map_const', length_range]

def carries (members : List (Member PreferenceField)) (assigns : List (Assign PreferenceField))
    (field : PreferenceField) : Bool :=
  ((slot members field).map Slot.size).isSome ∧
    (slot members field).map Slot.size = (slot entry field).map Slot.size ∧
    assigns.filter (fun assign => assign.target = field) =
      [if isText field then .print field else .move field field]

variable {members : List (Member PreferenceField)} {assigns : List (Assign PreferenceField)} {field : PreferenceField}

theorem carries_meaning (carried : carries members assigns field)
    (fits : ∀ assign ∈ assigns, assign.fits entry) {legacy : Memory}
    (terminated : isText field → (0 : UInt8) ∈ valueOf members legacy field) :
    meaning entry (convert members entry legacy assigns cleared) field = meaning members legacy field := by
  rw [carries, decide_eq_true_eq] at carried
  obtain ⟨known, sizes, once⟩ := carried
  rw [Option.isSome_map, Option.isSome_iff_exists] at known
  obtain ⟨old, found⟩ := known
  rw [found] at sizes
  obtain ⟨new, place, same⟩ := Option.map_eq_some_iff.mp sizes.symm
  have oldValue : valueOf members legacy field = readRange legacy old.offset old.size := by rw [valueOf, found]
  by_cases text : isText field
  · rw [if_pos text] at once
    obtain ⟨before, stored⟩ : ∃ before, valueOf entry (convert members entry legacy assigns cleared) field =
        valueOf entry (Assign.exec members entry legacy before (.print field)) field :=
      convert_assigned entry_aligned legacy cleared fits once
    have short := textOf_length (terminated text)
    rw [oldValue, readRange_length] at short
    have whole : (textOf (valueOf members legacy field)).take (new.size - 1) =
      textOf (valueOf members legacy field) := by
      apply take_of_length_le
      rw [oldValue]
      omega
    have newValue : valueOf entry (convert members entry legacy assigns cleared) field =
        readRange (writeRange before new.offset (textOf (valueOf members legacy field) ++ [0])) new.offset
          new.size := by
      rw [stored, Assign.exec, valueOf]
      simp only [Assign.target, place, Assign.bytes, whole]
    rw [meaning, if_pos text, meaning, if_pos text, newValue, readRange_write, append_assoc]
    · exact textOf_append (textOf_plain _) _
    · rw [length_append, length_singleton, oldValue]
      omega
  · rw [if_neg text] at once
    obtain ⟨before, stored⟩ : ∃ before, valueOf entry (convert members entry legacy assigns cleared) field =
        valueOf entry (Assign.exec members entry legacy before (.move field field)) field :=
      convert_assigned entry_aligned legacy cleared fits once
    have offset : offsetOf members field = old.offset := by rw [offsetOf, found]; rfl
    have newValue : valueOf entry (convert members entry legacy assigns cleared) field =
        readRange (writeRange before new.offset (readRange legacy old.offset new.size)) new.offset new.size := by
      rw [stored, Assign.exec, valueOf]
      simp only [Assign.target, place, Assign.bytes, offset]
    rw [meaning, if_neg text, meaning, if_neg text, newValue, readRange_write _ (readRange_length _ _ _).le, oldValue,
      readRange_length, Nat.sub_self, same]
    exact append_nil _

theorem untouched_meaning (fits : ∀ assign ∈ assigns, assign.fits entry)
    (other : ∀ assign ∈ assigns, assign.target ≠ field) (text : isText field) (legacy : Memory) :
    meaning entry (convert members entry legacy assigns cleared) field = [] := by
  rw [meaning, if_pos text, convert_other entry_aligned legacy cleared fits other, valueOf]
  split
  · rfl
  · rw [readRange_cleared, textOf_cleared]

end Copies

section Versions

def sound (members : List (Member PreferenceField)) (assigns : List (Assign PreferenceField)) : Bool :=
  assigns.all (Assign.fits entry) ∧ (meaningful members).all (carries members assigns) ∧
    newFields.all fun field => isText field ∧ assigns.all fun assign => assign.target ≠ field

theorem sound_preserved {members : List (Member PreferenceField)} {assigns : List (Assign PreferenceField)}
    (checked : sound members assigns) {legacy : Memory} (terminated : Terminated members legacy) :
    Preserved members legacy (convert members entry legacy assigns cleared) := by
  simp only [sound, decide_eq_true_eq, all_eq_true] at checked
  obtain ⟨fits, copies, untouched⟩ := checked
  constructor
  · intro field old
    exact carries_meaning (copies field old) fits (terminated field old)
  · intro field new
    obtain ⟨text, other⟩ := untouched field new
    exact untouched_meaning fits other text legacy

/-- The versions below ten copy field by field. -/
theorem legacy_sound {version : Nat} (low : 3 ≤ version) (high : version < 10) :
    sound (legacyLayout version) (legacyAssigns version) := by
  interval_cases version <;> decide +kernel

/-- The fields that lie at the same place in versions nine to eleven and in the present layout. -/
def headFields : List PreferenceField := headMembers.map Member.field

def laterFields : List PreferenceField := (meaningful entryV9).filter fun field => field ∉ headFields

/-- What the layouts say about the fields that the `memcpy` moves, misplaces and leaves for the clearing. -/
theorem memcpy_layout : (∀ assign ∈ clearV9, assign.fits entry) ∧
    (∀ field ∈ headFields, (∀ assign ∈ clearV9, assign.target ≠ field) ∧ slot entry field = slot entryV9 field ∧
      ∀ place ∈ slot entryV9 field, place.offset + place.size ≤ structSize entryV9) ∧
    (∀ field ∈ laterFields, (∀ assign ∈ clearV9, assign.target ≠ field) ∧
      (∀ place ∈ slot entry field, structSize entryV9 ≤ place.offset) ∧
        (slot entryV9 field).map Slot.size = (slot entry field).map Slot.size) ∧
    ∀ field ∈ newFields, isText field = true ∧ clearV9.filter (fun assign => assign.target = field) =
      [clearText field] ∧ ∀ place ∈ slot entry field, 1 ≤ place.size := by
  decide +kernel

variable {field : PreferenceField}

/-- A field that the `memcpy` moves to its own place. -/
theorem memcpy_head (head : field ∈ headFields) (legacy : Memory) :
    meaning entry (migrate 10 legacy) field = meaning entryV9 legacy field := by
  obtain ⟨fits, heads, -⟩ := memcpy_layout
  obtain ⟨other, same, inside⟩ := heads field head
  have value : valueOf entry (migrate 10 legacy) field = valueOf entryV9 legacy field := by
    rw [migrate, if_pos (le_refl 10), convert_other entry_aligned cleared _ fits other, valueOf, valueOf,
      same]
    split
    · rfl
    · rename_i place found
      apply readRange_congr
      intro index low high
      rw [memcpy, if_pos (lt_of_lt_of_le high (inside place found))]
  rw [meaning, meaning, value]

/-- A field behind the name is blank, because the `memcpy` ends in front of its new place. -/
theorem memcpy_later (later : field ∈ laterFields) (legacy : Memory) :
    ∀ c ∈ meaning entry (migrate 10 legacy) field, c = 0 := by
  obtain ⟨fits, -, moved, -⟩ := memcpy_layout
  obtain ⟨other, behind, -⟩ := moved field later
  have value : ∀ c ∈ valueOf entry (migrate 10 legacy) field, c = 0 := by
    rw [migrate, if_pos (le_refl 10), convert_other entry_aligned cleared _ fits other, valueOf]
    split
    · simp
    · rename_i place found
      have start := behind place found
      have zero : readRange (memcpy cleared legacy (structSize entryV9)) place.offset place.size =
          replicate place.size 0 := by
        rw [← readRange_cleared place.offset]
        apply readRange_congr
        intro index low high
        rw [memcpy, if_neg (by omega)]
      rw [zero]
      intro c member
      exact eq_of_mem_replicate member
  intro c member
  rw [meaning] at member
  split at member
  · exact value c ((takeWhile_sublist _).subset member)
  · exact value c member

/-- The new fields are cleared behind the `memcpy`. -/
theorem memcpy_new (new : field ∈ newFields) (legacy : Memory) : meaning entry (migrate 10 legacy) field = [] := by
  obtain ⟨fits, -, -, once⟩ := memcpy_layout
  obtain ⟨text, single, room⟩ := once field new
  obtain ⟨before, stored⟩ : ∃ before, valueOf entry (migrate 10 legacy) field =
      valueOf entry (Assign.exec entry entry cleared before (clearText field)) field :=
    convert_assigned entry_aligned cleared (memcpy cleared legacy (structSize entryV9)) fits single
  rw [meaning, if_pos text, stored, valueOf]
  split
  · rfl
  · rename_i place found
    have value : readRange (Assign.exec entry entry cleared before (clearText field)) place.offset place.size =
        readRange (writeRange before place.offset [0]) place.offset place.size := by
      rw [Assign.exec]
      simp only [clearText, Assign.target, found, Assign.bytes]
    rw [value, readRange_write _ (room place found)]
    rfl

theorem meaning_blank_iff (later : field ∈ laterFields) {out legacy : Memory} (blank : Blank entry out field) :
    meaning entry out field = meaning entryV9 legacy field ↔ Blank entryV9 legacy field := by
  obtain ⟨-, -, moved, -⟩ := memcpy_layout
  obtain ⟨-, -, sizes⟩ := moved field later
  constructor
  · intro same
    rw [Blank, ← same]
    exact blank
  · intro old
    by_cases text : isText field
    · rw [Blank, meaning, if_pos text] at blank old
      rw [meaning, if_pos text, meaning, if_pos text, textOf_blank blank, textOf_blank old]
    · rw [Blank, meaning, if_neg text] at blank old
      have length : (valueOf entry out field).length = (valueOf entryV9 legacy field).length := by
        rw [valueOf_length, valueOf_length, sizes]
      rw [meaning, if_neg text, meaning, if_neg text, eq_replicate_of_mem blank, eq_replicate_of_mem old,
        length]

/-- Versions ten and eleven keep a record exactly when it is blank behind the name. -/
theorem memcpy_preserved_iff (legacy : Memory) :
    Preserved entryV9 legacy (migrate 10 legacy) ↔ ∀ field ∈ laterFields, Blank entryV9 legacy field := by
  constructor
  · intro preserved field later
    have old : field ∈ meaningful entryV9 := mem_of_mem_filter later
    exact (meaning_blank_iff later (memcpy_later later legacy)).mp (preserved.kept field old)
  · intro blank
    constructor
    · intro field old
      by_cases head : field ∈ headFields
      · exact memcpy_head head legacy
      · have later : field ∈ laterFields := mem_filter.mpr ⟨old, by simpa using head⟩
        exact (meaning_blank_iff later (memcpy_later later legacy)).mpr (blank field later)
    · intro field new
      exact memcpy_new new legacy

end Versions

/-- A record of an old version is read, and it keeps its meaning exactly when its version is below ten or it is
blank behind the name. -/
theorem preference_migration {version : Nat} (low : 3 ≤ version) (high : version ≤ 11) (record rest : Bytes)
    (size : record.length = structSize (legacyLayout version))
    (terminated : Terminated (legacyLayout version) (ofBytes record)) :
    ∃ out, readPreferenceEntry version (record ++ rest) = some (out, rest) ∧
      (Preserved (legacyLayout version) (ofBytes record) out ↔
        version < 10 ∨ ∀ field ∈ laterFields, Blank entryV9 (ofBytes record) field) := by
  refine ⟨migrate version (ofBytes record), ?_, ?_⟩
  · rw [readPreferenceEntry, if_neg (by omega), if_neg (by omega), fread, if_pos (by rw [length_append]; omega),
      Option.map_some, ← size, take_left, drop_left]
  · by_cases old : version < 10
    · have kept := sound_preserved (legacy_sound low old) terminated
      rw [migrate, if_neg (by omega)]
      simp [kept, old]
    · have layout : legacyLayout version = entryV9 := by rw [legacyLayout, if_pos (by omega)]
      have same : migrate version (ofBytes record) = migrate 10 (ofBytes record) := by
        rw [migrate, if_pos (by omega), migrate, if_pos (le_refl 10)]
      rw [layout, same, memcpy_preserved_iff]
      simp [old]

def colouredRecord : Bytes := replicate 260 0 ++ str "red" ++ replicate 489 0

def themedRecord : Bytes := [1, 0, 0, 0] ++ str "bob" ++ replicate 521 0

/-- A record of version four whose texts end inside their arrays. -/
def terminatedRecord : { record : Bytes // Terminated (legacyLayout 4) (ofBytes record) } :=
  ⟨themedRecord, by
    rw [Terminated]
    decide +kernel⟩

/-- The record of version four keeps its meaning. -/
theorem preference_migration_themed :
    ∃ out, readPreferenceEntry 4 (themedRecord ++ []) = some (out, []) ∧
      Preserved (legacyLayout 4) (ofBytes themedRecord) out := by
  have terminated : Terminated (legacyLayout 4) (ofBytes themedRecord) := terminatedRecord.2
  obtain ⟨out, read, kept⟩ := preference_migration (by decide : 3 ≤ 4) (by decide) themedRecord []
    (by decide +kernel) terminated
  exact ⟨out, read, kept.mpr (.inl (by decide))⟩

/-- The colour of a user is lost with version ten. -/
theorem preference_migration_lost :
    ¬ ∀ (version : Nat) (record : Bytes), 3 ≤ version → version ≤ 11 →
      record.length = structSize (legacyLayout version) → Terminated (legacyLayout version) (ofBytes record) →
      ∃ out, readPreferenceEntry version record = some (out, []) ∧
        Preserved (legacyLayout version) (ofBytes record) out := by
  intro claimed
  have terminated : Terminated (legacyLayout 10) (ofBytes colouredRecord) := by
    rw [Terminated]
    decide +kernel
  obtain ⟨out, read, preserved⟩ := claimed 10 colouredRecord (by decide) (by decide) (by decide +kernel) terminated
  have short : structSize (legacyLayout 10) = colouredRecord.length := by decide +kernel
  have migrated : readPreferenceEntry 10 colouredRecord = some (migrate 10 (ofBytes colouredRecord), []) := by
    rw [readPreferenceEntry, if_neg (by decide), if_neg (by decide), fread, if_pos short.le, short, Option.map_some,
      take_length, drop_length]
  rw [migrated, Option.some.injEq, Prod.mk.injEq] at read
  rw [← read.1] at preserved
  have blank := (memcpy_preserved_iff (ofBytes colouredRecord)).mp preserved .userColorName (by decide +kernel)
  rw [Blank] at blank
  exact absurd blank (by decide +kernel)

end SshChatter.HostState
