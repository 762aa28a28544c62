import SshChatter.HostState.StateFile

namespace SshChatter.HostState
open CString RecordLayout RecordStream List

section Encoding

open HistoryField

/-- A string that `snprintf` copies to a cleared array of a size. -/
def arrayOf (size : Nat) (text : Bytes) : Bytes :=
  let shown := (textOf text).take (size - 1)
  shown ++ replicate (size - shown.length) 0

def flagByte (flag : Bool) : UInt8 := if flag then 1 else 0

/-- What `host_state_write_history_entry` stores in a member. -/
def serializedField (entry : ChatHistoryEntry) : HistoryField → Bytes
  | isUserMessage => [flagByte entry.isUserMessage]
  | userIsBold => [flagByte entry.userIsBold]
  | username => arrayOf usernameLen entry.username
  | message => arrayOf messageLimit entry.message
  | userColorName => arrayOf colorNameLen entry.userColorName
  | userHighlightName => arrayOf colorNameLen entry.userHighlightName
  | rawUsername => arrayOf usernameLen entry.rawUsername
  | messageId => fixed 8 entry.messageId
  | createdAt => fixed 8 (entry.createdAt % 2 ^ 64).toNat
  | attachmentType => fixed 1 entry.attachmentType
  | reserved => flagByte entry.preserveWhitespace :: replicate 6 0
  | attachmentTarget => arrayOf attachmentTargetLen entry.attachmentTarget
  | attachmentCaption => arrayOf attachmentCaptionLen entry.attachmentCaption
  | userColorCode => arrayOf colorCodeLen entry.userColorCode
  | userHighlightCode => arrayOf colorCodeLen entry.userHighlightCode
  | reactionCounts => entry.reactionCounts

def writeHistoryEntry (entry : ChatHistoryEntry) : Bytes :=
  let stores := historyEntry.map fun member => Assign.put member.field (serializedField entry member.field)
  readRange (convert [] historyEntry cleared stores cleared) 0 (structSize historyEntry)

/-- A string that an array of a size holds. -/
def HeldBy (size : Nat) (text : Bytes) : Prop := text.length < size ∧ 0 ∉ text

/-- The members of a `chat_history_entry_t` are in the range of their types. -/
structure ChatHistoryEntry.Typed (entry : ChatHistoryEntry) : Prop where
  message : HeldBy messageLimit entry.message
  username : HeldBy usernameLen entry.username
  rawUsername : HeldBy usernameLen entry.rawUsername
  userColorCode : HeldBy colorCodeLen entry.userColorCode
  userHighlightCode : HeldBy colorCodeLen entry.userHighlightCode
  userColorName : HeldBy colorNameLen entry.userColorName
  userHighlightName : HeldBy colorNameLen entry.userHighlightName
  messageId : entry.messageId < 2 ^ 64
  attachmentType : entry.attachmentType ≤ attachmentFile
  attachmentTarget : HeldBy attachmentTargetLen entry.attachmentTarget
  attachmentCaption : HeldBy attachmentCaptionLen entry.attachmentCaption
  createdAt : -2 ^ 63 ≤ entry.createdAt ∧ entry.createdAt < 2 ^ 63
  reactionCounts : entry.reactionCounts.length = 28

/-- What is read back: an empty raw name becomes the name. -/
def ChatHistoryEntry.reread (entry : ChatHistoryEntry) : ChatHistoryEntry :=
  { entry with rawUsername := if entry.rawUsername = [] then entry.username else entry.rawUsername }

end Encoding

/-- A signed word is read back as it was written. -/
theorem littleEndianInt_fixed {value : Int} (low : -2 ^ 63 ≤ value) (high : value < 2 ^ 63) :
    littleEndianInt (fixed 8 (value % 2 ^ 64).toNat) = value := by
  rw [littleEndianInt, unsigned_fixed (by omega), fixed_length]
  split_ifs with positive
  · omega
  · omega

theorem arrayOf_length {size : Nat} (positive : 0 < size) (text : Bytes) : (arrayOf size text).length = size := by
  simp only [arrayOf, length_append, length_replicate, length_take]
  omega

/-- An array gives back the string that it holds. -/
theorem textOf_arrayOf {size : Nat} {text : Bytes} (held : HeldBy size text) :
    (textOf (arrayOf size text)).take (size - 1) = text := by
  obtain ⟨short, plain⟩ := held
  have whole : textOf text = text := by
    apply takeWhile_eq_self_iff.mpr
    intro c inside
    exact decide_eq_true fun zero => plain (zero ▸ inside)
  have fits : text.take (size - 1) = text := take_of_length_le (by omega)
  have blank : replicate (size - text.length) (0 : UInt8) = 0 :: replicate (size - text.length - 1) 0 := by
    rw [← replicate_succ]
    congr 1
    omega
  rw [arrayOf, whole, fits, blank, textOf_append plain, fits]

section RoundTrip

variable {entry : ChatHistoryEntry}

def historyFieldSize (field : HistoryField) : Nat := ((slot historyEntry field).map Slot.size).getD 0

theorem serializedField_length (typed : entry.Typed) (field : HistoryField) :
    (serializedField entry field).length = historyFieldSize field := by
  cases field with
  | isUserMessage => rfl
  | userIsBold => rfl
  | reserved => rfl
  | messageId => exact fixed_length 8 _
  | createdAt => exact fixed_length 8 _
  | attachmentType => exact fixed_length 1 _
  | reactionCounts => exact typed.reactionCounts
  | _ => exact arrayOf_length (by decide) _

theorem historyField_slot (field : HistoryField) :
    ∃ place, slot historyEntry field = some place ∧ place.offset + place.size ≤ structSize historyEntry := by
  cases field <;> exact ⟨_, rfl, by decide⟩

theorem valueOf_stores (typed : entry.Typed) (field : HistoryField) :
    valueOf historyEntry
        (convert [] historyEntry cleared
          (historyEntry.map fun member => Assign.put member.field (serializedField entry member.field)) cleared) field =
      serializedField entry field := by
  have fills : ∀ {other : HistoryField} {place : Slot HistoryField}, slot historyEntry other = some place →
      (serializedField entry other).length = place.size := by
    intro other place found
    rw [serializedField_length typed, historyFieldSize, found]
    rfl
  have fits : ∀ assign ∈ historyEntry.map fun member => Assign.put member.field (serializedField entry member.field),
      assign.fits historyEntry := by
    intro assign inside
    obtain ⟨member, _, rfl⟩ := mem_map.mp inside
    obtain ⟨place, found, _⟩ := historyField_slot member.field
    rw [Assign.fits, Assign.target, found]
    exact decide_eq_true (fills found).le
  have once : (historyEntry.map fun member => Assign.put member.field (serializedField entry member.field)).filter
      (fun other => other.target = field) = [.put field (serializedField entry field)] := by
    cases field <;> rfl
  obtain ⟨place, found, _⟩ := historyField_slot field
  exact convert_put (by decide) cleared cleared fits once found (fills found)

/-- So has the record in the file. -/
theorem valueOf_writeHistoryEntry (typed : entry.Typed) (field : HistoryField) :
    valueOf historyEntry (ofBytes (writeHistoryEntry entry)) field = serializedField entry field := by
  obtain ⟨place, found, within⟩ := historyField_slot field
  rw [← valueOf_stores typed, valueOf, valueOf, found]
  apply readRange_congr
  intro index _ high
  have inside : index < structSize historyEntry := by omega
  simp [ofBytes, writeHistoryEntry, readRange, inside]

theorem printed_array {record : Memory} {field : HistoryField} {size : Nat} {text : Bytes}
    (value : valueOf historyEntry record field = arrayOf size text) (sized : historyFieldSize field = size)
    (held : HeldBy size text) : printed historyEntry record field = text := by
  rw [printed, value]
  change (textOf (arrayOf size text)).take (historyFieldSize field - 1) = text
  rw [sized, textOf_arrayOf held]

theorem isSet_flag {record : Memory} {field : HistoryField} {flag : Bool}
    (value : valueOf historyEntry record field = [flagByte flag]) : isSet historyEntry record field = flag := by
  rw [isSet, value]
  cases flag <;> rfl

/-- An entry is read back from its record. -/
theorem decode_writeHistoryEntry (typed : entry.Typed) :
    decodeHistoryEntry (ofBytes (writeHistoryEntry entry)) = entry.reread := by
  have value := valueOf_writeHistoryEntry typed
  have word : unsigned (serializedField entry .attachmentType) = entry.attachmentType :=
    unsigned_fixed (lt_of_le_of_lt typed.attachmentType (by decide))
  have kind : (if attachmentFile < unsigned (serializedField entry .attachmentType) then 0
      else unsigned (serializedField entry .attachmentType)) = entry.attachmentType := by
    simp only [word, if_neg (not_lt.mpr typed.attachmentType)]
  have id : unsigned (serializedField entry .messageId) = entry.messageId := unsigned_fixed typed.messageId
  have time : littleEndianInt (serializedField entry .createdAt) = entry.createdAt :=
    littleEndianInt_fixed typed.createdAt.1 typed.createdAt.2
  have whitespace : decide ((serializedField entry .reserved).take 1 ≠ [0]) = entry.preserveWhitespace := by
    rw [serializedField]
    cases entry.preserveWhitespace <;> rfl
  rw [decodeHistoryEntry, isSet_flag (value .isUserMessage), isSet_flag (value .userIsBold), value .reserved,
    value .messageId, value .attachmentType, value .createdAt, value .reactionCounts,
    printed_array (value .message) rfl typed.message, printed_array (value .username) rfl typed.username,
    printed_array (value .rawUsername) rfl typed.rawUsername,
    printed_array (value .userColorCode) rfl typed.userColorCode,
    printed_array (value .userHighlightCode) rfl typed.userHighlightCode,
    printed_array (value .userColorName) rfl typed.userColorName,
    printed_array (value .userHighlightName) rfl typed.userHighlightName,
    printed_array (value .attachmentTarget) rfl typed.attachmentTarget,
    printed_array (value .attachmentCaption) rfl typed.attachmentCaption, whitespace,
    kind, id, time]
  rfl

theorem writeHistoryEntry_length (entry : ChatHistoryEntry) :
    (writeHistoryEntry entry).length = structSize historyEntry := readRange_length _ _ _

theorem readHistoryEntry_write (typed : entry.Typed) (rest : Bytes) :
    readHistoryEntry hostStateVersion (writeHistoryEntry entry ++ rest) = some (entry.reread, rest) := by
  have long : structSize historyEntry ≤ (writeHistoryEntry entry ++ rest).length := by
    rw [length_append, writeHistoryEntry_length]
    exact Nat.le_add_right _ _
  rw [readHistoryEntry, if_neg (not_not.mpr rfl), fread_some long, take_left' (writeHistoryEntry_length entry),
    drop_left' (writeHistoryEntry_length entry), Option.map_some, decode_writeHistoryEntry typed]

/-- The records of a file are read back in their order. -/
theorem readUpTo_write {entries : List ChatHistoryEntry} (typed : ∀ entry ∈ entries, entry.Typed) (rest : Bytes) :
    readUpTo (readHistoryEntry hostStateVersion) entries.length ((entries.map writeHistoryEntry).flatten ++ rest) =
      (entries.map ChatHistoryEntry.reread, some rest) := by
  induction entries with
  | nil => rfl
  | cons entry entries ih =>
    have first := readHistoryEntry_write (typed entry mem_cons_self)
      ((entries.map writeHistoryEntry).flatten ++ rest)
    have later := ih fun other inside => typed other (mem_cons_of_mem _ inside)
    rw [length_cons, readUpTo, map_cons, flatten_cons, append_assoc, first]
    dsimp only
    rw [later]
    rfl

end RoundTrip

end SshChatter.HostState
