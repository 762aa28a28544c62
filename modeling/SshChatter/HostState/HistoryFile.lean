import SshChatter.HostState.ArchiveComplete
import SshChatter.HostState.HistoryLog
import SshChatter.HostState.LoadSafety

namespace SshChatter.HostState
open CString RecordLayout RecordStream List

section Typed

variable {record : Memory}

theorem printed_held (record : Memory) (field : HistoryField) {size : Nat} (sized : historyFieldSize field = size)
    (positive : 0 < size) : HeldBy size (printed historyEntry record field) := by
  constructor
  · change ((textOf (valueOf historyEntry record field)).take (historyFieldSize field - 1)).length < size
    rw [length_take]
    omega
  · intro inside
    exact textOf_plain _ (mem_of_mem_take inside)

theorem littleEndianInt_range {bytes : Bytes} (whole : bytes.length = 8) :
    -2 ^ 63 ≤ littleEndianInt bytes ∧ littleEndianInt bytes < 2 ^ 63 := by
  have bound := unsigned_lt bytes
  rw [whole] at bound
  rw [littleEndianInt, whole]
  split_ifs with positive
  · omega
  · omega

theorem historyValue_length (record : Memory) (field : HistoryField) :
    (valueOf historyEntry record field).length = historyFieldSize field := by
  rw [valueOf_length, historyFieldSize]

theorem decodeHistoryEntry_typed (record : Memory) : (decodeHistoryEntry record).Typed := by
  have word : unsigned (valueOf historyEntry record .messageId) < 2 ^ 64 := by
    have bound := unsigned_lt (valueOf historyEntry record .messageId)
    rw [historyValue_length] at bound
    exact bound
  have kind : (if attachmentFile < unsigned (valueOf historyEntry record .attachmentType) then 0
      else unsigned (valueOf historyEntry record .attachmentType)) ≤ attachmentFile := by
    split_ifs with large
    · exact Nat.zero_le _
    · exact not_lt.mp large
  have raw : HeldBy usernameLen (if printed historyEntry record .rawUsername = [] then
      printed historyEntry record .username else printed historyEntry record .rawUsername) := by
    split_ifs with empty
    · exact printed_held record .username rfl (by decide)
    · exact printed_held record .rawUsername rfl (by decide)
  have sized : historyFieldSize .message = messageLimit := rfl
  refine ⟨?_, ?_, ?_, ?_, ?_, ?_, ?_, ?_, ?_, ?_, ?_, ?_, ?_⟩ <;> simp only [decodeHistoryEntry]
  · exact printed_held record .message sized (by decide)
  · exact printed_held record .username rfl (by decide)
  · exact raw
  · exact printed_held record .userColorCode rfl (by decide)
  · exact printed_held record .userHighlightCode rfl (by decide)
  · exact printed_held record .userColorName rfl (by decide)
  · exact printed_held record .userHighlightName rfl (by decide)
  · exact word
  · exact kind
  · exact printed_held record .attachmentTarget rfl (by decide)
  · exact printed_held record .attachmentCaption rfl (by decide)
  · exact littleEndianInt_range (historyValue_length record .createdAt)
  · exact historyValue_length record .reactionCounts

theorem filled_twice (raw name : Bytes) :
    (if (if raw = [] then name else raw) = [] then name else if raw = [] then name else raw) =
      if raw = [] then name else raw := by
  by_cases empty : raw = []
  · rw [if_pos empty, ite_self]
  · rw [if_neg empty, if_neg empty]

theorem decodeHistoryEntry_reread (record : Memory) :
    (decodeHistoryEntry record).reread = decodeHistoryEntry record := by
  have named : (if (decodeHistoryEntry record).rawUsername = [] then (decodeHistoryEntry record).username
      else (decodeHistoryEntry record).rawUsername) = (decodeHistoryEntry record).rawUsername :=
    filled_twice (printed historyEntry record .rawUsername) (printed historyEntry record .username)
  rw [ChatHistoryEntry.reread, named]

end Typed

theorem fread_split {size : Nat} {file front back : Bytes} (found : fread size file = some (front, back)) :
    file = front ++ back ∧ front.length = size := by
  rw [fread] at found
  split_ifs at found with enough
  obtain ⟨rfl, rfl⟩ := Prod.mk.inj (Option.some.inj found)
  exact ⟨(take_append_drop size file).symm, length_take_of_le enough⟩

theorem streamOpen_front {file rest : Bytes} {version count : Nat} (opened : streamOpen file =
    some (version, count, rest)) :
    version = hostStateVersion ∧ ∃ (front : Bytes) (header : BaseHeader) (metadata : Metadata),
      front.length = historyOffset ∧ file = front ++ rest ∧ header.version = hostStateVersion ∧
        header.historyCount = count ∧ ∀ back, streamOpen (front ++ back) = some (hostStateVersion, count, back) ∧
          readHeader (front ++ back) = some (header, metadata, back) := by
  rw [streamOpen] at opened
  cases first : fread 16 file with
  | none =>
    rw [first] at opened
    exact absurd opened (by simp)
  | some found =>
    obtain ⟨base, middle⟩ := found
    rw [first] at opened
    dsimp only at opened
    split_ifs at opened with magic present
    cases second : fread 16 middle with
    | none =>
      rw [second] at opened
      exact absurd opened (by simp)
    | some found =>
      obtain ⟨counts, tail⟩ := found
      rw [second] at opened
      dsimp only at opened
      cases third : fread 8 tail with
      | none =>
        rw [third] at opened
        exact absurd opened (by simp)
      | some found =>
        obtain ⟨flags, back⟩ := found
        rw [third] at opened
        obtain ⟨baseSplit, baseLength⟩ := fread_split first
        obtain ⟨countSplit, countLength⟩ := fread_split second
        obtain ⟨flagSplit, flagLength⟩ := fread_split third
        obtain ⟨sameVersion, sameCount, rfl⟩ : hostStateVersion = version ∧
            unsigned ((base.drop 8).take 4) = count ∧ back = rest := by simpa using opened
        have versionRead : unsigned ((base.drop 4).take 4) = hostStateVersion := not_not.mp present
        refine ⟨sameVersion.symm, base ++ (counts ++ flags),
          ⟨unsigned ((base.drop 4).take 4), unsigned ((base.drop 8).take 4),
            unsigned ((base.drop 12).take 4)⟩,
          ⟨unsigned ((counts.drop 8).take 8), unsigned ((counts.drop 4).take 4), flags.getD 0 0,
            flags.getD 1 0⟩, ?_, ?_, versionRead, sameCount, ?_⟩
        · rw [length_append, length_append, baseLength, countLength, flagLength]
          rfl
        · rw [baseSplit, countSplit, flagSplit, append_assoc, append_assoc]
        · intro back
          have split : base ++ (counts ++ flags) ++ back = base ++ (counts ++ (flags ++ back)) := by
            rw [append_assoc, append_assoc]
          have readBase := fread_append baseLength (counts ++ (flags ++ back))
          have readCount := fread_append countLength (flags ++ back)
          have readFlags := fread_append flagLength back
          constructor
          · rw [split, streamOpen, readBase]
            dsimp only
            rw [if_neg magic, if_neg present, readCount]
            dsimp only
            rw [readFlags, ← sameCount]
          · rw [split, readHeader, readBaseHeader, readBase]
            dsimp only
            rw [if_neg magic, versionRead, if_neg (by decide)]
            dsimp only
            rw [readMetadata, readCounts, if_pos (by decide), readCount]
            simp only [Option.map_some, if_pos (show 8 ≤ hostStateVersion by decide),
              if_pos (show 5 ≤ hostStateVersion by decide), if_pos (show 13 ≤ hostStateVersion by decide), readFlags]

/-- A 32-bit number is read back, less what does not fit. -/
theorem unsigned_word (n : Nat) : unsigned (fixed 4 (n % 2 ^ 32)) = n % 2 ^ 32 :=
  unsigned_fixed (Nat.mod_lt _ (by decide))

/-- A 64-bit number is read back, less what does not fit. -/
theorem unsigned_long (n : Nat) : unsigned (fixed 8 (n % 2 ^ 64)) = n % 2 ^ 64 :=
  unsigned_fixed (Nat.mod_lt _ (by decide))

theorem readHeader_header (header : StateHeader) (rest : Bytes) :
    readHeader (header.bytes ++ rest) =
      some (⟨hostStateVersion, header.historyCount % 2 ^ 32, header.preferenceCount % 2 ^ 32⟩,
        ⟨header.nextMessageId % 2 ^ 64, header.grantCount % 2 ^ 32, flagByte header.captchaEnabled,
          flagByte header.geoLanguageEnabled⟩, rest) := by
  obtain ⟨magic, version, count⟩ := header.base_numbers
  have first := fread_append header.base_length (header.metadata ++ rest)
  have preferences : unsigned ((header.base.drop 12).take 4) = header.preferenceCount % 2 ^ 32 := by
    rw [StateHeader.base, fixed_drop 4 _ _ 8, fixed_drop 4 _ _ 4, fixed_drop 4 _ _ 0, drop_zero,
      take_of_length_le (fixed_length 4 _).le, unsigned_word]
  let counts := fixed 4 0 ++ (fixed 4 (header.grantCount % 2 ^ 32) ++ fixed 8 (header.nextMessageId % 2 ^ 64))
  have grants : unsigned ((counts.drop 4).take 4) = header.grantCount % 2 ^ 32 := by
    rw [fixed_drop 4 _ _ 0, drop_zero, fixed_take, unsigned_word]
  have next : unsigned ((counts.drop 8).take 8) = header.nextMessageId % 2 ^ 64 := by
    rw [fixed_drop 4 _ _ 4, fixed_drop 4 _ _ 0, drop_zero, take_of_length_le (fixed_length 8 _).le, unsigned_long]
  let flags : Bytes := flagByte header.captchaEnabled :: flagByte header.geoLanguageEnabled :: replicate 6 0
  have second : fread 16 (header.metadata ++ rest) = some (counts, flags ++ rest) := by
    rw [StateHeader.metadata, append_assoc]
    exact fread_append (by simp only [length_append, fixed_length]) _
  rw [readHeader, readBaseHeader, StateHeader.bytes_eq, first]
  dsimp only
  rw [if_neg (not_not.mpr magic), version, if_neg (by decide)]
  dsimp only
  rw [readMetadata, readCounts, second]
  simp only [Option.map_some, grants, next, count,
    preferences]
  rfl

section Records

def fileHistory (file : Option Bytes) : List ChatHistoryEntry :=
  match file.bind streamOpen with
  | none => []
  | some (version, count, rest) => (readUpTo (readHistoryEntry version) count rest).1

theorem readHistoryEntry_decodes :
    Decodes (readHistoryEntry hostStateVersion) (structSize historyEntry) fun bytes =>
      decodeHistoryEntry (ofBytes bytes) where
  short file cut := by
    rw [readHistoryEntry, fread_none cut]
    rfl
  front front back whole := by
    rw [readHistoryEntry, fread_append whole]
    rfl

variable {version count : Nat} {file : Option Bytes}

theorem fileHistory_opened {rest : Bytes} (opened : file.bind streamOpen = some (version, count, rest)) :
    fileHistory file = (readUpTo (readHistoryEntry hostStateVersion) count rest).1 := by
  obtain ⟨bytes, rfl, found⟩ := Option.bind_eq_some_iff.mp opened
  obtain ⟨rfl, _⟩ := streamOpen_front found
  rw [fileHistory, opened]

theorem fileHistory_some {file rest : Bytes} (opened : streamOpen file = some (version, count, rest)) :
    fileHistory (some file) = (readUpTo (readHistoryEntry hostStateVersion) count rest).1 :=
  fileHistory_opened (show (some file).bind streamOpen = _ from opened)

theorem fileHistory_closed (closed : file.bind streamOpen = none) : fileHistory file = [] := by
  rw [fileHistory, closed]

theorem readUpTo_typed (version count : Nat) (rest : Bytes) :
    ∀ entry ∈ (readUpTo (readHistoryEntry version) count rest).1, entry.Typed ∧ entry.reread = entry := by
  induction count generalizing rest with
  | zero => exact fun _ inside => absurd inside not_mem_nil
  | succ count ih =>
    rw [readUpTo]
    cases found : readHistoryEntry version rest with
    | none => exact fun _ inside => absurd inside not_mem_nil
    | some =>
      intro entry inside
      rcases mem_cons.mp inside with rfl | later
      · rw [readHistoryEntry] at found
        split_ifs at found
        obtain ⟨bytes, _, rfl⟩ := Option.map_eq_some_iff.mp found
        exact ⟨decodeHistoryEntry_typed _, decodeHistoryEntry_reread _⟩
      · exact ih _ entry later

theorem fileHistory_typed (file : Option Bytes) : ∀ entry ∈ fileHistory file, entry.Typed ∧ entry.reread = entry := by
  cases opened : file.bind streamOpen with
  | none =>
    rw [fileHistory_closed opened]
    exact fun _ inside => absurd inside not_mem_nil
  | some =>
    rw [fileHistory_opened opened]
    exact readUpTo_typed _ _ _

/-- The first records of the file are read as they are needed. -/
theorem readOlder_eq {older : Nat} (held : older ≤ (fileHistory file).length) :
    readOlder file older = ((fileHistory file).take older, true) := by
  rw [readOlder]
  split_ifs with none'
  · rw [none', take_zero]
  · cases opened : file.bind streamOpen with
    | none =>
      rw [fileHistory_closed opened] at held
      exact absurd (Nat.le_zero.mp held) none'
    | some found =>
      obtain ⟨version, count, rest⟩ := found
      have whole := fileHistory_opened opened
      rw [whole] at held ⊢
      obtain ⟨bytes, rfl, found⟩ := Option.bind_eq_some_iff.mp opened
      obtain ⟨rfl, _⟩ := streamOpen_front found
      have short : (readUpTo (readHistoryEntry hostStateVersion) count rest).1.length ≤ count :=
        (readUpTo_length count rest).1
      have enough : older ≤ count := held.trans short
      have first : (readUpTo (readHistoryEntry hostStateVersion) (older + (count - older)) rest).1.take older =
          (readUpTo (readHistoryEntry hostStateVersion) older rest).1 := readUpTo_take older (count - older) rest
      rw [Nat.add_sub_cancel' enough] at first
      have complete : older ≤ (readUpTo (readHistoryEntry hostStateVersion) older rest).1.length := by
        rw [← first, length_take]
        omega
      dsimp only
      rw [min_eq_left enough, readUpTo_whole complete, first]

theorem fileHistory_stateBytes {entries : List ChatHistoryEntry} (typed : ∀ entry ∈ entries, entry.Typed)
    (few : entries.length < 2 ^ 32) (data : HostData) :
    fileHistory (some (stateBytes entries.length entries data)) = entries.map ChatHistoryEntry.reread := by
  rw [stateBytes, fileHistory_some (streamOpen_header _ _), Nat.mod_eq_of_lt few, readUpTo_write typed]

theorem overwrite_behind {front : Bytes} {size : Nat} (whole : front.length = size) (rest : Bytes) (behind : Nat)
    (record : Bytes) : overwrite (front ++ rest) (size + behind) record = front ++ overwrite rest behind record := by
  rw [overwrite, overwrite, ← whole, take_length_add_append, add_assoc, drop_length_add_append,
    append_assoc]

theorem fileHistory_overwrite {file rest : Bytes} (opened : streamOpen file = some (version, count, rest))
    {entry : ChatHistoryEntry} (typed : entry.Typed) {place : Nat}
    (inside : place < (fileHistory (some file)).length) :
    fileHistory (some (overwrite file (historyOffset + structSize historyEntry * place) (writeHistoryEntry entry))) =
      (fileHistory (some file)).set place entry.reread := by
  obtain ⟨_, front, header, metadata, whole, split, _, _, reads⟩ := streamOpen_front opened
  have same : overwrite file (historyOffset + structSize historyEntry * place) (writeHistoryEntry entry) =
      front ++ overwrite rest (structSize historyEntry * place) (writeHistoryEntry entry) := by
    rw [split, overwrite_behind whole]
  have before := fileHistory_some opened
  have decoded : decodeHistoryEntry (ofBytes (writeHistoryEntry entry)) = entry.reread := decode_writeHistoryEntry typed
  rw [before] at inside ⊢
  rw [same, fileHistory_some (reads _).1, overwrite, readHistoryEntry_decodes.readUpTo_overwrite
    (writeHistoryEntry_length entry) inside, decoded]

def savedMessageId (file : Option Bytes) : Nat :=
  match file.bind readHeader with
  | none => 1
  | some (_, metadata, _) => metadata.nextMessageId

theorem savedMessageId_stateBytes (count : Nat) (entries : List ChatHistoryEntry) (data : HostData) :
    savedMessageId (some (stateBytes count entries data)) = data.nextMessageId % 2 ^ 64 := by
  rw [savedMessageId, Option.bind_some, stateBytes, readHeader_header]

theorem savedMessageId_overwrite {file rest : Bytes} (opened : streamOpen file = some (version, count, rest))
    (behind : Nat) (record : Bytes) :
    savedMessageId (some (overwrite file (historyOffset + behind) record)) = savedMessageId (some file) := by
  obtain ⟨_, front, header, metadata, whole, split, _, _, reads⟩ := streamOpen_front opened
  rw [savedMessageId, savedMessageId, Option.bind_some, Option.bind_some, split, overwrite_behind whole, (reads _).2,
    (reads _).2]

end Records

end SshChatter.HostState
