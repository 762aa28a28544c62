import SshChatter.HostState.HistoryFile

namespace SshChatter.HostState
open CString RecordLayout RecordStream List

section Normalize

/-- The strings of the colour tables have no zero byte. -/
structure Palette.Plain (palette : Palette) : Prop where
  userColor : ∀ name code, palette.lookupUserColor name = some code → 0 ∉ code
  highlight : ∀ name code, palette.lookupHighlight name = some code → 0 ∉ code
  themeUserColor : 0 ∉ palette.themeUserColor
  themeHighlight : 0 ∉ palette.themeHighlight
  defaultUserColorName : 0 ∉ palette.defaultUserColorName
  defaultUserHighlightName : 0 ∉ palette.defaultUserHighlightName

abbrev HostPalette : Type := { palette : Palette // palette.Plain }

variable {palette : Palette} {entry normalized : ChatHistoryEntry}

/-- A string that is cut to its array. -/
theorem held_take {size : Nat} {text : Bytes} (positive : 0 < size) (plain : 0 ∉ text) :
    HeldBy size (text.take (size - 1)) := by
  constructor
  · rw [length_take]
    omega
  · exact fun inside => plain (mem_of_mem_take inside)

theorem held_nil {size : Nat} (positive : 0 < size) : HeldBy size [] := ⟨positive, not_mem_nil⟩

/-- A line that is kept stays within the limit. -/
theorem keepLine_held {cleaned line : Bytes} (held : HeldBy messageLimit cleaned) (plain : 0 ∉ line) (ended : Bool) :
    HeldBy messageLimit (keepLine cleaned line ended) := by
  obtain ⟨short, clean⟩ := held
  have copied : HeldBy messageLimit (cleaned ++
      line.take (if messageLimit ≤ cleaned.length + line.length then messageLimit - 1 - cleaned.length else
        line.length)) := by
    constructor
    · rw [length_append, length_take]
      split_ifs with long
      · omega
      · omega
    · intro inside
      rcases mem_append.mp inside with before | taken
      · exact clean before
      · exact plain (mem_of_mem_take taken)
  rw [keepLine]
  by_cases blank : line.all isSpace = true
  · rw [if_pos blank]
    exact ⟨short, clean⟩
  · rw [if_neg blank]
    generalize cleaned ++ line.take _ = text at copied
    by_cases room : ended ∧ text.length + 1 < messageLimit
    · rw [if_pos room]
      constructor
      · rw [length_append]
        exact room.2
      · intro inside
        rcases mem_append.mp inside with before | single
        · exact copied.2 before
        · exact absurd single (by decide)
    · rw [if_neg room]
      exact copied

theorem stripEmptyLines_held {text : Bytes} (plain : 0 ∉ text) : HeldBy messageLimit (stripEmptyLines text) := by
  have complete : ∀ line ∈ (LineStream.splitLines 10 text).1, 0 ∉ line :=
    fun line member inside => plain (LineStream.splitLines_mem 10 (Or.inl ⟨line, member, inside⟩))
  have open' : 0 ∉ (LineStream.splitLines 10 text).2 :=
    fun inside => plain (LineStream.splitLines_mem 10 (Or.inr inside))
  have folded : ∀ (lines : List Bytes) (cleaned : Bytes), HeldBy messageLimit cleaned → (∀ line ∈ lines, 0 ∉ line) →
      HeldBy messageLimit (lines.foldl (fun cleaned line => keepLine cleaned line true) cleaned) := by
    intro lines
    induction lines with
    | nil => exact fun _ held _ => held
    | cons line lines ih =>
      intro cleaned held each
      exact ih _ (keepLine_held held (each line mem_cons_self) true) fun other inside =>
        each other (mem_cons_of_mem _ inside)
  have first := folded _ _ (held_nil (by decide)) complete
  rw [stripEmptyLines]
  split_ifs with empty
  · exact first
  · exact keepLine_held first open' false

theorem withColor_typed (plain : palette.Plain) (typed : entry.Typed) : (entry.withColor palette).Typed := by
  rw [ChatHistoryEntry.withColor]
  split_ifs with coded
  · exact typed
  · cases found : palette.lookupUserColor entry.userColorName with
    | some => exact { typed with userColorCode := held_take (by decide) (plain.userColor _ _ found) }
    | none =>
      exact { typed with
        userColorName := held_take (by decide) plain.defaultUserColorName
        userColorCode := held_take (by decide) plain.themeUserColor }

theorem withHighlight_typed (plain : palette.Plain) (typed : entry.Typed) : (entry.withHighlight palette).Typed := by
  rw [ChatHistoryEntry.withHighlight]
  split_ifs with coded
  · exact typed
  · cases found : palette.lookupHighlight entry.userHighlightName with
    | some => exact { typed with userHighlightCode := held_take (by decide) (plain.highlight _ _ found) }
    | none =>
      exact { typed with
        userHighlightName := held_take (by decide) plain.defaultUserHighlightName
        userHighlightCode := held_take (by decide) plain.themeHighlight }

theorem normalizeEntry_typed (plain : palette.Plain) (typed : entry.Typed)
    (found : normalizeEntry palette entry = some normalized) : normalized.Typed := by
  have stripped : ({ entry with message := stripEmptyLines entry.message } : ChatHistoryEntry).Typed :=
    { typed with message := stripEmptyLines_held typed.message.2 }
  rw [normalizeEntry] at found
  split_ifs at found with empty system
  · cases found
    exact { stripped with
      userColorCode := held_nil (by decide)
      userHighlightCode := held_nil (by decide)
      userColorName := held_nil (by decide)
      userHighlightName := held_nil (by decide) }
  · cases found
    exact withHighlight_typed plain (withColor_typed plain stripped)

theorem stamped_typed (clock : Clock) (typed : entry.Typed) : (entry.stamped clock).Typed := by
  rw [ChatHistoryEntry.stamped]
  split_ifs with unset
  · refine { typed with createdAt := ?_ }
    cases time : clock.wall with
    | none => exact ⟨show (-2 ^ 63 : Int) ≤ 0 by decide, show (0 : Int) < 2 ^ 63 by decide⟩
    | some now => exact clock.inRange now time
  · exact typed

theorem react_eq (index : Nat) (entry : ChatHistoryEntry) :
    ∃ counts, entry.react index = { entry with reactionCounts := counts } := by
  rw [ChatHistoryEntry.react]
  split_ifs with room
  · exact ⟨_, rfl⟩
  · exact ⟨entry.reactionCounts, rfl⟩

theorem react_typed {index : Nat} (kind : index < reactionKindCount) (typed : entry.Typed) :
    (entry.react index).Typed := by
  rw [ChatHistoryEntry.react]
  split_ifs with room
  · refine { typed with reactionCounts := ?_ }
    have whole := typed.reactionCounts
    have seven : index < 7 := kind
    simp only [overwrite, length_append, length_take, length_drop, fixed_length]
    omega
  · exact typed

end Normalize

section Saves

variable (override : Option (List ChatHistoryEntry)) (clock : Clock) (host : LogHost)

/-- What a save leaves alone. It may remove entries from the cache, and a failed one is not forgotten. -/
structure Saves (host next : LogHost) : Prop where
  history : next.data.history ⊆ host.data.history
  nextMessageId : next.data.nextMessageId = host.data.nextMessageId
  replies : next.replies = host.replies
  nextReplyId : next.nextReplyId = host.nextReplyId
  replyFile : next.replyFile = host.replyFile
  written : next.saveFailed = false → host.saveFailed = false

theorem replaceFile_saves (written : Bool) (count : Nat) (entries : List ChatHistoryEntry) :
    Saves host (host.replaceFile written count entries) := by
  rw [LogHost.replaceFile]
  split_ifs with success
  · exact ⟨List.Subset.refl _, rfl, rfl, rfl, rfl, id⟩
  · exact ⟨List.Subset.refl _, rfl, rfl, rfl, rfl, nofun⟩

theorem replaceFile_file {written : Bool} {count : Nat} {entries : List ChatHistoryEntry}
    (kept : (host.replaceFile written count entries).saveFailed = false) :
    (host.replaceFile written count entries).stateFile = some (stateBytes count entries host.data) := by
  rw [LogHost.replaceFile] at kept ⊢
  split_ifs at kept ⊢ with success
  rfl

theorem forceSaveWith_saves : Saves host (forceSaveWith override clock host) := by
  cases override with
  | none =>
    have saves := replaceFile_saves
      { host with
        data := prunedData (retentionCutoff clock.wall) (readOlder host.stateFile host.data.historyStartIndex).1
          host.data }
      (readOlder host.stateFile host.data.historyStartIndex).2
    refine ⟨fun entry inside => ?_, (saves _ _).nextMessageId, (saves _ _).replies, (saves _ _).nextReplyId,
      (saves _ _).replyFile, (saves _ _).written⟩
    exact mem_of_mem_filter ((saves _ _).history inside)
  | some => exact ⟨List.Subset.refl _, rfl, rfl, rfl, rfl, id⟩

theorem forceSaveWith_file (written : (forceSaveWith override clock host).saveFailed = false) :
    savedMessageId (forceSaveWith override clock host).stateFile = host.data.nextMessageId % 2 ^ 64 := by
  cases override with
  | none =>
    have file := replaceFile_file _ written
    exact (congrArg savedMessageId file).trans (savedMessageId_stateBytes _ _ _)
  | some => exact savedMessageId_stateBytes _ _ _

/-- A save is put off when the last one is near, and made otherwise. -/
theorem saveLocked_cases :
    (clock.monotonic.any host.isDebounced = true ∧ saveLocked override clock host = { host with savePending := true }) ∨
      (clock.monotonic.any host.isDebounced = false ∧
        saveLocked override clock host =
          { forceSaveWith override clock host with
            savePending := false, lastSave := clock.monotonic.or (forceSaveWith override clock host).lastSave }) := by
  rw [saveLocked]
  cases clock.monotonic with
  | none => exact Or.inr ⟨rfl, rfl⟩
  | some now =>
    rw [Option.any_some]
    dsimp only
    cases near : host.isDebounced now with
    | true => exact Or.inl ⟨rfl, if_pos rfl⟩
    | false => exact Or.inr ⟨rfl, if_neg Bool.false_ne_true⟩

theorem saveLocked_saves : Saves host (saveLocked override clock host) := by
  have forced := forceSaveWith_saves override clock host
  rcases saveLocked_cases override clock host with ⟨_, same⟩ | ⟨_, same⟩
  · rw [same]
    exact ⟨List.Subset.refl _, rfl, rfl, rfl, rfl, id⟩
  · rw [same]
    exact ⟨forced.history, forced.nextMessageId, forced.replies, forced.nextReplyId, forced.replyFile, forced.written⟩

theorem saveLocked_file (written : (saveLocked override clock host).saveFailed = false)
    (complete : (saveLocked override clock host).savePending = false) :
    savedMessageId (saveLocked override clock host).stateFile = host.data.nextMessageId % 2 ^ 64 := by
  have forced := forceSaveWith_file override clock host
  rcases saveLocked_cases override clock host with ⟨_, same⟩ | ⟨_, same⟩
  · rw [same] at complete
    exact absurd complete Bool.true_eq_false.mp
  · rw [same] at written ⊢
    exact forced written

theorem flushPending_saves : Saves host (flushPending clock host) := by
  have forced := forceSaveWith_saves none clock host
  rw [flushPending]
  split_ifs with pending
  · exact ⟨forced.history, forced.nextMessageId, forced.replies, forced.nextReplyId, forced.replyFile, forced.written⟩
  · exact ⟨List.Subset.refl _, rfl, rfl, rfl, rfl, id⟩

theorem flushPending_file (written : (flushPending clock host).saveFailed = false) (pending : host.savePending) :
    savedMessageId (flushPending clock host).stateFile = host.data.nextMessageId % 2 ^ 64 := by
  rw [flushPending, if_pos pending] at written ⊢
  exact forceSaveWith_file none clock host written

theorem flushPending_idle (idle : host.savePending = false) : flushPending clock host = host := by
  rw [flushPending, if_neg (Bool.eq_false_iff.mp idle)]

theorem flushPending_complete : (flushPending clock host).savePending = false := by
  rw [flushPending]
  split_ifs with pending
  · rfl
  · exact Bool.eq_false_iff.mpr pending

end Saves

section Loads

variable {header : BaseHeader} {metadata : Metadata} {file body : Bytes}

theorem unsigned_take_lt (width : Nat) (bytes : Bytes) : unsigned (bytes.take width) < 256 ^ width := by
  have bound := unsigned_lt (bytes.take width)
  have short : (bytes.take width).length ≤ width := length_take_le width bytes
  exact bound.trans_le (Nat.pow_le_pow_right (by decide) short)

/-- The numbers of a header are in the range of their fields. -/
theorem readHeader_bounds (read : readHeader file = some (header, metadata, body)) :
    header.historyCount < 2 ^ 32 ∧ metadata.nextMessageId < 2 ^ 64 := by
  rw [readHeader] at read
  cases base : readBaseHeader file with
  | none => simp [base] at read
  | some found =>
    obtain ⟨numbers, middle⟩ := found
    rw [base] at read
    obtain ⟨⟨rest, tail⟩, second, same⟩ := Option.map_eq_some_iff.mp read
    obtain ⟨rfl, rfl, rfl⟩ : numbers = header ∧ rest = metadata ∧ tail = body := by simpa using same
    constructor
    · rw [readBaseHeader] at base
      cases first : fread 16 file with
      | none => simp [first] at base
      | some =>
        rw [first] at base
        dsimp only at base
        split_ifs at base
        obtain ⟨rfl, _⟩ := Prod.mk.inj (Option.some.inj base)
        exact unsigned_take_lt 4 _
    · have counted : ∀ {given : Metadata} {after : Bytes}, readCounts numbers.version middle = some (given, after) →
          given.nextMessageId < 2 ^ 64 := by
        intro given after counts
        rw [readCounts] at counts
        by_cases extended : 2 ≤ numbers.version
        · rw [if_pos extended] at counts
          obtain ⟨bytes, _, same⟩ := Option.map_eq_some_iff.mp counts
          obtain ⟨rfl, _⟩ := Prod.mk.inj same
          exact unsigned_take_lt 8 _
        · rw [if_neg extended] at counts
          obtain ⟨rfl, _⟩ := Prod.mk.inj (Option.some.inj counts)
          exact Nat.one_lt_two_pow (by decide)
      rw [readMetadata] at second
      cases counts : readCounts numbers.version middle with
      | none => simp [counts] at second
      | some found =>
        rw [counts] at second
        dsimp only at second
        by_cases flagged : 8 ≤ numbers.version
        · rw [if_pos flagged] at second
          obtain ⟨bytes, _, same⟩ := Option.map_eq_some_iff.mp second
          obtain ⟨rfl, _⟩ := Prod.mk.inj same
          have bound := counted counts
          exact bound
        · rw [if_neg flagged] at second
          obtain ⟨rfl, _⟩ := Prod.mk.inj (Option.some.inj second)
          exact counted counts

theorem readSections_history (header : BaseHeader) (grantCount count : Nat) (body : Bytes) :
    (readSections header grantCount count body).history =
      (readUpTo (readHistoryEntry header.version) header.historyCount body).1 := by
  rw [readSections]
  dsimp only
  split
  · rfl
  · split
    · rfl
    · rfl

theorem load_typed (palette : HostPalette) (now : Option Int) (file : Bytes) :
    (∀ entry ∈ (hostStateLoad palette.val now file .fresh).history, entry.Typed) ∧
      (hostStateLoad palette.val now file .fresh).nextMessageId < 2 ^ 64 ∧
      savedMessageId (some file) ≤ (hostStateLoad palette.val now file .fresh).nextMessageId := by
  cases read : readHeader file with
  | none =>
    rw [hostStateLoad_unread palette.val now read, savedMessageId, Option.bind_some, read]
    exact ⟨fun _ inside => absurd inside not_mem_nil, by decide, le_refl 1⟩
  | some found =>
    obtain ⟨header, metadata, body⟩ := found
    obtain ⟨few, small⟩ := readHeader_bounds read
    have saved : savedMessageId (some file) = metadata.nextMessageId := by
      rw [savedMessageId, Option.bind_some, read]
    have sections := readSections_history header metadata.grantCount (min header.preferenceCount maxPreferences) body
    have readTyped := readUpTo_typed header.version header.historyCount body
    have short : (readUpTo (readHistoryEntry header.version) header.historyCount body).1.length < 2 ^ 32 :=
      (readUpTo_length header.historyCount body).1.trans_lt few
    rw [← sections] at readTyped short
    have loadedWhole := load_whole palette.val now header metadata body read
    have loadedCut := load_cut palette.val now header metadata body read
    generalize readSections header metadata.grantCount (min header.preferenceCount maxPreferences) body = records at *
    have fewKept : (kept palette.val records.history).length < 2 ^ 32 := (length_filterMap_le _ _).trans_lt short
    cases whole : records.whole with
    | true =>
      have room : (kept palette.val records.history).length + 1 < 2 ^ 64 := by omega
      rw [loadedWhole whole, saved, install]
      refine ⟨?_, max_lt small room, le_max_left _ _⟩
      intro entry inside
      dsimp only at inside
      have windowed := (mem_filter.mp inside).1
      obtain ⟨record, behind, found⟩ := mem_filterMap.mp windowed
      exact normalizeEntry_typed palette.property (readTyped record (mem_of_mem_drop behind)).1 found
    | false =>
      rw [loadedCut whole, saved]
      have total : totalOf palette.val records < 2 ^ 32 := by
        rw [totalOf]
        split_ifs
        · exact fewKept
        · decide
      have room : totalOf palette.val records + 1 < 2 ^ 64 := by omega
      exact ⟨fun _ inside => absurd inside not_mem_nil, max_lt small room, le_max_left _ _⟩

end Loads

section Steps

variable {host next : LogHost}

/-- The values in memory are in the range of their types. -/
structure LogHost.Typed (host : LogHost) : Prop where
  cache : ∀ entry ∈ host.data.history, entry.Typed
  nextMessageId : host.data.nextMessageId < 2 ^ 64

theorem fresh_typed : LogHost.fresh.Typed := ⟨fun _ inside => absurd inside not_mem_nil, by decide⟩

theorem Saves.typed (saves : Saves host next) (typed : host.Typed) : next.Typed where
  cache entry inside := typed.cache entry (saves.history inside)
  nextMessageId := by
    rw [saves.nextMessageId]
    exact typed.nextMessageId

variable {messageId index : Nat} (palette : HostPalette) (clock : Clock) {Entry : Type} {result : LogHost × Bool}

theorem storeEntry_room {cache : List Entry} (room : cache.length < historyCacheLimit) (entry : Entry) :
    storeEntry cache entry = (cache ++ [entry], none) := by
  cases cache with
  | nil => rfl
  | cons => rw [storeEntry, if_pos room]

theorem storeEntry_mem {cache : List Entry} {new entry : Entry} (inside : entry ∈ (storeEntry cache new).1) :
    entry ∈ cache ∨ entry = new := by
  cases cache with
  | nil => exact Or.inr (mem_singleton.mp inside)
  | cons evicted rest =>
    by_cases room : (evicted :: rest).length < historyCacheLimit
    · rw [storeEntry_room room] at inside
      exact (mem_append.mp inside).imp_right mem_singleton.mp
    · rw [storeEntry_full (not_lt.mp room)] at inside
      exact (mem_append.mp inside).imp (mem_cons_of_mem evicted) mem_singleton.mp

theorem appendLocked_typed {entry : ChatHistoryEntry} (typed : host.Typed) (new : entry.Typed) :
    (appendLocked clock entry host).Typed := by
  refine (saveLocked_saves none clock _).typed ⟨fun other inside => ?_, typed.nextMessageId⟩
  rcases storeEntry_mem inside with old | rfl
  · exact typed.cache other old
  · exact new

theorem cleanup_typed (now : Option Int) (typed : host.Typed) :
    ({ host with data := cleanupExpired now host.data } : LogHost).Typed := by
  rw [cleanupExpired_eq]
  exact ⟨fun entry inside => typed.cache entry (mem_filter.mp inside).1, typed.nextMessageId⟩

def olderRecords (start count : Nat) (rest : Bytes) : List (ChatHistoryEntry × Nat) :=
  (readUpTo (readHistoryEntry hostStateVersion) (min start count) rest).1.zipIdx

def isMessage (messageId : Nat) (entry : ChatHistoryEntry) : Bool := entry.isUserMessage && entry.messageId = messageId

inductive Reaction (clock : Clock) (messageId index : Nat) (host : LogHost) : LogHost → Prop where
  | ignored (absent : host.data.history.findIdx? (isMessage messageId) = none ∨ messageId = 0 ∨
      reactionKindCount ≤ index) : Reaction clock messageId index host host
  | cached {place : Nat} (valid : messageId ≠ 0 ∧ index < reactionKindCount)
      (found : host.data.history.findIdx? (isMessage messageId) = some place) :
      Reaction clock messageId index host
        (saveLocked none clock { host with
          data := { host.data with history := host.data.history.modify place (ChatHistoryEntry.react index) } })
  | stored {file rest : Bytes} {version count place : Nat} {entry : ChatHistoryEntry}
      (valid : messageId ≠ 0 ∧ index < reactionKindCount)
      (absent : host.data.history.findIdx? (isMessage messageId) = none) (present : host.stateFile = some file)
      (opened : streamOpen file = some (version, count, rest))
      (found : (olderRecords host.data.historyStartIndex count rest).find?
        (fun record => record.1.messageId = messageId) = some (entry, place))
      (named : entry.isUserMessage) :
      Reaction clock messageId index host
        { host with
          stateFile := some (overwrite file (historyOffset + structSize historyEntry * place)
            (writeHistoryEntry (entry.react index))) }

theorem reactOlder_cases {clock : Clock} (valid : messageId ≠ 0 ∧ index < reactionKindCount)
    (absent : host.data.history.findIdx? (isMessage messageId) = none)
    (reacted : reactOlder messageId index host = some result) : Reaction clock messageId index host result.1 := by
  have ignored : Reaction clock messageId index host host := .ignored (Or.inl absent)
  rw [reactOlder] at reacted
  cases present : host.stateFile with
  | none =>
    rw [present] at reacted
    cases reacted
    exact ignored
  | some file =>
    rw [present] at reacted
    dsimp only at reacted
    cases opened : streamOpen file with
    | none =>
      rw [opened] at reacted
      cases reacted
      exact ignored
    | some read =>
      obtain ⟨version, count, rest⟩ := read
      obtain ⟨rfl, _⟩ := streamOpen_front opened
      rw [opened] at reacted
      dsimp only at reacted
      rw [← olderRecords] at reacted
      cases found : (olderRecords host.data.historyStartIndex count rest).find?
          (fun record => record.1.messageId = messageId) with
      | none =>
        rw [found] at reacted
        cases reacted
        exact ignored
      | some record =>
        rw [found] at reacted
        dsimp only at reacted
        split_ifs at reacted with system first
        · cases reacted
          exact ignored
        · cases reacted
          exact .stored valid absent present opened found (Bool.not_eq_false _ ▸ system)

theorem applyReaction_cases {clock : Clock} (reacted : applyReaction clock messageId index host = some result) :
    Reaction clock messageId index host result.1 := by
  rw [applyReaction] at reacted
  by_cases invalid : messageId = 0 ∨ reactionKindCount ≤ index
  · rw [if_pos invalid] at reacted
    cases reacted
    exact .ignored (Or.inr invalid)
  · have valid : messageId ≠ 0 ∧ index < reactionKindCount := by
      obtain ⟨named, kind⟩ := not_or.mp invalid
      exact ⟨named, not_le.mp kind⟩
    rw [if_neg invalid] at reacted
    cases found : host.data.history.findIdx? (isMessage messageId) with
    | some place =>
      have same : host.data.history.findIdx? (fun entry => entry.isUserMessage && entry.messageId = messageId) =
        some place := found
      rw [same] at reacted
      cases reacted
      exact .cached valid found
    | none =>
      have same : host.data.history.findIdx? (fun entry => entry.isUserMessage && entry.messageId = messageId) =
        none := found
      rw [same] at reacted
      by_cases newest : host.data.historyStartIndex = 0
      · rw [if_pos newest] at reacted
        cases reacted
        exact .ignored (Or.inl found)
      · rw [if_neg newest] at reacted
        exact reactOlder_cases valid found reacted

theorem mem_modify {change : Entry → Entry} {entries : List Entry} {place : Nat} {entry : Entry}
    (inside : entry ∈ entries.modify place change) : entry ∈ entries ∨ ∃ old ∈ entries, entry = change old := by
  obtain ⟨position, found⟩ := mem_iff_getElem?.mp inside
  rw [getElem?_modify] at found
  obtain ⟨old, there, rfl⟩ := Option.map_eq_some_iff.mp found
  split_ifs
  · exact Or.inr ⟨old, mem_of_getElem? there, rfl⟩
  · exact Or.inl (mem_of_getElem? there)

theorem reaction_typed {clock : Clock} (reaction : Reaction clock messageId index host next) (typed : host.Typed) :
    next.Typed := by
  cases reaction with
  | ignored => exact typed
  | stored => exact ⟨typed.cache, typed.nextMessageId⟩
  | cached valid =>
    refine (saveLocked_saves none clock _).typed ⟨fun entry inside => ?_, typed.nextMessageId⟩
    rcases mem_modify inside with old | ⟨old, member, rfl⟩
    · exact typed.cache entry old
    · exact react_typed valid.2 (typed.cache old member)

theorem takeMessageId_small {next : Nat} (small : next < 2 ^ 64) (isUserMessage : Bool) :
    (takeMessageId isUserMessage next).1 < 2 ^ 64 ∧ (takeMessageId isUserMessage next).2 < 2 ^ 64 := by
  rw [takeMessageId]
  cases isUserMessage with
  | false => exact ⟨Nat.two_pow_pos 64, small⟩
  | true =>
    rw [if_pos rfl]
    constructor
    · split_ifs
      · decide
      · exact small
    · exact Nat.mod_lt _ (by decide)

theorem commitEntry_typed (clock : Clock) (entry : TypedEntry) (typed : host.Typed) :
    (commitEntry palette.val clock entry.val host).1.Typed := by
  rw [commitEntry]
  cases content : normalizeEntry palette.val (entry.val.stamped clock) with
  | none => exact typed
  | some normalized =>
    have whole := normalizeEntry_typed palette.property (stamped_typed clock entry.property) content
    obtain ⟨id, rest⟩ := takeMessageId_small typed.nextMessageId normalized.isUserMessage
    exact appendLocked_typed clock ⟨typed.cache, rest⟩ { whole with messageId := id }

theorem repliesCommitEntry_data (entry : ChatReplyEntry) (host : LogHost) :
    (repliesCommitEntry entry host).1.data = host.data := by
  rw [repliesCommitEntry]
  split_ifs
  · rfl
  · rfl
  · rfl

theorem deletionSource_cases (host : LogHost) :
    deletionSource host = host.data.history ∨ deletionSource host = fileHistory host.stateFile := by
  rw [deletionSource]
  cases opened : host.stateFile.bind streamOpen with
  | none => exact Or.inl rfl
  | some found =>
    obtain ⟨version, count, rest⟩ := found
    obtain ⟨file, _, read⟩ := Option.bind_eq_some_iff.mp opened
    obtain ⟨rfl, _⟩ := streamOpen_front read
    rw [fileHistory_opened opened]
    dsimp only
    split_ifs
    · exact Or.inr rfl
    · exact Or.inl rfl

theorem deletionSource_typed (typed : host.Typed) : ∀ entry ∈ deletionSource host, entry.Typed := by
  intro entry inside
  rcases deletionSource_cases host with same | same
  · rw [same] at inside
    exact typed.cache entry inside
  · rw [same] at inside
    exact (fileHistory_typed _ entry inside).1

def keptBy (first last : Nat) (host : LogHost) : List ChatHistoryEntry :=
  (deletionSource host).filter fun entry => !entry.inIdRange first last

def trimmedBy (first last : Nat) (host : LogHost) :
    LogHost := deleteReplies first last (host.rebuilt (keptBy first last host))

def Deletes (first last : Nat) (host : LogHost) : Prop :=
  0 < first ∧ first ≤ last ∧ ∃ entry ∈ deletionSource host, entry.inIdRange first last

/-- A deletion does nothing, or it rebuilds the history and saves it. -/
theorem deleteRange_cases (first last : Nat) (host : LogHost) :
    (¬ Deletes first last host ∧ deleteRange clock first last host = (host, ⟨0, 0, 0, 0⟩)) ∨
      (Deletes first last host ∧
        (deleteRange clock first last host).1 = saveLocked (some (keptBy first last host)) clock
        (trimmedBy first last host) ∧ (deleteRange clock first last host).2.removed ≠ 0 ∧
        (deleteRange clock first last host).2.repliesRemoved = host.replies.length -
          (trimmedBy first last host).replies.length) := by
  have empty : (deletionSource host).filter (fun entry => entry.inIdRange first last) = [] ↔
      ¬ ∃ entry ∈ deletionSource host, entry.inIdRange first last := by
    rw [filter_eq_nil_iff]
    push Not
    rfl
  rw [deleteRange]
  by_cases invalid : first = 0 ∨ last = 0 ∨ last < first ∨
      (deletionSource host).filter (fun entry => entry.inIdRange first last) = []
  · refine Or.inl ⟨?_, if_pos invalid⟩
    rintro ⟨positive, ordered, found⟩
    rcases invalid with zero | zero | reversed | none'
    · omega
    · omega
    · omega
    · exact empty.mp none' found
  · rw [if_neg invalid]
    obtain ⟨positive, _, ordered, some'⟩ : first ≠ 0 ∧ last ≠ 0 ∧ ¬ last < first ∧ _ := by
      simpa only [not_or] using invalid
    refine Or.inr ⟨⟨pos_of_ne_zero positive, not_lt.mp ordered, ?_⟩, rfl, ?_, rfl⟩
    · exact not_not.mp (mt empty.mpr some')
    · exact mt length_eq_zero_iff.mp some'

theorem deleteReplies_data (first last : Nat) (host : LogHost) : (deleteReplies first last host).data = host.data := by
  rw [deleteReplies]
  split_ifs
  · rfl
  · rfl

theorem messageIdAfter_small {next : Nat} (small : next < 2 ^ 64) (kept : List ChatHistoryEntry) :
    messageIdAfter next kept < 2 ^ 64 := by
  rw [messageIdAfter]
  split_ifs
  · decide
  · exact Nat.mod_lt _ (by decide)
  · exact small

theorem rebuilt_history (host : LogHost) (entries : List ChatHistoryEntry) :
    (host.rebuilt entries).data.history = entries.drop (entries.length - historyCacheLimit) := by
  rw [LogHost.rebuilt]

theorem rebuilt_replies (host : LogHost) (entries : List ChatHistoryEntry) :
    (host.rebuilt entries).replies = host.replies ∧ (host.rebuilt entries).nextReplyId = host.nextReplyId ∧
      (host.rebuilt entries).replyFile = host.replyFile := by
  rw [LogHost.rebuilt]
  exact ⟨rfl, rfl, rfl⟩

theorem rebuilt_next (host : LogHost) (entries : List ChatHistoryEntry) :
    (host.rebuilt entries).data.nextMessageId = messageIdAfter host.data.nextMessageId entries := rfl

theorem trimmedBy_typed (first last : Nat) (typed : host.Typed) : (trimmedBy first last host).Typed := by
  have data : (trimmedBy first last host).data = (host.rebuilt (keptBy first last host)).data :=
    deleteReplies_data _ _ _
  constructor
  · intro entry inside
    rw [data, rebuilt_history] at inside
    have member := mem_of_mem_drop inside
    exact deletionSource_typed typed entry (mem_filter.mp member).1
  · rw [data]
    exact messageIdAfter_small typed.nextMessageId _

theorem deleteRange_typed (first last : Nat) (typed : host.Typed) : (deleteRange clock first last host).1.Typed := by
  rcases deleteRange_cases clock first last host with ⟨_, same⟩ | ⟨_, saved, _⟩
  · rw [same]
    exact typed
  · rw [saved]
    exact (saveLocked_saves _ clock _).typed (trimmedBy_typed first last typed)

theorem restart_typed (clock : Clock) (host : LogHost) : (restart palette.val clock host).Typed := by
  rw [restart]
  cases present : (flushPending clock host).stateFile with
  | none => exact ⟨fresh_typed.cache, fresh_typed.nextMessageId⟩
  | some file =>
    obtain ⟨cache, next, _⟩ := load_typed palette clock.wall file
    exact ⟨cache, next⟩

/-- Every operation keeps the values in the range of their types. -/
theorem hostStep_typed {event : HostEvent} (taken : hostStep palette.val host event = some next)
    (typed : host.Typed) : next.Typed := by
  cases event with
  | log event =>
    cases event with
    | append clock entry =>
      cases taken
      exact appendLocked_typed clock typed entry.property
    | cleanup clock =>
      cases taken
      exact cleanup_typed clock.wall typed
    | react =>
      obtain ⟨result, reacted, rfl⟩ := Option.map_eq_some_iff.mp taken
      exact reaction_typed (applyReaction_cases reacted) typed
    | save clock =>
      cases taken
      exact (saveLocked_saves none clock host).typed typed
    | flush clock =>
      cases taken
      exact (flushPending_saves clock host).typed typed
  | commit clock entry =>
    cases taken
    exact commitEntry_typed palette clock entry typed
  | reply entry =>
    cases taken
    have data := repliesCommitEntry_data entry host
    exact ⟨data ▸ typed.cache, data ▸ typed.nextMessageId⟩
  | delete clock first last =>
    cases taken
    exact deleteRange_typed clock first last typed
  | restart clock =>
    cases taken
    exact restart_typed palette clock host

end Steps

end SshChatter.HostState
