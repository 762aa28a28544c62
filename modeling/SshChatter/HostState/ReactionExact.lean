import SshChatter.HostState.MessageIds

namespace SshChatter.HostState
open CString RecordLayout RecordStream EventRun List

def ChatHistoryEntry.reactionCount (entry : ChatHistoryEntry) (kind : Nat) : Nat :=
  unsigned ((entry.reactionCounts.drop (4 * kind)).take 4)

/-- One count of an entry goes up by one or stays at its largest value, and nothing else of the entry changes. -/
structure CountsOne (index : Nat) (old new : ChatHistoryEntry) : Prop where
  others : new = { old with reactionCounts := new.reactionCounts }
  whole : new.reactionCounts.length = old.reactionCounts.length
  counted : ∀ kind < reactionKindCount, new.reactionCount kind =
    if kind = index then min (old.reactionCount kind + 1) (2 ^ 32 - 1) else old.reactionCount kind

def olderHistory (host : LogHost) : List ChatHistoryEntry :=
    (fileHistory host.stateFile).take host.data.historyStartIndex

def HoldsMessage (messageId : Nat) (host : LogHost) : Prop :=
  ∃ entry ∈ olderHistory host ++ host.data.history, isMessage messageId entry

def saveCutoff (clock : Clock) (host : LogHost) : Int :=
  if clock.monotonic.any host.isDebounced then 0 else retentionCutoff clock.wall

/-- What the debounced save does to a host: it drops what is past the retention, and the file stays or holds what is in
memory behind the older records. -/
structure OrdinarySave (clock : Clock) (host next : LogHost) : Prop where
  history : next.data.history = unexpired (saveCutoff clock host) host.data.history
  data : next.data = { host.data with
    history := next.data.history
    historyStartIndex := next.data.historyStartIndex
    historyTotal := next.data.historyTotal }
  replies : next.replies = host.replies ∧ next.nextReplyId = host.nextReplyId ∧ next.replyFile = host.replyFile
  file : next.stateFile = host.stateFile ∨ next.stateFile = some (stateBytes next.data.historyTotal
    (unexpired (saveCutoff clock host) (readOlder host.stateFile host.data.historyStartIndex).1 ++
      next.data.history) next.data)

def CountedInCache (clock : Clock) (messageId index : Nat) (host next : LogHost) : Prop :=
  ∃ place entry counted, host.data.history[place]? = some entry ∧ isMessage messageId entry ∧
    CountsOne index entry counted ∧
    OrdinarySave clock { host with data := { host.data with history := host.data.history.set place counted } } next

def recordOffset (place : Nat) : Nat := historyOffset + structSize historyEntry * place

def CountedInFile (messageId index : Nat) (host next : LogHost) : Prop :=
  ∃ file file' place entry counted, host.stateFile = some file ∧ next = { host with stateFile := some file' } ∧
    (olderHistory host)[place]? = some entry ∧ isMessage messageId entry ∧ CountsOne index entry counted ∧
    fileHistory (some file') = (fileHistory (some file)).set place counted ∧ file'.length = file.length ∧
    ∀ position, position < recordOffset place ∨ recordOffset (place + 1) ≤ position → file'[position]? = file[position]?

/-- A reaction to a message of the history succeeds and counts it once, in the cache or in the file. A reaction to any
other id fails and changes nothing. -/
structure ReactionExact (clock : Clock) (messageId index : Nat) (host : LogHost) : Prop where
  held : HoldsMessage messageId host → ∃ next, applyReaction clock messageId index host = some (next, true) ∧
    (CountedInCache clock messageId index host next ∨
      (∀ entry ∈ host.data.history, isMessage messageId entry = false) ∧ CountedInFile messageId index host next)
  absent : ¬ HoldsMessage messageId host → applyReaction clock messageId index host = some (host, false)

/-- The message is not in the history, or it is cached, or the first record with its id in front of the cache is a user
message and is not the first record of the file. No message has the id zero. -/
def ReactionServed (messageId : Nat) (host : LogHost) : Prop :=
  HoldsMessage messageId host → messageId ≠ 0 ∧ ((∃ entry ∈ host.data.history, isMessage messageId entry) ∨
    ∃ entry place, (olderHistory host).zipIdx.find? (fun record => record.1.messageId = messageId) =
      some (entry, place) ∧ entry.isUserMessage ∧ place ≠ 0)

section Bytes

variable {file bytes : Bytes} {offset : Nat}

theorem overwrite_length (fits : offset + bytes.length ≤ file.length) :
    (overwrite file offset bytes).length = file.length := by
  simp only [overwrite, length_append, length_take, length_drop]
  omega

theorem overwrite_outside (fits : offset + bytes.length ≤ file.length) {position : Nat}
    (outside : position < offset ∨ offset + bytes.length ≤ position) :
      (overwrite file offset bytes)[position]? = file[position]? := by
  have front : (file.take offset).length = offset := length_take_of_le (by omega)
  rcases outside with before | behind
  · rw [overwrite, getElem?_append_left (by omega), getElem?_take_of_lt before]
  · rw [overwrite, getElem?_append_right (by omega), getElem?_append_right (by omega), getElem?_drop]
    congr 1
    omega

/-- What is written is found at its place. -/
theorem overwrite_inside (fits : offset + bytes.length ≤ file.length) :
    ((overwrite file offset bytes).drop offset).take bytes.length = bytes := by
  have front : (file.take offset).length = offset := length_take_of_le (by omega)
  rw [overwrite, drop_left' front, take_left]

end Bytes

section Counts

variable {entry : ChatHistoryEntry} {index : Nat}

theorem react_room (room : entry.reactionCount index < 2 ^ 32 - 1) : entry.react index =
    { entry with
      reactionCounts := overwrite entry.reactionCounts (4 * index) (fixed 4 (entry.reactionCount index + 1)) } :=
  if_pos room

theorem react_full (full : ¬ entry.reactionCount index < 2 ^ 32 - 1) : entry.react index = entry := if_neg full

theorem react_countsOne (typed : entry.Typed) (kind : index < reactionKindCount) :
    CountsOne index entry (entry.react index) := by
  have size := typed.reactionCounts
  have seven : index < 7 := kind
  have small : entry.reactionCount index < 2 ^ 32 := unsigned_take_lt 4 _
  by_cases room : entry.reactionCount index < 2 ^ 32 - 1
  · have bytes : (fixed 4 (entry.reactionCount index + 1)).length = 4 := fixed_length 4 _
    have fits : 4 * index + (fixed 4 (entry.reactionCount index + 1)).length ≤ entry.reactionCounts.length := by omega
    rw [react_room room]
    refine ⟨rfl, overwrite_length fits, fun other inside => ?_⟩
    rw [ChatHistoryEntry.reactionCount]
    by_cases same : other = index
    · have word := overwrite_inside fits
      rw [bytes] at word
      rw [same, if_pos rfl, word, unsigned_fixed (by omega)]
      omega
    · rw [if_neg same]
      congr 1
      apply ext_getElem?
      intro position
      by_cases near : position < 4
      · rw [getElem?_take_of_lt near, getElem?_take_of_lt near, getElem?_drop, getElem?_drop]
        exact overwrite_outside fits (by omega)
      · have far : 4 ≤ position := not_lt.mp near
        rw [getElem?_eq_none ((length_take_le _ _).trans far), getElem?_eq_none ((length_take_le _ _).trans far)]
  · rw [react_full room]
    refine ⟨rfl, rfl, fun other _ => ?_⟩
    split_ifs with same
    · subst same
      omega
    · rfl

end Counts

section Saves

variable {clock : Clock} {host : LogHost}

theorem unexpired_zero {entries : List ChatHistoryEntry} : unexpired 0 entries = entries := by
  rw [unexpired, filter_eq_self]
  intro entry _
  simp [ChatHistoryEntry.isExpired]

/-- The debounced save drops what is past the retention, and it writes what is in memory or leaves the file alone. -/
theorem saveLocked_ordinary (clock : Clock) (host : LogHost) :
    OrdinarySave clock host (saveLocked none clock host) := by
  rcases saveLocked_cases none clock host with ⟨near, same⟩ | ⟨far, same⟩
  · have cutoff : saveCutoff clock host = 0 := if_pos near
    rw [same]
    refine ⟨?_, rfl, ⟨rfl, rfl, rfl⟩, .inl rfl⟩
    rw [cutoff, unexpired_zero]
  · have cutoff : saveCutoff clock host = retentionCutoff clock.wall := if_neg (by simp [far])
    rw [same]
    cases written : (readOlder host.stateFile host.data.historyStartIndex).2 with
    | true =>
      simp only [forceSaveWith, forceSave, written, cutoff.symm]
      exact ⟨rfl, rfl, ⟨rfl, rfl, rfl⟩, .inr rfl⟩
    | false =>
      simp only [forceSaveWith, forceSave, written, cutoff.symm]
      exact ⟨rfl, rfl, ⟨rfl, rfl, rfl⟩, .inl rfl⟩

end Saves

section Calls

variable {clock : Clock} {messageId index place : Nat} {host : LogHost} {entry : ChatHistoryEntry}

theorem olderRecords_eq {file rest : Bytes} {version count : Nat} (present : host.stateFile = some file)
    (opened : streamOpen file = some (version, count, rest)) :
    olderRecords host.data.historyStartIndex count rest = (olderHistory host).zipIdx := by
  have whole := @readUpTo_take _ _ (readHistoryEntry hostStateVersion) (min host.data.historyStartIndex count)
    (count - min host.data.historyStartIndex count) rest
  rw [Nat.add_sub_cancel' (min_le_right _ _)] at whole
  have most : (readUpTo (readHistoryEntry hostStateVersion) count rest).1.length ≤ count :=
    (readUpTo_length count rest).1
  rw [olderRecords, olderHistory, present, fileHistory_some opened, ← whole]
  rcases le_total host.data.historyStartIndex count with early | late
  · rw [min_eq_left early]
  · rw [min_eq_right late, take_of_length_le most, take_of_length_le (most.trans late)]

theorem find_cached (cached : ∃ entry ∈ host.data.history, isMessage messageId entry) :
    ∃ place entry, host.data.history.findIdx? (isMessage messageId) = some place ∧
      host.data.history[place]? = some entry ∧ isMessage messageId entry := by
  have found := findIdx?_eq_some_of_exists cached
  obtain ⟨inside, named, -⟩ := findIdx?_eq_some_iff_getElem.mp found
  exact ⟨_, _, found, getElem?_eq_getElem inside, named⟩

theorem applyReaction_cached (clock : Clock) (typed : host.Typed) (positive : messageId ≠ 0)
    (kind : index < reactionKindCount) (cached : ∃ entry ∈ host.data.history, isMessage messageId entry) :
    ∃ next, applyReaction clock messageId index host = some (next, true) ∧
      CountedInCache clock messageId index host next := by
  obtain ⟨place, entry, found, there, named⟩ := find_cached cached
  have found' : host.data.history.findIdx? (fun entry => entry.isUserMessage && entry.messageId = messageId) =
    some place :=
    found
  have counted : host.data.history.modify place (ChatHistoryEntry.react index) = host.data.history.set place
    (entry.react index) := by
    apply ext_getElem?
    intro position
    rw [getElem?_modify, getElem?_set]
    split_ifs with same inside
    · rw [← same, there]
      rfl
    · exact absurd (List.getElem?_eq_some_iff.mp there).1 inside
    · exact congrFun Option.map_id _
  rw [applyReaction, if_neg (not_or.mpr ⟨positive, not_le.mpr kind⟩), found']
  dsimp only
  rw [counted]
  exact ⟨_, rfl, place, entry, entry.react index, there, named,
    react_countsOne (typed.cache entry (mem_of_getElem? there)) kind, saveLocked_ordinary _ _⟩

/-- Without the message in the cache the records of the file are asked. -/
theorem applyReaction_older (clock : Clock) (positive : messageId ≠ 0) (kind : index < reactionKindCount)
    (absent : ¬ ∃ entry ∈ host.data.history, isMessage messageId entry) :
    applyReaction clock messageId index host =
      match (olderHistory host).zipIdx.find? fun record => record.1.messageId = messageId with
      | none => some (host, false)
      | some (entry, place) =>
        if entry.isUserMessage = false then some (host, false)
        else if place = 0 then none
        else some ({ host with
          stateFile := host.stateFile.map fun file => overwrite file (recordOffset place)
            (writeHistoryEntry (entry.react index)) },
          true) := by
  have missing : host.data.history.findIdx? (fun entry => entry.isUserMessage && entry.messageId = messageId) =
    none := by
    rw [findIdx?_eq_none_iff]
    intro entry member
    exact Bool.eq_false_iff.mpr fun named => absent ⟨entry, member, named⟩
  rw [applyReaction, if_neg (not_or.mpr ⟨positive, not_le.mpr kind⟩), missing]
  split_ifs with newest
  · rw [olderHistory, newest]
    rfl
  · rw [reactOlder]
    cases present : host.stateFile with
    | none =>
      rw [olderHistory, present, fileHistory_closed (Option.bind_none _), take_nil]
      rfl
    | some file =>
      dsimp only
      cases opened : streamOpen file with
      | none =>
        rw [olderHistory, present, fileHistory_closed (show (some file).bind streamOpen = none from opened), take_nil]
        rfl
      | some read =>
        obtain ⟨version, count, rest⟩ := read
        obtain ⟨rfl, -⟩ := streamOpen_front opened
        rw [← olderRecords_eq present opened]
        rfl

/-- A record that is read back stays a record that is read back when it is counted. -/
theorem react_reread (index : Nat) (reread : entry.reread = entry) :
    (entry.react index).reread = entry.react index := by
  obtain ⟨counts, same⟩ := react_eq index entry
  have field : ({ entry with reactionCounts := counts } : ChatHistoryEntry).reread =
      { entry.reread with reactionCounts := counts } := rfl
  rw [same, field, reread]

theorem recordOffset_fits {file : Bytes} (inside : place < (fileHistory (some file)).length) :
    ∃ version count rest, streamOpen file = some (version, count, rest) ∧ recordOffset (place + 1) ≤ file.length := by
  cases opened : streamOpen file with
  | none =>
    rw [fileHistory_closed (show (some file).bind streamOpen = none from opened)] at inside
    exact absurd inside (Nat.not_lt_zero place)
  | some read =>
    obtain ⟨version, count, rest⟩ := read
    refine ⟨version, count, rest, rfl, ?_⟩
    rw [fileHistory_some opened] at inside
    have room := readHistoryEntry_decodes.sized.readUpTo_room inside
    obtain ⟨-, front, -, -, whole, rfl, -⟩ := streamOpen_front opened
    rw [recordOffset, length_append, mul_comm]
    omega

/-- A reaction to an older message rewrites its record. -/
theorem countedInFile {file : Bytes} (kind : index < reactionKindCount) (present : host.stateFile = some file)
    (there : (olderHistory host)[place]? = some entry) (named : isMessage messageId entry) :
    CountedInFile messageId index host
      { host with stateFile := some (overwrite file (recordOffset place)
        (writeHistoryEntry (entry.react index))) } := by
  have record : (fileHistory (some file))[place]? = some entry := by
    rw [olderHistory, present, getElem?_take] at there
    exact (Option.ite_none_right_eq_some.mp there).2
  obtain ⟨typed, reread⟩ := fileHistory_typed (some file) entry (mem_of_getElem? record)
  have inside : place < (fileHistory (some file)).length := (List.getElem?_eq_some_iff.mp record).1
  obtain ⟨version, count, rest, opened, room⟩ := recordOffset_fits inside
  have stride : recordOffset (place + 1) = recordOffset place + (writeHistoryEntry (entry.react index)).length := by
    rw [writeHistoryEntry_length, recordOffset, recordOffset, Nat.mul_succ, add_assoc]
  rw [stride] at room
  refine ⟨file, _, place, entry, entry.react index, present, rfl, there, named, react_countsOne typed kind, ?_,
    overwrite_length room, fun position outside => overwrite_outside room ?_⟩
  · have patched := fileHistory_overwrite opened (react_typed kind typed) inside
    rw [react_reread index reread] at patched
    exact patched
  · rwa [stride] at outside

theorem find_older (found : (olderHistory host).zipIdx.find? (fun record => record.1.messageId = messageId) =
    some (entry, place)) :
    (olderHistory host)[place]? = some entry ∧ entry.messageId = messageId := by
  have member := mem_zipIdx_iff_getElem?.mp (mem_of_find?_eq_some found)
  exact ⟨member, by simpa using find?_some found⟩

/-- A message that is not cached is in front of the cache. -/
theorem holds_older (absent : ¬ ∃ entry ∈ host.data.history, isMessage messageId entry)
    (holds : HoldsMessage messageId host) : ∃ entry ∈ olderHistory host, isMessage messageId entry := by
  obtain ⟨entry, member, named⟩ := holds
  rcases mem_append.mp member with older | cached
  · exact ⟨entry, older, named⟩
  · exact absurd ⟨entry, cached, named⟩ absent

theorem isMessage_iff : isMessage messageId entry ↔ entry.isUserMessage ∧ entry.messageId = messageId := by
  rw [isMessage, Bool.and_eq_true, decide_eq_true_eq]

/-- What the call does to a message that is not cached, by the first record with its id in front of the cache. -/
theorem reactionExact_older (positive : messageId ≠ 0) (kind : index < reactionKindCount)
    (absent : ¬ ∃ entry ∈ host.data.history, isMessage messageId entry) :
    ReactionExact clock messageId index host ↔ ReactionServed messageId host := by
  have asked := applyReaction_older clock positive kind absent
  cases found : (olderHistory host).zipIdx.find? (fun record => record.1.messageId = messageId) with
  | none =>
    rw [found] at asked
    have missing : ¬ HoldsMessage messageId host := by
      intro holds
      obtain ⟨entry, member, named⟩ := holds_older absent holds
      obtain ⟨place, there⟩ := mem_iff_getElem?.mp member
      have other := find?_eq_none.mp found (entry, place) (mem_zipIdx_iff_getElem?.mpr there)
      exact other (by simpa using (isMessage_iff.mp named).2)
    exact iff_of_true ⟨fun holds => absurd holds missing, fun _ => asked⟩ fun holds => absurd holds missing
  | some record =>
    obtain ⟨entry, place⟩ := record
    obtain ⟨there, same⟩ := find_older found
    rw [found] at asked
    dsimp only at asked
    by_cases system : entry.isUserMessage = false
    · -- The loop stops at a record of the system, and the call fails.
      rw [if_pos system] at asked
      constructor
      · intro exact' holds
        obtain ⟨next, done, -⟩ := exact'.held holds
        rw [asked] at done
        cases done
      · intro served
        refine ⟨fun holds => ?_, fun _ => asked⟩
        rcases (served holds).2 with cached | ⟨entry', place', found', user, -⟩
        · exact absurd cached absent
        · rw [found] at found'
          obtain ⟨rfl, -⟩ := Prod.mk.inj (Option.some.inj found')
          rw [system] at user
          cases user
    · have user : entry.isUserMessage = true := Bool.eq_true_of_not_eq_false system
      have named : isMessage messageId entry := isMessage_iff.mpr ⟨user, same⟩
      have holds : HoldsMessage messageId host :=
        ⟨entry, mem_append_left _ (mem_of_getElem? there), named⟩
      rw [if_neg system] at asked
      by_cases first : place = 0
      · -- The first record of the file is the one that the source divides by.
        rw [if_pos first] at asked
        constructor
        · intro exact'
          obtain ⟨next, done, -⟩ := exact'.held holds
          rw [asked] at done
          cases done
        · intro served
          rcases (served holds).2 with cached | ⟨entry', place', found', -, behind⟩
          · exact absurd cached absent
          · rw [found] at found'
            obtain ⟨-, rfl⟩ := Prod.mk.inj (Option.some.inj found')
            exact absurd first behind
      · rw [if_neg first] at asked
        refine iff_of_true ⟨fun _ => ⟨_, asked, .inr ⟨?_, ?_⟩⟩, fun missing => absurd holds missing⟩
          fun _ => ⟨positive, .inr ⟨entry, place, found, user, first⟩⟩
        · exact fun other member => Bool.eq_false_iff.mpr fun named => absent ⟨other, member, named⟩
        · cases present : host.stateFile with
          | none =>
            rw [olderHistory, present, fileHistory_closed (Option.bind_none _), take_nil] at there
            cases there
          | some => exact countedInFile kind present there named

theorem reactionExact_iff (typed : host.Typed) (kind : index < reactionKindCount) :
    ReactionExact clock messageId index host ↔ ReactionServed messageId host := by
  by_cases zero : messageId = 0
  · have refused : applyReaction clock messageId index host = some (host, false) := by
      rw [applyReaction, if_pos (.inl zero)]
    constructor
    · intro exact' holds
      obtain ⟨next, done, -⟩ := exact'.held holds
      rw [refused] at done
      cases done
    · intro served
      exact ⟨fun holds => absurd zero (served holds).1, fun _ => refused⟩
  · by_cases cached : ∃ entry ∈ host.data.history, isMessage messageId entry
    · obtain ⟨next, done, counted⟩ := applyReaction_cached clock typed zero kind cached
      obtain ⟨entry, member, named⟩ := cached
      have holds : HoldsMessage messageId host := ⟨entry, mem_append_right _ member, named⟩
      exact iff_of_true ⟨fun _ => ⟨next, done, .inl counted⟩, fun missing => absurd holds missing⟩
        fun _ => ⟨zero, .inl ⟨entry, member, named⟩⟩
    · exact reactionExact_older zero kind cached

end Calls

section Runs

/-- In every state that a run of the host reaches, a call is exact precisely when its message is served. -/
theorem reaction_exact (palette : HostPalette) {host : LogHost}
    (reached : Reaches (hostStep palette.val) (fun _ _ => True) .fresh host) (clock : Clock) (messageId : Nat)
      {index : Nat}
    (kind : index < reactionKindCount) : ReactionExact clock messageId index host ↔ ReactionServed messageId host := by
  have typed : host.Typed :=
    reached.invariant fresh_typed fun _ _ _ held _ taken => hostStep_typed palette taken held
  exact reactionExact_iff typed kind

def namedEntry : ChatHistoryEntry := { postedEntry with rawUsername := str "bob" }

theorem namedEntry_typed : namedEntry.Typed := { postedEntry_typed with rawUsername := by decide +kernel }

/-- A host after a number of posts without clocks: the file has all messages, and the cache has the last ones. -/
structure PostedHost (count : Nat) (host : LogHost) (entries : List ChatHistoryEntry) : Prop where
  each : ∀ entry ∈ entries, entry.Typed ∧ entry.reread = entry ∧ entry.isUserMessage
  ids : entries.map ChatHistoryEntry.messageId = range' 1 count
  history : host.data.history = entries.drop (count - historyCacheLimit)
  total : host.data.historyTotal = count
  start : host.data.historyStartIndex = count - historyCacheLimit
  next : host.data.nextMessageId = count + 1
  file : count = 0 ∨ host.stateFile = some (stateBytes count entries host.data)

variable {count : Nat} {host : LogHost} {entries : List ChatHistoryEntry}

theorem PostedHost.length (posted : PostedHost count host entries) : entries.length = count := by
  have ids := congrArg List.length posted.ids
  simpa using ids

theorem PostedHost.fileHistory (posted : PostedHost count host entries) (few : count < 2 ^ 32) (some' : count ≠ 0) :
    fileHistory host.stateFile = entries := by
  have length := posted.length
  rw [posted.file.resolve_left some', ← length, fileHistory_stateBytes
    (fun entry member => (posted.each entry member).1) (by omega)]
  refine (map_congr_left fun entry member => ?_).trans (map_id _)
  exact (posted.each entry member).2.1

theorem storeEntry_last {Entry : Type} (entries : List Entry) (new : Entry) :
    (storeEntry (entries.drop (entries.length - historyCacheLimit)) new).1 =
      (entries ++ [new]).drop (entries.length + 1 - historyCacheLimit) := by
  have positive : 0 < historyCacheLimit := by decide
  by_cases room : entries.length < historyCacheLimit
  · have nothing : entries.length - historyCacheLimit = 0 ∧ entries.length + 1 - historyCacheLimit = 0 := by omega
    rw [nothing.1, nothing.2, drop_zero, drop_zero, storeEntry_room room]
  · have behind : entries.length + 1 - historyCacheLimit = entries.length - historyCacheLimit + 1 := by omega
    have inside : entries.length - historyCacheLimit < entries.length := by omega
    rw [behind, drop_append_of_le_length (by omega), drop_eq_getElem_cons inside, storeEntry_full]
    rw [← drop_eq_getElem_cons inside, length_drop]
    omega

theorem saveLocked_noClock (host : LogHost) {older : List ChatHistoryEntry}
    (read : readOlder host.stateFile host.data.historyStartIndex = (older, true))
    (total : host.data.historyStartIndex + host.data.history.length = host.data.historyTotal) :
    saveLocked none noClock host =
      { host with
        stateFile := some (stateBytes host.data.historyTotal (older ++ host.data.history) host.data)
        savePending := false } := by
  have data : prunedData 0 older host.data = host.data := by
    rw [prunedData, unexpired_zero, if_neg (by decide), total]
  rw [saveLocked]
  simp only [noClock, forceSaveWith, forceSave, retentionCutoff, read, data, unexpired_zero, LogHost.replaceFile,
    if_true]

theorem normalize_namedEntry : ∃ normalized, normalizeEntry plainPalette (namedEntry.stamped noClock) =
    some normalized ∧ normalized.Typed ∧ normalized.isUserMessage ∧ normalized.rawUsername ≠ [] := by
  have facts : (normalizeEntry plainPalette (namedEntry.stamped noClock)).any
      (fun entry => entry.isUserMessage && entry.rawUsername ≠ []) := by decide +kernel
  cases content : normalizeEntry plainPalette (namedEntry.stamped noClock) with
  | none =>
    rw [content] at facts
    cases facts
  | some normalized =>
    rw [content, Option.any_some, Bool.and_eq_true, decide_eq_true_eq] at facts
    exact ⟨normalized, rfl, normalizeEntry_typed plainPalette_plain (stamped_typed noClock namedEntry_typed) content,
      facts⟩

/-- A post is stored with the next id, and the whole history is saved. -/
theorem PostedHost.post (posted : PostedHost count host entries) (few : count < 2 ^ 31) :
    ∃ entry, PostedHost (count + 1) (commitEntry plainPalette noClock namedEntry host).1 (entries ++ [entry]) := by
  obtain ⟨normalized, content, typed, user, raw⟩ := normalize_namedEntry
  have length := posted.length
  have taken : takeMessageId normalized.isUserMessage host.data.nextMessageId = (count + 1, count + 2) := by
    rw [posted.next, user, takeMessageId_user (by omega) (by omega)]
  let stored : ChatHistoryEntry := { normalized with messageId := count + 1 }
  obtain ⟨start, startIs⟩ : ∃ start, start = count + 1 - historyCacheLimit := ⟨_, rfl⟩
  have cache : (storeEntry host.data.history stored).1 = (entries ++ [stored]).drop start := by
    rw [posted.history, startIs, ← length, storeEntry_last]
  have cacheLength : ((entries ++ [stored]).drop start).length = count + 1 - start := by
    rw [length_drop, length_append, length, length_singleton]
  let waiting : LogHost := { host with
    data := { host.data with
      nextMessageId := count + 2
      history := (entries ++ [stored]).drop start
      historyTotal := count + 1
      historyStartIndex := start } }
  have read : readOlder host.stateFile start = ((entries ++ [stored]).take start, true) := by
    by_cases none' : start = 0
    · rw [readOlder, if_pos none', none', take_zero]
    · have positive : 0 < historyCacheLimit := by decide
      have file := posted.fileHistory (by omega) (by omega)
      rw [readOlder_eq (by rw [file]; omega), file, take_append_of_le_length (by omega)]
  have committed : (commitEntry plainPalette noClock namedEntry host).1 = saveLocked none noClock waiting := by
    have most : max (host.data.historyTotal + 1) ((entries ++ [stored]).drop start).length = count + 1 := by
      rw [posted.total]
      omega
    have first : count + 1 - ((entries ++ [stored]).drop start).length = start := by omega
    rw [commitEntry, content]
    dsimp only
    rw [taken, appendLocked]
    rw [cache, most, first]
  have total : start + ((entries ++ [stored]).drop start).length = count + 1 := by omega
  have saved := saveLocked_noClock waiting read total
  rw [show (entries ++ [stored]).take start ++ waiting.data.history = entries ++ [stored] from take_append_drop _ _]
    at saved
  rw [committed, saved]
  refine ⟨stored, ?_, ?_, startIs ▸ rfl, rfl, startIs, rfl, .inr rfl⟩
  · intro entry member
    rcases mem_append.mp member with old | new
    · exact posted.each entry old
    · obtain rfl := mem_singleton.mp new
      refine ⟨{ typed with messageId := ?_ }, ?_, user⟩
      · change count + 1 < 2 ^ 64
        omega
      · rw [ChatHistoryEntry.reread, if_neg raw]
  · rw [map_append, posted.ids, range'_concat]
    simp [stored, add_comm]

theorem postedHost_reached (count : Nat) (few : count ≤ 2 ^ 31) : ∃ host entries,
    Reaches (hostStep plainPalette) (fun _ _ => True) .fresh host ∧ PostedHost count host entries := by
  induction count with
  | zero =>
    have nothing : 0 - historyCacheLimit = 0 := Nat.zero_sub _
    exact ⟨.fresh, [], .start, by simp, rfl, by rw [drop_nil]; rfl, rfl, nothing.symm, rfl, .inl rfl⟩
  | succ count ih =>
    obtain ⟨host, entries, reached, posted⟩ := ih (by omega)
    obtain ⟨entry, later⟩ := posted.post (by omega)
    have taken : hostStep plainPalette host (.commit noClock ⟨namedEntry, namedEntry_typed⟩) =
        some (commitEntry plainPalette noClock namedEntry host).1 := rfl
    exact ⟨_, _, .step reached trivial taken, later⟩

/-- When one message more was posted than the cache holds, a reaction to the first message divides by zero. -/
theorem reaction_divides : ∃ host, Reaches (hostStep plainPalette) (fun _ _ => True) .fresh host ∧ HoldsMessage 1 host ∧
    applyReaction noClock 1 0 host = none := by
  obtain ⟨host, entries, reached, posted⟩ := postedHost_reached (historyCacheLimit + 1) (by decide)
  have file := posted.fileHistory (by decide) (Nat.succ_ne_zero _)
  have ids := posted.ids
  have history := posted.history
  have start := posted.start
  have each := posted.each
  cases entries with
  | nil => cases ids
  | cons first =>
    obtain ⟨id, ids⟩ := cons.inj ids
    have older : olderHistory host = [first] := by rw [olderHistory, file, start]; rfl
    have user := (each first mem_cons_self).2.2
    have absent : ¬ ∃ entry ∈ host.data.history, isMessage 1 entry := by
      rintro ⟨entry, member, named⟩
      rw [history] at member
      have later : entry.messageId ∈ range' 2 historyCacheLimit := ids ▸ mem_map_of_mem member
      rw [(isMessage_iff.mp named).2] at later
      exact absurd (left_le_of_mem_range' later) (by decide)
    have first' : 0 < reactionKindCount := by decide
    have asked := applyReaction_older noClock one_ne_zero first' absent
    refine ⟨host, reached, ⟨first, ?_, isMessage_iff.mpr ⟨user, id⟩⟩, ?_⟩
    · rw [older]
      exact mem_cons_self
    · rw [asked, older]
      simp [id, user]

/-- When two messages more were posted than the cache holds, a reaction to the second one is exact, which only the file
has. -/
theorem reaction_exact_stored : ∃ host, Reaches (hostStep plainPalette) (fun _ _ => True) .fresh host ∧
    (∀ entry ∈ host.data.history, entry.messageId ≠ 2) ∧ HoldsMessage 2 host ∧ ReactionExact noClock 2 0 host := by
  obtain ⟨host, entries, reached, posted⟩ := postedHost_reached (historyCacheLimit + 2) (by decide)
  have file := posted.fileHistory (by decide) (Nat.succ_ne_zero _)
  have ids := posted.ids
  match entries with
  | [] => cases ids
  | [_] => exact absurd (congrArg length ids) (by simp)
  | first :: second :: rest =>
    rw [map_cons] at ids
    obtain ⟨one, ids⟩ := cons.inj ids
    obtain ⟨two, ids⟩ := cons.inj ids
    have older : olderHistory host = [first, second] := by rw [olderHistory, file, posted.start]; rfl
    have user := (posted.each second (by simp)).2.2
    have named : isMessage 2 second := isMessage_iff.mpr ⟨user, two⟩
    have absent : ∀ entry ∈ host.data.history, entry.messageId ≠ 2 := by
      intro entry member same
      rw [posted.history] at member
      have later : entry.messageId ∈ range' 3 historyCacheLimit := ids ▸ mem_map_of_mem member
      rw [same] at later
      exact absurd (left_le_of_mem_range' later) (by decide)
    have found : (olderHistory host).zipIdx.find? (fun record => record.1.messageId = 2) = some (second, 1) := by
      simp [older, one, two]
    have law := reaction_exact ⟨plainPalette, plainPalette_plain⟩ reached noClock 2
      (show 0 < reactionKindCount by decide)
    have held : HoldsMessage 2 host := ⟨second, by simp [older], named⟩
    exact ⟨host, reached, absent, held, law.mpr fun _ => ⟨by decide, .inr ⟨second, 1, found, user, by decide⟩⟩⟩

end Runs

end SshChatter.HostState
