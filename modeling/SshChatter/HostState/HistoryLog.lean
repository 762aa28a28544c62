import SshChatter.HostState.Archive

namespace SshChatter.HostState
open CString RecordLayout RecordStream

def maxReplies : Nat := 1024

/-- The fields of `chat_reply_entry_t` less `in_use`, which is set for every reply in front of `reply_count`. -/
structure ChatReplyEntry where
  replyId : Nat
  parentMessageId : Nat
  parentReplyId : Nat
  createdAt : Int
  username : Bytes
  message : Bytes
  deriving DecidableEq

structure ReplyFile where
  nextReplyId : Nat
  entries : List ChatReplyEntry

def loadReply (loaded : List ChatReplyEntry × Nat) (entry : ChatReplyEntry) : List ChatReplyEntry × Nat :=
  if maxReplies ≤ loaded.1.length then (loaded.1, max loaded.2 entry.replyId)
  else
    let id := if entry.replyId ≠ 0 then entry.replyId else loaded.1.length + 1
    (loaded.1 ++ [{ entry with replyId := id }], max loaded.2 id)

def raiseReplyId (next largest : Nat) : Nat :=
  if next ≤ largest then (if largest = 2 ^ 64 - 1 then 2 ^ 64 - 1 else largest + 1) else next

def replyStateLoad : Option ReplyFile → List ChatReplyEntry × Nat
  | none => ([], 1)
  | some file =>
    let loaded := file.entries.foldl loadReply ([], 0)
    let next := raiseReplyId (if file.nextReplyId ≠ 0 then file.nextReplyId else 1) loaded.2
    (loaded.1, if next = 0 then loaded.1.length + 1 else next)

/-- The parts of `host_t` that the history works with, the saved files, and the variables of the debounced save. -/
structure LogHost where
  data : HostData
  replies : List ChatReplyEntry
  nextReplyId : Nat
  stateFile : Option Bytes
  replyFile : Option ReplyFile
  savePending : Bool
  lastSave : Option Int
  /-- A save has reported that it could not write the state file. -/
  saveFailed : Bool

/-- The two clocks. The wall clock is a `time_t`, the monotonic one counts nanoseconds. -/
structure Clock where
  wall : Option Int
  monotonic : Option Int
  inRange : ∀ time ∈ wall, -2 ^ 63 ≤ time ∧ time < 2 ^ 63

def LogHost.fresh : LogHost where
  data := .fresh
  replies := []
  nextReplyId := 1
  stateFile := none
  replyFile := none
  savePending := false
  lastSave := none
  saveFailed := false

section Save

open PreferenceField

/-- What `host_state_save_force_locked` stores in a member of a preference record. -/
def serializedPreference (pref : UserPreference) : PreferenceField → Bytes
  | hasUserTheme => [flagByte pref.hasUserTheme]
  | hasSystemTheme => [flagByte pref.hasSystemTheme]
  | userIsBold => [flagByte pref.userIsBold]
  | systemIsBold => [flagByte pref.systemIsBold]
  | dailyYear => fixed 4 (pref.dailyYear % 2 ^ 32).toNat
  | dailyYday => fixed 4 (pref.dailyYday % 2 ^ 32).toNat
  | lastPollId => fixed 8 (pref.lastPollId % 2 ^ 64)
  | lastPollChoice => fixed 4 (pref.lastPollChoice % 2 ^ 32).toNat
  | hasBirthday => [flagByte pref.hasBirthday]
  | translationCaptionSpacing => fixed 1 (pref.translationCaptionSpacing % 2 ^ 8)
  | translationEnabled => [flagByte pref.translationMasterEnabled]
  | outputTranslationEnabled => [flagByte pref.outputTranslationEnabled]
  | inputTranslationEnabled => [flagByte pref.inputTranslationEnabled]
  | translationMasterExplicit => [flagByte pref.translationMasterExplicit]
  | reserved => List.replicate 2 0
  | breakingAlertsEnabled => [flagByte pref.breakingAlertsEnabled]
  | reserved2 => List.replicate 7 0
  | text => arrayOf (((slot entry text).map Slot.size).getD 0) (pref.texts text)

def writePreferenceEntry (pref : UserPreference) : Bytes :=
  let stores := entry.map fun member => Assign.put member.field (serializedPreference pref member.field)
  readRange (convert [] entry cleared stores cleared) 0 (structSize entry)

def stateBytes (count : Nat) (entries : List ChatHistoryEntry) (data : HostData) : Bytes :=
  (StateHeader.mk count data.preferences.length data.operatorGrants.length data.nextMessageId data.captchaEnabled
      data.geoLanguageEnabled).bytes ++
    ((entries.map writeHistoryEntry).flatten ++
      ((data.preferences.map writePreferenceEntry).flatten ++ (data.operatorGrants.map (arrayOf ipLen)).flatten))

def historyRetention : Int := 14 * 24 * 60 * 60

def retentionCutoff (now : Option Int) : Int :=
  match now with
  | none => 0
  | some now => if historyRetention < now then now - historyRetention else 0

def ChatHistoryEntry.isExpired (cutoff : Int) (entry : ChatHistoryEntry) : Bool :=
  0 < cutoff ∧ entry.createdAt ≠ 0 ∧ entry.createdAt < cutoff

/-- The entries that a save keeps. -/
def unexpired (cutoff : Int) (entries : List ChatHistoryEntry) : List ChatHistoryEntry :=
  entries.filter fun entry => !entry.isExpired cutoff

/-- The records of the present file that lie in front of the cache, and whether none of them is missing. -/
def readOlder (file : Option Bytes) (older : Nat) : List ChatHistoryEntry × Bool :=
  if older = 0 then ([], true)
  else match file.bind streamOpen with
    | none => ([], false)
    | some (version, count, rest) =>
      let records := readUpTo (readHistoryEntry version) (min older count) rest
      (records.1, records.2.isSome)

def LogHost.replaceFile (host : LogHost) (written : Bool) (count : Nat) (entries : List ChatHistoryEntry) : LogHost :=
  if written then { host with stateFile := some (stateBytes count entries host.data) }
  else { host with saveFailed := true }

/-- The history in memory after a save dropped what has expired. The start index follows the older records that are
kept, unless nothing expires. -/
def prunedData (cutoff : Int) (older : List ChatHistoryEntry) (data : HostData) : HostData :=
  let cache := unexpired cutoff data.history
  let start := if 0 < cutoff then (unexpired cutoff older).length else data.historyStartIndex
  { data with history := cache, historyStartIndex := start, historyTotal := start + cache.length }

def forceSave (clock : Clock) (host : LogHost) : LogHost :=
  let cutoff := retentionCutoff clock.wall
  let older := readOlder host.stateFile host.data.historyStartIndex
  let data := prunedData cutoff older.1 host.data
  { host with data := data }.replaceFile older.2 data.historyTotal (unexpired cutoff older.1 ++ data.history)

def forceSaveOverride (clock : Clock) (entries : List ChatHistoryEntry) (host : LogHost) : LogHost :=
  let written := unexpired (retentionCutoff clock.wall) entries
  { host with data := { host.data with historyStartIndex := 0, historyTotal := written.length } }.replaceFile
    true written.length written

def forceSaveWith (override : Option (List ChatHistoryEntry)) (clock : Clock) (host : LogHost) : LogHost :=
  match override with
  | none => forceSave clock host
  | some entries => forceSaveOverride clock entries host

def saveDebounce : Int := 2000000000

def LogHost.isDebounced (host : LogHost) (now : Int) : Bool := host.lastSave.any fun last => now - last < saveDebounce

def saveLocked (override : Option (List ChatHistoryEntry)) (clock : Clock) (host : LogHost) : LogHost :=
  match clock.monotonic with
  | none => { forceSaveWith override clock host with savePending := false }
  | some now =>
    if host.isDebounced now then { host with savePending := true }
    else { forceSaveWith override clock host with lastSave := some now, savePending := false }

def flushPending (clock : Clock) (host : LogHost) : LogHost :=
  if host.savePending then
    { forceSave clock host with savePending := false, lastSave := clock.monotonic.or host.lastSave }
  else host

end Save

def appendLocked (clock : Clock) (entry : ChatHistoryEntry) (host : LogHost) : LogHost :=
  let history := (storeEntry host.data.history entry).1
  let total := max (host.data.historyTotal + 1) history.length
  saveLocked none clock
    { host with
      data :=
        { host.data with history := history, historyTotal := total, historyStartIndex := total - history.length } }

def takeMessageId (isUserMessage : Bool) (next : Nat) : Nat × Nat :=
  if isUserMessage then
    let id := if next = 0 then 1 else next
    (id, (id + 1) % 2 ^ 64)
  else (0, next)

def ChatHistoryEntry.stamped (clock : Clock) (entry : ChatHistoryEntry) : ChatHistoryEntry :=
  if entry.createdAt = 0 then { entry with createdAt := clock.wall.getD 0 } else entry

def commitEntry (palette : Palette) (clock : Clock) (entry : ChatHistoryEntry) (host : LogHost) :
    LogHost × Option ChatHistoryEntry :=
  match normalizeEntry palette (entry.stamped clock) with
  | none => (host, none)
  | some entry =>
    let taken := takeMessageId entry.isUserMessage host.data.nextMessageId
    let stored := { entry with messageId := taken.1 }
    (appendLocked clock stored { host with data := { host.data with nextMessageId := taken.2 } }, some stored)

def repliesCommitEntry (entry : ChatReplyEntry) (host : LogHost) : LogHost × Option ChatReplyEntry :=
  if maxReplies ≤ host.replies.length then (host, none)
  else
    let id := if host.nextReplyId = 0 ∨ host.nextReplyId = 2 ^ 64 - 1 then host.replies.length + 1
      else host.nextReplyId
    let next := if id < 2 ^ 64 - 1 then id + 1 else id
    let stored := { entry with replyId := id }
    let replies := host.replies ++ [stored]
    ({ host with replies := replies, nextReplyId := next, replyFile := some ⟨next, replies⟩ }, some stored)

def reactionKindCount : Nat := 7

/-- One more reaction of a kind, unless its 32-bit count is at its end. -/
def ChatHistoryEntry.react (index : Nat) (entry : ChatHistoryEntry) : ChatHistoryEntry :=
  let count := unsigned ((entry.reactionCounts.drop (4 * index)).take 4)
  if count < 2 ^ 32 - 1 then
    { entry with reactionCounts := overwrite entry.reactionCounts (4 * index) (fixed 4 (count + 1)) }
  else entry

def historyOffset : Nat := 40

/-- The reaction to a record in front of the cache. There is no result where the source divides by the index zero. -/
def reactOlder (messageId index : Nat) (host : LogHost) : Option (LogHost × Bool) :=
  match host.stateFile with
  | none => some (host, false)
  | some file =>
    match streamOpen file with
    | none => some (host, false)
    | some (version, count, rest) =>
      let records := (readUpTo (readHistoryEntry version) (min host.data.historyStartIndex count) rest).1
      match records.zipIdx.find? fun record => record.1.messageId = messageId with
      | none => some (host, false)
      | some (entry, place) =>
        if entry.isUserMessage = false then some (host, false)
        else if place = 0 then none
        else
          let offset := historyOffset + structSize historyEntry * place
          some ({ host with stateFile := some (overwrite file offset (writeHistoryEntry (entry.react index))) }, true)

def applyReaction (clock : Clock) (messageId index : Nat) (host : LogHost) : Option (LogHost × Bool) :=
  if messageId = 0 ∨ reactionKindCount ≤ index then some (host, false)
  else match host.data.history.findIdx? fun entry => entry.isUserMessage && entry.messageId = messageId with
    | some place =>
      let history := host.data.history.modify place (ChatHistoryEntry.react index)
      some (saveLocked none clock { host with data := { host.data with history := history } }, true)
    | none => if host.data.historyStartIndex = 0 then some (host, false) else reactOlder messageId index host

def ChatHistoryEntry.inIdRange (first last : Nat) (entry : ChatHistoryEntry) : Bool :=
  entry.isUserMessage && (first ≤ entry.messageId && entry.messageId ≤ last)

def ChatReplyEntry.inIdRange (first last : Nat) (entry : ChatReplyEntry) : Bool :=
  first ≤ entry.parentMessageId && entry.parentMessageId ≤ last

def deletionSource (host : LogHost) : List ChatHistoryEntry :=
  match host.stateFile.bind streamOpen with
  | none => host.data.history
  | some (version, count, rest) =>
    let records := readUpTo (readHistoryEntry version) count rest
    if records.2.isSome then records.1 else host.data.history

def largestId (ids : List Nat) : Nat := ids.foldl max 0

def messageIdAfter (next : Nat) (kept : List ChatHistoryEntry) : Nat :=
  let largest := largestId (kept.map ChatHistoryEntry.messageId)
  if largest = 0 then 1 else if next ≤ largest then (largest + 1) % 2 ^ 64 else next

def replyIdAfter (next : Nat) (kept : List ChatReplyEntry) : Nat :=
  let largest := largestId (kept.map ChatReplyEntry.replyId)
  if largest = 0 then (if kept = [] then 1 else next) else raiseReplyId next largest

def deleteReplies (first last : Nat) (host : LogHost) : LogHost :=
  let kept := host.replies.filter fun reply => !reply.inIdRange first last
  if kept.length = host.replies.length then host
  else
    let next := replyIdAfter host.nextReplyId kept
    { host with replies := kept, nextReplyId := next, replyFile := some ⟨next, kept⟩ }

/-- The history after a deletion has entries. The cache takes the last ones. -/
def LogHost.rebuilt (host : LogHost) (entries : List ChatHistoryEntry) : LogHost :=
  let start := entries.length - historyCacheLimit
  { host with
    data := { host.data with
      history := entries.drop start
      historyStartIndex := start
      historyTotal := entries.length
      nextMessageId := messageIdAfter host.data.nextMessageId entries } }

/-- What `host_history_delete_range` reports. -/
structure Deletion where
  removed : Nat
  firstRemoved : Nat
  lastRemoved : Nat
  repliesRemoved : Nat

def deleteRange (clock : Clock) (first last : Nat) (host : LogHost) : LogHost × Deletion :=
  let source := deletionSource host
  let dropped := source.filter fun entry => entry.inIdRange first last
  if first = 0 ∨ last = 0 ∨ last < first ∨ dropped = [] then (host, ⟨0, 0, 0, 0⟩)
  else
    let kept := source.filter fun entry => !entry.inIdRange first last
    let ids := dropped.map ChatHistoryEntry.messageId
    let trimmed := deleteReplies first last (host.rebuilt kept)
    (saveLocked (some kept) clock trimmed,
      ⟨dropped.length, ids.foldl min (ids.headD 0), largestId ids, host.replies.length - trimmed.replies.length⟩)

/-- A shutdown and a new start: the pending save is completed, and the files are loaded. -/
def restart (palette : Palette) (clock : Clock) (host : LogHost) : LogHost :=
  let stopped := flushPending clock host
  let data := match stopped.stateFile with
    | none => HostData.fresh
    | some file => hostStateLoad palette clock.wall file .fresh
  let replies := replyStateLoad stopped.replyFile
  { stopped with
    data := data, replies := replies.1, nextReplyId := replies.2, savePending := false, lastSave := none }

/-- The operations on the history that leave the ids alone. -/
inductive LogEvent where
  | append (clock : Clock) (entry : TypedEntry)
  | cleanup (clock : Clock)
  | react (clock : Clock) (messageId index : Nat)
  | save (clock : Clock)
  | flush (clock : Clock)

def logStep (host : LogHost) : LogEvent → Option LogHost
  | .append clock entry => some (appendLocked clock entry.val host)
  | .cleanup clock => some { host with data := cleanupExpired clock.wall host.data }
  | .react clock messageId index => (applyReaction clock messageId index host).map Prod.fst
  | .save clock => some (saveLocked none clock host)
  | .flush clock => some (flushPending clock host)

/-- All operations on messages and replies. -/
inductive HostEvent where
  | log (event : LogEvent)
  | commit (clock : Clock) (entry : TypedEntry)
  | reply (entry : ChatReplyEntry)
  | delete (clock : Clock) (first last : Nat)
  | restart (clock : Clock)

def hostStep (palette : Palette) (host : LogHost) : HostEvent → Option LogHost
  | .log event => logStep host event
  | .commit clock entry => some (commitEntry palette clock entry.val host).1
  | .reply entry => some (repliesCommitEntry entry host).1
  | .delete clock first last => some (deleteRange clock first last host).1
  | .restart clock => some (restart palette clock host)

end SshChatter.HostState
