import SshChatter.HostState.HistoryCache

namespace SshChatter.HostState
open CString RecordLayout RecordStream List

section Ledger

variable (palette : Palette)

def LeavesNoMessage (clock : Clock) (first last : Nat) (host : LogHost) : Prop :=
  (deleteRange clock first last host).2.removed ≠ 0 ∧
    ∀ entry ∈ deletionSource host, entry.inIdRange first last = false → entry.messageId = 0

def LeavesNoReply (clock : Clock) (first last : Nat) (host : LogHost) : Prop :=
  (deleteRange clock first last host).2.repliesRemoved ≠ 0 ∧ (deleteRange clock first last host).1.replies = []

instance (clock : Clock) (first last : Nat) (host : LogHost) : Decidable (LeavesNoMessage clock first last host) :=
  inferInstanceAs (Decidable (_ ∧ _))

instance (clock : Clock) (first last : Nat) (host : LogHost) : Decidable (LeavesNoReply clock first last host) :=
  inferInstanceAs (Decidable (_ ∧ _))

/-- The host with the ids that it gave, each time since the last deletion that left nothing with an id. -/
structure IdLedger where
  host : LogHost
  messageIds : List Nat
  replyIds : List Nat

def givenMessageId (stored : Option ChatHistoryEntry) : List Nat :=
  (stored.toList.filter ChatHistoryEntry.isUserMessage).map ChatHistoryEntry.messageId

def IdLedger.messageIdsAfter (ledger : IdLedger) : HostEvent → List Nat
  | .commit clock entry => ledger.messageIds ++ givenMessageId (commitEntry palette clock entry.val ledger.host).2
  | .delete clock first last => if LeavesNoMessage clock first last ledger.host then [] else ledger.messageIds
  | _ => ledger.messageIds

def IdLedger.replyIdsAfter (ledger : IdLedger) : HostEvent → List Nat
  | .reply entry => ledger.replyIds ++ (repliesCommitEntry entry ledger.host).2.toList.map ChatReplyEntry.replyId
  | .delete clock first last => if LeavesNoReply clock first last ledger.host then [] else ledger.replyIds
  | _ => ledger.replyIds

def IdLedger.step (ledger : IdLedger) (event : HostEvent) : Option IdLedger :=
  (hostStep palette ledger.host event).map fun host =>
    ⟨host, ledger.messageIdsAfter palette event, ledger.replyIdsAfter event⟩

/-- No save has failed, and the counters are below the last 64-bit number. -/
structure Orderly (host : LogHost) : Prop where
  written : host.saveFailed = false
  messageId : 0 < host.data.nextMessageId ∧ host.data.nextMessageId < 2 ^ 64 - 1
  replyId : host.nextReplyId < 2 ^ 64 - 1

structure Below (next : Nat) (ids : List Nat) : Prop where
  positive : 0 < next
  distinct : ids.Nodup
  named : ∀ id ∈ ids, id ≠ 0 ∧ id < next

def savedReplyId (file : Option ReplyFile) : Nat := (file.map ReplyFile.nextReplyId).getD 1

/-- The counters are above the given ids, in memory and in the files that the next start loads. -/
structure IdsHeld (ledger : IdLedger) : Prop where
  messages : Below ledger.host.data.nextMessageId ledger.messageIds
  savedMessages : ledger.host.savePending = false → Below (savedMessageId ledger.host.stateFile) ledger.messageIds
  replies : Below ledger.host.nextReplyId ledger.replyIds
  savedReplies : Below (savedReplyId ledger.host.replyFile) ledger.replyIds

end Ledger

section Counters

variable {next : Nat} {ids : List Nat}

theorem Below.nil (positive : 0 < next) :
    Below next [] := ⟨positive, nodup_nil, fun _ inside => absurd inside not_mem_nil⟩

theorem Below.raise {higher : Nat} (below : Below next ids) (raised : next ≤ higher) : Below higher ids where
  positive := lt_of_lt_of_le below.positive raised
  distinct := below.distinct
  named id given := ⟨(below.named id given).1, lt_of_lt_of_le (below.named id given).2 raised⟩

theorem Below.give (below : Below next ids) : Below (next + 1) (ids ++ [next]) where
  positive := Nat.succ_pos next
  distinct := by
    rw [nodup_append]
    refine ⟨below.distinct, nodup_singleton next, ?_⟩
    intro id given other single
    rw [mem_singleton] at single
    have lower := (below.named id given).2
    omega
  named := by
    intro id given
    rcases mem_append.mp given with before | single
    · have old := below.named id before
      exact ⟨old.1, by omega⟩
    · rw [mem_singleton] at single
      have positive := below.positive
      exact ⟨by omega, by omega⟩

theorem foldl_max_le {ids : List Nat} {start bound : Nat} (low : start ≤ bound) (each : ∀ id ∈ ids, id ≤ bound) :
    ids.foldl max start ≤ bound := by
  induction ids generalizing start with
  | nil => exact low
  | cons id ids ih =>
    apply ih
    · exact max_le low (each id mem_cons_self)
    · exact fun other inside => each other (mem_cons_of_mem _ inside)

theorem le_foldl_max {ids : List Nat} {start : Nat} : start ≤ ids.foldl max start := by
  induction ids generalizing start with
  | nil => exact le_refl start
  | cons id ids ih => exact (le_max_left start id).trans ih

theorem largestId_eq_zero {ids : List Nat} : largestId ids = 0 ↔ ∀ id ∈ ids, id = 0 := by
  constructor
  · induction ids with
    | nil => exact fun _ _ inside => absurd inside not_mem_nil
    | cons id ids ih =>
      intro zero
      have first : max 0 id ≤ largestId (id :: ids) := le_foldl_max
      have here : id = 0 := by
        rw [zero] at first
        exact Nat.le_zero.mp first
      intro other inside
      rcases mem_cons.mp inside with rfl | later
      · exact here
      · refine ih ?_ other later
        rw [← zero, largestId, largestId, foldl_cons, here, Nat.max_self]
  · intro each
    exact Nat.le_zero.mp (foldl_max_le (le_refl 0) fun id inside => (each id inside).le)

theorem le_raiseReplyId (next largest : Nat) : next ≤ raiseReplyId next largest := by
  rw [raiseReplyId]
  split_ifs with low last
  · omega
  · omega
  · exact le_refl next

end Counters

section Steps

variable {host next : LogHost} {messageIds replyIds : List Nat}

/-- A save that is made or put off keeps the counters above the given ids. -/
theorem held_saved (saves : Saves host next) (small : host.data.nextMessageId < 2 ^ 64)
    (file : next.savePending = false → savedMessageId next.stateFile = host.data.nextMessageId % 2 ^ 64)
    (messages : Below host.data.nextMessageId messageIds) (replies : Below host.nextReplyId replyIds)
    (savedReplies : Below (savedReplyId host.replyFile) replyIds) : IdsHeld ⟨next, messageIds, replyIds⟩ where
  messages := by
    rw [saves.nextMessageId]
    exact messages
  savedMessages complete := by
    rw [file complete, Nat.mod_eq_of_lt small]
    exact messages
  replies := by
    rw [saves.nextReplyId]
    exact replies
  savedReplies := by
    rw [saves.replyFile]
    exact savedReplies

theorem held_flush (clock : Clock) (held : IdsHeld ⟨host, messageIds, replyIds⟩) (typed : host.Typed)
    (written : (flushPending clock host).saveFailed = false) :
    IdsHeld ⟨flushPending clock host, messageIds, replyIds⟩ := by
  cases pending : host.savePending with
  | false =>
    rw [flushPending_idle clock host pending]
    exact held
  | true =>
    exact held_saved (flushPending_saves clock host) typed.nextMessageId
      (fun _ => flushPending_file clock host written pending) held.messages held.replies held.savedReplies

theorem held_save (override : Option (List ChatHistoryEntry)) (clock : Clock) (typed : host.Typed)
    (written : (saveLocked override clock host).saveFailed = false)
    (messages : Below host.data.nextMessageId messageIds) (replies : Below host.nextReplyId replyIds)
    (savedReplies : Below (savedReplyId host.replyFile) replyIds) :
    IdsHeld ⟨saveLocked override clock host, messageIds, replyIds⟩ :=
  held_saved (saveLocked_saves override clock host) typed.nextMessageId
    (fun complete => saveLocked_file override clock host written complete) messages replies savedReplies

theorem held_reaction {clock : Clock} {messageId index : Nat} (reaction : Reaction clock messageId index host next)
    (held : IdsHeld ⟨host, messageIds, replyIds⟩) (typed : host.Typed) (written : next.saveFailed = false) :
    IdsHeld ⟨next, messageIds, replyIds⟩ := by
  have saves := fun host' => saveLocked_saves none clock host'
  cases reaction with
  | ignored => exact held
  | cached =>
    exact held_saved (saves _) typed.nextMessageId
      (fun complete => saveLocked_file none clock _ written complete) held.messages held.replies held.savedReplies
  | stored valid absent present opened =>
    refine ⟨held.messages, fun complete => ?_, held.replies, held.savedReplies⟩
    have before := held.savedMessages complete
    rw [present] at before
    rw [savedMessageId_overwrite opened]
    exact before

theorem givenMessageId_eq (entry : ChatHistoryEntry) (id : Nat) :
    givenMessageId (some { entry with messageId := id }) = if entry.isUserMessage then [id] else [] := by
  cases user : entry.isUserMessage with
  | false =>
    rfl
  | true =>
    rfl

theorem takeMessageId_user {id : Nat} (positive : id ≠ 0) (small : id + 1 < 2 ^ 64) :
    takeMessageId true id = (id, id + 1) := by
  have room : (id + 1) % 2 ^ 64 = id + 1 := Nat.mod_eq_of_lt small
  simp only [takeMessageId, if_true, if_neg positive, room]

variable (palette : HostPalette) {left : Prop}

theorem held_commit (clock : Clock) (entry : TypedEntry) (held : IdsHeld ⟨host, messageIds, replyIds⟩)
    (typed : host.Typed) (before : Orderly host)
    (written : (commitEntry palette.val clock entry.val host).1.saveFailed = false) :
    IdsHeld ⟨(commitEntry palette.val clock entry.val host).1,
      messageIds ++ givenMessageId (commitEntry palette.val clock entry.val host).2, replyIds⟩ := by
  have positive : host.data.nextMessageId ≠ 0 := ne_of_gt before.messageId.1
  have small : host.data.nextMessageId + 1 < 2 ^ 64 := by
    have low := before.messageId.2
    omega
  have saves := fun host' => saveLocked_saves none clock host'
  rw [commitEntry] at written ⊢
  cases content : normalizeEntry palette.val (entry.val.stamped clock) with
  | none =>
    rw [givenMessageId, Option.toList_none, filter_nil, map_nil, append_nil]
    exact held
  | some normalized =>
    rw [content] at written
    dsimp only at written ⊢
    rw [givenMessageId_eq]
    cases user : normalized.isUserMessage with
    | false =>
      rw [user] at written
      rw [if_neg Bool.false_ne_true, append_nil]
      exact held_saved (saves _) typed.nextMessageId (fun complete => saveLocked_file none clock _ written complete)
        held.messages held.replies held.savedReplies
    | true =>
      have taken : takeMessageId true host.data.nextMessageId =
          (host.data.nextMessageId, host.data.nextMessageId + 1) := takeMessageId_user positive small
      rw [user, taken] at written
      rw [taken]
      exact held_saved (saves _) small (fun complete => saveLocked_file none clock _ written complete)
        held.messages.give held.replies held.savedReplies

theorem held_reply (entry : ChatReplyEntry) (held : IdsHeld ⟨host, messageIds, replyIds⟩) (before : Orderly host) :
    IdsHeld ⟨(repliesCommitEntry entry host).1, messageIds,
      replyIds ++ (repliesCommitEntry entry host).2.toList.map ChatReplyEntry.replyId⟩ := by
  have low := before.replyId
  have positive : 0 < host.nextReplyId := held.replies.positive
  rw [repliesCommitEntry]
  by_cases full : maxReplies ≤ host.replies.length
  · rw [if_pos full, Option.toList_none, map_nil, append_nil]
    exact held
  · have plain : ¬ (host.nextReplyId = 0 ∨ host.nextReplyId = 2 ^ 64 - 1) := by omega
    rw [if_neg full]
    simp only [if_neg plain, if_pos low]
    exact ⟨held.messages, held.savedMessages, held.replies.give, held.replies.give⟩

theorem below_messageIdAfter {kept : List ChatHistoryEntry} {nextId : Nat} [Decidable left]
    (leaves : left ↔ ∀ entry ∈ kept, entry.messageId = 0) (typed : ∀ entry ∈ kept, entry.Typed)
    (unwrapped : 0 < messageIdAfter nextId kept) (below : Below nextId messageIds) :
    Below (messageIdAfter nextId kept) (if left then [] else messageIds) := by
  have largest : largestId (kept.map ChatHistoryEntry.messageId) < 2 ^ 64 := by
    have bound : largestId (kept.map ChatHistoryEntry.messageId) ≤ 2 ^ 64 - 1 := by
      apply foldl_max_le (Nat.zero_le _)
      intro id inside
      obtain ⟨entry, member, rfl⟩ := mem_map.mp inside
      have small := (typed entry member).messageId
      omega
    omega
  have zero : largestId (kept.map ChatHistoryEntry.messageId) = 0 ↔ left := by
    rw [largestId_eq_zero, leaves, forall_mem_map]
  by_cases none' : left
  · rw [if_pos none', messageIdAfter, if_pos (zero.mpr none')]
    exact Below.nil Nat.one_pos
  · rw [messageIdAfter, if_neg (mt zero.mp none')] at unwrapped ⊢
    split_ifs at unwrapped ⊢ with low
    · refine below.raise ?_
      omega
    · exact below

theorem below_replyIdAfter {kept : List ChatReplyEntry} {nextId : Nat} [Decidable left] (leaves : left ↔ kept = [])
    (below : Below nextId replyIds) :
    Below (replyIdAfter nextId kept) (if left then [] else replyIds) := by
  rw [replyIdAfter]
  by_cases none' : left
  · obtain rfl := leaves.mp none'
    rw [if_pos none']
    exact Below.nil Nat.one_pos
  · rw [if_neg (mt leaves.mpr none')]
    split_ifs
    · exact below
    · exact below.raise (le_raiseReplyId _ _)

theorem below_deleteReplies {first last : Nat} [Decidable left]
    (leaves : left ↔ host.replies.length - (deleteReplies first last host).replies.length ≠ 0 ∧
      (deleteReplies first last host).replies = [])
    (below : Below host.nextReplyId replyIds) (saved : Below (savedReplyId host.replyFile) replyIds) :
    Below (deleteReplies first last host).nextReplyId (if left then [] else replyIds) ∧
      Below (savedReplyId (deleteReplies first last host).replyFile) (if left then [] else replyIds) := by
  rw [deleteReplies] at leaves ⊢
  by_cases all : (host.replies.filter fun reply => !reply.inIdRange first last).length = host.replies.length
  · rw [if_pos all, Nat.sub_self] at leaves
    rw [if_pos all, if_neg fun here => (leaves.mp here).1 rfl]
    exact ⟨below, saved⟩
  · rw [if_neg all] at leaves ⊢
    have short := length_filter_le (fun reply : ChatReplyEntry => !reply.inIdRange first last) host.replies
    have only : left ↔ (host.replies.filter fun reply => !reply.inIdRange first last) = [] :=
      leaves.trans (and_iff_right (by dsimp only; omega))
    have raised := below_replyIdAfter only below
    exact ⟨raised, raised⟩

/-- The counters after a deletion, with the ids that are still taken. -/
theorem held_delete (clock : Clock) (first last : Nat) (held : IdsHeld ⟨host, messageIds, replyIds⟩)
    (typed : host.Typed) (after : Orderly (deleteRange clock first last host).1) :
    IdsHeld ⟨(deleteRange clock first last host).1,
      if LeavesNoMessage clock first last host then [] else messageIds,
      if LeavesNoReply clock first last host then [] else replyIds⟩ := by
  rcases deleteRange_cases clock first last host with ⟨_, same⟩ | ⟨_, saved, removed, repliesRemoved⟩
  · have messages : ¬ LeavesNoMessage clock first last host := fun left => left.1 (by rw [same])
    have replies : ¬ LeavesNoReply clock first last host := fun left => left.1 (by rw [same])
    rw [if_neg messages, if_neg replies, same]
    exact held
  · have saves := saveLocked_saves (some (keptBy first last host)) clock (trimmedBy first last host)
    have data : (trimmedBy first last host).data = (host.rebuilt (keptBy first last host)).data :=
      deleteReplies_data _ _ _
    have next : (trimmedBy first last host).data.nextMessageId =
        messageIdAfter host.data.nextMessageId (keptBy first last host) := by rw [data, rebuilt_next]
    have leavesMessage : LeavesNoMessage clock first last host ↔
        ∀ entry ∈ keptBy first last host, entry.messageId = 0 := by
      simp only [LeavesNoMessage, removed, ne_eq, not_false_eq_true, true_and, keptBy, mem_filter,
        Bool.not_eq_true', and_imp]
    have keptTyped : ∀ entry ∈ keptBy first last host, entry.Typed := fun entry inside =>
      deletionSource_typed typed entry (mem_filter.mp inside).1
    obtain ⟨sameReplies, sameNext, sameFile⟩ := rebuilt_replies host (keptBy first last host)
    have leavesReply : LeavesNoReply clock first last host ↔
        (host.rebuilt (keptBy first last host)).replies.length - (trimmedBy first last host).replies.length ≠ 0 ∧
          (trimmedBy first last host).replies = [] := by
      rw [LeavesNoReply, repliesRemoved, saved, saves.replies, sameReplies]
    have before : Below (host.rebuilt (keptBy first last host)).nextReplyId replyIds := by
      rw [sameNext]
      exact held.replies
    have savedBefore : Below (savedReplyId (host.rebuilt (keptBy first last host)).replyFile) replyIds := by
      rw [sameFile]
      exact held.savedReplies
    have replies := below_deleteReplies leavesReply before savedBefore
    rw [saved] at after ⊢
    have unwrapped := after.messageId.1
    rw [saves.nextMessageId, next] at unwrapped
    refine held_save _ clock (trimmedBy_typed first last typed) after.written ?_ replies.1 replies.2
    rw [next]
    exact below_messageIdAfter leavesMessage keptTyped unwrapped held.messages

theorem deleteReplies_restarts {first last : Nat}
    (some' : host.replies.length - (deleteReplies first last host).replies.length ≠ 0)
    (none' : (deleteReplies first last host).replies = []) : (deleteReplies first last host).nextReplyId = 1 := by
  rw [deleteReplies] at some' none' ⊢
  split_ifs at some' none' ⊢ with all
  · exact absurd (Nat.sub_self _) some'
  · dsimp only at none' ⊢
    rw [none']
    rfl

/-- A deletion that leaves no id, or no reply, starts the numbers at one again. -/
theorem deleteRange_restarts (clock : Clock) (first last : Nat) (host : LogHost) :
    (LeavesNoMessage clock first last host → (deleteRange clock first last host).1.data.nextMessageId = 1) ∧
    (LeavesNoReply clock first last host → (deleteRange clock first last host).1.nextReplyId = 1) := by
  rcases deleteRange_cases clock first last host with ⟨_, same⟩ | ⟨_, saved, _, repliesRemoved⟩
  · exact ⟨fun left => absurd (by rw [same]) left.1, fun left => absurd (by rw [same]) left.1⟩
  · have saves := saveLocked_saves (some (keptBy first last host)) clock (trimmedBy first last host)
    refine ⟨fun left => ?_, fun left => ?_⟩
    · have data : (trimmedBy first last host).data = (host.rebuilt (keptBy first last host)).data :=
        deleteReplies_data _ _ _
      have zero : largestId ((keptBy first last host).map ChatHistoryEntry.messageId) = 0 := by
        rw [largestId_eq_zero, forall_mem_map]
        intro entry kept
        obtain ⟨inside, outside⟩ := mem_filter.mp kept
        exact left.2 entry inside (by simpa using outside)
      rw [saved, saves.nextMessageId, data, rebuilt_next, messageIdAfter, if_pos zero]
    · obtain ⟨some', none'⟩ := left
      obtain ⟨sameReplies, -⟩ := rebuilt_replies host (keptBy first last host)
      rw [saved, saves.replies] at none'
      rw [repliesRemoved, ← sameReplies] at some'
      rw [saved, saves.nextReplyId]
      exact deleteReplies_restarts some' none'

theorem le_replyStateLoad {file : Option ReplyFile} (positive : 0 < savedReplyId file) :
    savedReplyId file ≤ (replyStateLoad file).2 := by
  cases file with
  | none => exact le_refl 1
  | some file =>
    have named : file.nextReplyId ≠ 0 := ne_of_gt positive
    have raised := le_raiseReplyId file.nextReplyId (file.entries.foldl loadReply ([], 0)).2
    have kept : raiseReplyId file.nextReplyId (file.entries.foldl loadReply ([], 0)).2 ≠ 0 :=
      ne_of_gt (lt_of_lt_of_le positive raised)
    simp only [replyStateLoad, if_pos named, if_neg kept]
    exact raised

theorem held_restart (clock : Clock) (held : IdsHeld ⟨host, messageIds, replyIds⟩) (typed : host.Typed)
    (written : (restart palette.val clock host).saveFailed = false) :
    IdsHeld ⟨restart palette.val clock host, messageIds, replyIds⟩ := by
  have stopped := held_flush clock held typed written
  have saved := stopped.savedMessages (flushPending_complete clock host)
  have loaded : Below (restart palette.val clock host).data.nextMessageId messageIds := by
    rw [restart]
    cases present : (flushPending clock host).stateFile with
    | none =>
      rw [present] at saved
      exact saved
    | some file =>
      rw [present] at saved
      exact saved.raise (load_typed palette clock.wall file).2.2
  exact ⟨loaded, fun _ => saved, stopped.savedReplies.raise (le_replyStateLoad stopped.savedReplies.positive),
    stopped.savedReplies⟩

/-- Every operation keeps the counters above the ids, as long as they are below the last number and no save fails. -/
theorem held_step {ledger after : IdLedger} {event : HostEvent} (taken : ledger.step palette.val event = some after)
    (typed : ledger.host.Typed) (before : Orderly ledger.host) (orderly : Orderly after.host)
    (held : IdsHeld ledger) : IdsHeld after := by
  obtain ⟨next, stepped, rfl⟩ := Option.map_eq_some_iff.mp taken
  cases event with
  | log event =>
    cases event with
    | append clock =>
      cases stepped
      exact held_saved (saveLocked_saves none clock _) typed.nextMessageId
        (fun complete => saveLocked_file none clock _ orderly.written complete) held.messages held.replies
        held.savedReplies
    | cleanup clock =>
      cases stepped
      have same : (cleanupExpired clock.wall ledger.host.data).nextMessageId = ledger.host.data.nextMessageId := by
        rw [cleanupExpired_eq]
      exact ⟨same.symm ▸ held.messages, held.savedMessages, held.replies, held.savedReplies⟩
    | react =>
      obtain ⟨result, reacted, rfl⟩ := Option.map_eq_some_iff.mp stepped
      exact held_reaction (applyReaction_cases reacted) held typed orderly.written
    | save clock =>
      cases stepped
      exact held_save none clock typed orderly.written held.messages held.replies held.savedReplies
    | flush clock =>
      cases stepped
      exact held_flush clock held typed orderly.written
  | commit clock entry =>
    cases stepped
    exact held_commit palette clock entry held typed before orderly.written
  | reply entry =>
    cases stepped
    exact held_reply entry held before
  | delete clock first last =>
    cases stepped
    exact held_delete clock first last held typed orderly
  | restart clock =>
    cases stepped
    exact held_restart palette clock held typed orderly.written

end Steps

section Uniqueness

open EventRun

def IdLedger.fresh : IdLedger := ⟨.fresh, [], []⟩

/-- The ids that were given since nothing with an id was left differ from each other and from zero, and the counters are
above them. -/
def IdsUnique (ledger : IdLedger) : Prop :=
  Below ledger.host.data.nextMessageId ledger.messageIds ∧ Below ledger.host.nextReplyId ledger.replyIds

/-- The values are in range, and the counters are above the ids as long as all is in order. -/
def Accounted (ledger : IdLedger) : Prop := ledger.host.Typed ∧ (Orderly ledger.host → IdsHeld ledger)

/-- Over every run of posts, replies, deletions, saves and new starts no id is given twice until nothing with an id is
left, as long as every save is written and the counters are below the last 64-bit number. A deletion that leaves nothing
with an id starts the numbers at one again. -/
theorem ids_never_reused (palette : HostPalette) {ledger : IdLedger}
    (reached : Reaches (IdLedger.step palette.val) (fun ledger _ => Orderly ledger.host) .fresh ledger)
    (orderly : Orderly ledger.host) :
    IdsUnique ledger ∧
    ∀ clock first last,
      (LeavesNoMessage clock first last ledger.host →
        (deleteRange clock first last ledger.host).1.data.nextMessageId = 1) ∧
      (LeavesNoReply clock first last ledger.host → (deleteRange clock first last ledger.host).1.nextReplyId = 1) := by
  have start : Accounted .fresh := by
    have first : Below 1 [] := Below.nil Nat.one_pos
    exact ⟨fresh_typed, fun _ => ⟨first, fun _ => first, first, first⟩⟩
  have kept : ∀ (ledger : IdLedger) event after, Accounted ledger → Orderly ledger.host →
      ledger.step palette.val event = some after → Accounted after := by
    intro ledger event after held before taken
    obtain ⟨next, stepped, same⟩ := Option.map_eq_some_iff.mp taken
    constructor
    · rw [← same]
      exact hostStep_typed palette stepped held.1
    · exact fun orderly => held_step palette taken held.1 before orderly (held.2 before)
  have held : Accounted ledger := reached.invariant start kept
  exact ⟨⟨(held.2 orderly).messages, (held.2 orderly).replies⟩,
    fun clock first last => deleteRange_restarts clock first last ledger.host⟩

theorem plainPalette_plain : plainPalette.Plain where
  userColor _ _ found := absurd found (by simp [plainPalette])
  highlight _ _ found := absurd found (by simp [plainPalette])
  themeUserColor := by decide
  themeHighlight := by decide
  defaultUserColorName := by decide
  defaultUserHighlightName := by decide

def noClock : Clock := ⟨none, none, nofun⟩

def postedMessage : TypedEntry := ⟨postedEntry, postedEntry_typed⟩

def postedHost : LogHost := (commitEntry plainPalette noClock postedEntry .fresh).1

theorem commitEntry_gives {host : LogHost} {clock : Clock} {entry : ChatHistoryEntry} (positive :
    host.data.nextMessageId ≠ 0)
    (user : (normalizeEntry plainPalette (entry.stamped clock)).any ChatHistoryEntry.isUserMessage = true) :
    givenMessageId (commitEntry plainPalette clock entry host).2 = [host.data.nextMessageId] := by
  rw [commitEntry]
  cases content : normalizeEntry plainPalette (entry.stamped clock) with
  | none =>
    rw [content] at user
    exact absurd user Bool.false_ne_true
  | some =>
    rw [content, Option.any_some] at user
    rw [givenMessageId_eq, user]
    simp only [takeMessageId, if_true, if_neg positive]

def firstOnly : { host : LogHost // host.data.history.length = 1 ∧
    ∀ entry ∈ host.data.history, entry.inIdRange 1 1 } :=
  ⟨postedHost, by decide +kernel⟩

/-- A deletion of the first message works on that message alone. -/
theorem postedHost_source : deletionSource postedHost ≠ [] ∧
    ∀ entry ∈ deletionSource postedHost, entry.inIdRange 1 1 := by
  have one : postedHost.data.history.length = 1 := firstOnly.2.1
  have cached : ∀ entry ∈ postedHost.data.history, entry.inIdRange 1 1 := firstOnly.2.2
  rcases deletionSource_cases postedHost with same | same
  · rw [same]
    exact ⟨ne_nil_of_length_pos (by omega), cached⟩
  · have typed : postedHost.Typed :=
      commitEntry_typed ⟨plainPalette, plainPalette_plain⟩ noClock postedMessage fresh_typed
    have file : postedHost.stateFile = some (stateBytes postedHost.data.history.length postedHost.data.history
      postedHost.data) :=
      rfl
    rw [same, file, fileHistory_stateBytes typed.cache (by omega)]
    refine ⟨ne_nil_of_length_pos (by rw [length_map]; omega), ?_⟩
    intro entry inside
    obtain ⟨message, member, rfl⟩ := mem_map.mp inside
    exact cached message member

theorem postedHost_leaves : LeavesNoMessage noClock 1 1 postedHost := by
  obtain ⟨some', all⟩ := postedHost_source
  obtain ⟨entry, inside⟩ := exists_mem_of_ne_nil _ some'
  refine ⟨?_, fun entry inside outside => ?_⟩
  · rcases deleteRange_cases noClock 1 1 postedHost with ⟨undone, _⟩ | ⟨_, _, removed, _⟩
    · exact absurd ⟨Nat.one_pos, le_refl 1, entry, inside, all entry inside⟩ undone
    · exact removed
  · rw [all entry inside] at outside
    cases outside

theorem postedEntry_user : (normalizeEntry plainPalette (postedEntry.stamped noClock)).any
    ChatHistoryEntry.isUserMessage = true := by
  decide +kernel

def repostedHost : LogHost := (commitEntry plainPalette noClock postedEntry postedHost).1

def answer : ChatReplyEntry := ⟨0, 1, 0, 0, str "ann", str "yes"⟩

def answeredHost : LogHost := (repliesCommitEntry answer repostedHost).1

theorem orderly_of_written {host : LogHost} (written : host.saveFailed = false)
    (counters : 0 < host.data.nextMessageId ∧ host.data.nextMessageId < 2 ^ 64 - 1 ∧ host.nextReplyId < 2 ^ 64 - 1) :
    Orderly host := ⟨written, ⟨counters.1, counters.2.1⟩, counters.2.2⟩

/-- Two messages and a reply have their own numbers, and a deletion of the first message alone starts at one again. -/
theorem ids_unique_posted : IdsUnique ⟨answeredHost, [1, 2], [1]⟩ ∧
    (deleteRange noClock 1 1 postedHost).1.data.nextMessageId = 1 := by
  have fresh : Orderly LogHost.fresh := ⟨rfl, by decide, by decide⟩
  have posted : Orderly postedHost := orderly_of_written (by decide +kernel) (by decide +kernel)
  have reposted : Orderly repostedHost := orderly_of_written (by decide +kernel) (by decide +kernel)
  have answered : Orderly answeredHost := orderly_of_written (by decide +kernel) (by decide +kernel)
  have first : IdLedger.fresh.step plainPalette (.commit noClock postedMessage) = some ⟨postedHost, [1], []⟩ := by
    rfl
  have second : IdLedger.step plainPalette ⟨postedHost, [1], []⟩ (.commit noClock postedMessage) =
      some ⟨repostedHost, [1, 2], []⟩ := by
    rfl
  have third : IdLedger.step plainPalette ⟨repostedHost, [1, 2], []⟩ (.reply answer) =
      some ⟨answeredHost, [1, 2], [1]⟩ := by
    rfl
  have once : Reaches (IdLedger.step plainPalette) (fun ledger _ => Orderly ledger.host) .fresh ⟨postedHost, [1], []⟩ :=
    Reaches.step Reaches.start fresh first
  have all := Reaches.step (Reaches.step once posted second) reposted third
  obtain ⟨unique, -⟩ := ids_never_reused ⟨plainPalette, plainPalette_plain⟩ all answered
  obtain ⟨-, restarts⟩ := ids_never_reused ⟨plainPalette, plainPalette_plain⟩ once posted
  obtain ⟨restarted, -⟩ := restarts noClock 1 1
  dsimp only at restarted
  exact ⟨unique, restarted postedHost_leaves⟩

/-- All message ids that a run gives, however often nothing is left. -/
def givenIds (palette : Palette) : LogHost → List HostEvent → List Nat
  | _, [] => []
  | host, event :: rest =>
    let given := match event with
      | .commit clock entry => givenMessageId (commitEntry palette clock entry.val host).2
      | _ => []
    match hostStep palette host event with
    | none => given
    | some next => given ++ givenIds palette next rest

/-- After the deletion of the only message the first id is given again. -/
theorem first_id_reused : ¬ ∀ (palette : HostPalette) (events : List HostEvent),
    (∀ id ∈ givenIds palette.val .fresh events, id < 2 ^ 64 - 1) → (givenIds palette.val .fresh events).Nodup := by
  intro claimed
  have next := (deleteRange_restarts noClock 1 1 postedHost).1 postedHost_leaves
  have again : givenMessageId (commitEntry plainPalette noClock postedEntry (deleteRange noClock 1 1 postedHost).1).2 =
    [1] := by
    rw [commitEntry_gives (by rw [next]; decide) postedEntry_user, next]
  have ids : givenIds plainPalette .fresh
      [.commit noClock postedMessage, .delete noClock 1 1, .commit noClock postedMessage] = [1, 1] := by
    change givenMessageId (commitEntry plainPalette noClock postedEntry .fresh).2 ++ ([] ++
      (givenMessageId (commitEntry plainPalette noClock postedEntry (deleteRange noClock 1 1 postedHost).1).2 ++ [])) =
        _
    rw [again]
    rfl
  have distinct := claimed ⟨plainPalette, plainPalette_plain⟩
    [.commit noClock postedMessage, .delete noClock 1 1, .commit noClock postedMessage]
  rw [ids] at distinct
  exact absurd (distinct (by decide)) (by decide)

end Uniqueness

end SshChatter.HostState
