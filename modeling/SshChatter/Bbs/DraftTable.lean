import SshChatter.Bbs.Command
import SshChatter.Lib.EventRun

namespace SshChatter.Bbs
open CString EventRun Function List

abbrev maxDrafts : Nat := 8

/-- This is `bbs_draft_t`. -/
structure SavedDraft where
  inUse : Bool
  id : Nat
  author : UserName
  boardId : UInt16
  title : CText 511
  body : CText 40959
  tags : Fin maxTags → CText 23
  tagCount : Nat
  createdAt : Int

/-- A cleared slot. -/
def SavedDraft.blank : SavedDraft where
  inUse := false
  id := 0
  author := .zero
  boardId := 0
  title := .zero
  body := .zero
  tags := fun _ => .zero
  tagCount := 0
  createdAt := 0

/-- The drafts of the host. The length of the list is the capacity. -/
structure DraftStore where
  drafts : List SavedDraft
  count : Nat
  nextId : Nat

/-- A pending post whose tags fit its array. -/
structure PendingDraft extends Draft where
  few : tagCount ≤ maxTags

/-- What the session is told, with the slot that a save or a deletion is about. -/
inductive DraftReply where
  | line (text : Bytes)
  | saved (slot : Nat)
  | listed (lines : List (Nat × Bytes))
  | loaded (draft : SavedDraft)
  | deleted (slot : Nat)

def DraftReply.text : DraftReply → Bytes
  | .line text => text
  | .saved _ => str "Draft saved."
  | .listed [] => str "No drafts."
  | .listed _ => []
  | .loaded _ => str "Draft loaded. Continue editing with the post editor."
  | .deleted _ => str "Draft deleted."

def draftUsage : DraftReply := .line (str "Usage: /bbs draft <save|list|load|delete>")

def SavedDraft.filled (slot : SavedDraft) (caller : Caller) (pending : PendingDraft) (id : Nat) (now : Int) :
    SavedDraft where
  inUse := true
  id := id
  author := caller.name
  boardId := caller.boardId
  title := pending.title
  body := pending.body
  tags := fun tag => if tag.val < pending.tagCount then pending.tags tag else slot.tags tag
  tagCount := pending.tagCount
  createdAt := now

def saveDraft (store : DraftStore) (caller : Caller) (pending : Option PendingDraft) (now : Int) :
    DraftStore × DraftReply :=
  match pending with
  | none => (store, .line (str "Nothing to save. Start a post first."))
  | some pending =>
    match store.drafts.findIdx? fun draft => !draft.inUse with
    | none => (store, .line (str "Draft storage full. Delete old drafts first."))
    | some slot =>
      ({ drafts := store.drafts.modify slot fun draft => draft.filled caller pending store.nextId now
         count := store.count + 1
         nextId := (store.nextId + 1) % 2 ^ 64 }, .saved slot)

def listDrafts (store : DraftStore) (caller : Caller) : List (Nat × Bytes) :=
  (store.drafts.zipIdx.filter fun place => place.1.inUse ∧ place.1.author = caller.name).map fun place =>
    (place.2, str "  [" ++ decimal place.2 ++ str "] " ++ place.1.title.text)

def ownDraft (store : DraftStore) (caller : Caller) (index : Nat) : Option SavedDraft :=
  match store.drafts[index]? with
  | none => none
  | some draft => if draft.inUse ∧ draft.author = caller.name then some draft else none

def draftNotFound : DraftReply := .line (str "Draft not found.")

def loadDraft (store : DraftStore) (caller : Caller) (rest : Bytes) : DraftReply :=
  match strtoulField rest with
  | none => .line (str "Usage: /bbs draft load <index>")
  | some index =>
    match ownDraft store caller index with
    | none => draftNotFound
    | some draft => .loaded draft

/-- The action `delete` of `session_bbs_draft`. Only the mark of the slot is cleared. -/
def deleteDraft (store : DraftStore) (caller : Caller) (rest : Bytes) : DraftStore × DraftReply :=
  match strtoulField rest with
  | none => (store, .line (str "Usage: /bbs draft delete <index>"))
  | some index =>
    match ownDraft store caller index with
    | none => (store, draftNotFound)
    | some _ =>
      ({ store with
          drafts := store.drafts.modify index fun draft => { draft with inUse := false }
          count := if 0 < store.count then store.count - 1 else store.count }, .deleted index)

def draftAction (arguments : Bytes) : Bytes := ((arguments.dropWhile isSpace).takeWhile fun c => !isSpace c).take 15

/-- This is `session_bbs_draft`. The state file is saved apart. -/
def draftCommand (store : DraftStore) (caller : Caller) (pending : Option PendingDraft) (now : Int)
    (arguments : Bytes) : DraftStore × DraftReply :=
  let action := draftAction arguments
  let rest := (arguments.drop action.length).dropWhile fun c => c = 32 ∨ c = 9
  if arguments = [] then (store, draftUsage)
  else if action = str "save" then saveDraft store caller pending now
  else if action = str "list" then (store, .listed (listDrafts store caller))
  else if action = str "load" then (store, loadDraft store caller rest)
  else if action = str "delete" then deleteDraft store caller rest
  else (store, draftUsage)

/-- This is `bbs_state_draft_entry_t`. -/
structure DraftEntry where
  id : Nat
  author : UserName
  boardId : UInt16
  createdAt : Int
  tagCount : Nat
  title : CText 511
  body : CText 40959
  tags : Fin maxTags → CText 23

/-- The file `drafts.dat` behind its magic and version. -/
structure DraftFile where
  count : Nat
  entries : List DraftEntry

/-- The entry of a slot. The save does not look whether the slot is in use. -/
def SavedDraft.entry (draft : SavedDraft) : DraftEntry where
  id := draft.id
  author := draft.author
  boardId := draft.boardId
  createdAt := draft.createdAt
  tagCount := draft.tagCount % 2 ^ 32
  title := draft.title
  body := draft.body
  tags := draft.tags

/-- This is `host_bbs_drafts_save_locked`: it writes as many slots as there are drafts, from the first one on. -/
def saveDrafts (store : DraftStore) : DraftFile where
  count := store.count % 2 ^ 32
  entries := (store.drafts.take store.count).map SavedDraft.entry

def DraftEntry.slot (entry : DraftEntry) : SavedDraft where
  inUse := true
  id := entry.id
  author := entry.author
  boardId := entry.boardId
  title := entry.title
  body := entry.body
  tags := entry.tags
  tagCount := entry.tagCount
  createdAt := entry.createdAt

/-- This is `host_bbs_drafts_load`. -/
def loadDrafts (nextId : Nat) : Option DraftFile → DraftStore
  | none => ⟨replicate maxDrafts .blank, 0, nextId⟩
  | some file =>
    let read := (file.entries.take file.count).map DraftEntry.slot
    ⟨read ++ replicate (max file.count maxDrafts - read.length) .blank, read.length, nextId⟩

/-- A command of some user, or a restart. -/
inductive DraftEvent where
  | command (caller : Caller) (pending : Option PendingDraft) (now : Int) (arguments : Bytes)
  | restart

def draftStep (store : DraftStore) : DraftEvent → DraftStore
  | .command caller pending now arguments => (draftCommand store caller pending now arguments).1
  | .restart => loadDrafts store.nextId (some (saveDrafts store))

/-- What the user is told. -/
def draftReply (store : DraftStore) : DraftEvent → Option DraftReply
  | .command caller pending now arguments => some (draftCommand store caller pending now arguments).2
  | .restart => none

/-- What a user wrote. -/
structure DraftText where
  author : UserName
  boardId : UInt16
  title : CText 511
  body : CText 40959
  tags : List (CText 23)

def SavedDraft.content (draft : SavedDraft) : DraftText :=
  ⟨draft.author, draft.boardId, draft.title, draft.body, (ofFn draft.tags).take draft.tagCount⟩

def PendingDraft.content (pending : PendingDraft) (caller : Caller) : DraftText :=
  ⟨caller.name, caller.boardId, pending.title, pending.body, (ofFn pending.tags).take pending.tagCount⟩

abbrev Ledger : Type := Nat → Option DraftText

def ledger (store : DraftStore) : Ledger := fun slot =>
  (store.drafts[slot]?).bind fun draft => if draft.inUse then some draft.content else none

def draftsInUse (store : DraftStore) : Nat := store.drafts.countP (·.inUse)

/-- What the users were told about their drafts. A restart tells nothing. -/
def recorded (book : Ledger) : DraftEvent → Option DraftReply → Ledger
  | .command caller (some pending) _ _, some (.saved slot) => update book slot (some (pending.content caller))
  | .command .., some (.deleted slot) => update book slot none
  | _, _ => book

def recordedRun (store : DraftStore) (book : Ledger) : List DraftEvent → Ledger
  | [] => book
  | event :: rest => recordedRun (draftStep store event) (recorded book event (draftReply store event)) rest

/-- A save takes a free position, and a deletion is of the user's own draft. -/
def Honest (book : Ledger) : DraftEvent → Option DraftReply → Prop
  | _, some (.saved slot) => book slot = none
  | .command caller _ _ _, some (.deleted slot) => ∃ content, book slot = some content ∧ content.author = caller.name
  | _, _ => True

/-- The drafts in use are those that were saved and not deleted, and they are counted. -/
structure DraftsKept (store : DraftStore) (event : DraftEvent) : Prop where
  exact : ledger (draftStep store event) = recorded (ledger store) event (draftReply store event)
  honest : Honest (ledger store) event (draftReply store event)
  counted : (draftStep store event).count = draftsInUse (draftStep store event)

def PackedRestart (store : DraftStore) (event : DraftEvent) : Prop :=
  event = .restart → ∀ draft ∈ store.drafts.take store.count, draft.inUse

/-- The count is right, and the numbers fit the file. -/
structure DraftsSound (store : DraftStore) : Prop where
  counted : store.count = draftsInUse store
  few : ∀ draft ∈ store.drafts, draft.tagCount ≤ maxTags
  small : store.drafts.length < 2 ^ 32

section Commands

variable {store : DraftStore} {caller : Caller} {slot : Nat} {draft : SavedDraft}

theorem ledger_slot (found : store.drafts[slot]? = some draft) :
    ledger store slot = if draft.inUse then some draft.content else none := by
  rw [ledger, found]
  rfl

theorem ledger_modify (found : store.drafts[slot]? = some draft) (change : SavedDraft → SavedDraft)
    (count nextId : Nat) : ledger ⟨store.drafts.modify slot change, count, nextId⟩ =
      update (ledger store) slot (if (change draft).inUse then some (change draft).content else none) := by
  funext other
  by_cases same : other = slot
  · subst same
    rw [update_self, ledger, getElem?_modify_eq, found]
    rfl
  · rw [update_of_ne same, ledger, getElem?_modify_ne _ _ (Ne.symm same)]
    rfl

theorem inUse_modify (found : store.drafts[slot]? = some draft) (change : SavedDraft → SavedDraft) :
    (store.drafts.modify slot change).countP (·.inUse) + (if draft.inUse then 1 else 0) =
      draftsInUse store + (if (change draft).inUse then 1 else 0) := by
  obtain ⟨inside, value⟩ := List.getElem?_eq_some_iff.mp found
  have parts : store.drafts = store.drafts.take slot ++ draft :: store.drafts.drop (slot + 1) := by
    rw [← value, getElem_cons_drop, take_append_drop]
  have whole : draftsInUse store = (store.drafts.take slot ++ draft :: store.drafts.drop (slot + 1)).countP (·.inUse) :=
    congrArg (countP SavedDraft.inUse) parts
  rw [whole, modify_eq_take_cons_drop inside, value, countP_append, countP_append, countP_cons,
    countP_cons]
  omega

variable {change : SavedDraft → SavedDraft}

theorem few_modify (few : ∀ draft ∈ store.drafts, draft.tagCount ≤ maxTags)
    (still : ∀ draft, draft.tagCount ≤ maxTags → (change draft).tagCount ≤ maxTags) :
    ∀ draft ∈ store.drafts.modify slot change, draft.tagCount ≤ maxTags := by
  intro changed inside
  obtain ⟨place, found⟩ := mem_iff_getElem?.mp inside
  by_cases same : slot = place
  · subst same
    rw [getElem?_modify_eq] at found
    obtain ⟨draft, before, rfl⟩ := Option.map_eq_some_iff.mp found
    exact still draft (few draft (mem_of_getElem? before))
  · rw [getElem?_modify_ne _ _ same] at found
    exact few changed (mem_of_getElem? found)

theorem filled_content (draft : SavedDraft) (caller : Caller) (pending : PendingDraft) (id : Nat) (now : Int) :
    (draft.filled caller pending id now).content = pending.content caller := by
  have tags : (ofFn (draft.filled caller pending id now).tags).take pending.tagCount =
      (ofFn pending.tags).take pending.tagCount := by
    apply ext_getElem?
    intro tag
    rw [getElem?_take, getElem?_take]
    split_ifs with less
    · rw [List.getElem?_ofFn, List.getElem?_ofFn]
      split_ifs
      · exact congrArg some (if_pos less)
      · rfl
    · rfl
  exact congrArg (DraftText.mk _ _ _ _) tags

def DraftReply.quiet : DraftReply → Bool
  | .saved _ | .deleted _ => false
  | .line _ | .listed _ | .loaded _ => true

theorem recorded_quiet (book : Ledger) (event : DraftEvent) {reply : DraftReply} (quiet : reply.quiet) :
    recorded book event (some reply) = book ∧ Honest book event (some reply) := by
  cases reply with
  | saved => cases quiet
  | deleted => cases quiet
  | line => cases event with
    | restart => exact ⟨rfl, trivial⟩
    | command caller pending => cases pending <;> exact ⟨rfl, trivial⟩
  | listed => cases event with
    | restart => exact ⟨rfl, trivial⟩
    | command caller pending => cases pending <;> exact ⟨rfl, trivial⟩
  | loaded => cases event with
    | restart => exact ⟨rfl, trivial⟩
    | command caller pending => cases pending <;> exact ⟨rfl, trivial⟩

theorem loadDraft_quiet (store : DraftStore) (caller : Caller) (rest : Bytes) :
    (loadDraft store caller rest).quiet := by
  rw [loadDraft]
  cases strtoulField rest with
  | none => rfl
  | some index => cases own : ownDraft store caller index <;> simp only [own] <;> rfl

theorem kept_same (sound : DraftsSound store) {event : DraftEvent} {reply : DraftReply}
    (same : draftStep store event = store) (told : draftReply store event = some reply) (quiet : reply.quiet) :
    DraftsKept store event ∧ DraftsSound (draftStep store event) := by
  obtain ⟨record, honest⟩ := recorded_quiet (ledger store) event quiet
  refine ⟨⟨?_, by rwa [told], ?_⟩, ?_⟩
  · rw [same, told, record]
  · rw [same]
    exact sound.counted
  · rw [same]
    exact sound

theorem kept_change (sound : DraftsSound store) {event : DraftEvent} (found : store.drafts[slot]? = some draft)
    {count nextId : Nat} (step : draftStep store event = ⟨store.drafts.modify slot change, count, nextId⟩)
    (record : recorded (ledger store) event (draftReply store event) = update (ledger store) slot
      (if (change draft).inUse then some (change draft).content else none))
    (honest : Honest (ledger store) event (draftReply store event))
    (still : ∀ draft, draft.tagCount ≤ maxTags → (change draft).tagCount ≤ maxTags)
    (counted : count + (if draft.inUse then 1 else 0) = store.count + (if (change draft).inUse then 1 else 0)) :
    DraftsKept store event ∧ DraftsSound (draftStep store event) := by
  have number : count = draftsInUse ⟨store.drafts.modify slot change, count, nextId⟩ := by
    have more := inUse_modify found change
    have before := sound.counted
    change count = (store.drafts.modify slot change).countP _
    omega
  refine ⟨⟨?_, honest, ?_⟩, ?_⟩
  · rw [step, record, ledger_modify found]
  · rw [step]
    exact number
  · rw [step]
    refine ⟨number, few_modify sound.few still, ?_⟩
    rw [length_modify]
    exact sound.small

/-- A save adds the pending post at a free position. -/
theorem kept_save (sound : DraftsSound store) (pending : Option PendingDraft) (now : Int) (arguments : Bytes)
    (saves : draftCommand store caller pending now arguments = saveDraft store caller pending now) :
    DraftsKept store (.command caller pending now arguments) ∧
      DraftsSound (draftStep store (.command caller pending now arguments)) := by
  have step : draftStep store (.command caller pending now arguments) = (saveDraft store caller pending now).1 :=
    congrArg Prod.fst saves
  have reply : draftReply store (.command caller pending now arguments) = some (saveDraft store caller pending now).2 :=
    congrArg (fun both : DraftStore × DraftReply => some both.2) saves
  cases pending with
  | none => exact kept_same sound step reply rfl
  | some pending =>
    cases free : store.drafts.findIdx? fun draft => !draft.inUse with
    | none =>
      rw [saveDraft, free] at step reply
      exact kept_same sound step reply rfl
    | some slot =>
      obtain ⟨inside, unused, -⟩ := findIdx?_eq_some_iff_getElem.mp free
      have found : store.drafts[slot]? = some store.drafts[slot] := getElem?_eq_getElem inside
      have empty : store.drafts[slot].inUse = false := by simpa using unused
      rw [saveDraft, free] at step reply
      refine kept_change sound found step ?_ ?_ (fun _ _ => pending.few) ?_
      · rw [reply, filled_content]
        rfl
      · rw [reply]
        change ledger store slot = none
        rw [ledger_slot found, empty]
        rfl
      · rw [empty]
        rfl

/-- A deletion takes the own draft away. -/
theorem kept_delete (sound : DraftsSound store) (pending : Option PendingDraft) (now : Int) (arguments rest : Bytes)
    (deletes : draftCommand store caller pending now arguments = deleteDraft store caller rest) :
    DraftsKept store (.command caller pending now arguments) ∧
      DraftsSound (draftStep store (.command caller pending now arguments)) := by
  have step : draftStep store (.command caller pending now arguments) = (deleteDraft store caller rest).1 :=
    congrArg Prod.fst deletes
  have reply : draftReply store (.command caller pending now arguments) = some (deleteDraft store caller rest).2 :=
    congrArg (fun both : DraftStore × DraftReply => some both.2) deletes
  rw [deleteDraft] at step reply
  cases number : strtoulField rest with
  | none =>
    rw [number] at step reply
    exact kept_same sound step reply rfl
  | some index =>
    rw [number] at step reply
    dsimp only at step reply
    cases own : ownDraft store caller index with
    | none =>
      rw [own] at step reply
      exact kept_same sound step reply rfl
    | some draft =>
      rw [own] at step reply
      obtain ⟨found, used, author⟩ : store.drafts[index]? = some draft ∧ draft.inUse ∧ draft.author = caller.name := by
        rw [ownDraft] at own
        cases found : store.drafts[index]? with
        | none =>
          rw [found] at own
          cases own
        | some =>
          rw [found] at own
          dsimp only at own
          split_ifs at own with mine
          exact Option.some.inj own ▸ ⟨rfl, mine⟩
      have positive : 0 < store.count := by
        rw [sound.counted]
        exact countP_pos_iff.mpr ⟨draft, mem_of_getElem? found, used⟩
      rw [if_pos positive] at step
      refine kept_change sound found step ?_ ?_ (fun _ few => few) ?_
      · rw [reply]
        cases pending <;> rfl
      · rw [reply]
        exact ⟨draft.content, by rw [ledger_slot found, if_pos used], author⟩
      · rw [if_pos used]
        change store.count - 1 + 1 = store.count + 0
        omega

theorem kept_command (sound : DraftsSound store) (pending : Option PendingDraft) (now : Int) (arguments : Bytes) :
    DraftsKept store (.command caller pending now arguments) ∧
      DraftsSound (draftStep store (.command caller pending now arguments)) := by
  have unchanged {reply : DraftReply} (same : draftCommand store caller pending now arguments = (store, reply))
      (quiet : reply.quiet) : DraftsKept store (.command caller pending now arguments) ∧
        DraftsSound (draftStep store (.command caller pending now arguments)) :=
    kept_same sound (congrArg Prod.fst same) (congrArg (fun both : DraftStore × DraftReply => some both.2) same) quiet
  by_cases empty : arguments = []
  · exact unchanged (if_pos empty) rfl
  by_cases save : draftAction arguments = str "save"
  · exact kept_save sound pending now arguments (by rw [draftCommand, if_neg empty, if_pos save])
  by_cases list : draftAction arguments = str "list"
  · have same : draftCommand store caller pending now arguments = (store, .listed (listDrafts store caller)) := by
      rw [draftCommand, if_neg empty, if_neg save, if_pos list]
    exact unchanged same rfl
  by_cases load : draftAction arguments = str "load"
  · have same : draftCommand store caller pending now arguments = (store, loadDraft store caller
        ((arguments.drop (draftAction arguments).length).dropWhile fun c => c = 32 ∨ c = 9)) := by
      rw [draftCommand, if_neg empty, if_neg save, if_neg list, if_pos load]
    exact unchanged same (loadDraft_quiet _ _ _)
  by_cases delete : draftAction arguments = str "delete"
  · exact kept_delete sound pending now arguments
      ((arguments.drop (draftAction arguments).length).dropWhile fun c => c = 32 ∨ c = 9)
      (by rw [draftCommand, if_neg empty, if_neg save, if_neg list, if_neg load, if_pos delete])
  · have same : draftCommand store caller pending now arguments = (store, draftUsage) := by
      rw [draftCommand, if_neg empty, if_neg save, if_neg list, if_neg load, if_neg delete]
    exact unchanged same rfl

end Commands

section Restarts

variable {store : DraftStore}

theorem restart_eq (sound : DraftsSound store) : draftStep store .restart =
    ⟨(store.drafts.take store.count).map (fun draft => draft.entry.slot) ++
      replicate (max store.count maxDrafts - store.count) .blank, store.count, store.nextId⟩ := by
  have inside : store.count ≤ store.drafts.length := sound.counted ▸ countP_le_length
  have small : store.count % 2 ^ 32 = store.count := Nat.mod_eq_of_lt (inside.trans_lt sound.small)
  have read : ((saveDrafts store).entries.take (saveDrafts store).count).map DraftEntry.slot =
      (store.drafts.take store.count).map fun draft => draft.entry.slot := by
    rw [saveDrafts, small, ← map_take, take_take, min_self, map_map]
    rfl
  have length : ((store.drafts.take store.count).map fun draft => draft.entry.slot).length = store.count := by
    rw [length_map, length_take, min_eq_left inside]
  have count : (saveDrafts store).count = store.count := small
  change loadDrafts store.nextId (some (saveDrafts store)) = _
  rw [loadDrafts]
  rw [read, length, count]

theorem entry_content {draft : SavedDraft} (few : draft.tagCount ≤ maxTags) :
    draft.entry.slot.content = draft.content := by
  have bound : maxTags = 4 := rfl
  have same : draft.tagCount % 2 ^ 32 = draft.tagCount := Nat.mod_eq_of_lt (by omega)
  change DraftText.mk _ _ _ _ ((ofFn draft.tags).take (draft.tagCount % 2 ^ 32)) = _
  rw [same]
  rfl

theorem ledger_restart (sound : DraftsSound store) (slot : Nat) : ledger (draftStep store .restart) slot =
    if slot < store.count then (store.drafts[slot]?).map SavedDraft.content else none := by
  have inside : store.count ≤ store.drafts.length := sound.counted ▸ countP_le_length
  have length : ((store.drafts.take store.count).map fun draft => draft.entry.slot).length = store.count := by
    rw [length_map, length_take, min_eq_left inside]
  rw [restart_eq sound, ledger]
  split_ifs with less
  · rw [getElem?_append_left (by rwa [length]), getElem?_map, getElem?_take_of_lt less]
    have present : store.drafts[slot]? = some (store.drafts[slot]) := getElem?_eq_getElem (less.trans_le inside)
    rw [present, Option.map_some, Option.map_some, ← entry_content (sound.few _ (getElem_mem _))]
    rfl
  · rw [getElem?_append_right (by rw [length]; omega), getElem?_replicate]
    split_ifs <;> rfl

theorem restart_sound (sound : DraftsSound store) : DraftsSound (draftStep store .restart) := by
  have inside : store.count ≤ store.drafts.length := sound.counted ▸ countP_le_length
  have eight : maxDrafts = 8 := rfl
  have small := sound.small
  rw [restart_eq sound]
  refine ⟨?_, ?_, ?_⟩
  · have used : ((store.drafts.take store.count).map fun draft => draft.entry.slot).countP SavedDraft.inUse =
      store.count := by
      have all : ∀ draft ∈ (store.drafts.take store.count).map fun draft => draft.entry.slot, draft.inUse = true := by
        intro draft member
        obtain ⟨other, -, rfl⟩ := mem_map.mp member
        rfl
      rw [countP_eq_length.mpr all, length_map, length_take, min_eq_left inside]
    have free : (replicate (max store.count maxDrafts - store.count) SavedDraft.blank).countP SavedDraft.inUse = 0 := by
      rw [countP_replicate]
      rfl
    change store.count = (_ ++ _ : List SavedDraft).countP SavedDraft.inUse
    rw [countP_append, used, free, add_zero]
  · intro draft member
    rcases mem_append.mp member with read | blank
    · obtain ⟨other, inFront, rfl⟩ := mem_map.mp read
      have few := sound.few other (mem_of_mem_take inFront)
      change other.tagCount % 2 ^ 32 ≤ maxTags
      omega
    · rw [eq_of_mem_replicate blank]
      exact Nat.zero_le _
  · change (_ ++ _ : List SavedDraft).length < _
    rw [length_append, length_map, length_take, length_replicate]
    omega

/-- A restart keeps the drafts if and only if they are the first slots. -/
theorem kept_restart (sound : DraftsSound store) : DraftsKept store .restart ↔ PackedRestart store .restart := by
  constructor
  · intro kept _ draft member
    obtain ⟨slot, found⟩ := mem_iff_getElem?.mp member
    rw [getElem?_take] at found
    split_ifs at found with less
    have same : ledger (draftStep store .restart) slot = ledger store slot := congrFun kept.exact slot
    rw [ledger_restart sound, if_pos less, found, ledger_slot found] at same
    by_contra unused
    rw [if_neg unused] at same
    cases same
  · intro packed
    have first := packed rfl
    refine ⟨?_, trivial, (restart_sound sound).counted⟩
    funext slot
    change ledger (draftStep store .restart) slot = ledger store slot
    rw [ledger_restart sound]
    split_ifs with less
    · cases found : store.drafts[slot]? with
      | none => rw [ledger, found]; rfl
      | some draft =>
        have member : draft ∈ store.drafts.take store.count := by
          apply mem_of_getElem? (i := slot)
          rw [getElem?_take_of_lt less, found]
        rw [ledger_slot found, if_pos (first draft member)]
        rfl
    · -- All drafts that are counted stand in front of the slot.
      have inside : store.count ≤ store.drafts.length := sound.counted ▸ countP_le_length
      have front : (store.drafts.take store.count).countP SavedDraft.inUse = store.count := by
        rw [countP_eq_length.mpr first, length_take, min_eq_left inside]
      have parts : (store.drafts.take store.count).countP SavedDraft.inUse +
          (store.drafts.drop store.count).countP SavedDraft.inUse = store.count := by
        rw [← countP_append, take_append_drop]
        exact sound.counted.symm
      have back : (store.drafts.drop store.count).countP SavedDraft.inUse = 0 := by omega
      cases found : store.drafts[slot]? with
      | none => rw [ledger, found]; rfl
      | some draft =>
        have member : draft ∈ store.drafts.drop store.count := by
          apply mem_of_getElem? (i := slot - store.count)
          rw [getElem?_drop, Nat.add_sub_cancel' (Nat.le_of_not_lt less), found]
        rw [ledger_slot found, if_neg (countP_eq_zero.mp back draft member)]

end Restarts

abbrev CountedDrafts : Type := { store : DraftStore // DraftsSound store }

theorem step_sound {store : DraftStore} (sound : DraftsSound store) (event : DraftEvent) :
    DraftsSound (draftStep store event) := by
  cases event with
  | command caller pending now arguments => exact (kept_command sound pending now arguments).2
  | restart => exact restart_sound sound

theorem kept_iff_packed {store : DraftStore} (sound : DraftsSound store) (event : DraftEvent) :
    DraftsKept store event ↔ PackedRestart store event := by
  cases event with
  | command caller pending now arguments =>
    exact iff_of_true (kept_command sound pending now arguments).1 fun restart => nomatch restart
  | restart => exact kept_restart sound

/-- Every step of a run keeps the drafts that were saved and not deleted if and only if every restart finds them in
the first slots. The drafts behind such a run are those that the users were told about. -/
theorem drafts_persist (store : CountedDrafts) (events : List DraftEvent) :
    (Along draftStep DraftsKept store.val events ↔ Along draftStep PackedRestart store.val events) ∧
      (Along draftStep PackedRestart store.val events →
        ledger (run draftStep store.val events) = recordedRun store.val (ledger store.val) events) := by
  have iff : Along draftStep DraftsKept store.val events ↔ Along draftStep PackedRestart store.val events :=
    along_iff DraftsSound (fun _ event sound => step_sound sound event)
      (fun _ event sound => kept_iff_packed sound event) store.property events
  refine ⟨iff, fun packed => ?_⟩
  have kept := iff.mpr packed
  clear iff packed
  obtain ⟨store, sound⟩ := store
  induction events generalizing store with
  | nil => rfl
  | cons event rest ih =>
    rw [recordedRun, ← kept.1.exact]
    exact ih (draftStep store event) (step_sound sound event) kept.2

def DraftStore.fresh : DraftStore := loadDrafts 1 none

theorem fresh_drafts : DraftsSound .fresh where
  counted := by decide +kernel
  few := by
    intro draft member
    rw [eq_of_mem_replicate member]
    exact Nat.zero_le _
  small := by decide +kernel

def writer : Caller where
  name := .print (str "ann")
  isOperator := false
  isLanOperator := false
  boardId := 0
  viewing := 0

def samplePending (title : Bytes) : PendingDraft where
  editing := none
  title := .print title
  body := .print (str "text")
  tags := fun _ => .zero
  tagCount := 0
  few := Nat.zero_le _

def saveSample (title : Bytes) : DraftEvent := .command writer (some (samplePending title)) 1000 (str "save")

/-- A saved draft is there behind a restart. -/
theorem saved_draft_persists : ledger (run draftStep .fresh [saveSample (str "first"), .restart]) =
    recordedRun .fresh (ledger .fresh) [saveSample (str "first"), .restart] := by
  have packed : ∀ draft ∈ (draftStep .fresh (saveSample (str "first"))).drafts.take
      (draftStep .fresh (saveSample (str "first"))).count, draft.inUse := by decide +kernel
  have along : Along draftStep PackedRestart .fresh [saveSample (str "first"), .restart] :=
    ⟨(fun restart => nomatch restart), fun _ => packed, trivial⟩
  exact (drafts_persist ⟨.fresh, fresh_drafts⟩ [saveSample (str "first"), .restart]).2 along

/-- The first of two drafts is deleted. A restart brings it back and loses the second one. -/
theorem deleted_draft_returns : ¬ Along draftStep DraftsKept .fresh
    [saveSample (str "first"), saveSample (str "second"), .command writer none 1000 (str "delete 0"), .restart] := by
  rintro ⟨-, -, -, kept, -⟩
  have lost := congrArg Option.isSome (congrFun kept.exact 1)
  have before : (ledger (draftStep (draftStep (draftStep .fresh (saveSample (str "first"))) (saveSample (str "second")))
      (.command writer none 1000 (str "delete 0"))) 1).isSome := by decide +kernel
  have behind : (ledger (draftStep (draftStep (draftStep (draftStep .fresh (saveSample (str "first")))
      (saveSample (str "second"))) (.command writer none 1000 (str "delete 0"))) .restart) 1).isSome = false := by
    decide +kernel
  rw [behind] at lost
  exact Bool.false_ne_true (lost.trans before)

end SshChatter.Bbs
