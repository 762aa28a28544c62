import SshChatter.Lib.CString
import SshChatter.Lib.EventRun
import SshChatter.Lib.SlotTable

namespace SshChatter.Moderation
open CString SlotTable EventRun Function

abbrev maxBlocked : Nat := 64

/-- This is `session_block_entry_t`. -/
structure BlockEntry where
  inUse : Bool
  ip : CText 63
  username : CText 255
  ipWide : Bool
  deriving DecidableEq

structure BlockSession where
  blockEntries : Fin maxBlocked → BlockEntry
  blockEntryCount : Nat

def BlockEntry.cleared : BlockEntry := ⟨false, .zero, .zero, false⟩

def BlockSession.initial : BlockSession := ⟨fun _ => .cleared, 0⟩

/-- What `session_blocklist_add` gives: the list, what it returns and whether it reports a present entry. -/
structure Added where
  session : BlockSession
  returned : Bool
  alreadyPresent : Bool

/-- The test for a present entry in `session_blocklist_add`. -/
def BlockEntry.covers (ip : CText 63) (username : CText 255) (ipWide : Bool) (entry : BlockEntry) : Bool :=
  entry.inUse &&
    if ipWide then ip.text ≠ [] && entry.ip = ip
    else username.text ≠ [] && entry.username = username && !entry.ipWide

def blocklistAdd (session : BlockSession) (ip username : Bytes) (ipWide : Bool) : Added :=
  let normalizedIp : CText 63 := .print ip
  let normalizedUser : CText 255 := .print username
  match firstWith (BlockEntry.covers normalizedIp normalizedUser ipWide) session.blockEntries with
  | some _ => ⟨session, false, true⟩
  | none =>
    match firstFree BlockEntry.inUse session.blockEntries with
    | none => ⟨session, false, false⟩
    | some place =>
      let entry : BlockEntry := ⟨true, normalizedIp, normalizedUser, ipWide⟩
      let count :=
        if session.blockEntryCount < maxBlocked then session.blockEntryCount + 1 else session.blockEntryCount
      ⟨⟨update session.blockEntries place entry, count⟩, true, false⟩

/-- The test for the entry that `session_blocklist_remove` takes away. -/
def BlockEntry.named (token : Bytes) (entry : BlockEntry) : Bool :=
  entry.inUse && ((entry.ip.text ≠ [] && entry.ip.text = token) || (entry.username.text ≠ [] && entry.username.text =
    token))

def blocklistRemove (session : BlockSession) (token : Bytes) : BlockSession × Bool :=
  if token = [] then (session, false)
  else
    match firstWith (BlockEntry.named token) session.blockEntries with
    | none => (session, false)
    | some place =>
      (⟨update session.blockEntries place .cleared, session.blockEntryCount - 1⟩, true)

structure RoomMember where
  name : CText 255
  clientIp : CText 63
  retired : Bool

/-- What a session knows beside its block list. Without a host there are no members. -/
structure Viewer where
  name : CText 255
  breakingAlertsEnabled : Bool
  members : List RoomMember

/-- The fields of `chat_history_entry_t` that decide whether it is hidden. -/
structure ShownEntry where
  isUserMessage : Bool
  username : CText 255
  message : Bytes

/-- This is `host_lookup_member_ip`, with no address for a sender whose address is not known. -/
def lookupMemberIp (members : List RoomMember) (username : CText 255) : CText 63 :=
  match members.find? fun member => member.name = username && !member.retired with
  | none => .zero
  | some member => member.clientIp

/-- This is `strcasestr` as a test. -/
def containsIgnoringCase (text needle : Bytes) : Bool := (strstr (needle.map toLower) (text.map toLower)).isSome

/-- This is `session_message_contains_breaking`. The last two words are Korean and Japanese. -/
def messageContainsBreaking (message : Bytes) : Bool :=
  (strstr (str "[BREAKING NEWS]") message).isSome || containsIgnoringCase message (str "breaking news") ||
    containsIgnoringCase message (str "breaking:") || containsIgnoringCase message (str "urgent") ||
    containsIgnoringCase message (str "alert") || (strstr [0xEC, 0x86, 0x8D, 0xEB, 0xB3, 0xB4] message).isSome ||
    (strstr [0xE9, 0x80, 0x9F, 0xE5, 0xA0, 0xB1] message).isSome

/-- This is `host_ddial_display_view` without a view. The lines that a link writes for itself are given. -/
def displayed (linkNoise : Bytes → Bool) (entry : ShownEntry) : Bool :=
  if entry.isUserMessage then true
  else if str "[E-MAIL " <+: entry.message then false
  else !linkNoise entry.message

def BlockEntry.hides (entryIp : CText 63) (username : CText 255) (block : BlockEntry) : Bool :=
  let ipMatch := block.ip.text ≠ [] ∧ entryIp.text ≠ [] ∧ block.ip = entryIp
  let userMatch := block.username.text ≠ [] ∧ block.username = username
  block.inUse && if block.ipWide then ipMatch ∨ (entryIp.text = [] ∧ userMatch) else userMatch

def shouldHideEntry (linkNoise : Bytes → Bool) (session : BlockSession) (viewer : Viewer) (entry : ShownEntry) : Bool :=
  if entry.isUserMessage = false then
    !displayed linkNoise entry || (!viewer.breakingAlertsEnabled && messageContainsBreaking entry.message)
  else if session.blockEntryCount = 0 then false
  else if entry.username = viewer.name then false
  else
    (firstWith (BlockEntry.hides (lookupMemberIp viewer.members entry.username) entry.username)
      session.blockEntries).isSome

/-- A call of one of the two functions. -/
inductive BlockEvent where
  | add (ip username : Bytes) (ipWide : Bool)
  | remove (token : Bytes)

def blockStep (session : BlockSession) : BlockEvent → BlockSession
  | .add ip username ipWide => (blocklistAdd session ip username ipWide).session
  | .remove token => (blocklistRemove session token).1

section Steps

variable {session : BlockSession} {place : Fin maxBlocked} {token : Bytes}

def Counted (session : BlockSession) : Prop :=
  session.blockEntryCount = usedCount BlockEntry.inUse session.blockEntries

variable {entry : BlockEntry}

theorem named_iff : entry.named token ↔
    entry.inUse ∧ (entry.ip.text ≠ [] ∧ entry.ip.text = token ∨ entry.username.text ≠ [] ∧
      entry.username.text = token) := by
  rw [BlockEntry.named]
  simp

theorem initial_counted : Counted .initial := by
  have none' : usedCount BlockEntry.inUse BlockSession.initial.blockEntries = 0 := Finset.sum_eq_zero fun _ _ => rfl
  exact none'.symm

/-- What an addition does: it reports an entry that covers the block, it finds no room, or it puts the block in a free
slot. -/
theorem add_cases (session : BlockSession) (ip username : Bytes) (ipWide : Bool) :
    (∃ place, (session.blockEntries place).covers (.print ip) (.print username) ipWide ∧
      blocklistAdd session ip username ipWide = ⟨session, false, true⟩) ∨
    blocklistAdd session ip username ipWide = ⟨session, false, false⟩ ∨
    ∃ place, (session.blockEntries place).inUse = false ∧
      blocklistAdd session ip username ipWide =
        ⟨⟨update session.blockEntries place ⟨true, .print ip, .print username, ipWide⟩,
          if session.blockEntryCount < maxBlocked then session.blockEntryCount + 1 else session.blockEntryCount⟩,
          true, false⟩ := by
  rw [blocklistAdd]
  cases found : firstWith (BlockEntry.covers (.print ip) (.print username) ipWide) session.blockEntries with
  | some place => exact .inl ⟨place, firstWith_some found, rfl⟩
  | none =>
    cases free : firstFree BlockEntry.inUse session.blockEntries with
    | none => exact .inr (.inl rfl)
    | some place => exact .inr (.inr ⟨place, firstFree_some free, rfl⟩)

theorem remove_cases (session : BlockSession) (token : Bytes) :
    ((∀ place, (session.blockEntries place).named token = false) ∧ blocklistRemove session token = (session, false)) ∨
    ∃ place, (session.blockEntries place).named token ∧
      blocklistRemove session token =
        (⟨update session.blockEntries place .cleared, session.blockEntryCount - 1⟩, true) := by
  rw [blocklistRemove]
  by_cases empty : token = []
  · left
    refine ⟨?_, if_pos empty⟩
    intro place
    rw [← Bool.not_eq_true, named_iff]
    rintro ⟨-, ⟨some', same⟩ | ⟨some', same⟩⟩
    · exact some' (same.trans empty)
    · exact some' (same.trans empty)
  · rw [if_neg empty]
    cases found : firstWith (BlockEntry.named token) session.blockEntries with
    | none => exact .inl ⟨firstWith_none.mp found, rfl⟩
    | some place => exact .inr ⟨place, firstWith_some found, rfl⟩

/-- Every call keeps the count. -/
theorem blockStep_counted (session : BlockSession) (event : BlockEvent) (counted : Counted session) :
    Counted (blockStep session event) := by
  cases event with
  | add ip username ipWide =>
    rw [blockStep]
    rcases add_cases session ip username ipWide with ⟨_, -, same⟩ | same | ⟨place, free, same⟩
    · rwa [same]
    · rwa [same]
    · have room : session.blockEntryCount < maxBlocked := by
        rw [counted]
        exact usedCount_lt free
      rw [same, Counted]
      rw [if_pos room, usedCount_fill free rfl, counted]
  | remove token =>
    rw [blockStep]
    rcases remove_cases session token with ⟨-, same⟩ | ⟨place, named, same⟩
    · rwa [same]
    · have fewer : usedCount BlockEntry.inUse (update session.blockEntries place .cleared) + 1 =
          usedCount BlockEntry.inUse session.blockEntries := usedCount_clear (named_iff.mp named).1 rfl
      rw [same, Counted]
      dsimp only
      rw [counted]
      omega

/-- An entry stays as long as no removal names it. -/
theorem blockStep_keeps (here : session.blockEntries place = entry) (used : entry.inUse) (event : BlockEvent)
    (unnamed : ∀ token, event = .remove token → entry.named token = false) :
    (blockStep session event).blockEntries place = entry := by
  cases event with
  | add ip username ipWide =>
    rw [blockStep]
    rcases add_cases session ip username ipWide with ⟨_, -, same⟩ | same | ⟨slot, free, same⟩
    · rwa [same]
    · rwa [same]
    · have other : place ≠ slot := by
        rintro rfl
        rw [here, used] at free
        cases free
      rw [same]
      dsimp only
      rwa [update_of_ne other]
  | remove token =>
    rw [blockStep]
    rcases remove_cases session token with ⟨-, same⟩ | ⟨slot, named, same⟩
    · rwa [same]
    · have other : place ≠ slot := by
        rintro rfl
        rw [here, unnamed token rfl] at named
        cases named
      rw [same]
      dsimp only
      rwa [update_of_ne other]

theorem run_keeps (here : session.blockEntries place = entry) (used : entry.inUse) {later : List BlockEvent}
    (unnamed : ∀ token, .remove token ∈ later → entry.named token = false) :
    (run blockStep session later).blockEntries place = entry := by
  induction later generalizing session with
  | nil => exact here
  | cons event rest ih =>
    have first := blockStep_keeps here used event fun token same => unnamed token (same ▸ List.mem_cons_self)
    exact ih first fun token inside => unnamed token (List.mem_cons_of_mem event inside)

theorem entry_hides {linkNoise : Bytes → Bool} (counted : Counted session) (here : session.blockEntries place = entry)
    {viewer : Viewer} {message : ShownEntry} (user : message.isUserMessage)
    (foreign : message.username ≠ viewer.name)
    (hides : entry.hides (lookupMemberIp viewer.members message.username) message.username) :
    shouldHideEntry linkNoise session viewer message := by
  have used : entry.inUse := by
    exact (Bool.and_eq_true_iff.mp hides).1
  have some' : session.blockEntryCount ≠ 0 := by
    rw [← here] at used
    have positive : 0 < usedCount BlockEntry.inUse session.blockEntries := usedCount_pos used
    rw [counted]
    omega
  have system : ¬ message.isUserMessage = false := by
    rw [user]
    exact Bool.noConfusion
  rw [shouldHideEntry, if_neg system, if_neg some', if_neg foreign]
  rw [Option.isSome_iff_ne_none]
  intro none'
  have missed := firstWith_none.mp none' place
  rw [here, hides] at missed
  cases missed

end Steps

section Law

/-- A block of one user reaches the messages of this user. A block of an address reaches what is sent from the address
and, as long as the address of the sender is not known, the messages of its user. -/
def Reached (ip : CText 63) (username : CText 255) (ipWide : Bool) (viewer : Viewer) (message : ShownEntry) : Prop :=
  let sender := lookupMemberIp viewer.members message.username
  if ipWide then
    (ip.text ≠ [] ∧ sender.text ≠ [] ∧ sender = ip) ∨
      (sender.text = [] ∧ username.text ≠ [] ∧ message.username = username)
  else username.text ≠ [] ∧ message.username = username

def Hidden (session : BlockSession) (block : BlockEntry) : Prop :=
  ∀ linkNoise viewer message, message.isUserMessage → message.username ≠ viewer.name →
    Reached block.ip block.username block.ipWide viewer message → shouldHideEntry linkNoise session viewer message

def Unnamed (block : BlockEntry) (later : List BlockEvent) : Prop :=
  ∀ token, .remove token ∈ later → block.named token = false

/-- What holds of a block list. -/
structure BlockLaw (session : BlockSession) : Prop where
  counted : session.blockEntryCount = usedCount BlockEntry.inUse session.blockEntries
  added : ∀ ip username ipWide later, (blocklistAdd session ip username ipWide).returned →
    Unnamed ⟨true, .print ip, .print username, ipWide⟩ later →
      Hidden (run blockStep session (.add ip username ipWide :: later)) ⟨true, .print ip, .print username, ipWide⟩
  -- A block of an address finds a block of its own kind when no block of one user has the address.
  present : ∀ ip username ipWide, (blocklistAdd session ip username ipWide).alreadyPresent →
    (∀ place, (session.blockEntries place).inUse → (session.blockEntries place).ip = .print ip → ipWide →
      (session.blockEntries place).ipWide) →
    ∃ place, (session.blockEntries place).inUse ∧ (session.blockEntries place).ipWide = ipWide ∧
      (if ipWide then (session.blockEntries place).ip = .print ip
        else (session.blockEntries place).username = .print username) ∧
      ∀ later, Unnamed (session.blockEntries place) later →
        Hidden (run blockStep session (.add ip username ipWide :: later)) (session.blockEntries place)
  removed : ∀ token, (blocklistRemove session token).2 →
    (∀ place other, (session.blockEntries place).named token → (session.blockEntries other).named token →
      place = other) →
    ∀ place, ((blocklistRemove session token).1.blockEntries place).named token = false

theorem reached_hides {block : BlockEntry} (used : block.inUse) {viewer : Viewer} {message : ShownEntry}
    (reached : Reached block.ip block.username block.ipWide viewer message) :
    block.hides (lookupMemberIp viewer.members message.username) message.username := by
  rw [BlockEntry.hides, used]
  cases wide : block.ipWide with
  | false =>
    rw [wide] at reached
    exact decide_eq_true ⟨reached.1, reached.2.symm⟩
  | true =>
    rw [wide] at reached
    apply decide_eq_true
    rcases reached with ⟨address, known, same⟩ | ⟨unknown, named, same⟩
    · exact .inl ⟨address, known, same.symm⟩
    · exact .inr ⟨unknown, named, same.symm⟩

/-- An entry that is reported as present has the address, or it is of the user. -/
theorem covers_kind {ip : CText 63} {username : CText 255} {ipWide : Bool} {entry : BlockEntry}
    (covers : entry.covers ip username ipWide) (kinds : entry.inUse → entry.ip = ip → ipWide → entry.ipWide) :
    entry.inUse ∧ entry.ipWide = ipWide ∧ if ipWide then entry.ip = ip else entry.username = username := by
  rw [BlockEntry.covers, Bool.and_eq_true] at covers
  obtain ⟨used, kind⟩ := covers
  refine ⟨used, ?_⟩
  cases ipWide with
  | true =>
    simp only [if_true, Bool.and_eq_true, decide_eq_true_eq] at kind ⊢
    exact ⟨kinds used kind.2 rfl, kind.2⟩
  | false =>
    simp only [Bool.false_eq_true, if_false, Bool.and_eq_true, decide_eq_true_eq, Bool.not_eq_true'] at kind ⊢
    exact ⟨kind.2, kind.1.2⟩

variable {session : BlockSession}

/-- An entry hides what it reaches in every later state until a removal names it. -/
theorem standing (counted : Counted session) {place : Fin maxBlocked} {block : BlockEntry}
    (here : session.blockEntries place = block) (used : block.inUse) {later : List BlockEvent}
    (unnamed : Unnamed block later) : Hidden (run blockStep session later) block := by
  intro linkNoise viewer message user foreign reached
  have still := run_keeps here used unnamed
  have counted' := run_invariant blockStep Counted blockStep_counted counted later
  exact entry_hides counted' still user foreign (reached_hides used reached)

theorem counted_law (counted : Counted session) : BlockLaw session := by
  constructor
  case counted => exact counted
  case added =>
    intro ip username ipWide later returned unnamed
    have next := blockStep_counted session (.add ip username ipWide) counted
    change Hidden (run blockStep (blockStep session (.add ip username ipWide)) later) _
    rw [blockStep] at next ⊢
    rcases add_cases session ip username ipWide with ⟨_, -, same⟩ | same | ⟨place, free, same⟩
    · rw [same] at returned
      cases returned
    · rw [same] at returned
      cases returned
    · rw [same] at next ⊢
      exact standing next (update_self place _ _) rfl unnamed
  case present =>
    intro ip username ipWide reported kinds
    rcases add_cases session ip username ipWide with ⟨place, covers, same⟩ | same | ⟨place, free, same⟩
    · obtain ⟨used, wide, kind⟩ := covers_kind covers (kinds place)
      refine ⟨place, used, wide, kind, ?_⟩
      intro later unnamed
      change Hidden (run blockStep (blockStep session (.add ip username ipWide)) later) _
      rw [blockStep, same]
      exact standing counted rfl used unnamed
    · rw [same] at reported
      cases reported
    · rw [same] at reported
      cases reported
  case removed =>
    intro token returned only other
    rcases remove_cases session token with ⟨-, same⟩ | ⟨place, named, same⟩
    · rw [same] at returned
      cases returned
    · rw [same]
      dsimp only
      by_cases here : other = place
      · subst here
        rw [update_self]
        rfl
      · rw [update_of_ne here, ← Bool.not_eq_true]
        exact fun named' => here (only other place named' named)

/-- In every run of additions and removals the block list keeps its law. -/
theorem block_list_law (events : List BlockEvent) : BlockLaw (run blockStep .initial events) :=
  counted_law (run_invariant blockStep Counted blockStep_counted initial_counted events)

def besideBob (name ip : Bytes) : Viewer := ⟨.print name, true, [⟨.print (str "bob"), .print ip, false⟩]⟩

/-- A line of the other user. -/
def bobSays : ShownEntry := ⟨true, .print (str "bob"), str "hello"⟩

/-- A user whose address is blocked is shown again at another address, and nobody is hidden from himself. -/
theorem block_shows :
    (blocklistAdd .initial (str "10.0.0.1") (str "bob") true).returned ∧
      shouldHideEntry (fun _ => false) (blockStep .initial (.add (str "10.0.0.1") (str "bob") true))
        (besideBob (str "amy") (str "10.0.0.2")) bobSays = false ∧
      (blocklistAdd .initial (str "10.0.0.1") (str "bob") false).returned ∧
      shouldHideEntry (fun _ => false) (blockStep .initial (.add (str "10.0.0.1") (str "bob") false))
        (besideBob (str "bob") (str "10.0.0.1")) bobSays = false := by
  decide +kernel

end Law

end SshChatter.Moderation
