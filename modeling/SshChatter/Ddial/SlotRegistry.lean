import SshChatter.Ddial.Protocol

namespace SshChatter.Ddial
open CString DdialProtocol Function List

def slotIsValid (slot : UInt16) : Bool :=
  if slot = 0 then true
  else if slot % 10 = 8 ∨ slot % 10 = 9 then false
  else slotIsValid (slot / 10)
termination_by slot.toNat
decreasing_by
  simp only [UInt16.toNat_div]
  have positive : slot.toNat ≠ 0 := fun zero => ‹¬slot = 0› (UInt16.toNat_inj.mp zero)
  exact Nat.div_lt_self (Nat.pos_of_ne_zero positive) (by decide)

/-- The loop of `ddial_allocate_slot_locked`. There is no result when it runs for more rounds. -/
def allocateLoop (used : UInt16 → Bool) : Nat → UInt16 → Option UInt16
  | 0, _ => none
  | rounds + 1, candidate =>
    if slotIsValid candidate = false then allocateLoop used rounds (candidate + 1)
    else if used candidate = false ∨ candidate = 65535 then some candidate
    else allocateLoop used rounds (candidate + 1)

def defaultChannel : UInt8 := 1

def usernameLen : Nat := 256

/-- This is `ddial_chat_link_entry_t`. -/
structure ChatLink (Host : Type) where
  host : Host
  slot : UInt16
  channel : UInt8
  handle : Bytes
  username : Bytes

/-- The two lists of participants, and the slot in each session. -/
structure Registry (Session Host : Type) where
  sessions : List Session
  slotOf : Session → UInt16
  chatLinks : List (ChatLink Host)

section Operations

variable {Session Host : Type} [DecidableEq Session] [DecidableEq Host]

def Registry.slots (registry : Registry Session Host) : List UInt16 :=
  registry.sessions.map registry.slotOf ++ registry.chatLinks.map ChatLink.slot

def Registry.used (registry : Registry Session Host) (candidate : UInt16) : Bool :=
  registry.sessions.any (fun sess => registry.slotOf sess = candidate) ||
    registry.chatLinks.any fun entry => entry.slot = candidate

/-- This is `ddial_allocate_slot_locked`, which must end before the candidate wraps. -/
def Registry.allocateSlotLocked (registry : Registry Session Host) : Option UInt16 :=
  allocateLoop registry.used 65535 1

/-- This is `host_ddial_register_session`. Without memory for the node nothing is registered. -/
def Registry.registerSession (registry : Registry Session Host) (sess : Session) (memory : Bool) :
    Option (Registry Session Host) :=
  if memory = false then some registry
  else registry.allocateSlotLocked.map fun slot =>
    { registry with sessions := sess :: registry.sessions, slotOf := update registry.slotOf sess slot }

def Registry.unregisterSession (registry : Registry Session Host) (sess : Session) : Registry Session Host :=
  { registry with sessions := registry.sessions.erase sess }

/-- This is `host_ddial_chat_link_add`. It returns zero when no entry is added. -/
def Registry.chatLinkAdd (registry : Registry Session Host) (host : Host) (displayName username : Bytes)
    (memory : Bool) : Option (Registry Session Host × UInt16) :=
  let handle := sanitizeHandle displayName maxHandleLen
  if displayName = [] ∨ handle = [] ∨ memory = false then some (registry, 0)
  else registry.allocateSlotLocked.map fun slot =>
    ({ registry with chatLinks :=
        ⟨host, slot, defaultChannel, handle, username.take (usernameLen - 1)⟩ :: registry.chatLinks }, slot)

def Registry.chatLinkRemove (registry : Registry Session Host) (host : Host) (slot : UInt16) :
    Registry Session Host :=
  if slot = 0 then registry
  else { registry with chatLinks := registry.chatLinks.eraseP fun entry => entry.host = host ∧ entry.slot = slot }

end Operations

/-- The calls that change the participants. -/
inductive Call (Session Host : Type) where
  | registerSession (sess : Session) (memory : Bool)
  | unregisterSession (sess : Session)
  | chatLinkAdd (host : Host) (displayName username : Bytes) (memory : Bool)
  | chatLinkRemove (host : Host) (slot : UInt16)
  deriving DecidableEq

section Runs

variable {Session Host : Type} [DecidableEq Session] [DecidableEq Host]

/-- What a call does. There is no result when the allocation does not end. -/
def Registry.step (registry : Registry Session Host) : Call Session Host → Option (Registry Session Host)
  | .registerSession sess memory => registry.registerSession sess memory
  | .unregisterSession sess => some (registry.unregisterSession sess)
  | .chatLinkAdd host displayName username memory =>
    (registry.chatLinkAdd host displayName username memory).map Prod.fst
  | .chatLinkRemove host slot => some (registry.chatLinkRemove host slot)

def Registry.run (registry : Registry Session Host) (calls : List (Call Session Host)) :
    Option (Registry Session Host) :=
  calls.foldlM Registry.step registry

/-- Nobody is there. -/
def Registry.empty : Registry Session Host := ⟨[], fun _ => 0, []⟩

def WireLegal (slot : UInt16) : Prop := slot ≠ 0 ∧ slotIsValid slot

instance : DecidablePred WireLegal := fun _ => inferInstanceAs (Decidable (_ ∧ _))

def legalSlots : Finset Nat := (Finset.Icc 1 65535).filter fun n => WireLegal (UInt16.ofNat n)

def Registry.HasRoom (registry : Registry Session Host) : Prop := registry.slots.length < legalSlots.card

def Registry.Allows (registry : Registry Session Host) : Call Session Host → Prop
  | .registerSession sess _ => sess ∉ registry.sessions ∧ registry.HasRoom
  | .chatLinkAdd .. => registry.HasRoom
  | _ => True

def Registry.AllowsAll (registry : Registry Session Host) : List (Call Session Host) → Prop
  | [] => True
  | call :: later => registry.Allows call ∧ ∀ next, registry.step call = some next → next.AllowsAll later

/-- The slots are legal, and no two participants share one. -/
structure Registry.Sound (registry : Registry Session Host) : Prop where
  once : registry.sessions.Nodup
  distinct : registry.slots.Nodup
  legal : ∀ slot ∈ registry.slots, WireLegal slot

/-- A call takes nobody away but the one that it removes, and it changes no slot. -/
structure Registry.Keeps (registry : Registry Session Host) (call : Call Session Host)
    (next : Registry Session Host) : Prop where
  sessions : ∀ sess ∈ registry.sessions, call ≠ .unregisterSession sess →
    sess ∈ next.sessions ∧ next.slotOf sess = registry.slotOf sess
  chatLinks : ∀ entry ∈ registry.chatLinks, call ≠ .chatLinkRemove entry.host entry.slot → entry ∈ next.chatLinks

/-- `host_ddial_chat_link_add` refuses the name. -/
def Unnamed (displayName : Bytes) : Prop := displayName = [] ∨ sanitizeHandle displayName maxHandleLen = []

instance : DecidablePred Unnamed := fun _ => inferInstanceAs (Decidable (_ ∨ _))

/-- The call adds one link, and the slot that it returns is the slot of that link. -/
def Registry.Links (registry : Registry Session Host) (host : Host) (displayName username : Bytes)
    (next : Registry Session Host) (entry : ChatLink Host) : Prop :=
  registry.chatLinkAdd host displayName username true = some (next, entry.slot) ∧
  next.chatLinks = entry :: registry.chatLinks ∧ next.sessions = registry.sessions ∧ entry.host = host ∧
  entry.handle = sanitizeHandle displayName maxHandleLen

structure Registry.LeastFree (registry : Registry Session Host) (slot : UInt16) : Prop where
  legal : WireLegal slot
  free : slot ∉ registry.slots
  least : ∀ other, WireLegal other → other ∉ registry.slots → slot ≤ other

end Runs

section Slots

theorem slotIsValid_iff (slot : UInt16) :
    slotIsValid slot ↔ ∀ digit ∈ Nat.digits 10 slot.toNat, digit ≠ 8 ∧ digit ≠ 9 := by
  fun_induction slotIsValid slot with
  | case1 => simp
  | case2 slot positive bad =>
    have nonzero : slot.toNat ≠ 0 := fun zero => positive (UInt16.toNat_inj.mp zero)
    rw [Nat.digits_of_two_le_of_pos (by decide) (pos_of_ne_zero nonzero)]
    simp only [← UInt16.toNat_inj] at bad
    simp only [Bool.false_eq_true, mem_cons, forall_eq_or_imp, false_iff, not_and]
    intro first
    rcases bad with eight | nine
    · exact absurd eight first.1
    · exact absurd nine first.2
  | case3 slot positive good ih =>
    have nonzero : slot.toNat ≠ 0 := fun zero => positive (UInt16.toNat_inj.mp zero)
    rw [Nat.digits_of_two_le_of_pos (by decide) (pos_of_ne_zero nonzero), ih]
    simp only [← UInt16.toNat_inj, not_or] at good
    simp only [mem_cons, forall_eq_or_imp]
    exact (and_iff_right good).symm

theorem slotIsValid_last : slotIsValid 65535 := by
  rw [slotIsValid_iff]
  decide

/-- The loop ends before the candidate wraps, and it passes over no free slot. -/
theorem allocateLoop_spec (used : UInt16 → Bool) {rounds : Nat} {candidate : UInt16}
    (left : candidate.toNat + rounds = 65536) (some : 0 < rounds) :
    ∃ slot, allocateLoop used rounds candidate = .some slot ∧ candidate ≤ slot ∧ slotIsValid slot ∧
      (used slot = false ∨ slot = 65535) ∧
      ∀ other, candidate ≤ other → other < slot → slotIsValid other → used other := by
  induction rounds generalizing candidate with
  | zero => exact absurd some (lt_irrefl 0)
  | succ rounds ih =>
    rw [allocateLoop]
    -- The next candidate is larger, because the last one is always taken.
    have next : candidate ≠ 65535 → (candidate + 1).toNat = candidate.toNat + 1 ∧ 0 < rounds := by
      intro notLast
      have below : candidate.toNat ≠ 65535 := fun last => notLast (UInt16.toNat_inj.mp last)
      change (candidate.toNat + 1) % 65536 = _ ∧ _
      omega
    have passed : candidate ≠ 65535 → (slotIsValid candidate → used candidate) →
        ∃ slot, allocateLoop used rounds (candidate + 1) = .some slot ∧ candidate ≤ slot ∧ slotIsValid slot ∧
          (used slot = false ∨ slot = 65535) ∧
          ∀ other, candidate ≤ other → other < slot → slotIsValid other → used other := by
      intro notLast taken
      obtain ⟨larger, more⟩ := next notLast
      obtain ⟨slot, found, least, valid, free, between⟩ :=
        ih (show (candidate + 1).toNat + rounds = 65536 by omega) more
      rw [UInt16.le_iff_toNat_le] at least
      refine ⟨slot, found, UInt16.le_iff_toNat_le.mpr (by omega), valid, free, ?_⟩
      intro other lower upper otherValid
      by_cases same : other = candidate
      · rw [same] at otherValid ⊢
        exact taken otherValid
      · have different : other.toNat ≠ candidate.toNat := fun equal => same (UInt16.toNat_inj.mp equal)
        rw [UInt16.le_iff_toNat_le] at lower
        exact between other (UInt16.le_iff_toNat_le.mpr (by omega)) upper otherValid
    by_cases invalid : slotIsValid candidate = false
    · rw [if_pos invalid]
      apply passed
      · rintro rfl
        rw [slotIsValid_last] at invalid
        cases invalid
      · intro valid
        rw [invalid] at valid
        cases valid
    · rw [if_neg invalid]
      by_cases taken : used candidate = false ∨ candidate = 65535
      · rw [if_pos taken]
        refine ⟨candidate, rfl, UInt16.le_refl _, Bool.not_eq_false _ ▸ invalid, taken, ?_⟩
        intro other lower upper
        rw [UInt16.le_iff_toNat_le] at lower
        rw [UInt16.lt_iff_toNat_lt] at upper
        omega
      · rw [if_neg taken]
        rw [not_or] at taken
        exact passed taken.2 fun _ => Bool.not_eq_false _ ▸ taken.1

variable {Session Host : Type} {registry : Registry Session Host}

theorem used_iff (candidate : UInt16) : registry.used candidate ↔ candidate ∈ registry.slots := by
  simp [Registry.used, Registry.slots]

theorem exists_free (room : registry.HasRoom) : ∃ slot, WireLegal slot ∧ slot ∉ registry.slots := by
  have fewer : (registry.slots.map UInt16.toNat).toFinset.card < legalSlots.card := by
    apply lt_of_le_of_lt (toFinset_card_le _)
    rw [length_map]
    exact room
  obtain ⟨n, member, missing⟩ := Finset.exists_mem_notMem_of_card_lt_card fewer
  obtain ⟨range, legal⟩ := Finset.mem_filter.mp member
  refine ⟨UInt16.ofNat n, legal, fun inside => missing ?_⟩
  rw [mem_toFinset]
  have small : n < 65536 := by
    have bounds := Finset.mem_Icc.mp range
    omega
  have same : (UInt16.ofNat n).toNat = n := UInt16.toNat_ofNat_of_lt' small
  rw [← same]
  exact mem_map_of_mem inside

theorem allocateSlotLocked_least (room : registry.HasRoom) :
    ∃ slot, registry.allocateSlotLocked = some slot ∧ registry.LeastFree slot := by
  obtain ⟨slot, found, least, valid, free, between⟩ :=
    allocateLoop_spec registry.used (show (1 : UInt16).toNat + 65535 = 65536 from rfl) (by decide)
  have passed : ∀ other, WireLegal other → other ∉ registry.slots → slot ≤ other := by
    intro other legal missing
    by_contra above
    have positive : other.toNat ≠ 0 := fun zero => legal.1 (UInt16.toNat_inj.mp zero)
    apply missing
    rw [← used_iff]
    apply between other _ (UInt16.not_le.mp above) legal.2
    exact pos_of_ne_zero positive
  refine ⟨slot, found, ?_, ?_, passed⟩
  · refine ⟨?_, valid⟩
    rintro rfl
    exact absurd least (by decide)
  · -- The last slot is in use only when every slot is.
    rcases free with free | rfl
    · rw [← used_iff, free]
      exact Bool.false_ne_true
    · obtain ⟨other, legal, missing⟩ := exists_free room
      have highest : other ≤ 65535 := by
        exact Nat.le_of_lt_succ other.toNat_lt
      rwa [← UInt16.le_antisymm highest (passed other legal missing)]

theorem Registry.Sound.add {slots : List UInt16} {slot : UInt16} (sound : registry.Sound)
    (least : registry.LeastFree slot)
    (added : slots.Perm (slot :: registry.slots)) : slots.Nodup ∧ ∀ other ∈ slots, WireLegal other := by
  rw [added.nodup_iff, nodup_cons]
  refine ⟨⟨least.free, sound.distinct⟩, ?_⟩
  intro other member
  rcases mem_cons.mp (added.mem_iff.mp member) with rfl | old
  · exact least.legal
  · exact sound.legal other old

theorem Registry.Sound.remove {slots : List UInt16} (sound : registry.Sound) (removed : slots.Sublist registry.slots) :
    slots.Nodup ∧ ∀ other ∈ slots, WireLegal other :=
  ⟨sound.distinct.sublist removed, fun other member => sound.legal other (removed.subset member)⟩

end Slots

section Steps

variable {Session Host : Type} [DecidableEq Session] [DecidableEq Host] {registry next : Registry Session Host}
variable {call : Call Session Host}

/-- What an allowed call can do. -/
theorem step_cases (allowed : registry.Allows call) :
    ∃ next, registry.step call = some next ∧
      ((next = registry ∧ (∀ sess, call ≠ .registerSession sess true) ∧
          ∀ host displayName username, call = .chatLinkAdd host displayName username true → Unnamed displayName) ∨
        (∃ sess slot, call = .registerSession sess true ∧ sess ∉ registry.sessions ∧ registry.LeastFree slot ∧
          next = { registry with sessions := sess :: registry.sessions,
                                 slotOf := update registry.slotOf sess slot }) ∨
        (∃ entry displayName username, call = .chatLinkAdd entry.host displayName username true ∧
          registry.chatLinkAdd entry.host displayName username true = some (next, entry.slot) ∧
          entry.handle = sanitizeHandle displayName maxHandleLen ∧ registry.LeastFree entry.slot ∧
          next = { registry with chatLinks := entry :: registry.chatLinks }) ∨
        (∃ sess, call = .unregisterSession sess ∧
          next = { registry with sessions := registry.sessions.erase sess }) ∨
        (∃ host slot, call = .chatLinkRemove host slot ∧
          next = { registry with
            chatLinks := registry.chatLinks.eraseP fun entry => entry.host = host ∧ entry.slot = slot })) := by
  cases call with
  | registerSession sess memory =>
    cases memory with
    | false => exact ⟨registry, rfl, .inl ⟨rfl, by simp, by simp⟩⟩
    | true =>
      obtain ⟨slot, found, least⟩ := allocateSlotLocked_least allowed.2
      refine ⟨_, ?_, .inr (.inl ⟨sess, slot, rfl, allowed.1, least, rfl⟩)⟩
      rw [Registry.step, Registry.registerSession, found]
      rfl
  | unregisterSession sess => exact ⟨_, rfl, .inr (.inr (.inr (.inl ⟨sess, rfl, rfl⟩)))⟩
  | chatLinkAdd host displayName username memory =>
    by_cases refused : displayName = [] ∨ sanitizeHandle displayName maxHandleLen = [] ∨ memory = false
    · refine ⟨registry, ?_, .inl ⟨rfl, by simp, ?_⟩⟩
      · rw [Registry.step, Registry.chatLinkAdd, if_pos refused]
        rfl
      · intro other name user same
        obtain ⟨-, rfl, -, rfl⟩ := Call.chatLinkAdd.inj same
        simpa [Unnamed] using refused
    · obtain ⟨slot, found, least⟩ := allocateSlotLocked_least allowed
      have known : memory := by
        simp only [not_or, Bool.not_eq_false] at refused
        exact refused.2.2
      subst known
      let entry : ChatLink Host :=
        ⟨host, slot, defaultChannel, sanitizeHandle displayName maxHandleLen, username.take (usernameLen - 1)⟩
      have added : registry.chatLinkAdd host displayName username true =
          some ({ registry with chatLinks := entry :: registry.chatLinks }, slot) := by
        rw [Registry.chatLinkAdd, if_neg refused, found]
        rfl
      refine ⟨_, ?_, .inr (.inr (.inl ⟨entry, displayName, username, rfl, added, rfl, least, rfl⟩))⟩
      rw [Registry.step, added]
      rfl
  | chatLinkRemove host slot =>
    by_cases zero : slot = 0
    · refine ⟨registry, ?_, .inl ⟨rfl, by simp, by simp⟩⟩
      rw [Registry.step, Registry.chatLinkRemove, if_pos zero]
    · refine ⟨_, ?_, .inr (.inr (.inr (.inr ⟨host, slot, rfl, rfl⟩)))⟩
      rw [Registry.step, Registry.chatLinkRemove, if_neg zero]

/-- The other sessions keep their slots when a new one gets its own. -/
theorem map_update {sessions : List Session} {sess : Session} (fresh : sess ∉ sessions) (slotOf : Session → UInt16)
    (slot : UInt16) : sessions.map (update slotOf sess slot) = sessions.map slotOf := by
  apply map_congr_left
  intro other member
  apply update_of_ne
  rintro rfl
  exact fresh member

omit [DecidableEq Host] in
theorem Registry.Sound.register {sess : Session} {slot : UInt16} (sound : registry.Sound)
    (fresh : sess ∉ registry.sessions) (least : registry.LeastFree slot) :
    Registry.Sound { registry with sessions := sess :: registry.sessions,
                                   slotOf := update registry.slotOf sess slot } := by
  have added : (update registry.slotOf sess slot sess ::
      registry.sessions.map (update registry.slotOf sess slot) ++ registry.chatLinks.map ChatLink.slot).Perm
      (slot :: registry.slots) := by
    rw [map_update fresh, update_self]
    exact List.Perm.refl _
  have slots := sound.add least added
  exact ⟨nodup_cons.mpr ⟨fresh, sound.once⟩, slots.1, slots.2⟩

omit [DecidableEq Session] [DecidableEq Host] in
theorem Registry.Sound.link {entry : ChatLink Host} (sound : registry.Sound) (least : registry.LeastFree entry.slot) :
    Registry.Sound { registry with chatLinks := entry :: registry.chatLinks } := by
  have slots := sound.add least perm_middle
  exact ⟨sound.once, slots.1, slots.2⟩

omit [DecidableEq Host] in
theorem Registry.Sound.unregister (sound : registry.Sound) (sess : Session) :
    Registry.Sound { registry with sessions := registry.sessions.erase sess } := by
  have removed : ((registry.sessions.erase sess).map registry.slotOf ++ registry.chatLinks.map ChatLink.slot).Sublist
      registry.slots := (erase_sublist.map _).append_right _
  have slots := sound.remove removed
  exact ⟨sound.once.erase sess, slots.1, slots.2⟩

omit [DecidableEq Session] [DecidableEq Host] in
theorem Registry.Sound.unlink (sound : registry.Sound) (leaves : ChatLink Host → Bool) :
    Registry.Sound { registry with chatLinks := registry.chatLinks.eraseP leaves } := by
  have removed : (registry.sessions.map registry.slotOf ++ (registry.chatLinks.eraseP leaves).map ChatLink.slot).Sublist
      registry.slots := (eraseP_sublist.map _).append_left _
  have slots := sound.remove removed
  exact ⟨sound.once, slots.1, slots.2⟩

theorem step_sound (allowed : registry.Allows call) (sound : registry.Sound) :
    ∃ next, registry.step call = some next ∧ next.Sound ∧ registry.Keeps call next ∧
      (∀ sess, call = .registerSession sess true → sess ∈ next.sessions ∧ registry.LeastFree (next.slotOf sess)) ∧
      (∀ host displayName username, call = .chatLinkAdd host displayName username true → ¬Unnamed displayName →
        ∃ entry, registry.Links host displayName username next entry ∧ registry.LeastFree entry.slot) ∧
      ∀ entry ∈ next.chatLinks, entry ∈ registry.chatLinks ∨ registry.LeastFree entry.slot := by
  obtain ⟨next, done, ⟨rfl, other, refused⟩ | ⟨sess, slot, rfl, fresh, least, rfl⟩ |
    ⟨entry, displayName, username, rfl, added, handle, least, rfl⟩ | ⟨sess, rfl, rfl⟩ | ⟨host, slot, rfl, rfl⟩⟩ :=
    step_cases allowed
  · refine ⟨next, done, sound, ⟨fun sess member _ => ⟨member, rfl⟩, fun entry member _ => member⟩, ?_, ?_, ?_⟩
    · intro sess same
      exact absurd same (other sess)
    · intro host displayName username same named
      exact absurd (refused host displayName username same) named
    · exact fun entry member => .inl member
  · refine ⟨_, done, sound.register fresh least, ⟨?_, fun entry member _ => member⟩, ?_, by simp,
      fun entry member => .inl member⟩
    · intro other member _
      refine ⟨mem_cons_of_mem _ member, update_of_ne ?_ _ _⟩
      rintro rfl
      exact fresh member
    · intro other same
      obtain ⟨rfl, -⟩ := Call.registerSession.inj same
      refine ⟨mem_cons_self, ?_⟩
      simp only [update_self]
      exact least
  · refine ⟨_, done, sound.link least, ⟨fun sess member _ => ⟨member, rfl⟩, ?_⟩, by simp, ?_, ?_⟩
    · intro other member _
      exact mem_cons_of_mem _ member
    · intro host name user same _
      obtain ⟨rfl, rfl, rfl, -⟩ := Call.chatLinkAdd.inj same
      exact ⟨entry, ⟨added, rfl, rfl, rfl, handle⟩, least⟩
    · intro other member
      rcases mem_cons.mp member with rfl | old
      · exact .inr least
      · exact .inl old
  · refine ⟨_, done, sound.unregister sess, ⟨?_, fun entry member _ => member⟩, by simp, by simp,
      fun entry member => .inl member⟩
    intro other member different
    refine ⟨(mem_erase_of_ne ?_).mpr member, rfl⟩
    rintro rfl
    exact different rfl
  · refine ⟨_, done, sound.unlink _, ⟨fun sess member _ => ⟨member, rfl⟩, ?_⟩, by simp, by simp, ?_⟩
    · intro entry member different
      apply (mem_eraseP_of_neg _).mpr member
      simp only [decide_eq_true_eq]
      rintro ⟨rfl, rfl⟩
      exact different rfl
    · exact fun entry member => .inl (mem_of_mem_eraseP member)

theorem run_sound {calls : List (Call Session Host)} (allowed : registry.AllowsAll calls) (sound : registry.Sound) :
    ∃ final, registry.run calls = some final ∧ final.Sound ∧
      (∀ sess ∈ registry.sessions, .unregisterSession sess ∉ calls →
        sess ∈ final.sessions ∧ final.slotOf sess = registry.slotOf sess) ∧
      ∀ entry ∈ registry.chatLinks, .chatLinkRemove entry.host entry.slot ∉ calls → entry ∈ final.chatLinks := by
  induction calls generalizing registry with
  | nil => exact ⟨registry, rfl, sound, fun sess member _ => ⟨member, rfl⟩, fun entry member _ => member⟩
  | cons call later ih =>
    obtain ⟨next, done, nextSound, keeps, -⟩ := step_sound allowed.1 sound
    obtain ⟨final, rest, finalSound, sessions, chatLinks⟩ := ih (allowed.2 next done) nextSound
    refine ⟨final, ?_, finalSound, ?_, ?_⟩
    · rw [Registry.run, foldlM_cons, done]
      exact rest
    · intro sess member stays
      rw [mem_cons, not_or] at stays
      obtain ⟨there, same⟩ := keeps.sessions sess member (Ne.symm stays.1)
      obtain ⟨still, kept⟩ := sessions sess there stays.2
      exact ⟨still, kept.trans same⟩
    · intro entry member stays
      rw [mem_cons, not_or] at stays
      exact chatLinks entry (keeps.chatLinks entry member (Ne.symm stays.1)) stays.2

end Steps

end SshChatter.Ddial
