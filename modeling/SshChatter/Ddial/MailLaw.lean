import SshChatter.Ddial.MailStore

namespace SshChatter.Ddial
open CString EventRun List

/-- A call on the store with its arguments. The members are those of the roll at the time of the call. -/
inductive MailEvent
  | send (members : List Member) (toNumber fromNumber : UInt32) (fromHandle : Option Bytes) (text : Bytes)
      (offline : Bool) (now : Int)
  | visit (toNumber : UInt32) (offline consume callback : Bool)
  | delete (toNumber id : UInt32)

def mailStep (store : MailStore) : MailEvent → MailStore
  | .send members toNumber fromNumber fromHandle text offline now =>
    (mailSend store members toNumber fromNumber fromHandle text offline now).1
  | .visit toNumber offline consume callback => (mailVisit store toNumber offline consume callback).1
  | .delete toNumber id => (mailDelete store toNumber id).1

def accepted (store : MailStore) : MailEvent → List Mail
  | .send members toNumber fromNumber fromHandle text offline now =>
    if (findNo members toNumber).isSome ∧ store.count < mailMax then
      [newMail store.nextId toNumber fromNumber fromHandle now text offline]
    else []
  | _ => []

def removes : MailEvent → Mail → Bool
  | .send .., _ => false
  | .visit toNumber offline consume _, m => consume && visits toNumber offline m
  | .delete toNumber id, m => deletes toNumber id m

def MailEvent.isSend : MailEvent → Bool
  | send .. => true
  | _ => false

/-- The messages have their own identifiers, below the next one. -/
structure MailSound (store : MailStore) : Prop where
  nonzero : ∀ m ∈ store.mails, m.id ≠ 0
  distinct : (store.mails.map Mail.id).Nodup
  below : ∀ m ∈ store.mails, m.id < store.nextId
  started : store.nextId ≠ 0

section Steps

variable {store : MailStore}

/-- A call drops the messages that it removes and appends the accepted one. -/
theorem mailStep_mails (store : MailStore) (event : MailEvent) :
    (mailStep store event).mails = store.mails.filter (fun m => !removes event m) ++ accepted store event := by
  cases event with
  | send members toNumber fromNumber fromHandle text offline now =>
    have all : store.mails.filter (fun m => !removes (.send members toNumber fromNumber fromHandle text offline now)
        m) = store.mails := by simp [removes]
    rw [all, mailStep, accepted]
    split_ifs with accepts
    · exact (mailSend_mails store accepts fromNumber fromHandle text offline now).1
    · rw [mailSend_refused store accepts, append_nil]
  | visit toNumber offline consume callback =>
    obtain ⟨-, taken, idle⟩ := mailVisit_spec store toNumber offline consume callback
    cases consume with
    | false => simp [mailStep, idle rfl, removes, accepted]
    | true => simp [mailStep, taken rfl, removes, accepted]
  | delete toNumber id => simp [mailStep, (mailDelete_spec store toNumber id).1, removes, accepted]

theorem mailStep_nextId (store : MailStore) (event : MailEvent) :
    (mailStep store event).nextId = store.nextId + UInt32.ofNat (accepted store event).length := by
  cases event with
  | send members toNumber fromNumber fromHandle text offline now =>
    rw [mailStep, accepted]
    split_ifs with accepts
    · exact (mailSend_mails store accepts fromNumber fromHandle text offline now).2.1
    · rw [mailSend_refused store accepts]
      simp
  | visit | delete => simp [mailStep, mailVisit, mailDelete, accepted]

theorem accepted_cases (store : MailStore) (event : MailEvent) :
    accepted store event = [] ∨ event.isSend ∧ ∃ m, accepted store event = [m] ∧ m.id = store.nextId := by
  cases event with
  | send =>
    rw [accepted]
    split_ifs
    · exact .inr ⟨rfl, _, rfl, rfl⟩
    · exact .inl rfl
  | visit | delete => exact .inl rfl

/-- A call keeps the identifiers apart while the counter has room. -/
theorem MailSound.step (sound : MailSound store) (event : MailEvent)
    (room : event.isSend → store.nextId.toNat + 1 < 2 ^ 32) : MailSound (mailStep store event) := by
  have mails := mailStep_mails store event
  have next := mailStep_nextId store event
  have kept : ∀ m ∈ store.mails.filter (fun m => !removes event m), m ∈ store.mails := fun m => mem_of_mem_filter
  have apart := List.Nodup.sublist (filter_sublist (p := fun m => !removes event m).map Mail.id) sound.distinct
  obtain ⟨none⟩ | ⟨isSend, m, one, named⟩ := accepted_cases store event
  · rw [none, append_nil] at mails
    have same : (mailStep store event).nextId = store.nextId := by simp [next, none]
    constructor
    case nonzero => simpa [mails] using fun m member _ => sound.nonzero m member
    case distinct => rwa [mails]
    case below => simpa [mails, same] using fun m member _ => sound.below m member
    case started => simpa [same] using sound.started
  · rw [one] at mails
    have grown : (mailStep store event).nextId.toNat = store.nextId.toNat + 1 := by
      have small := room isSend
      rw [next, one]
      exact Nat.mod_eq_of_lt small
    have old : ∀ m ∈ store.mails, m.id.toNat < store.nextId.toNat := fun m member =>
      UInt32.lt_iff_toNat_lt.mp (sound.below m member)
    constructor
    case nonzero =>
      rw [mails, forall_mem_append, forall_mem_singleton, named]
      exact ⟨fun m member => sound.nonzero m (kept m member), sound.started⟩
    case distinct =>
      rw [mails, map_append, nodup_append]
      refine ⟨apart, nodup_singleton _, ?_⟩
      simp only [mem_map, map_cons, map_nil, mem_singleton]
      rintro id ⟨other, member, rfl⟩ _ rfl same
      have less := old other (kept other member)
      rw [same, named] at less
      exact lt_irrefl _ less
    case below =>
      rw [mails, forall_mem_append, forall_mem_singleton]
      constructor
      · intro m member
        have less := old m (kept m member)
        rw [UInt32.lt_iff_toNat_lt]
        omega
      · rw [named, UInt32.lt_iff_toNat_lt]
        omega
    case started =>
      intro zero
      rw [zero] at grown
      exact absurd grown (by simp)

end Steps

section Runs

variable {start : MailStore}

def sends (events : List MailEvent) : Nat := events.countP MailEvent.isSend

/-- A call uses up at most one identifier, and only a send does. -/
theorem mailStep_room {event : MailEvent} {rest : List MailEvent} (few : start.nextId.toNat + sends (event :: rest) <
    2 ^ 32) :
    (event.isSend → start.nextId.toNat + 1 < 2 ^ 32) ∧
      (mailStep start event).nextId.toNat + sends rest < 2 ^ 32 ∧
        start.nextId.toNat ≤ (mailStep start event).nextId.toNat := by
  have next := mailStep_nextId start event
  rw [sends, countP_cons] at few
  rw [sends]
  obtain ⟨none⟩ | ⟨isSend, m, one, -⟩ := accepted_cases start event
  · have same : (mailStep start event).nextId = start.nextId := by simp [next, none]
    rw [same]
    refine ⟨?_, by omega, le_rfl⟩
    intro isSend
    rw [if_pos isSend] at few
    omega
  · rw [if_pos isSend] at few
    have grown : (mailStep start event).nextId.toNat = start.nextId.toNat + 1 := by
      rw [next, one]
      exact Nat.mod_eq_of_lt (show start.nextId.toNat + 1 < 2 ^ 32 by omega)
    omega

theorem MailSound.run (sound : MailSound start) (events : List MailEvent)
    (few : start.nextId.toNat + sends events < 2 ^ 32) : MailSound (run mailStep start events) := by
  induction events generalizing start with
  | nil => exact sound
  | cons event rest ih =>
    obtain ⟨room, later, -⟩ := mailStep_room few
    exact ih (sound.step event room) later

variable (events : List MailEvent)

end Runs

end SshChatter.Ddial
