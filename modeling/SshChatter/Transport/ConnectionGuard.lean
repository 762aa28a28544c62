import SshChatter.Lib.CString
import SshChatter.Lib.KeyedList
import SshChatter.Lib.SlotCompaction

namespace SshChatter.Transport
open CString List

/-- A `struct timespec` of a clock that never runs below zero. -/
structure Timespec where
  sec : Nat
  nsec : Nat
  small : nsec < 1000000000

namespace Timespec

theorem ext_iff {first second : Timespec} : first.sec = second.sec ∧ first.nsec = second.nsec ↔ first = second := by
  cases first
  cases second
  rw [mk.injEq]

/-- Times are compared by their two counters. -/
instance decidableEq : DecidableEq Timespec := fun first second =>
  decidable_of_iff (first.sec = second.sec ∧ first.nsec = second.nsec) ext_iff

theorem small_zero : 0 < 1000000000 := by decide

def zero : Timespec := ⟨0, 0, small_zero⟩

def toNs (value : Timespec) : Int := (value.sec : Int) * 1000000000 + value.nsec

@[simp] theorem toNs_zero : zero.toNs = 0 := rfl

def diff (finish start : Timespec) : Timespec :=
  let sec : Int := finish.sec - start.sec
  let nsec : Int := finish.nsec - start.nsec
  let borrowed : Int × Int := if nsec < 0 then (sec - 1, nsec + 1000000000) else (sec, nsec)
  if borrowed.1 < 0 then zero
  else ⟨borrowed.1.toNat, borrowed.2.toNat, by
    have finishSmall := finish.small
    have startSmall := start.small
    simp only [borrowed, nsec]
    split_ifs <;> simp only <;> omega⟩

def addNs (start : Timespec) (nanoseconds : Int) : Timespec :=
  if nanoseconds < 0 then start else
  let nsec := start.nsec + (nanoseconds % 1000000000).toNat
  let sec := start.sec + (nanoseconds / 1000000000).toNat
  if carry : 1000000000 ≤ nsec then ⟨sec + nsec / 1000000000, nsec % 1000000000, Nat.mod_lt _ (by decide)⟩
  else ⟨sec, nsec, Nat.lt_of_not_le carry⟩

def compare (lhs rhs : Timespec) : Int :=
  if lhs.sec < rhs.sec then -1
  else if rhs.sec < lhs.sec then 1
  else if lhs.nsec < rhs.nsec then -1
  else if rhs.nsec < lhs.nsec then 1
  else 0

theorem toNs_diff (finish start : Timespec) : (diff finish start).toNs = max 0 (finish.toNs - start.toNs) := by
  have finishSmall := finish.small
  have startSmall := start.small
  simp only [diff, toNs]
  split_ifs <;> simp only [zero] <;> omega

theorem toNs_addNs (start : Timespec) {nanoseconds : Int} (positive : 0 ≤ nanoseconds) :
    (addNs start nanoseconds).toNs = start.toNs + nanoseconds := by
  rw [addNs, if_neg (by omega)]
  simp only [toNs]
  split_ifs <;> simp only <;> omega

theorem compare_pos (lhs rhs : Timespec) : 0 < compare lhs rhs ↔ rhs.toNs < lhs.toNs := by
  have lhsSmall := lhs.small
  have rhsSmall := rhs.small
  simp only [compare, toNs]
  split_ifs <;> omega

theorem toNs_nonneg (value : Timespec) : 0 ≤ value.toNs := by
  rw [toNs]
  omega

theorem eq_zero_iff (value : Timespec) : value = zero ↔ value.toNs = 0 := by
  constructor
  · rintro rfl
    rfl
  · intro none
    obtain ⟨sec, nsec, small⟩ := value
    simp only [toNs] at none
    simp only [zero, mk.injEq]
    omega

end Timespec

abbrev ipLen : Nat := 64

instance ipRoom : NeZero ipLen := ⟨by decide⟩

def guardWindowNs : Int := 5000000000

def guardThreshold : Nat := 8

def guardBlockBaseNs : Int := 2000000000

def guardBlockStepNs : Int := 2000000000

def guardBlockMaxNs : Int := 60000000000

def guardRetentionNs : Int := 300000000000

def guardBanThreshold : Nat := 5

/-- This is `connection_guard_entry_t`. -/
structure GuardEntry where
  ip : CBuffer ipLen
  windowStart : Timespec
  attempts : Nat
  blockedUntil : Timespec
  blockCount : Nat
  lastSeen : Timespec
  deriving DecidableEq

def GuardEntry.zero : GuardEntry := ⟨.zero, .zero, 0, .zero, 0, .zero⟩

def GuardEntry.fresh (ip : Bytes) : GuardEntry := { GuardEntry.zero with ip := .print ip }

/-- This is `connection_guard_result_t`. -/
structure GuardResult where
  blocked : Bool
  escalateBan : Bool
  blockedUntil : Timespec
  attemptCount : Nat
  blockCount : Nat
  deriving DecidableEq

def GuardResult.zero : GuardResult := ⟨false, false, .zero, 0, 0⟩

/-- The table of the host. Its capacity is the number of slots. -/
structure ConnectionGuard where
  slots : List GuardEntry
  count : Nat
  within : count ≤ slots.length

def ConnectionGuard.entries (guard : ConnectionGuard) : List GuardEntry := guard.slots.take guard.count

def keepEntry (now : Timespec) (entry : GuardEntry) : Bool :=
  if entry.ip.text = [] then false
  else if entry.lastSeen ≠ .zero then (Timespec.diff now entry.lastSeen).toNs ≤ guardRetentionNs
  else true

/-- This is `host_connection_guard_prune_locked`. The cells behind the write position are cleared. -/
def pruneLocked (guard : ConnectionGuard) (now : Timespec) : ConnectionGuard :=
  let compacted := Compaction.compact (keepEntry now) guard.slots guard.count
  { slots := compacted.1.take compacted.2 ++ replicate (guard.count - compacted.2) GuardEntry.zero ++
      compacted.1.drop guard.count
    count := compacted.2
    within := by
      have progress := Compaction.progress_range (keepEntry now) guard.slots guard.within
      have length := progress.length
      have behind := progress.behind
      have within := guard.within
      simp only [length_append, length_take, length_replicate, length_drop]
      simp only [compacted]
      omega }

/-- This is `host_find_connection_guard_locked`. It returns the index of the entry. -/
def findLocked (guard : ConnectionGuard) (ip : Bytes) : Option Nat :=
  guard.entries.findIdx? fun entry => entry.ip.text.take ipLen = ip.take ipLen

/-- A full table is grown with cleared cells. -/
def growLocked (guard : ConnectionGuard) : ConnectionGuard :=
  if guard.slots.length ≤ guard.count then
    let newCapacity := if 0 < guard.slots.length then guard.slots.length * 2 else 16
    { guard with
      slots := guard.slots ++ replicate (newCapacity - guard.slots.length) GuardEntry.zero
      within := by
        have within := guard.within
        rw [length_append]
        omega }
  else guard

theorem growLocked_room (guard : ConnectionGuard) : guard.count < (growLocked guard).slots.length := by
  have within := guard.within
  by_cases full : guard.slots.length ≤ guard.count
  · simp only [growLocked, full, if_true, length_append, length_replicate]
    split_ifs <;> omega
  · simp only [growLocked, full, if_false]
    omega

/-- This is `host_ensure_connection_guard_locked` when the allocation succeeds. It returns the index of the entry. -/
def ensureLocked (guard : ConnectionGuard) (ip : Bytes) : Option (ConnectionGuard × Nat) :=
  if ip = [] then none else
  match findLocked guard ip with
  | some index => some (guard, index)
  | none => some (
      { slots := (growLocked guard).slots.set guard.count (.fresh ip)
        count := guard.count + 1
        within := by
          rw [length_set]
          exact growLocked_room guard }, guard.count)

def penaltyNs (blockCount : Nat) : Int :=
  min (guardBlockBaseNs + ((if 0 < blockCount then blockCount - 1 else 0 : Nat) : Int) * guardBlockStepNs)
    guardBlockMaxNs

/-- The window of attempts restarts when it is not set or too old. A very old one forgets the blocks. -/
def refreshWindow (now : Timespec) (entry : GuardEntry) : GuardEntry :=
  if entry.windowStart = .zero then { entry with windowStart := now, attempts := 0 } else
  let windowNs := (Timespec.diff now entry.windowStart).toNs
  if guardWindowNs < windowNs then
    { entry with
      windowStart := now
      attempts := 0
      blockCount := if guardRetentionNs < windowNs then 0 else entry.blockCount }
  else entry

def countUp (limit value : Nat) : Nat := if value < limit then value + 1 else value

def countAttempt (now : Timespec) (entry : GuardEntry) : GuardEntry × GuardResult :=
  let attempts := countUp (2 ^ 64 - 1) entry.attempts
  if guardThreshold ≤ attempts then
    let blockCount := countUp (2 ^ 32 - 1) entry.blockCount
    let blockedUntil := Timespec.addNs now (penaltyNs blockCount)
    ({ entry with windowStart := now, attempts := 0, blockCount := blockCount, blockedUntil := blockedUntil },
      ⟨true, guardBanThreshold ≤ blockCount, blockedUntil, attempts, blockCount⟩)
  else ({ entry with attempts := attempts }, ⟨false, false, .zero, attempts, entry.blockCount⟩)

/-- What `host_connection_guard_register` does to the entry that it found or made. -/
def registerEntry (now : Timespec) (entry : GuardEntry) : GuardEntry × GuardResult :=
  let seen := { entry with lastSeen := now }
  if seen.blockedUntil ≠ .zero ∧ 0 < Timespec.compare seen.blockedUntil now then
    (seen, ⟨true, false, seen.blockedUntil, seen.attempts, seen.blockCount⟩)
  else countAttempt now (refreshWindow now { seen with blockedUntil := .zero })

/-- This is `host_connection_guard_register` at a time. -/
def register (guard : ConnectionGuard) (ip : Bytes) (now : Timespec) : ConnectionGuard × GuardResult :=
  if ip = [] then (guard, .zero) else
  match ensureLocked (pruneLocked guard now) ip with
  | none => (pruneLocked guard now, .zero)
  | some (ensured, index) =>
    match ensured.slots[index]? with
    | none => (ensured, .zero)
    | some entry =>
      let registered := registerEntry now entry
      ({ ensured with
          slots := ensured.slots.set index registered.1
          within := by
            rw [length_set]
            exact ensured.within }, registered.2)

def GuardEntry.name (entry : GuardEntry) : Bytes := entry.ip.text

section Operations

variable {guard : ConnectionGuard} {ip : Bytes} {now : Timespec}

theorem pruneLocked_entries (guard : ConnectionGuard) (now : Timespec) :
    (pruneLocked guard now).entries = guard.entries.filter (keepEntry now) := by
  have progress := Compaction.progress_range (keepEntry now) guard.slots guard.within
  have length := progress.length
  have behind := progress.behind
  have within := guard.within
  rw [ConnectionGuard.entries, ConnectionGuard.entries, ← progress.written, pruneLocked]
  simp only [append_assoc]
  exact take_left' (by rw [length_take]; omega)

theorem growLocked_entries (guard : ConnectionGuard) :
    (growLocked guard).slots.take guard.count = guard.entries := by
  by_cases full : guard.slots.length ≤ guard.count
  · simp only [growLocked, full]
    exact take_append_of_le_length guard.within
  · simp only [growLocked, full]
    rfl

/-- The search compares whole addresses. -/
theorem findLocked_eq (guard : ConnectionGuard) (short : ip.length < ipLen) :
    findLocked guard ip = guard.entries.findIdx? fun entry => entry.name = ip := by
  rw [findLocked]
  congr 1
  funext entry
  rw [take_of_length_le entry.ip.fits.le, take_of_length_le short.le]
  rfl

/-- A found entry is replaced, and a missing one is appended. -/
theorem register_entries (guard : ConnectionGuard) (now : Timespec) (present : ip ≠ []) (short : ip.length < ipLen) :
    (∃ index entry, (guard.entries.filter (keepEntry now)).findIdx? (fun entry => entry.name = ip) = some index ∧
      (guard.entries.filter (keepEntry now))[index]? = some entry ∧
      (register guard ip now).1.entries =
        (guard.entries.filter (keepEntry now)).set index (registerEntry now entry).1 ∧
      (register guard ip now).2 = (registerEntry now entry).2) ∨
    (KeyedList.lookup GuardEntry.name (guard.entries.filter (keepEntry now)) ip = none ∧
      (register guard ip now).1.entries =
        guard.entries.filter (keepEntry now) ++ [(registerEntry now (.fresh ip)).1] ∧
      (register guard ip now).2 = (registerEntry now (.fresh ip)).2) := by
  rw [← pruneLocked_entries]
  generalize pruned : pruneLocked guard now = table
  have found := findLocked_eq table short
  cases search : table.entries.findIdx? fun entry => entry.name = ip with
  | some index =>
    rw [search] at found
    obtain ⟨inside, _⟩ := findIdx?_eq_some_iff_getElem.mp search
    have below : index < table.count ∧ index < table.slots.length := by
      rw [ConnectionGuard.entries, length_take] at inside
      omega
    have cell : table.slots[index]? = some table.entries[index] := by
      rw [← getElem?_eq_getElem inside, ConnectionGuard.entries, getElem?_take_of_lt below.1]
    refine .inl ⟨index, table.entries[index], rfl, getElem?_eq_getElem inside, ?_⟩
    simp only [register, present, if_false, pruned, ensureLocked, found, cell, and_true]
    exact take_set
  | none =>
    rw [search] at found
    have room := growLocked_room table
    have absent : KeyedList.lookup GuardEntry.name table.entries ip = none := by
      rw [KeyedList.lookup, find?_eq_none]
      intro entry member
      simp [findIdx?_eq_none_iff.mp search entry member]
    refine .inr ⟨absent, ?_⟩
    simp only [register, present, if_false, pruned, ensureLocked, found, getElem?_set_self room, and_true,
      set_set]
    rw [ConnectionGuard.entries, take_add_one, take_set_of_le le_rfl, getElem?_set_self room,
      growLocked_entries]
    rfl

/-- One entry for each address, and no entry without one. -/
structure Sound (guard : ConnectionGuard) : Prop where
  distinct : KeyedList.Distinct GuardEntry.name guard.entries
  named : ∀ entry ∈ guard.entries, entry.name ≠ []

theorem registerEntry_ip (now : Timespec) (entry : GuardEntry) : (registerEntry now entry).1.ip = entry.ip := by
  simp only [registerEntry, countAttempt, refreshWindow]
  split_ifs <;> rfl

theorem fresh_name (short : ip.length < ipLen) : (GuardEntry.fresh ip).name = ip :=
  take_of_length_le (by omega)

/-- The entry of the address is updated, and the other entries are only pruned. -/
theorem register_spec (sound : Sound guard) (present : ip ≠ []) (short : ip.length < ipLen) (now : Timespec) :
    let entry := ((KeyedList.lookup GuardEntry.name guard.entries ip).filter (keepEntry now)).getD (.fresh ip)
    (register guard ip now).2 = (registerEntry now entry).2 ∧
      (∀ other, KeyedList.lookup GuardEntry.name (register guard ip now).1.entries other =
        if other = ip then some (registerEntry now entry).1
        else (KeyedList.lookup GuardEntry.name guard.entries other).filter (keepEntry now)) ∧
      Sound (register guard ip now).1 := by
  intro entry
  have distinct := sound.distinct.filter (keepEntry now)
  have named : ∀ entry ∈ guard.entries.filter (keepEntry now), entry.name ≠ [] := fun entry member =>
    sound.named entry (mem_of_mem_filter member)
  have lookups := KeyedList.lookup_filter sound.distinct (keepEntry now)
  obtain ⟨index, old, search, cell, entries, result⟩ | ⟨absent, entries, result⟩ :=
    register_entries guard now present short
  · have found : KeyedList.lookup GuardEntry.name (guard.entries.filter (keepEntry now)) ip = some old := by
      rw [KeyedList.lookup, ← cell, find?_eq_bind_findIdx?_getElem?, search]
      rfl
    obtain rfl : entry = old := by
      simp only [entry, ← lookups, found, Option.getD_some]
    have same : (registerEntry now entry).1.name = ip := by
      rw [GuardEntry.name, registerEntry_ip]
      exact (KeyedList.lookup_some found).2
    have keys := KeyedList.map_set search same
    refine ⟨result, fun other => ?_, ?_, ?_⟩
    · rw [entries, KeyedList.lookup_set search same, lookups]
    · rw [entries, KeyedList.Distinct, keys]
      exact distinct
    · intro cell member
      have key : cell.name ∈ ((guard.entries.filter (keepEntry now)).set index (registerEntry now entry).1).map
          GuardEntry.name := by
        rw [entries] at member
        exact mem_map_of_mem member
      rw [keys] at key
      obtain ⟨kept, inside, equal⟩ := mem_map.mp key
      rw [← equal]
      exact named kept inside
  · have new : entry = .fresh ip := by
      simp only [entry, ← lookups, absent, Option.getD_none]
    rw [new]
    have same : (registerEntry now (.fresh ip)).1.name = ip := by
      exact fresh_name short
    have absent' := absent
    rw [← same] at absent'
    refine ⟨result, fun other => ?_, ?_, ?_⟩
    · rw [entries, KeyedList.lookup_append absent', same, lookups]
    · rw [entries]
      exact distinct.append absent'
    · intro cell member
      rw [entries, mem_append, mem_singleton] at member
      rcases member with inside | rfl
      · exact named cell inside
      · rw [same]
        exact present

end Operations

end SshChatter.Transport
