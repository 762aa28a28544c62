import Mathlib.Data.Finmap
import Mathlib.Data.Fintype.Basic
import Mathlib.Tactic

namespace OpenAddressing

/-- A bucket was never written, holds a live entry, or held one that was removed. -/
inductive BucketState where
  | empty
  | used
  | tombstone
  deriving DecidableEq, Repr

/-- The state and the entry of a bucket are stored in two arrays. -/
structure Table (Bucket Entry : Type) where
  state : Bucket → BucketState
  entries : Bucket → Entry

/-- A probing scheme visits every bucket within one cycle from any start. -/
structure Scheme (Bucket Key Entry : Type) where
  next : Bucket → Bucket
  hash : Key → Bucket
  keyOf : Entry → Key
  cycle : Nat
  covers : ∀ start target : Bucket, ∃ steps < cycle, next^[steps] start = target

section Operations

variable {Bucket Key Entry : Type}

/-- The search stops at an empty bucket and skips tombstones and other keys. -/
def Table.probe [DecidableEq Key] (scheme : Scheme Bucket Key Entry) (table : Table Bucket Entry) (key : Key) :
    Nat → Bucket → Option Bucket
  | 0, _ => none
  | fuel + 1, idx =>
    if table.state idx = .empty then none
    else if table.state idx = .used ∧ scheme.keyOf (table.entries idx) = key then some idx
    else table.probe scheme key fuel (scheme.next idx)

def Table.lookup [DecidableEq Key] (scheme : Scheme Bucket Key Entry) (table : Table Bucket Entry) (key : Key) :
    Option Bucket :=
  table.probe scheme key scheme.cycle (scheme.hash key)

def Table.freeBucket (scheme : Scheme Bucket Key Entry) (table : Table Bucket Entry) :
    Nat → Bucket → Option Bucket
  | 0, _ => none
  | fuel + 1, idx =>
    if table.state idx = .used then table.freeBucket scheme fuel (scheme.next idx) else some idx

def Table.store [DecidableEq Bucket] (table : Table Bucket Entry) (idx : Bucket) (entry : Entry) :
    Table Bucket Entry where
  state := Function.update table.state idx .used
  entries := Function.update table.entries idx entry

/-- The removal leaves a tombstone and keeps the stale entry behind it. -/
def Table.bury [DecidableEq Bucket] (table : Table Bucket Entry) (idx : Bucket) : Table Bucket Entry where
  state := Function.update table.state idx .tombstone
  entries := table.entries

end Operations

section Invariant

variable {Bucket Key Entry : Type}

def Table.ChainTo (scheme : Scheme Bucket Key Entry) (table : Table Bucket Entry)
    (key : Key) (target : Bucket) : Prop :=
  ∃ steps < scheme.cycle, scheme.next^[steps] (scheme.hash key) = target ∧
    ∀ earlier < steps, table.state (scheme.next^[earlier] (scheme.hash key)) ≠ .empty

/-- Each used bucket is reachable by its key, and a key occupies at most one bucket. -/
structure Table.WellFormed (scheme : Scheme Bucket Key Entry) (table : Table Bucket Entry) : Prop where
  chain : ∀ idx, table.state idx = .used → table.ChainTo scheme (scheme.keyOf (table.entries idx)) idx
  unique : ∀ i j, table.state i = .used → table.state j = .used →
    scheme.keyOf (table.entries i) = scheme.keyOf (table.entries j) → i = j

def Table.Represents [DecidableEq Key] (scheme : Scheme Bucket Key Entry) (table : Table Bucket Entry)
    (map : Finmap fun _ : Key => Entry) : Prop :=
  ∀ key entry, map.lookup key = some entry ↔
    ∃ idx, table.state idx = .used ∧ table.entries idx = entry ∧ scheme.keyOf entry = key

def Table.usedCount [Fintype Bucket] (table : Table Bucket Entry) : Nat :=
  (Finset.univ.filter fun idx => table.state idx = .used).card

end Invariant

section Search

variable {Bucket Key Entry : Type}
variable (scheme : Scheme Bucket Key Entry) (table : Table Bucket Entry)

theorem probe_sound [DecidableEq Key] {key : Key} {fuel : Nat} {start idx : Bucket}
    (found : table.probe scheme key fuel start = some idx) :
    table.state idx = .used ∧ scheme.keyOf (table.entries idx) = key := by
  induction fuel generalizing start with
  | zero => simp [Table.probe] at found
  | succ fuel ih =>
    rw [Table.probe] at found
    split at found
    · exact absurd found (by simp)
    · split at found
      next holds =>
        cases found
        exact holds
      next => exact ih found

/-- The search finds a used bucket at the end of a non-empty walk. -/
theorem probe_complete [DecidableEq Key] (wellFormed : table.WellFormed scheme) (idx : Bucket)
    (used : table.state idx = .used) (steps : Nat) :
    ∀ (fuel : Nat) (start : Bucket), steps < fuel → scheme.next^[steps] start = idx →
      (∀ earlier < steps, table.state (scheme.next^[earlier] start) ≠ .empty) →
      table.probe scheme (scheme.keyOf (table.entries idx)) fuel start = some idx := by
  induction steps with
  | zero =>
    rintro (_ | fuel) start inside reached -
    · omega
    · have same : start = idx := reached
      subst same
      simp [Table.probe, used]
  | succ steps ih =>
    rintro (_ | fuel) start inside reached nonEmpty
    · omega
    · have occupied : table.state start ≠ .empty := nonEmpty 0 (Nat.succ_pos _)
      rw [Table.probe, if_neg occupied]
      split
      -- The same key in an earlier used bucket is the same bucket.
      next holds => rw [wellFormed.unique start idx holds.1 used holds.2]
      next =>
        apply ih fuel (scheme.next start) (by omega)
        · simpa only [Function.iterate_succ_apply] using reached
        · intro earlier before
          simpa only [Function.iterate_succ_apply] using nonEmpty (earlier + 1) (by omega)

theorem lookup_eq_some_iff [DecidableEq Key] (wellFormed : table.WellFormed scheme) (key : Key) (idx : Bucket) :
    table.lookup scheme key = some idx ↔
      table.state idx = .used ∧ scheme.keyOf (table.entries idx) = key := by
  constructor
  · exact probe_sound scheme table
  · rintro ⟨used, rfl⟩
    obtain ⟨steps, inside, reached, nonEmpty⟩ := wellFormed.chain idx used
    exact probe_complete scheme table wellFormed idx used steps _ _ inside reached nonEmpty

theorem lookup_eq_none_iff [DecidableEq Key] (wellFormed : table.WellFormed scheme) (key : Key) :
    table.lookup scheme key = none ↔
      ∀ idx, table.state idx = .used → scheme.keyOf (table.entries idx) ≠ key := by
  rw [Option.eq_none_iff_forall_ne_some]
  constructor
  · intro absent idx used same
    exact absent idx ((lookup_eq_some_iff scheme table wellFormed key idx).mpr ⟨used, same⟩)
  · intro absent idx found
    have holds := (lookup_eq_some_iff scheme table wellFormed key idx).mp found
    exact absent idx holds.1 holds.2

/-- The insertion walk ends at an unused bucket behind used ones. -/
theorem freeBucket_sound {fuel : Nat} {start idx : Bucket}
    (found : table.freeBucket scheme fuel start = some idx) :
    table.state idx ≠ .used ∧ ∃ steps < fuel, scheme.next^[steps] start = idx ∧
      ∀ earlier < steps, table.state (scheme.next^[earlier] start) = .used := by
  induction fuel generalizing start with
  | zero => simp [Table.freeBucket] at found
  | succ fuel ih =>
    rw [Table.freeBucket] at found
    split at found
    next used =>
      obtain ⟨unused, steps, inside, reached, before⟩ := ih found
      refine ⟨unused, steps + 1, by omega, by simpa using reached, ?_⟩
      rintro (_ | earlier) inside'
      · exact used
      · simpa using before earlier (by omega)
    next unused =>
      cases found
      exact ⟨unused, 0, Nat.succ_pos _, rfl, by simp⟩

/-- The insertion walk ends when one unused bucket lies ahead within its fuel. -/
theorem freeBucket_isSome {fuel steps : Nat} {start : Bucket} (inside : steps < fuel)
    (unused : table.state (scheme.next^[steps] start) ≠ .used) :
    (table.freeBucket scheme fuel start).isSome := by
  induction fuel generalizing start steps with
  | zero => omega
  | succ fuel ih =>
    rw [Table.freeBucket]
    split
    next used =>
      cases steps with
      | zero => exact absurd used unused
      | succ =>
        exact ih (Nat.lt_of_succ_lt_succ inside) unused
    next => rfl

theorem freeBucket_terminates [Fintype Bucket] (room : table.usedCount < Fintype.card Bucket)
    (start : Bucket) : (table.freeBucket scheme scheme.cycle start).isSome := by
  obtain ⟨target, unused⟩ : ∃ target, table.state target ≠ .used := by
    by_contra all
    push Not at all
    have full : table.usedCount = Fintype.card Bucket := by
      simp [Table.usedCount, all]
    omega
  obtain ⟨steps, inside, rfl⟩ := scheme.covers start target
  exact freeBucket_isSome scheme table inside unused

theorem chainTo_of_freeBucket {key : Key} {idx : Bucket}
    (found : table.freeBucket scheme scheme.cycle (scheme.hash key) = some idx) :
    table.ChainTo scheme key idx := by
  obtain ⟨-, steps, inside, reached, before⟩ := freeBucket_sound scheme table found
  exact ⟨steps, inside, reached, fun earlier lt => by simp [before earlier lt]⟩

end Search

section Update

variable {Bucket Key Entry : Type} [DecidableEq Bucket]
variable (scheme : Scheme Bucket Key Entry) (table : Table Bucket Entry)

@[simp] theorem store_state_self (idx : Bucket) (entry : Entry) :
    (table.store idx entry).state idx = .used := by
  simp [Table.store]

@[simp] theorem store_entries_self (idx : Bucket) (entry : Entry) :
    (table.store idx entry).entries idx = entry := by
  simp [Table.store]

theorem store_state_of_ne {idx other : Bucket} (different : other ≠ idx) (entry : Entry) :
    (table.store idx entry).state other = table.state other := by
  simp [Table.store, different]

theorem store_entries_of_ne {idx other : Bucket} (different : other ≠ idx) (entry : Entry) :
    (table.store idx entry).entries other = table.entries other := by
  simp [Table.store, different]

@[simp] theorem bury_entries (idx : Bucket) : (table.bury idx).entries = table.entries := rfl

theorem bury_used_iff (idx other : Bucket) :
    (table.bury idx).state other = .used ↔ other ≠ idx ∧ table.state other = .used := by
  by_cases same : other = idx
  · subst same; simp [Table.bury]
  · simp [Table.bury, same]

theorem chainTo_store {key : Key} {target : Bucket} (idx : Bucket) (entry : Entry)
    (chain : table.ChainTo scheme key target) : (table.store idx entry).ChainTo scheme key target := by
  obtain ⟨steps, inside, reached, nonEmpty⟩ := chain
  refine ⟨steps, inside, reached, fun earlier before => ?_⟩
  by_cases same : scheme.next^[earlier] (scheme.hash key) = idx
  · rw [same]; simp
  · rw [store_state_of_ne table same]; exact nonEmpty earlier before

theorem chainTo_bury {key : Key} {target : Bucket} (idx : Bucket)
    (chain : table.ChainTo scheme key target) : (table.bury idx).ChainTo scheme key target := by
  obtain ⟨steps, inside, reached, nonEmpty⟩ := chain
  refine ⟨steps, inside, reached, fun earlier before => ?_⟩
  by_cases same : scheme.next^[earlier] (scheme.hash key) = idx
  · simp [Table.bury, same]
  · simpa [Table.bury, same] using nonEmpty earlier before

variable {map : Finmap fun _ : Key => Entry} {idx : Bucket}

theorem wellFormed_store (wellFormed : table.WellFormed scheme) {entry : Entry}
    (chain : table.ChainTo scheme (scheme.keyOf entry) idx)
    (only : ∀ other, table.state other = .used → scheme.keyOf (table.entries other) = scheme.keyOf entry →
      other = idx) :
    (table.store idx entry).WellFormed scheme := by
  constructor
  · intro other used
    by_cases same : other = idx
    · subst same
      rw [store_entries_self]
      exact chainTo_store scheme table _ entry chain
    · rw [store_state_of_ne table same] at used
      rw [store_entries_of_ne table same]
      exact chainTo_store scheme table idx entry (wellFormed.chain other used)
  · intro i j usedI usedJ sameKey
    by_cases first : i = idx <;> by_cases second : j = idx
    · rw [first, second]
    · subst first
      rw [store_entries_self, store_entries_of_ne table second] at sameKey
      rw [store_state_of_ne table second] at usedJ
      exact (only j usedJ sameKey.symm).symm
    · subst second
      rw [store_entries_self, store_entries_of_ne table first] at sameKey
      rw [store_state_of_ne table first] at usedI
      exact only i usedI sameKey
    · rw [store_entries_of_ne table first, store_entries_of_ne table second] at sameKey
      rw [store_state_of_ne table first] at usedI
      rw [store_state_of_ne table second] at usedJ
      exact wellFormed.unique i j usedI usedJ sameKey

theorem wellFormed_bury (wellFormed : table.WellFormed scheme) (idx : Bucket) :
    (table.bury idx).WellFormed scheme := by
  constructor
  · intro other used
    rw [bury_used_iff] at used
    exact chainTo_bury scheme table idx (wellFormed.chain other used.2)
  · intro i j usedI usedJ sameKey
    rw [bury_used_iff] at usedI usedJ
    exact wellFormed.unique i j usedI.2 usedJ.2 sameKey

/-- A write at the only bucket of its key inserts one binding. -/
theorem represents_store [DecidableEq Key] (represents : table.Represents scheme map) {entry : Entry}
    (only : ∀ other, table.state other = .used → scheme.keyOf (table.entries other) = scheme.keyOf entry → other = idx)
    (free : table.state idx = .used → scheme.keyOf (table.entries idx) = scheme.keyOf entry) :
    (table.store idx entry).Represents scheme (map.insert (scheme.keyOf entry) entry) := by
  intro key value
  by_cases sameKey : key = scheme.keyOf entry
  · subst sameKey
    rw [Finmap.lookup_insert, Option.some.injEq]
    constructor
    · rintro rfl
      exact ⟨idx, by simp, by simp, rfl⟩
    · rintro ⟨other, used, rfl, holds⟩
      by_cases same : other = idx
      · rw [same, store_entries_self]
      · rw [store_state_of_ne table same] at used
        rw [store_entries_of_ne table same] at holds
        exact absurd (only other used holds) same
  · rw [Finmap.lookup_insert_of_ne _ sameKey, represents key value]
    constructor
    · rintro ⟨other, used, holds, keyEq⟩
      -- The written bucket held the written key, so another key is elsewhere.
      have different : other ≠ idx := by
        rintro rfl
        exact sameKey (by rw [← keyEq, ← holds, free used])
      exact ⟨other, by rw [store_state_of_ne table different, used],
        by rw [store_entries_of_ne table different, holds], keyEq⟩
    · rintro ⟨other, used, holds, keyEq⟩
      have different : other ≠ idx := by
        rintro rfl
        rw [store_entries_self] at holds
        exact sameKey (by rw [← keyEq, holds])
      rw [store_state_of_ne table different] at used
      rw [store_entries_of_ne table different] at holds
      exact ⟨other, used, holds, keyEq⟩

/-- A removal of a used bucket erases its binding and no other. -/
theorem represents_bury [DecidableEq Key] (wellFormed : table.WellFormed scheme)
    (represents : table.Represents scheme map) (used : table.state idx = .used) :
    (table.bury idx).Represents scheme (map.erase (scheme.keyOf (table.entries idx))) := by
  intro key value
  by_cases sameKey : key = scheme.keyOf (table.entries idx)
  · subst sameKey
    rw [Finmap.lookup_erase]
    constructor
    · intro absurdity; cases absurdity
    · rintro ⟨other, still, holds, keyEq⟩
      rw [bury_used_iff] at still
      rw [bury_entries] at holds
      exact absurd (wellFormed.unique other idx still.2 used (by rw [holds, keyEq])) still.1
  · rw [Finmap.lookup_erase_ne sameKey, represents key value]
    constructor
    · rintro ⟨other, still, holds, keyEq⟩
      refine ⟨other, (bury_used_iff table idx other).mpr ⟨?_, still⟩, holds, keyEq⟩
      rintro rfl
      exact sameKey (by rw [← keyEq, holds])
    · rintro ⟨other, still, holds, keyEq⟩
      exact ⟨other, ((bury_used_iff table idx other).mp still).2, holds, keyEq⟩

end Update

section Count

variable {Bucket Entry : Type} [Fintype Bucket] [DecidableEq Bucket] (table : Table Bucket Entry)

theorem usedCount_store (idx : Bucket) (entry : Entry) :
    (table.store idx entry).usedCount =
      if table.state idx = .used then table.usedCount else table.usedCount + 1 := by
  have inserted : (Finset.univ.filter fun other => (table.store idx entry).state other = .used) =
      insert idx (Finset.univ.filter fun other => table.state other = .used) := by
    ext other
    by_cases same : other = idx
    · simp [same]
    · simp [same, store_state_of_ne table same]
  rw [Table.usedCount, inserted]
  split
  next used => rw [Finset.insert_eq_of_mem (by simp [used]), Table.usedCount]
  next unused => rw [Finset.card_insert_of_notMem (by simp [unused]), Table.usedCount]

theorem usedCount_bury {idx : Bucket} (used : table.state idx = .used) :
    (table.bury idx).usedCount = table.usedCount - 1 := by
  have erased : (Finset.univ.filter fun other => (table.bury idx).state other = .used) =
      (Finset.univ.filter fun other => table.state other = .used).erase idx := by
    ext other
    simp [bury_used_iff]
  rw [Table.usedCount, erased, Finset.card_erase_of_mem (by simp [used]), Table.usedCount]

end Count

section Map

variable {Bucket Key Entry : Type}
variable (scheme : Scheme Bucket Key Entry) (table : Table Bucket Entry)
variable {map : Finmap fun _ : Key => Entry}

theorem keys_card_eq_usedCount [Fintype Bucket] [DecidableEq Key] (wellFormed : table.WellFormed scheme)
    (represents : table.Represents scheme map) :
    map.keys.card = table.usedCount := by
  have keys : map.keys = (Finset.univ.filter fun idx => table.state idx = .used).image
      fun idx => scheme.keyOf (table.entries idx) := by
    ext key
    rw [Finmap.mem_keys, Finmap.mem_iff]
    simp only [Finset.mem_image, Finset.mem_filter, Finset.mem_univ, true_and]
    constructor
    · rintro ⟨entry, bound⟩
      obtain ⟨idx, used, rfl, keyEq⟩ := (represents key entry).mp bound
      exact ⟨idx, used, keyEq⟩
    · rintro ⟨idx, used, keyEq⟩
      exact ⟨table.entries idx, (represents key _).mpr ⟨idx, used, rfl, keyEq⟩⟩
  rw [keys, Finset.card_image_of_injOn, Table.usedCount]
  intro i usedI j usedJ sameKey
  simp only [Finset.coe_filter, Finset.mem_univ, true_and] at usedI usedJ
  exact wellFormed.unique i j usedI usedJ sameKey

theorem lookup_iff_bound [DecidableEq Key] (wellFormed : table.WellFormed scheme)
    (represents : table.Represents scheme map) (key : Key) (entry : Entry) :
    map.lookup key = some entry ↔
      ∃ idx, table.lookup scheme key = some idx ∧ table.entries idx = entry := by
  rw [represents key entry]
  constructor
  · rintro ⟨idx, used, rfl, keyEq⟩
    exact ⟨idx, (lookup_eq_some_iff scheme table wellFormed key idx).mpr ⟨used, keyEq⟩, rfl⟩
  · rintro ⟨idx, found, rfl⟩
    obtain ⟨used, keyEq⟩ := (lookup_eq_some_iff scheme table wellFormed key idx).mp found
    exact ⟨idx, used, rfl, keyEq⟩

theorem lookup_eq_none_iff_unbound [DecidableEq Key] (wellFormed : table.WellFormed scheme)
    (represents : table.Represents scheme map) (key : Key) :
    table.lookup scheme key = none ↔ key ∉ map := by
  rw [Finmap.mem_iff, Option.eq_none_iff_forall_ne_some]
  constructor
  · rintro absent ⟨entry, bound⟩
    obtain ⟨idx, found, -⟩ := (lookup_iff_bound scheme table wellFormed represents key entry).mp bound
    exact absent idx found
  · intro unbound idx found
    exact unbound ⟨_, (lookup_iff_bound scheme table wellFormed represents key _).mpr ⟨idx, found, rfl⟩⟩

end Map

end OpenAddressing
