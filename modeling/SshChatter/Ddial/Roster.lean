import SshChatter.Lib.CString
import SshChatter.Lib.OpenAddressing

namespace SshChatter.DdialRoster
open CString OpenAddressing

abbrev buckets : Nat := 1024

/-- This is `DDIAL_ROSTER_MAX`. -/
abbrev maxUsers : Nat := 512

/-- A key is a lowercased handle or the text `?#link#slot`. -/
abbrev Key := CBuffer 48

/-- One user on the far side of the link. -/
structure Entry where
  key : Key
  handle : CBuffer 32
  station : CBuffer 32
  linkSlot : UInt16
  slot : UInt16
  deriving DecidableEq

def makeKey (handle : Bytes) (linkSlot slot : UInt16) : Key :=
  if handle = str "?" then
    .print (str "?#" ++ decimal linkSlot.toNat ++ str "#" ++ decimal slot.toNat)
  else .print (handle.map toLower)

/-- The hash is FNV-1a reduced by the bucket mask. -/
def hash (key : Key) : Fin buckets :=
  let h : UInt32 := key.text.foldl (fun h c => (h ^^^ c.toUInt32) * 16777619) 2166136261
  ⟨h.toNat &&& (buckets - 1), Nat.lt_of_le_of_lt Nat.and_le_right (by decide)⟩

def nextBucket (idx : Fin buckets) : Fin buckets :=
  ⟨(idx.val + 1) &&& (buckets - 1), Nat.lt_of_le_of_lt Nat.and_le_right (by decide)⟩

theorem nextBucket_val (idx : Fin buckets) : (nextBucket idx).val = (idx.val + 1) % buckets :=
  Nat.and_two_pow_sub_one_eq_mod (idx.val + 1) 10

theorem nextBucket_iterate_val (start : Fin buckets) (steps : Nat) :
    (nextBucket^[steps] start).val = (start.val + steps) % buckets := by
  induction steps with
  | zero => simp [Nat.mod_eq_of_lt start.isLt]
  | succ steps ih =>
    rw [Function.iterate_succ_apply', nextBucket_val, ih, Nat.mod_add_mod, add_assoc]

/-- Linear probing visits every bucket of the table. -/
def scheme : Scheme (Fin buckets) Key Entry where
  next := nextBucket
  hash := hash
  keyOf := Entry.key
  cycle := buckets
  covers := by
    intro start target
    refine ⟨(target.val + buckets - start.val) % buckets, Nat.mod_lt _ (by decide), ?_⟩
    apply Fin.ext
    rw [nextBucket_iterate_val]
    have first := start.isLt
    have second := target.isLt
    unfold buckets at *
    omega

structure Roster extends Table (Fin buckets) Entry where
  count : Nat

def Entry.blank (key : Key) : Entry := ⟨key, .zero, .zero, 0, 0⟩

def Roster.empty : Roster := ⟨⟨fun _ => .empty, fun _ => .blank .zero⟩, 0⟩

/-- This is `ddial_roster_lookup_locked`. The absent result stands for `SIZE_MAX`. -/
def Roster.lookupLocked (roster : Roster) (key : Key) : Option (Fin buckets) :=
  roster.toTable.lookup scheme key

/-- The put overwrites the handle and the slots, and it keeps a known station. -/
def Entry.fill (entry : Entry) (handle : Bytes) (linkSlot slot : UInt16) (station : Option Bytes) :
    Entry :=
  { entry with
    handle := .print handle
    linkSlot := linkSlot
    slot := slot
    station := match station with
      | some name => .print name
      | none => entry.station }

/-- This is `ddial_roster_put_locked`. The result is absent when the insertion walk never ends. -/
def Roster.putLocked (roster : Roster) (handle : Bytes) (linkSlot slot : UInt16)
    (station : Option Bytes) : Option Roster :=
  let key := makeKey handle linkSlot slot
  if key.text = [] then some roster
  else match roster.lookupLocked key with
    | some idx =>
      some { roster with
        toTable := roster.toTable.store idx ((roster.entries idx).fill handle linkSlot slot station) }
    | none =>
      if maxUsers ≤ roster.count then some roster
      else match roster.toTable.freeBucket scheme buckets (hash key) with
        | some idx =>
          some ⟨roster.toTable.store idx ((Entry.blank key).fill handle linkSlot slot station),
            roster.count + 1⟩
        | none => none

def Roster.removeAtLocked (roster : Roster) (idx : Fin buckets) : Roster :=
  ⟨roster.toTable.bury idx, roster.count - 1⟩

def Roster.removeLocked (roster : Roster) (handle : Bytes) (linkSlot slot : UInt16) : Roster :=
  match roster.lookupLocked (makeKey handle linkSlot slot) with
  | some idx => roster.removeAtLocked idx
  | none => roster

abbrev RosterMap := Finmap fun _ : Key => Entry

def RosterMap.put (map : RosterMap) (handle : Bytes) (linkSlot slot : UInt16)
    (station : Option Bytes) : RosterMap :=
  let key := makeKey handle linkSlot slot
  if key.text = [] then map
  else match map.lookup key with
    | some entry => map.insert key (entry.fill handle linkSlot slot station)
    | none =>
      if maxUsers ≤ map.keys.card then map
      else map.insert key ((Entry.blank key).fill handle linkSlot slot station)

/-- A run applies the roster operations and the abstract operations side by side. -/
inductive Reaches : Roster → RosterMap → Prop
  | init : Reaches .empty ∅
  | put {roster roster' : Roster} {map : RosterMap} (handle : Bytes) (linkSlot slot : UInt16)
      (station : Option Bytes) : Reaches roster map →
      roster.putLocked handle linkSlot slot station = some roster' →
      Reaches roster' (map.put handle linkSlot slot station)
  | remove {roster : Roster} {map : RosterMap} (handle : Bytes) (linkSlot slot : UInt16) :
      Reaches roster map →
      Reaches (roster.removeLocked handle linkSlot slot) (map.erase (makeKey handle linkSlot slot))
  | removeAt {roster : Roster} {map : RosterMap} (idx : Fin buckets) :
      Reaches roster map → roster.state idx = .used →
      Reaches (roster.removeAtLocked idx) (map.erase (roster.entries idx).key)

/-- The concrete table is well formed, counts its users, and holds the abstract bindings. -/
structure Refines (roster : Roster) (map : RosterMap) : Prop where
  wellFormed : roster.toTable.WellFormed scheme
  represents : roster.toTable.Represents scheme map
  counted : roster.count = roster.toTable.usedCount
  bounded : roster.count ≤ maxUsers

section Invariant

variable {roster : Roster} {map : RosterMap}

theorem Refines.count_eq_card (refines : Refines roster map) : roster.count = map.keys.card := by
  rw [refines.counted, keys_card_eq_usedCount scheme roster.toTable refines.wellFormed refines.represents]

theorem refines_empty : Refines .empty ∅ where
  wellFormed := by constructor <;> simp [Roster.empty]
  represents := by intro key entry; simp [Roster.empty]
  counted := by simp [Roster.empty, Table.usedCount]
  bounded := Nat.zero_le _

/-- The counter leaves room for the insertion walk. -/
theorem Refines.freeBucket_isSome (refines : Refines roster map) (key : Key) :
    (roster.toTable.freeBucket scheme buckets (hash key)).isSome := by
  apply freeBucket_terminates scheme roster.toTable
  rw [← refines.counted, Fintype.card_fin]
  exact lt_of_le_of_lt refines.bounded (by decide)

variable {idx : Fin buckets}

theorem Refines.put_bound (refines : Refines roster map) {key : Key} (found : roster.lookupLocked key = some idx)
    (handle : Bytes) (linkSlot slot : UInt16) (station : Option Bytes) :
    Refines
      { roster with
        toTable := roster.toTable.store idx ((roster.entries idx).fill handle linkSlot slot station) }
      (map.insert key ((roster.entries idx).fill handle linkSlot slot station)) := by
  obtain ⟨used, rfl⟩ := (lookup_eq_some_iff scheme roster.toTable refines.wellFormed key idx).mp found
  have only : ∀ other, roster.state other = .used →
      (roster.entries other).key = (roster.entries idx).key → other = idx :=
    fun other otherUsed same => refines.wellFormed.unique other idx otherUsed used same
  exact {
    wellFormed := wellFormed_store scheme roster.toTable refines.wellFormed
      (refines.wellFormed.chain idx used) only
    represents := represents_store scheme roster.toTable refines.represents only fun _ => rfl
    counted := by rw [usedCount_store, if_pos used]; exact refines.counted
    bounded := refines.bounded }

theorem Refines.put_new (refines : Refines roster map) {key : Key} (absent : roster.lookupLocked key = none)
    (room : roster.count < maxUsers) (free : roster.toTable.freeBucket scheme buckets (hash key) = some idx)
    {entry : Entry} (keyEq : entry.key = key) :
    Refines ⟨roster.toTable.store idx entry, roster.count + 1⟩ (map.insert key entry) := by
  subst keyEq
  have unbound := (lookup_eq_none_iff scheme roster.toTable refines.wellFormed entry.key).mp absent
  have unused := (freeBucket_sound scheme roster.toTable free).1
  have only : ∀ other, roster.state other = .used → (roster.entries other).key = entry.key → other = idx :=
    fun other used same => absurd same (unbound other used)
  exact {
    wellFormed := wellFormed_store scheme roster.toTable refines.wellFormed
      (chainTo_of_freeBucket scheme roster.toTable free) only
    represents := represents_store scheme roster.toTable refines.represents only
      fun used => absurd used unused
    counted := by rw [usedCount_store, if_neg unused, ← refines.counted]
    bounded := room }

theorem Refines.removeAt (refines : Refines roster map) (used : roster.state idx = .used) :
    Refines (roster.removeAtLocked idx) (map.erase (roster.entries idx).key) where
  wellFormed := wellFormed_bury scheme roster.toTable refines.wellFormed idx
  represents := represents_bury scheme roster.toTable refines.wellFormed refines.represents used
  counted := by rw [Roster.removeAtLocked, usedCount_bury roster.toTable used, ← refines.counted]
  bounded := le_trans (Nat.sub_le _ _) refines.bounded

theorem Refines.put (refines : Refines roster map) (handle : Bytes) (linkSlot slot : UInt16)
    (station : Option Bytes) :
    ∃ roster', roster.putLocked handle linkSlot slot station = some roster' ∧
      Refines roster' (map.put handle linkSlot slot station) := by
  unfold Roster.putLocked RosterMap.put
  dsimp only
  split
  next => exact ⟨roster, rfl, refines⟩
  next =>
    split
    next idx found =>
      have bound := (lookup_iff_bound scheme roster.toTable refines.wellFormed refines.represents
        _ (roster.entries idx)).mpr ⟨idx, found, rfl⟩
      rw [bound]
      exact ⟨_, rfl, refines.put_bound found handle linkSlot slot station⟩
    next absent =>
      have unbound := (lookup_eq_none_iff_unbound scheme roster.toTable refines.wellFormed
        refines.represents _).mp absent
      rw [Finmap.lookup_eq_none.mpr unbound, ← refines.count_eq_card]
      split
      next => exact ⟨roster, rfl, refines⟩
      next room =>
        obtain ⟨idx, free⟩ := Option.isSome_iff_exists.mp
          (refines.freeBucket_isSome (makeKey handle linkSlot slot))
        rw [free]
        exact ⟨_, rfl, refines.put_new absent (Nat.lt_of_not_le room) free rfl⟩

theorem Refines.remove (refines : Refines roster map) (handle : Bytes) (linkSlot slot : UInt16) :
    Refines (roster.removeLocked handle linkSlot slot) (map.erase (makeKey handle linkSlot slot)) := by
  unfold Roster.removeLocked
  split
  next idx found =>
    obtain ⟨used, keyEq⟩ :=
      (lookup_eq_some_iff scheme roster.toTable refines.wellFormed _ idx).mp found
    rw [← keyEq]
    exact refines.removeAt used
  next absent =>
    have unbound := (lookup_eq_none_iff_unbound scheme roster.toTable refines.wellFormed
      refines.represents _).mp absent
    have unchanged : map.erase (makeKey handle linkSlot slot) = map := by
      apply Finmap.ext_lookup
      intro key
      by_cases same : key = makeKey handle linkSlot slot
      · rw [same, Finmap.lookup_erase, Finmap.lookup_eq_none.mpr unbound]
      · rw [Finmap.lookup_erase_ne same]
    rw [unchanged]
    exact refines

end Invariant

theorem Reaches.refines {roster : Roster} {map : RosterMap} (reaches : Reaches roster map) :
    Refines roster map := by
  induction reaches with
  | init => exact refines_empty
  | put handle linkSlot slot station _ done ih =>
    obtain ⟨roster', done', refines⟩ := ih.put handle linkSlot slot station
    rw [done] at done'
    cases done'
    exact refines
  | remove handle linkSlot slot _ ih => exact ih.remove handle linkSlot slot
  | removeAt idx _ used ih => exact ih.removeAt used

section Lookup

variable {roster : Roster} {map : RosterMap}

theorem Refines.found_iff (refines : Refines roster map) (key : Key) :
    (∃ idx, roster.lookupLocked key = some idx) ↔ key ∈ map := by
  have unbound := lookup_eq_none_iff_unbound scheme roster.toTable refines.wellFormed
    refines.represents key
  rw [← not_iff_not, ← unbound, Option.eq_none_iff_forall_ne_some, not_exists]
  rfl

theorem Refines.found_entry (refines : Refines roster map) {key : Key} {idx : Fin buckets}
    (found : roster.lookupLocked key = some idx) :
    roster.state idx = .used ∧ map.lookup key = some (roster.entries idx) :=
  ⟨((lookup_eq_some_iff scheme roster.toTable refines.wellFormed key idx).mp found).1,
    (lookup_iff_bound scheme roster.toTable refines.wellFormed refines.represents key _).mpr
      ⟨idx, found, rfl⟩⟩

theorem Refines.found_after_erase {roster' : Roster} {erased : Key}
    (refines' : Refines roster' (map.erase erased)) {key : Key} {entry : Entry}
    (bound : map.lookup key = some entry) (different : key ≠ erased) :
    ∃ idx, roster'.lookupLocked key = some idx ∧ roster'.entries idx = entry := by
  rw [← Finmap.lookup_erase_ne different] at bound
  exact (lookup_iff_bound scheme roster'.toTable refines'.wellFormed refines'.represents
    key entry).mp bound

theorem RosterMap.mem_put {handle : Bytes} {linkSlot slot : UInt16} {station : Option Bytes}
    (nonEmpty : (makeKey handle linkSlot slot).text ≠ []) (room : map.keys.card < maxUsers) :
    makeKey handle linkSlot slot ∈ map.put handle linkSlot slot station := by
  unfold RosterMap.put
  rw [if_neg nonEmpty]
  split
  · exact Finmap.mem_insert.mpr (Or.inl rfl)
  · rw [if_neg (not_le.mpr room)]
    exact Finmap.mem_insert.mpr (Or.inl rfl)

end Lookup

/-- Every run of puts and removals refines the finite map of its last puts. -/
theorem roster_refines_map {roster : Roster} {map : RosterMap} (reaches : Reaches roster map) :
    map.keys.card ≤ maxUsers ∧ roster.count = map.keys.card ∧
    roster.count = roster.toTable.usedCount ∧
    (∀ i j, roster.state i = .used → roster.state j = .used →
      (roster.entries i).key = (roster.entries j).key → i = j) ∧
    (∀ key, (∃ idx, roster.lookupLocked key = some idx) ↔ key ∈ map) ∧
    (∀ key idx, roster.lookupLocked key = some idx →
      roster.state idx = .used ∧ map.lookup key = some (roster.entries idx)) ∧
    (∀ idx key entry, roster.state idx = .used → map.lookup key = some entry →
      key ≠ (roster.entries idx).key →
      ∃ other, (roster.removeAtLocked idx).lookupLocked key = some other ∧
        (roster.removeAtLocked idx).entries other = entry) ∧
    (∀ handle linkSlot slot key entry, map.lookup key = some entry →
      key ≠ makeKey handle linkSlot slot →
      ∃ other, (roster.removeLocked handle linkSlot slot).lookupLocked key = some other ∧
        (roster.removeLocked handle linkSlot slot).entries other = entry) ∧
    (∀ handle linkSlot slot station,
      ∃ roster', roster.putLocked handle linkSlot slot station = some roster' ∧
        ((makeKey handle linkSlot slot).text = [] → roster' = roster) ∧
        ((makeKey handle linkSlot slot).text ≠ [] → map.keys.card < maxUsers →
          ∃ idx, roster'.lookupLocked (makeKey handle linkSlot slot) = some idx)) := by
  have refines := reaches.refines
  refine ⟨refines.count_eq_card ▸ refines.bounded, refines.count_eq_card, refines.counted,
    refines.wellFormed.unique, refines.found_iff, fun key idx => refines.found_entry, ?_, ?_, ?_⟩
  · intro idx key entry used bound different
    exact (refines.removeAt used).found_after_erase bound different
  · intro handle linkSlot slot key entry bound different
    exact (refines.remove handle linkSlot slot).found_after_erase bound different
  · intro handle linkSlot slot station
    obtain ⟨roster', done, refines'⟩ := refines.put handle linkSlot slot station
    refine ⟨roster', done, ?_, ?_⟩
    · intro emptyKey
      simp only [Roster.putLocked, emptyKey, if_true, Option.some.injEq] at done
      exact done.symm
    · intro nonEmpty room
      exact (refines'.found_iff _).mpr (RosterMap.mem_put nonEmpty room)

def withFreddy : Roster := (Roster.empty.putLocked (str "Freddy") 0 5 none).get (by decide)

def withBoth : Roster := (withFreddy.putLocked (str "Cat") 0 6 none).get (by decide +kernel)

def withCat : Roster := withBoth.removeLocked (str "Freddy") 0 5

/-- Two handles with one hash are put and the first one is removed. The other one is found behind the tombstone. -/
theorem roster_refines_map_tombstone :
    hash (makeKey (str "Freddy") 0 5) = hash (makeKey (str "Cat") 0 6) ∧
      withCat.state (hash (makeKey (str "Freddy") 0 5)) = .tombstone ∧
      withCat.count = withCat.toTable.usedCount ∧ ∃ idx, withCat.lookupLocked (makeKey (str "Cat") 0 6) = some idx := by
  have first := Reaches.put (str "Freddy") 0 5 none .init (Option.some_get (by decide)).symm
  have both := Reaches.put (str "Cat") 0 6 none first (show _ = some withBoth from (Option.some_get _).symm)
  have facts := roster_refines_map (both.remove (str "Freddy") 0 5)
  refine ⟨by decide +kernel, by decide +kernel, facts.2.2.1, (facts.2.2.2.2.1 _).mpr ?_⟩
  exact Finmap.mem_erase.mpr ⟨by decide +kernel, RosterMap.mem_put (by decide) (by decide +kernel)⟩

/-- A put with an empty handle is ignored although no key is bound. -/
theorem put_empty_handle_ignored :
    ¬ ∀ (roster : Roster) (map : RosterMap), Reaches roster map →
      ∀ (handle : Bytes) (linkSlot slot : UInt16) (station : Option Bytes),
        makeKey handle linkSlot slot ∉ map →
        roster.putLocked handle linkSlot slot station = some roster →
        map.keys.card = maxUsers := by
  intro claim
  have full := claim .empty ∅ .init [] 0 0 none (Finmap.notMem_empty) rfl
  exact absurd full (by decide)

end SshChatter.DdialRoster
