import Mathlib.Tactic
import Mathlib.Algebra.BigOperators.Fin

namespace LeaseTable
open Function

structure Lease (Key : Type) where
  key : Key
  expiry : Int

abbrev Table (n : Nat) (Key : Type) := Fin (n + 1) → Lease Key

section Operations

variable {n : Nat} {Key : Type}

def Held (table : Table n Key) (now : Int) (holds : Key → Prop) : Prop :=
  ∃ place, holds (table place).key ∧ now < (table place).expiry

instance (table : Table n Key) (now : Int) (holds : Key → Prop) [DecidablePred holds] :
    Decidable (Held table now holds) := inferInstanceAs (Decidable (∃ _, _ ∧ _))

def active (table : Table n Key) (now : Int) : List (Fin (n + 1)) :=
  (List.finRange (n + 1)).filter fun place => now < (table place).expiry

def firstOver (table : Table n Key) (now : Int) : Option (Fin (n + 1)) :=
  (List.finRange (n + 1)).find? fun place => (table place).expiry ≤ now

def grant (table : Table n Key) (now : Int) (key : Key) (duration : Int) : Table n Key :=
  update table ((firstOver table now).getD 0) ⟨key, now + duration⟩

end Operations

section Rules

variable {n : Nat} {Key : Type} {table : Table n Key} {now later duration : Int} {key : Key} {holds : Key → Prop}

theorem Held.earlier (held : Held table later holds) (early : now ≤ later) : Held table now holds := by
  obtain ⟨place, here, inForce⟩ := held
  exact ⟨place, here, lt_of_le_of_lt early inForce⟩

theorem grant_held (here : holds key) (early : later < now + duration) :
    Held (grant table now key duration) later holds := by
  refine ⟨(firstOver table now).getD 0, ?_⟩
  rw [grant, update_self]
  exact ⟨here, early⟩

theorem firstOver_some (room : (active table now).length < n + 1) : ∃ place, firstOver table now = some place := by
  rw [← Option.isSome_iff_exists, firstOver, List.find?_isSome]
  have shorter : (active table now).length < (List.finRange (n + 1)).length := by
    rw [List.length_finRange]
    exact room
  obtain ⟨place, inside, late⟩ := List.length_filter_lt_length_iff_exists.mp shorter
  refine ⟨place, inside, ?_⟩
  simpa using late

/-- A new lease leaves the others alone as long as there is a place for it. -/
theorem grant_keeps (room : (active table now).length < n + 1) (inForce : now ≤ later)
    (held : Held table later holds) : Held (grant table now key duration) later holds := by
  obtain ⟨place, here, unexpired⟩ := held
  obtain ⟨free, found⟩ := firstOver_some room
  have late : (table free).expiry ≤ now := by simpa using List.find?_some found
  have differs : place ≠ free := by
    rintro rfl
    omega
  refine ⟨place, ?_⟩
  rw [grant, found, Option.getD_some, update_of_ne differs]
  exact ⟨here, unexpired⟩

end Rules

end LeaseTable

namespace SlotTable
open Function List

section Tables

variable {n : Nat} {Slot : Type} {used : Slot → Bool} {table : Fin n → Slot} {place other : Fin n} {slot : Slot}

def usedCount (used : Slot → Bool) (table : Fin n → Slot) : Nat := ∑ place, (used (table place)).toNat

def firstFree (used : Slot → Bool) (table : Fin n → Slot) : Option (Fin n) :=
  (finRange n).find? fun place => !used (table place)

def firstWith (holds : Slot → Bool) (table : Fin n → Slot) : Option (Fin n) :=
  (finRange n).find? fun place => holds (table place)

theorem firstFree_some (found : firstFree used table = some place) : used (table place) = false := by
  have free := find?_some found
  simpa using free

theorem firstFree_none : firstFree used table = none ↔ ∀ place, used (table place) := by
  rw [firstFree, find?_eq_none]
  constructor
  · intro none' place
    simpa using none' place (mem_finRange place)
  · intro all place _
    simpa using all place

variable {holds : Slot → Bool}

theorem firstWith_some (found : firstWith holds table = some place) : holds (table place) := by
  have met := find?_some found
  exact met

theorem firstWith_none : firstWith holds table = none ↔ ∀ place, holds (table place) = false := by
  rw [firstWith, find?_eq_none]
  constructor
  · intro none' place
    simpa using none' place (mem_finRange place)
  · intro all place _
    simpa using all place

theorem firstWith_unique (here : holds (table place))
    (only : ∀ other, holds (table other) → other = place) : firstWith holds table = some place := by
  cases found : firstWith holds table with
  | none => rw [firstWith_none.mp found place] at here; cases here
  | some other => rw [only other (firstWith_some found)]

theorem firstWith_update (same : holds slot = holds (table place)) :
    firstWith holds (update table place slot) = firstWith holds table := by
  rw [firstWith]
  congr 1
  funext other
  by_cases here : other = place
  · subst here
    rw [update_self, same]
  · rw [update_of_ne here]

theorem usedCount_update (used : Slot → Bool) (table : Fin n → Slot) (place : Fin n) (slot : Slot) :
    usedCount used (update table place slot) + (used (table place)).toNat =
      usedCount used table + (used slot).toNat := by
  have split (table : Fin n → Slot) := Finset.add_sum_erase Finset.univ (fun place => (used (table place)).toNat)
    (Finset.mem_univ place)
  have others : ∑ other ∈ Finset.univ.erase place, (used (update table place slot other)).toNat =
      ∑ other ∈ Finset.univ.erase place, (used (table other)).toNat := by
    apply Finset.sum_congr rfl
    intro other away
    rw [update_of_ne (Finset.ne_of_mem_erase away)]
  have before := split table
  have after := split (update table place slot)
  rw [update_self] at after
  rw [usedCount, usedCount]
  omega

theorem usedCount_keep (same : used slot = used (table place)) :
    usedCount used (update table place slot) = usedCount used table := by
  have both := usedCount_update used table place slot
  rw [same] at both
  omega

theorem usedCount_fill (free : used (table place) = false) (filled : used slot) :
    usedCount used (update table place slot) = usedCount used table + 1 := by
  have both := usedCount_update used table place slot
  rwa [free, filled] at both

theorem usedCount_clear (filled : used (table place)) (free : used slot = false) :
    usedCount used (update table place slot) + 1 = usedCount used table := by
  have both := usedCount_update used table place slot
  rwa [free, filled] at both

theorem usedCount_le (table : Fin n → Slot) : usedCount used table ≤ n := by
  have each := Finset.sum_le_card_nsmul Finset.univ (fun place => (used (table place)).toNat) 1
    fun place _ => Bool.toNat_le (used (table place))
  rw [usedCount]
  simpa using each

theorem usedCount_pos (filled : used (table place)) : 0 < usedCount used table := by
  have one := Finset.single_le_sum (fun other _ => Nat.zero_le (used (table other)).toNat) (Finset.mem_univ place)
  rw [filled] at one
  exact one

theorem usedCount_full (all : ∀ place, used (table place) = true) : usedCount used table = n := by
  rw [usedCount]
  simp [all]

theorem usedCount_lt (free : used (table place) = false) : usedCount used table < n := by
  have strict : usedCount used table < ∑ _ : Fin n, 1 := by
    apply Finset.sum_lt_sum
    · exact fun other _ => Bool.toNat_le (used (table other))
    · exact ⟨place, Finset.mem_univ place, by rw [free]; exact zero_lt_one⟩
  simpa using strict

def Distinct {Key : Type} (used : Slot → Bool) (key : Slot → Key) (table : Fin n → Slot) : Prop :=
  ∀ first second, used (table first) → used (table second) → key (table first) = key (table second) →
    first = second

theorem Distinct.fill_iff {Key : Type} {key : Slot → Key} (distinct : Distinct used key table) (filled : used slot) :
    Distinct used key (update table place slot) ↔
      ∀ other, other ≠ place → used (table other) → key (table other) ≠ key slot := by
  constructor
  · intro after other away inUse same
    apply away
    apply after other place
    · rw [update_of_ne away]
      exact inUse
    · rw [update_self]
      exact filled
    · rw [update_of_ne away, update_self]
      exact same
  · intro apart first second
    by_cases here : first = place
    · by_cases there : second = place
      · exact fun _ _ _ => here.trans there.symm
      · rw [here, update_self, update_of_ne there]
        exact fun _ inUse same => absurd same.symm (apart second there inUse)
    · by_cases there : second = place
      · rw [there, update_self, update_of_ne here]
        exact fun inUse _ same => absurd same (apart first here inUse)
      · rw [update_of_ne here, update_of_ne there]
        exact distinct first second

theorem Distinct.clear {Key : Type} {key : Slot → Key} (distinct : Distinct used key table) (free : used slot = false) :
    Distinct used key (update table place slot) := by
  have inside : ∀ other, used (update table place slot other) →
      update table place slot other = table other := by
    intro other inUse
    by_cases here : other = place
    · rw [here, update_self, free] at inUse
      cases inUse
    · exact update_of_ne here slot table
  intro first second here there same
  have firstOld := inside first here
  have secondOld := inside second there
  rw [firstOld] at here same
  rw [secondOld] at there same
  exact distinct first second here there same

theorem countP_usedCount (used : Slot → Bool) (table : Fin n → Slot) :
    ((finRange n).countP fun place => used (table place)) = usedCount used table := by
  have counted : ∀ places : List (Fin n), (places.countP fun place => used (table place)) =
      (places.map fun place => (used (table place)).toNat).sum := by
    intro places
    induction places with
    | nil => rfl
    | cons place places ih =>
      rw [countP_cons, ih, map_cons, add_comm]
      cases used (table place) <;> rfl
  rw [counted, usedCount, Fin.sum_univ_def]

/-- The search in a list of rows is the search in the table that the rows are taken from. -/
theorem findIdx_rows {Row : Type} {rows : List Row} {holds : Row → Bool} {holds' : Slot → Bool}
    (length : rows.length = n)
    (agree : ∀ place row, rows[Fin.val place]? = some row → holds row = holds' (table place)) :
    rows.findIdx? holds = (firstWith holds' table).map Fin.val := by
  subst length
  have met (place : Fin rows.length) : holds rows[place.val] = holds' (table place) :=
    agree place _ (getElem?_eq_getElem place.isLt)
  cases found : firstWith holds' table with
  | none =>
    refine findIdx?_eq_none_iff.mpr fun row member => ?_
    obtain ⟨index, inside, rfl⟩ := mem_iff_getElem.mp member
    exact (met ⟨index, inside⟩).trans (firstWith_none.mp found _)
  | some place =>
    refine findIdx?_eq_some_iff_getElem.mpr ⟨place.isLt, (met place).trans (firstWith_some found), ?_⟩
    intro earlier less held
    obtain ⟨-, index, inside, same, before⟩ := find?_eq_some_iff_getElem.mp found
    have position : place.val = index := by rw [← same, getElem_finRange]; rfl
    have missed := before earlier (position ▸ less)
    rw [getElem_finRange] at missed
    rw [met ⟨earlier, less.trans place.isLt⟩] at held
    rw [Fin.cast_mk, held] at missed
    cases missed

end Tables

end SlotTable
