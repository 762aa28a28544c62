import Mathlib.Tactic

/-! A bounded table remembers when its users were last active, and what a user does too soon is refused. -/

namespace Recency
open List

/-- An activity that was accepted. The turn counts what was accepted before it. -/
structure Activity (User Kind : Type) where
  user : User
  kind : Kind
  time : Int
  turn : Nat

structure Table (User Kind : Type) where
  members : Finset User
  last : User → Kind → Int

section Ranks

variable {User Kind : Type} [DecidableEq User] (rank : Activity User Kind → Int)

def since (log : List (Activity User Kind)) (activity : Activity User Kind) : Finset User :=
  ((log.filter fun other => other.user ≠ activity.user ∧ rank activity ≤ rank other).map Activity.user).toFinset

def between (log : List (Activity User Kind)) (earlier later : Activity User Kind) : Finset User :=
  ((log.filter fun other => other.user ≠ earlier.user ∧ rank earlier ≤ rank other ∧ rank other ≤ rank later).map
    Activity.user).toFinset

variable (named : User → Prop) (room : Nat) (gap : Kind → Int)

def Spaced (log : List (Activity User Kind)) : Prop :=
  log.Pairwise fun later earlier => named later.user → later.user = earlier.user → later.kind = earlier.kind →
    (between rank log earlier later).card < room → earlier.time + gap later.kind ≤ later.time

def Covered (table : Table User Kind) (log : List (Activity User Kind)) : Prop :=
  ∀ activity ∈ log, named activity.user →
    (activity.user ∈ table.members ∧ activity.time ≤ table.last activity.user activity.kind) ∨
      room ≤ (since rank log activity).card

/-- The table records an activity. The other users that stay are remembered as before. -/
structure Recorded (table next : Table User Kind) (activity : Activity User Kind) : Prop where
  known : activity.user ∈ next.members
  time : next.last activity.user activity.kind = activity.time
  kinds : activity.user ∈ table.members → ∀ kind ≠ activity.kind, next.last activity.user kind =
    table.last activity.user kind
  others : ∀ user ∈ table.members, user ∈ next.members → user ≠ activity.user → next.last user = table.last user

def LeavesEarliest (table next : Table User Kind) (log : List (Activity User Kind)) (activity : Activity User Kind) :
    Prop :=
  ∀ gone ∈ table.members, gone ∉ next.members → room ≤ table.members.card ∧ activity.user ∉ table.members ∧
    ∀ other ∈ table.members, other ≠ gone → ∀ old ∈ log, old.user = gone → ∃ new ∈ log, new.user = other ∧
      rank old ≤ rank new

variable {rank named room gap} {table next : Table User Kind} {log : List (Activity User Kind)}
  {activity old : Activity User Kind} {user : User}

theorem mem_since : user ∈ since rank log old ↔ ∃ new ∈ log, new.user = user ∧ user ≠ old.user ∧
    rank old ≤ rank new := by
  simp only [since, mem_toFinset, mem_map, mem_filter, decide_eq_true_eq]
  constructor
  · rintro ⟨new, ⟨inside, other, later⟩, rfl⟩
    exact ⟨new, inside, rfl, other, later⟩
  · rintro ⟨new, inside, rfl, other, later⟩
    exact ⟨new, ⟨inside, other, later⟩, rfl⟩

variable {later : Activity User Kind}

theorem mem_between : user ∈ between rank log old later ↔
    ∃ new ∈ log, new.user = user ∧ user ≠ old.user ∧ rank old ≤ rank new ∧ rank new ≤ rank later := by
  simp only [between, mem_toFinset, mem_map, mem_filter, decide_eq_true_eq]
  constructor
  · rintro ⟨new, ⟨inside, other, above, below⟩, rfl⟩
    exact ⟨new, inside, rfl, other, above, below⟩
  · rintro ⟨new, inside, rfl, other, above, below⟩
    exact ⟨new, ⟨inside, other, above, below⟩, rfl⟩

theorem since_cons : since rank log old ⊆ since rank (activity :: log) old := by
  intro user inside
  rw [mem_since] at inside ⊢
  obtain ⟨new, here, same, other, later⟩ := inside
  exact ⟨new, mem_cons_of_mem _ here, same, other, later⟩

theorem between_cons : between rank log old later ⊆ between rank (activity :: log) old later := by
  intro user inside
  rw [mem_between] at inside ⊢
  obtain ⟨new, here, same, other, span⟩ := inside
  exact ⟨new, mem_cons_of_mem _ here, same, other, span⟩

theorem since_subset_between (highest : ∀ old ∈ log, rank old ≤ rank activity) :
    since rank log old ⊆ between rank (activity :: log) old activity := by
  intro user inside
  rw [mem_since] at inside
  rw [mem_between]
  obtain ⟨new, here, same, other, later⟩ := inside
  exact ⟨new, mem_cons_of_mem _ here, same, other, later, highest new here⟩

theorem room_le_since (highest : ∀ old ∈ log, rank old ≤ rank activity) (inside : old ∈ log)
    (member : old.user ∈ table.members) (leaves : old.user ∉ next.members)
    (earliest : LeavesEarliest rank room table next log activity) : room ≤ (since rank (activity :: log) old).card := by
  obtain ⟨full, new, others⟩ := earliest old.user member leaves
  have active : insert activity.user (table.members.erase old.user) ⊆ since rank (activity :: log) old := by
    intro user here
    rw [mem_since]
    rcases Finset.mem_insert.mp here with rfl | stays
    · exact ⟨activity, mem_cons_self, rfl, fun same => new (same ▸ member), highest old inside⟩
    · obtain ⟨away, there⟩ := Finset.mem_erase.mp stays
      obtain ⟨later, seen, same, order⟩ := others user there away old inside rfl
      exact ⟨later, mem_cons_of_mem _ seen, same, away, order⟩
  have count : (insert activity.user (table.members.erase old.user)).card = table.members.card := by
    have absent : activity.user ∉ table.members.erase old.user := fun here => new (Finset.mem_of_mem_erase here)
    rw [Finset.card_insert_of_notMem absent, Finset.card_erase_add_one member]
  calc room ≤ table.members.card := full
    _ = (insert activity.user (table.members.erase old.user)).card := count.symm
    _ ≤ (since rank (activity :: log) old).card := Finset.card_le_card active

theorem Covered.step (covered : Covered rank named room table log) (recorded : Recorded table next activity)
    (highest : ∀ old ∈ log, rank old ≤ rank activity) (latest : ∀ old ∈ log, old.time ≤ activity.time)
    (earliest : LeavesEarliest rank room table next log activity) : Covered rank named room next (activity :: log) := by
  intro old inside name
  rcases mem_cons.mp inside with rfl | before
  · exact Or.inl ⟨recorded.known, recorded.time.ge⟩
  · rcases covered old before name with ⟨member, remembered⟩ | many
    · by_cases stays : old.user ∈ next.members
      · refine Or.inl ⟨stays, ?_⟩
        by_cases own : old.user = activity.user
        · by_cases kind : old.kind = activity.kind
          · rw [own, kind, recorded.time]
            exact latest old before
          · rw [own, recorded.kinds (own ▸ member) old.kind kind, ← own]
            exact remembered
        · rw [recorded.others old.user member stays own]
          exact remembered
      · exact Or.inr (room_le_since highest before member stays earliest)
    · exact Or.inr (many.trans (Finset.card_le_card since_cons))

/-- The table need not record what no name stands for. -/
theorem Covered.skip (covered : Covered rank named room table log) (unnamed : ¬ named activity.user) :
    Covered rank named room table (activity :: log) := by
  intro old inside name
  rcases mem_cons.mp inside with rfl | before
  · exact absurd name unnamed
  · exact (covered old before name).imp_right fun many => many.trans (Finset.card_le_card since_cons)

def Patient (gap : Kind → Int) (table : Table User Kind) (activity : Activity User Kind) : Prop :=
  activity.user ∈ table.members → table.last activity.user activity.kind = 0 ∨
    table.last activity.user activity.kind + gap activity.kind ≤ activity.time

theorem Spaced.step (spaced : Spaced rank named room gap log) (covered : Covered rank named room table log)
    (patient : named activity.user → Patient gap table activity) (positive : ∀ old ∈ log, 0 < old.time)
    (highest : ∀ old ∈ log, rank old ≤ rank activity) : Spaced rank named room gap (activity :: log) := by
  refine pairwise_cons.mpr ⟨fun old before name user kind few => ?_, ?_⟩
  · rcases covered old before (user ▸ name) with ⟨member, remembered⟩ | many
    · rw [← user, ← kind] at remembered
      have early := positive old before
      rcases patient name (user ▸ member) with fresh | waited
      · omega
      · omega
    · have active : since rank log old ⊆ between rank (activity :: log) old activity := since_subset_between highest
      exact absurd few (not_lt.mpr (many.trans (Finset.card_le_card active)))
  · refine spaced.imp fun {later earlier} apart name user kind few => apart name user kind ?_
    exact (Finset.card_le_card between_cons).trans_lt few

end Ranks

end Recency
