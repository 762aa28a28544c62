import Mathlib.Data.Fintype.Pigeonhole
import Mathlib.Logic.Relation
import Mathlib.Tactic

namespace Walk
open Relation

variable {Place : Type} (next : Place → Option Place)

def Leads (place other : Place) : Prop := next place = some other

/-- The place after a number of steps, if there is one. -/
def walk : Nat → Place → Option Place
  | 0, place => some place
  | count + 1, place => (next place).bind (walk count)

def Circles (place : Place) : Prop := ∃ other, ReflTransGen (Leads next) place other ∧ TransGen (Leads next) other other

variable {next} {place other : Place} {count : Nat}

@[simp] theorem walk_zero : walk next 0 place = some place := rfl

theorem walk_succ (count : Nat) (place : Place) : walk next (count + 1) place = (next place).bind (walk next count) :=
    rfl

/-- Steps are made one part after the other. -/
theorem walk_add (first second : Nat) (place : Place) :
    walk next (first + second) place = (walk next first place).bind (walk next second) := by
  induction first generalizing place with
  | zero => simp
  | succ first ih =>
    rw [Nat.succ_add, walk_succ, walk_succ, Option.bind_assoc]
    congr 1
    funext between
    exact ih between

theorem reaches_iff : ReflTransGen (Leads next) place other ↔ ∃ count, walk next count place = some other := by
  constructor
  · intro reached
    induction reached with
    | refl => exact ⟨0, rfl⟩
    | tail _ step ih =>
      obtain ⟨count, ended⟩ := ih
      refine ⟨count + 1, ?_⟩
      rw [walk_add, ended]
      simpa [walk, Leads] using step
  · rintro ⟨count, ended⟩
    induction count generalizing place with
    | zero =>
      obtain rfl := Option.some.inj ended
      exact .refl
    | succ count ih =>
      obtain ⟨between, step, later⟩ := Option.bind_eq_some_iff.mp ended
      exact .head step (ih later)

theorem walk_isSome_of_le {more : Nat} (goes : (walk next more place).isSome) (fewer : count ≤ more) :
    (walk next count place).isSome := by
  obtain ⟨rest, rfl⟩ := Nat.exists_eq_add_of_le fewer
  rw [walk_add] at goes
  cases ended : walk next count place with
  | none => simp [ended] at goes
  | some => rfl

/-- A place leads back to itself exactly when some steps end where they began. -/
theorem round_iff : TransGen (Leads next) place place ↔ ∃ count, walk next (count + 1) place = some place := by
  rw [TransGen.head'_iff]
  constructor
  · rintro ⟨between, step, later⟩
    obtain ⟨count, ended⟩ := reaches_iff.mp later
    have first : next place = some between := step
    exact ⟨count, by rw [walk_succ, first, Option.bind_some, ended]⟩
  · rintro ⟨count, ended⟩
    obtain ⟨between, step, later⟩ := Option.bind_eq_some_iff.mp ended
    exact ⟨between, step, reaches_iff.mpr ⟨count, later⟩⟩

theorem walk_rounds (ended : walk next (count + 1) place = some place) (rounds : Nat) :
    walk next (rounds * (count + 1)) place = some place := by
  induction rounds with
  | zero => simp
  | succ rounds ih => rw [Nat.succ_mul, walk_add, ih, Option.bind_some, ended]

/-- A walk among finitely many places goes on for ever exactly when it comes to a circle. -/
theorem endless_iff [Finite Place] : (∀ count, (walk next count place).isSome) ↔ Circles next place := by
  constructor
  · intro endless
    choose visited ended using fun count => Option.isSome_iff_exists.mp (endless count)
    -- Two of the places on the walk are the same.
    obtain ⟨first, second, apart, same⟩ := Finite.exists_ne_map_eq_of_infinite visited
    wlog earlier : first < second generalizing first second
    · exact this second first apart.symm same.symm (by omega)
    obtain ⟨rest, rfl⟩ := Nat.exists_eq_add_of_lt earlier
    have whole := ended (first + rest + 1)
    rw [add_assoc, walk_add, ended first, ← add_assoc, ← same] at whole
    exact ⟨visited first, reaches_iff.mpr ⟨first, ended first⟩, round_iff.mpr ⟨rest, whole⟩⟩
  · rintro ⟨other, reached, circle⟩ count
    obtain ⟨front, ended⟩ := reaches_iff.mp reached
    obtain ⟨length, round⟩ := round_iff.mp circle
    have long : (walk next (front + count * (length + 1)) place).isSome := by
      rw [walk_add, ended, Option.bind_some, walk_rounds round]
      rfl
    exact walk_isSome_of_le long (by nlinarith)

end Walk
