import Mathlib.Tactic

namespace Census
open Function

variable {Actor Status : Type} [Fintype Actor] [DecidableEq Actor] {counted : Status → Bool} {statuses : Actor → Status}
  {actor : Actor} {status : Status}

omit [DecidableEq Actor] in
/-- The number of actors with a counted status. -/
def census (counted : Status → Bool) (statuses : Actor → Status) : Nat :=
  (Finset.univ.filter fun actor => counted (statuses actor) = true).card

/-- A change of one actor moves the census by what that actor counts before and after. -/
theorem census_update (counted : Status → Bool) (statuses : Actor → Status) (actor : Actor) (status : Status) :
    census counted (update statuses actor status) + (counted (statuses actor)).toNat =
    census counted statuses + (counted status).toNat := by
  have split (all : Actor → Status) : census counted all =
      ((Finset.univ.erase actor).filter fun other => counted (all other) = true).card +
        (counted (all actor)).toNat := by
    unfold census
    conv_lhs => rw [← Finset.insert_erase (Finset.mem_univ actor), Finset.filter_insert]
    split_ifs with here
    · rw [Finset.card_insert_of_notMem (by simp), here]
      rfl
    · rw [Bool.eq_false_iff.mpr here]
      rfl
  have others : ((Finset.univ.erase actor).filter fun other => counted (update statuses actor status other) = true) =
      (Finset.univ.erase actor).filter fun other => counted (statuses other) = true := by
    apply Finset.filter_congr
    intro other member
    rw [update_of_ne (Finset.ne_of_mem_erase member)]
  rw [split statuses, split (update statuses actor status), others, update_self]
  omega

theorem census_same (same : counted status = counted (statuses actor)) :
    census counted (update statuses actor status) = census counted statuses := by
  have moved := census_update counted statuses actor status
  rw [same] at moved
  omega

theorem census_enter (before : counted (statuses actor) = false) (after : counted status) :
    census counted (update statuses actor status) = census counted statuses + 1 := by
  have moved := census_update counted statuses actor status
  rw [before, after] at moved
  exact moved

theorem census_leave (before : counted (statuses actor)) (after : counted status = false) :
    census counted (update statuses actor status) + 1 = census counted statuses := by
  have moved := census_update counted statuses actor status
  rw [before, after] at moved
  exact moved

omit [DecidableEq Actor] in
/-- The census of actors that do not count is zero. -/
theorem census_none (none : ∀ actor, counted (statuses actor) = false) : census counted statuses = 0 := by
  unfold census
  rw [Finset.card_eq_zero, Finset.filter_eq_empty_iff]
  intro actor _
  rw [none actor]
  exact Bool.false_ne_true

end Census

namespace Tally
open List

section Ballots

variable {Ballot : Type} (chose : Nat → Ballot → Bool)

def Counted (options : Nat) (votes : Nat → Nat) (ballots : List Ballot) : Prop :=
  ∀ option < options, votes option = ballots.countP (chose option)

variable {chose} {options : Nat} {votes votes' : Nat → Nat} {ballots : List Ballot} {index : Nat} {old new : Ballot}

theorem countP_set_add (p : Ballot → Bool) (found : ballots[index]? = some old) :
    (ballots.set index new).countP p + (if p old then 1 else 0) = ballots.countP p + (if p new then 1 else 0) := by
  induction ballots generalizing index with
  | nil => cases found
  | cons first ballots ih =>
    cases index with
    | zero =>
      obtain rfl : first = old := by simpa using found
      rw [set_cons_zero, countP_cons, countP_cons]
      omega
    | succ =>
      have rest := ih (by simpa using found)
      rw [set_cons_succ, countP_cons, countP_cons]
      omega

theorem countP_eraseIdx_add (p : Ballot → Bool) (found : ballots[index]? = some old) :
    (ballots.eraseIdx index).countP p + (if p old then 1 else 0) = ballots.countP p := by
  induction ballots generalizing index with
  | nil => cases found
  | cons first ballots ih =>
    cases index with
    | zero =>
      obtain rfl : first = old := by simpa using found
      rw [eraseIdx_cons_zero, countP_cons]
    | succ =>
      have rest := ih (by simpa using found)
      rw [eraseIdx_cons_succ, countP_cons, countP_cons]
      omega

theorem Counted.positive (counted : Counted chose options votes ballots) {option : Nat} (inside : option < options)
    (found : ballots[index]? = some old) (chosen : chose option old) : 0 < votes option := by
  rw [counted option inside]
  exact countP_pos_iff.mpr ⟨old, mem_of_getElem? found, chosen⟩

theorem Counted.le_length (counted : Counted chose options votes ballots) {option : Nat} (inside : option < options) :
    votes option ≤ ballots.length := by
  rw [counted option inside]
  exact countP_le_length

theorem Counted.set (counted : Counted chose options votes ballots) (found : ballots[index]? = some old)
    (moved : ∀ option < options, votes' option + (if chose option old then 1 else 0) =
      votes option + (if chose option new then 1 else 0)) :
    Counted chose options votes' (ballots.set index new) := by
  intro option inside
  have move := moved option inside
  have count : (ballots.set index new).countP (chose option) + (if chose option old then 1 else 0) =
      ballots.countP (chose option) + (if chose option new then 1 else 0) := countP_set_add (chose option) found
  rw [counted option inside] at move
  omega

theorem Counted.append (counted : Counted chose options votes ballots)
    (added : ∀ option < options, votes' option = votes option + (if chose option new then 1 else 0)) :
    Counted chose options votes' (ballots ++ [new]) := by
  intro option inside
  rw [added option inside, counted option inside, countP_append, countP_singleton]

theorem Counted.erase (counted : Counted chose options votes ballots) (found : ballots[index]? = some old)
    (removed : ∀ option < options, votes' option + (if chose option old then 1 else 0) = votes option) :
    Counted chose options votes' (ballots.eraseIdx index) := by
  intro option inside
  have remove := removed option inside
  have count := countP_eraseIdx_add (chose option) found
  rw [counted option inside] at remove
  omega

end Ballots

end Tally
