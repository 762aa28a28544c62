import Mathlib.Tactic

namespace PrefixFit
open List

section Fit

/-- The number of weights that are taken, when some are taken already, as long as their sum stays within a bound. The
first one is always taken. -/
def fitFrom (bound : Nat) : List Nat → Nat → Nat → Nat
  | [], taken, _ => taken
  | weight :: rest, taken, sum =>
    if 0 < taken ∧ bound < sum + weight then taken else fitFrom bound rest (taken + 1) (sum + weight)

def fit (bound : Nat) (weights : List Nat) : Nat := fitFrom bound weights 0 0

variable {bound : Nat}

theorem fitFrom_add_le (bound : Nat) (weights : List Nat) (taken sum : Nat) :
    fitFrom bound weights taken sum ≤ taken + weights.length := by
  induction weights generalizing taken sum with
  | nil => exact le_refl taken
  | cons weight rest ih =>
    rw [fitFrom, length_cons]
    split_ifs with large
    · omega
    · have later := ih (taken + 1) (sum + weight)
      omega

theorem le_fitFrom (bound : Nat) (weights : List Nat) (taken sum : Nat) : taken ≤ fitFrom bound weights taken sum := by
  induction weights generalizing taken sum with
  | nil => exact le_refl taken
  | cons weight rest ih =>
    rw [fitFrom]
    split_ifs with large
    · exact le_refl taken
    · exact Nat.le_of_succ_le (ih (taken + 1) (sum + weight))

/-- After the first weight so many more are taken as stay within the bound. -/
theorem add_le_fitFrom_iff (bound : Nat) (weights : List Nat) {taken : Nat} (sum more : Nat) (some' : 0 < taken) :
    taken + more ≤ fitFrom bound weights taken sum ↔
      more ≤ weights.length ∧ (more = 0 ∨ sum + (weights.take more).sum ≤ bound) := by
  induction weights generalizing taken sum more with
  | nil =>
    rw [fitFrom, length_nil]
    omega
  | cons weight rest ih =>
    cases more with
    | zero => simpa using le_fitFrom bound (weight :: rest) taken sum
    | succ more =>
      rw [fitFrom, length_cons, take_succ_cons, sum_cons]
      by_cases large : bound < sum + weight
      · rw [if_pos ⟨some', large⟩]
        omega
      · have later := ih (sum + weight) more (Nat.zero_lt_succ taken)
        rw [if_neg (fun both => large both.2), show taken + (more + 1) = taken + 1 + more by omega, later]
        cases more with
        | zero => simpa using Nat.le_of_not_lt large
        | succ => omega

theorem fit_le (bound : Nat) (weights : List Nat) : fit bound weights ≤ weights.length := by
  have most := fitFrom_add_le bound weights 0 0
  rw [fit]
  omega

/-- So many weights are taken as are there, and are one, or stay within the bound together. -/
theorem le_fit_iff (bound : Nat) (weights : List Nat) (count : Nat) :
    count ≤ fit bound weights ↔ count ≤ weights.length ∧ (count ≤ 1 ∨ (weights.take count).sum ≤ bound) := by
  cases weights with
  | nil =>
    rw [fit, fitFrom, length_nil]
    omega
  | cons weight rest =>
    rw [fit, fitFrom, if_neg (fun large => lt_irrefl 0 large.1), length_cons]
    cases count with
    | zero => simp
    | succ more =>
      have later := add_le_fitFrom_iff bound rest (0 + weight) more zero_lt_one
      rw [show more + 1 = 1 + more by omega, zero_add 1, add_comm 1 more, take_succ_cons,
        sum_cons]
      omega

theorem fit_pos {weights : List Nat} (some' : weights ≠ []) : 0 < fit bound weights := by
  apply (le_fit_iff bound weights 1).mpr
  exact ⟨length_pos_iff.mpr some', .inl (le_refl 1)⟩

/-- The first weight that is not taken stands behind a first one that is too large, or is not zero. -/
theorem fit_stops {weights : List Nat} (short : fit bound weights < weights.length) :
    (fit bound weights = 1 ∧ bound < (weights.take 1).sum) ∨ 0 < weights[fit bound weights] := by
  have all := (le_fit_iff bound weights (fit bound weights)).mp (le_refl _)
  have next := mt (le_fit_iff bound weights (fit bound weights + 1)).mpr (by omega)
  have sum : (weights.take (fit bound weights + 1)).sum =
      (weights.take (fit bound weights)).sum + weights[fit bound weights] := by
    rw [take_add_one, sum_append, getElem?_eq_getElem short, Option.toList_some, sum_singleton]
  by_cases small : (weights.take (fit bound weights)).sum ≤ bound
  · right
    by_contra zero
    exact next ⟨short, .inr (by omega)⟩
  · left
    have one : fit bound weights = 1 := by omega
    rw [one] at small
    exact ⟨one, Nat.lt_of_not_le small⟩

end Fit

end PrefixFit
