import Mathlib.Data.Nat.ModEq
import Mathlib.Data.List.Basic
import Mathlib.Tactic

namespace Numeral
open List

variable {Symbol : Type}

section Guarded

/-- An accumulation that gives up as soon as its value passes the bound. -/
def guarded (most : Nat) (step : Nat → Symbol → Nat) : Nat → List Symbol → Option Nat
  | value, [] => some value
  | value, symbol :: rest => if most < step value symbol then none else guarded most step (step value symbol) rest

variable {most : Nat} {step : Nat → Symbol → Nat}

theorem le_foldl (grows : ∀ value symbol, value ≤ step value symbol) (text : List Symbol) (value : Nat) :
    value ≤ text.foldl step value := by
  induction text generalizing value with
  | nil => exact le_refl _
  | cons symbol rest ih => exact (grows value symbol).trans (ih _)

/-- When the value never shrinks, only the last value has to be compared with the bound. -/
theorem guarded_eq (grows : ∀ value symbol, value ≤ step value symbol) (text : List Symbol) {value : Nat}
    (small : value ≤ most) :
    guarded most step value text = if text.foldl step value ≤ most then some (text.foldl step value) else none := by
  induction text generalizing value with
  | nil => rw [guarded, foldl_nil, if_pos small]
  | cons symbol rest ih =>
    rw [guarded, foldl_cons]
    by_cases above : most < step value symbol
    · have later := le_foldl grows rest (step value symbol)
      rw [if_pos above, if_neg (by omega)]
    · rw [if_neg above, ih (not_lt.mp above)]

end Guarded

section Bijective

variable (base : Nat)

def bijective (digits : List Nat) : Nat := digits.foldl (fun value digit => value * base + (digit + 1)) 0

def digits : Nat → List Nat
  | 0 => []
  | n + 1 => n % base :: digits (n / base)
decreasing_by exact Nat.lt_succ_of_le (Nat.div_le_self n base)

variable {base}

theorem bijective_append (front : List Nat) (digit : Nat) :
    bijective base (front ++ [digit]) = bijective base front * base + (digit + 1) := by
  simp [bijective]

theorem digits_lt (positive : 0 < base) (n : Nat) : ∀ digit ∈ digits base n, digit < base := by
  fun_induction digits base n with
  | case1 => simp
  | case2 n ih => exact forall_mem_cons.mpr ⟨Nat.mod_lt n positive, ih⟩

theorem bijective_digits (n : Nat) : bijective base (digits base n).reverse = n := by
  fun_induction digits base n with
  | case1 => rfl
  | case2 n ih =>
    rw [reverse_cons, bijective_append, ih]
    have parts := Nat.div_add_mod' n base
    omega

theorem digits_length_le (places : Nat) {n : Nat} (small : n < base ^ places) : (digits base n).length ≤ places := by
  induction places generalizing n with
  | zero =>
    obtain rfl : n = 0 := by simpa using small
    rw [digits, length_nil]
  | succ places ih =>
    cases n with
    | zero => rw [digits]; exact Nat.zero_le _
    | succ =>
      rw [digits]
      exact Nat.succ_le_succ (ih (Nat.div_lt_of_lt_mul (by rw [pow_succ'] at small; omega)))

end Bijective

end Numeral
