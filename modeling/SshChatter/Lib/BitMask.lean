import Mathlib.Tactic

namespace BitMask
open List

def first (width count : Nat) : BitVec width := BitVec.allOnes width <<< (width - count)

def Agree {width : Nat} (count : Nat) (x y : BitVec width) : Prop := ∀ index < count, x.getMsbD index = y.getMsbD index

theorem getMsbD_first {width count : Nat} (fits : count ≤ width) (index : Nat) :
    (first width count).getMsbD index = decide (index < count) := by
  rw [first, BitVec.getMsbD_shiftLeft, BitVec.getMsbD_allOnes, decide_eq_decide]
  omega

theorem and_first_eq_iff {width count : Nat} (fits : count ≤ width) (x y : BitVec width) :
    x &&& first width count = y &&& first width count ↔ Agree count x y := by
  constructor
  · intro same index inside
    have bit := congrArg (fun word => word.getMsbD index) same
    simpa [getMsbD_first fits, inside] using bit
  · intro agree
    apply BitVec.eq_of_getMsbD_eq
    intro index _
    rw [BitVec.getMsbD_and, BitVec.getMsbD_and, getMsbD_first fits]
    by_cases inside : index < count
    · rw [agree index inside]
    · simp [inside]

section Words

variable {width : Nat}

def bit (words : List (BitVec width)) (index : Nat) : Bool := (words.getD (index / width) 0).getMsbD (index % width)

def AgreeWords (count : Nat) (xs ys : List (BitVec width)) : Prop := ∀ index < count, bit xs index = bit ys index

def firsts (width : Nat) : Nat → Nat → List (BitVec width)
  | 0, _ => []
  | length + 1, count => first width (min width count) :: firsts width length (count - width)

theorem bit_cons_low {index : Nat} (low : index < width) (word : BitVec width) (words : List (BitVec width)) :
    bit (word :: words) index = word.getMsbD index := by
  rw [bit, Nat.div_eq_of_lt low, Nat.mod_eq_of_lt low, getD_cons_zero]

theorem bit_cons_high (positive : 0 < width) (index : Nat) (word : BitVec width) (words : List (BitVec width)) :
    bit (word :: words) (width + index) = bit words index := by
  rw [bit, bit, Nat.add_div_left _ positive, Nat.add_mod_left, getD_cons_succ]

/-- The first bits of a row are those of its first word and those of the others. -/
theorem agreeWords_cons (positive : 0 < width) (count : Nat) (x y : BitVec width) (xs ys : List (BitVec width)) :
    AgreeWords count (x :: xs) (y :: ys) ↔ Agree (min width count) x y ∧ AgreeWords (count - width) xs ys := by
  constructor
  · intro agree
    refine ⟨?_, ?_⟩
    · intro index inside
      have low : index < width := by omega
      have same := agree index (by omega)
      rwa [bit_cons_low low, bit_cons_low low] at same
    · intro index inside
      have same := agree (width + index) (by omega)
      rwa [bit_cons_high positive, bit_cons_high positive] at same
  · rintro ⟨head, rest⟩ index inside
    by_cases low : index < width
    · rw [bit_cons_low low, bit_cons_low low]
      exact head index (by omega)
    · obtain ⟨later, rfl⟩ := Nat.exists_eq_add_of_le (Nat.le_of_not_lt low)
      rw [bit_cons_high positive, bit_cons_high positive]
      exact rest later (by omega)

theorem bit_firsts (positive : 0 < width) (length count : Nat) {index : Nat} (inside : index < width * length) :
    bit (firsts width length count) index = decide (index < count) := by
  induction length generalizing count index with
  | zero => exact absurd inside (by omega)
  | succ length ih =>
    rw [firsts]
    by_cases low : index < width
    · rw [bit_cons_low low, getMsbD_first (min_le_left _ _), decide_eq_decide]
      omega
    · obtain ⟨later, rfl⟩ := Nat.exists_eq_add_of_le (Nat.le_of_not_lt low)
      rw [Nat.mul_succ] at inside
      rw [bit_cons_high positive, ih _ (by omega), decide_eq_decide]
      omega

theorem zipWith_firsts_eq_iff (positive : 0 < width) (count : Nat) {xs ys : List (BitVec width)} {length : Nat}
    (fits : count ≤ width * length) (xsLength : xs.length = length) (ysLength : ys.length = length) :
    zipWith (· &&& ·) xs (firsts width length count) = zipWith (· &&& ·) ys (firsts width length count) ↔
      AgreeWords count xs ys := by
  induction length generalizing xs ys count with
  | zero =>
    rw [length_eq_zero_iff.mp xsLength, length_eq_zero_iff.mp ysLength]
    exact iff_of_true rfl fun _ _ => rfl
  | succ length ih =>
    obtain ⟨x, xs, rfl⟩ := exists_cons_of_length_eq_add_one xsLength
    obtain ⟨y, ys, rfl⟩ := exists_cons_of_length_eq_add_one ysLength
    have room : count - width ≤ width * length := by
      rw [Nat.mul_succ] at fits
      omega
    rw [firsts, zipWith_cons_cons, zipWith_cons_cons, cons.injEq,
      and_first_eq_iff (min_le_left _ _), ih _ room (Nat.succ.inj xsLength) (Nat.succ.inj ysLength),
      agreeWords_cons positive]

end Words

section Single

variable {width index : Nat}

theorem getLsbD_single (other : Nat) :
    (BitVec.ofNat width 1 <<< index).getLsbD other = decide (other = index ∧ index < width) := by
  rw [BitVec.getLsbD_shiftLeft, BitVec.getLsbD_one, Bool.eq_iff_iff]
  simp only [Bool.and_eq_true, Bool.not_eq_true', decide_eq_true_eq, decide_eq_false_iff_not]
  omega

theorem and_single_ne_zero (inside : index < width) (word : BitVec width) :
    word &&& BitVec.ofNat width 1 <<< index ≠ 0 ↔ word.getLsbD index := by
  constructor
  · intro meets
    by_contra missing
    apply meets
    apply BitVec.eq_of_getLsbD_eq
    intro other _
    rw [BitVec.getLsbD_and, getLsbD_single]
    by_cases same : other = index
    · simp [same, missing]
    · simp [same]
  · intro has zero
    have bit : (word &&& BitVec.ofNat width 1 <<< index).getLsbD index = false := by
      rw [zero]
      exact BitVec.getLsbD_zero
    rw [BitVec.getLsbD_and, has] at bit
    simp [inside] at bit

theorem single_ne_zero (inside : index < width) : BitVec.ofNat width 1 <<< index ≠ 0 := by
  intro zero
  have bit : (BitVec.ofNat width 1 <<< index).getLsbD index := by simp [inside]
  rw [zero] at bit
  simp at bit

theorem getLsbD_clear (word : BitVec width) (other : Nat) :
    (word &&& ~~~(BitVec.ofNat width 1 <<< index)).getLsbD other = (word.getLsbD other && decide (other ≠ index)) := by
  rw [BitVec.getLsbD_and, BitVec.getLsbD_not, getLsbD_single]
  by_cases low : other < width
  · by_cases same : other = index
    · simp [same]
    · simp [same, low]
  · simp [BitVec.getLsbD_of_ge word other (by omega)]

theorem getLsbD_set (inside : index < width) (word : BitVec width) (other : Nat) :
    (word ||| BitVec.ofNat width 1 <<< index).getLsbD other = (word.getLsbD other || decide (other = index)) := by
  rw [BitVec.getLsbD_or, getLsbD_single]
  simp [inside]

end Single

end BitMask
