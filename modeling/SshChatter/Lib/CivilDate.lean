import Mathlib.Tactic

namespace CivilDate

def isLeap (year : Int) : Bool := year % 4 = 0 ∧ (year % 100 ≠ 0 ∨ year % 400 = 0)

def daysBeforeYear (year : Int) : Int := 365 * year + (year + 3) / 4 - (year + 99) / 100 + (year + 399) / 400

def daysBeforeMonth (leap : Bool) (month : Nat) : Nat :=
  [0, 31, 59, 90, 120, 151, 181, 212, 243, 273, 304, 334, 365].getD month 365 + if leap ∧ 2 ≤ month then 1 else 0

/-- A date with its month from 0 to 11 and its day from 0 on. -/
structure Date where
  year : Int
  month : Nat
  day : Nat
  deriving DecidableEq

def Date.Valid (date : Date) : Prop :=
  date.month < 12 ∧
    daysBeforeMonth (isLeap date.year) date.month + date.day < daysBeforeMonth (isLeap date.year) (date.month + 1)

instance (date : Date) : Decidable date.Valid := inferInstanceAs (Decidable (_ ∧ _))

/-- The days from the start of year zero to the start of 1970. -/
def epoch : Int := 719528

def Date.dayNumber (date : Date) : Int :=
  daysBeforeYear date.year + daysBeforeMonth (isLeap date.year) date.month + date.day - epoch

def yearOf (day : Int) : Int :=
  let guess := 400 * day / 146097
  if day < daysBeforeYear guess then guess - 1
  else if daysBeforeYear (guess + 1) ≤ day then guess + 1
  else guess

def monthOf (leap : Bool) (day : Nat) : Nat :=
  ((List.range 11).filter fun month => daysBeforeMonth leap (month + 1) ≤ day).length

def ofDayNumber (number : Int) : Date :=
  let year := yearOf (number + epoch)
  let day := (number + epoch - daysBeforeYear year).toNat
  let month := monthOf (isLeap year) day
  ⟨year, month, day - daysBeforeMonth (isLeap year) month⟩

theorem daysBeforeYear_succ (year : Int) :
    daysBeforeYear (year + 1) = daysBeforeYear year + daysBeforeMonth (isLeap year) 12 := by
  have days : (daysBeforeMonth (isLeap year) 12 : Int) = if isLeap year then 366 else 365 := by
    cases isLeap year <;> rfl
  rw [days]
  simp only [daysBeforeYear, isLeap, decide_eq_true_eq]
  split_ifs with leap
  · omega
  · omega

theorem daysBeforeYear_lt (year : Int) : daysBeforeYear year < daysBeforeYear (year + 1) := by
  rw [daysBeforeYear_succ]
  have some' : 0 < daysBeforeMonth (isLeap year) 12 := by cases isLeap year <;> decide
  omega

theorem daysBeforeYear_strictMono : StrictMono daysBeforeYear := strictMono_int_of_lt_succ daysBeforeYear_lt

theorem yearOf_spec (day : Int) : daysBeforeYear (yearOf day) ≤ day ∧ day < daysBeforeYear (yearOf day + 1) := by
  simp only [yearOf]
  split_ifs with early late
  · rw [Int.sub_add_cancel]
    simp only [daysBeforeYear] at *
    omega
  · simp only [daysBeforeYear] at *
    omega
  · omega

theorem yearOf_unique {day year : Int} (low : daysBeforeYear year ≤ day) (high : day < daysBeforeYear (year + 1)) :
    yearOf day = year := by
  obtain ⟨low', high'⟩ := yearOf_spec day
  have first := daysBeforeYear_strictMono.lt_iff_lt.mp (Int.lt_of_le_of_lt low' high)
  have second := daysBeforeYear_strictMono.lt_iff_lt.mp (Int.lt_of_le_of_lt low high')
  omega

section Months

variable (leap : Bool)

theorem monthOf_spec {day : Nat} (inside : day < daysBeforeMonth leap 12) :
    monthOf leap day < 12 ∧ daysBeforeMonth leap (monthOf leap day) ≤ day ∧
      day < daysBeforeMonth leap (monthOf leap day + 1) := by
  have table : ∀ leap : Bool, ∀ day : Fin 366, (day : Nat) < daysBeforeMonth leap 12 →
      monthOf leap day < 12 ∧ daysBeforeMonth leap (monthOf leap day) ≤ day ∧
        (day : Nat) < daysBeforeMonth leap (monthOf leap day + 1) := by
    decide +kernel
  have few : daysBeforeMonth leap 12 ≤ 366 := by cases leap <;> decide
  exact table leap ⟨day, lt_of_lt_of_le inside few⟩ inside

theorem daysBeforeMonth_mono {first second : Nat} (ordered : first ≤ second) (small : second ≤ 12) :
    daysBeforeMonth leap first ≤ daysBeforeMonth leap second := by
  have table : ∀ leap : Bool, ∀ second : Fin 13, ∀ first : Fin 13, first ≤ second →
      daysBeforeMonth leap first ≤ daysBeforeMonth leap second := by
    decide +kernel
  exact table leap ⟨second, by omega⟩ ⟨first, by omega⟩ ordered

theorem monthOf_unique {month day : Nat} (small : month < 12) (low : daysBeforeMonth leap month ≤ day)
    (high : day < daysBeforeMonth leap (month + 1)) : monthOf leap day = month := by
  have inside : day < daysBeforeMonth leap 12 :=
    lt_of_lt_of_le high (daysBeforeMonth_mono leap (by omega) (le_refl 12))
  obtain ⟨small', low', high'⟩ := monthOf_spec leap inside
  rcases Nat.lt_trichotomy (monthOf leap day) month with before | same | behind
  · have ordered := daysBeforeMonth_mono leap (show monthOf leap day + 1 ≤ month by omega) (by omega)
    omega
  · exact same
  · have ordered := daysBeforeMonth_mono leap (show month + 1 ≤ monthOf leap day by omega) (by omega)
    omega

end Months

/-- A month has at most 31 days. -/
theorem Date.Valid.small {date : Date} (valid : date.Valid) : date.month < 12 ∧ date.day < 31 := by
  have table : ∀ leap : Bool, ∀ month : Fin 12,
      daysBeforeMonth leap (month + 1) ≤ daysBeforeMonth leap month + 31 := by
    decide +kernel
  have few := table (isLeap date.year) ⟨date.month, valid.1⟩
  have within := valid.2
  dsimp only at few
  exact ⟨valid.1, by omega⟩

theorem ofDayNumber_dayNumber {date : Date} (valid : date.Valid) : ofDayNumber date.dayNumber = date := by
  obtain ⟨small, within⟩ := valid
  have end' := daysBeforeMonth_mono (isLeap date.year) (show date.month + 1 ≤ 12 by omega) (le_refl 12)
  have next := daysBeforeYear_succ date.year
  have day : date.dayNumber + epoch =
      daysBeforeYear date.year + ((daysBeforeMonth (isLeap date.year) date.month + date.day : Nat) : Int) := by
    rw [Date.dayNumber]
    omega
  have year : yearOf (date.dayNumber + epoch) = date.year := by
    apply yearOf_unique
    · omega
    · omega
  have month : monthOf (isLeap date.year) (daysBeforeMonth (isLeap date.year) date.month + date.day) = date.month :=
    monthOf_unique _ small (Nat.le_add_right _ _) within
  rw [ofDayNumber, year, day, add_sub_cancel_left, Int.toNat_natCast, month, Nat.add_sub_cancel_left]

theorem ofDayNumber_valid (number : Int) : (ofDayNumber number).Valid := by
  obtain ⟨low, high⟩ := yearOf_spec (number + epoch)
  rw [daysBeforeYear_succ] at high
  have inside : (number + epoch - daysBeforeYear (yearOf (number + epoch))).toNat <
      daysBeforeMonth (isLeap (yearOf (number + epoch))) 12 := by omega
  obtain ⟨small, start, stop⟩ := monthOf_spec _ inside
  constructor
  · exact small
  · dsimp only [ofDayNumber]
    omega

theorem dayNumber_ofDayNumber (number : Int) : (ofDayNumber number).dayNumber = number := by
  obtain ⟨low, high⟩ := yearOf_spec (number + epoch)
  rw [daysBeforeYear_succ] at high
  have inside : (number + epoch - daysBeforeYear (yearOf (number + epoch))).toNat <
      daysBeforeMonth (isLeap (yearOf (number + epoch))) 12 := by omega
  obtain ⟨-, start, -⟩ := monthOf_spec _ inside
  dsimp only [ofDayNumber, Date.dayNumber]
  omega

end CivilDate
