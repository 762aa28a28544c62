import Mathlib.Tactic

/-- A square board. -/
abbrev Grid (size : Nat) (Cell : Type) := Fin size → Fin size → Cell

namespace Grid
open List

variable {size : Nat} {Cell : Type}

/-- The position is on the board. -/
def inBounds (size : Nat) (row col : Int) : Bool := 0 ≤ row && row < size && 0 ≤ col && col < size

/-- The cell at a position that is on the board. -/
def read [NeZero size] (grid : Grid size Cell) (row col : Int) : Cell :=
  grid (Fin.ofNat size row.toNat) (Fin.ofNat size col.toNat)

def write (grid : Grid size Cell) (row col : Int) (cell : Cell) : Grid size Cell := fun r c =>
  if (r : Int) = row ∧ (c : Int) = col then cell else grid r c

def positions (size : Nat) : List (Fin size × Fin size) := finRange size ×ˢ finRange size

/-- The number of cells with a property. -/
def count (grid : Grid size Cell) (holds : Cell → Bool) : Nat :=
  (positions size).countP fun position => holds (grid position.1 position.2)

variable {grid later : Grid size Cell} {row col : Int} {cell : Cell} {holds : Cell → Bool}

theorem inBounds_iff : inBounds size row col ↔ (0 ≤ row ∧ row < size) ∧ 0 ≤ col ∧ col < size := by
  simp only [inBounds, Bool.and_eq_true, decide_eq_true_eq]
  omega

variable (position : Fin size × Fin size)

theorem mem_positions : position ∈ positions size :=
  mem_product.mpr ⟨mem_finRange _, mem_finRange _⟩

theorem nodup_positions (size : Nat) : (positions size).Nodup := (nodup_finRange size).product (nodup_finRange size)

theorem inBounds_position : inBounds size position.1 position.2 := by
  rw [inBounds_iff]
  omega

variable [NeZero size]

/-- A position on the board has its own indices. -/
theorem ofNat_eq {index : Int} (low : 0 ≤ index) (high : index < size) :
    (Fin.ofNat size index.toNat : Int) = index := by
  have small : index.toNat < size := by omega
  rw [Fin.val_ofNat, Nat.mod_eq_of_lt small, Int.toNat_of_nonneg low]

theorem exists_position (inside : inBounds size row col) :
    ∃ position : Fin size × Fin size, (position.1 : Int) = row ∧ (position.2 : Int) = col :=
  have bounds := inBounds_iff.mp inside
  ⟨(Fin.ofNat size row.toNat, Fin.ofNat size col.toNat), ofNat_eq bounds.1.1 bounds.1.2, ofNat_eq bounds.2.1 bounds.2.2⟩

@[simp] theorem read_position : grid.read position.1 position.2 = grid position.1 position.2 := by
  simp [read]

theorem read_write (row col : Int) {r c : Int} (within : inBounds size r c) :
    (grid.write row col cell).read r c = if r = row ∧ c = col then cell else grid.read r c := by
  have bounds := inBounds_iff.mp within
  rw [read, write, ofNat_eq bounds.1.1 bounds.1.2, ofNat_eq bounds.2.1 bounds.2.2]
  rfl

/-- A write changes the number of cells by the old and the new one. -/
theorem count_write (grid : Grid size Cell) (cell : Cell) (holds : Cell → Bool) (inside : inBounds size row col) :
    (grid.write row col cell).count holds + (if holds (grid.read row col) then 1 else 0) =
      grid.count holds + if holds cell then 1 else 0 := by
  obtain ⟨position, rfl, rfl⟩ := exists_position inside
  obtain ⟨before, after, split⟩ := append_of_mem (mem_positions position)
  have unique := split ▸ nodup_positions size
  have apart : position ∉ before ∧ position ∉ after := by
    have parts := nodup_middle.mp unique
    rw [nodup_cons, mem_append, not_or] at parts
    exact parts.1
  have same (other : Fin size × Fin size) (different : other ≠ position) :
      grid.write position.1 position.2 cell other.1 other.2 = grid other.1 other.2 := by
    rw [write, if_neg]
    rintro ⟨first, second⟩
    exact different (Prod.ext (Fin.ext (by exact_mod_cast first)) (Fin.ext (by exact_mod_cast second)))
  have written : grid.write position.1 position.2 cell position.1 position.2 = cell := by simp [write]
  have frontSame : before.countP (fun other => holds (grid.write position.1 position.2 cell other.1 other.2)) =
      before.countP fun other => holds (grid other.1 other.2) := by
    apply countP_congr
    intro other member
    rw [same other fun equal => apart.1 (equal ▸ member)]
  have backSame : after.countP (fun other => holds (grid.write position.1 position.2 cell other.1 other.2)) =
      after.countP fun other => holds (grid other.1 other.2) := by
    apply countP_congr
    intro other member
    rw [same other fun equal => apart.2 (equal ▸ member)]
  simp only [count, split, countP_append, countP_cons, written, read_position]
  omega

/-- More cells have the property when none loses it and one gains it. -/
theorem count_lt (kept : ∀ r c, holds (grid r c) → holds (later r c)) (inside : inBounds size row col)
    (before : holds (grid.read row col) = false) (after : holds (later.read row col)) :
    grid.count holds < later.count holds := by
  obtain ⟨position, rfl, rfl⟩ := exists_position inside
  rw [read_position] at before after
  obtain ⟨front, back, split⟩ := append_of_mem (mem_positions position)
  have frontLe : front.countP (fun p => holds (grid p.1 p.2)) ≤ front.countP fun p => holds (later p.1 p.2) :=
    countP_mono_left fun p _ => kept p.1 p.2
  have backLe : back.countP (fun p => holds (grid p.1 p.2)) ≤ back.countP fun p => holds (later p.1 p.2) :=
    countP_mono_left fun p _ => kept p.1 p.2
  simp only [count, split, countP_append, countP_cons, before, after, Bool.false_eq_true, if_false, if_true]
  omega

def fill (grid : Grid size Cell) (cells : List (Int × Int)) (cell : Cell) : Grid size Cell :=
  cells.foldl (fun filled position => filled.write position.1 position.2 cell) grid

omit [NeZero size] in
theorem fill_cons (position : Int × Int) (cells : List (Int × Int)) :
    grid.fill (position :: cells) cell = (grid.write position.1 position.2 cell).fill cells cell := rfl

omit [NeZero size] in
theorem fill_append (cells more : List (Int × Int)) :
    grid.fill (cells ++ more) cell = (grid.fill cells cell).fill more cell := foldl_append

theorem read_fill (cells : List (Int × Int)) {r c : Int} (within : inBounds size r c) :
    (grid.fill cells cell).read r c = if (r, c) ∈ cells then cell else grid.read r c := by
  induction cells generalizing grid with
  | nil => rfl
  | cons position cells ih =>
    rw [fill_cons, ih, read_write _ _ within]
    by_cases later : (r, c) ∈ cells
    · rw [if_pos later, if_pos (mem_cons_of_mem _ later)]
    · rw [if_neg later]
      by_cases here : r = position.1 ∧ c = position.2
      · rw [if_pos here, if_pos (mem_cons.mpr (.inl (Prod.ext here.1 here.2)))]
      · rw [if_neg here, if_neg]
        rintro listed
        rcases mem_cons.mp listed with same | behind
        · exact here ⟨congrArg Prod.fst same, congrArg Prod.snd same⟩
        · exact later behind

/-- Different cells that were all alike change the number of cells by their number. -/
theorem count_fill {cells : List (Int × Int)} (distinct : cells.Nodup) {old : Cell}
    (alike : ∀ position ∈ cells, inBounds size position.1 position.2 ∧ grid.read position.1 position.2 = old)
    (cell : Cell) (holds : Cell → Bool) :
    (grid.fill cells cell).count holds + cells.length * (if holds old then 1 else 0) =
      grid.count holds + cells.length * if holds cell then 1 else 0 := by
  induction cells generalizing grid with
  | nil => simp [fill]
  | cons position cells ih =>
    obtain ⟨apart, distinct⟩ := nodup_cons.mp distinct
    obtain ⟨inside, same⟩ := alike position mem_cons_self
    have rest : ∀ other ∈ cells, inBounds size other.1 other.2 ∧
        (grid.write position.1 position.2 cell).read other.1 other.2 = old := by
      intro other listed
      obtain ⟨within, before⟩ := alike other (mem_cons_of_mem _ listed)
      refine ⟨within, ?_⟩
      rw [read_write _ _ within, if_neg, before]
      rintro ⟨first, second⟩
      exact apart (Prod.ext first second ▸ listed)
    have filled := ih distinct rest
    have written := count_write grid cell holds inside
    rw [same] at written
    rw [fill_cons, length_cons, Nat.succ_mul, Nat.succ_mul]
    omega

end Grid
