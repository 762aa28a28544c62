import Mathlib.Data.List.Basic
import Mathlib.Tactic

/-- A resizable store of cells is reached only by mapping a range of it. Every operation may fail. -/
structure AbstractMem (Mem Cell : Type) where
  alloc : Nat → Option Mem
  resize : Mem → Nat → Option Mem
  mapRead : Mem → Nat → Nat → Option (List Cell)
  mapWrite : Mem → Nat → List Cell → Option Mem

namespace AbstractMem
open List

/-- The store succeeds in range: it keeps its cells when it grows and changes only the written range. -/
structure Lawful {Mem Cell : Type} (mem : AbstractMem Mem Cell) (contents : Mem → List Cell) : Prop where
  alloc : ∀ size, ∃ m, mem.alloc size = some m ∧ (contents m).length = size
  resize : ∀ m size, (contents m).length ≤ size →
    ∃ m', mem.resize m size = some m' ∧ (contents m').length = size ∧
      (contents m').take (contents m).length = contents m
  read : ∀ m offset count, offset + count ≤ (contents m).length →
    mem.mapRead m offset count = some (((contents m).drop offset).take count)
  write : ∀ m offset cells, offset + cells.length ≤ (contents m).length →
    ∃ m', mem.mapWrite m offset cells = some m' ∧
      contents m' = (contents m).take offset ++ (cells ++ (contents m).drop (offset + cells.length))

def list (Cell : Type) [Inhabited Cell] : AbstractMem (List Cell) Cell where
  alloc size := some (replicate size default)
  resize m size := some (m ++ replicate (size - m.length) default)
  mapRead m offset count :=
    if offset + count ≤ m.length then some ((m.drop offset).take count) else none
  mapWrite m offset cells :=
    if offset + cells.length ≤ m.length then
      some (m.take offset ++ (cells ++ m.drop (offset + cells.length)))
    else none

theorem list_lawful (Cell : Type) [Inhabited Cell] : (list Cell).Lawful id where
  alloc size := ⟨_, rfl, by simp⟩
  resize m size grows := by
    refine ⟨_, rfl, ?_, ?_⟩
    · simp only [id_eq, length_append, length_replicate] at grows ⊢
      omega
    · simp
  read m offset count inside := if_pos inside
  write m offset cells inside := ⟨_, if_pos inside, rfl⟩

section Window

variable {Mem Cell : Type} {mem : AbstractMem Mem Cell} {contents : Mem → List Cell}

/-- A growing store keeps every window of its first cells. -/
theorem Lawful.resize_take (lawful : mem.Lawful contents) {m : Mem} {size : Nat}
    (grows : (contents m).length ≤ size) {count : Nat} (inside : count ≤ (contents m).length) :
    ∃ m', mem.resize m size = some m' ∧ (contents m').length = size ∧
      (contents m').take count = (contents m).take count := by
  obtain ⟨m', done, length, kept⟩ := lawful.resize m size grows
  refine ⟨m', done, length, ?_⟩
  rw [← kept, take_take, min_eq_left inside]

theorem Lawful.write_take (lawful : mem.Lawful contents) {m : Mem} {offset : Nat} {cells : List Cell}
    (inside : offset + cells.length ≤ (contents m).length) :
    ∃ m', mem.mapWrite m offset cells = some m' ∧ (contents m').length = (contents m).length ∧
      (contents m').take (offset + cells.length) = (contents m).take offset ++ cells := by
  obtain ⟨m', done, same⟩ := lawful.write m offset cells inside
  have offsetBound : offset ≤ (contents m).length := by omega
  have taken : ((contents m).take offset).length = offset := length_take_of_le offsetBound
  refine ⟨m', done, ?_, ?_⟩
  · rw [same]
    simp only [length_append, length_drop]
    omega
  · rw [same, ← append_assoc]
    apply take_left'
    rw [length_append, taken]

theorem Lawful.read_window (lawful : mem.Lawful contents) {m : Mem} {count : Nat}
    (inside : count ≤ (contents m).length) :
    mem.mapRead m 0 count = some ((contents m).take count) := by
  rw [lawful.read m 0 count (by omega), drop_zero]

end Window

end AbstractMem
