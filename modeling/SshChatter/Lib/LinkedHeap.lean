import Mathlib.Tactic

namespace LinkedHeap
open Function List

/-- A cell holds a value and the address of the next cell, which is absent for a null pointer. -/
structure Cell (α : Type) where
  value : α
  next : Option Nat

/-- A heap of cells never hands out an address twice, and nothing lives at the addresses to come. -/
structure Heap (α : Type) where
  cells : Nat → Option (Cell α)
  brk : Nat
  unused : ∀ addr, brk ≤ addr → cells addr = none

section Operations

variable {α : Type}

def Heap.empty : Heap α where
  cells := fun _ => none
  brk := 0
  unused := fun _ _ => rfl

def Heap.alloc (heap : Heap α) (cell : Cell α) : Heap α where
  cells := update heap.cells heap.brk (some cell)
  brk := heap.brk + 1
  unused := by
    intro addr later
    rw [update_of_ne (by omega)]
    exact heap.unused addr (by omega)

def Heap.free (heap : Heap α) (target : Nat) : Heap α where
  cells := update heap.cells target none
  brk := heap.brk
  unused := by
    intro addr later
    rw [update_apply]
    split
    · rfl
    · exact heap.unused addr later

def Heap.setNext (heap : Heap α) (target : Nat) (next : Option Nat) : Heap α where
  cells := update heap.cells target ((heap.cells target).map fun cell => { cell with next := next })
  brk := heap.brk
  unused := by
    intro addr later
    rw [update_apply]
    split
    next same =>
      rw [← same, heap.unused addr later]
      rfl
    next => exact heap.unused addr later

variable (heap : Heap α)

theorem Heap.free_of_ne {target addr : Nat} (other : addr ≠ target) :
    (heap.free target).cells addr = heap.cells addr :=
  update_of_ne other _ _

theorem Heap.setNext_self (target : Nat) (next : Option Nat) :
    (heap.setNext target next).cells target =
      (heap.cells target).map fun cell => { cell with next := next } :=
  update_self ..

theorem Heap.setNext_of_ne {target addr : Nat} (next : Option Nat) (other : addr ≠ target) :
    (heap.setNext target next).cells addr = heap.cells addr :=
  update_of_ne other _ _

def Heap.next (heap : Heap α) (addr : Nat) : Option Nat := (heap.cells addr).bind Cell.next

/-- The walk follows a bounded number of next pointers and keeps the cell before the current one. -/
def Heap.walk (heap : Heap α) : Nat → Option Nat → Option Nat → Option Nat × Option Nat
  | 0, prev, cur => (prev, cur)
  | _ + 1, prev, none => (prev, none)
  | steps + 1, _, some addr => heap.walk steps (some addr) (heap.next addr)

end Operations

section Chains

variable {α : Type}

/-- A pointer reaches these cells, each at its own address, and then null. -/
inductive Chain (heap : Heap α) : Option Nat → List (Nat × α) → Prop
  | nil : Chain heap none []
  | cons {addr : Nat} {value : α} {next : Option Nat} {rest : List (Nat × α)} :
      heap.cells addr = some ⟨value, next⟩ → addr ∉ rest.map Prod.fst → Chain heap next rest →
      Chain heap (some addr) ((addr, value) :: rest)

variable {heap heap' : Heap α} {ptr : Option Nat} {cells : List (Nat × α)}

theorem Chain.unique (chain : Chain heap ptr cells) {cells' : List (Nat × α)}
    (chain' : Chain heap ptr cells') : cells = cells' := by
  induction chain generalizing cells' with
  | nil =>
    cases chain'
    rfl
  | cons live _ _ ih =>
    cases chain' with
    | cons live' _ tail' =>
      have same := Option.some.inj (live.symm.trans live')
      cases same
      rw [ih tail']

theorem Chain.lt_brk (chain : Chain heap ptr cells) : ∀ cell ∈ cells, cell.1 < heap.brk := by
  induction chain with
  | nil => simp
  | @cons addr value next rest live _ _ ih =>
    have below : addr < heap.brk := by
      by_contra above
      rw [heap.unused addr (by omega)] at live
      exact absurd live (by simp)
    intro cell member
    rcases mem_cons.mp member with rfl | later
    · exact below
    · exact ih cell later

theorem Chain.frame (chain : Chain heap ptr cells)
    (agree : ∀ cell ∈ cells, heap'.cells cell.1 = heap.cells cell.1) : Chain heap' ptr cells := by
  induction chain with
  | nil => exact .nil
  | cons live apart _ ih =>
    refine .cons ?_ apart (ih fun cell member => agree cell (mem_cons_of_mem _ member))
    rw [← live]
    exact agree _ mem_cons_self

theorem Chain.alloc (chain : Chain heap ptr cells) (value : α) :
    Chain (heap.alloc ⟨value, ptr⟩) (some heap.brk) ((heap.brk, value) :: cells) := by
  have below := chain.lt_brk
  refine .cons (update_self ..) ?_ (chain.frame ?_)
  · intro member
    obtain ⟨cell, inside, same⟩ := mem_map.mp member
    have bound := below cell inside
    omega
  · intro cell inside
    have bound := below cell inside
    exact update_of_ne (by omega) _ _

theorem Chain.head_value (chain : Chain heap ptr cells) :
    (ptr.bind heap.cells).map Cell.value = cells.head?.map Prod.snd := by
  cases chain with
  | nil => rfl
  | cons live _ _ => simp [live]

theorem Chain.walk (chain : Chain heap ptr cells) (steps : Nat) (prev : Option Nat) :
    heap.walk steps prev ptr =
      ((((cells.take steps).getLast?).map Prod.fst).or prev, ((cells.drop steps).head?).map Prod.fst) := by
  induction chain generalizing steps prev with
  | nil => cases steps <;> rfl
  | @cons addr value next rest live _ _ ih =>
    cases steps with
    | zero => rfl
    | succ steps =>
      have follows : heap.next addr = next := by rw [Heap.next, live]; rfl
      rw [Heap.walk, follows, ih steps (some addr), take_succ_cons,
        getLast?_cons]
      cases (rest.take steps).getLast? <;> rfl

variable {front back : List (Nat × α)}

theorem Chain.cut {addr : Nat} {value : α} (chain : Chain heap ptr (front ++ (addr, value) :: back))
    (ended : heap'.cells addr = some ⟨value, none⟩) (agree : ∀ cell ∈ front, heap'.cells cell.1 = heap.cells cell.1) :
    Chain heap' ptr (front ++ [(addr, value)]) := by
  induction front generalizing ptr with
  | nil =>
    cases chain with
    | cons _ _ _ => exact .cons ended (by simp) .nil
  | cons first front ih =>
    cases chain with
    | cons live apart tail =>
      refine .cons ?_ ?_ (ih tail fun cell member => agree cell (mem_cons_of_mem _ member))
      · rw [← live]
        exact agree _ mem_cons_self
      · intro member
        apply apart
        change _ ∈ (front ++ [(addr, value)]).map Prod.fst at member
        change _ ∈ (front ++ (addr, value) :: back).map Prod.fst
        rw [map_append] at member ⊢
        rcases mem_append.mp member with inside | last
        · exact mem_append_left _ inside
        · exact mem_append_right _ (mem_cons.mpr (.inl (mem_singleton.mp last)))

theorem Chain.nodup (chain : Chain heap ptr cells) : (cells.map Prod.fst).Nodup := by
  induction chain with
  | nil => exact nodup_nil
  | cons _ apart _ ih => exact nodup_cons.mpr ⟨apart, ih⟩

theorem Chain.live (chain : Chain heap ptr cells) :
    ∀ cell ∈ cells, ∃ next, heap.cells cell.1 = some ⟨cell.2, next⟩ := by
  induction chain with
  | nil => simp
  | cons live _ _ ih =>
    intro cell member
    rcases mem_cons.mp member with rfl | later
    · exact ⟨_, live⟩
    · exact ih cell later

/-- Freeing a cell and ending the chain at the cell before it leaves the cells in front. -/
theorem Chain.evict {prev cur : Nat × α} (chain : Chain heap ptr (front ++ prev :: cur :: back)) :
    Chain ((heap.free cur.1).setNext prev.1 none) ptr (front ++ [prev]) := by
  have distinct := chain.nodup
  rw [map_append, map_cons, nodup_append, nodup_cons] at distinct
  obtain ⟨_, ⟨prevApart, _⟩, frontApart⟩ := distinct
  obtain ⟨next, live⟩ := chain.live prev (mem_append_right _ mem_cons_self)
  have different : prev.1 ≠ cur.1 := fun same => prevApart (same ▸ mem_cons_self)
  refine Chain.cut chain ?_ fun cell member => ?_
  · rw [Heap.setNext_self, Heap.free_of_ne _ different, live]
    rfl
  · have inside : cell.1 ∈ front.map Prod.fst := mem_map_of_mem member
    have notPrev := frontApart cell.1 inside prev.1 mem_cons_self
    have notCur := frontApart cell.1 inside cur.1 (mem_cons_of_mem _ mem_cons_self)
    rw [Heap.setNext_of_ne _ _ notPrev, Heap.free_of_ne _ notCur]

end Chains

end LinkedHeap
