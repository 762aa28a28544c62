import SshChatter.Lib.CString
import Mathlib.Data.List.Basic

namespace RecordLayout
open CString List

section Layout

structure Member (Field : Type) where
  field : Field
  size : Nat
  align : Nat

def padTo (align offset : Nat) : Nat := (offset + align - 1) / align * align

/-- The place of a member in the struct. -/
structure Slot (Field : Type) where
  field : Field
  offset : Nat
  size : Nat
  deriving DecidableEq

variable {Field : Type} [DecidableEq Field]

def slotsFrom (offset : Nat) : List (Member Field) → List (Slot Field)
  | [] => []
  | member :: members =>
    ⟨member.field, padTo member.align offset, member.size⟩ ::
      slotsFrom (padTo member.align offset + member.size) members

def slots (members : List (Member Field)) : List (Slot Field) := slotsFrom 0 members

def slot (members : List (Member Field)) (field : Field) : Option (Slot Field) :=
  (slots members).find? fun slot => slot.field = field

def structSize (members : List (Member Field)) : Nat :=
  padTo ((members.map Member.align).foldl max 1)
    (((slots members).getLast?.map fun slot => slot.offset + slot.size).getD 0)

def offsetOf (members : List (Member Field)) (field : Field) : Nat := ((slot members field).map Slot.offset).getD 0

end Layout

section Memory

/-- The bytes of a struct by their offset. -/
abbrev Memory := Nat → UInt8

def cleared : Memory := fun _ => 0

def readRange (memory : Memory) (offset size : Nat) : Bytes := (range size).map fun index => memory (offset + index)

def writeRange (memory : Memory) (offset : Nat) (bytes : Bytes) : Memory :=
  fun index => if offset ≤ index ∧ index < offset + bytes.length then bytes.getD (index - offset) 0 else memory index

/-- The string at the start of some bytes. -/
def textOf (bytes : Bytes) : Bytes := bytes.takeWhile fun c => c ≠ 0

variable {bytes : Bytes} (memory : Memory)

theorem readRange_length (offset size : Nat) : (readRange memory offset size).length = size := by
  rw [readRange, length_map, length_range]

theorem readRange_congr {first second : Memory} {offset size : Nat}
    (agree : ∀ index, offset ≤ index → index < offset + size → first index = second index) :
    readRange first offset size = readRange second offset size := by
  apply map_congr_left
  intro index inside
  rw [mem_range] at inside
  exact agree _ (by omega) (by omega)

theorem readRange_write_apart {offset size start : Nat}
    (apart : offset + size ≤ start ∨ start + bytes.length ≤ offset) :
    readRange (writeRange memory start bytes) offset size = readRange memory offset size := by
  apply readRange_congr
  intro index low high
  rw [writeRange, if_neg (by omega)]

theorem readRange_write {offset size : Nat} (fits : bytes.length ≤ size) :
    readRange (writeRange memory offset bytes) offset size =
      bytes ++ readRange memory (offset + bytes.length) (size - bytes.length) := by
  apply ext_getElem
  · rw [readRange_length, length_append, readRange_length]
    omega
  · intro index inside inside'
    simp only [readRange, getElem_map, getElem_range, writeRange]
    by_cases stored : index < bytes.length
    · rw [if_pos (by omega)]
      simp [stored]
    · rw [if_neg (by omega), getElem_append_right (by omega), getElem_map, getElem_range]
      congr 1
      omega

/-- The string of a range behind the store of a string and its terminator. -/
theorem textOf_append {text : Bytes} (plain : (0 : UInt8) ∉ text) (rest : Bytes) :
    textOf (text ++ 0 :: rest) = text := by
  induction text with
  | nil => rfl
  | cons c text ih =>
    rw [mem_cons, not_or] at plain
    rw [cons_append, textOf, takeWhile_cons_of_pos (by simpa using Ne.symm plain.1)]
    exact congrArg (c :: ·) (ih plain.2)

theorem textOf_plain (bytes : Bytes) : (0 : UInt8) ∉ textOf bytes := by
  intro member
  simpa using mem_takeWhile_imp member

/-- A string of zeros is empty. -/
theorem textOf_blank (blank : ∀ c ∈ textOf bytes, c = 0) : textOf bytes = [] := by
  apply eq_nil_iff_forall_not_mem.mpr
  intro c member
  exact textOf_plain bytes (blank c member ▸ member)

/-- The string of a terminated array is shorter than the array. -/
theorem textOf_length (terminated : (0 : UInt8) ∈ bytes) : (textOf bytes).length < bytes.length := by
  induction bytes with
  | nil => exact absurd terminated not_mem_nil
  | cons c bytes ih =>
    by_cases ends : c = 0
    · subst ends
      exact Nat.succ_pos _
    · have later : (0 : UInt8) ∈ bytes := (mem_cons.mp terminated).resolve_left (Ne.symm ends)
      rw [textOf, takeWhile_cons_of_pos (by simpa using ends)]
      exact Nat.succ_lt_succ (ih later)

end Memory

section Places

variable {Field : Type} [DecidableEq Field]

theorem le_padTo {align : Nat} (positive : 0 < align) (offset : Nat) : offset ≤ padTo align offset := by
  have split := Nat.div_add_mod (offset + align - 1) align
  have small := Nat.mod_lt (offset + align - 1) positive
  rw [padTo, mul_comm]
  omega

variable {members : List (Member Field)}

omit [DecidableEq Field] in
/-- Each member lies behind the members in front of it. -/
theorem slotsFrom_ordered (aligned : ∀ member ∈ members, 0 < member.align) (offset : Nat) :
    (slotsFrom offset members).Pairwise (fun first second => first.offset + first.size ≤ second.offset) ∧
      ∀ slot ∈ slotsFrom offset members, offset ≤ slot.offset := by
  induction members generalizing offset with
  | nil => exact ⟨List.Pairwise.nil, by simp [slotsFrom]⟩
  | cons member members ih =>
    have padded := le_padTo (aligned member mem_cons_self) offset
    obtain ⟨ordered, behind⟩ := ih (fun other inside => aligned other (mem_cons_of_mem _ inside))
      (padTo member.align offset + member.size)
    constructor
    · exact List.Pairwise.cons behind ordered
    · intro slot inside
      rcases mem_cons.mp inside with rfl | inside
      · exact padded
      · exact le_trans (by omega) (behind slot inside)

theorem slot_mem {field : Field} {place : Slot Field} (found : slot members field = some place) :
    place ∈ slots members ∧ place.field = field :=
  ⟨mem_of_find?_eq_some found, by simpa using find?_some found⟩

/-- Two members share no byte. -/
theorem slots_apart (aligned : ∀ member ∈ members, 0 < member.align) {first second : Field} {one other : Slot Field}
    (firstPlace : slot members first = some one) (secondPlace : slot members second = some other)
    (different : first ≠ second) :
    one.offset + one.size ≤ other.offset ∨ other.offset + other.size ≤ one.offset := by
  obtain ⟨oneListed, rfl⟩ := slot_mem firstPlace
  obtain ⟨otherListed, rfl⟩ := slot_mem secondPlace
  have ordered := (slotsFrom_ordered aligned 0).1
  have symmetric : Std.Symm fun one other : Slot Field =>
      one.offset + one.size ≤ other.offset ∨ other.offset + other.size ≤ one.offset := ⟨fun _ _ => Or.symm⟩
  have apart := ordered.imp (fun {one other} before =>
    (Or.inl before : one.offset + one.size ≤ other.offset ∨ other.offset + other.size ≤ one.offset))
  exact apart.forall oneListed otherListed (fun same => different (congrArg Slot.field same))

def valueOf (members : List (Member Field)) (memory : Memory) (field : Field) : Bytes :=
  match slot members field with
  | none => []
  | some place => readRange memory place.offset place.size

theorem valueOf_length (members : List (Member Field)) (memory : Memory) (field : Field) :
    (valueOf members memory field).length = ((slot members field).map Slot.size).getD 0 := by
  rw [valueOf]
  cases slot members field with
  | none => rfl
  | some => exact readRange_length _ _ _

end Places

section Assignments

variable {Field : Type} [DecidableEq Field]

/-- A statement of a conversion between two structs: a plain assignment, a `snprintf` of a string, or a store of
constant bytes. -/
inductive Assign (Field : Type) where
  | move (target source : Field)
  | print (field : Field)
  | put (target : Field) (bytes : Bytes)
  deriving DecidableEq

/-- The member that a statement stores to. -/
def Assign.target : Assign Field → Field
  | .move target _ => target
  | .print field => field
  | .put target _ => target

variable (source target : List (Member Field))

/-- What a statement stores in an array of a size. -/
def Assign.bytes (record : Memory) (size : Nat) : Assign Field → Bytes
  | .move _ field => readRange record (offsetOf source field) size
  | .print field => (textOf (valueOf source record field)).take (size - 1) ++ [0]
  | .put _ bytes => bytes

/-- One statement. -/
def Assign.exec (record : Memory) (out : Memory) (assign : Assign Field) : Memory :=
  match slot target assign.target with
  | none => out
  | some place => writeRange out place.offset (assign.bytes source record place.size)

/-- The statements in their order. -/
def convert (record : Memory) (assigns : List (Assign Field)) (out : Memory) : Memory :=
  assigns.foldl (Assign.exec source target record) out

/-- A statement stores no byte outside a member of a size. -/
def Assign.fitsIn (size : Nat) : Assign Field → Bool
  | .move _ _ => true
  | .print _ => 0 < size
  | .put _ bytes => bytes.length ≤ size

/-- A statement stores no byte outside its member. -/
def Assign.fits (target : List (Member Field)) (assign : Assign Field) : Bool :=
  (slot target assign.target).all fun place => assign.fitsIn place.size

variable {source target}
variable {assigns : List (Assign Field)} {assign : Assign Field} {field : Field}

theorem Assign.bytes_length (record : Memory) (fits : assign.fits target) {place : Slot Field}
    (found : slot target assign.target = some place) :
    (assign.bytes source record place.size).length ≤ place.size := by
  rw [Assign.fits, found] at fits
  cases assign with
  | move => exact (readRange_length _ _ _).le
  | print =>
    have positive : 0 < place.size := by simpa [Assign.fitsIn] using fits
    rw [Assign.bytes, length_append, length_take, length_singleton]
    omega
  | put field bytes =>
    rw [Assign.bytes]
    simpa [Assign.fitsIn] using fits

/-- A statement leaves the other members alone. -/
theorem Assign.exec_other (aligned : ∀ member ∈ target, 0 < member.align) (record out : Memory)
    (fits : assign.fits target) (different : assign.target ≠ field) :
    valueOf target (assign.exec source target record out) field = valueOf target out field := by
  rw [Assign.exec, valueOf, valueOf]
  cases other : slot target field with
  | none => rfl
  | some =>
    cases found : slot target assign.target with
    | none => rfl
    | some place =>
      have short : (assign.bytes source record place.size).length ≤ place.size :=
        Assign.bytes_length record fits found
      apply readRange_write_apart
      rcases slots_apart aligned found other different with before | behind
      · exact .inr (by omega)
      · exact .inl behind

/-- Statements for other members leave a member alone. -/
theorem convert_other (aligned : ∀ member ∈ target, 0 < member.align) (record out : Memory)
    (fits : ∀ assign ∈ assigns, assign.fits target) (different : ∀ assign ∈ assigns, assign.target ≠ field) :
    valueOf target (convert source target record assigns out) field = valueOf target out field := by
  induction assigns generalizing out with
  | nil => rfl
  | cons assign assigns ih =>
    have first : valueOf target (assign.exec source target record out) field = valueOf target out field :=
      Assign.exec_other aligned record out (fits assign mem_cons_self) (different assign mem_cons_self)
    rw [← first]
    apply ih
    · intro later inside
      exact fits later (mem_cons_of_mem _ inside)
    · intro later inside
      exact different later (mem_cons_of_mem _ inside)

/-- A member that one statement stores to has what that statement stores. -/
theorem convert_assigned (aligned : ∀ member ∈ target, 0 < member.align) (record out : Memory)
    (fits : ∀ assign ∈ assigns, assign.fits target)
    (once : assigns.filter (fun other => other.target = field) = [assign]) :
    ∃ before, valueOf target (convert source target record assigns out) field =
      valueOf target (assign.exec source target record before) field := by
  induction assigns generalizing out with
  | nil => cases once
  | cons first assigns ih =>
    have later : ∀ other ∈ assigns, other.fits target :=
      fun other inside => fits other (mem_cons_of_mem _ inside)
    by_cases here : first.target = field
    · rw [filter_cons_of_pos (by simpa using here)] at once
      obtain ⟨rfl, none'⟩ := cons.inj once
      refine ⟨out, convert_other aligned record _ later ?_⟩
      intro other inside same
      have kept : other ∈ assigns.filter (fun other => other.target = field) := by simp [inside, same]
      rw [none'] at kept
      cases kept
    · rw [filter_cons_of_neg (by simpa using here)] at once
      exact ih _ later once

theorem convert_put (aligned : ∀ member ∈ target, 0 < member.align) (record out : Memory)
    (fits : ∀ assign ∈ assigns, assign.fits target) {bytes : Bytes}
    (once : assigns.filter (fun other => other.target = field) = [.put field bytes]) {place : Slot Field}
    (found : slot target field = some place) (fills : bytes.length = place.size) :
    valueOf target (convert source target record assigns out) field = bytes := by
  obtain ⟨before, stored⟩ := convert_assigned aligned record out fits once
  rw [stored, valueOf, Assign.exec, Assign.target, found]
  dsimp only [Assign.bytes]
  rw [readRange_write before fills.le, fills, Nat.sub_self]
  exact append_nil bytes

end Assignments

section Number

def fixed : Nat → Nat → Bytes
  | 0, _ => []
  | width + 1, value => UInt8.ofNat (value % 256) :: fixed width (value / 256)

/-- The number that bytes stand for, the lowest byte first. -/
def unsigned : Bytes → Nat
  | [] => 0
  | c :: bytes => c.toNat + 256 * unsigned bytes

variable (width value : Nat)

theorem fixed_length : (fixed width value).length = width := by
  induction width generalizing value with
  | zero => rfl
  | succ width ih => rw [fixed, length_cons, ih]

theorem fixed_take (back : Bytes) : (fixed width value ++ back).take width = fixed width value :=
  take_left' (fixed_length width value)

theorem fixed_drop (back : Bytes) (more : Nat) :
    (fixed width value ++ back).drop (width + more) = back.drop more := by
  rw [← drop_drop, drop_left' (fixed_length width value)]

theorem unsigned_fixed {width value : Nat} (small : value < 256 ^ width) : unsigned (fixed width value) = value := by
  induction width generalizing value with
  | zero =>
    exact (Nat.lt_one_iff.mp small).symm
  | succ width ih =>
    have higher : value / 256 < 256 ^ width := by
      rw [Nat.div_lt_iff_lt_mul (by decide)]
      exact small
    rw [fixed, unsigned, ih higher, UInt8.toNat_ofNat_of_lt' (Nat.mod_lt _ (by decide))]
    exact Nat.mod_add_div value 256

theorem unsigned_lt (bytes : Bytes) : unsigned bytes < 256 ^ bytes.length := by
  induction bytes with
  | nil => exact Nat.one_pos
  | cons c =>
    have low := c.toNat_lt
    rw [unsigned, length_cons]
    omega

end Number

end RecordLayout
