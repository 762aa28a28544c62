import Mathlib.Tactic

namespace Inodes
open Function List

structure Files (Name α : Type) where
  names : Name → Option Nat
  contents : Nat → List α
  next : Nat
  created : ∀ name inode, names name = some inode → inode < next
  single : ∀ name name' inode, names name = some inode → names name' = some inode → name = name'

/-- A write at an offset keeps what lies outside of it and fills a gap before it. -/
def splice {α : Type} [Inhabited α] (old : List α) (offset : Nat) (data : List α) : List α :=
  old.take offset ++ replicate (offset - old.length) default ++ data ++ old.drop (offset + data.length)

section Operations

variable {Name α : Type} [DecidableEq Name]

def Files.read (fs : Files Name α) (name : Name) : Option (List α) :=
  (fs.names name).map fs.contents

/-- The name is removed. Open files keep their inode. -/
def Files.unlink (fs : Files Name α) (target : Name) : Files Name α where
  names := update fs.names target none
  contents := fs.contents
  next := fs.next
  created := by
    intro name inode named
    rw [update_apply] at named
    split at named
    · exact absurd named (by simp)
    · exact fs.created name inode named
  single := by
    intro name name' inode named named'
    rw [update_apply] at named named'
    split at named
    · exact absurd named (by simp)
    · split at named'
      · exact absurd named' (by simp)
      · exact fs.single name name' inode named named'

/-- The file with a name is truncated, or created when it is missing. The result is its inode. -/
def Files.openTruncate (fs : Files Name α) (target : Name) : Nat × Files Name α :=
  match found : fs.names target with
  | some inode => (inode, { fs with contents := update fs.contents inode [] })
  | none =>
    (fs.next,
      { names := update fs.names target (some fs.next)
        contents := update fs.contents fs.next []
        next := fs.next + 1
        created := by
          intro name inode named
          rw [update_apply] at named
          split at named
          · rw [← Option.some.inj named]
            exact Nat.lt_succ_self _
          · exact (fs.created name inode named).trans (Nat.lt_succ_self _)
        single := by
          intro name name' inode named named'
          rw [update_apply] at named named'
          split at named
          next same =>
            split at named'
            next same' => exact same.trans same'.symm
            next =>
              have bound := fs.created name' inode named'
              rw [← Option.some.inj named] at bound
              exact absurd bound (Nat.lt_irrefl _)
          next =>
            split at named'
            next =>
              have bound := fs.created name inode named
              rw [← Option.some.inj named'] at bound
              exact absurd bound (Nat.lt_irrefl _)
            next => exact fs.single name name' inode named named' })

def Files.writeAt [Inhabited α] (fs : Files Name α) (inode offset : Nat) (data : List α) :
    Files Name α :=
  { fs with contents := update fs.contents inode (splice (fs.contents inode) offset data) }

/-- The file takes a new name, and the file that had it loses it. A missing file has no result. -/
def Files.rename (fs : Files Name α) (source target : Name) : Option (Files Name α) :=
  match found : fs.names source with
  | none => none
  | some moved => some
      { fs with
        names := update (update fs.names source none) target (some moved)
        created := by
          intro name inode named
          rw [update_apply] at named
          split at named
          · rw [← Option.some.inj named]
            exact fs.created source moved found
          · rw [update_apply] at named
            split at named
            · exact absurd named (by simp)
            · exact fs.created name inode named
        single := by
          have other {name : Name} {inode : Nat} (different : name ≠ source)
              (named : fs.names name = some inode) : inode ≠ moved := fun same =>
            different (fs.single name source inode named (same ▸ found))
          intro name name' inode named named'
          rw [update_apply, update_apply] at named named'
          split at named <;> split at named'
          next same same' => exact same.trans same'.symm
          next =>
            split at named'
            · exact absurd named' (by simp)
            next different => exact absurd (Option.some.inj named).symm (other different named')
          next =>
            split at named
            · exact absurd named (by simp)
            next different => exact absurd (Option.some.inj named').symm (other different named)
          next =>
            split at named
            · exact absurd named (by simp)
            · split at named'
              · exact absurd named' (by simp)
              · exact fs.single name name' inode named named' }

end Operations

section Lemmas

variable {Name α : Type} [DecidableEq Name] (fs : Files Name α) (target : Name)

theorem Files.openTruncate_inode :
    fs.names target = some (fs.openTruncate target).1 ∨ (fs.openTruncate target).1 = fs.next := by
  unfold openTruncate
  split
  next inode found => exact .inl found
  next => exact .inr rfl

theorem Files.openTruncate_names : (fs.openTruncate target).2.names target = some (fs.openTruncate target).1 := by
  unfold openTruncate
  split
  next inode found => exact found
  next => exact update_self ..

theorem Files.openTruncate_names_of_ne {name : Name} (other : name ≠ target) :
    (fs.openTruncate target).2.names name = fs.names name := by
  unfold openTruncate
  split
  · rfl
  · exact update_of_ne other _ _

theorem Files.openTruncate_contents :
    (fs.openTruncate target).2.contents (fs.openTruncate target).1 = [] := by
  unfold openTruncate
  split <;> exact update_self ..

theorem Files.openTruncate_contents_of_ne {inode : Nat} (other : inode ≠ (fs.openTruncate target).1) :
    (fs.openTruncate target).2.contents inode = fs.contents inode := by
  unfold openTruncate at other ⊢
  split at other <;> exact update_of_ne other _ _

theorem Files.openTruncate_ne {name : Name} (other : name ≠ target) {inode : Nat}
    (named : fs.names name = some inode) : inode ≠ (fs.openTruncate target).1 := by
  intro same
  rcases fs.openTruncate_inode target with found | new
  · exact other (fs.single name target inode named (same ▸ found))
  · have bound := fs.created name inode named
    omega

theorem Files.openTruncate_next :
    (fs.openTruncate target).1 < (fs.openTruncate target).2.next ∧
      fs.next ≤ (fs.openTruncate target).2.next := by
  have created := (fs.openTruncate target).2.created target _ (fs.openTruncate_names target)
  refine ⟨created, ?_⟩
  unfold openTruncate
  split
  · exact le_refl _
  · exact Nat.le_succ _

variable {fs} in
theorem Files.rename_some {source : Name} {fs' : Files Name α} (renamed : fs.rename source target = some fs') :
    ∃ moved, fs.names source = some moved ∧
      fs'.names = update (update fs.names source none) target (some moved) ∧
      fs'.contents = fs.contents ∧ fs'.next = fs.next := by
  unfold rename at renamed
  split at renamed
  · exact absurd renamed (by simp)
  next moved found =>
    rw [← Option.some.inj renamed]
    exact ⟨moved, found, rfl, rfl, rfl⟩

end Lemmas

section Splice

variable {α : Type} [Inhabited α]

/-- A write that continues the beginning of a record gives a longer beginning. -/
theorem splice_take {old record : List α} {offset count : Nat} (fits : offset + count ≤ record.length)
    (begun : old.take offset = record.take offset) :
    (splice old offset ((record.drop offset).take count)).take (offset + count) =
      record.take (offset + count) := by
  have reached : offset ≤ old.length := by
    have length := congrArg length begun
    rw [length_take, length_take] at length
    omega
  have joined : record.take offset ++ (record.drop offset).take count = record.take (offset + count) :=
    take_add.symm
  have length : (record.take (offset + count)).length = offset + count := by
    rw [length_take]
    omega
  rw [splice, Nat.sub_eq_zero_of_le reached, replicate_zero, append_nil, begun, joined]
  exact take_left' length

theorem splice_length_le {old data : List α} {offset bound : Nat} (short : old.length ≤ bound)
    (fits : offset + data.length ≤ bound) : (splice old offset data).length ≤ bound := by
  rw [splice, length_append, length_append, length_append, length_take,
    length_replicate, length_drop]
  omega

end Splice

end Inodes
