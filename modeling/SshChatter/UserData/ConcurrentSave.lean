import SshChatter.Lib.CString
import SshChatter.Lib.Inodes

namespace SshChatter.ConcurrentSave
open CString Inodes

/-- The files that the saves of one record name. -/
inductive FileName where
  | path
  | temp
  | backup
  deriving DecidableEq

/-- The next file operation of a call of `user_data_save`. -/
inductive Phase where
  | unlinkTemp
  | openTemp
  | lockTemp
  | copyBackup
  | writeTemp
  | syncTemp
  | closeTemp
  | abandonTemp
  | renameTemp
  | discardTemp
  | finished (success : Bool)
  deriving DecidableEq

/-- The answer of the system to a file operation. A write answers with the number of its bytes. -/
inductive Answer where
  | done (count : Nat)
  | failed
  deriving DecidableEq

/-- A call keeps its open file and the number of bytes that it has written. -/
structure Call where
  phase : Phase
  inode : Nat
  offset : Nat
  deriving DecidableEq

/-- Two processes save records of the same size. -/
structure Callers where
  size : Nat
  record : Bool → Bytes
  sized : ∀ who, (record who).length = size

/-- The files, the holder of the lock on each inode, and the two calls. -/
structure State where
  files : Files FileName UInt8
  locks : Nat → Option Bool
  calls : Bool → Call

/-- Both calls start when no lock is held. -/
def State.initial (files : Files FileName UInt8) : State :=
  ⟨files, fun _ => none, fun _ => ⟨.unlinkTemp, 0, 0⟩⟩

def State.enter (state : State) (who : Bool) (phase : Phase) : State :=
  { state with calls := Function.update state.calls who { state.calls who with phase := phase } }

/-- This is `user_data_create_backup`. A missing record needs no backup, and a failed copy is removed. -/
def createBackup (files : Files FileName UInt8) (answer : Answer) : Files FileName UInt8 :=
  match files.read .path with
  | none => files
  | some content =>
    let opened := files.openTruncate .backup
    match answer with
    | .done _ => opened.2.writeAt opened.1 0 content
    | .failed => (opened.2.writeAt opened.1 0 content).unlink .backup

def afterWrite (callers : Callers) (offset : Nat) : Phase :=
  if offset < callers.size then .writeTemp else .syncTemp

def closeFile (locks : Nat → Option Bool) (who : Bool) (inode : Nat) : Nat → Option Bool :=
  if locks inode = some who then Function.update locks inode none else locks

/-- One file operation of a call of `user_data_save`. There is no step while the lock is held. -/
def step (callers : Callers) (who : Bool) (answer : Answer) (state : State) : Option State :=
  let call := state.calls who
  match call.phase, answer with
  | .unlinkTemp, _ => some ({ state with files := state.files.unlink .temp }.enter who .openTemp)
  | .openTemp, .done _ => some { state with
      files := (state.files.openTruncate .temp).2
      calls := Function.update state.calls who ⟨.lockTemp, (state.files.openTruncate .temp).1, 0⟩ }
  | .openTemp, .failed => some (state.enter who (.finished false))
  | .lockTemp, .done _ =>
    if state.locks call.inode = none then
      some ({ state with locks := Function.update state.locks call.inode (some who) }.enter who .copyBackup)
    else none
  | .lockTemp, .failed => some (state.enter who .abandonTemp)
  | .copyBackup, answer =>
    some ({ state with files := createBackup state.files answer }.enter who (afterWrite callers call.offset))
  | .writeTemp, .done count =>
    if 0 < count ∧ call.offset + count ≤ callers.size then some { state with
      files := state.files.writeAt call.inode call.offset
        (((callers.record who).drop call.offset).take count)
      calls := Function.update state.calls who
        ⟨afterWrite callers (call.offset + count), call.inode, call.offset + count⟩ }
    else none
  | .writeTemp, .failed => some (state.enter who .abandonTemp)
  | .syncTemp, .done _ => some (state.enter who .closeTemp)
  | .syncTemp, .failed => some (state.enter who .abandonTemp)
  | .closeTemp, .done _ =>
    some ({ state with locks := closeFile state.locks who call.inode }.enter who .renameTemp)
  | .closeTemp, .failed =>
    some ({ state with locks := closeFile state.locks who call.inode }.enter who .discardTemp)
  | .abandonTemp, _ =>
    some ({ state with locks := closeFile state.locks who call.inode }.enter who .discardTemp)
  | .renameTemp, .done _ =>
    match state.files.rename .temp .path with
    | some files => some ({ state with files := files }.enter who (.finished true))
    | none => some (state.enter who .discardTemp)
  | .renameTemp, .failed => some (state.enter who .discardTemp)
  | .discardTemp, _ => some ({ state with files := state.files.unlink .temp }.enter who (.finished false))
  | .finished _, _ => none

def Phase.opened : Phase → Bool
  | .unlinkTemp | .openTemp | .finished _ => false
  | _ => true

def Owes (callers : Callers) (state : State) (who : Bool) (inode : Nat) : Prop :=
  (state.calls who).phase.opened ∧ (state.calls who).inode = inode ∧
    (state.calls who).offset < callers.size

def TempSettled (callers : Callers) (who : Bool) (state : State) : Prop :=
  ∀ inode, state.files.names .temp = some inode → ¬ Owes callers state (!who) inode

instance (callers : Callers) (state : State) (who : Bool) (inode : Nat) :
    Decidable (Owes callers state who inode) :=
  inferInstanceAs (Decidable (_ ∧ _ ∧ _))

instance (callers : Callers) : DecidableRel (TempSettled callers) := fun who state =>
  inferInstanceAs (Decidable (∀ inode ∈ state.files.names .temp, ¬ Owes callers state (!who) inode))

/-- The operations of a schedule are done one by one, as long as the guard admits the renames. -/
def follow (callers : Callers) (mayRename : Bool → State → Prop) [DecidableRel mayRename] :
    List (Bool × Answer) → State → Option State
  | [], state => some state
  | (who, answer) :: rest, state =>
    if (state.calls who).phase = .renameTemp → mayRename who state then
      (step callers who answer state).bind (follow callers mayRename rest)
    else none

/-- The two calls take their steps in any order, and a rename only in the states that the guard admits. -/
inductive Run (callers : Callers) (mayRename : Bool → State → Prop) (files : Files FileName UInt8) :
    State → Prop
  | start : Run callers mayRename files (.initial files)
  | step {state state' : State} (who : Bool) (answer : Answer) : Run callers mayRename files state →
      ((state.calls who).phase = .renameTemp → mayRename who state) →
      step callers who answer state = some state' → Run callers mayRename files state'

def Intact (callers : Callers) (files : Files FileName UInt8) (state : State) : Prop :=
  ∀ content, state.files.read .path = some content →
    files.read .path = some content ∨ ∃ who, content = callers.record who

end SshChatter.ConcurrentSave
