import SshChatter.Ddial.HandleCommand
import SshChatter.Lib.Walk

namespace SshChatter.Ddial
open CString DdialProtocol

def Member.refersTo (m : Member) (slot : Fin 9) : Option (Fin 9) := reference (m.savedHandles slot).text

/-- The command ends without another call of itself when the stack is deep enough. -/
def Terminates (derive : Derive) (members : List Member) (sess : MvSession) (inUse : Bytes → Bool) (arg : Bytes) :
    Prop :=
  ∃ depth, ((cmdHandle sess inUse depth arg).run (memberExec derive) members).2.effect ≠ .stackOverflow

def ActivatesCircle (members : List Member) (sess : MvSession) (arg : Bytes) : Prop :=
  ∃ m slot, sess.memberNo ≠ 0 ∧ findNo members sess.memberNo = some m ∧ reference arg = some slot ∧
    Walk.Circles m.refersTo slot

section Calls

variable {derive : Derive} {members : List Member} {sess : MvSession} {inUse : Bytes → Bool} {depth : Nat} {arg : Bytes}
  {m : Member} {slot : Fin 9}

/-- The stack is not deep enough for the command. -/
def Overflows (derive : Derive) (members : List Member) (sess : MvSession) (inUse : Bytes → Bool) (depth : Nat)
    (arg : Bytes) : Prop :=
  ((cmdHandle sess inUse depth arg).run (memberExec derive) members).2.effect = .stackOverflow

theorem overflows_zero : Overflows derive members sess inUse 0 arg := rfl

theorem takeHandle_shallow (arg : Bytes) :
    ((takeHandle sess inUse arg).run (memberExec derive) members).2.effect ≠ .stackOverflow := by
  have step := takeHandle_step derive members sess inUse arg
  generalize (takeHandle sess inUse arg).run (memberExec derive) members = outcome at step ⊢
  cases step <;> simp

/-- The command calls itself with a saved handle that is not empty, and that call is too deep. -/
def Recurses (derive : Derive) (members : List Member) (sess : MvSession) (inUse : Bytes → Bool) (depth : Nat)
    (arg : Bytes) : Prop :=
  ∃ m slot, sess.memberNo ≠ 0 ∧ findNo members sess.memberNo = some m ∧ reference arg = some slot ∧
    (m.savedHandles slot).text ≠ [] ∧ Overflows derive members sess inUse depth (m.savedHandles slot).text

theorem AnswersAtOnce.not_recurses (atOnce : AnswersAtOnce members sess arg) :
    ¬ Recurses derive members sess inUse depth arg := by
  rintro ⟨m, slot, member, found, asked, filled, -⟩
  rcases atOnce with guest | missing | other | ⟨m', slot', found', asked', empty⟩
  · exact member guest
  · simp [missing] at found
  · simp [other] at asked
  · rw [found] at found'
    rw [asked] at asked'
    obtain ⟨rfl, rfl⟩ := And.intro (Option.some.inj found') (Option.some.inj asked')
    exact filled empty

/-- The command calls itself only for a saved handle that is not empty. -/
theorem overflows_succ :
    Overflows derive members sess inUse (depth + 1) arg ↔ Recurses derive members sess inUse depth arg := by
  have step := cmdHandle_step derive members sess inUse depth arg
  have unreferred (other : reference arg = none) : ¬ Recurses derive members sess inUse depth arg :=
    AnswersAtOnce.not_recurses (.inr (.inr (.inl other)))
  rw [Overflows]
  generalize (cmdHandle sess inUse (depth + 1) arg).run (memberExec derive) members = outcome at step ⊢
  cases step with
  | answered atOnce => exact iff_of_false (by simp) atOnce.not_recurses
  | saved other => exact iff_of_false (by simp) (unreferred other)
  | again m slot member found asked filled =>
    constructor
    · exact fun deep => ⟨m, slot, member, found, asked, filled, deep⟩
    · rintro ⟨m', slot', -, found', asked', -, deep⟩
      rw [found] at found'
      rw [asked] at asked'
      obtain ⟨rfl, rfl⟩ := And.intro (Option.some.inj found') (Option.some.inj asked')
      exact deep
  | taking other => exact iff_of_false (takeHandle_shallow (skipWs arg)) (unreferred other)

/-- The walk along the saved handles says how deep the command goes. -/
theorem overflows_walk (member : sess.memberNo ≠ 0) (found : findNo members sess.memberNo = some m)
    (asked : reference arg = some slot) (depth : Nat) :
    (Overflows derive members sess inUse (depth + 1) arg → (Walk.walk m.refersTo depth slot).isSome) ∧
      ((Walk.walk m.refersTo (depth + 1) slot).isSome → Overflows derive members sess inUse (depth + 1) arg) := by
  have filled (slot other : Fin 9) (leads : m.refersTo slot = some other) : (m.savedHandles slot).text ≠ [] := by
    intro empty
    rw [Member.refersTo, empty] at leads
    cases leads
  induction depth generalizing arg slot with
  | zero =>
    refine ⟨fun _ => rfl, fun goes => ?_⟩
    obtain ⟨other, leads, -⟩ := Option.bind_eq_some_iff.mp (Option.isSome_iff_exists.mp goes).choose_spec
    exact overflows_succ.mpr ⟨m, slot, member, found, asked, filled slot other leads, overflows_zero⟩
  | succ depth ih =>
    constructor
    · intro deep
      obtain ⟨m', slot', -, found', asked', -, deeper⟩ := overflows_succ.mp deep
      rw [found] at found'
      rw [asked] at asked'
      obtain ⟨rfl, rfl⟩ := And.intro (Option.some.inj found') (Option.some.inj asked')
      obtain ⟨m', other, -, found', leads, -⟩ := overflows_succ.mp deeper
      rw [found] at found'
      cases found'
      have next : m.refersTo slot = some other := leads
      rw [Walk.walk_succ, next]
      exact (ih leads).1 deeper
    · intro goes
      obtain ⟨last, ended⟩ := Option.isSome_iff_exists.mp goes
      obtain ⟨other, leads, later⟩ := Option.bind_eq_some_iff.mp ended
      have deeper := (ih leads).2 (Option.isSome_iff_exists.mpr ⟨last, later⟩)
      exact overflows_succ.mpr ⟨m, slot, member, found, asked, filled slot other leads, deeper⟩

/-- The command ends exactly when it does not activate a saved handle from which the references come to a circle. -/
theorem cmdHandle_terminates_iff (derive : Derive) (members : List Member) (sess : MvSession) (inUse : Bytes → Bool)
    (arg : Bytes) : Terminates derive members sess inUse arg ↔ ¬ ActivatesCircle members sess arg := by
  rw [← not_iff_not, not_not]
  have endless : ¬ Terminates derive members sess inUse arg ↔ ∀ depth,
    Overflows derive members sess inUse depth arg := by
    simp [Terminates, Overflows]
  rw [endless]
  constructor
  · intro deep
    obtain ⟨m, slot, member, found, asked, -⟩ := overflows_succ.mp (deep 1)
    refine ⟨m, slot, member, found, asked, Walk.endless_iff.mp fun depth => ?_⟩
    exact (overflows_walk member found asked depth).1 (deep (depth + 1))
  · rintro ⟨m, slot, member, found, asked, circles⟩ depth
    cases depth with
    | zero => exact overflows_zero
    | succ depth => exact (overflows_walk member found asked depth).2 (Walk.endless_iff.mpr circles (depth + 1))

end Calls

def savedSession : MvSession := { MvSession.fresh with loggedIn := true, memberNo := 7 }

def savedRoll : List Member :=
  ((cmdHandle savedSession (fun _ => false) 1 (str "1=1")).run (memberExec fun _ _ => none)
    [{ Member.zero with number := 7 }]).1

/-- A saved handle that names itself is activated without end. -/
theorem cmdHandle_endless : ¬ Terminates (fun _ _ => none) savedRoll savedSession (fun _ => false) (str "1") := by
  rintro ⟨depth, ended⟩
  apply ended
  have saved : ∃ m, findNo savedRoll 7 = some m ∧ (m.savedHandles 0).text = str "1" := ⟨_, rfl, by decide⟩
  obtain ⟨m, found, own⟩ := saved
  induction depth with
  | zero => rfl
  | succ depth ih =>
    apply overflows_succ.mpr
    refine ⟨m, 0, by decide, found, by decide, by simp [own, str], ?_⟩
    rw [own]
    exact not_not.mp fun shallow => shallow (ih shallow)

end SshChatter.Ddial
