import SshChatter.Ddial.MemberFile
import SshChatter.Lib.AtomicProgram
import SshChatter.Lib.KeyedList

namespace SshChatter.Ddial
open CString AtomicProgram KeyedList

section Operations

def minPassword : Nat := 4

def defaultBeepEvents : UInt8 := 1 ||| 2 ||| 16

def handleKey (handle : Bytes) : Bytes := handle.map toLower

def Member.key (member : Member) : Bytes := handleKey member.handle.text

def findNo (members : List Member) (number : UInt32) : Option Member := lookup Member.number members number

/-- This is `ddial_member_find_handle_locked`. -/
def findMemberHandle (members : List Member) (handle : Bytes) : Option Member :=
  lookup Member.key members (handleKey handle)

def placeOf (members : List Member) (number : UInt32) : Option Nat :=
  members.findIdx? fun member => member.number = number

def memberOwnerOf (members : List Member) (handle : Bytes) : UInt32 :=
  ((findMemberHandle members handle).map Member.number).getD 0

def memberPut (members : List Member) (member : Member) : List Member × Bool :=
  match placeOf members member.number with
  | none => (members, false)
  | some place => (members.set place member, true)

def passwordSuits (password : Bytes) : Bool := minPassword ≤ password.length ∧ byte ':' ∉ password ∧ 32 ∉ password

abbrev Derive := Bytes → Octets 16 → Option (Octets 32)

variable (derive : Derive)

def memberAuthenticate (members : List Member) (number : UInt32) (password : Bytes) : Option Member :=
  (findNo members number).filter fun member => (derive password member.salt).map Octets.bytes = some member.hash.bytes

/-- This is `ddial_member_set_password` with the salt that was drawn. The new salt stays when no hash is derived. -/
def memberSetPassword (members : List Member) (number : UInt32) (password : Bytes) (salt : Option (Octets 16)) :
    List Member × Bool :=
  if passwordSuits password = false then (members, false)
  else
    match placeOf members number with
    | none => (members, false)
    | some place =>
      let member := members.getD place .zero
      match salt with
      | none => (members, false)
      | some salt =>
        match derive password salt with
        | none => (members.set place { member with salt := salt }, false)
        | some hash => (members.set place { member with salt := salt, hash := hash }, true)

def nextNumber (members : List Member) : UInt32 :=
  members.foldl (fun next member => if next ≤ member.number then member.number + 1 else next) 1

def Member.new (number : UInt32) (handle : Bytes) (salt : Octets 16) (hash : Octets 32) (now : Int) : Member :=
  { Member.zero with
    number := number, handle := .print handle, salt := salt, hash := hash, beepOn := true, beepVolume := 100,
    beepEvents := defaultBeepEvents, badgesOn := true, repliesOn := true, autoSlash := true, created := now,
    lastSeen := now }

def memberSignup (members : List Member) (handle password : Bytes) (salt : Option (Octets 16)) (now : Int) :
    List Member × Except Bytes UInt32 :=
  if password.length < minPassword then (members, .error (str "Password must be at least 4 characters."))
  else if byte ':' ∈ password ∨ 32 ∈ password then
    (members, .error (str "Password may not contain spaces or ':'."))
  else if (findMemberHandle members handle).isSome then
    (members, .error (str "Handle '" ++ handle ++ str "' is already a member."))
  else if memberMax ≤ members.length then (members, .error (str "Member roll is full."))
  else
    match salt.bind fun salt => (derive password salt).map fun hash => (salt, hash) with
    | none => (members, .error (str "Could not hash password."))
    | some (salt, hash) =>
      (members ++ [.new (nextNumber members) handle salt hash now], .ok (nextNumber members))

/-- The operations on the members, each of which holds the lock. -/
inductive MemberOp where
  | get (number : UInt32)
  | ownerOf (handle : Bytes)
  | put (member : Member)
  | authenticate (number : UInt32) (password : Bytes)
  | setPassword (number : UInt32) (password : Bytes) (salt : Option (Octets 16))

abbrev MemberOp.Answer : MemberOp → Type
  | .get _ => Option Member
  | .ownerOf _ => UInt32
  | .put _ => Bool
  | .authenticate _ _ => Option Member
  | .setPassword _ _ _ => Bool

def memberExec : (op : MemberOp) → List Member → List Member × op.Answer
  | .get number, members => (members, findNo members number)
  | .ownerOf handle, members => (members, memberOwnerOf members handle)
  | .put member, members => memberPut members member
  | .authenticate number password, members => (members, memberAuthenticate derive members number password)
  | .setPassword number password salt, members => memberSetPassword derive members number password salt

def MemberOp.Writes (op : MemberOp) (number : UInt32) : Prop :=
  match op with
  | .put member => member.number = number
  | .setPassword target _ _ => target = number
  | _ => False

/-- An operation writes a record that another command was told, or it changes the owner of a handle. -/
def Disturbs (members : List Member) (op asked : MemberOp) : Prop :=
  match asked with
  | .get number => op.Writes number
  | .authenticate number _ => op.Writes number
  | .ownerOf handle => memberOwnerOf (memberExec derive op members).1 handle ≠ memberOwnerOf members handle
  | _ => True

variable {derive} {members : List Member} {number : UInt32} {place : Nat} {member : Member}

theorem placeOf_some (found : placeOf members number = some place) :
    ∃ member, members[place]? = some member ∧ findNo members number = some member ∧ member.number = number := by
  obtain ⟨inside, hit, before⟩ := List.findIdx?_eq_some_iff_getElem.mp found
  have named : members[place].number = number := of_decide_eq_true hit
  refine ⟨members[place], List.getElem?_eq_getElem inside, ?_, named⟩
  rw [findNo, lookup, List.find?_eq_some_iff_getElem]
  exact ⟨hit, place, inside, rfl, fun earlier less => by simpa using before earlier less⟩

theorem placeOf_none : placeOf members number = none ↔ findNo members number = none := by
  rw [placeOf, findNo, lookup]
  simp

/-- A record that is written is the only one that changes. -/
theorem findNo_set (found : placeOf members member.number = some place) (other : UInt32) :
    findNo (members.set place member) other = if other = member.number then some member else findNo members other :=
  lookup_set found rfl other

/-- What `ddial_member_put` makes of the records. -/
theorem findNo_put (other : UInt32) :
    findNo (memberPut members member).1 other =
      if other = member.number ∧ (findNo members other).isSome then some member else findNo members other := by
  rw [memberPut]
  cases found : placeOf members member.number with
  | none =>
    have missing := placeOf_none.mp found
    by_cases same : other = member.number
    · subst same
      simp [missing]
    · simp [same]
  | some =>
    obtain ⟨old, -, stored, -⟩ := placeOf_some found
    rw [findNo_set found]
    by_cases same : other = member.number
    · subst same
      simp [stored]
    · simp [same]

/-- What `ddial_member_set_password` makes of the other records. -/
theorem findNo_setPassword {password : Bytes} {salt : Option (Octets 16)} {other : UInt32} (differs : other ≠ number) :
    findNo (memberSetPassword derive members number password salt).1 other = findNo members other := by
  rw [memberSetPassword]
  by_cases suits : passwordSuits password = false
  · rw [if_pos suits]
  · rw [if_neg suits]
    cases found : placeOf members number with
    | none => rfl
    | some place =>
      obtain ⟨old, stands, -, named⟩ := placeOf_some found
      have here : members.getD place .zero = old := by rw [List.getD_eq_getElem?_getD, stands]; rfl
      cases salt with
      | none => rfl
      | some salt =>
        have kept (new : Member) (same : new.number = number) :
            findNo (members.set place new) other = findNo members other := by
          rw [findNo_set (by rw [same]; exact found), if_neg (by rw [same]; exact differs)]
        dsimp only
        rw [here]
        cases derive password salt with
        | none => exact kept { old with salt := salt } named
        | some hash => exact kept { old with salt := salt, hash := hash } named

/-- An operation leaves the records alone that it does not write. -/
theorem findNo_exec {op : MemberOp} (away : ¬ op.Writes number) :
    findNo (memberExec derive op members).1 number = findNo members number := by
  cases op with
  | get => rfl
  | ownerOf => rfl
  | authenticate => rfl
  | put member =>
    show findNo (memberPut members member).1 number = findNo members number
    rw [findNo_put, if_neg]
    rintro ⟨same, -⟩
    exact away same.symm
  | setPassword => exact findNo_setPassword fun same => away same.symm

theorem get_reads (number : UInt32) : Reads (memberExec derive) (.get number) := fun _ => rfl

theorem ownerOf_reads (handle : Bytes) : Reads (memberExec derive) (.ownerOf handle) := fun _ => rfl

theorem authenticate_reads (number : UInt32) (password : Bytes) :
    Reads (memberExec derive) (.authenticate number password) := fun _ => rfl

section Runs

variable {Result : Type}

theorem run_get (number : UInt32) (next : Option Member → Program MemberOp MemberOp.Answer Result) :
    (Program.act (.get number) next).run (memberExec derive) members =
      (next (findNo members number)).run (memberExec derive) members := rfl

theorem run_ownerOf (handle : Bytes) (next : UInt32 → Program MemberOp MemberOp.Answer Result) :
    (Program.act (.ownerOf handle) next).run (memberExec derive) members =
      (next (memberOwnerOf members handle)).run (memberExec derive) members := rfl

theorem run_authenticate (number : UInt32) (password : Bytes)
    (next : Option Member → Program MemberOp MemberOp.Answer Result) :
    (Program.act (.authenticate number password) next).run (memberExec derive) members =
      (next (memberAuthenticate derive members number password)).run (memberExec derive) members := rfl

end Runs

theorem disturbs_harmless : Harmless (memberExec derive) (Disturbs derive) := by
  intro members op asked reads calm
  cases asked with
  | get => exact findNo_exec calm
  | ownerOf => exact not_not.mp calm
  | authenticate number password =>
    show memberAuthenticate derive (memberExec derive op members).1 number password =
      memberAuthenticate derive members number password
    rw [memberAuthenticate, memberAuthenticate, findNo_exec calm]
  | put => exact absurd trivial calm
  | setPassword => exact absurd trivial calm

end Operations

end SshChatter.Ddial
