import SshChatter.Ddial.MemberCommand
import SshChatter.Ddial.PresenceLine
import SshChatter.Lib.NameRegistry

namespace SshChatter.Ddial
open CString AtomicProgram DdialProtocol NameRegistry List

section Model

structure MvStation (n : Nat) where
  sessions : Fin n → MvSession
  members : List Member

variable {n : Nat}

def MvStation.empty : MvStation n := ⟨fun _ => .fresh, []⟩

def MvStation.findHandle (station : MvStation n) (handle : Bytes) : Option (Fin n) :=
  (finRange n).find? fun who =>
    (station.sessions who).loggedIn ∧ handleKey (station.sessions who).handle.text = handleKey handle

def MvStation.findMember (station : MvStation n) (number : UInt32) : Option (Fin n) :=
  (finRange n).find? fun who =>
    (station.sessions who).loggedIn ∧ number ≠ 0 ∧ (station.sessions who).memberNo = number

/-- One session becomes another one. -/
def MvStation.put (station : MvStation n) (who : Fin n) (sess : MvSession) : MvStation n :=
  { station with sessions := Function.update station.sessions who sess }

variable (derive : Derive) (envCosysop : UInt32 → Bool)

def applyMember (sess : MvSession) (m : Member) : MvSession :=
  { sess with
    memberNo := m.number, cosysop := m.cosysop || envCosysop m.number, handle := m.handle, mv := m.preferences }

/-- The sessions behind a command. -/
def MvStation.affect (station : MvStation n) (who : Fin n) : SessionEffect → MvStation n
  | .nothing => station
  | .rename handle => station.put who { station.sessions who with handle := .print handle }
  | .guest handle => station.put who { MvSession.fresh with loggedIn := true, handle := .print handle }
  | .memberLogin m _ => station.put who { applyMember envCosysop .fresh m with loggedIn := true }
  | .setCosysop number value =>
    { station with
      sessions := fun other =>
        if (station.sessions other).loggedIn ∧ (station.sessions other).memberNo = number then
          { station.sessions other with cosysop := value || envCosysop number }
        else station.sessions other }
  | .captureProfile => station.put who { station.sessions who with profileCapture := true }
  | .loggedOut => station
  | .stackOverflow => station

/-- A command that nobody interrupts. -/
def MvStation.perform (station : MvStation n) (who : Fin n) (program : MemberProgram) : MvStation n :=
  let outcome := program.run (memberExec derive) station.members
  { station with members := outcome.1 }.affect envCosysop who outcome.2.effect

def cmdSignup (station : MvStation n) (who : Fin n) (password : Bytes) (salt : Option (Octets 16)) (now : Int) :
    MvStation n :=
  let sess := station.sessions who
  if sess.memberNo ≠ 0 then station
  else if skipWs password = [] then station
  else
    let signup := memberSignup derive station.members sess.handle.text (skipWs password) salt now
    match signup.2 with
    | .error _ => station
    | .ok no =>
      match findNo signup.1 no with
      | none => { station with members := signup.1 }
      | some m =>
        let m := { m with logins := 1 }
        { station with members := (memberPut signup.1 m).1 }.put who (applyMember envCosysop sess m)

/-- What happens at a station. A command behind the password of a login is an event of its own. -/
inductive MvEvent (n : Nat) where
  | login (who : Fin n) (now : Int) (line : CStr)
  | handle (who : Fin n) (depth : Nat) (arg : CStr)
  | signup (who : Fin n) (password : CStr) (salt : Option (Octets 16)) (now : Int)
  | disconnect (who : Fin n) (now : Int)

def MvStation.step (station : MvStation n) : MvEvent n → MvStation n
  | .login who now line =>
    if (station.sessions who).loggedIn then station
    else
      station.perform derive envCosysop who
        (loginLine (fun handle => (station.findHandle handle).isSome)
          (fun number => (station.findMember number).isSome) now line.val)
  | .handle who depth arg =>
    if (station.sessions who).loggedIn = false then station
    else
      station.perform derive envCosysop who
        (cmdHandle (station.sessions who)
          (fun handle => (station.findHandle handle).any fun other => other ≠ who) depth arg.val)
  | .signup who password salt now =>
    if (station.sessions who).loggedIn = false then station
    else cmdSignup derive envCosysop station who password.val salt now
  | .disconnect who now =>
    let left :=
      if (station.sessions who).loggedIn then
        station.perform derive envCosysop who (onLogout (station.sessions who) now)
      else station
    left.put who .fresh

end Model

section Registry

variable {n : Nat}

def MvSession.number (sess : MvSession) : Option UInt32 := if sess.memberNo = 0 then none else some sess.memberNo

def MvSession.entry (sess : MvSession) : Option (Bytes × Option UInt32) :=
  if sess.loggedIn then some (handleKey sess.handle.text, sess.number) else none

def names (members : List Member) : List (UInt32 × Bytes) := members.map fun m => (m.number, m.key)

def MvStation.registry (station : MvStation n) : NameRegistry.Registry (Fin n) UInt32 Bytes where
  carries who := (station.sessions who).entry
  owns := names station.members

variable {station : MvStation n} {who : Fin n} {sess : MvSession} {members : List Member} {old m : Member}
variable {number : UInt32}

theorem number_some : sess.number = some number ↔ number ≠ 0 ∧ sess.memberNo = number := by
  rw [MvSession.number]
  split_ifs with guest
  · rw [guest]
    exact iff_of_false (fun same => by cases same) fun both => both.1 both.2.symm
  · rw [Option.some.injEq]
    exact ⟨fun same => ⟨same ▸ guest, same⟩, fun both => both.2⟩

theorem entry_some {entry : Bytes × Option UInt32} :
    sess.entry = some entry ↔ sess.loggedIn ∧ entry = (handleKey sess.handle.text, sess.number) := by
  rw [MvSession.entry, Option.ite_none_right_eq_some, Option.some.injEq]
  exact and_congr Iff.rfl eq_comm

theorem put_registry (station : MvStation n) (who : Fin n) (sess : MvSession) :
    (station.put who sess).registry =
      ⟨Function.update station.registry.carries who sess.entry, names station.members⟩ := by
  rw [MvStation.registry, MvStation.put]
  congr 1
  funext other
  by_cases same : other = who
  · subst same
    simp
  · simp [same, MvStation.registry]

theorem handleKey_nil {handle : Bytes} : handleKey handle = [] ↔ handle = [] := map_eq_nil_iff

theorem names_length (members : List Member) : (names members).length = members.length := length_map _

theorem findNo_mem (found : findNo members number = some m) :
    m.number = number ∧ (number, m.key) ∈ names members := by
  obtain ⟨inside, named⟩ := KeyedList.lookup_some found
  refine ⟨named, ?_⟩
  rw [← named]
  exact mem_map_of_mem inside

theorem findNo_none : findNo members number = none ↔ number ∉ (names members).map Prod.fst := by
  rw [findNo, KeyedList.lookup_none, names, map_map]
  rfl

theorem memberOwnerOf_cases (members : List Member) (handle : Bytes) :
    (memberOwnerOf members handle, handleKey handle) ∈ names members ∨
      memberOwnerOf members handle = 0 ∧ handleKey handle ∉ (names members).map Prod.snd := by
  rw [memberOwnerOf]
  cases found : findMemberHandle members handle with
  | some =>
    left
    obtain ⟨inside, named⟩ := KeyedList.lookup_some found
    rw [← named]
    exact mem_map_of_mem inside
  | none =>
    right
    refine ⟨rfl, ?_⟩
    rw [names, map_map]
    exact KeyedList.lookup_none.mp found

theorem names_put (stored : findNo members old.number = some old) (same : m.number = old.number) :
    ∃ place, (names members)[place]? = some (old.number, old.key) ∧
      names (memberPut members m).1 = (names members).set place (m.number, m.key) := by
  rw [memberPut]
  cases found : placeOf members m.number with
  | none =>
    rw [same, placeOf_none, stored] at found
    cases found
  | some place =>
    obtain ⟨other, stands, here, -⟩ := placeOf_some found
    rw [same, stored] at here
    cases here
    refine ⟨place, ?_, ?_⟩
    · rw [names, getElem?_map, stands]
      rfl
    · exact map_set

theorem names_put_same (stored : findNo members old.number = some old) (same : m.number = old.number)
    (key : m.key = old.key) : names (memberPut members m).1 = names members := by
  obtain ⟨place, stands, put⟩ := names_put stored same
  rw [put, same, key]
  apply ext_getElem?
  intro index
  rw [getElem?_set]
  split_ifs with here within
  · rw [← here, stands]
  · rw [getElem?_eq_none (by omega)]
  · rfl

/-- A record with another handle renames its member. -/
theorem names_put_rename (distinct : ((names members).map Prod.fst).Nodup)
    (stored : findNo members old.number = some old) (same : m.number = old.number) :
    names (memberPut members m).1 =
      (names members).map fun owner => if some old.number = some owner.1 then (owner.1, m.key) else owner := by
  obtain ⟨place, stands, put⟩ := names_put stored same
  rw [put]
  apply ext_getElem?
  intro index
  rw [getElem?_set, getElem?_map]
  split_ifs with here within
  · rw [← here, stands, same]
    simp
  · rw [getElem?_eq_none (by omega)]
    rfl
  · cases at' : (names members)[index]? with
    | none => rfl
    | some owner =>
      have differs : old.number ≠ owner.1 := by
        intro number
        have first : ((names members).map Prod.fst)[place]? = some old.number := by
          rw [getElem?_map, stands]
          rfl
        have second : ((names members).map Prod.fst)[index]? = some old.number := by
          rw [getElem?_map, at', number]
          rfl
        have inside : place < ((names members).map Prod.fst).length := (List.getElem?_eq_some_iff.mp first).1
        exact here ((getElem?_inj inside distinct).mp (first.trans second.symm))
      simp [differs]

end Registry

end SshChatter.Ddial
