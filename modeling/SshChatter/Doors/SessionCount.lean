import SshChatter.Lib.Tally
import SshChatter.Lib.CString
import SshChatter.Lib.EventRun

namespace SshChatter.Doors
open CString Census EventRun

/-- This is `door_game_entry_t`. -/
structure DoorGame where
  inUse : Bool
  name : Bytes
  dosboxConf : Bytes
  locked : Bool

/-- How far a call of `session_bbs_door_run` is. The count that it read is kept until the second check. -/
inductive Stage where
  | idle
  | entered (activeSessions : Nat) (name : Bytes) (entry : Nat)
  | chosen (activeSessions entry : Nat)
  | cleared (activeSessions entry : Nat)
  | ready
  | waiting
  | relaying
  | spawning
  | playing
  deriving DecidableEq

def Stage.launched : Stage → Bool
  | .waiting | .relaying | .spawning | .playing => true
  | _ => false

structure DoorSession where
  username : Bytes
  isOperator : Bool
  isLanOperator : Bool
  activeDoorName : Bytes
  stage : Stage

/-- What the door calls of all sessions share. -/
structure DoorHost (Session : Type) where
  games : List DoorGame
  maxDoorSessions : Nat
  usePty : Bool
  activeDoorSessions : Nat
  sessions : Session → DoorSession

/-- The messages that are looked up by language. -/
inductive DoorMessage where
  | launching
  | waiting
  | connected
  | timeout
  | failedLaunch
  | sessionEnded
  | endedImmediately
  | tooMany
  deriving DecidableEq

/-- What a call tells its session. -/
inductive Notice where
  | games
  | line (text : Bytes)
  | localized (message : DoorMessage)
  deriving DecidableEq

/-- The line of `doorgame_run` at the limit. -/
def tooManyDoors : Bytes := str "[door] too many active door sessions. Try again later."

def Notice.isRefusal : Notice → Bool
  | .line text => text = tooManyDoors
  | .localized .tooMany => true
  | _ => false

/-- What comes of the preparations of the relay. -/
inductive Preparation where
  | unparsable
  | noPort
  | bindFailed
  | ready
  deriving DecidableEq

/-- The steps of the calls. Each of them uses the shared count at most once, and carries what the system answers. -/
inductive DoorEvent (Session : Type) where
  | enter (session : Session) (name : Bytes)
  | choose (session : Session)
  | check (session : Session)
  | prepare (session : Session) (outcome : Preparation)
  | launch (session : Session) (forked : Bool)
  | connect (session : Session) (connected : Bool)
  | spawn (session : Session) (spawned : Bool)
  | finish (session : Session) (immediately : Bool)
  | setLock (entry : Nat) (locked : Bool)

section Calls

variable {Session : Type} [DecidableEq Session]

/-- This is `strcasecmp` for equality. -/
def sameName (first second : Bytes) : Bool := first.map toLower == second.map toLower

def DoorHost.advance (host : DoorHost Session) (session : Session) (stage : Stage) : DoorHost Session :=
  { host with sessions := Function.update host.sessions session { host.sessions session with stage := stage } }

def DoorHost.play (host : DoorHost Session) (session : Session) (name : Bytes) (stage : Stage) : DoorHost Session :=
  let played := { host.sessions session with activeDoorName := name, stage := stage }
  { host with sessions := Function.update host.sessions session played }

def DoorHost.leave (host : DoorHost Session) (session : Session) : DoorHost Session := host.play session [] .idle

def DoorHost.incActive (host : DoorHost Session) : DoorHost Session :=
  { host with activeDoorSessions := host.activeDoorSessions + 1 }

/-- This is `adapter_dec_active`, which does not go below zero. -/
def DoorHost.decActive (host : DoorHost Session) : DoorHost Session :=
  if 0 < host.activeDoorSessions then { host with activeDoorSessions := host.activeDoorSessions - 1 } else host

/-- The capacity check on a count. -/
def DoorHost.full (host : DoorHost Session) (activeSessions : Nat) : Bool :=
  0 < host.maxDoorSessions && host.maxDoorSessions ≤ activeSessions

def DoorHost.findGame (host : DoorHost Session) (name : Bytes) : Option Nat :=
  host.games.findIdx? fun game => game.inUse && sameName game.name name

def DoorHost.locked (host : DoorHost Session) (entry : Nat) :
    Bool := (host.games[entry]?.map DoorGame.locked).getD false

def DoorHost.configured (host : DoorHost Session) (entry : Nat) : Bool :=
  host.games[entry]?.any fun game => game.dosboxConf ≠ []

/-- The start of `session_bbs_door_run`, which copies the count into the table of operations. -/
def doorEnter (host : DoorHost Session) (session : Session) (name : Bytes) : DoorHost Session × List Notice :=
  match (host.sessions session).stage with
  | .idle =>
    if name = [] then (host, [.games])
    else
      match host.findGame name with
      | none => (host, [.line (str "Unknown DOOR game '" ++ name ++ str "'. Try `/bbs door` for the list.")])
      | some entry => (host.advance session (.entered host.activeDoorSessions name entry), [])
  | _ => (host, [])

def doorChoose [Fintype Session] (host : DoorHost Session) (session : Session) : DoorHost Session × List Notice :=
  match (host.sessions session).stage with
  | .entered activeSessions name entry =>
    if ∃ member, member ≠ session ∧ (host.sessions member).username = (host.sessions session).username ∧
        sameName (host.sessions member).activeDoorName name then
      (host.advance session .idle,
        [.line (str "[door] You are already playing '" ++ name ++ str "' in another session.")])
    else (host.play session name (.chosen activeSessions entry), [])
  | _ => (host, [])

/-- The checks of `doorgame_run`. -/
def doorCheck (host : DoorHost Session) (session : Session) : DoorHost Session × List Notice :=
  match (host.sessions session).stage with
  | .chosen activeSessions entry =>
    if host.locked entry ∧ (host.sessions session).isOperator = false ∧ (host.sessions session).isLanOperator =
      false then
      (host.leave session, [.line (str "[door] This game is currently locked by the operator.")])
    else if host.full activeSessions then (host.leave session, [.line tooManyDoors])
    else (host.advance session (.cleared activeSessions entry), if host.usePty then [.localized .launching] else [])
  | _ => (host, [])

/-- The checks and the preparations of `doorgame_relay_run`. -/
def doorPrepare (host : DoorHost Session) (session : Session) (outcome : Preparation) :
    DoorHost Session × List Notice :=
  match (host.sessions session).stage with
  | .cleared activeSessions entry =>
    if host.usePty then (host, [])
    else if host.configured entry = false then (host.leave session, [])
    else if host.full activeSessions then (host.leave session, [.localized .tooMany])
    else
      match outcome with
      | .unparsable => (host.leave session, [.line (str "[door] failed to parse dosbox.conf.")])
      | .noPort => (host.leave session, [.line (str "[door] serial1 port not found in dosbox.conf.")])
      | .bindFailed => (host.leave session, [.line (str "[door] failed to bind relay listener.")])
      | .ready => (host.advance session .ready, [])
  | _ => (host, [])

def doorLaunch (host : DoorHost Session) (session : Session) (forked : Bool) : DoorHost Session × List Notice :=
  match (host.sessions session).stage with
  | .ready =>
    if forked then (host.incActive.advance session .waiting, [.localized .waiting])
    else (host.leave session, [.localized .failedLaunch])
  | .cleared _ _ => if host.usePty then (host.incActive.advance session .spawning, []) else (host, [])
  | _ => (host, [])

def doorConnect (host : DoorHost Session) (session : Session) (connected : Bool) : DoorHost Session × List Notice :=
  match (host.sessions session).stage with
  | .waiting =>
    if connected then (host.advance session .relaying, [.localized .connected])
    -- This exit returns without `dec_active`.
    else (host.leave session, [.localized .timeout])
  | _ => (host, [])

/-- The result of `doorgame_spawn`. -/
def doorSpawn (host : DoorHost Session) (session : Session) (spawned : Bool) : DoorHost Session × List Notice :=
  match (host.sessions session).stage with
  | .spawning =>
    if spawned then (host.advance session .playing, [])
    else (host.decActive.leave session, [.localized .failedLaunch])
  | _ => (host, [])

def doorFinish (host : DoorHost Session) (session : Session) (immediately : Bool) : DoorHost Session × List Notice :=
  match (host.sessions session).stage with
  | .relaying => (host.decActive.leave session, [.localized .sessionEnded])
  | .playing =>
    (host.decActive.leave session, [.localized (if immediately then .endedImmediately else .sessionEnded)])
  | _ => (host, [])

/-- One step of one of the calls, or an operator sets a lock. -/
def serveDoor [Fintype Session] (host : DoorHost Session) : DoorEvent Session → DoorHost Session × List Notice
  | .enter session name => doorEnter host session name
  | .choose session => doorChoose host session
  | .check session => doorCheck host session
  | .prepare session outcome => doorPrepare host session outcome
  | .launch session forked => doorLaunch host session forked
  | .connect session connected => doorConnect host session connected
  | .spawn session spawned => doorSpawn host session spawned
  | .finish session immediately => doorFinish host session immediately
  | .setLock entry locked =>
    ({ host with games := host.games.modify entry fun game => { game with locked := locked } }, [])

def doorStep [Fintype Session] (host : DoorHost Session) (event : DoorEvent Session) :
    DoorHost Session := (serveDoor host event).1

def startDoors (games : List DoorGame) (maxDoorSessions : Nat) (usePty : Bool) (sessions : Session → DoorSession) :
    DoorHost Session :=
  ⟨games, maxDoorSessions, usePty, 0, fun session => { sessions session with activeDoorName := [], stage := .idle }⟩

end Calls

section Property

variable {Session : Type} [DecidableEq Session] [Fintype Session]

/-- The number of calls between their launch and their return. -/
def runningDoors (host : DoorHost Session) : Nat := census (fun session => session.stage.launched) host.sessions

/-- The count is the number of running doors, zero when no call is under way, and within the limit. -/
structure Accounted (host : DoorHost Session) : Prop where
  exact : host.activeDoorSessions = runningDoors host
  restored : (∀ session, (host.sessions session).stage = .idle) → host.activeDoorSessions = 0
  bounded : 0 < host.maxDoorSessions → host.activeDoorSessions ≤ host.maxDoorSessions

def Refuses (host : DoorHost Session) (event : DoorEvent Session) : Prop :=
  ∃ notice ∈ (serveDoor host event).2, notice.isRefusal

structure AccountedStep (host : DoorHost Session) (event : DoorEvent Session) : Prop where
  accounted : Accounted (doorStep host event)
  refused : Refuses host event → 0 < host.maxDoorSessions ∧ host.maxDoorSessions ≤ runningDoors host

/-- The part that a step takes in the count of the doors. -/
inductive Turn where
  | quiet
  | launched
  | returned
  | lost
  deriving DecidableEq

/-- What a step does in the stage that it meets. -/
def turn (host : DoorHost Session) : DoorEvent Session → Turn
  | .launch session forked =>
    match (host.sessions session).stage with
    | .ready => if forked then .launched else .quiet
    | .cleared _ _ => if host.usePty then .launched else .quiet
    | _ => .quiet
  | .connect session connected =>
    match (host.sessions session).stage with
    | .waiting => if connected then .quiet else .lost
    | _ => .quiet
  | .spawn session spawned =>
    match (host.sessions session).stage with
    | .spawning => if spawned then .quiet else .returned
    | _ => .quiet
  | .finish session _ =>
    match (host.sessions session).stage with
    | .relaying | .playing => .returned
    | _ => .quiet
  | _ => .quiet

/-- The count that a call read is at the limit at one of its two checks. -/
def SnapshotFull (host : DoorHost Session) : DoorEvent Session → Prop
  | .check session =>
    match (host.sessions session).stage with
    | .chosen activeSessions entry =>
      ¬ (host.locked entry ∧ (host.sessions session).isOperator = false ∧
          (host.sessions session).isLanOperator = false) ∧ host.full activeSessions
    | _ => False
  | .prepare session _ =>
    match (host.sessions session).stage with
    | .cleared activeSessions entry =>
      host.usePty = false ∧ host.configured entry ∧ host.full activeSessions
    | _ => False
  | _ => False

/-- The relay connects, no launch would fail the check on the current count, and no check refuses that would pass on
it. -/
structure Sound (host : DoorHost Session) (event : DoorEvent Session) : Prop where
  connects : turn host event ≠ .lost
  current : turn host event = .launched → host.full host.activeDoorSessions = false
  fresh : SnapshotFull host event → host.full host.activeDoorSessions

end Property

section Effects

variable {Session : Type} [DecidableEq Session] [Fintype Session] {host : DoorHost Session} {session : Session}
  {event : DoorEvent Session} {stage : Stage} {name : Bytes} {activeSessions : Nat}

def Turn.moves (host next : DoorHost Session) : Turn → Prop
  | .quiet => next.activeDoorSessions = host.activeDoorSessions ∧ runningDoors next = runningDoors host
  | .launched => next.activeDoorSessions = host.activeDoorSessions + 1 ∧ runningDoors next = runningDoors host + 1
  | .returned => next.activeDoorSessions = host.activeDoorSessions - 1 ∧ runningDoors next + 1 = runningDoors host
  | .lost => next.activeDoorSessions = host.activeDoorSessions ∧ runningDoors next + 1 = runningDoors host

/-- What a step with a turn does. The limit never changes. -/
structure Effect (host next : DoorHost Session) (turn : Turn) : Prop where
  limit : next.maxDoorSessions = host.maxDoorSessions
  moves : turn.moves host next

omit [DecidableEq Session] in
theorem effect_self (host : DoorHost Session) : Effect host host .quiet := ⟨rfl, rfl, rfl⟩

theorem advance_quiet (same : stage.launched = (host.sessions session).stage.launched) :
    Effect host (host.advance session stage) .quiet := by
  exact ⟨rfl, rfl, census_same same⟩

theorem play_quiet (same : stage.launched = (host.sessions session).stage.launched) :
    Effect host (host.play session name stage) .quiet := by
  exact ⟨rfl, rfl, census_same same⟩

theorem advance_launched (before : (host.sessions session).stage.launched = false) (after : stage.launched) :
    Effect host (host.incActive.advance session stage) .launched := by
  exact ⟨rfl, rfl, census_enter before after⟩

theorem leave_lost (before : (host.sessions session).stage.launched) : Effect host (host.leave session) .lost := by
  exact ⟨rfl, rfl, census_leave before rfl⟩

theorem leave_returned (before : (host.sessions session).stage.launched) :
    Effect host (host.decActive.leave session) .returned := by
  have left := (leave_lost before).moves.2
  unfold DoorHost.decActive
  split_ifs with counted
  · exact ⟨rfl, rfl, left⟩
  · refine ⟨rfl, ?_, left⟩
    change host.activeDoorSessions = host.activeDoorSessions - 1
    omega

theorem step_effect (host : DoorHost Session) (event : DoorEvent Session) :
    Effect host (doorStep host event) (turn host event) := by
  cases event with
  | enter session name =>
    change Effect host (doorEnter host session name).1 .quiet
    unfold doorEnter
    split
    next idle =>
      split_ifs
      · exact effect_self host
      · split
        · exact effect_self host
        · exact advance_quiet (by rw [idle]; rfl)
    · exact effect_self host
  | choose session =>
    change Effect host (doorChoose host session).1 .quiet
    unfold doorChoose
    split
    next entered =>
      split_ifs
      · exact advance_quiet (by rw [entered]; rfl)
      · exact play_quiet (by rw [entered]; rfl)
    · exact effect_self host
  | check session =>
    change Effect host (doorCheck host session).1 .quiet
    unfold doorCheck
    split
    next chosen =>
      split_ifs
      · exact play_quiet (by rw [chosen]; rfl)
      · exact play_quiet (by rw [chosen]; rfl)
      · exact advance_quiet (by rw [chosen]; rfl)
      · exact advance_quiet (by rw [chosen]; rfl)
    · exact effect_self host
  | prepare session outcome =>
    change Effect host (doorPrepare host session outcome).1 .quiet
    unfold doorPrepare
    split
    next cleared =>
      split_ifs
      · exact effect_self host
      · exact play_quiet (by rw [cleared]; rfl)
      · exact play_quiet (by rw [cleared]; rfl)
      · cases outcome with
        | ready => exact advance_quiet (by rw [cleared]; rfl)
        | unparsable | noPort | bindFailed => exact play_quiet (by rw [cleared]; rfl)
    · exact effect_self host
  | launch session forked =>
    cases here : (host.sessions session).stage with
    | ready =>
      cases forked <;> simp only [doorStep, serveDoor, doorLaunch, turn, here]
      · exact play_quiet (by rw [here]; rfl)
      · exact advance_launched (by rw [here]; rfl) rfl
    | cleared =>
      simp only [doorStep, serveDoor, doorLaunch, turn, here]
      split_ifs
      · exact advance_launched (by rw [here]; rfl) rfl
      · exact effect_self host
    | _ =>
      simp only [doorStep, serveDoor, doorLaunch, turn, here]
      exact effect_self host
  | connect session connected =>
    cases here : (host.sessions session).stage with
    | waiting =>
      cases connected <;> simp only [doorStep, serveDoor, doorConnect, turn, here]
      · exact leave_lost (by rw [here]; rfl)
      · exact advance_quiet (by rw [here]; rfl)
    | _ =>
      simp only [doorStep, serveDoor, doorConnect, turn, here]
      exact effect_self host
  | spawn session spawned =>
    cases here : (host.sessions session).stage with
    | spawning =>
      cases spawned <;> simp only [doorStep, serveDoor, doorSpawn, turn, here]
      · exact leave_returned (by rw [here]; rfl)
      · exact advance_quiet (by rw [here]; rfl)
    | _ =>
      simp only [doorStep, serveDoor, doorSpawn, turn, here]
      exact effect_self host
  | finish session =>
    cases here : (host.sessions session).stage with
    | relaying | playing =>
      simp only [doorStep, serveDoor, doorFinish, turn, here]
      exact leave_returned (by rw [here]; rfl)
    | _ =>
      simp only [doorStep, serveDoor, doorFinish, turn, here]
      exact effect_self host
  | setLock => exact ⟨rfl, rfl, rfl⟩

omit [DecidableEq Session] [Fintype Session] in
theorem full_iff : host.full activeSessions ↔ 0 < host.maxDoorSessions ∧ host.maxDoorSessions ≤ activeSessions := by
  rw [DoorHost.full, Bool.and_eq_true, decide_eq_true_eq, decide_eq_true_eq]

def refusing (notices : List Notice) : Bool := notices.any Notice.isRefusal

theorem refusing_unknown (name : Bytes) :
    refusing [.line (str "Unknown DOOR game '" ++ name ++ str "'. Try `/bbs door` for the list.")] = false := by
  have other : str "Unknown DOOR game '" ++ name ++ str "'. Try `/bbs door` for the list." ≠ tooManyDoors := by
    intro same
    have start : (str "Unknown DOOR game '" ++ name ++ str "'. Try `/bbs door` for the list.").take 1 = str "U" := rfl
    rw [same] at start
    exact absurd start (by decide)
  rw [refusing, List.any_cons, List.any_nil, Bool.or_false, Notice.isRefusal, decide_eq_false other]

theorem refusing_playing (name : Bytes) :
    refusing [.line (str "[door] You are already playing '" ++ name ++ str "' in another session.")] = false := by
  have other : str "[door] You are already playing '" ++ name ++ str "' in another session." ≠ tooManyDoors := by
    intro same
    have start : (str "[door] You are already playing '" ++ name ++ str "' in another session.").take 8 =
      str "[door] Y" := rfl
    rw [same] at start
    exact absurd start (by decide)
  rw [refusing, List.any_cons, List.any_nil, Bool.or_false, Notice.isRefusal, decide_eq_false other]

theorem quiet_iff {notices : List Notice} {condition : Prop} (told : refusing notices = false) (fails : ¬ condition) :
    refusing notices ↔ condition := by
  rw [told]
  exact iff_of_false Bool.false_ne_true fails

/-- A step refuses because of the limit exactly when the count that its call read is at the limit. -/
theorem refuses_iff : Refuses host event ↔ SnapshotFull host event := by
  have told : Refuses host event ↔ refusing (serveDoor host event).2 := List.any_eq_true.symm
  rw [told]
  cases event with
  | enter session name =>
    change refusing (doorEnter host session name).2 ↔ False
    unfold doorEnter
    split
    · split_ifs
      · exact quiet_iff rfl not_false
      · split
        · exact quiet_iff (refusing_unknown name) not_false
        · exact quiet_iff rfl not_false
    · exact quiet_iff rfl not_false
  | choose session =>
    change refusing (doorChoose host session).2 ↔ False
    unfold doorChoose
    split
    next _ name _ _ =>
      split_ifs
      · exact quiet_iff (refusing_playing name) not_false
      · exact quiet_iff rfl not_false
    · exact quiet_iff rfl not_false
  | check session =>
    simp only [serveDoor, doorCheck, SnapshotFull]
    cases (host.sessions session).stage with
    | chosen =>
      simp only
      split_ifs with locked full launching
      · exact quiet_iff rfl fun passed => passed.1 locked
      · exact iff_of_true rfl ⟨locked, full⟩
      · exact quiet_iff rfl fun passed => full passed.2
      · exact quiet_iff rfl fun passed => full passed.2
    | _ => exact quiet_iff rfl not_false
  | prepare session outcome =>
    simp only [serveDoor, doorPrepare, SnapshotFull]
    cases (host.sessions session).stage with
    | cleared =>
      simp only
      split_ifs with pty unconfigured full
      · exact quiet_iff rfl fun passed => absurd (pty.symm.trans passed.1) (by decide)
      · exact quiet_iff rfl fun passed => absurd (unconfigured.symm.trans passed.2.1) (by decide)
      · exact iff_of_true rfl ⟨Bool.eq_false_iff.mpr pty, Bool.of_not_eq_false unconfigured, full⟩
      · refine quiet_iff ?_ fun passed => full passed.2.2
        cases outcome <;> rfl
    | _ => exact quiet_iff rfl not_false
  | launch session forked =>
    change refusing (doorLaunch host session forked).2 ↔ False
    refine quiet_iff ?_ not_false
    unfold doorLaunch
    split <;> [split_ifs; split_ifs; skip] <;> rfl
  | connect session connected =>
    change refusing (doorConnect host session connected).2 ↔ False
    refine quiet_iff ?_ not_false
    unfold doorConnect
    split <;> [split_ifs; skip] <;> rfl
  | spawn session spawned =>
    change refusing (doorSpawn host session spawned).2 ↔ False
    refine quiet_iff ?_ not_false
    unfold doorSpawn
    split <;> [split_ifs; skip] <;> rfl
  | finish session immediately =>
    change refusing (doorFinish host session immediately).2 ↔ False
    refine quiet_iff ?_ not_false
    unfold doorFinish
    split <;> [skip; cases immediately; skip] <;> rfl
  | setLock => exact quiet_iff rfl not_false

end Effects

section Runs

variable {Session : Type} [DecidableEq Session] [Fintype Session] {host : DoorHost Session} {event : DoorEvent Session}

omit [DecidableEq Session] in
/-- A count that is exact is zero when no call is under way. -/
theorem accounted_of_exact (exact : host.activeDoorSessions = runningDoors host)
    (bounded : 0 < host.maxDoorSessions → host.activeDoorSessions ≤ host.maxDoorSessions) : Accounted host where
  exact := exact
  restored idle := by
    rw [exact]
    apply census_none
    intro session
    rw [idle session]
    rfl
  bounded := bounded

theorem accountedStep_iff (accounted : Accounted host) : AccountedStep host event ↔ Sound host event := by
  obtain ⟨limit, moves⟩ := step_effect host event
  obtain ⟨exact, _, bounded⟩ := accounted
  have refused : (Refuses host event → 0 < host.maxDoorSessions ∧ host.maxDoorSessions ≤ runningDoors host) ↔
      (SnapshotFull host event → host.full host.activeDoorSessions) := by
    rw [refuses_iff, full_iff, exact]
  constructor
  · rintro ⟨⟨exact', _, bounded'⟩, refusals⟩
    refine ⟨fun lost => ?_, fun launched => ?_, refused.mp refusals⟩
    · rw [lost] at moves
      obtain ⟨kept, left⟩ := moves
      omega
    · rw [launched] at moves
      rw [← Bool.not_eq_true, full_iff]
      rintro ⟨limited, reached⟩
      have inside := bounded' (limit ▸ limited)
      rw [moves.1] at inside
      omega
  · rintro ⟨connects, current, fresh⟩
    refine ⟨?_, refused.mpr fresh⟩
    cases part : turn host event with
    | quiet =>
      rw [part] at moves
      apply accounted_of_exact
      · rw [moves.1, moves.2, exact]
      · rw [moves.1, limit]
        exact bounded
    | launched =>
      have room := current part
      rw [part] at moves
      rw [← Bool.not_eq_true, full_iff] at room
      apply accounted_of_exact
      · rw [moves.1, moves.2, exact]
      · rw [moves.1, limit]
        intro limited
        have below := not_le.mp fun reached => room ⟨limited, reached⟩
        exact below
    | returned =>
      rw [part] at moves
      obtain ⟨lowered, left⟩ := moves
      apply accounted_of_exact
      · omega
      · rw [lowered, limit]
        intro limited
        exact (Nat.sub_le _ _).trans (bounded limited)
    | lost => exact absurd part connects

omit [DecidableEq Session] in
theorem startDoors_accounted (games : List DoorGame) (maxDoorSessions : Nat) (usePty : Bool)
    (sessions : Session → DoorSession) : Accounted (startDoors games maxDoorSessions usePty sessions) := by
  apply accounted_of_exact
  · exact (census_none fun _ => rfl).symm
  · exact fun _ => Nat.zero_le _

/-- The doors of a run are accounted for in every state and at every refusal if and only if no child of the relay
fails to connect, no door is launched while the current count is at the limit, and no call is refused while it is
not. -/
theorem doors_accounted_iff (games : List DoorGame) (maxDoorSessions : Nat) (usePty : Bool)
    (sessions : Session → DoorSession) (events : List (DoorEvent Session)) :
    Accounted (startDoors games maxDoorSessions usePty sessions) ∧
        Along doorStep AccountedStep (startDoors games maxDoorSessions usePty sessions) events ↔
      Along doorStep Sound (startDoors games maxDoorSessions usePty sessions) events := by
  have start := startDoors_accounted games maxDoorSessions usePty sessions
  rw [and_iff_right start]
  exact along_iff_kept Accounted (fun _ _ _ step => step.accounted) (fun _ _ accounted => accountedStep_iff accounted)
    start events

def trade : DoorGame := ⟨true, str "trade", str "/doors/trade.conf", false⟩

def twoUsers (session : Bool) : DoorSession :=
  ⟨if session then str "ann" else str "bob", false, false, [], .idle⟩

def launching (session : Bool) : List (DoorEvent Bool) :=
  [.enter session (str "trade"), .choose session, .check session, .prepare session .ready, .launch session true]

/-- A child that does not connect stays counted, and with a limit of one the next user is refused. Two users who read
the count before either launches exceed the limit. -/
theorem door_count_drifts :
    (¬ Along doorStep AccountedStep (startDoors [trade] 1 false twoUsers)
        (launching true ++ [.connect true false, .enter false (str "trade"), .choose false, .check false])) ∧
      ¬ Along doorStep AccountedStep (startDoors [trade] 1 false twoUsers)
        (DoorEvent.enter false (str "trade") :: launching true ++ [.choose false, .check false, .prepare false .ready,
          .launch false true]) := by
  constructor
  · intro along
    have late := along.2.2.2.2.2.1.accounted.exact
    revert late
    decide +kernel
  · intro along
    have crowded := along.2.2.2.2.2.2.2.2.2.1.accounted.bounded
    revert crowded
    decide +kernel

end Runs

end SshChatter.Doors