import SshChatter.Lib.EventRun
import SshChatter.Ddial.ClientLine

namespace SshChatter.Ddial
open CString DdialProtocol

/-- The text that `ddial_client_account_mark` writes into the lock file. -/
def markText (active : Bool) (time : Nat) : Bytes :=
  (if active then str "active " else str "closed ") ++ decimal time ++ [10]

/-- This is the reading of the lock file in `ddial_client_cooldown_remaining`, by `sscanf` with `%15s %lld`. -/
def readMark (file : Bytes) : Option (Bytes × Int) :=
  let text := (file.take 63).dropWhile isSpace
  let state := (text.take 15).takeWhile (fun c => !isSpace c)
  if state = [] then none
  else (strtol (text.drop state.length)).map fun time => (state, time)

def sinceMark (since : Int) (mark : Option Int) (wall : Nat) : Int :=
  match mark with
  | none => since
  | some time => if since < 0 ∨ wall - time < since then wall - time else since

/-- The result of `ddial_client_cooldown_remaining`. -/
def cooldownLeft (cooldown : Nat) (since : Int) : Nat :=
  if since < 0 ∨ (cooldown : Int) ≤ since then 0 else cooldown - since.toNat

/-- The point that a process has reached in `ddial_client_thread`. The socket is open from `opened` to `connected`. -/
inductive Phase where
  | dead
  | off
  | idle
  | locked
  | discovering (since : Int) (stamp : Nat)
  | measuring (since : Int) (mark : Option Int)
  | dialing
  | opened
  | markingActive (stamp : Nat)
  | connected
  | hungUp
  | markingClosed (stamp : Nat)
  deriving DecidableEq

/-- The part of `ddial_client_t` that the guard of the account works on. A zero stands for an unset time. -/
structure Process where
  phase : Phase
  lastDisconnect : Nat
  lockedOut : Bool
  stop : Bool
  deriving DecidableEq

/-- The processes in user mode that share a lock file, with the wall clock and the monotonic clock in seconds. -/
structure Station where
  process : Nat → Process
  lock : Option Nat
  file : Bytes
  wall : Nat
  mono : Nat

def Station.start : Station := ⟨fun _ => ⟨.dead, 0, false, true⟩, none, [], 0, 0⟩

/-- A step of one process, of an operator, or of the clocks. -/
inductive GuardEvent where
  | tick (wall mono : Nat)
  | boot (p : Nat)
  | start (p : Nat)
  | reconnect (p : Nat)
  | requestStop (p : Nat)
  | disconnectIdle (p : Nat)
  | finish (p : Nat)
  | accountLock (p : Nat)
  | readLockFile (p : Nat)
  | writeDiscovered (p : Nat)
  | measure (p : Nat)
  | connectSocket (p : Nat) (reached : Bool)
  | truncateActive (p : Nat)
  | writeActive (p : Nat)
  | line (p : Nat) (text : Bytes)
  | closeSocket (p : Nat)
  | truncateClosed (p : Nat)
  | writeClosed (p : Nat)
  | crash (p : Nat)

def Station.put (station : Station) (p : Nat) (process : Process) : Station :=
  { station with process := Function.update station.process p process }

def Station.release (station : Station) (p : Nat) : Option Nat := if station.lock = some p then none else station.lock

/-- The end of a connection that a line of the remote brings about, in `ddial_client_extract_lines`. -/
def Process.hangUp (process : Process) (text : Bytes) : Process :=
  { process with
    phase := .hungUp
    lockedOut := process.lockedOut || lineLooksLikeLockout (normalizeLine text) }

def Station.sinceDisconnect (station : Station) (process : Process) : Int :=
  if process.lastDisconnect ≠ 0 then (station.mono : Int) - process.lastDisconnect else -1

/-- The first half of `ddial_client_cooldown_remaining`. A mark `active` that this process finds was left by a process
that died, and is replaced. -/
def Station.readLockFile (station : Station) (p : Nat) : Station :=
  let process := station.process p
  let since := station.sinceDisconnect process
  match readMark station.file with
  | none => station.put p { process with phase := .measuring since none }
  | some (state, time) =>
    if state = str "active" then
      { station.put p { process with phase := .discovering since station.wall } with file := [] }
    else station.put p { process with phase := .measuring since (some time) }

/-- What an event changes. There is no result where the process has not reached the point of the event. -/
def Station.step (cooldown : Nat) (station : Station) : GuardEvent → Option Station
  | .tick wall mono =>
    -- `time_t` has 64 bits with a sign.
    if station.wall ≤ wall ∧ wall < 2 ^ 63 ∧ station.mono ≤ mono then some { station with wall := wall, mono := mono }
    else none
  | .boot p => if (station.process p).phase = .dead then some (station.put p ⟨.off, 0, false, true⟩) else none
  | .start p =>
    let process := station.process p
    if process.phase = .off then some (station.put p { process with phase := .idle, stop := false }) else none
  | .reconnect p =>
    let process := station.process p
    if process.phase = .off then
      some (station.put p { process with phase := .idle, stop := false, lockedOut := false })
    else none
  | .requestStop p =>
    let process := station.process p
    if process.phase ≠ .dead then some (station.put p { process with stop := true }) else none
  | .disconnectIdle p =>
    -- `ddial_client_disconnect` without a socket, after a failed login or at the end of `host_ddial_client_stop`
    let process := station.process p
    if process.phase = .idle ∨ process.phase = .off then
      some (station.put p { process with lastDisconnect := station.mono })
    else none
  | .finish p =>
    let process := station.process p
    if process.phase = .idle ∧ process.stop then
      some { station.put p { process with phase := .off, lastDisconnect := station.mono } with
        lock := station.release p }
    else none
  | .accountLock p =>
    let process := station.process p
    if process.phase = .idle ∧ process.stop = false ∧ process.lockedOut = false ∧
        (station.lock = none ∨ station.lock = some p) then
      some { station.put p { process with phase := .locked } with lock := some p }
    else none
  | .readLockFile p => if (station.process p).phase = .locked then some (station.readLockFile p) else none
  | .writeDiscovered p =>
    let process := station.process p
    match process.phase with
    | .discovering since stamp =>
      some { station.put p { process with phase := .measuring since (some station.wall) } with
        file := markText false stamp }
    | _ => none
  | .measure p =>
    let process := station.process p
    match process.phase with
    | .measuring since mark =>
      let wait := cooldownLeft cooldown (sinceMark since mark station.wall)
      some (station.put p { process with phase := if wait > 0 then .idle else .dialing })
    | _ => none
  | .connectSocket p reached =>
    let process := station.process p
    if process.phase = .dialing then
      some (station.put p { process with phase := if reached then .opened else .idle })
    else none
  | .truncateActive p =>
    let process := station.process p
    if process.phase = .opened then
      some { station.put p { process with phase := .markingActive station.wall } with file := [] }
    else none
  | .writeActive p =>
    let process := station.process p
    match process.phase with
    | .markingActive stamp =>
      some { station.put p { process with phase := .connected, lastDisconnect := 0 } with
        file := markText true stamp }
    | _ => none
  | .line p text =>
    let process := station.process p
    if process.phase = .connected then
      some (station.put p (if hangsUp (normalizeLine text) then process.hangUp text else process))
    else none
  | .closeSocket p =>
    let process := station.process p
    if process.phase = .connected then some (station.put p { process with phase := .hungUp }) else none
  | .truncateClosed p =>
    let process := station.process p
    if process.phase = .hungUp then
      some { station.put p { process with phase := .markingClosed station.wall } with file := [] }
    else none
  | .writeClosed p =>
    let process := station.process p
    match process.phase with
    | .markingClosed stamp =>
      some { station.put p { process with phase := .idle, lastDisconnect := station.mono } with
        file := markText false stamp }
    | _ => none
  | .crash p =>
    let process := station.process p
    if process.phase ≠ .dead then
      some { station.put p { process with phase := .dead } with lock := station.release p }
    else none

def Phase.isOpen : Phase → Bool
  | .opened | .markingActive _ | .connected => true
  | _ => false

/-- What an observer of the processes writes down: the second at which the last connection ended, the second at which
the end of a process was last discovered, and the processes that a lockout line told to stay down. -/
structure Log where
  ended : Option Nat
  found : Option Nat
  barred : Nat → Bool

/-- What the observer writes down when an event happens. The processes do not read it. -/
def Log.note (log : Log) (station : Station) : GuardEvent → Log
  | .line p text =>
    if hangsUp (normalizeLine text) then
      { log with
        ended := some station.wall
        barred := Function.update log.barred p (log.barred p || lineLooksLikeLockout (normalizeLine text)) }
    else log
  | .closeSocket _ => { log with ended := some station.wall }
  | .crash p => if (station.process p).phase.isOpen then { log with ended := some station.wall } else log
  | .readLockFile _ =>
    if (readMark station.file).any (fun mark => mark.1 = str "active") then { log with found := some station.wall }
    else log
  | .boot p | .reconnect p => { log with barred := Function.update log.barred p false }
  | _ => log

structure Observed where
  station : Station
  log : Log

def Observed.start : Observed := ⟨.start, ⟨none, none, fun _ => false⟩⟩

def Observed.step (cooldown : Nat) (observed : Observed) (event : GuardEvent) : Option Observed :=
  (observed.station.step cooldown event).map fun station => ⟨station, observed.log.note observed.station event⟩

/-- The seconds at which a connection ended or a crash was discovered. -/
def Log.times (log : Log) : List Nat := log.ended.toList ++ log.found.toList

/-- At most one connection is open, a connection is opened only after the cooldown, and a process that was locked out
opens none. -/
structure Guarded (cooldown : Nat) (observed : Observed) : Prop where
  single : ∀ p q, (observed.station.process p).phase.isOpen → (observed.station.process q).phase.isOpen → p = q
  spaced : ∀ p reached, (observed.station.step cooldown (.connectSocket p reached)).isSome →
    ∀ time ∈ observed.log.times, time + cooldown ≤ observed.station.wall
  heeded : ∀ p reached, (observed.station.step cooldown (.connectSocket p reached)).isSome →
    observed.log.barred p = false

end SshChatter.Ddial
