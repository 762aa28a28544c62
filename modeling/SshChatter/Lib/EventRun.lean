import Mathlib.Tactic

namespace EventRun
open List

section Total

variable {State Event : Type} (step : State → Event → State) (counted : State → Event → Prop)
  [∀ state, DecidablePred (counted state)]

def run (state : State) (events : List Event) : State := events.foldl step state

def tally : State → List Event → Nat
  | _, [] => 0
  | state, event :: rest => (if counted state event then 1 else 0) + tally (step state event) rest

variable {counted} {invariant : State → Prop} {state : State}

theorem run_invariant (invariant : State → Prop)
    (preserved : ∀ state event, invariant state → invariant (step state event))
    (start : invariant state) (events : List Event) : invariant (run step state events) := by
  induction events generalizing state with
  | nil => exact start
  | cons event rest ih => exact ih (preserved state event start)

def Along (holds : State → Event → Prop) : State → List Event → Prop
  | _, [] => True
  | state, event :: rest => holds state event ∧ Along holds (step state event) rest

variable {events : List Event} {holds : State → Event → Prop} {first second : State → Event → Prop}

theorem along_invariant {step : State → Event → State} (invariant : State → Prop)
    (preserved : ∀ state event, invariant state → holds state event → invariant (step state event))
    (start : invariant state) (along : Along step holds state events) :
    invariant (run step state events) := by
  induction events generalizing state with
  | nil => exact start
  | cons event rest ih => exact ih (preserved state event start along.1) along.2

theorem Along.and {step : State → Event → State} (one : Along step first state events)
    (two : Along step second state events) :
    Along step (fun state event => first state event ∧ second state event) state events := by
  induction events generalizing state with
  | nil => trivial
  | cons event rest ih => exact ⟨⟨one.1, two.1⟩, ih one.2 two.2⟩

theorem Along.left {step : State → Event → State} {events later : List Event}
    (along : Along step holds state (events ++ later)) : Along step holds state events := by
  induction events generalizing state with
  | nil => trivial
  | cons event rest ih => exact ⟨along.1, ih along.2⟩

theorem along_congr {step : State → Event → State} {holds first second : State → Event → Prop}
    (invariant : State → Prop)
    (preserved : ∀ state event, invariant state → holds state event → invariant (step state event))
    (agree : ∀ state event, invariant state → (first state event ↔ second state event)) (start : invariant state)
    (along : Along step holds state events) :
    Along step first state events ↔ Along step second state events := by
  induction events generalizing state with
  | nil => exact Iff.rfl
  | cons event rest ih =>
    have later := ih (preserved state event start along.1) along.2
    rw [Along, Along, agree state event start, later]

def emitted {Out : Type} (emit : State → Event → List Out) : State → List Event → List Out
  | _, [] => []
  | state, event :: rest => emit state event ++ emitted emit (step state event) rest

theorem run_log {Out : Type} {step : State → Event → State} {emit : State → Event → List Out} (log : State → List Out)
    (grows : ∀ state event, log (step state event) = log state ++ emit state event) (state : State)
    (events : List Event) : log (run step state events) = log state ++ emitted step emit state events := by
  induction events generalizing state with
  | nil => exact (append_nil _).symm
  | cons event rest ih =>
    have later := ih (step state event)
    rw [grows, append_assoc] at later
    exact later

theorem along_emitted {Out : Type} {step : State → Event → State} {emit : State → Event → List Out}
    (invariant : State → Prop) {good : Out → Prop}
    (preserved : ∀ state event, invariant state → holds state event → invariant (step state event))
    (sound : ∀ state event, invariant state → holds state event → ∀ out ∈ emit state event, good out)
    (start : invariant state) (along : Along step holds state events) :
    ∀ out ∈ emitted step emit state events, good out := by
  induction events generalizing state with
  | nil => exact fun _ inside => absurd inside not_mem_nil
  | cons event rest ih =>
    intro out inside
    rcases mem_append.mp inside with here | later
    · exact sound state event start along.1 out here
    · exact ih (preserved state event start along.1) along.2 out later

theorem emitted_lt {step : State → Event → State} {emit : State → Event → List Nat} (rank : State → Nat)
    (invariant : State → Prop)
    (preserved : ∀ state event, invariant state → holds state event → invariant (step state event))
    (grows : ∀ state event, invariant state → holds state event → rank state ≤ rank (step state event) ∧
      ∀ out ∈ emit state event, out < rank (step state event))
    (start : invariant state) (along : Along step holds state events) :
    rank state ≤ rank (run step state events) ∧ ∀ out ∈ emitted step emit state events, out <
      rank (run step state events) := by
  induction events generalizing state with
  | nil => exact ⟨le_rfl, fun _ inside => absurd inside not_mem_nil⟩
  | cons event rest ih =>
    obtain ⟨more, below⟩ := grows state event start along.1
    obtain ⟨later, others⟩ := ih (preserved state event start along.1) along.2
    refine ⟨more.trans later, fun out inside => ?_⟩
    rcases mem_append.mp inside with here | there
    · exact (below out here).trans_le later
    · exact others out there

theorem along_along {step : State → Event → State} {holds satisfied : State → Event → Prop} (invariant : State → Prop)
    (preserved : ∀ state event, invariant state → holds state event → invariant (step state event))
    (sound : ∀ state event, invariant state → holds state event → satisfied state event) (start : invariant state)
    (along : Along step holds state events) :
    Along step satisfied state events := by
  induction events generalizing state with
  | nil => trivial
  | cons event rest ih =>
    have here := sound state event start along.1
    have later := ih (preserved state event start along.1) along.2
    exact ⟨here, later⟩

theorem along_always {step : State → Event → State} {satisfied : State → Event → Prop} (invariant : State → Prop)
    (preserved : ∀ state event, invariant state → invariant (step state event))
    (sound : ∀ state event, invariant state → satisfied state event)
    (start : invariant state) (events : List Event) : Along step satisfied state events := by
  induction events generalizing state with
  | nil => trivial
  | cons event rest ih => exact ⟨sound state event start, ih (preserved state event start)⟩

theorem along_iff {step : State → Event → State} (invariant : State → Prop)
    (preserved : ∀ state event, invariant state → invariant (step state event))
    (agree : ∀ state event, invariant state → (first state event ↔ second state event)) (start : invariant state)
    (events : List Event) : Along step first state events ↔ Along step second state events := by
  induction events generalizing state with
  | nil => exact Iff.rfl
  | cons event rest ih =>
    have later := ih (preserved state event start)
    rw [Along, Along, agree state event start, later]

theorem along_iff_kept {step : State → Event → State} (invariant : State → Prop)
    (kept : ∀ state event, invariant state → first state event → invariant (step state event))
    (agree : ∀ state event, invariant state → (first state event ↔ second state event)) (start : invariant state)
    (events : List Event) : Along step first state events ↔ Along step second state events := by
  induction events generalizing state with
  | nil => exact Iff.rfl
  | cons event rest ih =>
    rw [Along, Along, ← agree state event start]
    exact and_congr_right fun here => ih (kept state event start here)

theorem tally_le_rank (rank : State → Nat)
    (preserved : ∀ state event, invariant state → invariant (step state event))
    (kept : ∀ state event, invariant state → rank (step state event) ≤ rank state)
    (lowered : ∀ state event, invariant state → counted state event → rank (step state event) < rank state)
    (start : invariant state) (events : List Event) : tally step counted state events ≤ rank state := by
  induction events generalizing state with
  | nil => exact Nat.zero_le _
  | cons event rest ih =>
    have later := ih (preserved state event start)
    rw [tally]
    split_ifs with met
    · have lower := lowered state event start met
      omega
    · have same := kept state event start
      omega

end Total

section Partial

variable {State Event : Type} (step : State → Event → Option State) (allowed : State → Event → Prop) (start : State)

inductive Reaches : State → Prop where
  | start : Reaches start
  | step {state next : State} {event : Event} :
      Reaches state → allowed state event → step state event = some next → Reaches next

variable {step allowed start}

theorem Reaches.invariant {invariant : State → Prop} (first : invariant start)
    (kept : ∀ state event next, invariant state → allowed state event → step state event = some next → invariant next)
    {state : State} (reached : Reaches step allowed start state) : invariant state := by
  induction reached with
  | start => exact first
  | step _ fair taken ih => exact kept _ _ _ ih fair taken

def runSome (step : State → Event → Option State) (allowed : State → Event → Prop)
    [∀ state, DecidablePred (allowed state)] (state : State) (events : List Event) : Option State :=
  events.foldlM (fun state event => if allowed state event then step state event else none) state

theorem Reaches.run [∀ state, DecidablePred (allowed state)] {events : List Event} {state last : State}
    (reached : Reaches step allowed start state) (ran : runSome step allowed state events = some last) :
    Reaches step allowed start last := by
  induction events generalizing state with
  | nil =>
    obtain rfl : state = last := Option.some.inj ran
    exact reached
  | cons event rest ih =>
    obtain ⟨next, taken, later⟩ := Option.bind_eq_some_iff.mp ran
    obtain ⟨fair, made⟩ := Option.ite_none_right_eq_some.mp taken
    exact ih (Reaches.step reached fair made) later

end Partial

end EventRun
