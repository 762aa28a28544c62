import SshChatter.Input.EscapeSequence

namespace SshChatter.Input
open CString

/-- What some bytes do to a session: the state behind them, for each byte whether it was consumed, and what the
session was made to do. -/
structure EscapeTrace where
  state : EscapeState
  consumed : List Bool
  actions : List InputAction

/-- The bytes are given to `session_consume_escape_sequence` one after the other. -/
def EscapeState.feed (state : EscapeState) : List (InputContext × UInt8) → EscapeTrace
  | [] => ⟨state, [], []⟩
  | key :: input =>
    let step := state.consume key.1 key.2
    let later := step.state.feed input
    ⟨later.state, step.consumed :: later.consumed, step.actions ++ later.actions⟩

section Arrows

inductive Arrow where
  | up
  | down
  | right
  | left
  deriving DecidableEq

def Arrow.letter : Arrow → UInt8
  | .up => byte 'A'
  | .down => byte 'B'
  | .right => byte 'C'
  | .left => byte 'D'

def EscapeState.rested (buffer : Bytes) (paste : Bool) : EscapeState := ⟨false, buffer, paste⟩

/-- How the session looks when each of the three bytes of an arrow key arrives. -/
structure ArrowMoments where
  first : InputContext
  second : InputContext
  third : InputContext

def ArrowMoments.keys (moments : ArrowMoments) (mode : UInt8) (arrow : Arrow) : List (InputContext × UInt8) :=
  [(moments.first, 0x1B), (moments.second, mode), (moments.third, arrow.letter)]

/-- The arrow key of the application mode does what the one of the normal mode does, and all its bytes are consumed. -/
structure SameArrow (state : EscapeState) (normal application : ArrowMoments) (arrow : Arrow) : Prop where
  ends : (state.feed (application.keys (byte 'O') arrow)).state = (state.feed (normal.keys (byte '[') arrow)).state
  actions :
    (state.feed (application.keys (byte 'O') arrow)).actions = (state.feed (normal.keys (byte '[') arrow)).actions
  consumed : (state.feed (application.keys (byte 'O') arrow)).consumed = [true, true, true] ∧
    (state.feed (normal.keys (byte '[') arrow)).consumed = [true, true, true]

variable (context : InputContext) (buffer : Bytes) (paste : Bool) (moments : ArrowMoments) (arrow : Arrow)

theorem letter_plain : arrow.letter ≠ 0x1B ∧ isAlpha arrow.letter ∧ arrow.letter ≠ byte '~' := by
  cases arrow <;> decide

theorem consume_rested :
    (EscapeState.rested buffer paste).consume context 0x1B = ⟨⟨true, [0x1B], paste⟩, true, []⟩ := rfl

/-- A session without a pending sequence leaves every other byte alone. -/
theorem consume_letter :
    (EscapeState.rested buffer paste).consume context arrow.letter = ⟨.rested buffer paste, false, []⟩ := by
  have idle : (EscapeState.rested buffer paste).active = false := rfl
  rw [EscapeState.consume, if_pos idle, if_neg (letter_plain arrow).1]

theorem consume_application :
    EscapeState.consume ⟨true, [0x1B], paste⟩ context (byte 'O') = ⟨.rested [] paste, false, []⟩ := by
  rfl

theorem application_arrow :
    (EscapeState.rested buffer paste).feed (moments.keys (byte 'O') arrow) =
      ⟨.rested [] paste, [true, false, false], []⟩ := by
  simp only [ArrowMoments.keys, EscapeState.feed, consume_rested, consume_application, consume_letter, List.append_nil]

/-- In every session without a pending sequence, whatever it shows, an arrow key of the application mode differs from
the one of the normal mode. -/
theorem application_arrow_differs (normal application : ArrowMoments) :
    ¬ SameArrow (.rested buffer paste) normal application arrow := by
  intro same
  have answers := same.consumed.1
  cases answers

/-- In a plain session the arrow up scrolls in the normal mode and types two letters in the application mode. -/
theorem application_up_typed :
    let moments : ArrowMoments := ⟨plainContext, plainContext, plainContext⟩
    (EscapeState.idle.feed (moments.keys (byte '[') .up)).actions = [.scrollbackNavigateLine 1] ∧
      (EscapeState.idle.feed (moments.keys (byte 'O') .up)).actions = [] ∧
      ¬ ∀ (state : EscapeState) (normal application : ArrowMoments) (arrow : Arrow), state.active = false →
        SameArrow state normal application arrow := by
  refine ⟨by decide, by decide, fun claimed => ?_⟩
  have moments : ArrowMoments := ⟨plainContext, plainContext, plainContext⟩
  have answers := (claimed .idle moments moments .up rfl).consumed.1
  cases answers

end Arrows

end SshChatter.Input
