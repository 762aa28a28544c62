import SshChatter.Lib.CString

namespace SshChatter.Input
open CString List

def escapeBufferLen : Nat := 64

/-- What the parser asks the rest of the session. The two last answers are those of `session_bbs_scroll` and
`session_rss_move` to the call that it makes. -/
structure InputContext where
  wallActive : Bool
  wallCommandMode : Bool
  bbsPostPending : Bool
  bbsViewActive : Bool
  inRssMode : Bool
  commandMode : Bool
  alphaGame : Bool
  bbsScrolls : Bool
  rssMoves : Bool

/-- What a sequence makes the session do. A step of zero scrolls by a page. -/
inductive InputAction where
  | bbsMoveCursor (direction : Int)
  | bbsScroll (direction : Int) (step : Nat)
  | historyNavigate (direction : Int)
  | alphaManualLock
  | wallMoveCursor (dx dy : Int)
  | alphaArrow (dx dy : Int)
  | rssMove (direction : Int)
  | scrollbackNavigateLine (direction : Int)
  | scrollbackNavigate (direction : Int)
  | refreshInputLine
  deriving DecidableEq

/-- The fields `input_escape_active`, `input_escape_buffer` and `bracket_paste_active`. -/
structure EscapeState where
  active : Bool
  buffer : Bytes
  paste : Bool
  deriving DecidableEq

def EscapeState.idle : EscapeState := ⟨false, [], false⟩

/-- What a group of tests says about the bytes that were read: more are awaited, the sequence is done, or the next
group decides. The actions are those that were tried. -/
inductive Verdict where
  | wait
  | finish (actions : List InputAction)
  | next (actions : List InputAction)

/-- This is `isalpha` in the C locale. -/
def isAlpha (c : UInt8) : Bool := (65 ≤ c ∧ c ≤ 90) ∨ (97 ≤ c ∧ c ≤ 122)

def navigateKey (context : InputContext) (direction : Int) : Verdict :=
  if context.bbsPostPending then .finish [.bbsMoveCursor direction]
  else if context.bbsViewActive then
    if context.bbsScrolls then .finish [.bbsScroll (-direction) 1]
    else .finish [.bbsScroll (-direction) 1, .historyNavigate direction]
  else .finish [.historyNavigate direction]

/-- The tests for a sequence of two bytes. -/
def secondByte (context : InputContext) (ch : UInt8) : Verdict :=
  if ch = byte '[' then .wait
  else if ch = byte 'k' then navigateKey context (-1)
  else if ch = byte 'j' then navigateKey context 1
  else if (ch = byte 'l' ∨ ch = byte 'L') ∧ context.alphaGame then .finish [.alphaManualLock]
  else .next []

def arrowDelta (ch : UInt8) : Int × Int :=
  if ch = byte 'A' then (0, -1)
  else if ch = byte 'B' then (0, 1)
  else if ch = byte 'C' then (1, 0)
  else if ch = byte 'D' then (-1, 0)
  else (0, 0)

def wallProcessEscape (context : InputContext) (ch : UInt8) : Option (List InputAction) :=
  if context.wallActive = false then none
  else if context.wallCommandMode ∨ arrowDelta ch = (0, 0) then some []
  else some [.wallMoveCursor (arrowDelta ch).1 (arrowDelta ch).2]

/-- The arrows up and down outside the wall and the game. The calls that were made in vain come first. -/
def verticalArrow (context : InputContext) (direction : Int) : Verdict :=
  if context.bbsPostPending then .finish [.bbsMoveCursor direction]
  else
    let scrolled := if context.bbsViewActive then [InputAction.bbsScroll (-direction) 1] else []
    if context.bbsViewActive ∧ context.bbsScrolls then .finish scrolled
    else
      let moved := if context.inRssMode then scrolled ++ [.rssMove direction] else scrolled
      if context.inRssMode ∧ context.rssMoves then .finish moved
      else if context.commandMode then .finish (moved ++ [.historyNavigate direction])
      else .finish (moved ++ [.scrollbackNavigateLine (-direction)])

/-- The tests for a sequence of three bytes behind `[` or `O`. -/
def arrowKey (context : InputContext) (ch : UInt8) : Verdict :=
  match wallProcessEscape context ch with
  | some actions => .finish actions
  | none =>
    if arrowDelta ch ≠ (0, 0) ∧ context.alphaGame then .finish [.alphaArrow (arrowDelta ch).1 (arrowDelta ch).2]
    else if ch = byte 'A' then verticalArrow context (-1)
    else if ch = byte 'B' then verticalArrow context 1
    else .next []

def pageKey (context : InputContext) (direction : Int) : Verdict :=
  if context.bbsViewActive then
    if context.bbsScrolls then .finish [.bbsScroll direction 0]
    else .finish [.bbsScroll direction 0, .scrollbackNavigate direction]
  else .finish [.scrollbackNavigate direction]

/-- The groups of tests in front of the last one, in their order. -/
def earlyVerdict (context : InputContext) (buffer : Bytes) : Verdict :=
  match buffer with
  | [_] => .wait
  | [_, second] => secondByte context second
  | [_, second, third] => if second = byte '[' ∨ second = byte 'O' then arrowKey context third else .next []
  | [_, second, third, fourth] =>
    if second = byte '[' ∧ fourth = byte '~' then
      if third = byte '5' then pageKey context 1 else if third = byte '6' then pageKey context (-1) else .next []
    else .next []
  | _ => .next []

/-- The result of one byte: the state, whether the byte was consumed, and what the session does. -/
structure EscapeStep where
  state : EscapeState
  consumed : Bool
  actions : List InputAction

/-- The paste flag behind a sequence that ends with a tilde, and the call that goes with it. -/
def pasteMark (buffer : Bytes) (paste : Bool) : Bool × List InputAction :=
  if 5 ≤ buffer.length ∧ (buffer.drop 2).take 3 = str "200" then (true, [])
  else if 5 ≤ buffer.length ∧ (buffer.drop 2).take 3 = str "201" then (false, [.refreshInputLine])
  else (paste, [])

/-- The last group of tests. -/
def lateStep (buffer : Bytes) (paste : Bool) (ch : UInt8) (tried : List InputAction) : EscapeStep :=
  if buffer[1]? = some (byte '[') then
    let final := buffer.getLast?
    if final ≠ some (byte '~') ∧ ¬ (buffer.length = 3 ∧ final.any isAlpha) then ⟨⟨true, buffer, paste⟩, true, tried⟩
    else if final = some (byte '~') then
      ⟨⟨false, [], (pasteMark buffer paste).1⟩, true, tried ++ (pasteMark buffer paste).2⟩
    else ⟨⟨false, [], paste⟩, true, tried⟩
  else ⟨⟨false, [], paste⟩, ch = 0x1B, tried⟩

def Verdict.step (verdict : Verdict) (buffer : Bytes) (paste : Bool) (ch : UInt8) : EscapeStep :=
  match verdict with
  | .wait => ⟨⟨true, buffer, paste⟩, true, []⟩
  | .finish actions => ⟨⟨false, [], paste⟩, true, actions⟩
  | .next actions => lateStep buffer paste ch actions

def EscapeState.consume (state : EscapeState) (context : InputContext) (ch : UInt8) : EscapeStep :=
  if state.active = false then
    if ch = 0x1B then ⟨⟨true, [ch], state.paste⟩, true, []⟩ else ⟨state, false, []⟩
  else
    let buffer := if state.buffer.length < escapeBufferLen then state.buffer ++ [ch] else state.buffer
    (earlyVerdict context buffer).step buffer state.paste ch

def EscapeState.run (state : EscapeState) (input : List (InputContext × UInt8)) : EscapeState :=
  input.foldl (fun state key => (state.consume key.1 key.2).state) state

section Steps

variable (context : InputContext) (ch : UInt8)

theorem consume_idle (paste : Bool) (other : ch ≠ 0x1B) :
    (EscapeState.consume ⟨false, [], paste⟩ context ch).state = ⟨false, [], paste⟩ := by
  rw [EscapeState.consume, if_pos rfl, if_neg other]

theorem consume_start (paste : Bool) :
    (EscapeState.consume ⟨false, [], paste⟩ context 0x1B).state = ⟨true, [0x1B], paste⟩ := rfl

/-- Behind the escape byte only a bracket opens a longer sequence. -/
theorem consume_second (paste : Bool) :
    (EscapeState.consume ⟨true, [0x1B], paste⟩ context ch).state =
      if ch = byte '[' then ⟨true, [0x1B, byte '['], paste⟩ else ⟨false, [], paste⟩ := by
  have grown : (if ([0x1B] : Bytes).length < escapeBufferLen then [0x1B] ++ [ch] else [0x1B]) = [0x1B, ch] := rfl
  rw [EscapeState.consume, if_neg (by simp)]
  simp only [grown, earlyVerdict, secondByte, navigateKey]
  split_ifs with bracket
  all_goals simp_all [lateStep, Verdict.step]

def endsOpen (rest : Bytes) : Bool :=
  rest.length + 2 < escapeBufferLen ∧ (ch = byte '~' ∨ rest = [] ∧ (context.wallActive ∨ isAlpha ch))

/-- The buffer behind one more byte. -/
def grow (rest : Bytes) : Bytes := if rest.length + 2 < escapeBufferLen then rest ++ [ch] else rest

/-- The last group of tests on an open sequence. -/
theorem lateStep_open (rest : Bytes) (paste : Bool) (tried : List InputAction) (some' : rest ≠ []) :
    (rest.getLast? = some (byte '~') ∨ rest.length = 1 ∧ rest.getLast?.any isAlpha = true →
      (lateStep (0x1B :: byte '[' :: rest) paste ch tried).state.active = false ∧
        (lateStep (0x1B :: byte '[' :: rest) paste ch tried).state.buffer = []) ∧
    (¬ (rest.getLast? = some (byte '~') ∨ rest.length = 1 ∧ rest.getLast?.any isAlpha = true) →
      (lateStep (0x1B :: byte '[' :: rest) paste ch tried).state = ⟨true, 0x1B :: byte '[' :: rest, paste⟩) := by
  have last : (0x1B :: byte '[' :: rest).getLast? = rest.getLast? := by
    obtain ⟨c, rest, rfl⟩ := exists_cons_of_ne_nil some'
    rfl
  have three : (0x1B :: byte '[' :: rest).length = 3 ↔ rest.length = 1 := by
    simp only [length_cons]
    omega
  have bracket : (0x1B :: byte '[' :: rest)[1]? = some (byte '[') := rfl
  rw [lateStep, if_pos bracket]
  rw [last]
  constructor
  · intro ends
    rw [if_neg (by rw [three]; tauto)]
    split_ifs <;> exact ⟨rfl, rfl⟩
  · intro open'
    rw [if_pos (by rw [three]; tauto)]

theorem arrowKey_verdict :
    (context.wallActive → ∃ actions, arrowKey context ch = .finish actions) ∧
      ((∃ actions, arrowKey context ch = .finish actions) ∨ arrowKey context ch = .next []) ∧
      (context.wallActive = false → isAlpha ch = false → arrowKey context ch = .next []) := by
  have vertical (direction : Int) : ∃ actions, verticalArrow context direction = .finish actions := by
    simp only [verticalArrow]
    split_ifs <;> exact ⟨_, rfl⟩
  refine ⟨?_, ?_, ?_⟩
  · intro wall
    rw [arrowKey, wallProcessEscape, if_neg (by simp [wall])]
    split_ifs <;> exact ⟨_, rfl⟩
  · rw [arrowKey]
    split
    · exact .inl ⟨_, rfl⟩
    · split_ifs
      · exact .inl ⟨_, rfl⟩
      · exact .inl (vertical _)
      · exact .inl (vertical _)
      · exact .inr rfl
  · intro noWall noAlpha
    have letters : ∀ letter ∈ [byte 'A', byte 'B', byte 'C', byte 'D'], isAlpha letter := by decide +kernel
    have other : ∀ letter ∈ [byte 'A', byte 'B', byte 'C', byte 'D'], ch ≠ letter := by
      rintro letter listed rfl
      rw [letters _ listed] at noAlpha
      cases noAlpha
    simp only [mem_cons, not_mem_nil, or_false, forall_eq_or_imp, forall_eq] at other
    obtain ⟨noA, noB, noC, noD⟩ := other
    have still : arrowDelta ch = (0, 0) := by
      rw [arrowDelta, if_neg noA, if_neg noB, if_neg noC, if_neg noD]
    rw [arrowKey, wallProcessEscape, if_pos noWall]
    rw [if_neg (by simp [still]), if_neg noA, if_neg noB]

variable {rest : Bytes}

/-- A sequence of four bytes or more is left to the last group of tests unless a tilde ends it. -/
theorem earlyVerdict_long (long : 2 ≤ rest.length) :
    (∃ actions, earlyVerdict context (0x1B :: byte '[' :: rest) = .finish actions ∧ rest.getLast? = some (byte '~')) ∨
      earlyVerdict context (0x1B :: byte '[' :: rest) = .next [] := by
  have page (direction : Int) : ∃ actions, pageKey context direction = .finish actions := by
    rw [pageKey]
    split_ifs <;> exact ⟨_, rfl⟩
  match rest, long with
  | [third, fourth], _ =>
    simp only [earlyVerdict]
    split_ifs with tilde five six
    · obtain ⟨actions, done⟩ := page 1
      exact .inl ⟨actions, done, by rw [tilde.2]; rfl⟩
    · obtain ⟨actions, done⟩ := page (-1)
      exact .inl ⟨actions, done, by rw [tilde.2]; rfl⟩
    · exact .inr rfl
    · exact .inr rfl
  | _ :: _ :: _ :: _, _ => exact .inr rfl

/-- What the bytes behind the bracket make of the sequence. -/
theorem sequence_step (paste : Bool) (some' : rest ≠ []) :
    let verdict := earlyVerdict context (0x1B :: byte '[' :: rest)
    let step := verdict.step (0x1B :: byte '[' :: rest) paste ch
    (rest.getLast? = some (byte '~') ∨
        rest.length = 1 ∧ (context.wallActive = true ∨ rest.getLast?.any isAlpha = true) →
      step.state.active = false ∧ step.state.buffer = []) ∧
    (¬ (rest.getLast? = some (byte '~') ∨
        rest.length = 1 ∧ (context.wallActive = true ∨ rest.getLast?.any isAlpha = true)) →
      step.state = ⟨true, 0x1B :: byte '[' :: rest, paste⟩) := by
  intro verdict step
  have start : step = verdict.step (0x1B :: byte '[' :: rest) paste ch := rfl
  have late := lateStep_open ch rest paste [] some'
  by_cases single : rest.length = 1
  · obtain ⟨third, rfl⟩ := length_eq_one_iff.mp single
    have arrow : verdict = arrowKey context third := rfl
    obtain ⟨wall, either, plain⟩ := arrowKey_verdict context third
    by_cases shown : context.wallActive
    · obtain ⟨actions, done⟩ := wall shown
      have finished : step = ⟨⟨false, [], paste⟩, true, actions⟩ := by
        rw [start, arrow, done, Verdict.step]
      rw [finished]
      exact ⟨fun _ => ⟨rfl, rfl⟩, fun open' => absurd (.inr ⟨single, .inl shown⟩) open'⟩
    · rcases either with ⟨actions, done⟩ | next
      · have finished : step = ⟨⟨false, [], paste⟩, true, actions⟩ := by
          rw [start, arrow, done, Verdict.step]
        have letter : isAlpha third := by
          by_contra noLetter
          rw [plain (by simpa using shown) (by simpa using noLetter)] at done
          cases done
        rw [finished]
        exact ⟨fun _ => ⟨rfl, rfl⟩, fun open' => absurd (.inr ⟨single, .inr letter⟩) open'⟩
      · have last : step = lateStep (0x1B :: byte '[' :: [third]) paste ch [] := by
          rw [start, arrow, next, Verdict.step]
        rw [last]
        refine ⟨fun ends => late.1 (by tauto), fun open' => late.2 (by tauto)⟩
  · have long : 2 ≤ rest.length := by
      have positive := length_pos_of_ne_nil some'
      omega
    rcases earlyVerdict_long context long with ⟨actions, done, tilde⟩ | next
    · have finished : step = ⟨⟨false, [], paste⟩, true, actions⟩ := by
        rw [start, show verdict = _ from done, Verdict.step]
      rw [finished]
      exact ⟨fun _ => ⟨rfl, rfl⟩, fun open' => absurd (.inl tilde) open'⟩
    · have last : step = lateStep (0x1B :: byte '[' :: rest) paste ch [] := by
        rw [start, show verdict = _ from next, Verdict.step]
      rw [last]
      exact ⟨fun ends => late.1 (by tauto), fun open' => late.2 (by tauto)⟩

/-- An open sequence is done exactly when the byte ends it, and otherwise it grows. -/
theorem consume_open (paste : Bool) (noTilde : byte '~' ∉ rest) :
    (endsOpen context ch rest →
      (EscapeState.consume ⟨true, 0x1B :: byte '[' :: rest, paste⟩ context ch).state.active = false ∧
        (EscapeState.consume ⟨true, 0x1B :: byte '[' :: rest, paste⟩ context ch).state.buffer = []) ∧
    (endsOpen context ch rest = false →
      (EscapeState.consume ⟨true, 0x1B :: byte '[' :: rest, paste⟩ context ch).state =
        ⟨true, 0x1B :: byte '[' :: grow ch rest, paste⟩) := by
  have length : (0x1B :: byte '[' :: rest).length = rest.length + 2 := rfl
  have grown : (if (0x1B :: byte '[' :: rest).length < escapeBufferLen then 0x1B :: byte '[' :: rest ++ [ch]
      else 0x1B :: byte '[' :: rest) = 0x1B :: byte '[' :: grow ch rest := by
    rw [grow, length]
    split_ifs <;> rfl
  have some' : grow ch rest ≠ [] := by
    rw [grow]
    split_ifs with room
    · simp
    · rintro rfl
      exact room (by decide)
  have ends : endsOpen context ch rest ↔ ((grow ch rest).getLast? = some (byte '~') ∨
      (grow ch rest).length = 1 ∧ (context.wallActive = true ∨ (grow ch rest).getLast?.any isAlpha = true)) := by
    rw [endsOpen, grow]
    split_ifs with room
    · have alone : (rest ++ [ch]).length = 1 ↔ rest = [] := by
        rw [length_append, length_singleton, Nat.add_eq_right, length_eq_zero_iff]
      simp [room]
    · have noLast : rest.getLast? ≠ some (byte '~') := fun last => noTilde (mem_of_getLast? last)
      have long : rest.length ≠ 1 := by
        rw [escapeBufferLen] at room
        omega
      simp [room, noLast, long]
  have step := sequence_step context ch paste some'
  rw [EscapeState.consume]
  simp only [grown]
  constructor
  · intro done
    exact step.1 (ends.mp done)
  · intro open'
    apply step.2
    rw [← ends, open']
    decide

end Steps

section Runs

/-- A sequence behind its bracket. No tilde was read yet, because one that fits ends the sequence. -/
structure OpenSequence (state : EscapeState) (rest : Bytes) : Prop where
  active : state.active
  buffer : state.buffer = 0x1B :: byte '[' :: rest
  noTilde : byte '~' ∉ rest
  fits : rest.length + 2 ≤ escapeBufferLen

/-- The states that a session can be in. -/
inductive EscapeState.Reachable (state : EscapeState) : Prop where
  | idle (active : state.active = false) (buffer : state.buffer = [])
  | escape (active : state.active) (buffer : state.buffer = [0x1B])
  | sequence {rest : Bytes} (shape : OpenSequence state rest)

variable {state : EscapeState} {input : List (InputContext × UInt8)} {rest : Bytes}

theorem consume_sequence (shape : OpenSequence state rest) (context : InputContext) (ch : UInt8) :
    (endsOpen context ch rest →
      (state.consume context ch).state.active = false ∧ (state.consume context ch).state.buffer = []) ∧
    (endsOpen context ch rest = false → OpenSequence (state.consume context ch).state (grow ch rest)) := by
  obtain ⟨active, buffer, paste⟩ := state
  obtain ⟨rfl, rfl, noTilde, fits⟩ := shape
  obtain ⟨ends, grows⟩ := consume_open context ch paste noTilde
  refine ⟨ends, ?_⟩
  intro open'
  rw [grows open']
  constructor
  case active => rfl
  case buffer => rfl
  case noTilde =>
    rw [grow]
    split_ifs with room
    · have other : ch ≠ byte '~' := by
        rintro rfl
        simp [endsOpen, room] at open'
      simp [noTilde, other.symm]
    · exact noTilde
  case fits =>
    rw [grow]
    split_ifs with room
    · simp only [length_append, length_singleton]
      omega
    · exact fits

theorem consume_reachable (reachable : state.Reachable) (context : InputContext) (ch : UInt8) :
    (state.consume context ch).state.Reachable := by
  cases reachable with
  | idle active buffer =>
    obtain ⟨_, _, paste⟩ := state
    obtain rfl : _ = false := active
    obtain rfl : _ = [] := buffer
    by_cases start : ch = 0x1B
    · subst start
      exact .escape rfl rfl
    · rw [consume_idle context ch paste start]
      exact .idle rfl rfl
  | escape active buffer =>
    obtain ⟨_, _, paste⟩ := state
    obtain rfl : _ := active
    obtain rfl : _ = [0x1B] := buffer
    rw [consume_second]
    split_ifs
    · exact .sequence (⟨rfl, rfl, by simp, by decide⟩ : OpenSequence _ [])
    · exact .idle rfl rfl
  | @sequence rest shape =>
    obtain ⟨ends, grows⟩ := consume_sequence shape context ch
    cases done : endsOpen context ch rest with
    | true => exact .idle (ends done).1 (ends done).2
    | false => exact .sequence (grows done)

theorem run_reachable (reachable : state.Reachable) (input : List (InputContext × UInt8)) :
    (state.run input).Reachable := by
  induction input generalizing state with
  | nil => exact reachable
  | cons key input ih => exact ih (consume_reachable reachable key.1 key.2)

theorem run_append (state : EscapeState) (first second : List (InputContext × UInt8)) :
    state.run (first ++ second) = (state.run first).run second := by
  rw [EscapeState.run, foldl_append]
  rfl

theorem run_cons (state : EscapeState) (key : InputContext × UInt8) (input : List (InputContext × UInt8)) :
    state.run (key :: input) = (state.consume key.1 key.2).state.run input := rfl

/-- Bytes other than the escape byte are left to the session. -/
theorem run_idle (active : state.active = false) (ordinary : ∀ key ∈ input, key.2 ≠ 0x1B) :
    state.run input = state := by
  induction input with
  | nil => rfl
  | cons key input ih =>
    have step : (state.consume key.1 key.2).state = state := by
      rw [EscapeState.consume, if_pos active, if_neg (ordinary key (by simp))]
    rw [run_cons, step, ih (fun key listed => ordinary key (mem_cons_of_mem _ listed))]

/-- Bytes other than the tilde make a sequence of three bytes or more grow up to the size of the buffer. -/
theorem run_grows (shape : OpenSequence state rest) (some' : rest ≠ []) (noTilde : ∀ key ∈ input, key.2 ≠ byte '~') :
    ∃ grown, OpenSequence (state.run input) grown ∧ grown ≠ [] ∧
      grown.length + 2 = min (rest.length + 2 + input.length) escapeBufferLen := by
  induction input generalizing state rest with
  | nil => exact ⟨rest, shape, some', by simpa using shape.fits⟩
  | cons key input ih =>
    have open' : endsOpen key.1 key.2 rest = false := by simp [endsOpen, some', noTilde key (by simp)]
    have length : (grow key.2 rest).length + 2 = min (rest.length + 3) escapeBufferLen := by
      have fits := shape.fits
      rw [grow]
      split_ifs
      · simp only [length_append, length_singleton]
        omega
      · omega
    have some'' : grow key.2 rest ≠ [] := by
      rw [grow]
      split_ifs <;> simp [some']
    obtain ⟨grown, shape', more, total⟩ := ih ((consume_sequence shape key.1 key.2).2 open') some''
      (fun key listed => noTilde key (mem_cons_of_mem _ listed))
    refine ⟨grown, shape', more, ?_⟩
    rw [length_cons]
    omega

theorem run_full (shape : OpenSequence state rest) (full : rest.length + 2 = escapeBufferLen)
    (input : List (InputContext × UInt8)) :
    OpenSequence (state.run input) rest := by
  induction input generalizing state with
  | nil => exact shape
  | cons key input ih =>
    have open' : endsOpen key.1 key.2 rest = false := by simp [endsOpen, full]
    have same : grow key.2 rest = rest := by rw [grow, if_neg (by omega)]
    have next := (consume_sequence shape key.1 key.2).2 open'
    rw [same] at next
    exact ih next

end Runs

section ControlSequences

/-- The session takes characters again. -/
def EscapeState.Free (state : EscapeState) : Prop :=
  state.active = false ∧
    ∀ context ch, ch ≠ 0x1B → (state.consume context ch).consumed = false ∧ (state.consume context ch).state = state

/-- Some input brings the session back. -/
def EscapeState.Escapable (state : EscapeState) : Prop := ∃ input, (state.run input).Free

structure ControlSequence where
  start : InputContext
  bracket : InputContext
  parameters : List (InputContext × UInt8)
  last : InputContext
  final : UInt8
  parameterBytes : ∀ key ∈ parameters, 0x20 ≤ key.2 ∧ key.2 ≤ 0x3F
  finalByte : 0x40 ≤ final ∧ final ≤ 0x7E

def ControlSequence.keys (csi : ControlSequence) : List (InputContext × UInt8) :=
  (csi.start, 0x1B) :: (csi.bracket, byte '[') :: (csi.parameters ++ [(csi.last, csi.final)])

def ControlSequence.third (csi : ControlSequence) : InputContext := (csi.parameters.map Prod.fst).headD csi.last

def ControlSequence.Ends (csi : ControlSequence) (buffer : Bytes) : Prop :=
  buffer.length = 1 ∨
    buffer.length = 2 ∧ csi.start.wallActive ∨
    buffer = [] ∧ (csi.third.wallActive ∨ csi.parameters = [] ∧ isAlpha csi.final) ∨
    csi.final = byte '~' ∧ buffer.length + 2 + csi.parameters.length < escapeBufferLen

theorem free_iff (state : EscapeState) : state.Free ↔ state.active = false := by
  constructor
  · intro free
    exact free.1
  · intro active
    refine ⟨active, ?_⟩
    intro context ch other
    rw [EscapeState.consume, if_pos active, if_neg other]
    exact ⟨rfl, rfl⟩

theorem parameter_plain {ch : UInt8} (parameter : 0x20 ≤ ch ∧ ch ≤ 0x3F) :
    ch ≠ 0x1B ∧ ch ≠ byte '~' ∧ isAlpha ch = false := by
  obtain ⟨low, high⟩ := parameter
  have bounds : 32 ≤ ch.toNat ∧ ch.toNat ≤ 63 := ⟨low, high⟩
  refine ⟨?_, ?_, ?_⟩
  · rintro rfl
    exact absurd bounds (by decide)
  · rintro rfl
    exact absurd bounds (by decide)
  · simp only [isAlpha, UInt8.le_iff_toNat_le, UInt8.toNat_ofNat, decide_eq_false_iff_not]
    omega

variable (csi : ControlSequence) {state : EscapeState}

theorem final_plain : csi.final ≠ 0x1B := by
  intro same
  have low := csi.finalByte.1
  rw [same] at low
  exact absurd low (by decide)

theorem tail_idle (csi : ControlSequence) {state : EscapeState} (active : state.active = false)
    {tail : List (InputContext × UInt8)}
    (inside : tail <:+ (csi.bracket, byte '[') :: (csi.parameters ++ [(csi.last, csi.final)])) :
    (state.run tail).active = false := by
  rw [run_idle active]
  · exact active
  · intro key listed
    have whole := inside.subset listed
    simp only [mem_cons, mem_append, not_mem_nil, or_false] at whole
    rcases whole with rfl | parameter | rfl
    · exact (by decide : byte '[' ≠ 0x1B)
    · exact (parameter_plain (csi.parameterBytes key parameter)).1
    · exact final_plain csi

/-- The final byte behind a sequence of three bytes or more. -/
theorem final_long {rest : Bytes} (shape : OpenSequence state rest) (some' : rest ≠ [])
    {input : List (InputContext × UInt8)} (noTilde : ∀ key ∈ input, key.2 ≠ byte '~') :
    (state.run (input ++ [(csi.last, csi.final)])).active = false ↔
      csi.final = byte '~' ∧ rest.length + 2 + input.length < escapeBufferLen := by
  obtain ⟨grown, shape', more, length⟩ := run_grows shape some' noTilde
  have ends : endsOpen csi.last csi.final grown ↔
      csi.final = byte '~' ∧ rest.length + 2 + input.length < escapeBufferLen := by
    simp only [endsOpen, more, false_and, or_false, decide_eq_true_eq]
    constructor
    · rintro ⟨room, tilde⟩
      exact ⟨tilde, by omega⟩
    · rintro ⟨tilde, room⟩
      exact ⟨by omega, tilde⟩
  obtain ⟨done, open'⟩ := consume_sequence shape' csi.last csi.final
  rw [run_append, ← ends]
  show ((EscapeState.run state input).consume csi.last csi.final).state.active = false ↔ _
  constructor
  · intro idle
    by_contra still
    rw [(open' (by simpa using still)).active] at idle
    cases idle
  · intro over'
    exact (done over').1

theorem parameters_ends (shape : OpenSequence state []) :
    (state.run (csi.parameters ++ [(csi.last, csi.final)])).active = false ↔
      (csi.third.wallActive ∨ csi.parameters = [] ∧ isAlpha csi.final) ∨
        csi.final = byte '~' ∧ 2 + csi.parameters.length < escapeBufferLen := by
  have plain := fun key listed => parameter_plain (csi.parameterBytes key listed)
  cases parameters : csi.parameters with
  | nil =>
    have third : csi.third = csi.last := by rw [ControlSequence.third, parameters]; rfl
    obtain ⟨done, open'⟩ := consume_sequence shape csi.last csi.final
    have ends : endsOpen csi.last csi.final [] ↔
        (csi.last.wallActive ∨ isAlpha csi.final) ∨ csi.final = byte '~' := by
      simp [endsOpen, escapeBufferLen]
      tauto
    rw [third]
    show (state.consume csi.last csi.final).state.active = false ↔ _
    constructor
    · intro idle
      have over' : endsOpen csi.last csi.final [] := by
        by_contra still
        rw [(open' (by simpa using still)).active] at idle
        cases idle
      rcases ends.mp over' with (wall | letter) | tilde
      · exact .inl (.inl wall)
      · exact .inl (.inr ⟨rfl, letter⟩)
      · exact .inr ⟨tilde, by decide⟩
    · intro condition
      apply (done _).1
      tauto
  | cons key parameters' =>
    have third : csi.third = key.1 := by rw [ControlSequence.third, parameters]; rfl
    rw [parameters] at plain
    obtain ⟨noEscape, noTilde, noAlpha⟩ := plain key (by simp)
    obtain ⟨done, open'⟩ := consume_sequence shape key.1 key.2
    have ends : endsOpen key.1 key.2 [] = key.1.wallActive := by
      simp [endsOpen, escapeBufferLen, noTilde, noAlpha]
    have grown : grow key.2 [] = [key.2] := rfl
    rw [third, cons_append, run_cons]
    cases wall : key.1.wallActive with
    | true =>
      have inside : parameters' ++ [(csi.last, csi.final)] <:+
          (csi.bracket, byte '[') :: (csi.parameters ++ [(csi.last, csi.final)]) := by
        rw [parameters]
        exact ⟨[(csi.bracket, byte '['), key], rfl⟩
      simp [tail_idle csi (done (ends.trans wall)).1 inside]
    | false =>
      have shape' := open' (ends.trans wall)
      rw [grown] at shape'
      rw [final_long csi shape' (by simp) (fun key' listed => (plain key' (mem_cons_of_mem _ listed)).2.1)]
      simp only [length_cons, length_nil, reduceCtorEq, false_and, false_or]
      rw [show 0 + 1 + 2 + parameters'.length = 2 + (parameters'.length + 1) by omega]

/-- What a control sequence makes of every state. -/
theorem keys_active (reachable : state.Reachable) : (state.run csi.keys).active = false ↔ csi.Ends state.buffer := by
  rw [ControlSequence.keys, ControlSequence.Ends, run_cons]
  cases reachable with
  | idle active buffer =>
    obtain ⟨_, _, paste⟩ := state
    obtain rfl : _ = false := active
    obtain rfl : _ = [] := buffer
    have opened : OpenSequence (EscapeState.consume ⟨true, [0x1B], paste⟩ csi.bracket (byte '[')).state [] := by
      exact ⟨rfl, rfl, by simp, by decide⟩
    rw [consume_start, run_cons, parameters_ends csi opened]
    simp
  | escape active buffer =>
    obtain ⟨_, _, paste⟩ := state
    obtain rfl : _ := active
    obtain rfl : _ = [0x1B] := buffer
    have rested : (⟨false, [], paste⟩ : EscapeState).active = false := rfl
    have idle := tail_idle csi rested (suffix_refl _)
    rw [consume_second, if_neg (by decide : (0x1B : UInt8) ≠ byte '[')]
    simp [idle]
  | @sequence rest shape =>
    have noTilde : ∀ key ∈ (csi.bracket, byte '[') :: csi.parameters, key.2 ≠ byte '~' := by
      intro key listed
      rcases mem_cons.mp listed with rfl | listed
      · exact (by decide : byte '[' ≠ byte '~')
      · exact (parameter_plain (csi.parameterBytes key listed)).2.1
    have length : state.buffer.length = rest.length + 2 := by rw [shape.buffer]; rfl
    obtain ⟨done, open'⟩ := consume_sequence shape csi.start 0x1B
    have ends : endsOpen csi.start 0x1B rest ↔ rest = [] ∧ csi.start.wallActive := by
      have noAlpha : isAlpha 0x1B = false := by decide
      have other : (0x1B : UInt8) ≠ byte '~' := by decide
      simp only [endsOpen, noAlpha, other, false_or, or_false, Bool.false_eq_true, decide_eq_true_eq]
      constructor
      · exact fun condition => condition.2
      · rintro ⟨rfl, wall⟩
        exact ⟨by decide, rfl, wall⟩
    have two : state.buffer.length = 2 ↔ rest = [] := by rw [length, Nat.add_eq_right, length_eq_zero_iff]
    rw [two]
    by_cases cancelled : rest = [] ∧ csi.start.wallActive
    · simp [tail_idle csi (done (ends.mpr cancelled)).1 (suffix_refl _), cancelled]
    · have shape' := open' (by simpa using (not_congr ends).mpr cancelled)
      have long : grow 0x1B rest ≠ [] := by
        rw [grow]
        split_ifs with room
        · simp
        · rintro rfl
          exact room (by decide)
      have size : (grow 0x1B rest).length =
          if rest.length + 2 < escapeBufferLen then rest.length + 1 else rest.length := by
        rw [grow]
        split_ifs <;> simp
      rw [← cons_append, final_long csi shape' long noTilde]
      simp only [size]
      split_ifs <;> grind

/-- A session without a game, a bulletin or a wall. -/
def plainContext : InputContext := ⟨false, false, false, false, false, false, false, false, false⟩

/-- A session that awaits more bytes can be left unless its buffer is full. -/
theorem escapable_iff (reachable : state.Reachable) :
    state.Escapable ↔ state.active = false ∨ state.buffer.length < escapeBufferLen := by
  constructor
  · rintro ⟨input, free⟩
    cases reachable with
    | idle active => exact .inl active
    | escape active buffer => exact .inr (by rw [buffer]; decide)
    | @sequence rest shape =>
      have length : state.buffer.length = rest.length + 2 := by rw [shape.buffer]; rfl
      by_contra stuck
      have fits := shape.fits
      have full := run_full shape (by rw [← length]; omega) input
      have active := full.active
      rw [free.1] at active
      cases active
  · intro room
    cases reachable with
    | idle active => exact ⟨[], (free_iff state).mpr active⟩
    | escape active buffer =>
      obtain ⟨_, _, paste⟩ := state
      obtain rfl : _ := active
      obtain rfl : _ = [0x1B] := buffer
      refine ⟨[(plainContext, 0x1B)], (free_iff _).mpr ?_⟩
      rfl
    | @sequence rest shape =>
      have length : state.buffer.length = rest.length + 2 := by rw [shape.buffer]; rfl
      rw [shape.active, length] at room
      have space : rest.length + 2 < escapeBufferLen := room.resolve_left (by simp)
      have tilde := ((consume_sequence shape plainContext (byte '~')).1 (by simp [endsOpen, space])).1
      exact ⟨[(plainContext, byte '~')], (free_iff _).mpr tilde⟩

/-- Behind every history a control sequence frees the session exactly when it ends in one of the four ways, and
a session that awaits more bytes can be left exactly while its buffer has room. -/
theorem control_sequence_ends (history : List (InputContext × UInt8)) (csi : ControlSequence) :
    let state := EscapeState.idle.run history
    ((state.run csi.keys).Free ∧ state.Escapable ↔ csi.Ends state.buffer) ∧
      (state.Escapable ↔ state.active = false ∨ state.buffer.length < escapeBufferLen) := by
  intro state
  have reachable : state.Reachable := run_reachable (.idle rfl rfl) history
  refine ⟨?_, escapable_iff reachable⟩
  rw [free_iff, keys_active csi reachable]
  constructor
  · intro both
    exact both.1
  · intro ends
    exact ⟨ends, csi.keys, (free_iff _).mpr ((keys_active csi reachable).mpr ends)⟩

/-- The arrow up with the control key: `ESC [ 1 ; 5 A`. -/
def controlUp : ControlSequence where
  start := plainContext
  bracket := plainContext
  parameters := [(plainContext, byte '1'), (plainContext, byte ';'), (plainContext, byte '5')]
  last := plainContext
  final := byte 'A'
  parameterBytes := by decide
  finalByte := by decide

/-- The control key keeps the arrow from being read, and behind 62 bytes without a tilde nothing is read again. -/
theorem control_sequence_stuck :
    ¬ (∀ (history : List (InputContext × UInt8)) (csi : ControlSequence),
        ((EscapeState.idle.run history).run csi.keys).active = false) ∧
      ¬ (∀ history : List (InputContext × UInt8), (EscapeState.idle.run history).Escapable) := by
  constructor
  · intro claimed
    exact absurd (claimed [] controlUp) (by decide)
  · intro claimed
    have history := claimed ((plainContext, 0x1B) :: (plainContext, byte '[') ::
      replicate 62 (plainContext, byte '0'))
    rw [escapable_iff (run_reachable (.idle rfl rfl) _)] at history
    exact absurd history (by decide +kernel)

end ControlSequences

end SshChatter.Input
