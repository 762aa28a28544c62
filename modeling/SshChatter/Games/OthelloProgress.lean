import SshChatter.Lib.EventRun
import SshChatter.Games.Othello

namespace SshChatter.Othello
open CString EventRun

def step (game : Match) (event : Event) : Match := (handle game event).1

def Ongoing (slot : Slot) : Prop := slot.active ∧ slot.state.gameOver = false

instance (slot : Slot) : Decidable (Ongoing slot) := inferInstanceAs (Decidable (_ ∧ _))

def turnColour (state : GameState) : Colour := if state.playerTurn then .red else .green

def OnTurn (slot : Slot) (who : Nat) : Prop := playerIndex slot who = some (turnColour slot.state)

/-- The line gives up the game. -/
def Resigns (text : Bytes) : Prop := normalize text = str "resign" ∨ normalize text = str "quit"

def NamesMove (state : GameState) (text : Bytes) : Prop :=
  Legal state.board (turnColour state) (coordinates (normalize text)).1 (coordinates (normalize text)).2

/-- What holds of the match while the game is played. -/
structure Invariant (game : Match) : Prop where
  inUse : Ongoing game.slot → game.slot.inUse
  canMove : Ongoing game.slot → CanMove game.slot.state.board (turnColour game.slot.state)
  passes : Ongoing game.slot → game.slot.state.consecutivePasses ≤ 1
  idle : Ongoing game.slot → game.finishing = []

section Frame

variable (game : Match) (who : Nat) (player : Option Nat) (players : Colour → Option Nat) (slotIndex : Int)
  (awaiting : Bool)

@[simp] theorem suspend_frame : (suspend game who).slot = game.slot ∧
    (suspend game who).finishing = game.finishing ∧ (suspend game who).dead = game.dead := by
  unfold suspend
  dsimp only
  split <;> exact ⟨rfl, rfl, rfl⟩

@[simp] theorem syncPlayer_frame : (syncPlayer game player slotIndex awaiting).slot = game.slot ∧
    (syncPlayer game player slotIndex awaiting).finishing = game.finishing := by
  unfold syncPlayer
  split
  · exact ⟨rfl, rfl⟩
  · split <;> exact ⟨rfl, rfl⟩

@[simp] theorem syncPlayers_frame : (syncPlayers game players slotIndex).slot = game.slot ∧
    (syncPlayers game players slotIndex).finishing = game.finishing := by
  simp [syncPlayers]

@[simp] theorem finishPlayer_slot : (finishPlayer game player).slot = game.slot := by
  unfold finishPlayer
  split <;> simp

theorem finishMultiplayer_slot :
    (finishMultiplayer game).slot = if game.slot.inUse = false then game.slot else releaseSlot game.slot := by
  unfold finishMultiplayer
  split <;> simp

end Frame

section Turn

variable {game : Match} {who : Nat} {own : OwnState} {player : Colour} {state : GameState}

theorem myTurn_iff : myTurn state player ↔ player = turnColour state := by
  cases player <;> simp [myTurn, turnColour]

theorem turnColour_giveTurn : turnColour (giveTurn state player) = player := by
  cases player <;> simp [turnColour, giveTurn]

theorem placePiece_board (row col : Int) :
    (placePiece state player row col).board = applyMove state.board row col player := by
  cases player <;> rfl

theorem placePiece_gameOver (row col : Int) : (placePiece state player row col).gameOver = state.gameOver := by
  cases player <;> rfl

/-- The turn goes to a player who can move, or the game is over because nobody can. -/
theorem settleTurn_spec (state : GameState) (player : Colour) (running : state.gameOver = false)
    (fresh : state.consecutivePasses = 0) :
    (settleTurn state player).1.board = state.board ∧
    (settleTurn state player).1.consecutivePasses ≤ 1 ∧
    (settleTurn state player).2 = (settleTurn state player).1.gameOver ∧
    ((settleTurn state player).1.gameOver = false → CanMove state.board (turnColour (settleTurn state player).1)) ∧
    ((settleTurn state player).1.gameOver ↔ ¬CanMove state.board .red ∧ ¬CanMove state.board .green) := by
  have both : (¬CanMove state.board .red ∧ ¬CanMove state.board .green) ↔
      ¬CanMove state.board player.opponent ∧ ¬CanMove state.board player := by
    cases player
    · exact and_comm
    · exact Iff.rfl
  rw [both]
  by_cases answer : CanMove state.board player.opponent
  · rw [settleTurn, if_neg fun none => collectMoves_length_eq_zero.mp none answer, turnColour_giveTurn]
    simp [giveTurn, answer, running, fresh]
  · rw [settleTurn, if_pos (collectMoves_length_eq_zero.mpr answer)]
    by_cases again : CanMove state.board player
    · have goesOn : ¬(2 ≤ state.consecutivePasses + 1 ∨ (collectMoves state.board player).length = 0) := by
        rw [collectMoves_length_eq_zero, fresh]
        simp [again]
      rw [if_neg goesOn, turnColour_giveTurn]
      simp [giveTurn, again, running, fresh]
    · rw [if_pos (.inr (collectMoves_length_eq_zero.mpr again))]
      simp [GameState.scored, answer, again, fresh]

/-- The slot and the handlers under way stay as they are. -/
def Refused (game : Match) (result : Match × Reply) : Prop :=
  result.1.slot = game.slot ∧ result.1.finishing = game.finishing ∧ result.2 ≠ .placed ∧ result.2 ≠ .resigned

theorem refused_suspend {reply : Reply} (other : reply ≠ .placed ∧ reply ≠ .resigned) :
    Refused game (suspend game who, reply) := by
  obtain ⟨slot, finishing, -⟩ := suspend_frame game who
  exact ⟨slot, finishing, other⟩

theorem refused_of_same {later : Match} {reply : Reply} (slot : later.slot = game.slot)
    (finishing : later.finishing = game.finishing) (other : reply ≠ .placed ∧ reply ≠ .resigned) :
    Refused game (later, reply) := ⟨slot, finishing, other⟩

def GaveUp (game : Match) (result : Match × Reply) : Prop :=
  result.1.slot = { game.slot with state := { game.slot.state.scored with gameOver := true } } ∧ result.2 = .resigned

def Placed (game : Match) (player : Colour) (row col : Int) (result : Match × Reply) : Prop :=
  result.1.slot = { game.slot with state := (settleTurn (placePiece game.slot.state player row col) player).1 } ∧
  ((settleTurn (placePiece game.slot.state player row col) player).2 = false →
    result.1.finishing = game.finishing) ∧ result.2 = .placed

theorem playTurn_cases (canMove : CanMove game.slot.state.board player) (who : Nat) (working : Bytes) :
    Refused game (playTurn game who player working) ∨
    (working = str "resign" ∨ working = str "quit") ∧ GaveUp game (playTurn game who player working) ∨
    Legal game.slot.state.board player (coordinates working).1 (coordinates working).2 ∧
      Placed game player (coordinates working).1 (coordinates working).2 (playTurn game who player working) := by
  rw [playTurn]
  by_cases pass : working = str "pass"
  · rw [if_pos pass, if_pos (collectMoves_length_pos.mpr canMove)]
    exact .inl (refused_of_same rfl rfl (by decide))
  · rw [if_neg pass]
    by_cases gives : working = str "resign" ∨ working = str "quit"
    · rw [if_pos gives]
      exact .inr (.inl ⟨gives, rfl, rfl⟩)
    · rw [if_neg gives]
      by_cases outside : inBounds (coordinates working).1 (coordinates working).2 = false
      · rw [if_pos outside]
        exact .inl (refused_of_same rfl rfl (by decide))
      · rw [if_neg outside]
        by_cases illegal : countFlips game.slot.state.board (coordinates working).1 (coordinates working).2 player = 0
        · rw [if_pos illegal]
          exact .inl (refused_of_same rfl rfl (by decide))
        · rw [if_neg illegal]
          refine .inr (.inr ⟨pos_of_ne_zero illegal, ?_, ?_, rfl⟩)
          · dsimp only
            split_ifs <;> rfl
          · intro goesOn
            simp only [goesOn]
            rfl

theorem handleLineMultiplayer_cases (invariant : Invariant game) (ongoing : Ongoing game.slot) (who : Nat)
    (own : OwnState) (working : Bytes) :
    Refused game (handleLineMultiplayer game who own working) ∨
    OnTurn game.slot who ∧
      ((working = str "resign" ∨ working = str "quit") ∧ GaveUp game (handleLineMultiplayer game who own working) ∨
      Legal game.slot.state.board (turnColour game.slot.state) (coordinates working).1 (coordinates working).2 ∧
        Placed game (turnColour game.slot.state) (coordinates working).1 (coordinates working).2
          (handleLineMultiplayer game who own working)) := by
  rw [handleLineMultiplayer]
  by_cases waiting : own.awaitingOpponent
  · rw [if_pos waiting]
    by_cases leaves : working = str "quit" ∨ working = str "resign" ∨ working = str "exit"
    · have kept : ¬(0 < own.slotIndex ∧ own.slotIndex = game.slot.slotId ∧ game.slot.inUse ∧
          game.slot.active = false ∧ game.slot.players .red = some who) :=
        fun idle => Bool.noConfusion (ongoing.1.symm.trans idle.2.2.2.1)
      rw [if_pos leaves]
      rw [if_neg kept]
      exact .inl (refused_suspend (by decide))
    · rw [if_neg leaves]
      exact .inl (refused_of_same rfl rfl (by decide))
  · rw [if_neg waiting]
    by_cases detached : own.slotIndex ≤ 0
    · rw [if_pos detached]
      exact .inl (refused_suspend (by decide))
    · rw [if_neg detached]
      by_cases other : own.slotIndex ≠ game.slot.slotId ∨ game.slot.inUse = false
      · rw [if_pos other]
        exact .inl (refused_suspend (by decide))
      · rw [if_neg other]
        cases seat : playerIndex game.slot who with
        | none => exact .inl (refused_suspend (by decide))
        | some player =>
          by_cases turn : player = turnColour game.slot.state
          · simp only [ongoing.1, ongoing.2, myTurn_iff.mpr turn]
            rw [turn] at seat ⊢
            rcases playTurn_cases (invariant.canMove ongoing) who working with refused | changed
            · exact .inl refused
            · exact .inr ⟨seat, changed⟩
          · have wait : myTurn game.slot.state player = false := by
              rw [Bool.eq_false_iff, ne_eq, myTurn_iff]
              exact turn
            simp only [ongoing.1, ongoing.2, wait]
            exact .inl (refused_of_same rfl rfl (by decide))

/-- What a line can do: nothing, suspend its session, read a null state, choose the game against the computer, or reach
the multiplayer game. -/
theorem processLine_eq (game : Match) (who : Nat) (text : Bytes) :
    processLine game who text = (game, .nothing) ∨ processLine game who text = (suspend game who, .nothing) ∨
    ((game.sessions who).othelloGame ∧ (game.sessions who).othello = none ∧
      processLine game who text = (game.die, .nothing)) ∨
    (∃ own, processLine game who text = (game.setSession who ⟨true, true, some own⟩, .nothing)) ∨
    ∃ own, processLine game who text = handleLineMultiplayer game who own (normalize text) := by
  generalize computed : processLine game who text = result
  unfold processLine handleLine at computed
  dsimp only at computed
  split at computed
  · exact .inl computed.symm
  split at computed
  · exact .inr (.inl computed.symm)
  split at computed
  · exact .inl computed.symm
  split at computed
  · exact .inl computed.symm
  split at computed
  · exact .inl computed.symm
  next othelloGame =>
    split at computed
    · exact .inl computed.symm
    split at computed
    · exact .inl computed.symm
    split at computed
    next missing => exact .inr (.inr (.inl ⟨by simpa using othelloGame, missing, computed.symm⟩))
    next own _ =>
      split at computed
      · split at computed
        · exact .inr (.inr (.inr (.inl ⟨_, computed.symm⟩)))
        split at computed
        · exact .inr (.inl computed.symm)
        · exact .inl computed.symm
      split at computed
      · exact .inl computed.symm
      split at computed
      · exact .inr (.inr (.inr (.inr ⟨own, computed.symm⟩)))
      · exact .inl computed.symm

/-- A line reaches the multiplayer game, or the slot and the handlers under way stay as they are. -/
theorem processLine_read (game : Match) (who : Nat) (text : Bytes) :
    (∃ own, processLine game who text = handleLineMultiplayer game who own (normalize text)) ∨
    (processLine game who text).1.slot = game.slot ∧ (processLine game who text).1.finishing = game.finishing ∧
      (processLine game who text).2 = .nothing := by
  rcases processLine_eq game who text with same | left | ⟨-, -, died⟩ | ⟨own, chosen⟩ | played
  · rw [same]
    exact .inr ⟨rfl, rfl, rfl⟩
  · obtain ⟨slot, finishing, -⟩ := suspend_frame game who
    rw [left]
    exact .inr ⟨slot, finishing, rfl⟩
  · rw [died]
    exact .inr ⟨rfl, rfl, rfl⟩
  · rw [chosen]
    exact .inr ⟨rfl, rfl, rfl⟩
  · exact .inl played

theorem processLine_cases (invariant : Invariant game) (ongoing : Ongoing game.slot) (who : Nat) (text : Bytes) :
    Refused game (processLine game who text) ∨
    OnTurn game.slot who ∧ (Resigns text ∧ GaveUp game (processLine game who text) ∨
      NamesMove game.slot.state text ∧ Placed game (turnColour game.slot.state) (coordinates (normalize text)).1
        (coordinates (normalize text)).2 (processLine game who text)) := by
  rcases processLine_read game who text with ⟨own, played⟩ | ⟨slot, finishing, reply⟩
  · rw [played]
    exact handleLineMultiplayer_cases invariant ongoing who own (normalize text)
  · refine .inl ⟨slot, finishing, ?_⟩
    rw [reply]
    exact ⟨Reply.noConfusion, Reply.noConfusion⟩

/-- Everything that an event can do while the game is played. -/
theorem act_cases (invariant : Invariant game) (ongoing : Ongoing game.slot) (event : Event) :
    Refused game (act game event) ∨ GaveUp game (act game event) ∨
    ∃ row col, Legal game.slot.state.board (turnColour game.slot.state) row col ∧
      Placed game (turnColour game.slot.state) row col (act game event) := by
  have idle := invariant.idle ongoing
  cases event with
  | line who text =>
    rw [act]
    by_cases busy : game.busy who
    · rw [if_pos busy]
      exact .inl (refused_of_same rfl rfl (by decide))
    rw [if_neg busy]
    rcases processLine_cases invariant ongoing who text with refused | ⟨-, ⟨-, gaveUp⟩ | ⟨legal, placed⟩⟩
    · exact .inl refused
    · exact .inr (.inl gaveUp)
    · exact .inr (.inr ⟨_, _, legal, placed⟩)
  | forcedExit who =>
    rw [act, handleForcedExit]
    cases (game.sessions who).othello with
    | none =>
      split_ifs
      · exact .inl (refused_of_same rfl rfl (by decide))
      · exact .inl (refused_of_same rfl rfl (by decide))
      · exact .inl (refused_suspend (by decide))
    | some =>
      dsimp only
      split_ifs
      · exact .inl (refused_of_same rfl rfl (by decide))
      · exact .inl (refused_of_same rfl rfl (by decide))
      · exact .inl (refused_suspend (by decide))
      · exact .inr (.inl ⟨rfl, rfl⟩)
  | finish =>
    rw [act, idle]
    exact .inl (refused_of_same rfl rfl (by decide))
  | sync who =>
    rw [act]
    cases game.syncing.find? (·.who = who) with
    | none => exact .inl (refused_of_same rfl rfl (by decide))
    | some entry =>
      obtain ⟨slot, finishing⟩ := syncPlayers_frame
        { game with syncing := game.syncing.filter (·.who ≠ who) } entry.players entry.slotIndex
      exact .inl (refused_of_same slot finishing (by decide))
  | start =>
    rw [act, startOthello]
    split_ifs <;> exact .inl (refused_of_same rfl rfl (by decide))
  | allocate =>
    rw [act, allocateSlot, invariant.inUse ongoing]
    exact .inl (refused_of_same rfl rfl (by decide))

theorem handle_cases (invariant : Invariant game) (ongoing : Ongoing game.slot) (event : Event) :
    Refused game (handle game event) ∨ GaveUp game (handle game event) ∨
    ∃ row col, Legal game.slot.state.board (turnColour game.slot.state) row col ∧
      Placed game (turnColour game.slot.state) row col (handle game event) := by
  rw [handle]
  split_ifs
  · exact .inl (refused_of_same rfl rfl (by decide))
  · exact act_cases invariant ongoing event

/-- A game that is not played is not taken up again. -/
def StaysOver (result : Match × Reply) : Prop := ¬Ongoing result.1.slot ∧ result.2 ≠ .placed

theorem staysOver_of_same {later : Match} {reply : Reply} (ended : ¬Ongoing game.slot) (slot : later.slot = game.slot)
    (other : reply ≠ .placed) : StaysOver (later, reply) := ⟨slot ▸ ended, other⟩

theorem staysOver_suspend {reply : Reply} (ended : ¬Ongoing game.slot) (other : reply ≠ .placed) :
    StaysOver (suspend game who, reply) := by
  obtain ⟨slot, -⟩ := suspend_frame game who
  exact staysOver_of_same ended slot other

theorem handleLineMultiplayer_over (ended : ¬Ongoing game.slot) (who : Nat) (own : OwnState) (working : Bytes) :
    StaysOver (handleLineMultiplayer game who own working) := by
  rw [handleLineMultiplayer]
  by_cases waiting : own.awaitingOpponent
  · rw [if_pos waiting]
    by_cases leaves : working = str "quit" ∨ working = str "resign" ∨ working = str "exit"
    · rw [if_pos leaves]
      refine staysOver_suspend ?_ Reply.noConfusion
      split_ifs
      · exact fun ongoing => Bool.false_ne_true ongoing.1
      · exact ended
    · rw [if_neg leaves]
      exact staysOver_of_same ended rfl (by decide)
  · rw [if_neg waiting]
    by_cases detached : own.slotIndex ≤ 0
    · rw [if_pos detached]
      exact staysOver_suspend ended (by decide)
    · rw [if_neg detached]
      by_cases other : own.slotIndex ≠ game.slot.slotId ∨ game.slot.inUse = false
      · rw [if_pos other]
        exact staysOver_suspend ended (by decide)
      · rw [if_neg other]
        cases playerIndex game.slot who with
        | none => exact staysOver_suspend ended (by decide)
        | some =>
          by_cases active : game.slot.active = false
          · simp only [active]
            exact staysOver_of_same ended rfl (by decide)
          · have finished : game.slot.state.gameOver := by
              by_contra running
              exact ended ⟨by simpa using active, by simpa using running⟩
            simp only [active, finished]
            exact staysOver_of_same ended rfl (by decide)

theorem handleForcedExit_over (ended : ¬Ongoing game.slot) (who : Nat) : StaysOver (handleForcedExit game who) := by
  rw [handleForcedExit]
  cases (game.sessions who).othello with
  | none =>
    split_ifs
    · exact staysOver_of_same ended rfl (by decide)
    · exact staysOver_suspend ended (by decide)
  | some =>
    dsimp only
    split_ifs
    · exact staysOver_of_same ended rfl (by decide)
    · exact staysOver_suspend ended (by decide)
    · exact ⟨fun ongoing => Bool.false_ne_true ongoing.2.symm, Reply.noConfusion⟩

theorem allocateSlot_over (ended : ¬Ongoing game.slot) (who : Nat) : ¬Ongoing (allocateSlot game who).slot := by
  rw [allocateSlot]
  cases (game.sessions who).othello with
  | none =>
    split_ifs
    · exact ended
    · exact ended
    · exact fun ongoing => Bool.false_ne_true ongoing.1
  | some =>
    dsimp only
    split_ifs
    · exact ended
    · exact ended
    · exact fun ongoing => Bool.false_ne_true ongoing.1

theorem act_over (ended : ¬Ongoing game.slot) (event : Event) : StaysOver (act game event) := by
  cases event with
  | line who text =>
    rw [act]
    split_ifs
    · exact staysOver_of_same ended rfl (by decide)
    · rcases processLine_read game who text with ⟨own, played⟩ | ⟨slot, -, reply⟩
      · rw [played]
        exact handleLineMultiplayer_over ended who own (normalize text)
      · rw [StaysOver, slot, reply]
        exact ⟨ended, Reply.noConfusion⟩
  | forcedExit who =>
    rw [act]
    split_ifs
    · exact staysOver_of_same ended rfl (by decide)
    · exact handleForcedExit_over ended who
  | finish =>
    rw [act]
    split_ifs
    · refine ⟨?_, Reply.noConfusion⟩
      rw [finishMultiplayer_slot]
      split_ifs
      · exact ended
      · exact fun ongoing => Bool.false_ne_true ongoing.1
    · exact staysOver_of_same ended rfl (by decide)
  | sync who =>
    rw [act]
    cases game.syncing.find? (·.who = who) with
    | none => exact staysOver_of_same ended rfl (by decide)
    | some => exact staysOver_of_same ended (syncPlayers_frame _ _ _).1 (by decide)
  | start =>
    rw [act, startOthello]
    split_ifs <;> exact staysOver_of_same ended rfl (by decide)
  | allocate who => exact ⟨allocateSlot_over ended who, Reply.noConfusion⟩

theorem handle_over (ended : ¬Ongoing game.slot) (event : Event) : StaysOver (handle game event) := by
  rw [handle]
  split_ifs
  · exact staysOver_of_same ended rfl (by decide)
  · exact act_over ended event

theorem invariant_step (invariant : Invariant game) (event : Event) : Invariant (step game event) := by
  by_cases ongoing : Ongoing game.slot
  · rcases handle_cases invariant ongoing event with ⟨slot, finishing, -⟩ | ⟨slot, -⟩ |
      ⟨row, col, -, slot, finishing, -⟩
    · rw [← step] at slot finishing
      constructor <;> rw [slot] <;> intro running
      · exact invariant.inUse running
      · exact invariant.canMove running
      · exact invariant.passes running
      · rw [finishing, invariant.idle running]
    · rw [← step] at slot
      constructor <;> rw [slot] <;> intro running <;> exact absurd running.2 Bool.true_eq_false.mp
    · obtain ⟨board, passes, finished, canMove, -⟩ :=
        settleTurn_spec (placePiece game.slot.state (turnColour game.slot.state) row col)
          (turnColour game.slot.state) (by rw [placePiece_gameOver, ongoing.2]) rfl
      rw [← step] at slot finishing
      constructor <;> rw [slot] <;> intro running
      · exact invariant.inUse ongoing
      · rw [board]
        exact canMove running.2
      · exact passes
      · rw [finishing (finished.trans running.2), invariant.idle ongoing]
  · have ended := (handle_over ongoing event).1
    constructor <;> intro running <;> exact absurd running ended

/-- The number of moves that the board has room for. -/
def rank (game : Match) : Nat := if Ongoing game.slot then 64 - discs game.slot.state.board else 0

theorem rank_placed (invariant : Invariant game) (event : Event) (placed : (handle game event).2 = .placed) :
    Ongoing game.slot ∧ discs game.slot.state.board < discs (step game event).slot.state.board := by
  by_cases ongoing : Ongoing game.slot
  · refine ⟨ongoing, ?_⟩
    rcases handle_cases invariant ongoing event with ⟨-, -, other, -⟩ | ⟨-, resigned⟩ | ⟨row, col, legal, slot, -⟩
    · exact absurd placed other
    · exact absurd (placed.symm.trans resigned) Reply.noConfusion
    · obtain ⟨board, -⟩ := settleTurn_spec (placePiece game.slot.state (turnColour game.slot.state) row col)
        (turnColour game.slot.state) (by rw [placePiece_gameOver, ongoing.2]) rfl
      rw [step, slot, board, placePiece_board]
      exact discs_applyMove legal
  · exact absurd placed (handle_over ongoing event).2

theorem rank_lt (invariant : Invariant game) (event : Event) (placed : (handle game event).2 = .placed) :
    rank (step game event) < rank game := by
  obtain ⟨ongoing, more⟩ := rank_placed invariant event placed
  have room := discs_le (step game event).slot.state.board
  rw [rank, rank]
  split_ifs <;> omega

theorem rank_le (invariant : Invariant game) (event : Event) : rank (step game event) ≤ rank game := by
  by_cases placed : (handle game event).2 = .placed
  · exact (rank_lt invariant event placed).le
  · by_cases ongoing : Ongoing game.slot
    · rcases handle_cases invariant ongoing event with ⟨slot, -⟩ | ⟨slot, -⟩ | ⟨row, col, -, -, -, reply⟩
      · rw [rank, rank, step, slot]
      · rw [rank, step, slot, if_neg fun running => Bool.noConfusion running.2]
        exact Nat.zero_le _
      · exact absurd reply placed
    · rw [rank, step, if_neg (handle_over ongoing event).1]
      exact Nat.zero_le _

end Turn

/-- What a game in play promises. -/
structure Progress (game : Match) : Prop where
  canMove : CanMove game.slot.state.board (turnColour game.slot.state)
  passes : game.slot.state.consecutivePasses ≤ 1
  refused : ∀ who text, ¬(OnTurn game.slot who ∧ (Resigns text ∨ NamesMove game.slot.state text)) →
    (step game (.line who text)).slot = game.slot
  noPass : ∀ who text, normalize text = str "pass" → (step game (.line who text)).slot = game.slot
  grows : ∀ event, (handle game event).2 = .placed →
    discs game.slot.state.board < discs (step game event).slot.state.board
  ends : ∀ event, ¬Ongoing (step game event).slot ↔ (handle game event).2 = .resigned ∨
    ¬CanMove (step game event).slot.state.board .red ∧ ¬CanMove (step game event).slot.state.board .green

section Game

variable {game : Match}

/-- A line without effect. -/
theorem step_refused (invariant : Invariant game) (ongoing : Ongoing game.slot) {who : Nat} {text : Bytes}
    (idle : ¬(OnTurn game.slot who ∧ (Resigns text ∨ NamesMove game.slot.state text))) :
    (step game (.line who text)).slot = game.slot := by
  rw [step, handle]
  split_ifs
  · rfl
  rw [act]
  split_ifs
  · rfl
  rcases processLine_cases invariant ongoing who text with refused | ⟨turn, ⟨resigns, -⟩ | ⟨names, -⟩⟩
  · exact refused.1
  · exact absurd ⟨turn, .inl resigns⟩ idle
  · exact absurd ⟨turn, .inr names⟩ idle

/-- The word `pass` neither gives up nor names a cell. -/
theorem pass_idle {state : GameState} {text : Bytes} (pass : normalize text = str "pass") :
    ¬(Resigns text ∨ NamesMove state text) := by
  rw [Resigns, NamesMove, pass]
  rintro (resigns | names)
  · exact absurd resigns (by decide)
  · exact absurd (legal_spec names).1 (by decide)

theorem step_ends (invariant : Invariant game) (ongoing : Ongoing game.slot) (event : Event) :
    ¬Ongoing (step game event).slot ↔ (handle game event).2 = .resigned ∨
      ¬CanMove (step game event).slot.state.board .red ∧ ¬CanMove (step game event).slot.state.board .green := by
  have canMove := invariant.canMove ongoing
  rcases handle_cases invariant ongoing event with ⟨slot, -, -, other⟩ | ⟨slot, resigned⟩ |
    ⟨row, col, -, slot, -, placed⟩
  · rw [step, slot]
    have someone : ¬(¬CanMove game.slot.state.board .red ∧ ¬CanMove game.slot.state.board .green) := by
      rintro ⟨red, green⟩
      cases turn : turnColour game.slot.state with
      | red => exact red (turn ▸ canMove)
      | green => exact green (turn ▸ canMove)
    simp only [ongoing, other, someone, not_true_eq_false, or_self]
  · rw [step, slot]
    simp only [resigned, true_or, iff_true]
    exact fun running => Bool.noConfusion running.2
  · obtain ⟨board, -, -, -, ends⟩ := settleTurn_spec (placePiece game.slot.state (turnColour game.slot.state) row col)
      (turnColour game.slot.state) (by rw [placePiece_gameOver, ongoing.2]) rfl
    have kept : (handle game event).2 ≠ .resigned := by
      rw [placed]
      exact Reply.noConfusion
    rw [step, slot, board, ← ends]
    simp only [kept, false_or, Ongoing, ongoing.1, true_and, Bool.not_eq_false]

theorem progress_of_invariant (invariant : Invariant game) (ongoing : Ongoing game.slot) : Progress game where
  canMove := invariant.canMove ongoing
  passes := invariant.passes ongoing
  refused _ _ idle := step_refused invariant ongoing idle
  noPass _ _ pass := step_refused invariant ongoing fun acts => pass_idle pass acts.2
  grows event placed := (rank_placed invariant event placed).2
  ends := step_ends invariant ongoing

end Game

end SshChatter.Othello
