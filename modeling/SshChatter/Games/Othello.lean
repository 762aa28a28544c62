import SshChatter.Lib.CString
import SshChatter.Games.OthelloBoard

namespace SshChatter.Othello
open CString

def messageLimit : Nat := 4096

/-- The fields of `othello_game_state_t` that a slot uses. -/
structure GameState where
  board : Board
  playerTurn : Bool
  gameOver : Bool
  consecutivePasses : Nat
  redScore : Nat
  greenScore : Nat
  lastPlayer : Int × Int
  lastAi : Int × Int

def GameState.scored (state : GameState) : GameState :=
  { state with redScore := (countScores state.board).1, greenScore := (countScores state.board).2 }

def resetState : GameState := GameState.scored ⟨startBoard, true, false, 0, 0, 0, (-1, -1), (-1, -1)⟩

/-- This is `othello_multiplayer_slot_t`. The first player is red and the second one green. -/
structure Slot where
  slotId : Nat
  inUse : Bool
  active : Bool
  awaitingSecondPlayer : Bool
  players : Colour → Option Nat
  state : GameState

/-- The fields of a session's own `othello_game_state_t` that the multiplayer game reads. -/
structure OwnState where
  awaitingModeSelection : Bool
  awaitingDifficultySelection : Bool
  multiplayer : Bool
  awaitingOpponent : Bool
  slotIndex : Int

/-- The fields of `ctx->game`: whether a game is active, whether its type is `SESSION_GAME_OTHELLO`, and the state
at `game.othello`, absent for a null pointer. -/
structure Session where
  active : Bool
  othelloGame : Bool
  othello : Option OwnState

/-- A handler that has unlocked the slot and has yet to copy the snapshot to the players it read. -/
structure Pending where
  who : Nat
  players : Colour → Option Nat
  slotIndex : Int

/-- A slot, the sessions, and the sessions whose handler has yet to finish the game or to copy its snapshot. An access
through a null pointer leaves the process dead. -/
structure Match where
  slot : Slot
  sessions : Nat → Session
  finishing : List Nat
  syncing : List Pending
  dead : Bool

/-- What the session is told. -/
inductive Reply
  | nothing
  | matchmakingCancelled
  | waitingForOpponent
  | notAvailable
  | hasEnded
  | notPart
  | waitingForAccept
  | gameOver
  | waitForTurn
  | legalMovesLeft
  | passed
  | noMoreMoves
  | resigned
  | invalidMove
  | illegalSquare
  | placed
  deriving DecidableEq, Repr

def Match.setSession (game : Match) (who : Nat) (session : Session) : Match :=
  { game with sessions := fun other => if other = who then session else game.sessions other }

def Match.die (game : Match) : Match := { game with dead := true }

/-- This is `session_game_suspend`. It releases the state of an Othello game. -/
def suspend (game : Match) (who : Nat) : Match :=
  let session := game.sessions who
  if session.active = false then game
  else game.setSession who ⟨false, false, if session.othelloGame then none else session.othello⟩

/-- This is `session_game_othello_sync_player_from_snapshot`. Only the copy of the board skips a null state, the writes
behind it do not. -/
def syncPlayer (game : Match) (player : Option Nat) (slotIndex : Int) (awaitingOpponent : Bool) : Match :=
  match player with
  | none => game
  | some who =>
    match (game.sessions who).othello with
    | none => game.die
    | some own =>
      game.setSession who
        ⟨true, true, some { own with
          awaitingModeSelection := false
          multiplayer := true
          awaitingOpponent := awaitingOpponent
          slotIndex := slotIndex }⟩

def syncPlayers (game : Match) (players : Colour → Option Nat) (slotIndex : Int) : Match :=
  syncPlayer (syncPlayer game (players .red) slotIndex false) (players .green) slotIndex false

/-- This is `session_game_start_othello` behind the choice of the lockscreen. -/
def startOthello (game : Match) (who : Nat) : Match :=
  if (game.sessions who).active then game
  else game.setSession who ⟨true, true, some ⟨true, false, false, false, -1⟩⟩

/-- This is `host_othello_release_slot_locked` without the promotion of the queue. -/
def releaseSlot (slot : Slot) : Slot :=
  { slot with
    inUse := false, active := false, awaitingSecondPlayer := false, players := fun _ => none, state := resetState }

/-- This is `host_othello_allocate_slot_locked`, for a session that chooses the multiplayer mode or one that
`host_othello_try_promote_queue_locked` takes from the queue, which has no game and may have no state. -/
def allocateSlot (game : Match) (who : Nat) : Match :=
  let session := game.sessions who
  let taken : Match :=
    { game with
      slot :=
        { game.slot with
          inUse := true, active := false, awaitingSecondPlayer := true,
          players := fun player => if player = .red then some who else none, state := resetState } }
  if game.slot.inUse then game
  else
    match session.othello with
    | none => if session.active then game else taken.die
    | some own =>
      if session.active && !(session.othelloGame && own.awaitingModeSelection) then game
      else
        taken.setSession who
          ⟨true, true, some { own with
            awaitingModeSelection := false
            multiplayer := true
            awaitingOpponent := true
            slotIndex := game.slot.slotId }⟩

def finishPlayer (game : Match) (player : Option Nat) : Match :=
  match player with
  | none => game
  | some who => suspend (syncPlayer game player (-1) false) who

/-- This is `session_game_othello_finish_multiplayer`. -/
def finishMultiplayer (game : Match) : Match :=
  if game.slot.inUse = false then game
  else
    finishPlayer
      (finishPlayer { game with slot := releaseSlot game.slot } (game.slot.players .red))
      (game.slot.players .green)

def myTurn (state : GameState) (player : Colour) : Bool :=
  match player with
  | .red => state.playerTurn
  | .green => !state.playerTurn

def giveTurn (state : GameState) (player : Colour) : GameState := { state with playerTurn := player = .red }

def recordLast (state : GameState) (player : Colour) (row col : Int) : GameState :=
  match player with
  | .red => { state with lastPlayer := (row, col) }
  | .green => { state with lastAi := (row, col) }

/-- The branch of `pass` for a player without moves, and whether the game is finished. -/
def playPass (state : GameState) (player : Colour) : GameState × Bool :=
  let passed := recordLast { state with consecutivePasses := state.consecutivePasses + 1 } player (-1) (-1)
  if 2 ≤ passed.consecutivePasses then ({ passed.scored with gameOver := true }, true)
  else (giveTurn passed player.opponent, false)

def placePiece (state : GameState) (player : Colour) (row col : Int) : GameState :=
  { recordLast (GameState.scored { state with board := applyMove state.board row col player }) player row col with
    consecutivePasses := 0 }

def settleTurn (state : GameState) (player : Colour) : GameState × Bool :=
  if (collectMoves state.board player.opponent).length = 0 then
    let forced : GameState := { state with consecutivePasses := state.consecutivePasses + 1 }
    if 2 ≤ forced.consecutivePasses ∨ (collectMoves forced.board player).length = 0 then
      ({ forced.scored with gameOver := true }, true)
    else (giveTurn forced player, false)
  else (giveTurn state player.opponent, false)

def isAlpha (c : UInt8) : Bool := (65 ≤ c ∧ c ≤ 90) ∨ (97 ≤ c ∧ c ≤ 122)

/-- The row and the column of a line such as `d3` or `3d`. -/
def coordinates (working : Bytes) : Int × Int :=
  let first := working.getD 0 0
  let second := working.getD 1 0
  if isAlpha first && isDigit second then ((second.toNat : Int) - 49, (first.toNat : Int) - 97)
  else if isDigit first && isAlpha second then ((first.toNat : Int) - 49, (second.toNat : Int) - 97)
  else (-1, -1)

def Match.setState (game : Match) (state : GameState) : Match := { game with slot := { game.slot with state := state } }

def Match.finish (game : Match) (who : Nat) : Match := { game with finishing := who :: game.finishing }

def Match.sync (game : Match) (who : Nat) : Match :=
  { game with syncing := ⟨who, game.slot.players, game.slot.slotId⟩ :: game.syncing }

/-- The part of `session_game_othello_handle_line_multiplayer` behind the check of the turn. -/
def playTurn (game : Match) (who : Nat) (player : Colour) (working : Bytes) : Match × Reply :=
  let state := game.slot.state
  if working = str "pass" then
    if 0 < (collectMoves state.board player).length then (game, .legalMovesLeft)
    else
      let played := playPass state player
      if played.2 then ((game.setState played.1).finish who, .noMoreMoves)
      else ((game.setState played.1).sync who, .passed)
  else if working = str "resign" ∨ working = str "quit" then
    ((game.setState { state.scored with gameOver := true }).finish who, .resigned)
  else
    let target := coordinates working
    if inBounds target.1 target.2 = false then (game, .invalidMove)
    else if countFlips state.board target.1 target.2 player = 0 then (game, .illegalSquare)
    else
      let played := settleTurn (placePiece state player target.1 target.2) player
      (if played.2 then (game.setState played.1).finish who else (game.setState played.1).sync who, .placed)

/-- The seat of a session. -/
def playerIndex (slot : Slot) (who : Nat) : Option Colour :=
  if slot.players .red = some who then some .red
  else if slot.players .green = some who then some .green
  else none

/-- This is `session_game_othello_handle_line_multiplayer` up to where the slot is unlocked. -/
def handleLineMultiplayer (game : Match) (who : Nat) (own : OwnState) (working : Bytes) : Match × Reply :=
  if own.awaitingOpponent then
    if working = str "quit" ∨ working = str "resign" ∨ working = str "exit" then
      let slot := if 0 < own.slotIndex ∧ own.slotIndex = game.slot.slotId ∧ game.slot.inUse ∧
          game.slot.active = false ∧ game.slot.players .red = some who then releaseSlot game.slot else game.slot
      (suspend { game with slot := slot } who, .matchmakingCancelled)
    else (game, .waitingForOpponent)
  else if own.slotIndex ≤ 0 then (suspend game who, .notAvailable)
  else if own.slotIndex ≠ game.slot.slotId ∨ game.slot.inUse = false then (suspend game who, .hasEnded)
  else match playerIndex game.slot who with
    | none => (suspend game who, .notPart)
    | some player =>
      if game.slot.active = false then (game, .waitingForAccept)
      else if game.slot.state.gameOver then (game.finish who, .gameOver)
      else if myTurn game.slot.state player = false then (game, .waitForTurn)
      else playTurn game who player working

/-- The line as `session_game_othello_handle_line` reads it. -/
def normalize (line : Bytes) : Bytes := (trimSpace (line.take (messageLimit - 1))).map toLower

/-- This is `session_game_othello_handle_line`. The choice of a multiplayer game is the event `allocate`, and the game
against the computer concerns no slot. -/
def handleLine (game : Match) (who : Nat) (line : Bytes) : Match × Reply :=
  let working := normalize line
  if (game.sessions who).othelloGame = false then (game, .nothing)
  else if working = [] then (game, .nothing)
  else if working = str "t" then (game, .nothing)
  else
    match (game.sessions who).othello with
    | none => (game.die, .nothing)
    | some own =>
      if own.awaitingModeSelection then
        if working = str "single" ∨ working = str "s" then
          (game.setSession who
            ⟨true, true, some { own with awaitingModeSelection := false, awaitingDifficultySelection := true }⟩,
              .nothing)
        else if working = str "exit" ∨ working = str "quit" then (suspend game who, .nothing)
        else (game, .nothing)
      else if own.awaitingDifficultySelection then (game, .nothing)
      else if own.multiplayer then handleLineMultiplayer game who own working
      else (game, .nothing)

def processLine (game : Match) (who : Nat) (line : Bytes) : Match × Reply :=
  if (game.sessions who).active = false then (game, .nothing)
  else if line = str "/suspend!" then (suspend game who, .nothing)
  else if line = str "t" then (game, .nothing)
  else if line.head? = some (byte '/') then (game, .nothing)
  else handleLine game who line

/-- This is `session_game_othello_handle_forced_exit` with the guards of its caller. -/
def handleForcedExit (game : Match) (who : Nat) : Match × Reply :=
  let session := game.sessions who
  if session.active = false then (game, .nothing)
  else
    match session.othello with
    | none => (suspend game who, .nothing)
    | some own =>
      if session.othelloGame = false ∨ own.multiplayer = false ∨ own.slotIndex ≤ 0 ∨
          own.slotIndex ≠ game.slot.slotId ∨ game.slot.inUse = false ∨ game.slot.active = false ∨
          playerIndex game.slot who = none then
        (suspend game who, .nothing)
      else ((game.setState { game.slot.state.scored with gameOver := true }).finish who, .resigned)

/-- What the sessions do. -/
inductive Event
  | line (who : Nat) (text : Bytes)
  | forcedExit (who : Nat)
  | finish (who : Nat)
  | sync (who : Nat)
  | start (who : Nat)
  | allocate (who : Nat)

/-- The handler of the session is still behind the locked section of an earlier line. -/
def Match.busy (game : Match) (who : Nat) : Bool :=
  game.finishing.contains who || (game.syncing.find? (·.who = who)).isSome

/-- One locked section or the part of a handler behind it. A session reads its next line when its handler is done. -/
def act (game : Match) : Event → Match × Reply
  | .line who text => if game.busy who then (game, .nothing) else processLine game who text
  | .forcedExit who => if game.busy who then (game, .nothing) else handleForcedExit game who
  | .finish who =>
    if who ∈ game.finishing then
      (finishMultiplayer { game with finishing := game.finishing.erase who }, .nothing)
    else (game, .nothing)
  | .sync who =>
    match game.syncing.find? (·.who = who) with
    | none => (game, .nothing)
    | some entry =>
      (syncPlayers { game with syncing := game.syncing.filter (·.who ≠ who) } entry.players entry.slotIndex, .nothing)
  | .start who => (startOthello game who, .nothing)
  | .allocate who => (allocateSlot game who, .nothing)

def handle (game : Match) (event : Event) : Match × Reply :=
  if game.dead then (game, .nothing) else act game event

def drawSeats (creator who draw : Nat) : Colour → Option Nat
  | .red => some (if draw = 1 then who else creator)
  | .green => some (if draw = 1 then creator else who)

def Match.openSlot (game : Match) (seats : Colour → Option Nat) : Match :=
  { game with
    slot := { game.slot with state := resetState, players := seats, awaitingSecondPlayer := false, active := true } }

/-- The creator of the slot still has a multiplayer game. -/
def Session.hosts (session : Session) : Bool := session.othelloGame && session.othello.any (·.multiplayer)

/-- This is `session_othello_accept_game` with the draw of `session_game_random_range`, and whether it opens the game.
The accepting session has no game, and its state is not allocated before the snapshot is copied to it. -/
def acceptGame (game : Match) (who draw : Nat) : Match × Bool :=
  let slot := game.slot
  if (game.sessions who).active then (game, false)
  else if slot.inUse = false ∨ slot.active ∨ slot.awaitingSecondPlayer = false then (game, false)
  else if slot.players .red = some who then (game, false)
  else
    match (slot.players .red).filter fun creator => (game.sessions creator).hosts with
    | none => ({ game with slot := releaseSlot slot }, false)
    | some creator =>
      let seats := drawSeats creator who draw
      (syncPlayers (game.openSlot seats) seats slot.slotId, true)

end SshChatter.Othello
