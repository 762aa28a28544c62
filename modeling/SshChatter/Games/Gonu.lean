import SshChatter.Lib.RankedSort
import SshChatter.Lib.CString
import SshChatter.Lib.Grid

namespace SshChatter.Gonu
open CString

def boardSize : Nat := 5

instance boardRoom : NeZero boardSize := ⟨by decide⟩

inductive Variant
  | hobak
  | bakwi
  | umul
  | janggiStar
  deriving DecidableEq, Repr

inductive Cell
  | empty
  | player
  | ai
  deriving DecidableEq, Repr

abbrev Board := Grid boardSize Cell

/-- This is `gonu_board_pattern_t`, by rows. -/
structure Pattern where
  valid : List (List Bool)
  neighbors : List (List Nat)
  deriving DecidableEq, Repr

def inBounds (row col : Int) : Bool := Grid.inBounds boardSize row col

def dirToBit (dr dc : Int) : Nat :=
  if dr = -1 ∧ dc = 0 then 1
  else if dr = -1 ∧ dc = 1 then 2
  else if dr = 0 ∧ dc = 1 then 4
  else if dr = 1 ∧ dc = 1 then 8
  else if dr = 1 ∧ dc = 0 then 16
  else if dr = 1 ∧ dc = -1 then 32
  else if dr = 0 ∧ dc = -1 then 64
  else if dr = -1 ∧ dc = -1 then 128
  else 0

def modifyAt {α : Type} (table : List (List α)) (row col : Int) (change : α → α) : List (List α) :=
  table.modify row.toNat fun line => line.modify col.toNat change

def entryAt {α : Type} (table : List (List α)) (row col : Int) (default : α) : α :=
  (table.getD row.toNat []).getD col.toNat default

def isStep (dr dc : Int) : Bool := -1 ≤ dr && dr ≤ 1 && -1 ≤ dc && dc ≤ 1 && !(dr = 0 && dc = 0)

def connectCells (pattern : Pattern) (r1 c1 r2 c2 : Int) : Pattern :=
  let dr := r2 - r1
  let dc := c2 - c1
  if isStep dr dc = false ∨ dirToBit dr dc = 0 ∨ dirToBit (-dr) (-dc) = 0 then pattern
  else
    { pattern with
      neighbors := modifyAt (modifyAt pattern.neighbors r1 c1 (· ||| dirToBit dr dc)) r2 c2
        (· ||| dirToBit (-dr) (-dc)) }

/-- The loop of `session_game_gonu_add_line`. The first point has no point before it. -/
def addLineLoop (r2 c2 dr dc : Int) : Nat → Pattern → Option (Int × Int) → Int → Int → Pattern
  | 0, pattern, _, _, _ => pattern
  | fuel + 1, pattern, previous, row, col =>
    let marked := { pattern with valid := modifyAt pattern.valid row col fun _ => true }
    let connected := match previous with
      | none => marked
      | some point => connectCells marked point.1 point.2 row col
    if row = r2 ∧ col = c2 then connected
    else if inBounds (row + dr) (col + dc) = false then connected
    else addLineLoop r2 c2 dr dc fuel connected (some (row, col)) (row + dr) (col + dc)

/-- This is `session_game_gonu_add_line`. A line has at most five points. -/
def addLine (pattern : Pattern) (line : Int × Int × Int × Int) : Pattern :=
  let (r1, c1, r2, c2) := line
  if inBounds r1 c1 = false ∨ inBounds r2 c2 = false then pattern
  else
    let dr := if r1 < r2 then 1 else if r2 < r1 then -1 else 0
    let dc := if c1 < c2 then 1 else if c2 < c1 then -1 else 0
    if dr = 0 ∧ dc = 0 then pattern else addLineLoop r2 c2 dr dc boardSize pattern none r1 c1

def diamond (center radius : Int) : List (Int × Int × Int × Int) :=
  [(center, center - radius, center - radius, center), (center - radius, center, center, center + radius),
    (center, center + radius, center + radius, center), (center + radius, center, center, center - radius)]

/-- The lines of a variant in `session_game_gonu_build_patterns`. -/
def linesOf : Variant → List (Int × Int × Int × Int)
  | .hobak =>
    diamond 2 2 ++ diamond 2 1 ++
      [(2, 0, 2, 4), (0, 2, 4, 2), (1, 1, 3, 1), (1, 3, 3, 3), (0, 0, 4, 4), (0, 4, 4, 0)]
  | .bakwi =>
    [(0, 0, 0, 4), (0, 4, 4, 4), (4, 4, 4, 0), (4, 0, 0, 0), (1, 1, 1, 3), (1, 3, 3, 3), (3, 3, 3, 1), (3, 1, 1, 1),
      (2, 0, 2, 4), (0, 2, 4, 2), (0, 0, 4, 4), (0, 4, 4, 0)]
  | .umul =>
    [(0, 0, 0, 4), (4, 0, 4, 4), (0, 0, 4, 0), (0, 4, 4, 4), (2, 0, 2, 4), (0, 2, 4, 2), (1, 1, 1, 3), (3, 1, 3, 3),
      (1, 1, 3, 1), (1, 3, 3, 3), (0, 0, 4, 4), (0, 4, 4, 0)]
  | .janggiStar =>
    [(0, 0, 0, 4), (0, 4, 4, 4), (4, 4, 4, 0), (4, 0, 0, 0), (1, 1, 1, 3), (1, 3, 3, 3), (3, 3, 3, 1), (3, 1, 1, 1),
      (2, 0, 2, 4), (0, 2, 4, 2), (1, 2, 3, 2), (2, 1, 2, 3), (0, 0, 4, 4), (0, 4, 4, 0), (1, 3, 3, 1),
      (1, 1, 3, 3)] ++ diamond 2 1 ++ diamond 2 2

def patternOf (variant : Variant) : Pattern :=
  (linesOf variant).foldl addLine
    ⟨List.replicate boardSize (List.replicate boardSize false), List.replicate boardSize (List.replicate boardSize 0)⟩

def isValidPosition (pattern : Pattern) (row col : Int) :
    Bool := inBounds row col && entryAt pattern.valid row col false

def isConnected (pattern : Pattern) (r1 c1 r2 c2 : Int) : Bool :=
  isValidPosition pattern r1 c1 && isValidPosition pattern r2 c2 && isStep (r2 - r1) (c2 - c1) &&
    (entryAt pattern.neighbors r1 c1 0 &&& dirToBit (r2 - r1) (c2 - c1) ≠ 0)

/-- The directions of `session_game_gonu_check_win`. -/
def directions : List (Int × Int) := [(-1, -1), (-1, 0), (-1, 1), (0, -1), (0, 1), (1, -1), (1, 0), (1, 1)]

/-- Three connected pieces stand in a direction from a cell, and none stands before it. -/
def lineFrom (pattern : Pattern) (board : Board) (side : Cell) (row col : Int) (d : Int × Int) : Bool :=
  !(isConnected pattern (row - d.1) (col - d.2) row col && board.read (row - d.1) (col - d.2) = side) &&
    isConnected pattern row col (row + d.1) (col + d.2) &&
    isConnected pattern (row + d.1) (col + d.2) (row + 2 * d.1) (col + 2 * d.2) &&
    board.read (row + d.1) (col + d.2) = side && board.read (row + 2 * d.1) (col + 2 * d.2) = side

/-- The search of `session_game_gonu_check_win`. -/
def hasLine (pattern : Pattern) (board : Board) (side : Cell) : Bool :=
  (Grid.positions boardSize).any fun p =>
    board p.1 p.2 = side && isValidPosition pattern p.1 p.2 &&
      directions.any fun d => lineFrom pattern board side p.1 p.2 d

/-- The offsets of the loops over `dr` and `dc`. -/
def offsets : List (Int × Int) := [-1, 0, 1] ×ˢ [-1, 0, 1]

def countAdjacent (pattern : Pattern) (board : Board) (row col : Int) (side : Cell) : Nat :=
  offsets.countP fun d =>
    !(d.1 = 0 && d.2 = 0) && isConnected pattern row col (row + d.1) (col + d.2) &&
      board.read (row + d.1) (col + d.2) = side

def positionalScore (pattern : Pattern) (board : Board) (row col : Int) : Int :=
  boardSize * 2 - (|2 - row| + |2 - col|) * 2 + countAdjacent pattern board row col .ai * 4 +
    countAdjacent pattern board row col .player * 3

/-- A piece goes to another point. -/
def slide (board : Board) (row col newRow newCol : Int) (piece : Cell) : Board :=
  (board.write row col .empty).write newRow newCol piece

def slides (pattern : Pattern) (board : Board) (side : Cell) : List ((Int × Int) × Int × Int) :=
  (Grid.positions boardSize).flatMap fun p =>
    if board p.1 p.2 = side then
      (offsets.map fun d => (((p.1 : Int), (p.2 : Int)), (p.1 : Int) + d.1, (p.2 : Int) + d.2)).filter fun s =>
        isConnected pattern s.1.1 s.1.2 s.2.1 s.2.2 && board.read s.2.1 s.2.2 = .empty
    else []

/-- The search of `session_game_gonu_has_winning_move`. -/
def hasWinningSlide (pattern : Pattern) (board : Board) (side : Cell) : Bool :=
  (slides pattern board side).any fun s => hasLine pattern (slide board s.1.1 s.1.2 s.2.1 s.2.2 side) side

def messageLimit : Nat := 4096

/-- The fields of `gonu_game_state_t` that a game against the AI uses. The variant is its pattern. -/
structure State where
  pattern : Pattern
  board : Board
  playerTurn : Bool
  gameOver : Bool
  placementPhase : Bool
  movementStarted : Bool
  playerPieces : Nat
  aiPieces : Nat
  selectedRow : Int
  selectedCol : Int
  pieceSelected : Bool
  awaitingModeSelection : Bool
  awaitingDifficultySelection : Bool
  difficultyLevel : Nat

def reset (variant : Variant) : State where
  pattern := patternOf variant
  board := fun _ _ => .empty
  playerTurn := true
  gameOver := false
  placementPhase := true
  movementStarted := false
  playerPieces := 0
  aiPieces := 0
  selectedRow := -1
  selectedCol := -1
  pieceSelected := false
  awaitingModeSelection := false
  awaitingDifficultySelection := false
  difficultyLevel := 5

def checkWin (state : State) (side : Cell) : Bool :=
  !(state.placementPhase || !state.movementStarted) && hasLine state.pattern state.board side

def hasWinningMove (state : State) (side : Cell) : Bool :=
  !state.placementPhase && hasWinningSlide state.pattern state.board side

/-- This is `gonu_ai_move_t`. A placement has no origin. -/
structure AiMove where
  origin : Option (Int × Int)
  toRow : Int
  toCol : Int
  score : Int
  deriving DecidableEq, Repr

def tried (state : State) (s : (Int × Int) × Int × Int) : State :=
  { state with board := slide state.board s.1.1 s.1.2 s.2.1 s.2.2 .ai, movementStarted := true }

def slideScore (state : State) (s : (Int × Int) × Int × Int) : Int :=
  let after := tried state s
  let aiWins := checkWin after .ai
  let playerCanWinAfter := hasWinningMove after .player
  positionalScore state.pattern after.board s.2.1 s.2.2 + countAdjacent state.pattern after.board s.1.1 s.1.2 .ai +
    (if aiWins then 500 else if hasWinningMove state .player && !playerCanWinAfter then 150 else 0) +
    (if playerCanWinAfter then -120 else 0)

/-- The moves that `session_game_gonu_ai_move` collects. -/
def collectMoves (state : State) : List AiMove :=
  if state.placementPhase && state.aiPieces < 3 then
    (((Grid.positions boardSize).filter fun p =>
      isValidPosition state.pattern p.1 p.2 && state.board p.1 p.2 = .empty).map fun p =>
        (⟨none, p.1, p.2, positionalScore state.pattern state.board p.1 p.2⟩ : AiMove)).take 128
  else
    ((slides state.pattern state.board .ai).map fun s =>
      (⟨some s.1, s.2.1, s.2.2, slideScore state s⟩ : AiMove)).take 128

/-- This is `session_game_random_range` on the next number of the generator. -/
def randomRange (draw max : Nat) : Nat := if max = 0 then 0 else draw % max

def bestIndexes (moves : List AiMove) : List Nat := BestScan.bestIndexes AiMove.score 128 (-1) moves

def makeGoodMove (difficulty draw : Nat) : Bool :=
  if difficulty = 2 then randomRange draw 100 < 50
  else if difficulty = 3 then randomRange draw 100 < 70
  else if difficulty = 4 then randomRange draw 100 < 90
  else true

def chooseMove (difficulty : Nat) (draws : Nat × Nat) (moves : List AiMove) : Option AiMove :=
  if difficulty = 1 then moves[randomRange draws.2 moves.length]?
  else if makeGoodMove difficulty draws.1 then
    match (bestIndexes moves)[randomRange draws.2 (bestIndexes moves).length]? with
    | none => none
    | some index => moves[index]?
  else moves[randomRange draws.2 moves.length]?

def executeMove (state : State) (move : AiMove) : State :=
  match move.origin with
  | none =>
    let placed :=
      { state with board := state.board.write move.toRow move.toCol .ai, aiPieces := state.aiPieces + 1 }
    if placed.aiPieces = 3 ∧ placed.playerPieces = 3 then { placed with placementPhase := false } else placed
  | some point =>
    { state with board := slide state.board point.1 point.2 move.toRow move.toCol .ai, movementStarted := true }

/-- This is `session_game_gonu_ai_move`. It has no result when it reads an index that was not written. -/
def aiMove (state : State) (draws : Nat × Nat) : Option State :=
  if collectMoves state = [] then some state
  else (chooseMove state.difficultyLevel draws (collectMoves state)).map (executeMove state)

/-- This is `atoi`, which cuts the number of `strtol` to 32 bits. -/
def atoi (text : Bytes) : Int := (atol text).bmod (2 ^ 32)

/-- The row and the column of a line such as `2,C` or `2,2`. -/
def parsePosition (input : Bytes) : Option (Int × Int) :=
  match strchr (byte ',') input with
  | none => none
  | some (rowText, rest) =>
    if 16 ≤ rowText.length then none
    else
      let colText := trimSpace (rest.take 15)
      let col := match colText with
        | [c] =>
          if byte 'A' ≤ c ∧ c ≤ byte 'E' then (c.toNat : Int) - 65
          else if byte 'a' ≤ c ∧ c ≤ byte 'e' then (c.toNat : Int) - 97
          else atoi colText
        | _ => atoi colText
      some (atoi (trimSpace rowText), col)

/-- What a line of the player leads to. -/
inductive Outcome
  | answered (state : State)
  | cancelled
  | moved (state : State)

def playerMove (state : State) (row col : Int) : Outcome :=
  if state.placementPhase then
    if state.board.read row col ≠ .empty then .answered state
    else
      let placed := { state with board := state.board.write row col .player, playerPieces := state.playerPieces + 1 }
      .moved (if placed.playerPieces = 3 ∧ placed.aiPieces = 3 then { placed with placementPhase := false } else placed)
  else if state.pieceSelected = false then
    if state.board.read row col ≠ .player then .answered state
    else .answered { state with selectedRow := row, selectedCol := col, pieceSelected := true }
  else if state.board.read row col ≠ .empty then .answered { state with pieceSelected := false }
  else if isConnected state.pattern state.selectedRow state.selectedCol row col = false then
    .answered { state with pieceSelected := false }
  else
    .moved
      { state with
        board := slide state.board state.selectedRow state.selectedCol row col .player
        movementStarted := true, pieceSelected := false }

def selectMode (state : State) (working : Bytes) : Outcome :=
  if working = str "single" ∨ working = str "s" then
    .answered { state with awaitingModeSelection := false, awaitingDifficultySelection := true }
  else if working = str "exit" ∨ working = str "quit" then .cancelled
  else .answered state

def selectDifficulty (state : State) (working : Bytes) : Outcome :=
  if atoi working < 1 ∨ 5 < atoi working then .answered state
  else
    .answered
      { state with difficultyLevel := (atoi working).toNat, awaitingDifficultySelection := false, playerTurn := true }

/-- The part of `session_game_gonu_handle_input` that reads a line other than `t`. -/
def playerInput (state : State) (input : Bytes) : Outcome :=
  let working := (trimSpace (input.take (messageLimit - 1))).map toLower
  if state.awaitingModeSelection then selectMode state working
  else if state.awaitingDifficultySelection then selectDifficulty state working
  else if state.gameOver || !state.playerTurn then .answered state
  else match parsePosition input with
    | none => .answered state
    | some (row, col) =>
      if inBounds row col = false then .answered state
      else if isValidPosition state.pattern row col = false then .answered state
      else playerMove state row col

/-- The game of a session with the copy that the camouflage screen keeps. -/
structure Game where
  active : Bool
  state : State
  saved : State
  camouflaged : Bool

/-- A state with all its bytes zero, as it is allocated. -/
def blank : State :=
  { reset .hobak with
    playerTurn := false, placementPhase := false, selectedRow := 0, selectedCol := 0, difficultyLevel := 0 }

/-- This is the end of `session_game_start_gonu`. An earlier game may have left the camouflage screen on. -/
def startGonu (variant : Variant) (camouflaged : Bool) : Game :=
  { active := true, state := { reset variant with awaitingModeSelection := true }, saved := blank,
    camouflaged := camouflaged }

def toggleCamouflage (game : Game) : Game :=
  if game.camouflaged then { game with state := game.saved, camouflaged := false }
  else { game with saved := game.state, camouflaged := true }

/-- A line is settled by itself, or the AI is called. -/
inductive Turn
  | settled (game : Game)
  | ai (state : State)

/-- The part of `session_game_gonu_handle_input` before the AI moves. -/
def playerTurn (game : Game) (input : Bytes) : Turn :=
  if game.active = false then .settled game
  else if (trimSpace (input.take (messageLimit - 1))).map toLower = str "t" then .settled (toggleCamouflage game)
  else match playerInput game.state input with
    | .answered state => .settled { game with state := state }
    | .cancelled => .settled { game with active := false }
    | .moved state =>
      if checkWin state .player then .settled { game with active := false, state := { state with gameOver := true } }
      else .ai { state with playerTurn := false }

def afterAi (game : Game) (state : State) : Game :=
  if checkWin state .ai then { game with active := false, state := { state with gameOver := true } }
  else { game with state := { state with playerTurn := true } }

def handleInput (game : Game) (input : Bytes) (draws : Nat × Nat) : Option Game :=
  match playerTurn game input with
  | .settled settled => some settled
  | .ai state => (aiMove state draws).map (afterAi game)

end SshChatter.Gonu
