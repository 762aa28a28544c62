import SshChatter.Lib.Grid

namespace SshChatter.Othello
open List

def boardSize : Nat := 8

instance boardRoom : NeZero boardSize := ⟨by decide⟩

/-- The two colours of `othello_cell_type_t`. -/
inductive Colour
  | red
  | green
  deriving DecidableEq, Repr

def Colour.opponent : Colour → Colour
  | .red => .green
  | .green => .red

/-- The field `board`. A cell without a colour is `OTHELLO_CELL_EMPTY`. -/
abbrev Board := Grid boardSize (Option Colour)

def directions : List (Int × Int) := [(-1, -1), (-1, 0), (-1, 1), (0, -1), (0, 1), (1, -1), (1, 0), (1, 1)]

def inBounds (row col : Int) : Bool := Grid.inBounds boardSize row col

/-- The loop of `session_game_othello_direction_count`. -/
def directionLoop (board : Board) (player : Colour) (drow dcol : Int) : Nat → Int → Int → Nat → Nat
  | 0, _, _, _ => 0
  | fuel + 1, r, c, count =>
    if inBounds r c then
      if board.read r c = some player.opponent then
        directionLoop board player drow dcol fuel (r + drow) (c + dcol) (count + 1)
      else if board.read r c = some player ∧ 0 < count then count
      else 0
    else 0

/-- This is `session_game_othello_direction_count`. A line leaves the board after at most eight steps. -/
def directionCount (board : Board) (row col drow dcol : Int) (player : Colour) : Nat :=
  directionLoop board player drow dcol boardSize (row + drow) (col + dcol) 0

def countFlips (board : Board) (row col : Int) (player : Colour) : Nat :=
  if inBounds row col = false then 0
  else if board.read row col ≠ none then 0
  else (directions.map fun d => directionCount board row col d.1 d.2 player).sum

def countScores (board : Board) : Nat × Nat :=
  (board.count (· = some .red), board.count (· = some .green))

def flipLoop (player : Colour) (drow dcol : Int) : Nat → Board → Int → Int → Board
  | 0, board, _, _ => board
  | count + 1, board, r, c =>
    if inBounds r c then flipLoop player drow dcol count (board.write r c (some player)) (r + drow) (c + dcol)
      else board

def flipDirection (row col : Int) (player : Colour) (board : Board) (d : Int × Int) : Board :=
  flipLoop player d.1 d.2 (directionCount board row col d.1 d.2 player) board (row + d.1) (col + d.2)

def applyMove (board : Board) (row col : Int) (player : Colour) : Board :=
  if inBounds row col = false then board
  else directions.foldl (flipDirection row col player) (board.write row col (some player))

structure Move where
  row : Int
  col : Int
  flipped : Nat
  deriving DecidableEq, Repr

def collectMoves (board : Board) (player : Colour) : List Move :=
  ((Grid.positions boardSize).map fun p => (⟨p.1, p.2, countFlips board p.1 p.2 player⟩ : Move)).filter fun move =>
    0 < move.flipped

/-- The board of `session_game_othello_reset_state`. -/
def startBoard : Board := fun row col =>
  if (row.val = 3 ∧ col.val = 3) ∨ (row.val = 4 ∧ col.val = 4) then some .green
  else if (row.val = 3 ∧ col.val = 4) ∨ (row.val = 4 ∧ col.val = 3) then some .red
  else none

section Rules

variable {board : Board} {player : Colour} {row col drow dcol : Int}

def discs (board : Board) : Nat := (countScores board).1 + (countScores board).2

theorem discs_eq_count (board : Board) : discs board = board.count Option.isSome := by
  rw [discs, countScores, Grid.count, Grid.count, Grid.count]
  induction Grid.positions boardSize with
  | nil => rfl
  | cons p rest ih =>
    simp only [countP_cons]
    rcases board p.1 p.2 with _ | _ | _ <;> simp <;> omega

theorem discs_le (board : Board) : discs board ≤ 64 := by
  rw [discs_eq_count]
  exact countP_le_length

def Legal (board : Board) (player : Colour) (row col : Int) : Prop := 0 < countFlips board row col player

instance : Decidable (Legal board player row col) := inferInstanceAs (Decidable (_ < _))

def CanMove (board : Board) (player : Colour) : Prop := ∃ row col, Legal board player row col

theorem legal_spec (legal : Legal board player row col) : inBounds row col ∧ board.read row col = none := by
  rw [Legal, countFlips] at legal
  split_ifs at legal with outside taken
  · exact absurd legal (lt_irrefl 0)
  · exact absurd legal (lt_irrefl 0)
  · exact ⟨by simpa using outside, not_not.mp taken⟩

theorem collectMoves_length_pos : 0 < (collectMoves board player).length ↔ CanMove board player := by
  rw [length_pos_iff_exists_mem]
  constructor
  · rintro ⟨move, member⟩
    obtain ⟨listed, positive⟩ := mem_filter.mp member
    obtain ⟨p, -, rfl⟩ := mem_map.mp listed
    exact ⟨_, _, of_decide_eq_true positive⟩
  · rintro ⟨row, col, legal⟩
    obtain ⟨p, rfl, rfl⟩ := Grid.exists_position (legal_spec legal).1
    exact ⟨_, mem_filter.mpr ⟨mem_map.mpr ⟨p, Grid.mem_positions p, rfl⟩, decide_eq_true legal⟩⟩

theorem collectMoves_length_eq_zero : (collectMoves board player).length = 0 ↔ ¬CanMove board player := by
  rw [← collectMoves_length_pos, pos_iff_ne_zero, not_not]

/-- A cell that holds a piece still holds one. -/
def Covers (later board : Board) : Prop := ∀ r c, (board r c).isSome → (later r c).isSome

theorem covers_write (board : Board) (row col : Int) (player : Colour) :
    Covers (board.write row col (some player)) board := by
  intro r c held
  rw [Grid.write]
  split_ifs
  · rfl
  · exact held

theorem covers_flipLoop (count : Nat) (board : Board) (r c : Int) :
    Covers (flipLoop player drow dcol count board r c) board := by
  induction count generalizing board r c with
  | zero => exact fun _ _ held => held
  | succ count ih =>
    intro r' c' held
    rw [flipLoop]
    split_ifs
    · exact ih _ _ _ r' c' (covers_write board r c player r' c' held)
    · exact held

theorem covers_foldl (row col : Int) (player : Colour) (ds : List (Int × Int)) (board : Board) :
    Covers (ds.foldl (flipDirection row col player) board) board := by
  induction ds generalizing board with
  | nil => exact fun _ _ held => held
  | cons d rest ih => exact fun r c held => ih _ r c (covers_flipLoop _ board _ _ r c held)

theorem discs_applyMove (legal : Legal board player row col) :
    discs board < discs (applyMove board row col player) := by
  obtain ⟨inside, free⟩ := legal_spec legal
  have turned := covers_foldl row col player directions (board.write row col (some player))
  have placed : (board.write row col (some player)).read row col = some player := by
    rw [Grid.read_write row col inside, if_pos ⟨rfl, rfl⟩]
  rw [applyMove, if_neg (by simp [inside]), discs_eq_count, discs_eq_count]
  apply Grid.count_lt _ inside
  · rw [free]
    rfl
  · exact turned _ _ (Option.isSome_of_eq_some placed)
  · exact fun r c held => turned r c (covers_write board row col player r c held)

theorem canMove_start : CanMove startBoard .red := ⟨2, 3, by decide⟩

theorem discs_start : discs startBoard = 4 := by decide

end Rules

end SshChatter.Othello
