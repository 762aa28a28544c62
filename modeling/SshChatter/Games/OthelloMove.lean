import SshChatter.Games.Othello

namespace SshChatter.Othello
open List

def applyMoveState (state : GameState) (row col : Int) (player : Colour) : GameState :=
  if inBounds row col = false then state
  else GameState.scored { state with board := applyMove state.board row col player }

def GameState.score (state : GameState) : Colour → Nat
  | .red => state.redScore
  | .green => state.greenScore

def discsOf (board : Board) (colour : Colour) : Nat := board.count (· = some colour)

section Rays

variable {board board' : Board} {player : Colour} {row col drow dcol : Int}

def ray (row col : Int) (d : Int × Int) (length : Nat) : List (Int × Int) :=
  (range length).map fun i : Nat => (row + d.1 + i * d.1, col + d.2 + i * d.2)

theorem mem_ray {d position : Int × Int} {length : Nat} :
    position ∈ ray row col d length ↔
      ∃ i < length, position.1 = row + d.1 + i * d.1 ∧ position.2 = col + d.2 + i * d.2 := by
  simp only [ray, mem_map, mem_range, Prod.ext_iff]
  exact exists_congr fun i => and_congr_right fun _ => and_congr eq_comm eq_comm

variable {d : Int × Int} {r c : Int}

theorem directionLoop_congr (fuel : Nat) (count : Nat)
    (same : ∀ i : Nat, inBounds (r + i * drow) (c + i * dcol) → board.read (r + i * drow) (c + i * dcol) =
      board'.read (r + i * drow) (c + i * dcol)) :
    directionLoop board player drow dcol fuel r c count = directionLoop board' player drow dcol fuel r c count := by
  induction fuel generalizing r c count with
  | zero => rfl
  | succ fuel ih =>
    rw [directionLoop, directionLoop]
    by_cases inside : inBounds r c
    · have here := same 0
      simp only [Nat.cast_zero, zero_mul, add_zero] at here
      rw [here inside, ih]
      intro i within
      have next := same (i + 1)
      rw [show r + ((i + 1 : Nat) : Int) * drow = r + drow + i * drow by push_cast; ring,
        show c + ((i + 1 : Nat) : Int) * dcol = c + dcol + i * dcol by push_cast; ring] at next
      exact next within
    · rw [if_neg inside, if_neg inside]

theorem directionLoop_opponent {fuel : Nat} {count result : Nat}
    (counted : directionLoop board player drow dcol fuel r c count = result) (some' : 0 < result) :
    count ≤ result ∧ ∀ i < result - count, inBounds (r + i * drow) (c + i * dcol) ∧
      board.read (r + i * drow) (c + i * dcol) = some player.opponent := by
  induction fuel generalizing r c count with
  | zero =>
    rw [directionLoop] at counted
    omega
  | succ fuel ih =>
    rw [directionLoop] at counted
    split_ifs at counted with inside foreign own
    · obtain ⟨least, steps⟩ := ih counted
      refine ⟨by omega, fun i low => ?_⟩
      cases i with
      | zero => simpa using ⟨inside, foreign⟩
      | succ i =>
        have step := steps i (by omega)
        rwa [show r + ((i + 1 : Nat) : Int) * drow = r + drow + i * drow by push_cast; ring,
          show c + ((i + 1 : Nat) : Int) * dcol = c + dcol + i * dcol by push_cast; ring]
    · subst counted
      exact ⟨le_rfl, fun i low => by omega⟩
    · omega
    · omega

theorem flipLoop_fill (length : Nat) (board : Board)
    (inside : ∀ i < length, inBounds (r + i * drow) (c + i * dcol)) :
    flipLoop player drow dcol length board r c =
      board.fill ((range length).map fun i : Nat => (r + i * drow, c + i * dcol)) (some player) := by
  induction length generalizing board r c with
  | zero => rfl
  | succ length ih =>
    have here := inside 0 (Nat.succ_pos _)
    simp only [Nat.cast_zero, zero_mul, add_zero] at here
    rw [flipLoop, if_pos here, range_succ_eq_map, map_cons, map_map, Grid.fill_cons]
    simp only [Nat.cast_zero, zero_mul, add_zero]
    rw [ih]
    · congr 1
      apply map_congr_left
      intro i _
      simp only [Function.comp_apply, Prod.mk.injEq]
      constructor <;> push_cast <;> ring
    · intro i low
      have next := inside (i + 1) (by omega)
      rwa [show r + ((i + 1 : Nat) : Int) * drow = r + drow + i * drow by push_cast; ring,
        show c + ((i + 1 : Nat) : Int) * dcol = c + dcol + i * dcol by push_cast; ring] at next

theorem direction_sign (listed : d ∈ directions) : d.1.sign = d.1 ∧ d.2.sign = d.2 ∧ (d.1 ≠ 0 ∨ d.2 ≠ 0) := by
  revert d
  decide

theorem rays_apart {d e : Int × Int} (listed : d ∈ directions) (listed' : e ∈ directions) {i j : Nat}
    (sameRow : row + d.1 + i * d.1 = row + e.1 + j * e.1) (sameCol : col + d.2 + i * d.2 = col + e.2 + j * e.2) :
    d = e := by
  have sign (x : Int) (n : Nat) : (((n + 1 : Nat) : Int) * x).sign = x.sign := by
    rw [Int.sign_mul, Nat.cast_succ, Int.sign_natCast_add_one, one_mul]
  have first : ((i + 1 : Nat) : Int) * d.1 = ((j + 1 : Nat) : Int) * e.1 := by
    push_cast
    linarith
  have second : ((i + 1 : Nat) : Int) * d.2 = ((j + 1 : Nat) : Int) * e.2 := by
    push_cast
    linarith
  have firstSign := congrArg Int.sign first
  have secondSign := congrArg Int.sign second
  rw [sign, sign, (direction_sign listed).1, (direction_sign listed').1] at firstSign
  rw [sign, sign, (direction_sign listed).2.1, (direction_sign listed').2.1] at secondSign
  exact Prod.ext firstSign secondSign

theorem ray_nodup (row col : Int) (listed : d ∈ directions) (length : Nat) : (ray row col d length).Nodup := by
  apply nodup_range.map_on
  intro i _ j _ same
  obtain ⟨first, second⟩ := Prod.mk.inj same
  have firstMul : (i : Int) * d.1 = j * d.1 := by linarith
  have secondMul : (i : Int) * d.2 = j * d.2 := by linarith
  rcases (direction_sign listed).2.2 with moves | moves
  · exact_mod_cast Int.eq_of_mul_eq_mul_right moves firstMul
  · exact_mod_cast Int.eq_of_mul_eq_mul_right moves secondMul

theorem origin_not_mem_ray (listed : d ∈ directions) (length : Nat) : (row, col) ∉ ray row col d length := by
  intro member
  obtain ⟨i, -, first, second⟩ := mem_ray.mp member
  have firstZero : ((i + 1 : Nat) : Int) * d.1 = 0 := by
    push_cast
    linarith
  have secondZero : ((i + 1 : Nat) : Int) * d.2 = 0 := by
    push_cast
    linarith
  rcases (direction_sign listed).2.2 with moves | moves
  · exact (mul_ne_zero (by positivity) moves) firstZero
  · exact (mul_ne_zero (by positivity) moves) secondZero

end Rays

section Moves

variable {board : Board} {player : Colour} {row col : Int}

def flips (board : Board) (row col : Int) (player : Colour) (d : Int × Int) : List (Int × Int) :=
  ray row col d (directionCount board row col d.1 d.2 player)

/-- All discs that a move turns. -/
def allFlips (board : Board) (row col : Int) (player : Colour) : List (Int × Int) :=
  directions.flatMap (flips board row col player)

theorem flips_opponent {d position : Int × Int} (turned : position ∈ flips board row col player d) :
    inBounds position.1 position.2 ∧ board.read position.1 position.2 = some player.opponent := by
  obtain ⟨i, low, first, second⟩ := mem_ray.mp turned
  rw [first, second]
  exact (directionLoop_opponent rfl (Nat.zero_lt_of_lt low)).2 i low

theorem flipDirection_fill (board : Board) (row col : Int) (player : Colour) (d : Int × Int) :
    flipDirection row col player board d = board.fill (flips board row col player d) (some player) := by
  apply flipLoop_fill
  intro i low
  exact ((directionLoop_opponent rfl (Nat.zero_lt_of_lt low)).2 i low).1

theorem flips_congr {other : Board} {d : Int × Int}
    (same : ∀ i : Nat, inBounds (row + d.1 + i * d.1) (col + d.2 + i * d.2) →
      other.read (row + d.1 + i * d.1) (col + d.2 + i * d.2) = board.read (row + d.1 + i * d.1) (col + d.2 + i * d.2)) :
    flips other row col player d = flips board row col player d := by
  rw [flips, flips, directionCount, directionCount, directionLoop_congr boardSize 0 same]

/-- The directions do not interfere. On the board that is partly turned each one turns what it counts on the old one. -/
theorem flipDirections_fill {ds : List (Int × Int)} (listed : ∀ d ∈ ds, d ∈ directions) (distinct : ds.Nodup)
    {partly : Board} (same : ∀ d ∈ ds, ∀ i : Nat, inBounds (row + d.1 + i * d.1) (col + d.2 + i * d.2) →
      partly.read (row + d.1 + i * d.1) (col + d.2 + i * d.2) = board.read (row + d.1 + i * d.1)
    (col + d.2 + i * d.2)) : ds.foldl (flipDirection row col player) partly =
      partly.fill (ds.flatMap (flips board row col player)) (some player) := by
  induction ds generalizing partly with
  | nil => rfl
  | cons d ds ih =>
    obtain ⟨apart, distinct⟩ := nodup_cons.mp distinct
    have first := listed d mem_cons_self
    rw [foldl_cons, flipDirection_fill, flips_congr (same d mem_cons_self), flatMap_cons,
      Grid.fill_append]
    apply ih (fun e member => listed e (mem_cons_of_mem _ member)) distinct
    intro e member i within
    rw [Grid.read_fill _ within, if_neg, same e (mem_cons_of_mem _ member) i within]
    intro turned
    obtain ⟨j, -, sameRow, sameCol⟩ := mem_ray.mp turned
    have equal := rays_apart (listed e (mem_cons_of_mem _ member)) first sameRow sameCol
    exact apart (equal ▸ member)

theorem applyMove_fill (inside : inBounds row col) :
    applyMove board row col player = board.fill ((row, col) :: allFlips board row col player) (some player) := by
  rw [applyMove, if_neg (by rw [inside]; decide)]
  apply flipDirections_fill (fun _ listed => listed) (by decide)
  intro d listed i within
  rw [Grid.read_write _ _ within, if_neg]
  intro origin
  apply origin_not_mem_ray listed (i + 1)
  exact mem_ray.mpr ⟨i, Nat.lt_succ_self i, origin.1.symm, origin.2.symm⟩

theorem allFlips_length (board : Board) (row col : Int) (player : Colour) :
    (allFlips board row col player).length =
      (directions.map fun d => directionCount board row col d.1 d.2 player).sum := by
  rw [allFlips, length_flatMap]
  congr 1
  apply map_congr_left
  intro d _
  rw [flips, ray, length_map, length_range]

/-- No disc is turned twice. -/
theorem allFlips_nodup (board : Board) (row col : Int) (player : Colour) : (allFlips board row col player).Nodup := by
  rw [allFlips, nodup_flatMap]
  refine ⟨fun d listed => ray_nodup row col listed _, ?_⟩
  have distinct : directions.Nodup := by decide
  apply distinct.pairwise_of_forall_ne
  intro d listed e listed' different position first second
  obtain ⟨i, -, sameRow, sameCol⟩ := mem_ray.mp first
  obtain ⟨j, -, sameRow', sameCol'⟩ := mem_ray.mp second
  exact different (rays_apart listed listed' (sameRow.symm.trans sameRow') (sameCol.symm.trans sameCol'))

theorem allFlips_opponent {position : Int × Int} (turned : position ∈ allFlips board row col player) :
    inBounds position.1 position.2 ∧ board.read position.1 position.2 = some player.opponent := by
  obtain ⟨d, -, inside⟩ := mem_flatMap.mp turned
  exact flips_opponent inside

end Moves

structure MoveLaw (state after : GameState) (player : Colour) (row col : Int) (flipped : Nat) : Prop where
  placed : after.board.read row col = some player
  turned : ((Grid.positions boardSize).countP fun p =>
    state.board p.1 p.2 = some player.opponent ∧ after.board p.1 p.2 = some player) = flipped
  kept : ∀ r c, after.board r c ≠ state.board r c → ((r : Int) = row ∧ (c : Int) = col) ∨
    (state.board r c = some player.opponent ∧ after.board r c = some player)
  scores : ∀ colour, after.score colour = discsOf after.board colour
  gains : after.score player = discsOf state.board player + flipped + 1
  loses : after.score player.opponent + flipped = discsOf state.board player.opponent

section Law

variable {board : Board} {player : Colour} {row col : Int}

theorem opponent_ne (player : Colour) : player.opponent ≠ player := by
  cases player <;> decide

theorem applyMove_counts (legal : 0 < countFlips board row col player) :
    discsOf (applyMove board row col player) player = discsOf board player + countFlips board row col player + 1 ∧
      discsOf (applyMove board row col player) player.opponent + countFlips board row col player =
        discsOf board player.opponent := by
  obtain ⟨inside, empty⟩ := legal_spec legal
  have total : countFlips board row col player = (allFlips board row col player).length := by
    rw [allFlips_length, countFlips, if_neg (by rw [inside]; decide), if_neg (not_not.mpr empty)]
  have alike : ∀ position ∈ allFlips board row col player, inBounds position.1 position.2 ∧
      (board.write row col (some player)).read position.1 position.2 = some player.opponent := by
    intro position turned
    obtain ⟨within, foreign⟩ := allFlips_opponent turned
    refine ⟨within, ?_⟩
    rw [Grid.read_write _ _ within, if_neg, foreign]
    rintro ⟨sameRow, sameCol⟩
    rw [sameRow, sameCol, empty] at foreign
    cases foreign
  have filled := Grid.count_fill (allFlips_nodup board row col player) alike (some player)
  have written (holds : Option Colour → Bool) := Grid.count_write board (some player) holds inside
  have other : some player.opponent ≠ some player := fun same => opponent_ne player (Option.some.inj same)
  rw [discsOf, discsOf, discsOf, discsOf, applyMove_fill inside, Grid.fill_cons]
  dsimp only
  constructor
  · have placed := written fun cell => decide (cell = some player)
    have turned := filled fun cell => decide (cell = some player)
    simp only [empty, other, decide_false, decide_true, if_false, if_true, reduceCtorEq]
      at placed turned
    omega
  · have placed := written fun cell => decide (cell = some player.opponent)
    have turned := filled fun cell => decide (cell = some player.opponent)
    simp only [empty, other.symm, decide_false, decide_true, if_false, if_true, reduceCtorEq]
      at placed turned
    omega

theorem applyMove_cell (board : Board) (player : Colour) (inside : inBounds row col) (r c : Fin boardSize) :
    applyMove board row col player r c = board r c ∨
      (applyMove board row col player r c = some player ∧
        (((r : Int) = row ∧ (c : Int) = col) ∨ board r c = some player.opponent)) := by
  have within : inBounds r c := Grid.inBounds_position (r, c)
  have cell (grid : Board) : grid.read r c = grid r c := Grid.read_position (r, c)
  rw [← cell (applyMove board row col player), applyMove_fill inside, Grid.read_fill _ within]
  split_ifs with listed
  · refine .inr ⟨rfl, ?_⟩
    rcases mem_cons.mp listed with played | turned
    · exact .inl (Prod.mk.inj played)
    · have foreign := (allFlips_opponent turned).2
      exact .inr ((cell board).symm.trans foreign)
  · exact .inl (cell board)

/-- A legal move turns exactly the discs that are counted for it, and the scores are those of the new board. -/
theorem move_law (state : GameState) (legal : 0 < countFlips state.board row col player) :
    MoveLaw state (applyMoveState state row col player) player row col (countFlips state.board row col player) := by
  obtain ⟨inside, empty⟩ := legal_spec legal
  have moved : (applyMoveState state row col player).board = applyMove state.board row col player := by
    rw [applyMoveState, if_neg (by rw [inside]; decide)]
    rfl
  have scores : ∀ colour, (applyMoveState state row col player).score colour =
      discsOf (applyMoveState state row col player).board colour := by
    intro colour
    rw [applyMoveState, if_neg (by rw [inside]; decide)]
    cases colour <;> rfl
  obtain ⟨gains, loses⟩ := applyMove_counts legal
  constructor
  case placed =>
    rw [moved, applyMove_fill inside, Grid.read_fill _ inside, if_pos mem_cons_self]
  case turned =>
    -- The opponent keeps the discs that are not turned.
    have split := countP_eq_countP_filter_add (Grid.positions boardSize)
      (fun p => decide (state.board p.1 p.2 = some player.opponent))
      (fun p => decide ((applyMoveState state row col player).board p.1 p.2 = some player))
    rw [countP_filter, countP_filter] at split
    have rest : (Grid.positions boardSize).countP (fun p => decide (state.board p.1 p.2 = some player.opponent) &&
        !decide ((applyMoveState state row col player).board p.1 p.2 = some player)) =
          discsOf (applyMove state.board row col player) player.opponent := by
      rw [discsOf]
      apply countP_congr
      intro p _
      rw [moved]
      have other : some player.opponent ≠ some player := fun same => opponent_ne player (Option.some.inj same)
      simp only [Bool.and_eq_true, Bool.not_eq_true', decide_eq_true_eq, decide_eq_false_iff_not]
      rcases applyMove_cell state.board player inside p.1 p.2 with same | ⟨turned, -⟩
      · rw [same]
        exact ⟨fun held => held.1, fun foreign => ⟨foreign, by rw [foreign]; exact other⟩⟩
      · rw [turned]
        exact ⟨fun held => absurd rfl held.2, fun foreign => absurd foreign.symm other⟩
    have before : discsOf state.board player.opponent = (Grid.positions boardSize).countP fun p =>
        decide (state.board p.1 p.2 = some player.opponent) := rfl
    simp only [Bool.decide_and]
    omega
  case kept =>
    intro r c changed
    rw [moved] at changed ⊢
    rcases applyMove_cell state.board player inside r c with same | ⟨turned, cause⟩
    · exact absurd same changed
    · exact cause.imp_right fun foreign => ⟨foreign, turned⟩
  case scores => exact scores
  case gains => rw [scores, moved, gains]
  case loses => rw [scores, moved, loses]

/-- A square between eight green discs, and red discs behind them. -/
def ringed : GameState :=
  { resetState with
    board := fun row col =>
      if row = 3 ∧ col = 3 then none else if 2 ≤ row ∧ row ≤ 4 ∧ 2 ≤ col ∧ col ≤ 4 then some .green else some .red }

/-- A move that turns one disc in each direction. -/
theorem move_law_ringed : countFlips ringed.board 3 3 .red = 8 ∧
    MoveLaw ringed (applyMoveState ringed 3 3 .red) .red 3 3 (countFlips ringed.board 3 3 .red) :=
  ⟨by decide, move_law ringed (by decide)⟩

end Law

end SshChatter.Othello
