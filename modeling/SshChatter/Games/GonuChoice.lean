import SshChatter.Games.Gonu

namespace SshChatter.Gonu
open List

section Slides

variable {pattern : Pattern} {board : Board} {side : Cell} {row col r2 c2 : Int} {s : (Int × Int) × Int × Int}

theorem isConnected_spec (connected : isConnected pattern row col r2 c2) :
    isValidPosition pattern row col ∧ isValidPosition pattern r2 c2 ∧ ¬(r2 = row ∧ c2 = col) := by
  simp only [isConnected, Bool.and_eq_true] at connected
  obtain ⟨⟨⟨first, second⟩, step⟩, -⟩ := connected
  refine ⟨first, second, ?_⟩
  rintro ⟨rfl, rfl⟩
  simp [isStep] at step

theorem inBounds_of_valid (valid : isValidPosition pattern row col) : inBounds row col :=
  (Bool.and_eq_true_iff.mp valid).1

theorem mem_slides (member : s ∈ slides pattern board side) :
    inBounds s.1.1 s.1.2 ∧ board.read s.1.1 s.1.2 = side ∧
      isConnected pattern s.1.1 s.1.2 s.2.1 s.2.2 ∧ board.read s.2.1 s.2.2 = .empty := by
  obtain ⟨p, -, inner⟩ := mem_flatMap.mp member
  split_ifs at inner with own
  · obtain ⟨listed, kept⟩ := mem_filter.mp inner
    obtain ⟨d, -, rfl⟩ := mem_map.mp listed
    rw [Bool.and_eq_true, decide_eq_true_eq] at kept
    exact ⟨Grid.inBounds_position p, (Grid.read_position p).trans own, kept.1, kept.2⟩
  · exact absurd inner not_mem_nil

theorem slides_length_le (pattern : Pattern) (board : Board) (side : Cell) :
    (slides pattern board side).length ≤ 9 * board.count (· = side) := by
  rw [slides, Grid.count]
  induction Grid.positions boardSize with
  | nil => exact le_refl _
  | cons p rest ih =>
    rw [flatMap_cons, length_append, countP_cons]
    by_cases own : board p.1 p.2 = side
    · have few (target : Int × Int → (Int × Int) × Int × Int) (keep : (Int × Int) × Int × Int → Bool) :
          ((offsets.map target).filter keep).length ≤ 9 := length_filter_le keep (offsets.map target)
      rw [if_pos own, if_pos (decide_eq_true own), add_comm]
      exact add_le_add ih (few _ _)
    · rw [if_neg own, if_neg (by simpa using own), length_nil, zero_add]
      exact ih

theorem countAdjacent_le (pattern : Pattern) (board : Board) (row col : Int) (side : Cell) :
    countAdjacent pattern board row col side ≤ 9 := countP_le_length

theorem positionalScore_bounds (pattern : Pattern) (board : Board) (inside : inBounds row col) :
    2 ≤ positionalScore pattern board row col ∧ positionalScore pattern board row col ≤ 73 := by
  have bounds : (0 ≤ row ∧ row < 5) ∧ 0 ≤ col ∧ col < 5 := Grid.inBounds_iff.mp inside
  have own := countAdjacent_le pattern board row col .ai
  have other := countAdjacent_le pattern board row col .player
  have size : (boardSize : Int) = 5 := rfl
  have rowFar : |2 - row| ≤ 2 := abs_le.mpr (by omega)
  have colFar : |2 - col| ≤ 2 := abs_le.mpr (by omega)
  have rowNear := abs_nonneg (2 - row)
  have colNear := abs_nonneg (2 - col)
  rw [positionalScore]
  omega

end Slides

section Choice

variable {state : State} {draws : Nat × Nat} {moves : List AiMove} {move : AiMove}

def Placing (state : State) : Prop := state.placementPhase ∧ state.aiPieces < 3

/-- A slide neither loses to a reply nor needs to fear one. -/
def Holds (state : State) (s : (Int × Int) × Int × Int) : Prop :=
  checkWin (tried state s) .ai ∨ hasWinningMove (tried state s) .player = false

theorem slideScore_lt (s : (Int × Int) × Int × Int) (inside : inBounds s.2.1 s.2.2) :
    slideScore state s < -1 ↔ ¬Holds state s := by
  have position := positionalScore_bounds state.pattern (tried state s).board inside
  have behind := countAdjacent_le state.pattern (tried state s).board s.1.1 s.1.2 .ai
  rw [slideScore, Holds]
  cases checkWin (tried state s) .ai <;> cases hasWinningMove (tried state s) .player <;>
    cases hasWinningMove state .player <;> simp <;> omega

theorem collectMoves_placing (placing : Placing state) :
    collectMoves state = ((Grid.positions boardSize).filter fun p =>
      isValidPosition state.pattern p.1 p.2 && state.board p.1 p.2 = .empty).map fun p =>
        (⟨none, p.1, p.2, positionalScore state.pattern state.board p.1 p.2⟩ : AiMove) := by
  rw [collectMoves, if_pos (by simpa [Placing] using placing), take_of_length_le]
  rw [length_map]
  exact (length_filter_le _ _).trans (by decide)

theorem collectMoves_sliding (sliding : ¬Placing state) (few : state.board.count (· = .ai) ≤ 3) :
    collectMoves state = (slides state.pattern state.board .ai).map fun s =>
      (⟨some s.1, s.2.1, s.2.2, slideScore state s⟩ : AiMove) := by
  have length := slides_length_le state.pattern state.board .ai
  rw [collectMoves, if_neg (by simpa [Placing] using sliding), take_of_length_le]
  rw [length_map]
  omega

theorem bestIndexes_eq_nil (few : state.board.count (· = .ai) ≤ 3) (found : collectMoves state ≠ []) :
    bestIndexes (collectMoves state) = [] ↔
      ¬Placing state ∧ ∀ s ∈ slides state.pattern state.board .ai, ¬Holds state s := by
  rw [bestIndexes, BestScan.bestIndexes_eq_nil (by decide)]
  by_cases placing : Placing state
  · obtain ⟨move, member⟩ := exists_mem_of_ne_nil _ found
    simp only [placing, not_true_eq_false, false_and, iff_false]
    intro low
    have below := low move member
    rw [collectMoves_placing placing] at member
    obtain ⟨p, -, rfl⟩ := mem_map.mp member
    have positive := positionalScore_bounds state.pattern state.board (Grid.inBounds_position p)
    simp only at below
    omega
  · rw [collectMoves_sliding placing few, forall_mem_map]
    simp only [placing, not_false_eq_true, true_and]
    refine forall₂_congr fun s member => slideScore_lt s ?_
    exact inBounds_of_valid (isConnected_spec (mem_slides member).2.2.1).2.1

theorem randomRange_lt (draw : Nat) {max : Nat} (positive : 0 < max) : randomRange draw max < max := by
  rw [randomRange, if_neg (ne_of_gt positive)]
  exact Nat.mod_lt _ positive

theorem random_mem (found : moves ≠ []) (draw : Nat) :
    ∃ move ∈ moves, moves[randomRange draw moves.length]? = some move := by
  have bound := randomRange_lt draw (length_pos_iff.mpr found)
  exact ⟨moves[randomRange draw moves.length], getElem_mem bound, getElem?_eq_getElem bound⟩

def Written (difficulty : Nat) (draws : Nat × Nat) (moves : List AiMove) : Prop :=
  difficulty = 1 ∨ makeGoodMove difficulty draws.1 = false ∨ bestIndexes moves ≠ []

theorem chooseMove_none {difficulty : Nat} (unwritten : ¬Written difficulty draws moves) :
    chooseMove difficulty draws moves = none := by
  simp only [Written, not_or, Bool.not_eq_false, not_not] at unwritten
  rw [chooseMove, if_neg unwritten.1, if_pos unwritten.2.1, unwritten.2.2]
  rfl

/-- A chosen move is one of the collected ones, and a best one at the highest difficulty. -/
theorem chooseMove_some {difficulty : Nat} (found : moves ≠ []) (written : Written difficulty draws moves) :
    ∃ move ∈ moves, chooseMove difficulty draws moves = some move ∧
      (difficulty = 5 → ∀ other ∈ moves, other.score ≤ move.score) := by
  by_cases easy : difficulty = 1
  · obtain ⟨move, member, chosen⟩ := random_mem found draws.2
    refine ⟨move, member, by rw [chooseMove, if_pos easy, chosen], ?_⟩
    intro hardest
    exact absurd (easy.symm.trans hardest) (by decide)
  · by_cases good : makeGoodMove difficulty draws.1
    · have best : bestIndexes moves ≠ [] := by
        rcases written with one | random | best
        · exact absurd one easy
        · exact absurd (good.symm.trans random) (by decide)
        · exact best
      have bound := randomRange_lt draws.2 (length_pos_iff.mpr best)
      obtain ⟨move, listed, greatest⟩ := BestScan.mem_bestIndexes (getElem_mem bound)
      refine ⟨move, mem_of_getElem? listed, ?_, fun _ => greatest⟩
      rw [chooseMove, if_neg easy, if_pos good, getElem?_eq_getElem bound]
      exact listed
    · obtain ⟨move, member, chosen⟩ := random_mem found draws.2
      refine ⟨move, member, by rw [chooseMove, if_neg easy, if_neg good, chosen], ?_⟩
      rintro rfl
      exact absurd rfl good

/-- The AI has no need of an index that was not written: it places a piece, has no slide, chooses at random, or has a
slide that wins or leaves the player without a winning move. -/
def Safe (state : State) (draws : Nat × Nat) : Prop :=
  Placing state ∨ state.difficultyLevel = 1 ∨ makeGoodMove state.difficultyLevel draws.1 = false ∨
    slides state.pattern state.board .ai = [] ∨ ∃ s ∈ slides state.pattern state.board .ai, Holds state s

theorem written_iff_safe (few : state.board.count (· = .ai) ≤ 3) (found : collectMoves state ≠ []) :
    Written state.difficultyLevel draws (collectMoves state) ↔ Safe state draws := by
  rw [Written, ne_eq, bestIndexes_eq_nil few found, Safe]
  by_cases placing : Placing state
  · simp [placing]
  · have slide : slides state.pattern state.board .ai ≠ [] := by
      rw [collectMoves_sliding placing few] at found
      exact fun none => found (by rw [none, map_nil])
    simp [placing, slide]

end Choice

end SshChatter.Gonu
