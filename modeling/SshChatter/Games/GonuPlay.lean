import SshChatter.Games.GonuChoice

namespace SshChatter.Gonu
open CString List

/-- Each side has as many pieces as its counter says, at most three, and they stand on valid points. -/
structure Counted (state : State) : Prop where
  player : state.board.count (· = .player) = state.playerPieces
  ai : state.board.count (· = .ai) = state.aiPieces
  playerFew : state.playerPieces ≤ 3
  aiFew : state.aiPieces ≤ 3
  valid : ∀ row col, inBounds row col → state.board.read row col ≠ .empty →
    isValidPosition state.pattern row col

structure AiReady (state : State) : Prop extends Counted state where
  lattice : ∃ variant, state.pattern = patternOf variant
  placing : state.placementPhase → state.playerPieces = state.aiPieces + 1
  sliding : state.placementPhase = false → state.playerPieces = 3 ∧ state.aiPieces = 3
  unselected : state.pieceSelected = false

structure PlayerReady (state : State) : Prop extends Counted state where
  lattice : ∃ variant, state.pattern = patternOf variant
  placing : state.placementPhase → state.playerPieces = state.aiPieces ∧ state.aiPieces ≤ 2
  sliding : state.placementPhase = false → state.playerPieces = 3 ∧ state.aiPieces = 3
  selected : state.pieceSelected → state.placementPhase = false ∧
    inBounds state.selectedRow state.selectedCol ∧
    state.board.read state.selectedRow state.selectedCol = .player

section Pieces

variable {board : Board} {pattern : Pattern} {row col r2 c2 : Int} {piece : Cell}

theorem count_place (piece : Cell) (inside : inBounds row col) (free : board.read row col = .empty)
    (side : Cell) (other : side ≠ .empty) :
    (board.write row col piece).count (· = side) = board.count (· = side) + if piece = side then 1 else 0 := by
  have change := Grid.count_write board piece (· = side) inside
  rw [free] at change
  simpa [other.symm] using change

theorem count_slide (inside : inBounds row col) (within : inBounds r2 c2) (own : board.read row col = piece)
    (free : board.read r2 c2 = .empty) (apart : ¬(r2 = row ∧ c2 = col)) (side : Cell) (other : side ≠ .empty) :
    (slide board row col r2 c2 piece).count (· = side) = board.count (· = side) := by
  have left := Grid.count_write board .empty (· = side) inside
  have arrived := Grid.count_write (board.write row col .empty) piece (· = side) within
  rw [Grid.read_write row col within, if_neg apart, free] at arrived
  rw [own] at left
  simp only [decide_eq_true_eq, other.symm, if_false, add_zero] at left arrived
  rw [slide, arrived]
  exact left

theorem valid_slide
    (valid : ∀ row col, inBounds row col → board.read row col ≠ .empty → isValidPosition pattern row col)
    (target : isValidPosition pattern r2 c2) :
    ∀ r c, inBounds r c → (slide board row col r2 c2 piece).read r c ≠ .empty → isValidPosition pattern r c := by
  intro r c inside held
  rw [slide, Grid.read_write r2 c2 inside] at held
  split_ifs at held with here
  · rw [here.1, here.2]
    exact target
  · rw [Grid.read_write row col inside] at held
    split_ifs at held
    · exact absurd rfl held
    · exact valid r c inside held

theorem count_pieces (board : Board) :
    board.count (· ≠ .empty) = board.count (· = .player) + board.count (· = .ai) := by
  rw [Grid.count, Grid.count, Grid.count]
  induction Grid.positions boardSize with
  | nil => rfl
  | cons p rest ih =>
    simp only [countP_cons]
    rw [ih]
    cases board p.1 p.2 <;> simp <;> omega

/-- Every lattice has at least seventeen points. -/
theorem valid_count (variant : Variant) :
    17 ≤ (Grid.positions boardSize).countP fun p => isValidPosition (patternOf variant) p.1 p.2 := by
  cases variant <;> decide +kernel

end Pieces

section Ai

variable {state : State} {move : AiMove} {draws : Nat × Nat}

/-- Six pieces leave a point free, so the AI always finds a placement. -/
theorem collectMoves_ne_nil (ready : AiReady state) (placing : Placing state) : collectMoves state ≠ [] := by
  obtain ⟨variant, lattice⟩ := ready.lattice
  have points := valid_count variant
  have pieces := count_pieces state.board
  have few := ready.playerFew
  have fewer := ready.aiFew
  rw [ready.player, ready.ai] at pieces
  intro none
  rw [collectMoves_placing placing, map_eq_nil_iff, filter_eq_nil_iff, lattice] at none
  have taken : (Grid.positions boardSize).countP (fun p => isValidPosition (patternOf variant) p.1 p.2) ≤
      state.board.count (· ≠ .empty) := by
    apply countP_mono_left
    intro p member valid
    have full := none p member
    simp only [valid] at full
    simpa using full
  omega

/-- A collected move keeps the counters true. -/
theorem executeMove_ready (ready : AiReady state) (member : move ∈ collectMoves state) :
    PlayerReady (executeMove state move) := by
  by_cases placing : Placing state
  · rw [collectMoves_placing placing] at member
    obtain ⟨p, listed, rfl⟩ := mem_map.mp member
    have kept := (mem_filter.mp listed).2
    rw [Bool.and_eq_true, decide_eq_true_eq] at kept
    have inside := Grid.inBounds_position p
    have free : state.board.read p.1 p.2 = .empty := (Grid.read_position p).trans kept.2
    have counts := ready.placing placing.1
    have player := count_place .ai inside free .player (by decide)
    have ai := count_place .ai inside free .ai (by decide)
    rw [ready.player] at player
    rw [ready.ai] at ai
    have valid : ∀ row col, inBounds row col → (state.board.write p.1 p.2 .ai).read row col ≠ .empty →
        isValidPosition state.pattern row col := by
      intro row col within held
      rw [Grid.read_write _ _ within] at held
      split_ifs at held with here
      · rw [here.1, here.2]
        exact kept.1
      · exact ready.valid row col within held
    have fewer := placing.2
    have unselected := ready.unselected
    simp only [executeMove]
    split_ifs with full
    · exact ⟨⟨player, ai, ready.playerFew, by simp only; omega, valid⟩, ready.lattice, fun phase => by simp at phase,
        fun _ => ⟨full.2, full.1⟩, fun chosen => absurd (unselected.symm.trans chosen) (by decide)⟩
    · refine ⟨⟨player, ai, ready.playerFew, ?_, valid⟩, ready.lattice, ?_, ?_, ?_⟩
      · simp only
        omega
      · simp only at full ⊢
        omega
      · exact fun phase => absurd (placing.1.symm.trans phase) (by decide)
      · exact fun chosen => absurd (unselected.symm.trans chosen) (by decide)
  · rw [collectMoves_sliding placing (ready.ai ▸ ready.aiFew)] at member
    obtain ⟨s, listed, rfl⟩ := mem_map.mp member
    obtain ⟨inside, own, connected, free⟩ := mem_slides listed
    obtain ⟨-, target, apart⟩ := isConnected_spec connected
    have within := inBounds_of_valid target
    have phase : state.placementPhase = false := by
      by_contra phase
      rw [Bool.not_eq_false] at phase
      have count := ready.placing phase
      have few := ready.playerFew
      exact placing ⟨phase, by omega⟩
    exact ⟨⟨(count_slide inside within own free apart .player (by decide)).trans ready.player,
        (count_slide inside within own free apart .ai (by decide)).trans ready.ai, ready.playerFew, ready.aiFew,
        valid_slide ready.valid target⟩, ready.lattice, fun placed => absurd (phase.symm.trans placed) (by decide),
      fun _ => ready.sliding phase, fun chosen => absurd (ready.unselected.symm.trans chosen) (by decide)⟩

def LegalAiMove (state : State) (draws : Nat × Nat) : Prop :=
  collectMoves state ≠ [] → ∃ move ∈ collectMoves state, aiMove state draws = some (executeMove state move) ∧
    Counted (executeMove state move) ∧
    (state.difficultyLevel = 5 → ∀ other ∈ collectMoves state, other.score ≤ move.score)

theorem legalAiMove_iff_safe (ready : AiReady state) : LegalAiMove state draws ↔ Safe state draws := by
  have few : state.board.count (· = .ai) ≤ 3 := ready.ai ▸ ready.aiFew
  by_cases found : collectMoves state = []
  · have sliding : ¬Placing state := fun placing => collectMoves_ne_nil ready placing found
    have none : slides state.pattern state.board .ai = [] := by
      rw [collectMoves_sliding sliding few, map_eq_nil_iff] at found
      exact found
    exact ⟨fun _ => .inr (.inr (.inr (.inl none))), fun _ some => absurd found some⟩
  · rw [← written_iff_safe few found]
    constructor
    · intro legal
      by_contra unwritten
      obtain ⟨move, -, moved, -⟩ := legal found
      rw [aiMove, if_neg found, chooseMove_none unwritten] at moved
      cases moved
    · intro written _
      obtain ⟨move, member, chosen, best⟩ := chooseMove_some found written
      refine ⟨move, member, ?_, (executeMove_ready ready member).toCounted, best⟩
      rw [aiMove, if_neg found, chosen]
      rfl

theorem aiMove_ready (ready : AiReady state) {next : State} (moved : aiMove state draws = some next) :
    PlayerReady next := by
  rw [aiMove] at moved
  split_ifs at moved with found
  · cases moved
    have phase : state.placementPhase = false := by
      by_contra phase
      rw [Bool.not_eq_false] at phase
      have count := ready.placing phase
      have few := ready.playerFew
      exact collectMoves_ne_nil ready ⟨phase, by omega⟩ found
    exact ⟨ready.toCounted, ready.lattice, fun placed => absurd (phase.symm.trans placed) (by decide),
      ready.sliding, fun chosen => absurd (ready.unselected.symm.trans chosen) (by decide)⟩
  · obtain ⟨move, chosen, rfl⟩ := Option.map_eq_some_iff.mp moved
    by_cases written : Written state.difficultyLevel draws (collectMoves state)
    · obtain ⟨best, member, same, -⟩ := chooseMove_some found written
      obtain rfl := Option.some.inj (same.symm.trans chosen)
      exact executeMove_ready ready member
    · rw [chooseMove_none written] at chosen
      cases chosen

end Ai

section Player

variable {state : State} {row col : Int}

/-- What a line leaves of a state in which the player is to move. -/
def Outcome.Ready : Outcome → Prop
  | .answered state => PlayerReady state
  | .cancelled => True
  | .moved state => AiReady state

theorem playerMove_ready (ready : PlayerReady state) (valid : isValidPosition state.pattern row col) :
    (playerMove state row col).Ready := by
  have inside := inBounds_of_valid valid
  rw [playerMove]
  by_cases phase : state.placementPhase
  · rw [if_pos phase]
    by_cases taken : state.board.read row col ≠ .empty
    · rw [if_pos taken]
      exact ready
    · have free := not_not.mp taken
      have counts := ready.placing phase
      have player := count_place .player inside free .player (by decide)
      have ai := count_place .player inside free .ai (by decide)
      rw [ready.player] at player
      rw [ready.ai] at ai
      have notFull : ¬(state.playerPieces + 1 = 3 ∧ state.aiPieces = 3) := by omega
      have unselected : state.pieceSelected = false := by
        by_contra chosen
        exact absurd (phase.symm.trans (ready.selected (by simpa using chosen)).1) (by decide)
      rw [if_neg taken]
      simp only [notFull, if_false]
      refine ⟨⟨player, ai, ?_, ready.aiFew, ?_⟩, ready.lattice, ?_, ?_, unselected⟩
      · simp only
        omega
      · intro r c within held
        rw [Grid.read_write _ _ within] at held
        split_ifs at held with here
        · rw [here.1, here.2]
          exact valid
        · exact ready.valid r c within held
      · simp only
        omega
      · exact fun slid => absurd (phase.symm.trans slid) (by decide)
  · have slid : state.placementPhase = false := by simpa using phase
    rw [if_neg phase]
    by_cases chosen : state.pieceSelected = false
    · rw [if_pos chosen]
      by_cases foreign : state.board.read row col ≠ .player
      · rw [if_pos foreign]
        exact ready
      · rw [if_neg foreign]
        exact ⟨⟨ready.player, ready.ai, ready.playerFew, ready.aiFew, ready.valid⟩, ready.lattice, ready.placing,
          ready.sliding, fun _ => ⟨slid, inside, not_not.mp foreign⟩⟩
    · have dropped : PlayerReady { state with pieceSelected := false } :=
        ⟨⟨ready.player, ready.ai, ready.playerFew, ready.aiFew, ready.valid⟩, ready.lattice, ready.placing,
          ready.sliding, fun again => Bool.noConfusion again⟩
      rw [if_neg chosen]
      by_cases taken : state.board.read row col ≠ .empty
      · rw [if_pos taken]
        exact dropped
      · rw [if_neg taken]
        by_cases far : isConnected state.pattern state.selectedRow state.selectedCol row col = false
        · rw [if_pos far]
          exact dropped
        · rw [if_neg far]
          obtain ⟨-, start, own⟩ := ready.selected (by simpa using chosen)
          have apart := (isConnected_spec (by simpa using far)).2.2
          have free := not_not.mp taken
          exact ⟨⟨(count_slide start inside own free apart .player (by decide)).trans ready.player,
              (count_slide start inside own free apart .ai (by decide)).trans ready.ai, ready.playerFew, ready.aiFew,
              valid_slide ready.valid valid⟩, ready.lattice, fun placed => absurd (slid.symm.trans placed) (by decide),
            fun _ => ready.sliding slid, rfl⟩

theorem playerInput_ready (ready : PlayerReady state) (input : Bytes) : (playerInput state input).Ready := by
  rw [playerInput]
  split_ifs
  · rw [selectMode]
    split_ifs
    · exact ⟨⟨ready.player, ready.ai, ready.playerFew, ready.aiFew, ready.valid⟩, ready.lattice, ready.placing,
        ready.sliding, ready.selected⟩
    · trivial
    · exact ready
  · rw [selectDifficulty]
    split_ifs
    · exact ready
    · exact ⟨⟨ready.player, ready.ai, ready.playerFew, ready.aiFew, ready.valid⟩, ready.lattice, ready.placing,
        ready.sliding, ready.selected⟩
  · exact ready
  · cases parsePosition input with
    | none => exact ready
    | some =>
      dsimp only
      split_ifs with outside invalid
      · exact ready
      · exact ready
      · exact playerMove_ready ready (by simpa using invalid)

/-- A state that waits for nobody. -/
def Idle (state : State) : Prop :=
  state.awaitingModeSelection = false ∧ state.awaitingDifficultySelection = false ∧ state.playerTurn = false

theorem playerInput_idle (idle : Idle state) (input : Bytes) : playerInput state input = .answered state := by
  simp [playerInput, idle.1, idle.2.1, idle.2.2]

end Player

structure GameReady (game : Game) : Prop where
  state : game.active → PlayerReady game.state ∨ Idle game.state
  saved : PlayerReady game.saved ∨ Idle game.saved

section Game

variable {game : Game}

/-- A line is settled in a state for the next one, or the AI is called in a state for it. -/
theorem playerTurn_ready (ready : GameReady game) (input : Bytes) :
    match playerTurn game input with
    | .settled next => GameReady next
    | .ai state => AiReady state := by
  rw [playerTurn]
  by_cases inactive : game.active = false
  · rw [if_pos inactive]
    exact ready
  · have current := ready.state (by simpa using inactive)
    split_ifs with toggle
    · rw [toggleCamouflage]
      split_ifs
      · exact ⟨fun _ => ready.saved, ready.saved⟩
      · exact ⟨ready.state, current⟩
    · rcases current with current | idle
      · have outcome := playerInput_ready current input
        cases read : playerInput game.state input with
        | answered =>
          rw [read] at outcome
          exact ⟨fun _ => .inl outcome, ready.saved⟩
        | cancelled => exact ⟨fun active => Bool.noConfusion active, ready.saved⟩
        | moved =>
          rw [read] at outcome
          dsimp only
          split_ifs
          · exact ⟨fun active => Bool.noConfusion active, ready.saved⟩
          · exact ⟨⟨outcome.player, outcome.ai, outcome.playerFew, outcome.aiFew, outcome.valid⟩, outcome.lattice,
              outcome.placing, outcome.sliding, outcome.unselected⟩
      · rw [playerInput_idle idle]
        exact ⟨fun _ => .inr idle, ready.saved⟩

theorem handleInput_ready (ready : GameReady game) {input : Bytes} {draws : Nat × Nat} {next : Game}
    (handled : handleInput game input draws = some next) : GameReady next := by
  have turn := playerTurn_ready ready input
  rw [handleInput] at handled
  cases read : playerTurn game input with
  | settled =>
    rw [read] at turn handled
    cases handled
    exact turn
  | ai =>
    rw [read] at turn handled
    obtain ⟨moved, found, rfl⟩ := Option.map_eq_some_iff.mp handled
    have later := aiMove_ready turn found
    rw [afterAi]
    split_ifs
    · exact ⟨fun active => Bool.noConfusion active, ready.saved⟩
    · exact ⟨fun _ => .inl ⟨⟨later.player, later.ai, later.playerFew, later.aiFew, later.valid⟩, later.lattice,
        later.placing, later.sliding, later.selected⟩, ready.saved⟩

theorem startGonu_ready (variant : Variant) (camouflaged : Bool) : GameReady (startGonu variant camouflaged) where
  state _ := .inl ⟨⟨rfl, rfl, Nat.zero_le _, Nat.zero_le _, fun _ _ _ held => absurd rfl held⟩, ⟨variant, rfl⟩,
    fun _ => ⟨rfl, Nat.zero_le _⟩, fun slid => Bool.noConfusion slid, fun chosen => Bool.noConfusion chosen⟩
  saved := .inr ⟨rfl, rfl, rfl⟩

end Game

/-- A property holds of every call of the AI in a run. -/
def Along (property : State → Nat × Nat → Prop) : Game → List (Bytes × Nat × Nat) → Prop
  | _, [] => True
  | game, (input, draws) :: rest =>
    (∀ state, playerTurn game input = .ai state → property state draws) ∧
      ∀ next, handleInput game input draws = some next → Along property next rest

/-- The lines of a run one after the other. -/
def play : Game → List (Bytes × Nat × Nat) → Option Game
  | game, [] => some game
  | game, (input, draws) :: rest => (handleInput game input draws).bind fun next => play next rest

theorem along_congr {game : Game} (ready : GameReady game) (events : List (Bytes × Nat × Nat)) :
    Along LegalAiMove game events ↔ Along Safe game events := by
  induction events generalizing game with
  | nil => exact Iff.rfl
  | cons event rest ih =>
    have turn := playerTurn_ready ready event.1
    refine and_congr (forall₂_congr fun state called => ?_) (forall₂_congr fun next handled => ?_)
    · rw [called] at turn
      exact legalAiMove_iff_safe turn
    · exact ih (handleInput_ready ready handled)

theorem play_isSome {game : Game} (ready : GameReady game) {events : List (Bytes × Nat × Nat)}
    (legal : Along LegalAiMove game events) : (play game events).isSome := by
  induction events generalizing game with
  | nil => rfl
  | cons event rest ih =>
    obtain ⟨first, later⟩ := legal
    have defined : ∃ next, handleInput game event.1 event.2 = some next := by
      rw [handleInput]
      cases read : playerTurn game event.1 with
      | settled settled => exact ⟨settled, rfl⟩
      | ai state =>
        by_cases found : collectMoves state = []
        · exact ⟨afterAi game state, by simp [aiMove, found]⟩
        · obtain ⟨move, -, moved, -⟩ := first state read found
          exact ⟨afterAi game (executeMove state move), by simp [moved]⟩
    obtain ⟨next, handled⟩ := defined
    rw [play, handled]
    exact ih (handleInput_ready ready handled) (later next handled)

/-- In a run against the AI every executed move is legal exactly when no call of the AI needs an index that was not
written, and such a run has no undefined step. -/
theorem aiMoves_legal_iff (variant : Variant) (camouflaged : Bool) (events : List (Bytes × Nat × Nat)) :
    (Along LegalAiMove (startGonu variant camouflaged) events ↔ Along Safe (startGonu variant camouflaged) events) ∧
    (Along Safe (startGonu variant camouflaged) events → (play (startGonu variant camouflaged) events).isSome) := by
  have ready := startGonu_ready variant camouflaged
  have same := along_congr ready events
  exact ⟨same, fun safe => play_isSome ready (same.mpr safe)⟩

theorem along_play {property : State → Nat × Nat → Prop} {game later : Game} {events rest : List (Bytes × Nat × Nat)}
    (along : Along property game (events ++ rest)) (played : play game events = some later) :
    Along property later rest := by
  induction events generalizing game with
  | nil =>
    cases played
    exact along
  | cons event events ih =>
    obtain ⟨next, handled, goesOn⟩ := Option.bind_eq_some_iff.mp played
    exact ih (along.2 next handled) goesOn

/-- The opening of a game at difficulty five, up to where the player has chosen the piece for the first slide. -/
def lostOpening : List (Bytes × Nat × Nat) :=
  [(str "single", 0, 0), (str "5", 0, 0), (str "0,2", 0, 0), (str "2,2", 0, 0), (str "2,3", 0, 0), (str "0,2", 0, 0)]

theorem lostOpening_undefined :
    ((play (startGonu .hobak false) lostOpening).any fun game => match playerTurn game (str "1,1") with
      | .settled _ => false
      | .ai state => !(collectMoves state).isEmpty && (aiMove state (0, 0)).isNone) := by
  decide +kernel

/-- After the slide every move of the AI leaves the player a winning one, and no index of a best move is written. -/
theorem aiMoves_unwritten_index :
    ¬Along LegalAiMove (startGonu .hobak false) (lostOpening ++ [(str "1,1", 0, 0)]) := by
  intro legal
  obtain ⟨game, played, reached⟩ := (Option.any_eq_true _ _).mp lostOpening_undefined
  obtain ⟨first, -⟩ := along_play legal played
  cases read : playerTurn game (str "1,1") with
  | settled =>
    rw [read] at reached
    cases reached
  | ai state =>
    simp only [read, Bool.and_eq_true, Bool.not_eq_true', isEmpty_eq_false_iff, Option.isNone_iff_eq_none] at reached
    obtain ⟨move, -, moved, -⟩ := first state read reached.1
    cases moved.symm.trans reached.2

end SshChatter.Gonu
