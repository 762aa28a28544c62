import SshChatter.Games.OthelloProgress

namespace SshChatter.Othello
open CString EventRun

/-- A handler leaves the sessions, the seats and the process as they are, or it suspends its own session and may have
released the slot. -/
def Local (game : Match) (who : Nat) (result : Match) : Prop :=
  (result.sessions = game.sessions ∧ result.slot.players = game.slot.players ∧ result.dead = game.dead) ∨
  ∃ slot, (slot = game.slot ∨ slot = releaseSlot game.slot) ∧ result = suspend { game with slot := slot } who

def Match.Holds (game : Match) (who : Nat) : Prop := (game.sessions who).othello.isSome

instance (game : Match) (who : Nat) : Decidable (game.Holds who) := inferInstanceAs (Decidable (_ = true))

def Match.HoldsBoth (game : Match) (players : Colour → Option Nat) : Prop :=
  (∀ player ∈ players .red, game.Holds player) ∧ ∀ player ∈ players .green, game.Holds player

instance (game : Match) (players : Colour → Option Nat) : Decidable (game.HoldsBoth players) :=
  inferInstanceAs (Decidable (_ ∧ _))

/-- Every session whose own state the event reads or writes holds one. -/
def Held (game : Match) : Event → Prop
  | .line who _ => (game.sessions who).othelloGame → game.Holds who
  | .finish _ => game.HoldsBoth game.slot.players
  | .sync who => ∀ entry ∈ game.syncing.find? (·.who = who), game.HoldsBoth entry.players
  | .allocate who => (game.sessions who).active = false → game.Holds who
  | .forcedExit _ | .start _ => True

instance (game : Match) : DecidablePred (Held game)
  | .line who _ => inferInstanceAs (Decidable ((game.sessions who).othelloGame → game.Holds who))
  | .finish _ => inferInstanceAs (Decidable (game.HoldsBoth game.slot.players))
  | .sync who =>
    inferInstanceAs (Decidable (∀ entry ∈ game.syncing.find? (·.who = who), game.HoldsBoth entry.players))
  | .allocate who => inferInstanceAs (Decidable ((game.sessions who).active = false → game.Holds who))
  | .forcedExit _ | .start _ => .isTrue trivial

/-- No session sits on both seats. -/
def Apart (slot : Slot) : Prop := ∀ who, slot.players .red = some who → slot.players .green ≠ some who

/-- A session outside an Othello game holds no state, as `session_game_suspend` releases it. -/
def Released (sessions : Nat → Session) : Prop :=
  ∀ who, (sessions who).othello.isSome → (sessions who).active ∧ (sessions who).othelloGame

section Handler

variable {game : Match} {who : Nat}

theorem local_suspend (game : Match) (who : Nat) : Local game who (suspend game who) := .inr ⟨game.slot, .inl rfl, rfl⟩

theorem handleLineMultiplayer_local (game : Match) (who : Nat) (own : OwnState) (working : Bytes) :
    Local game who (handleLineMultiplayer game who own working).1 := by
  have same : Local game who game := .inl ⟨rfl, rfl, rfl⟩
  unfold handleLineMultiplayer
  split
  · split
    · exact .inr ⟨_, by split <;> simp, rfl⟩
    · exact same
  split
  · exact local_suspend game who
  split
  · exact local_suspend game who
  split
  · exact local_suspend game who
  next player _ =>
    split
    · exact same
    split
    · exact .inl ⟨rfl, rfl, rfl⟩
    split
    · exact same
    · unfold playTurn
      dsimp only
      split_ifs <;> exact .inl ⟨rfl, rfl, rfl⟩

theorem handleForcedExit_local (game : Match) (who : Nat) : Local game who (handleForcedExit game who).1 := by
  unfold handleForcedExit
  dsimp only
  split
  · exact .inl ⟨rfl, rfl, rfl⟩
  split
  · exact local_suspend game who
  split
  · exact local_suspend game who
  · exact .inl ⟨rfl, rfl, rfl⟩

theorem Local.dead {result : Match} (within : Local game who result) : result.dead = game.dead := by
  rcases within with ⟨-, -, dead⟩ | ⟨slot, -, rfl⟩
  · exact dead
  · exact (suspend_frame _ who).2.2

theorem apart_releaseSlot (slot : Slot) : Apart (releaseSlot slot) := by
  intro who seated
  cases seated

theorem Local.apart {result : Match} (within : Local game who result) (apart : Apart game.slot) :
    Apart result.slot := by
  rcases within with ⟨-, players, -⟩ | ⟨slot, rfl | rfl, rfl⟩
  · rw [Apart, players]
    exact apart
  · rw [(suspend_frame _ who).1]
    exact apart
  · rw [(suspend_frame _ who).1]
    exact apart_releaseSlot game.slot

theorem released_setSession {session : Session} (released : Released game.sessions)
    (own : session.othello.isSome → session.active ∧ session.othelloGame) :
    Released (game.setSession who session).sessions := by
  intro other
  dsimp only [Match.setSession]
  split
  · exact own
  · exact released other

theorem released_suspend (released : Released game.sessions) (who : Nat) : Released (suspend game who).sessions := by
  unfold suspend
  dsimp only
  split
  · exact released
  · refine released_setSession released fun held => ?_
    split at held
    · cases held
    next other => exact absurd (released who held).2 other

theorem Local.released {result : Match} (within : Local game who result) (released : Released game.sessions) :
    Released result.sessions := by
  rcases within with ⟨sessions, -⟩ | ⟨slot, -, rfl⟩
  · rw [sessions]
    exact released
  · refine released_suspend ?_ who
    exact released

end Handler

section Alive

variable {game : Match}

theorem syncPlayer_holds (player : Option Nat) (slotIndex : Int) (awaiting : Bool) (other : Nat) :
    (syncPlayer game player slotIndex awaiting).Holds other ↔ game.Holds other := by
  unfold syncPlayer
  split
  · rfl
  next who =>
    split
    · rfl
    next own present =>
      dsimp only [Match.Holds, Match.setSession]
      split
      next same => simp [same, present]
      · rfl

theorem syncPlayer_dead (player : Option Nat) (slotIndex : Int) (awaiting : Bool) :
    (syncPlayer game player slotIndex awaiting).dead = false ↔
      game.dead = false ∧ ∀ who, player = some who → game.Holds who := by
  unfold syncPlayer
  split
  next => simp
  next who =>
    split
    next missing => simp [Match.die, Match.Holds, missing]
    next own present => simp [Match.setSession, Match.Holds, present]

theorem syncPlayers_dead (players : Colour → Option Nat) (slotIndex : Int) :
    (syncPlayers game players slotIndex).dead = false ↔ game.dead = false ∧ game.HoldsBoth players := by
  rw [syncPlayers, syncPlayer_dead, syncPlayer_dead, and_assoc]
  simp only [syncPlayer_holds]
  exact Iff.rfl

/-- The first player is suspended before the second one is written, so they must differ. -/
theorem finishPlayer_holds (player : Option Nat) {other : Nat} (held : game.Holds other)
    (apart : player ≠ some other) : (finishPlayer game player).Holds other := by
  unfold finishPlayer
  split
  · exact held
  next who =>
    have synced : (syncPlayer game (some who) (-1) false).Holds other := (syncPlayer_holds _ _ _ _).mpr held
    unfold suspend
    dsimp only
    split
    · exact synced
    · dsimp only [Match.Holds, Match.setSession]
      rw [if_neg fun same => apart (congrArg some same.symm)]
      exact synced

theorem finishPlayer_dead (player : Option Nat) :
    (finishPlayer game player).dead = false ↔ game.dead = false ∧ ∀ who, player = some who → game.Holds who := by
  unfold finishPlayer
  split
  next => simp
  next who => rw [(suspend_frame _ _).2.2, syncPlayer_dead]

theorem act_apart (apart : Apart game.slot) (event : Event) : Apart (act game event).1.slot := by
  cases event with
  | line who text =>
    rw [act]
    split
    · exact apart
    rcases processLine_read game who text with ⟨own, played⟩ | ⟨slot, -⟩
    · rw [played]
      exact (handleLineMultiplayer_local game who own _).apart apart
    · rw [slot]
      exact apart
  | forcedExit who =>
    rw [act]
    split
    · exact apart
    · exact (handleForcedExit_local game who).apart apart
  | finish =>
    rw [act]
    split
    · rw [finishMultiplayer_slot]
      split
      · exact apart
      · exact apart_releaseSlot _
    · exact apart
  | sync =>
    rw [act]
    split
    · exact apart
    · rw [(syncPlayers_frame _ _ _).1]
      exact apart
  | start =>
    rw [act, startOthello]
    split <;> exact apart
  | allocate who =>
    have alone : Apart { game.slot with
        inUse := true, active := false, awaitingSecondPlayer := true,
        players := fun player => if player = .red then some who else none, state := resetState } := by
      intro _ _ seated
      cases seated
    rw [act, allocateSlot]
    split
    · exact apart
    split
    · split
      · exact apart
      · exact alone
    split
    · exact apart
    · exact alone

/-- An event that finds every state it needs leaves the process alive. -/
theorem act_alive (alive : game.dead = false) (apart : Apart game.slot) {event : Event} (held : Held game event) :
    (act game event).1.dead = false := by
  cases event with
  | line who text =>
    rw [act]
    split
    · exact alive
    rcases processLine_eq game who text with same | left | ⟨othelloGame, missing, -⟩ | ⟨own, chosen⟩ | ⟨own, played⟩
    · rw [same]
      exact alive
    · rw [left]
      exact (suspend_frame game who).2.2.trans alive
    · have holds := held othelloGame
      rw [Match.Holds, missing] at holds
      cases holds
    · rw [chosen]
      exact alive
    · rw [played]
      exact (handleLineMultiplayer_local game who own _).dead.trans alive
  | forcedExit who =>
    rw [act]
    split
    · exact alive
    · exact (handleForcedExit_local game who).dead.trans alive
  | finish =>
    rw [act]
    split
    · unfold finishMultiplayer
      split
      · exact alive
      rw [finishPlayer_dead, finishPlayer_dead]
      refine ⟨⟨alive, fun player seated => held.1 player seated⟩, fun player seated => ?_⟩
      exact finishPlayer_holds _ (held.2 player seated) fun same => apart player same seated
    · exact alive
  | sync =>
    rw [act]
    split
    · exact alive
    next entry found =>
      rw [syncPlayers_dead]
      exact ⟨alive, held entry found⟩
  | start =>
    rw [act, startOthello]
    split <;> exact alive
  | allocate =>
    rw [act, allocateSlot]
    split
    · exact alive
    split
    next missing =>
      split
      · exact alive
      next idle =>
        have holds := held (by simpa using idle)
        rw [Match.Holds, missing] at holds
        cases holds
    split
    · exact alive
    · exact alive

/-- What the held states keep along a run. -/
def Alive (game : Match) : Prop := game.dead = false ∧ Apart game.slot

theorem alive_step (live : Alive game) {event : Event} (held : Held game event) : Alive (step game event) := by
  rw [step, handle, if_neg (by simp [live.1])]
  exact ⟨act_alive live.1 live.2 held, act_apart live.2 event⟩

theorem released_syncPlayer (released : Released game.sessions) (player : Option Nat) (slotIndex : Int)
    (awaiting : Bool) : Released (syncPlayer game player slotIndex awaiting).sessions := by
  unfold syncPlayer
  split
  · exact released
  · split
    · exact released
    · exact released_setSession released fun _ => ⟨rfl, rfl⟩

theorem released_finishPlayer (released : Released game.sessions) (player : Option Nat) :
    Released (finishPlayer game player).sessions := by
  unfold finishPlayer
  split
  · exact released
  · exact released_suspend (released_syncPlayer released _ _ _) _

theorem released_act (released : Released game.sessions) (event : Event) : Released (act game event).1.sessions := by
  cases event with
  | line who text =>
    rw [act]
    split
    · exact released
    rcases processLine_eq game who text with same | left | ⟨-, -, died⟩ | ⟨own, chosen⟩ | ⟨own, played⟩
    · rw [same]
      exact released
    · rw [left]
      exact released_suspend released who
    · rw [died]
      exact released
    · rw [chosen]
      exact released_setSession released fun _ => ⟨rfl, rfl⟩
    · rw [played]
      exact (handleLineMultiplayer_local game who own _).released released
  | forcedExit who =>
    rw [act]
    split
    · exact released
    · exact (handleForcedExit_local game who).released released
  | finish =>
    rw [act]
    split
    · unfold finishMultiplayer
      split
      · exact released
      · refine released_finishPlayer (released_finishPlayer ?_ _) _
        exact released
    · exact released
  | sync =>
    rw [act]
    split
    · exact released
    · refine released_syncPlayer (released_syncPlayer ?_ _ _ _) _ _ _
      exact released
  | start =>
    rw [act, startOthello]
    split
    · exact released
    · exact released_setSession released fun _ => ⟨rfl, rfl⟩
  | allocate =>
    rw [act, allocateSlot]
    split
    · exact released
    split
    · split
      · exact released
      · exact released
    split
    · exact released
    · refine released_setSession ?_ fun _ => ⟨rfl, rfl⟩
      exact released

theorem released_step (released : Released game.sessions) (event : Event) : Released (step game event).sessions := by
  rw [step, handle]
  split
  · exact released
  · exact released_act released event

end Alive

section Accept

variable {before : Match} {who draw : Nat}

/-- An accepted game is opened between two sessions, and the snapshot is copied to both. -/
theorem acceptGame_cases (accepted : (acceptGame before who draw).2) :
    (before.sessions who).active = false ∧ before.slot.inUse ∧
    ∃ creator, creator ≠ who ∧ before.Holds creator ∧ (acceptGame before who draw).1 =
      syncPlayers (before.openSlot (drawSeats creator who draw)) (drawSeats creator who draw) before.slot.slotId := by
  generalize computed : acceptGame before who draw = result at accepted ⊢
  unfold acceptGame at computed
  dsimp only at computed
  split at computed
  · subst computed
    cases accepted
  next idle =>
    split at computed
    · subst computed
      cases accepted
    next available =>
      split at computed
      · subst computed
        cases accepted
      next other =>
        split at computed
        · subst computed
          cases accepted
        next creator found =>
          obtain ⟨seated, hosts⟩ := Option.filter_eq_some_iff.mp found
          subst computed
          refine ⟨by simpa using idle, by simpa using fun free => available (.inl free), creator, ?_, ?_, rfl⟩
          · rintro rfl
            exact other seated
          · cases held : (before.sessions creator).othello with
            | none => simp [Session.hosts, held] at hosts
            | some => simp [Match.Holds, held]

theorem invariant_start (accepted : (acceptGame before who draw).2) (quiet : before.finishing = []) :
    Invariant (acceptGame before who draw).1 ∧ rank (acceptGame before who draw).1 = 60 := by
  obtain ⟨-, inUse, creator, -, -, opened⟩ := acceptGame_cases accepted
  obtain ⟨slot, finishing⟩ := syncPlayers_frame (before.openSlot (drawSeats creator who draw))
    (drawSeats creator who draw) before.slot.slotId
  rw [opened]
  refine ⟨⟨?_, ?_, ?_, ?_⟩, ?_⟩
  · rw [slot]
    exact fun _ => inUse
  · rw [slot]
    exact fun _ => canMove_start
  · rw [slot]
    exact fun _ => Nat.zero_le 1
  · rw [finishing]
    exact fun _ => quiet
  · rw [rank, slot]
    exact congrArg (64 - ·) discs_start

theorem holdsBoth_drawSeats {game : Match} {creator : Nat} :
    game.HoldsBoth (drawSeats creator who draw) ↔ game.Holds creator ∧ game.Holds who := by
  simp only [Match.HoldsBoth, drawSeats, Option.mem_some_iff, forall_eq']
  split_ifs
  · exact and_comm
  · exact Iff.rfl

/-- The process survives the acceptance exactly when the accepting session holds a state. -/
theorem acceptGame_dead (accepted : (acceptGame before who draw).2) (alive : before.dead = false) :
    (acceptGame before who draw).1.dead = false ↔ before.Holds who := by
  obtain ⟨-, -, creator, -, holds, opened⟩ := acceptGame_cases accepted
  rw [opened, syncPlayers_dead, holdsBoth_drawSeats]
  exact ⟨fun survived => survived.2.2, fun held => ⟨alive, holds, held⟩⟩

theorem acceptGame_apart (accepted : (acceptGame before who draw).2) : Apart (acceptGame before who draw).1.slot := by
  obtain ⟨-, -, creator, other, -, opened⟩ := acceptGame_cases accepted
  rw [opened, (syncPlayers_frame _ _ _).1]
  intro player red green
  have first := Option.some.inj red
  have second := Option.some.inj green
  split_ifs at first second
  · exact other (second.trans first.symm)
  · exact other (first.trans second.symm)

end Accept

/-- No session is in a game, as when the host starts. -/
def Fresh (game : Match) : Prop := ∀ who, game.sessions who = ⟨false, false, none⟩

/-- The process survives the acceptance of a game exactly when the accepting session holds a state, which no session
has in a run from a fresh host. In every run of the accepted game the player whose turn it is can move, a line that is
out of turn or names no legal move is refused, and the game ends when nobody can move or a player gives up, after at
most sixty moves. The process survives as long as every state that an event needs is held. -/
theorem acceptGame_progress (before : Match) (who draw : Nat) (accepted : (acceptGame before who draw).2)
    (alive : before.dead = false) :
    ((acceptGame before who draw).1.dead = false ↔ before.Holds who) ∧
    (∀ fresh earlier, Fresh fresh → before = run step fresh earlier → ¬before.Holds who) ∧
    (before.finishing = [] → ∀ events,
      (Ongoing (run step (acceptGame before who draw).1 events).slot →
        Progress (run step (acceptGame before who draw).1 events)) ∧
      (¬Ongoing (run step (acceptGame before who draw).1 events).slot → ∀ event,
        ¬Ongoing (step (run step (acceptGame before who draw).1 events) event).slot) ∧
      tally step (fun game event => (handle game event).2 = .placed) (acceptGame before who draw).1 events ≤ 60 ∧
      (before.Holds who → Along step Held (acceptGame before who draw).1 events →
        (run step (acceptGame before who draw).1 events).dead = false)) := by
  have survives := acceptGame_dead accepted alive
  refine ⟨survives, fun fresh earlier empty reached held => ?_, fun quiet events => ?_⟩
  · have start : Released fresh.sessions := by
      intro other some
      rw [empty other] at some
      cases some
    have released : Released before.sessions := by
      rw [reached]
      exact run_invariant step (fun game => Released game.sessions) (fun _ event kept => released_step kept event) start
        earlier
    obtain ⟨idle, -⟩ := acceptGame_cases accepted
    exact Bool.noConfusion (idle.symm.trans (released who held).1)
  · obtain ⟨invariant, room⟩ := invariant_start accepted quiet
    have later : Invariant (run step (acceptGame before who draw).1 events) :=
      run_invariant step Invariant (fun _ event kept => invariant_step kept event) invariant events
    refine ⟨progress_of_invariant later, ?_, ?_, fun held along => ?_⟩
    · intro ended event
      exact (handle_over ended event).1
    · rw [← room]
      exact tally_le_rank step rank (fun _ event kept => invariant_step kept event)
        (fun _ event kept => rank_le kept event) (fun _ event kept => rank_lt kept event) invariant events
    · exact (along_invariant Alive (fun _ _ live here => alive_step live here)
        ⟨survives.mpr held, acceptGame_apart accepted⟩ along).1

def freshMatch : Match where
  slot := ⟨1, false, false, false, fun _ => none, resetState⟩
  sessions _ := ⟨false, false, none⟩
  finishing := []
  syncing := []
  dead := false

/-- The first session waits in the slot for a second player. -/
def waitingMatch : Match := run step freshMatch [.start 1, .allocate 1]

/-- With a state left to the second session the game is played, and its first move reaches both players. -/
theorem acceptGame_progress_opening :
    let before := waitingMatch.setSession 2 ⟨false, false, some ⟨false, false, false, false, -1⟩⟩
    let events : List Event := [.line 1 (str "D3 "), .sync 1, .line 2 (str "pass")]
    (run step (acceptGame before 2 0).1 events).dead = false ∧ Ongoing (run step (acceptGame before 2 0).1
      events).slot ∧ Progress (run step (acceptGame before 2 0).1 events) ∧ (acceptGame waitingMatch 2 0).1.dead := by
  intro before events
  have ongoing : Ongoing (run step (acceptGame before 2 0).1 events).slot := by decide +kernel
  have played := (acceptGame_progress before 2 0 (by decide +kernel) (by decide +kernel)).2.2 (by decide +kernel) events
  have along : Along step Held (acceptGame before 2 0).1 events :=
    ⟨by decide +kernel, by decide +kernel, by decide +kernel, trivial⟩
  exact ⟨played.2.2.2 (by decide +kernel) along, ongoing, played.1 ongoing, by decide +kernel⟩

/-- The second session has no game and therefore no state: its acceptance of the waiting game ends the process. -/
theorem acceptGame_dies :
    ¬ ∀ (before : Match) (who draw : Nat), (acceptGame before who draw).2 → before.dead = false →
      before.finishing = [] → ∀ events, (run step (acceptGame before who draw).1 events).dead = false ∧
        (Ongoing (run step (acceptGame before who draw).1 events).slot →
          Progress (run step (acceptGame before who draw).1 events)) := by
  intro claim
  have survived := (claim waitingMatch 2 0 (by decide +kernel) (by decide +kernel) (by decide +kernel) []).1
  exact absurd survived (by decide +kernel)

end SshChatter.Othello
