import SshChatter.Ddial.AccountGuard

namespace SshChatter.Ddial
open CString DdialProtocol EventRun Function List

theorem readMark_word (word : Bytes) (plain : ∀ c ∈ word, isSpace c = false) (some' : word ≠ [])
    (short : word.length ≤ 15) {time : Nat} (small : time < 2 ^ 63) :
    readMark (word ++ byte ' ' :: (decimal time ++ [10])) = some (word, (time : Int)) := by
  have digits : (decimal time).length ≤ 19 := decimal_length (lt_trans small (by norm_num)) (by norm_num)
  have whole : (word ++ byte ' ' :: (decimal time ++ [10])).take 63 = word ++ byte ' ' :: (decimal time ++ [10]) := by
    apply take_of_length_le
    simp only [length_append, length_cons, length_nil]
    omega
  have start : (word ++ byte ' ' :: (decimal time ++ [10])).dropWhile isSpace =
      word ++ byte ' ' :: (decimal time ++ [10]) := by
    obtain ⟨c, rest, rfl⟩ := exists_cons_of_ne_nil some'
    rw [cons_append, dropWhile_cons_of_neg (by simp [plain c mem_cons_self])]
  have state : ((word ++ byte ' ' :: (decimal time ++ [10])).take 15).takeWhile (fun c => !isSpace c) = word := by
    rw [take_append, take_of_length_le short,
      takeWhile_append_of_pos (fun c listed => by simp [plain c listed])]
    cases 15 - word.length with
    | zero => simp
    | succ => rw [take_succ_cons, takeWhile_cons_of_neg (by decide), append_nil]
  unfold readMark
  simp only [whole, start, state]
  rw [if_neg some', drop_left, strtol_blank,
    strtol_decimal small (by rintro c ⟨rfl⟩; decide)]
  rfl

theorem readMark_markText (active : Bool) {time : Nat} (small : time < 2 ^ 63) :
    readMark (markText active time) = some (if active then str "active" else str "closed", (time : Int)) := by
  cases active with
  | true => exact readMark_word (str "active") (by decide +kernel) (by decide) (by decide) small
  | false => exact readMark_word (str "closed") (by decide +kernel) (by decide) (by decide) small

section Invariant

def Phase.holdsLock : Phase → Bool
  | .dead | .off | .idle => false
  | _ => true

/-- A process at this point has a connection that the lock file does not show yet, or has truncated the lock file and
not written it again. -/
def Phase.unmarked : Phase → Bool
  | .discovering _ _ | .opened | .markingActive _ | .markingClosed _ => true
  | _ => false

/-- A process at this point is on its way to a connection. -/
def Phase.approaches : Phase → Bool
  | .locked | .discovering _ _ | .measuring _ _ | .dialing => true
  | _ => false

def Bounds (times : List Nat) (wall time : Nat) : Prop := (∀ earlier ∈ times, earlier ≤ time) ∧ time ≤ wall

def ShowsActive (file : Bytes) : Prop := ∃ time < 2 ^ 63, file = markText true time

/-- The lock file keeps the next process from dialing too early. -/
def Covers (times : List Nat) (wall : Nat) (file : Bytes) : Prop :=
  ShowsActive file ∨ (∃ time, file = markText false time ∧ Bounds times wall time) ∨ (file = [] ∧ times = [])

/-- What holds of the shared data while a process is at a point. -/
def PhaseHolds (cooldown : Nat) (times : List Nat) (wall : Nat) (file : Bytes) : Phase → Prop
  | .discovering _ stamp | .markingClosed stamp => Bounds times wall stamp
  | .measuring _ none => times = []
  | .measuring _ (some time) => ∃ stamp : Nat, time = stamp ∧ Bounds times wall stamp
  | .dialing => ∀ time ∈ times, time + cooldown ≤ wall
  | .markingActive stamp => stamp < 2 ^ 63
  | .connected | .hungUp => ShowsActive file
  | _ => True

structure ProcessHolds (cooldown : Nat) (observed : Observed) (p : Nat) : Prop where
  exclusive : (observed.station.process p).phase.holdsLock → observed.station.lock = some p
  phase : PhaseHolds cooldown observed.log.times observed.station.wall observed.station.file
    (observed.station.process p).phase
  barred : (observed.station.process p).phase ≠ .dead → observed.log.barred p →
    (observed.station.process p).lockedOut
  approaching : (observed.station.process p).phase.approaches → (observed.station.process p).lockedOut = false

/-- What holds of the processes, the lock file and the log in every state of a run. -/
structure GuardInvariant (cooldown : Nat) (observed : Observed) : Prop where
  small : observed.station.wall < 2 ^ 63
  past : ∀ time ∈ observed.log.times, time ≤ observed.station.wall
  covered : (∀ p, (observed.station.process p).phase.unmarked = false) →
    Covers observed.log.times observed.station.wall observed.station.file
  each : ∀ p, ProcessHolds cooldown observed p

variable {cooldown : Nat} {observed : Observed}

theorem guardInvariant_start (cooldown : Nat) : GuardInvariant cooldown .start where
  small := by decide
  past := nofun
  covered _ := .inr (.inr ⟨rfl, rfl⟩)
  each _ := ⟨nofun, trivial, nofun, fun _ => rfl⟩

/-- Without the lock nothing is asked of the shared data. -/
theorem phaseHolds_free {phase : Phase} (free : phase.holdsLock = false) (times : List Nat) (wall : Nat)
    (file : Bytes) : PhaseHolds cooldown times wall file phase := by
  cases phase <;> first | exact trivial | cases free

variable {log : Log}

/-- A step of one process keeps the invariant if the process holds the lock or leaves the shared data as they are. -/
theorem GuardInvariant.move (holds : GuardInvariant cooldown observed) {p : Nat} {station : Station}
    (clock : station.wall = observed.station.wall) (past : ∀ time ∈ log.times, time ≤ station.wall)
    (others : ∀ q, q ≠ p → station.process q = observed.station.process q)
    (bars : ∀ q, q ≠ p → log.barred q = observed.log.barred q)
    (lock : ∀ q, q ≠ p → observed.station.lock = some q → station.lock = some q)
    (shared : observed.station.lock = some p ∨ (station.file = observed.station.file ∧ log.times = observed.log.times))
    (mine : ProcessHolds cooldown ⟨station, log⟩ p)
    (cover : (station.process p).phase.unmarked = false → ((observed.station.process p).phase.unmarked = false → Covers
      observed.log.times observed.station.wall observed.station.file) → Covers log.times station.wall station.file) :
    GuardInvariant cooldown ⟨station, log⟩ where
  small := clock ▸ holds.small
  past := past
  covered := by
    intro quiet
    apply cover (quiet p)
    intro before
    apply holds.covered
    intro q
    by_cases same : q = p
    · exact same ▸ before
    · exact others q same ▸ quiet q
  each := by
    intro q
    by_cases same : q = p
    · exact same ▸ mine
    have old := holds.each q
    refine ⟨?_, ?_, ?_, ?_⟩
    · rw [others q same]
      exact fun locked => lock q same (old.exclusive locked)
    · dsimp only
      rw [others q same, clock]
      rcases shared with held | ⟨file, times⟩
      · apply phaseHolds_free
        by_contra locked
        have both := old.exclusive (Bool.eq_true_of_not_eq_false locked)
        rw [held] at both
        exact same (Option.some.inj both).symm
      · rw [file, times]
        exact old.phase
    · dsimp only
      rw [others q same, bars q same]
      exact old.barred
    · dsimp only
      rw [others q same]
      exact old.approaching

/-- A step that leaves the lock file and the times of the log as they are keeps the invariant. -/
theorem GuardInvariant.stay (holds : GuardInvariant cooldown observed) {p : Nat} {process : Process}
    {lock : Option Nat} (kept : ∀ q, q ≠ p → observed.station.lock = some q → lock = some q)
    (bars : ∀ q, q ≠ p → log.barred q = observed.log.barred q) (times : log.times = observed.log.times)
    (exclusive : process.phase.holdsLock → lock = some p)
    (phase : PhaseHolds cooldown observed.log.times observed.station.wall observed.station.file process.phase)
    (barred : process.phase ≠ .dead → log.barred p → process.lockedOut)
    (approaching : process.phase.approaches → process.lockedOut = false)
    (marked : process.phase.unmarked = false → (observed.station.process p).phase.unmarked = false) :
    GuardInvariant cooldown ⟨{ observed.station.put p process with lock := lock }, log⟩ := by
  have self : (observed.station.put p process).process p = process := update_self ..
  apply holds.move (p := p)
  · rfl
  · exact times ▸ holds.past
  · exact fun q other => update_of_ne other ..
  · exact bars
  · exact kept
  · exact .inr ⟨rfl, times⟩
  · constructor
    all_goals
      rw [self]
    · exact exclusive
    · rw [times]
      exact phase
    · exact barred
    · exact approaching
  · dsimp only
    rw [self, times]
    exact fun quiet before => before (marked quiet)

/-- A step of the holder of the lock that changes the shared data keeps the invariant. -/
theorem GuardInvariant.write (holds : GuardInvariant cooldown observed) {p : Nat} {process : Process} {file : Bytes}
    (held : observed.station.lock = some p) (past : ∀ time ∈ log.times, time ≤ observed.station.wall)
    (bars : ∀ q, q ≠ p → log.barred q = observed.log.barred q)
    (phase : PhaseHolds cooldown log.times observed.station.wall file process.phase)
    (barred : process.phase ≠ .dead → log.barred p → process.lockedOut)
    (approaching : process.phase.approaches → process.lockedOut = false)
    (cover : process.phase.unmarked = false → Covers log.times observed.station.wall file) :
    GuardInvariant cooldown ⟨{ observed.station.put p process with file := file }, log⟩ := by
  have self : (observed.station.put p process).process p = process := update_self ..
  apply holds.move (p := p)
  · rfl
  · exact past
  · exact fun q other => update_of_ne other ..
  · exact bars
  · exact fun _ _ => id
  · exact .inl held
  · constructor
    all_goals
      rw [self]
    · exact fun _ => held
    · exact phase
    · exact barred
    · exact approaching
  · dsimp only
    rw [self]
    exact fun quiet _ => cover quiet

end Invariant

section Steps

variable {cooldown : Nat} {observed : Observed}

/-- The clocks keep the invariant. -/
theorem GuardInvariant.tick (holds : GuardInvariant cooldown observed) {wall mono : Nat}
    (later : observed.station.wall ≤ wall) (small : wall < 2 ^ 63) :
    GuardInvariant cooldown ⟨{ observed.station with wall := wall, mono := mono }, observed.log⟩ where
  small := small
  past time listed := (holds.past time listed).trans later
  covered := by
    intro quiet
    rcases holds.covered quiet with active | ⟨time, closed, bound⟩ | empty
    · exact .inl active
    · exact .inr (.inl ⟨time, closed, bound.1, bound.2.trans later⟩)
    · exact .inr (.inr empty)
  each := by
    intro p
    have old := holds.each p
    refine ⟨old.exclusive, ?_, old.barred, old.approaching⟩
    have phase := old.phase
    revert phase
    cases (observed.station.process p).phase with
    | measuring since mark =>
      cases mark with
      | none => exact id
      | some =>
        rintro ⟨stamp, same, bound⟩
        exact ⟨stamp, same, bound.1, bound.2.trans later⟩
    | discovering => exact fun bound => ⟨bound.1, bound.2.trans later⟩
    | markingClosed => exact fun bound => ⟨bound.1, bound.2.trans later⟩
    | dialing => exact fun cooled time listed => (cooled time listed).trans later
    | _ => exact id

theorem release_other {station : Station} {p q : Nat} (other : q ≠ p) (held : station.lock = some q) :
    station.release p = some q := by
  rw [Station.release, held, if_neg]
  exact fun same => other (Option.some.inj same)

variable {p : Nat}

theorem GuardInvariant.covers (holds : GuardInvariant cooldown observed) (held : observed.station.lock = some p)
    (here : (observed.station.process p).phase.unmarked = false) :
    Covers observed.log.times observed.station.wall observed.station.file := by
  apply holds.covered
  intro q
  by_cases same : q = p
  · exact same ▸ here
  · by_contra unmarked
    have locked : (observed.station.process q).phase.holdsLock := by
      revert unmarked
      cases (observed.station.process q).phase <;> simp [Phase.unmarked, Phase.holdsLock]
    have both := (holds.each q).exclusive locked
    rw [held] at both
    exact same (Option.some.inj both).symm

theorem GuardInvariant.readLockFile (holds : GuardInvariant cooldown observed)
    (locked : (observed.station.process p).phase = .locked) :
    GuardInvariant cooldown
      ⟨observed.station.readLockFile p, observed.log.note observed.station (.readLockFile p)⟩ := by
  have old := holds.each p
  have held := old.exclusive (locked ▸ rfl)
  have allowed := old.approaching (locked ▸ rfl)
  have barred := old.barred (locked ▸ nofun)
  have here : (observed.station.process p).phase.unmarked = false := locked ▸ rfl
  rcases holds.covers held here with ⟨time, small, active⟩ | ⟨time, closed, bound⟩ | ⟨empty, none'⟩
  · have mark := readMark_markText true small
    rw [← active] at mark
    simp only [Station.readLockFile, Log.note, mark]
    have past : ∀ time ∈ (Log.times { observed.log with found := some observed.station.wall }),
        time ≤ observed.station.wall := by
      intro time listed
      rcases mem_append.mp listed with ended | found
      · exact holds.past time (mem_append_left _ ended)
      · rw [mem_singleton.mp found]
    apply holds.write held past
    · exact fun _ _ => rfl
    · exact ⟨past, le_rfl⟩
    · exact fun _ => barred
    · exact fun _ => allowed
    · exact nofun
  · have mark := readMark_markText false (bound.2.trans_lt holds.small)
    rw [← closed] at mark
    simp only [Station.readLockFile, Log.note, mark]
    exact holds.stay (fun _ _ => id) (fun _ _ => rfl) rfl (fun _ => held) ⟨time, rfl, bound⟩ (fun _ => barred)
      (fun _ => allowed) (fun _ => here)
  · have mark : readMark observed.station.file = none := by
      rw [empty]
      rfl
    simp only [Station.readLockFile, Log.note, mark]
    exact holds.stay (fun _ _ => id) (fun _ _ => rfl) rfl (fun _ => held) none' (fun _ => barred)
      (fun _ => allowed) (fun _ => here)

theorem GuardInvariant.past_ended (holds : GuardInvariant cooldown observed) (barred : Nat → Bool) :
    ∀ time ∈ Log.times { observed.log with ended := some observed.station.wall, barred := barred },
      time ≤ observed.station.wall := by
  intro time listed
  rcases mem_append.mp listed with ended | found
  · rw [mem_singleton.mp ended]
  · exact holds.past time (mem_append_right _ found)

/-- A wait of zero seconds means that the cooldown is over. -/
theorem cooled_of_measured {times : List Nat} {wall : Nat} {file : Bytes} {since : Int} {mark : Option Int}
    (measured : PhaseHolds cooldown times wall file (.measuring since mark))
    (none' : cooldownLeft cooldown (sinceMark since mark wall) = 0) : ∀ time ∈ times, time + cooldown ≤ wall := by
  intro time listed
  cases mark with
  | none =>
    rw [measured] at listed
    cases listed
  | some =>
    obtain ⟨stamp, rfl, bound⟩ := measured
    have before := bound.1 time listed
    have now := bound.2
    simp only [cooldownLeft, sinceMark] at none'
    split_ifs at none' <;> omega

theorem GuardInvariant.measure (holds : GuardInvariant cooldown observed) {since : Int} {mark : Option Int}
    (measuring : (observed.station.process p).phase = .measuring since mark) :
    GuardInvariant cooldown
      ⟨observed.station.put p { observed.station.process p with
          phase := if cooldownLeft cooldown (sinceMark since mark observed.station.wall) > 0 then .idle else .dialing },
        observed.log⟩ := by
  have old := holds.each p
  have held := old.exclusive (measuring ▸ rfl)
  have allowed := old.approaching (measuring ▸ rfl)
  have barred := old.barred (measuring ▸ nofun)
  have here : (observed.station.process p).phase.unmarked = false := measuring ▸ rfl
  have phase := old.phase
  rw [measuring] at phase
  split_ifs with wait
  · exact holds.stay (fun _ _ => id) (fun _ _ => rfl) rfl nofun trivial (fun _ => barred) nofun (fun _ => here)
  · have cooled := cooled_of_measured phase (Nat.eq_zero_of_not_pos wait)
    exact holds.stay (fun _ _ => id) (fun _ _ => rfl) rfl (fun _ => held) cooled (fun _ => barred)
      (fun _ => allowed) (fun _ => here)

theorem GuardInvariant.hangUp (holds : GuardInvariant cooldown observed) {process : Process} {barred : Nat → Bool}
    (connected : (observed.station.process p).phase = .connected) (hung : process.phase = .hungUp)
    (others : ∀ q, q ≠ p → barred q = observed.log.barred q) (mine : barred p → process.lockedOut) :
    GuardInvariant cooldown
      ⟨observed.station.put p process,
        { observed.log with ended := some observed.station.wall, barred := barred }⟩ := by
  have old := holds.each p
  have held := old.exclusive (connected ▸ rfl)
  have active := old.phase
  rw [connected] at active
  apply holds.write held (holds.past_ended barred)
  · exact others
  · rw [hung]
    exact active
  · exact fun _ => mine
  · rw [hung]
    exact nofun
  · exact fun _ => .inl active

/-- The death of a process that is not about to write a mark keeps the invariant. -/
theorem GuardInvariant.crash (holds : GuardInvariant cooldown observed)
    (marked : (observed.station.process p).phase.unmarked = false) :
    GuardInvariant cooldown
      ⟨{ observed.station.put p { observed.station.process p with phase := .dead } with
          lock := observed.station.release p }, observed.log.note observed.station (.crash p)⟩ := by
  have old := holds.each p
  rw [Log.note]
  split_ifs with isOpen
  · have connected : (observed.station.process p).phase = .connected := by
      revert isOpen marked
      cases (observed.station.process p).phase <;> simp [Phase.isOpen, Phase.unmarked]
    have active := old.phase
    rw [connected] at active
    apply holds.move (p := p)
    · rfl
    · exact holds.past_ended _
    · exact fun q other => update_of_ne other ..
    · exact fun _ _ => rfl
    · exact fun q other => release_other other
    · exact .inl (old.exclusive (connected ▸ rfl))
    · have self : (observed.station.put p { observed.station.process p with phase := .dead }).process p =
          { observed.station.process p with phase := .dead } := update_self ..
      constructor
      all_goals
        rw [self]
      · exact nofun
      · exact trivial
      · exact fun alive => absurd rfl alive
      · exact nofun
    · exact fun _ _ => .inl active
  · exact holds.stay (fun q other => release_other other) (fun _ _ => rfl) rfl nofun trivial
      (fun alive => absurd rfl alive) nofun (fun _ => marked)

theorem GuardInvariant.fresh (holds : GuardInvariant cooldown observed) {process : Process}
    (marked : (observed.station.process p).phase.unmarked = false) (free : process.phase.holdsLock = false)
    (rests : process.phase.approaches = false) :
    GuardInvariant cooldown
      ⟨observed.station.put p process, { observed.log with barred := update observed.log.barred p false }⟩ := by
  refine holds.stay (fun _ _ => id) (fun q other => update_of_ne other ..) rfl ?_ (phaseHolds_free free ..) ?_ ?_
    (fun _ => marked)
  · simp [free]
  · simp
  · simp [rests]

theorem GuardInvariant.accountLock (holds : GuardInvariant cooldown observed)
    (idle : (observed.station.process p).phase = .idle) (allowed : (observed.station.process p).lockedOut = false)
    (free : observed.station.lock = none ∨ observed.station.lock = some p) :
    GuardInvariant cooldown
      ⟨{ observed.station.put p { observed.station.process p with phase := .locked } with lock := some p },
        observed.log⟩ := by
  refine holds.stay ?_ (fun _ _ => rfl) rfl (fun _ => rfl) trivial (fun _ => (holds.each p).barred (idle ▸ nofun))
    (fun _ => allowed) (fun _ => idle ▸ rfl)
  intro q other held
  rcases free with none' | own
  · rw [none'] at held
    cases held
  · rw [own] at held
    exact absurd (Option.some.inj held).symm other

theorem GuardInvariant.connectSocket (holds : GuardInvariant cooldown observed) (reached : Bool)
    (dialing : (observed.station.process p).phase = .dialing) :
    GuardInvariant cooldown
      ⟨observed.station.put p { observed.station.process p with phase := if reached then .opened else .idle },
        observed.log⟩ := by
  have held := (holds.each p).exclusive (dialing ▸ rfl)
  have barred := (holds.each p).barred (dialing ▸ nofun)
  cases reached with
  | true => exact holds.stay (fun _ _ => id) (fun _ _ => rfl) rfl (fun _ => held) trivial (fun _ => barred) nofun nofun
  | false =>
    exact holds.stay (fun _ _ => id) (fun _ _ => rfl) rfl nofun trivial (fun _ => barred) nofun
      (fun _ => dialing ▸ rfl)

theorem GuardInvariant.line (holds : GuardInvariant cooldown observed) (text : Bytes)
    (connected : (observed.station.process p).phase = .connected) :
    GuardInvariant cooldown
      ⟨observed.station.put p (if hangsUp (normalizeLine text) then (observed.station.process p).hangUp text
          else observed.station.process p), observed.log.note observed.station (.line p text)⟩ := by
  have barred := (holds.each p).barred (connected ▸ nofun)
  rw [Log.note]
  split_ifs with ends
  · refine holds.hangUp connected rfl (fun q other => update_of_ne other ..) ?_
    intro told
    rw [update_self, Bool.or_eq_true] at told
    rw [Process.hangUp, Bool.or_eq_true]
    exact told.imp_left barred
  · exact holds.stay (fun _ _ => id) (fun _ _ => rfl) rfl (holds.each p).exclusive (holds.each p).phase
      (holds.each p).barred (holds.each p).approaching id

end Steps

section Runs

variable {cooldown : Nat} {observed : Observed}

def Observed.losesMark (observed : Observed) : GuardEvent → Bool
  | .crash p => (observed.station.process p).phase.unmarked
  | _ => false

/-- The events of a run in which no process dies at such a point. -/
def Careful (observed : Observed) (event : GuardEvent) : Prop := observed.losesMark event = false

instance decidableCareful (observed : Observed) (event : GuardEvent) : Decidable (Careful observed event) :=
  inferInstanceAs (Decidable (_ = _))

theorem GuardInvariant.step (holds : GuardInvariant cooldown observed) {event : GuardEvent} {next : Observed}
    (careful : Careful observed event) (taken : observed.step cooldown event = some next) :
    GuardInvariant cooldown next := by
  obtain ⟨station, made, rfl⟩ := Option.map_eq_some_iff.mp taken
  cases event with
  | tick =>
    obtain ⟨⟨later, small, -⟩, made⟩ := Option.ite_none_right_eq_some.mp made
    cases made
    exact holds.tick later small
  | boot =>
    obtain ⟨dead, made⟩ := Option.ite_none_right_eq_some.mp made
    cases made
    exact holds.fresh (dead ▸ rfl) rfl rfl
  | start p =>
    obtain ⟨off, made⟩ := Option.ite_none_right_eq_some.mp made
    cases made
    exact holds.stay (fun _ _ => id) (fun _ _ => rfl) rfl nofun trivial (fun _ => (holds.each p).barred (off ▸ nofun))
      nofun (fun _ => off ▸ rfl)
  | reconnect =>
    obtain ⟨off, made⟩ := Option.ite_none_right_eq_some.mp made
    cases made
    exact holds.fresh (off ▸ rfl) rfl rfl
  | requestStop p =>
    obtain ⟨alive, made⟩ := Option.ite_none_right_eq_some.mp made
    cases made
    exact holds.stay (fun _ _ => id) (fun _ _ => rfl) rfl (holds.each p).exclusive (holds.each p).phase
      (holds.each p).barred (holds.each p).approaching id
  | disconnectIdle p =>
    obtain ⟨free, made⟩ := Option.ite_none_right_eq_some.mp made
    cases made
    exact holds.stay (fun _ _ => id) (fun _ _ => rfl) rfl (holds.each p).exclusive (holds.each p).phase
      (holds.each p).barred (holds.each p).approaching id
  | finish p =>
    obtain ⟨⟨idle, -⟩, made⟩ := Option.ite_none_right_eq_some.mp made
    cases made
    exact holds.stay (fun q other => release_other other) (fun _ _ => rfl) rfl nofun trivial
      (fun _ => (holds.each p).barred (idle ▸ nofun)) nofun (fun _ => idle ▸ rfl)
  | accountLock =>
    obtain ⟨⟨idle, -, allowed, free⟩, made⟩ := Option.ite_none_right_eq_some.mp made
    cases made
    exact holds.accountLock idle allowed free
  | readLockFile =>
    obtain ⟨locked, made⟩ := Option.ite_none_right_eq_some.mp made
    cases made
    exact holds.readLockFile locked
  | writeDiscovered p =>
    simp only [Station.step] at made
    split at made
    next since stamp discovering =>
      cases made
      have phase := (holds.each p).phase
      rw [discovering] at phase
      exact holds.write ((holds.each p).exclusive (discovering ▸ rfl)) holds.past (fun _ _ => rfl)
        ⟨observed.station.wall, rfl, holds.past, le_rfl⟩ (fun _ => (holds.each p).barred (discovering ▸ nofun))
        (fun _ => (holds.each p).approaching (discovering ▸ rfl)) (fun _ => .inr (.inl ⟨stamp, rfl, phase⟩))
    next => cases made
  | measure =>
    simp only [Station.step] at made
    split at made
    next since mark measuring =>
      cases made
      exact holds.measure measuring
    next => cases made
  | connectSocket p reached =>
    obtain ⟨dialing, made⟩ := Option.ite_none_right_eq_some.mp made
    cases made
    exact holds.connectSocket reached dialing
  | truncateActive p =>
    obtain ⟨opened, made⟩ := Option.ite_none_right_eq_some.mp made
    cases made
    exact holds.write ((holds.each p).exclusive (opened ▸ rfl)) holds.past (fun _ _ => rfl) holds.small
      (fun _ => (holds.each p).barred (opened ▸ nofun)) nofun nofun
  | writeActive p =>
    simp only [Station.step] at made
    split at made
    next stamp marking =>
      cases made
      have phase := (holds.each p).phase
      rw [marking] at phase
      exact holds.write ((holds.each p).exclusive (marking ▸ rfl)) holds.past (fun _ _ => rfl) ⟨stamp, phase, rfl⟩
        (fun _ => (holds.each p).barred (marking ▸ nofun)) nofun (fun _ => .inl ⟨stamp, phase, rfl⟩)
    next => cases made
  | line p text =>
    obtain ⟨connected, made⟩ := Option.ite_none_right_eq_some.mp made
    cases made
    exact holds.line text connected
  | closeSocket p =>
    obtain ⟨connected, made⟩ := Option.ite_none_right_eq_some.mp made
    cases made
    exact holds.hangUp connected rfl (fun _ _ => rfl) ((holds.each p).barred (connected ▸ nofun))
  | truncateClosed p =>
    obtain ⟨hungUp, made⟩ := Option.ite_none_right_eq_some.mp made
    cases made
    exact holds.write ((holds.each p).exclusive (hungUp ▸ rfl)) holds.past (fun _ _ => rfl) ⟨holds.past, le_rfl⟩
      (fun _ => (holds.each p).barred (hungUp ▸ nofun)) nofun nofun
  | writeClosed p =>
    simp only [Station.step] at made
    split at made
    next stamp marking =>
      cases made
      have phase := (holds.each p).phase
      rw [marking] at phase
      exact holds.write ((holds.each p).exclusive (marking ▸ rfl)) holds.past (fun _ _ => rfl) trivial
        (fun _ => (holds.each p).barred (marking ▸ nofun)) nofun (fun _ => .inr (.inl ⟨stamp, rfl, phase⟩))
    next => cases made
  | crash =>
    obtain ⟨alive, made⟩ := Option.ite_none_right_eq_some.mp made
    cases made
    exact holds.crash careful

theorem connectSocket_isSome {station : Station} {p : Nat} {reached : Bool}
    (enabled : (station.step cooldown (.connectSocket p reached)).isSome) : (station.process p).phase = .dialing := by
  obtain ⟨next, made⟩ := Option.isSome_iff_exists.mp enabled
  exact (Option.ite_none_right_eq_some.mp made).1

theorem GuardInvariant.guarded (holds : GuardInvariant cooldown observed) : Guarded cooldown observed where
  single := by
    intro p q first second
    have locked : ∀ {phase : Phase}, phase.isOpen → phase.holdsLock := by
      intro phase
      cases phase <;> simp [Phase.isOpen, Phase.holdsLock]
    have one := (holds.each p).exclusive (locked first)
    have two := (holds.each q).exclusive (locked second)
    exact Option.some.inj (one.symm.trans two)
  spaced := by
    intro p reached enabled
    have phase := (holds.each p).phase
    rw [connectSocket_isSome enabled] at phase
    exact phase
  heeded := by
    intro p reached enabled
    have dialing := connectSocket_isSome enabled
    have allowed := (holds.each p).approaching (dialing ▸ rfl)
    by_contra barred
    have locked := (holds.each p).barred (dialing ▸ nofun) (Bool.eq_true_of_not_eq_false barred)
    rw [allowed] at locked
    cases locked

/-- In every run in which no process dies with a connection that the lock file does not show, or with a mark that is
half replaced, the account is guarded. -/
theorem account_guarded (cooldown : Nat) {observed : Observed}
    (reached : Reaches (Observed.step cooldown) Careful .start observed) : Guarded cooldown observed :=
  (reached.invariant (guardInvariant_start cooldown) fun _ _ _ holds careful taken => holds.step careful taken).guarded

/-- A process that dies while it is connected, and a process that finds its mark, waits, and dials. -/
def crashRun : List GuardEvent :=
  [.tick 1000 500, .boot 0, .start 0, .accountLock 0, .readLockFile 0, .measure 0, .connectSocket 0 true,
    .truncateActive 0, .writeActive 0, .crash 0, .boot 1, .start 1, .accountLock 1, .readLockFile 1, .writeDiscovered 1,
    .measure 1, .tick 1120 620, .accountLock 1, .readLockFile 1, .measure 1]

theorem account_guarded_crash :
    ∃ observed, Reaches (Observed.step 120) Careful .start observed ∧
      (observed.station.step 120 (.connectSocket 1 true)).isSome ∧ observed.log.times = [1000, 1000] ∧
      Guarded 120 observed := by
  have ran : (runSome (Observed.step 120) Careful .start crashRun).any (fun observed =>
      (observed.station.step 120 (.connectSocket 1 true)).isSome ∧ observed.log.times = [1000, 1000]) := by
    decide +kernel
  obtain ⟨observed, last, dials⟩ := (Option.any_eq_true _ _).mp ran
  have reached := Reaches.start.run last
  exact ⟨observed, reached, (of_decide_eq_true dials).1, (of_decide_eq_true dials).2, account_guarded 120 reached⟩

/-- A process that dies before its connection is marked, and a process that dials at once. -/
def unmarkedRun : List GuardEvent :=
  [.tick 1000 500, .boot 0, .start 0, .accountLock 0, .readLockFile 0, .measure 0, .connectSocket 0 true, .crash 0,
    .boot 1, .start 1, .accountLock 1, .readLockFile 1, .measure 1]

theorem account_unguarded :
    ¬ ∀ (cooldown : Nat) (observed : Observed),
      Reaches (Observed.step cooldown) (fun _ _ => True) .start observed → Guarded cooldown observed := by
  intro claim
  have ran : (runSome (Observed.step 120) (fun _ _ => True) .start unmarkedRun).any (fun observed =>
      (observed.station.step 120 (.connectSocket 1 true)).isSome ∧ 1000 ∈ observed.log.times ∧
        observed.station.wall = 1000) := by
    decide +kernel
  obtain ⟨observed, last, dials⟩ := (Option.any_eq_true _ _).mp ran
  obtain ⟨enabled, ended, now⟩ := of_decide_eq_true dials
  have early := (claim 120 observed (Reaches.start.run last)).spaced 1 true enabled 1000 ended
  omega

end Runs

end SshChatter.Ddial
