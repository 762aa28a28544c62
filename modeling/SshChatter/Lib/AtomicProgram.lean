import SshChatter.Lib.EventRun

namespace AtomicProgram
open EventRun List

section Programs

inductive Program (Op : Type) (Answer : Op → Type) (Result : Type) where
  | done (result : Result)
  | act (op : Op) (next : Answer op → Program Op Answer Result)

variable {Op Store Result : Type} {Answer : Op → Type} (exec : (op : Op) → Store → Store × Answer op)

def Program.run : Program Op Answer Result → Store → Store × Result
  | .done result, store => (store, result)
  | .act op next, store => (next (exec op store).2).run (exec op store).1

def Program.head : Program Op Answer Result → Option Op
  | .done _ => none
  | .act op _ => some op

/-- What is left of a program behind operations with their answers. -/
inductive Program.Follows (program : Program Op Answer Result) :
    List (Sigma Answer) → Program Op Answer Result → Prop where
  | here : program.Follows [] program
  | next {asked : List (Sigma Answer)} {op : Op} {next : Answer op → Program Op Answer Result} (answer : Answer op) :
      program.Follows asked (.act op next) → program.Follows (asked ++ [⟨op, answer⟩]) (next answer)

/-- An operation leaves every store alone. -/
def Reads (op : Op) : Prop := ∀ store, (exec op store).1 = store

def Program.ReadsFirst : Program Op Answer Result → Prop
  | .done _ => True
  | .act op next =>
    (∀ answer, ∃ result, next answer = .done result) ∨ Reads exec op ∧ ∀ answer, (next answer).ReadsFirst

def Valid (store : Store) (asked : List (Sigma Answer)) : Prop :=
  ∀ entry ∈ asked, Reads exec entry.1 ∧ (exec entry.1 store).2 = entry.2

variable {exec} {program rest : Program Op Answer Result} {asked : List (Sigma Answer)} {store : Store}

/-- A program whose answers are still right could as well start now. -/
theorem Program.Follows.run (follows : program.Follows asked rest) (valid : Valid exec store asked) :
    program.run exec store = rest.run exec store := by
  induction follows with
  | here => rfl
  | next answer follows ih =>
    have before := ih fun entry inside => valid entry (mem_append_left _ inside)
    obtain ⟨reads, same⟩ := valid _ (mem_append_right _ mem_cons_self)
    rw [before, Program.run, reads store, same]

theorem Program.Follows.readsFirst (follows : program.Follows asked rest) (first : program.ReadsFirst exec) :
    rest.ReadsFirst exec := by
  induction follows with
  | here => exact first
  | next answer follows ih =>
    rcases ih with last | ⟨-, later⟩
    · obtain ⟨result, ended⟩ := last answer
      rw [ended]
      trivial
    · exact later answer

theorem Program.Follows.unasked (follows : program.Follows [] rest) : rest = program := by
  generalize none' : ([] : List (Sigma Answer)) = asked at follows
  cases follows with
  | here => rfl
  | next => exact absurd none'.symm (append_ne_nil_of_right_ne_nil _ (cons_ne_nil _ _))

/-- Behind the first operation a program goes on with its answer. -/
theorem Program.Follows.front {op : Op} {next : Answer op → Program Op Answer Result}
    (follows : (Program.act op next).Follows asked rest) (begun : asked ≠ []) :
    ∃ answer behind, asked = ⟨op, answer⟩ :: behind ∧ (next answer).Follows behind rest := by
  have split : asked = [] ∧ rest = .act op next ∨
      ∃ answer behind, asked = ⟨op, answer⟩ :: behind ∧ (next answer).Follows behind rest := by
    clear begun
    induction follows with
    | here => exact .inl ⟨rfl, rfl⟩
    | next answer follows ih =>
      right
      rcases ih with ⟨rfl, same⟩ | ⟨first, behind, rfl, later⟩
      · cases same
        exact ⟨answer, [], rfl, .here⟩
      · exact ⟨first, behind ++ [⟨_, answer⟩], rfl, .next answer later⟩
  exact split.resolve_left fun none' => begun none'.1

theorem Program.Follows.ended {result : Result}
    (follows : (Program.done result : Program Op Answer Result).Follows asked rest) : rest = .done result := by
  induction follows with
  | here => rfl
  | next answer follows ih => cases ih

end Programs

section Machine

/-- A session is in the middle of a command. -/
structure Running (Command Op : Type) (Answer : Op → Type) (Result : Type) where
  command : Command
  rest : Program Op Answer Result
  asked : List (Sigma Answer)

/-- A store that sessions share, with the commands that were started and those that are finished. -/
structure State (Session Store Command Op : Type) (Answer : Op → Type) (Result : Type) where
  store : Store
  running : Session → Option (Running Command Op Answer Result)
  started : List (Session × Command)
  finished : List (Session × Command)

/-- A session starts a command with its first operation, or it goes on with the next operation. -/
inductive Event (Session Command : Type) where
  | start (session : Session) (command : Command)
  | advance (session : Session)

def Event.session {Session Command : Type} : Event Session Command → Session
  | .start session _ => session
  | .advance session => session

variable {Session Store Command Op Result : Type} {Answer : Op → Type} [DecidableEq Session]
  (exec : (op : Op) → Store → Store × Answer op) (program : Command → Program Op Answer Result)

def State.init (store : Store) : State Session Store Command Op Answer Result := ⟨store, fun _ => none, [], []⟩

def State.settle (state : State Session Store Command Op Answer Result) (session : Session)
    (current : Running Command Op Answer Result) : State Session Store Command Op Answer Result :=
  match current.rest with
  | .done _ =>
    { state with
      running := Function.update state.running session none
      finished := state.finished ++ [(session, current.command)] }
  | .act _ _ => { state with running := Function.update state.running session (some current) }

def State.perform (state : State Session Store Command Op Answer Result) (session : Session)
    (current : Running Command Op Answer Result) : State Session Store Command Op Answer Result :=
  match current.rest with
  | .done _ => state.settle session current
  | .act op next =>
    State.settle { state with store := (exec op state.store).1 } session
      ⟨current.command, next (exec op state.store).2, current.asked ++ [⟨op, (exec op state.store).2⟩]⟩

/-- One event. A session that is busy starts nothing, and an idle one does not go on. -/
def State.step (state : State Session Store Command Op Answer Result) :
    Event Session Command → State Session Store Command Op Answer Result
  | .start session command =>
    match state.running session with
    | some _ => state
    | none =>
      State.perform exec { state with started := state.started ++ [(session, command)] } session
        ⟨command, program command, []⟩
  | .advance session =>
    match state.running session with
    | some current => state.perform exec session current
    | none => state

def State.performed (state : State Session Store Command Op Answer Result) : Event Session Command → Option Op
  | .start session command =>
    match state.running session with
    | some _ => none
    | none => (program command).head
  | .advance session => (state.running session).bind fun current => current.rest.head

def State.Calm (disturbs : Store → Op → Op → Prop) (state : State Session Store Command Op Answer Result)
    (event : Event Session Command) : Prop :=
  ∀ op ∈ state.performed program event, ∀ other ≠ event.session, ∀ current ∈ state.running other,
    ∀ entry ∈ current.asked, ¬ disturbs state.store op entry.1

/-- The commands one after another. -/
def serial (store : Store) (commands : List Command) : Store :=
  commands.foldl (fun store command => ((program command).run exec store).1) store

/-- What a session knows in the middle of a command. -/
structure Running.Sound (store : Store) (current : Running Command Op Answer Result) : Prop where
  follows : (program current.command).Follows current.asked current.rest
  valid : Valid exec store current.asked
  begun : current.asked ≠ []

structure State.Sound (first : Store) (state : State Session Store Command Op Answer Result) : Prop where
  running : ∀ session, ∀ current ∈ state.running session, current.Sound exec program state.store
  store : state.store = serial exec program first (state.finished.map Prod.snd)
  order : ∀ session, state.started.filter (·.1 = session) =
    state.finished.filter (·.1 = session) ++
      (state.running session).toList.map fun current => (session, current.command)

variable {exec program} {disturbs : Store → Op → Op → Prop} {first : Store}
  {state : State Session Store Command Op Answer Result} {session : Session}
  {current : Running Command Op Answer Result}

theorem serial_append (commands : List Command) (command : Command) :
    serial exec program first (commands ++ [command]) =
      ((program command).run exec (serial exec program first commands)).1 := by
  rw [serial, foldl_append]
  rfl

theorem perm_of_filter {Kind Value : Type} [DecidableEq Kind] {left right : List (Kind × Value)}
    (same : ∀ kind, left.filter (·.1 = kind) = right.filter (·.1 = kind)) : left.Perm right := by
  induction left generalizing right with
  | nil =>
    cases right with
    | nil => exact List.Perm.refl _
    | cons entry => simpa using same entry.1
  | cons entry left ih =>
    have here := same entry.1
    rw [filter_cons_of_pos (by simp)] at here
    obtain ⟨before, behind, split, away⟩ : ∃ before behind, right = before ++ entry :: behind ∧
        before.filter (·.1 = entry.1) = [] := by
      obtain ⟨before, behind, split, none', _⟩ := filter_eq_cons_iff.mp here.symm
      exact ⟨before, behind, split, filter_eq_nil_iff.mpr none'⟩
    subst split
    apply List.Perm.trans _ perm_middle.symm
    apply List.Perm.cons
    apply ih
    intro kind
    have all := same kind
    rw [filter_append] at all ⊢
    by_cases kept : entry.1 = kind
    · subst kept
      rw [filter_cons_of_pos (by simp), filter_cons_of_pos (by simp), away] at all
      rw [away]
      exact (cons.inj all).2
    · rwa [filter_cons_of_neg (by simpa using kept), filter_cons_of_neg (by simpa using kept)] at all

/-- A command that is settled is finished with what its last operation made of the store, or it goes on. -/
theorem State.settle_sound (follows : (program current.command).Follows current.asked current.rest)
    (ended : ∀ result, current.rest = .done result →
      state.store = ((program current.command).run exec (serial exec program first (state.finished.map Prod.snd))).1)
    (going : ∀ op next, current.rest = .act op next → current.asked ≠ [] ∧
      Valid exec state.store current.asked ∧ state.store = serial exec program first (state.finished.map Prod.snd))
    (others : ∀ other ≠ session, ∀ known ∈ state.running other, known.Sound exec program state.store)
    (order : ∀ other, state.started.filter (·.1 = other) = state.finished.filter (·.1 = other) ++
      if other = session then [(session, current.command)]
      else (state.running other).toList.map fun known => (other, known.command)) :
    (state.settle session current).Sound exec program first := by
  rw [State.settle]
  cases rest : current.rest with
  | done result =>
    constructor
    case running =>
      intro other known here
      by_cases same : other = session
      · subst same
        simp at here
      · dsimp only at here
        rw [Function.update_of_ne same] at here
        exact others other same known here
    case store =>
      rw [map_append, map_singleton, serial_append]
      exact ended result rest
    case order =>
      intro other
      rw [order other]
      by_cases same : other = session
      · subst same
        simp
      · simp [same, Ne.symm same]
  | act op next =>
    obtain ⟨begun, valid, store⟩ := going op next rest
    constructor
    case running =>
      intro other known here
      by_cases same : other = session
      · subst same
        dsimp only at here
        rw [Function.update_self, Option.mem_some_iff] at here
        subst here
        exact ⟨follows, valid, begun⟩
      · dsimp only at here
        rw [Function.update_of_ne same] at here
        exact others other same known here
    case store => exact store
    case order =>
      intro other
      rw [order other]
      by_cases same : other = session
      · subst same
        simp
      · simp [same]

/-- What the answers of the other sessions need of an operation. -/
def Harmless (exec : (op : Op) → Store → Store × Answer op) (disturbs : Store → Op → Op → Prop) : Prop :=
  ∀ store op asked, Reads exec asked → ¬ disturbs store op asked →
    (exec asked (exec op store).1).2 = (exec asked store).2

/-- The next operation of a command keeps the account of the store. -/
theorem State.perform_sound (harmless : Harmless exec disturbs)
    (readsFirst : (program current.command).ReadsFirst exec)
    (follows : (program current.command).Follows current.asked current.rest)
    (valid : Valid exec state.store current.asked)
    (store : state.store = serial exec program first (state.finished.map Prod.snd))
    (others : ∀ other ≠ session, ∀ known ∈ state.running other, known.Sound exec program state.store)
    (calm : ∀ op ∈ current.rest.head, ∀ other ≠ session, ∀ known ∈ state.running other,
      ∀ entry ∈ known.asked, ¬ disturbs state.store op entry.1)
    (order : ∀ other, state.started.filter (·.1 = other) = state.finished.filter (·.1 = other) ++
      if other = session then [(session, current.command)]
      else (state.running other).toList.map fun known => (other, known.command)) :
    (state.perform exec session current).Sound exec program first := by
  rw [State.perform]
  cases rest : current.rest with
  | done =>
    apply State.settle_sound follows _ _ others order
    · intro result' ended
      rw [← store, follows.run valid, ended, Program.run]
    · intro op next going
      rw [rest] at going
      cases going
  | act op next =>
    rw [rest] at follows calm
    have behind := follows.next (exec op state.store).2
    apply State.settle_sound behind
    · intro result ended
      dsimp only at ended ⊢
      rw [← store, follows.run valid, Program.run, ended, Program.run]
    · intro op' next' going
      rcases follows.readsFirst readsFirst with last | ⟨reads, -⟩
      · obtain ⟨result, ended⟩ := last (exec op state.store).2
        rw [ended] at going
        cases going
      · rw [reads state.store]
        refine ⟨by simp, ?_, store⟩
        intro entry inside
        rcases mem_append.mp inside with before | new
        · exact valid entry before
        · rw [mem_singleton.mp new]
          exact ⟨reads, rfl⟩
    · intro other differs known here
      have sound := others other differs known here
      refine ⟨sound.follows, ?_, sound.begun⟩
      intro entry inside
      obtain ⟨reads, answer⟩ := sound.valid entry inside
      have quiet := calm op rfl other differs known here entry inside
      exact ⟨reads, (harmless state.store op entry.1 reads quiet).trans answer⟩
    · exact order

variable {events : List (Event Session Command)} {event : Event Session Command}

theorem State.step_sound (harmless : Harmless exec disturbs)
    (readsFirst : ∀ command, (program command).ReadsFirst exec) (sound : state.Sound exec program first)
    (calm : state.Calm program disturbs event) :
    (state.step exec program event).Sound exec program first := by
  cases event with
  | start session command =>
    rw [State.step]
    cases busy : state.running session with
    | some => exact sound
    | none =>
      have performed : state.performed program (.start session command) = (program command).head := by
        rw [State.performed, busy]
      apply State.perform_sound harmless (readsFirst command) .here
      · intro entry inside
        cases inside
      · exact sound.store
      · exact fun other _ known here => sound.running other known here
      · intro op head
        exact calm op (by rw [performed]; exact head)
      · intro other
        rw [filter_append, sound.order other]
        by_cases same : other = session
        · subst same
          simp [busy]
        · simp [same, Ne.symm same]
  | advance session =>
    rw [State.step]
    cases busy : state.running session with
    | none => exact sound
    | some current =>
      have here := sound.running session current busy
      have performed : state.performed program (.advance session) = current.rest.head := by
        rw [State.performed, busy]
        rfl
      apply State.perform_sound harmless (readsFirst current.command) here.follows here.valid sound.store
      · exact fun other _ known here => sound.running other known here
      · intro op head
        exact calm op (by rw [performed]; exact head)
      · intro other
        rw [sound.order other]
        by_cases same : other = session
        · subst same
          simp [busy]
        · simp [same]

theorem State.init_sound : (State.init first : State Session Store Command Op Answer Result).Sound exec program
    first where
  running := by
    intro session current here
    cases here
  store := rfl
  order := fun _ => rfl

theorem State.run_sound (harmless : Harmless exec disturbs)
    (readsFirst : ∀ command, (program command).ReadsFirst exec) (sound : state.Sound exec program first)
    (calm : Along (State.step exec program) (State.Calm program disturbs) state events) :
    (run (State.step exec program) state events).Sound exec program first :=
  along_invariant (State.Sound exec program first)
    (fun _ _ sound calm => State.step_sound harmless readsFirst sound calm) sound calm

theorem State.settle_store : (state.settle session current).store = state.store := by
  rw [State.settle]
  split <;> rfl

theorem State.step_store (event : Event Session Command) :
    (state.step exec program event).store =
      ((state.performed program event).map fun op => (exec op state.store).1).getD state.store := by
  have performs (before : State Session Store Command Op Answer Result) (session : Session)
      (current : Running Command Op Answer Result) :
      (before.perform exec session current).store =
        (current.rest.head.map fun op => (exec op before.store).1).getD before.store := by
    rw [State.perform]
    cases current.rest <;> exact State.settle_store
  cases event with
  | start session command =>
    rw [State.step, State.performed]
    cases state.running session with
    | some => rfl
    | none => exact performs _ session ⟨command, program command, []⟩
  | advance session =>
    rw [State.step, State.performed]
    cases state.running session with
    | none => rfl
    | some current => exact performs _ session current

/-- An event of another session leaves the command of a session alone, and the next operation does not change it. -/
theorem State.step_running (quiet : ∀ command, event ≠ .start session command)
    (here : current ∈ (state.step exec program event).running session) :
    ∃ before ∈ state.running session, before.command = current.command := by
  have settled {other : Session} {store : State Session Store Command Op Answer Result}
      {known : Running Command Op Answer Result} (inside : current ∈ (store.settle other known).running session) :
      other = session ∧ current = known ∨ other ≠ session ∧ current ∈ store.running session := by
    rw [State.settle] at inside
    by_cases same : session = other
    · subst same
      left
      split at inside <;> simp_all
    · right
      refine ⟨Ne.symm same, ?_⟩
      split at inside <;> simpa [same] using inside
  have performed {other : Session} {store : State Session Store Command Op Answer Result}
      {known : Running Command Op Answer Result} (inside : current ∈ (store.perform exec other known).running session) :
      other = session ∧ current.command = known.command ∨ other ≠ session ∧ current ∈ store.running session := by
    rw [State.perform] at inside
    split at inside
    · rcases settled inside with ⟨same, rfl⟩ | away
      · exact .inl ⟨same, rfl⟩
      · exact .inr away
    · rcases settled inside with ⟨same, rfl⟩ | away
      · exact .inl ⟨same, rfl⟩
      · exact .inr away
  cases event with
  | start other command =>
    rw [State.step] at here
    cases busy : state.running other with
    | some =>
      rw [busy] at here
      exact ⟨current, here, rfl⟩
    | none =>
      rw [busy] at here
      rcases performed here with ⟨rfl, -⟩ | ⟨-, before⟩
      · exact absurd rfl (quiet command)
      · exact ⟨current, before, rfl⟩
  | advance other =>
    rw [State.step] at here
    cases busy : state.running other with
    | none =>
      rw [busy] at here
      exact ⟨current, here, rfl⟩
    | some known =>
      rw [busy] at here
      rcases performed here with ⟨rfl, command⟩ | ⟨-, before⟩
      · exact ⟨known, busy, command.symm⟩
      · exact ⟨current, before, rfl⟩

theorem State.run_running (quiet : ∀ command, .start session command ∉ events)
    (here : current ∈ (run (State.step exec program) state events).running session) :
    ∃ before ∈ state.running session, before.command = current.command := by
  induction events generalizing state with
  | nil => exact ⟨current, here, rfl⟩
  | cons event events ih =>
    obtain ⟨middle, inside, same⟩ := ih (fun command later => quiet command (mem_cons_of_mem _ later)) here
    obtain ⟨before, earlier, again⟩ := State.step_running (fun command is => quiet command (by simp [is])) inside
    exact ⟨before, earlier, again.trans same⟩

/-- When no command is left in the middle, the finished commands are the started ones in some order. -/
theorem State.Sound.perm (sound : state.Sound exec program first) (idle : ∀ session, state.running session = none) :
    state.finished.Perm state.started := by
  apply perm_of_filter
  intro session
  rw [sound.order session, idle session]
  simp

end Machine

end AtomicProgram
