import SshChatter.Moderation.Pipeline

namespace SshChatter.Moderation
open CString RecordLayout BytePipe EventRun List

section Ledger

def Phase.exchanging : Phase → List ModerationTask
  | .writing task _ => [task]
  | .readingHeader task _ => [task]
  | .readingMessage task _ _ => [task]
  | _ => []

/-- The tasks that the thread took from the queue and did not settle. -/
def Phase.inHand : Phase → List ModerationTask
  | .flushing pending _ => pending
  | phase => phase.exchanging

def Afterwards.leaves : Afterwards → Bool
  | .restart _ => false
  | .leave _ => true

/-- The thread is past its loop. -/
def Phase.leaving : Phase → Bool
  | .closeWorker afterwards => afterwards.leaves
  | .flushPending afterwards => afterwards.leaves
  | .flushing _ afterwards => afterwards.leaves
  | .exited => true
  | _ => false

/-- The thread took the queue for the last time. -/
def Phase.drained : Phase → Bool
  | .flushing _ afterwards => afterwards.leaves
  | .exited => true
  | _ => false

/-- What holds between the queue, the thread and what became of the tasks. -/
structure Accounting (state : Pipeline) : Prop where
  conserved : state.accepted = state.disposed.map Disposition.task ++ (state.phase.inHand ++ state.queue)
  numbered : state.accepted.map ModerationTask.taskId =
    (range state.accepted.length).map fun index => UInt64.ofNat (index + 1)
  next : state.nextTaskId = UInt64.ofNat (state.accepted.length + 1)
  ordered : state.sent.Sublist (state.disposed.map Disposition.task ++ state.phase.exchanging)
  current : ∀ task ∈ state.phase.exchanging, state.sent.getLast? = some task
  running : state.active ∨ state.stop
  stopped : state.phase.leaving → state.stop
  drained : state.phase.drained → state.queue = []

variable {state : Pipeline}
variable {phase : Phase} {task : ModerationTask}

theorem Phase.inHand_exchanging (exchange : phase.exchanging = [task]) : phase.inHand = [task] := by
  cases phase with
  | flushing => exact absurd exchange (cons_ne_nil _ _).symm
  | _ => exact exchange

theorem Phase.leaving_exchanging (exchange : phase.exchanging = [task]) : phase.leaving = false := by
  cases phase with
  | writing => rfl
  | readingHeader => rfl
  | readingMessage => rfl
  | _ => exact absurd exchange (cons_ne_nil _ _).symm

theorem Phase.drained_leaving (drained : phase.drained) : phase.leaving := by
  cases phase with
  | flushing => exact drained
  | exited => rfl
  | _ => exact absurd drained Bool.false_ne_true

theorem Accounting.surround (accounting : Accounting state) (link : Option Link) (judged : List Judgement)
    (security : SecurityFlags) (calls : List ModerationTask) (attempts : Nat) :
    Accounting { state with link := link, judged := judged, security := security, calls := calls,
                            restartAttempts := attempts } :=
  ⟨accounting.conserved, accounting.numbered, accounting.next, accounting.ordered, accounting.current,
    accounting.running, accounting.stopped, accounting.drained⟩

theorem Accounting.linked (accounting : Accounting state) (link : Option Link) :
    Accounting { state with link := link } :=
  accounting.surround link state.judged state.security state.calls state.restartAttempts

/-- The thread can go on with the same tasks in hand. -/
theorem Accounting.move (accounting : Accounting state) (exchange : phase.exchanging = state.phase.exchanging)
    (hand : phase.inHand = state.phase.inHand) (stopped : phase.leaving → state.stop)
    (drained : phase.drained → state.queue = []) :
    Accounting { state with phase := phase } where
  conserved := by
    have conserved := accounting.conserved
    rw [← hand] at conserved
    exact conserved
  numbered := accounting.numbered
  next := accounting.next
  ordered := by
    have ordered := accounting.ordered
    rw [← exchange] at ordered
    exact ordered
  current := by
    have current := accounting.current
    rw [← exchange] at current
    exact current
  running := accounting.running
  stopped := stopped
  drained := drained

theorem Accounting.settle (accounting : Accounting state) (settled : Settled) (phase : Phase)
    (exchange : state.phase.exchanging = [task]) (hand : phase.inHand = []) (idle : phase.exchanging = [])
    (loops : phase.leaving = false) :
    Accounting { state with disposed := state.disposed ++ [⟨task, settled⟩], phase := phase } where
  conserved := by
    have conserved := accounting.conserved
    rw [Phase.inHand_exchanging exchange] at conserved
    simp only [conserved, hand, map_append, map_cons, map_nil, nil_append, append_assoc]
  numbered := accounting.numbered
  next := accounting.next
  ordered := by
    have ordered := accounting.ordered
    rw [exchange] at ordered
    simp only [idle, map_append, append_nil]
    exact ordered
  current := by
    intro current inside
    rw [idle] at inside
    exact absurd inside not_mem_nil
  running := accounting.running
  stopped := fun leaving => absurd leaving (by rw [loops]; exact Bool.false_ne_true)
  drained := fun drained => absurd (Phase.drained_leaving drained) (by rw [loops]; exact Bool.false_ne_true)

/-- The thread stops, and nothing is taken from the queue. -/
theorem Accounting.halt (accounting : Accounting state) (afterwards : Afterwards) (hand : state.phase.inHand = [])
    (idle : state.phase.exchanging = []) :
    Accounting { state with active := false, stop := true, phase := .closeWorker afterwards } where
  conserved := by
    have conserved := accounting.conserved
    rw [hand] at conserved
    exact conserved
  numbered := accounting.numbered
  next := accounting.next
  ordered := by
    have ordered := accounting.ordered
    rw [idle] at ordered
    exact ordered
  current := fun _ inside => absurd inside not_mem_nil
  running := Or.inr rfl
  stopped := fun _ => rfl
  drained := fun drained => absurd drained Bool.false_ne_true

end Ledger

section Steps

variable {state : Pipeline}

/-- What `host_moderation_queue_chat` returns says whether the task is accepted. -/
theorem enqueue_accepted (state : Pipeline) (task : ModerationTask) :
    (enqueue state task).1.accepted = state.accepted ++
      if (enqueue state task).2 then [{ task with taskId := state.nextTaskId }] else [] := by
  rw [enqueue]
  by_cases closed : (!state.active || state.stop)
  · rw [if_pos closed]
    exact (append_nil _).symm
  · rw [if_neg closed]
    rfl

theorem Accounting.enqueue (accounting : Accounting state) (task : ModerationTask) :
    Accounting (enqueue state task).1 := by
  rw [Moderation.enqueue]
  split_ifs with closed
  · exact accounting
  · have running : state.stop = false := by
      cases stop : state.stop with
      | false => rfl
      | true => exact absurd (by rw [stop, Bool.or_true]) closed
    have going : state.phase.leaving = false := by
      cases leaving : state.phase.leaving with
      | false => rfl
      | true => exact absurd (accounting.stopped leaving) (by rw [running]; exact Bool.false_ne_true)
    constructor
    case conserved =>
      simp only [accounting.conserved, append_assoc]
    case numbered =>
      simp only [map_append, map_cons, map_nil, length_append, length_cons, length_nil,
        range_succ, accounting.numbered, accounting.next]
    case next =>
      simp only [length_append, accounting.next]
      exact (UInt64.ofNat_add (state.accepted.length + 1) 1).symm
    case ordered => exact accounting.ordered
    case current => exact accounting.current
    case running => exact accounting.running
    case stopped => exact accounting.stopped
    case drained =>
      intro drained
      exact absurd (Phase.drained_leaving drained) (by rw [going]; exact Bool.false_ne_true)

theorem Accounting.shutdown (accounting : Accounting state) : Accounting (shutdown state) :=
  ⟨accounting.conserved, accounting.numbered, accounting.next, accounting.ordered, accounting.current, Or.inr rfl,
    fun _ => rfl, accounting.drained⟩

theorem Accounting.takeTask (accounting : Accounting state) (loop : state.phase = .loop) :
    Accounting (takeTask state) := by
  rw [Moderation.takeTask]
  split_ifs with stopping
  · have stop : state.stop := by
      rcases accounting.running with active | stop
      · rw [active] at stopping
        exact stopping
      · exact stop
    apply accounting.move
    · rw [loop]
      rfl
    · rw [loop]
      rfl
    · exact fun _ => stop
    · exact fun drained => absurd drained Bool.false_ne_true
  · cases waiting : state.queue with
    | nil => exact accounting
    | cons task =>
      have conserved := accounting.conserved
      have ordered := accounting.ordered
      rw [loop, waiting] at conserved
      rw [loop] at ordered
      constructor
      case conserved => exact conserved
      case numbered => exact accounting.numbered
      case next => exact accounting.next
      case ordered =>
        change state.sent.Sublist (_ ++ []) at ordered
        rw [append_nil] at ordered
        exact ordered.append (List.Sublist.refl [task])
      case current =>
        intro current inside
        obtain rfl := mem_singleton.mp inside
        exact getLast?_concat
      case running => exact accounting.running
      case stopped => exact fun leaving => absurd leaving Bool.false_ne_true
      case drained => exact fun drained => absurd drained Bool.false_ne_true

variable {task : ModerationTask} {afterwards : Afterwards}

theorem Accounting.exchange (accounting : Accounting state) (phase : Phase) (before : state.phase.exchanging = [task])
    (after : phase.exchanging = [task]) :
    Accounting { state with phase := phase } := by
  apply accounting.move
  · rw [before, after]
  · rw [Phase.inHand_exchanging before, Phase.inHand_exchanging after]
  · intro leaving
    rw [Phase.leaving_exchanging after] at leaving
    exact absurd leaving Bool.false_ne_true
  · intro drained
    exact absurd (Phase.drained_leaving drained) (by rw [Phase.leaving_exchanging after]; exact Bool.false_ne_true)

theorem Accounting.hostWrite (accounting : Accounting state) (count : Nat) : Accounting (hostWrite state count) := by
  rw [Moderation.hostWrite]
  split
  · rename_i task rest link writing _
    split_ifs with ended
    · exact accounting
    · dsimp only
      have exchange : state.phase.exchanging = [task] := by rw [writing]; rfl
      have same : Phase.exchanging (if (deliver rest link.request count).1 = [] then .readingHeader task []
          else .writing task (deliver rest link.request count).1) = [task] := by
        split_ifs
        · rfl
        · rfl
      exact (accounting.exchange _ exchange same).surround _ state.judged state.security state.calls
        state.restartAttempts
  · exact accounting

theorem Accounting.applyResult (accounting : Accounting state) (exchange : state.phase.exchanging = [task])
    (response : IpcResponse) (message : Bytes) :
    Accounting (applyResult state task response message) :=
  (accounting.settle (.applied state.sent.length response message) .loop exchange rfl rfl rfl).surround
    state.link state.judged _ state.calls state.restartAttempts

theorem Accounting.hostRead (accounting : Accounting state) (count : Nat) : Accounting (hostRead state count) := by
  rw [Moderation.hostRead]
  split
  · rename_i task got link reading _
    have exchange : state.phase.exchanging = [task] := by rw [reading]; rfl
    have linked := accounting.linked (some { link with response := (collect responseSize got link.response count).2 })
    dsimp only
    split_ifs
    · exact linked.exchange (.readingHeader task _) exchange rfl
    · exact linked.applyResult exchange _ _
    · exact linked.exchange (.readingMessage task _ []) exchange rfl
  · rename_i task response got link reading _
    have exchange : state.phase.exchanging = [task] := by rw [reading]; rfl
    have linked := accounting.linked
      (some { link with response := (collect response.messageLength.toNat got link.response count).2 })
    dsimp only
    split_ifs
    · exact linked.exchange (.readingMessage task response _) exchange rfl
    · exact linked.applyResult exchange _ _
  · exact accounting

theorem Accounting.handleFailure (accounting : Accounting state) (exchange : state.phase.exchanging = [task])
    (stable : Bool) : Accounting (handleFailure state task stable) :=
  (accounting.settle (.failed workerUnavailable) (.closeWorker (.restart _)) exchange rfl rfl rfl).surround
    state.link state.judged _ state.calls _

/-- The thread goes on without a task in hand. -/
theorem Accounting.idle (accounting : Accounting state) {before : Phase} (phase : state.phase = before) (after : Phase)
    (hand : before.inHand = after.inHand) (exchange : before.exchanging = after.exchanging)
    (stopped : after.leaving → before.leaving ∨ state.stop)
    (drained : after.drained → before.drained) : Accounting { state with phase := after } := by
  subst phase
  apply accounting.move
  · exact exchange.symm
  · exact hand.symm
  · intro leaves
    rcases stopped leaves with left | stop
    · exact accounting.stopped left
    · exact stop
  · exact fun drains => accounting.drained (drained drains)

theorem Accounting.giveUp (accounting : Accounting state) {before : Phase} (phase : state.phase = before)
    (hand : before.inHand = []) (exchange : before.exchanging = []) : Accounting (giveUp state) := by
  subst phase
  exact (accounting.halt _ hand exchange).surround state.link state.judged _ state.calls state.restartAttempts

theorem Accounting.flushPending (accounting : Accounting state) (phase : state.phase = .flushPending afterwards) :
    Accounting { state with queue := [], phase := .flushing state.queue afterwards } where
  conserved := by
    have conserved := accounting.conserved
    rw [phase] at conserved
    exact conserved.trans (congrArg _ (append_nil _).symm)
  numbered := accounting.numbered
  next := accounting.next
  ordered := by
    have ordered := accounting.ordered
    rw [phase] at ordered
    exact ordered
  current := fun _ inside => absurd inside not_mem_nil
  running := accounting.running
  stopped := by
    have stopped := accounting.stopped
    rw [phase] at stopped
    exact stopped
  drained := fun _ => rfl

theorem Accounting.flushTask (accounting : Accounting state) {rest : List ModerationTask}
    (phase : state.phase = .flushing (task :: rest) afterwards) (message : Bytes) :
    Accounting { state with disposed := state.disposed ++ [⟨task, .flushed message⟩],
                            phase := .flushing rest afterwards } where
  conserved := by
    have conserved := accounting.conserved
    rw [phase] at conserved
    simp only [conserved, Phase.inHand, map_append, map_cons, map_nil, append_assoc,
      cons_append, nil_append]
  numbered := accounting.numbered
  next := accounting.next
  ordered := by
    have ordered := accounting.ordered
    rw [phase] at ordered
    change state.sent.Sublist (_ ++ []) at ordered
    rw [append_nil] at ordered
    rw [map_append, append_assoc]
    exact ordered.trans (sublist_append_left _ _)
  current := fun _ inside => absurd inside not_mem_nil
  running := accounting.running
  stopped := by
    have stopped := accounting.stopped
    rw [phase] at stopped
    exact stopped
  drained := by
    have drained := accounting.drained
    rw [phase] at drained
    exact drained

theorem Accounting.proceed (accounting : Accounting state) (spawned : Bool) : Accounting (proceed state spawned) := by
  rw [Moderation.proceed]
  split
  case h_1 afterwards phase =>
    exact (accounting.idle phase (.flushPending afterwards) rfl rfl Or.inl nofun).linked none
  case h_2 afterwards phase => exact accounting.flushPending phase
  case h_3 task rest afterwards phase => exact accounting.flushTask phase _
  case h_4 attempt phase =>
    split_ifs
    · exact accounting.giveUp phase rfl rfl
    · exact accounting.idle phase (.backoff attempt) rfl rfl nofun nofun
  case h_5 reason phase => exact accounting.idle phase .exited rfl rfl Or.inl id
  case h_6 attempt phase =>
    split_ifs with stop
    · exact accounting.idle phase (.closeWorker _) rfl rfl (fun _ => Or.inr stop) nofun
    · exact accounting.idle phase (.spawn attempt) rfl rfl nofun nofun
  case h_7 attempt phase =>
    split_ifs
    · exact (accounting.idle phase .publish rfl rfl nofun nofun).surround _ state.judged state.security state.calls
        attempt
    · exact accounting.giveUp phase rfl rfl
  case h_8 phase =>
    split_ifs with stop
    · exact accounting.idle phase (.closeWorker _) rfl rfl (fun _ => Or.inr stop) nofun
    · have idle := accounting.idle phase .loop rfl rfl nofun nofun
      exact ⟨idle.conserved, idle.numbered, idle.next, idle.ordered, idle.current, Or.inl rfl, nofun, idle.drained⟩
  case h_9 => exact accounting

theorem Accounting.workerJudge (accounting : Accounting state) (outcome : Outcome) :
    Accounting (workerJudge state outcome) := by
  rw [Moderation.workerJudge]
  split
  · split
    · exact accounting.surround _ _ state.security state.calls state.restartAttempts
    · exact accounting
  · exact accounting

theorem Accounting.init (security : SecurityFlags) (spawned started : Bool) :
    Accounting (moderationInit security spawned started) := by
  rw [moderationInit]
  split_ifs
  · exact ⟨rfl, rfl, rfl, List.Sublist.refl _, fun _ inside => absurd inside not_mem_nil, Or.inl rfl,
      fun leaves => absurd leaves Bool.false_ne_true, fun _ => rfl⟩
  · exact ⟨rfl, rfl, rfl, List.Sublist.refl _, fun _ inside => absurd inside not_mem_nil, Or.inr rfl,
      fun _ => rfl, fun _ => rfl⟩

end Steps

section Accepted

/-- The tasks whose call of `host_moderation_queue_chat` returns true at an event. -/
def accepts (state : Pipeline) : PipelineEvent → List ModerationTask
  | .enqueue call =>
    match state.calls[call]? with
    | some task =>
      if (enqueue { state with calls := state.calls.eraseIdx call } task).2 then
        [{ task with taskId := state.nextTaskId }]
      else []
    | none => []
  | _ => []

variable (state : Pipeline)

theorem accepted_hostRead (count : Nat) : (hostRead state count).accepted = state.accepted := by
  rw [hostRead]
  split
  · dsimp only
    split_ifs
    · rfl
    · rfl
    · rfl
  · dsimp only
    split_ifs
    · rfl
    · rfl
  · rfl

theorem accepted_proceed (spawned : Bool) : (proceed state spawned).accepted = state.accepted := by
  rw [proceed]
  split
  case h_4 | h_6 | h_7 | h_8 => split_ifs <;> rfl
  all_goals rfl

/-- The accepted tasks grow by the tasks of the calls that return true, and by no other. -/
theorem accepted_step (event : PipelineEvent) :
    (pipelineStep state event).accepted = state.accepted ++ accepts state event := by
  have same : ∀ {next : Pipeline}, next.accepted = state.accepted → next.accepted = state.accepted ++ [] :=
    fun kept => kept.trans (append_nil _).symm
  cases event with
  | queueChat =>
    apply same
    rw [pipelineStep, queueChat]
    split_ifs <;> rfl
  | enqueue call =>
    rw [pipelineStep, accepts]
    cases state.calls[call]? with
    | none => exact same rfl
    | some task => exact enqueue_accepted { state with calls := state.calls.eraseIdx call } task
  | shutdown => exact same rfl
  | setSecurity => exact same rfl
  | takeTask =>
    apply same
    rw [pipelineStep, takeTask]
    split_ifs
    · rfl
    · cases state.queue <;> rfl
    · rfl
  | hostWrite =>
    apply same
    rw [pipelineStep, hostWrite]
    split
    · split_ifs <;> rfl
    · rfl
  | hostRead count => exact same (accepted_hostRead state count)
  | hostFail =>
    apply same
    rw [pipelineStep, hostFail]
    split <;> rfl
  | proceed spawned => exact same (accepted_proceed state spawned)
  | workerRead => exact same rfl
  | workerJudge =>
    apply same
    rw [pipelineStep, workerJudge]
    split
    · split <;> rfl
    · rfl
  | workerWrite => exact same rfl
  | workerDie => exact same rfl

end Accepted

end SshChatter.Moderation
