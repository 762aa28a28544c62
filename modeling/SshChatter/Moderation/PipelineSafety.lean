import SshChatter.Moderation.PipelineExchange

namespace SshChatter.Moderation
open CString RecordLayout BytePipe EventRun List

section Attribution

/-- A verdict was computed for a task from its category and its snippet, after the task was sent as the one of that
number and before the next one was. -/
structure Judgement.Concerns (judgement : Judgement) (serial : Nat) (task : ModerationTask) : Prop where
  serial : judgement.serial = serial
  taskId : judgement.taskId = task.taskId
  category : judgement.category = task.category
  content : judgement.content = task.snippet

/-- What the pipes and the worker hold while the thread is in a phase. -/
def Exchange (serial : Nat) (judged : List Judgement) : Phase → Link → Prop
  | .loop, link => link.Quiet
  | .publish, link => link.Quiet
  | .writing task rest, link => rest ≠ [] ∧ link.Awaits task rest
  | .readingHeader task got, link =>
    got.length < responseSize ∧
      ((got = [] ∧ link.Awaits task []) ∨
        ∃ judgement ∈ judged, judgement.Concerns serial task ∧ link.Answers judgement got)
  | .readingMessage task response got, link =>
    got.length < response.messageLength.toNat ∧
      ∃ judgement ∈ judged, judgement.Concerns serial task ∧ response = judgement.response ∧
        link.Answers judgement (response.bytes ++ got)
  | _, _ => True

/-- A verdict that was applied to a task is one that the worker computed for that sending of that task. -/
def Disposition.Attributed (sent : List ModerationTask) (judged : List Judgement) (disposition : Disposition) : Prop :=
  ∀ serial response message, disposition.settled = .applied serial response message →
    0 < serial ∧ sent[serial - 1]? = some disposition.task ∧
      ∃ judgement ∈ judged, judgement.Concerns serial disposition.task ∧ response = judgement.response ∧
        message = judgement.message.text

/-- The accounting and the exchange with the worker. -/
structure Attribution (state : Pipeline) : Prop where
  accounting : Accounting state
  exchange : ∀ link, state.link = some link → Exchange state.sent.length state.judged state.phase link
  attributed : ∀ disposition ∈ state.disposed, disposition.Attributed state.sent state.judged

variable {state : Pipeline}
variable {task : ModerationTask} {disposition : Disposition} {judged : List Judgement} {link : Link}

theorem Disposition.Attributed.other {sent : List ModerationTask}
    (unapplied : ∀ serial response message, disposition.settled ≠ .applied serial response message) :
    disposition.Attributed sent judged :=
  fun serial response message settled => absurd settled (unapplied serial response message)

theorem Disposition.Attributed.grow {sent sent' : List ModerationTask} {judged judged' : List Judgement}
    (attributed : disposition.Attributed sent judged) (later : sent <+: sent') (known : judged ⊆ judged') :
    disposition.Attributed sent' judged' := by
  intro serial response message settled
  obtain ⟨positive, place, judgement, inside, rest⟩ := attributed serial response message settled
  have place' : sent'[serial - 1]? = some disposition.task := by
    obtain ⟨more, rfl⟩ := later
    rw [getElem?_append_left (List.getElem?_eq_some_iff.mp place).1]
    exact place
  exact ⟨positive, place', judgement, known inside, rest⟩

/-- A move of the worker that all three situations of the pipes survive. -/
theorem Exchange.worker {serial : Nat} {phase : Phase} {link link' : Link}
    (exchange : Exchange serial judged phase link) (quiet : link.Quiet → link'.Quiet)
    (awaits : ∀ task rest, link.Awaits task rest → link'.Awaits task rest)
    (answers : ∀ judgement taken, link.Answers judgement taken → link'.Answers judgement taken) :
    Exchange serial judged phase link' := by
  cases phase with
  | loop => exact quiet exchange
  | publish => exact quiet exchange
  | writing task rest => exact ⟨exchange.1, awaits task rest exchange.2⟩
  | readingHeader task got =>
    obtain ⟨short, ⟨nothing, waiting⟩ | ⟨judgement, inside, concerns, answer⟩⟩ := exchange
    · exact ⟨short, Or.inl ⟨nothing, awaits task [] waiting⟩⟩
    · exact ⟨short, Or.inr ⟨judgement, inside, concerns, answers judgement got answer⟩⟩
  | readingMessage =>
    obtain ⟨short, judgement, inside, concerns, same, answer⟩ := exchange
    exact ⟨short, judgement, inside, concerns, same, answers judgement _ answer⟩
  | _ => trivial

theorem Attribution.worker (attribution : Attribution state) (move : Link → Link)
    (quiet : ∀ link : Link, link.Quiet → (move link).Quiet)
    (awaits : ∀ link task rest, link.Awaits task rest → (move link).Awaits task rest)
    (answers : ∀ link judgement taken, link.Answers judgement taken → (move link).Answers judgement taken) :
    Attribution { state with link := state.link.map move } where
  accounting := attribution.accounting.linked _
  exchange := by
    intro link' moved
    obtain ⟨link, present, rfl⟩ := Option.map_eq_some_iff.mp moved
    exact (attribution.exchange link present).worker (quiet link) (awaits link) (answers link)
  attributed := attribution.attributed

theorem Attribution.settle (attribution : Attribution state) (now : disposition.Attributed state.sent state.judged) :
    ∀ listed ∈ state.disposed ++ [disposition], listed.Attributed state.sent state.judged := by
  rw [forall_mem_append, forall_mem_singleton]
  exact ⟨attribution.attributed, now⟩

theorem Attribution.surround (attribution : Attribution state) (security : SecurityFlags)
    (calls : List ModerationTask) (attempts : Nat) :
    Attribution { state with security := security, calls := calls, restartAttempts := attempts } :=
  ⟨attribution.accounting.surround state.link state.judged security calls attempts, attribution.exchange,
    attribution.attributed⟩

theorem Attribution.queueChat (attribution : Attribution state) (username clientIp message : Bytes) (length : Nat)
    (allocated : Bool) : Attribution (queueChat state username clientIp message length allocated) := by
  rw [Moderation.queueChat]
  split_ifs
  · exact attribution
  · exact attribution
  · exact attribution
  · exact attribution.surround _ state.calls state.restartAttempts
  · exact attribution
  · exact attribution.surround state.security _ state.restartAttempts

theorem Attribution.enqueue (attribution : Attribution state) (task : ModerationTask) :
    Attribution (enqueue state task).1 := by
  have accounting := attribution.accounting.enqueue task
  rw [Moderation.enqueue] at accounting ⊢
  split_ifs with closed
  · exact attribution
  · rw [if_neg closed] at accounting
    exact ⟨accounting, attribution.exchange, attribution.attributed⟩

/-- The thread takes the next task from the queue. -/
theorem Attribution.takeTask (attribution : Attribution state) (loop : state.phase = .loop) :
    Attribution (takeTask state) := by
  have accounting := attribution.accounting.takeTask loop
  have quiet : ∀ link, state.link = some link → link.Quiet := by
    intro link present
    have exchange := attribution.exchange link present
    rw [loop] at exchange
    exact exchange
  rw [Moderation.takeTask] at accounting ⊢
  split_ifs with stopping
  · rw [if_pos stopping] at accounting
    exact ⟨accounting, fun _ _ => trivial, attribution.attributed⟩
  · rw [if_neg stopping] at accounting
    cases waiting : state.queue with
    | nil => exact attribution
    | cons task =>
      rw [waiting] at accounting
      constructor
      case accounting => exact accounting
      case exchange =>
        intro link present
        have written : link.Awaits task task.wire := by
          cases quiet link present with
          | idle => exact .receiving (.header (Nat.zero_le _)) rfl
          | dead => exact .dead
        exact ⟨task.wire_ne_nil, written⟩
      case attributed =>
        intro disposition inside
        exact (attribution.attributed disposition inside).grow (prefix_append _ _) (List.Subset.refl _)

theorem Attribution.hostWrite (attribution : Attribution state) (count : Nat) :
    Attribution (hostWrite state count) := by
  have accounting := attribution.accounting.hostWrite count
  rw [Moderation.hostWrite] at accounting ⊢
  split
  · rename_i task rest link writing present
    rw [writing, present] at accounting
    dsimp only at accounting
    split_ifs with ended
    · exact attribution
    · rw [if_neg ended] at accounting
      have exchange := attribution.exchange link present
      rw [writing] at exchange
      have awaits := exchange.2.hostWrite exchange.1 count
      constructor
      case accounting => exact accounting
      case exchange =>
        intro link' same
        cases same
        dsimp only
        split_ifs with done
        · rw [done] at awaits
          exact ⟨by decide, Or.inl ⟨rfl, awaits⟩⟩
        · exact ⟨done, awaits⟩
      case attributed => exact attribution.attributed
  · exact attribution

/-- The whole reply with a verdict for the current task is applied to it. -/
theorem Attribution.applyResult (attribution : Attribution state) (exchange : state.phase.exchanging = [task])
    (quiet : link.Quiet) {judgement : Judgement} (known : judgement ∈ state.judged)
    (concerns : judgement.Concerns state.sent.length task) :
    Attribution (applyResult { state with link := some link } task judgement.response judgement.message.text) where
  accounting := (attribution.accounting.linked (some link)).applyResult exchange _ _
  exchange := by
    intro link' same
    cases same
    exact quiet
  attributed := by
    apply attribution.settle
    intro serial response message settled
    obtain ⟨rfl, rfl, rfl⟩ := Settled.applied.inj settled
    have last : state.sent.getLast? = some task := by
      apply attribution.accounting.current
      rw [exchange]
      exact mem_singleton_self task
    have place : state.sent[state.sent.length - 1]? = some task := by
      rw [← getLast?_eq_getElem?]
      exact last
    have positive : 0 < state.sent.length := by
      have bound := (List.getElem?_eq_some_iff.mp place).1
      omega
    exact ⟨positive, place, judgement, known, concerns, rfl, rfl⟩

/-- The thread reads some more of the head of the reply. -/
theorem Attribution.readHeader (attribution : Attribution state) {got : Bytes}
    (reading : state.phase = .readingHeader task got) (present : state.link = some link) (count : Nat) :
    Attribution (hostRead state count) := by
  have accounting := attribution.accounting.hostRead count
  have exchange := attribution.exchange link present
  rw [reading] at exchange
  rw [Moderation.hostRead, reading, present] at accounting ⊢
  dsimp only at accounting ⊢
  obtain ⟨short, ⟨rfl, awaits⟩ | ⟨judgement, inside, concerns, answer⟩⟩ := exchange
  · -- No byte of the reply is there, so the read gives none.
    have empty : link.response = [] := by
      cases awaits with
      | dead => rfl
      | receiving => rfl
      | judging => rfl
    have nothing : collect responseSize [] link.response count = ([], link.response) := by
      rw [empty, collect, take_nil, drop_nil]
      rfl
    rw [nothing] at accounting ⊢
    constructor
    case accounting => exact accounting
    case exchange =>
      intro link' same
      cases same
      exact ⟨short, Or.inl ⟨rfl, awaits⟩⟩
    case attributed => exact attribution.attributed
  · have joined := collect_append responseSize got link.response count
    have fits := collect_length short.le link.response count
    generalize collect responseSize got link.response count = read at accounting joined fits ⊢
    have taken := answer.hostRead joined
    by_cases part : read.1.length < responseSize
    · rw [if_pos part] at accounting ⊢
      constructor
      case accounting => exact accounting
      case exchange =>
        intro link' same
        cases same
        exact ⟨part, Or.inr ⟨judgement, inside, concerns, taken⟩⟩
      case attributed => exact attribution.attributed
    · have full : read.1.length = judgement.response.bytes.length := by
        rw [IpcResponse.bytes_length]
        omega
      have head := taken.head full
      rw [if_neg part, head, IpcResponse.ofBytes_bytes] at accounting ⊢
      rw [head] at taken
      split_ifs with none'
      · -- The reply has no message, so it is complete.
        have size : judgement.message.text.length = 0 := by
          rw [← judgement.messageLength, none']
          rfl
        have text := eq_nil_of_length_eq_zero size
        have whole : judgement.wire.length ≤ judgement.response.bytes.length := by
          rw [Judgement.wire, text, append_nil]
        have applied := attribution.applyResult (by rw [reading]; rfl) (taken.complete whole).2 inside concerns
        rw [text] at applied
        exact applied
      · rw [if_neg none'] at accounting
        constructor
        case accounting => exact accounting
        case exchange =>
          intro link' same
          cases same
          have positive : 0 < judgement.response.messageLength.toNat := by
            rw [pos_iff_ne_zero]
            exact fun zero => none' (UInt32.toNat.inj zero)
          exact ⟨positive, judgement, inside, concerns, rfl, taken⟩
        case attributed => exact attribution.attributed

/-- The thread reads some more of the message of the reply. -/
theorem Attribution.readMessage (attribution : Attribution state) {response : IpcResponse} {got : Bytes}
    (reading : state.phase = .readingMessage task response got) (present : state.link = some link) (count : Nat) :
    Attribution (hostRead state count) := by
  have accounting := attribution.accounting.hostRead count
  have exchange := attribution.exchange link present
  rw [reading] at exchange
  rw [Moderation.hostRead, reading, present] at accounting ⊢
  dsimp only at accounting ⊢
  obtain ⟨short, judgement, inside, concerns, rfl, answer⟩ := exchange
  have joined := collect_append judgement.response.messageLength.toNat got link.response count
  have fits := collect_length short.le link.response count
  generalize collect judgement.response.messageLength.toNat got link.response count = read at accounting joined fits ⊢
  have joined' : judgement.response.bytes ++ read.1 ++ read.2 = judgement.response.bytes ++ got ++ link.response := by
    rw [append_assoc, append_assoc, joined]
  have taken := answer.hostRead joined'
  split_ifs with part
  · rw [if_pos part] at accounting
    constructor
    case accounting => exact accounting
    case exchange =>
      intro link' same
      cases same
      exact ⟨part, judgement, inside, concerns, rfl, taken⟩
    case attributed => exact attribution.attributed
  · have full : judgement.wire.length ≤ (judgement.response.bytes ++ read.1).length := by
      rw [Judgement.wire, length_append, length_append, ← judgement.messageLength]
      omega
    obtain ⟨whole, quiet⟩ := taken.complete full
    have text : read.1 = judgement.message.text := append_cancel_left whole
    rw [text]
    exact attribution.applyResult (by rw [reading]; rfl) quiet inside concerns

theorem Attribution.hostRead (attribution : Attribution state) (count : Nat) : Attribution (hostRead state count) := by
  cases present : state.link with
  | none =>
    have idle : Moderation.hostRead state count = state := by
      rw [Moderation.hostRead, present]
      split <;> trivial
    rw [idle]
    exact attribution
  | some =>
    cases reading : state.phase with
    | readingHeader => exact attribution.readHeader reading present count
    | readingMessage => exact attribution.readMessage reading present count
    | _ =>
      rw [Moderation.hostRead, reading]
      exact attribution

theorem Attribution.handleFailure (attribution : Attribution state) (exchange : state.phase.exchanging = [task])
    (stable : Bool) : Attribution (handleFailure state task stable) where
  accounting := attribution.accounting.handleFailure exchange stable
  exchange := fun _ _ => trivial
  attributed := attribution.settle (.other fun _ _ _ => Settled.noConfusion)

theorem Attribution.hostFail (attribution : Attribution state) (stable : Bool) :
    Attribution (hostFail state stable) := by
  rw [Moderation.hostFail]
  split
  · exact attribution.handleFailure (by rw [‹state.phase = _›]; rfl) stable
  · exact attribution.handleFailure (by rw [‹state.phase = _›]; rfl) stable
  · exact attribution.handleFailure (by rw [‹state.phase = _›]; rfl) stable
  · exact attribution

theorem Attribution.giveUp (attribution : Attribution state) (accounting : Accounting (giveUp state)) :
    Attribution (giveUp state) :=
  ⟨accounting, fun _ _ => trivial, attribution.attributed⟩

theorem Attribution.proceed (attribution : Attribution state) (spawned : Bool) :
    Attribution (proceed state spawned) := by
  have accounting := attribution.accounting.proceed spawned
  rw [Moderation.proceed] at accounting ⊢
  split
  case h_1 afterwards phase =>
    rw [phase] at accounting
    exact ⟨accounting, by rintro _ ⟨⟩, attribution.attributed⟩
  case h_2 afterwards phase =>
    rw [phase] at accounting
    exact ⟨accounting, fun _ _ => trivial, attribution.attributed⟩
  case h_3 task rest afterwards phase =>
    rw [phase] at accounting
    constructor
    case accounting => exact accounting
    case exchange => exact fun _ _ => trivial
    case attributed => exact attribution.settle (.other fun _ _ _ => Settled.noConfusion)
  case h_4 attempt phase =>
    rw [phase] at accounting
    dsimp only at accounting
    split_ifs with many
    · rw [if_pos many] at accounting
      exact attribution.giveUp accounting
    · rw [if_neg many] at accounting
      exact ⟨accounting, fun _ _ => trivial, attribution.attributed⟩
  case h_5 reason phase =>
    rw [phase] at accounting
    exact ⟨accounting, fun _ _ => trivial, attribution.attributed⟩
  case h_6 attempt phase =>
    rw [phase] at accounting
    dsimp only at accounting
    split_ifs with stop
    · rw [if_pos stop] at accounting
      exact ⟨accounting, fun _ _ => trivial, attribution.attributed⟩
    · rw [if_neg stop] at accounting
      exact ⟨accounting, fun _ _ => trivial, attribution.attributed⟩
  case h_7 attempt phase =>
    rw [phase] at accounting
    dsimp only at accounting
    split_ifs with made
    · rw [if_pos made] at accounting
      constructor
      case accounting => exact accounting
      case exchange =>
        intro link same
        cases same
        exact .idle
      case attributed => exact attribution.attributed
    · rw [if_neg made] at accounting
      exact attribution.giveUp accounting
  case h_8 phase =>
    rw [phase] at accounting
    split_ifs with stop
    · rw [if_pos stop] at accounting
      exact ⟨accounting, fun _ _ => trivial, attribution.attributed⟩
    · rw [if_neg stop] at accounting
      constructor
      case accounting => exact accounting
      case exchange =>
        intro link present
        have exchange := attribution.exchange link present
        rw [phase] at exchange
        exact exchange
      case attributed => exact attribution.attributed
  case h_9 => exact attribution

/-- The reply with a verdict starts on its way, for the task that the thread waits for. -/
theorem Exchange.judge {serial : Nat} {phase : Phase} {request response : Bytes} {taskId : UInt64}
    {category : CText (moderationCategoryLen - 1)} {content : CText (moderationSnippetLen - 1)}
    (exchange : Exchange serial judged phase ⟨request, response, .judging taskId category content⟩)
    (outcome : Outcome) :
    Exchange serial (judged ++ [⟨serial, taskId, category, content, outcome⟩]) phase
      ⟨request, response, .replying (Judgement.wire ⟨serial, taskId, category, content, outcome⟩)⟩ := by
  cases phase with
  | loop => cases exchange
  | publish => cases exchange
  | writing =>
    obtain ⟨some', awaits⟩ := exchange
    cases awaits with
    | judging written => exact absurd written some'
    | receiving stage => cases stage
  | readingHeader task =>
    obtain ⟨short, ⟨rfl, awaits⟩ | ⟨judgement, inside, concerns, answer⟩⟩ := exchange
    · cases awaits with
      | judging =>
        apply And.intro short
        apply Or.inr
        refine ⟨⟨serial, task.taskId, task.category, task.snippet, outcome⟩, ?_, ⟨rfl, rfl, rfl, rfl⟩, ?_⟩
        · exact mem_append_right _ (mem_singleton_self _)
        · exact .replying rfl (Judgement.wire_ne_nil _)
      | receiving stage => cases stage
    · cases answer
  | readingMessage =>
    obtain ⟨short, judgement, inside, concerns, same, answer⟩ := exchange
    cases answer
  | _ => trivial

theorem Attribution.workerJudge (attribution : Attribution state) (outcome : Outcome) :
    Attribution (workerJudge state outcome) := by
  have accounting := attribution.accounting.workerJudge outcome
  rw [Moderation.workerJudge] at accounting ⊢
  split
  · rename_i link present
    rw [present] at accounting
    split
    · rename_i taskId category content judging
      obtain ⟨request, response, worker⟩ := link
      obtain rfl : worker = .judging taskId category content := judging
      have exchange := attribution.exchange _ present
      constructor
      case accounting => exact accounting
      case exchange =>
        intro link' same
        cases same
        exact exchange.judge outcome
      case attributed =>
        intro disposition inside
        exact (attribution.attributed disposition inside).grow (prefix_refl _) (subset_append_left _ _)
    · exact attribution
  · exact attribution

/-- Every step keeps the accounting and the exchange. -/
theorem Attribution.step (attribution : Attribution state) (event : PipelineEvent) :
    Attribution (pipelineStep state event) := by
  cases event with
  | queueChat username clientIp message length allocated =>
    exact attribution.queueChat username clientIp message length allocated
  | enqueue =>
    rw [pipelineStep]
    split
    · exact (attribution.surround state.security _ state.restartAttempts).enqueue _
    · exact attribution
  | shutdown => exact ⟨attribution.accounting.shutdown, attribution.exchange, attribution.attributed⟩
  | setSecurity flags => exact attribution.surround flags state.calls state.restartAttempts
  | takeTask =>
    rw [pipelineStep]
    split_ifs with loop
    · exact attribution.takeTask loop
    · exact attribution
  | hostWrite count => exact attribution.hostWrite count
  | hostRead count => exact attribution.hostRead count
  | hostFail stable => exact attribution.hostFail stable
  | proceed spawned => exact attribution.proceed spawned
  | workerRead count =>
    exact attribution.worker _ (fun _ quiet => quiet.workerRead count) (fun _ _ _ awaits => awaits.workerRead count)
      (fun _ _ _ answers => answers.workerRead count)
  | workerJudge outcome => exact attribution.workerJudge outcome
  | workerWrite count =>
    exact attribution.worker _ (fun _ quiet => quiet.workerWrite count)
      (fun _ _ _ awaits => awaits.workerWrite count) (fun _ _ _ answers => answers.workerWrite count)
  | workerDie =>
    exact attribution.worker _ (fun _ quiet => quiet.workerDie) (fun _ _ _ awaits => awaits.workerDie)
      (fun _ _ _ answers => answers.workerDie)

theorem Attribution.init (security : SecurityFlags) (spawned started : Bool) :
    Attribution (moderationInit security spawned started) := by
  have accounting := Accounting.init security spawned started
  rw [moderationInit] at accounting ⊢
  split_ifs with up
  · rw [if_pos up] at accounting
    constructor
    case accounting => exact accounting
    case exchange =>
      intro link same
      cases same
      exact .idle
    case attributed => exact fun _ inside => absurd inside not_mem_nil
  · rw [if_neg up] at accounting
    exact ⟨accounting, by rintro _ ⟨⟩, fun _ inside => absurd inside not_mem_nil⟩

end Attribution

section Accounted

/-- What a run of the pipeline owes to the tasks that it accepted. -/
structure Accounted (state : Pipeline) : Prop where
  numbered : state.accepted.map ModerationTask.taskId =
    (range state.accepted.length).map fun index => UInt64.ofNat (index + 1)
  settledInOrder : state.disposed.map Disposition.task <+: state.accepted
  settledOnce : state.accepted.length < 2 ^ 64 → (state.disposed.map fun settled => settled.task.taskId).Nodup
  settledAll : state.phase = .exited → state.disposed.map Disposition.task = state.accepted
  sentInOrder : state.sent.Sublist state.accepted
  attributed : ∀ disposition ∈ state.disposed, disposition.Attributed state.sent state.judged

variable {state : Pipeline}

theorem Accounting.settledInOrder (accounting : Accounting state) :
    state.disposed.map Disposition.task <+: state.accepted := by
  rw [accounting.conserved]
  exact prefix_append _ _

/-- The numbers of fewer than 2 ^ 64 tasks differ. -/
theorem Accounting.distinct (accounting : Accounting state) (few : state.accepted.length < 2 ^ 64) :
    (state.accepted.map ModerationTask.taskId).Nodup := by
  rw [accounting.numbered]
  apply List.Nodup.map_on _ nodup_range
  intro first inFirst second inSecond same
  have firstSmall := mem_range.mp inFirst
  have secondSmall := mem_range.mp inSecond
  have small : ∀ index < state.accepted.length, index + 1 < UInt64.size := fun _ inside =>
    lt_of_le_of_lt inside few
  have values := congrArg UInt64.toNat same
  rw [UInt64.toNat_ofNat_of_lt' (small first firstSmall), UInt64.toNat_ofNat_of_lt' (small second secondSmall)]
    at values
  exact Nat.succ.inj values

theorem Accounting.settledOnce (accounting : Accounting state) (few : state.accepted.length < 2 ^ 64) :
    (state.disposed.map fun settled => settled.task.taskId).Nodup := by
  have ids : state.disposed.map (fun settled => settled.task.taskId) =
      (state.disposed.map Disposition.task).map ModerationTask.taskId := by
    rw [map_map]
    rfl
  rw [ids]
  exact (accounting.distinct few).sublist (accounting.settledInOrder.sublist.map _)

theorem Accounting.settledAll (accounting : Accounting state) (exited : state.phase = .exited) :
    state.disposed.map Disposition.task = state.accepted := by
  have emptied := accounting.drained (by rw [exited]; rfl)
  rw [accounting.conserved, exited, emptied]
  exact (append_nil _).symm

theorem Accounting.sentInOrder (accounting : Accounting state) : state.sent.Sublist state.accepted := by
  have hand : state.phase.exchanging.Sublist state.phase.inHand := by
    cases state.phase with
    | flushing pending => exact nil_sublist pending
    | _ => exact List.Sublist.refl _
  rw [accounting.conserved]
  apply accounting.ordered.trans
  exact (List.Sublist.refl _).append (hand.trans (sublist_append_left _ _))

/-- In every run the accepted tasks are those of the calls that returned true, and the pipeline accounts for them. -/
theorem moderation_accounted (security : SecurityFlags) (spawned started : Bool) (events : List PipelineEvent) :
    (run pipelineStep (moderationInit security spawned started) events).accepted =
        emitted pipelineStep accepts (moderationInit security spawned started) events ∧
      Accounted (run pipelineStep (moderationInit security spawned started) events) := by
  have attribution := run_invariant pipelineStep Attribution (fun _ event kept => kept.step event)
    (Attribution.init security spawned started) events
  have accounting := attribution.accounting
  constructor
  · have log := run_log Pipeline.accepted accepted_step (moderationInit security spawned started) events
    have none' : (moderationInit security spawned started).accepted = [] := by
      rw [moderationInit]
      split_ifs <;> rfl
    rw [none'] at log
    exact log
  · exact ⟨accounting.numbered, accounting.settledInOrder, accounting.settledOnce, accounting.settledAll,
      accounting.sentInOrder, attribution.attributed⟩

/-- A verdict is applied, then the worker dies in the next exchange while a third task waits, and the thread leaves. -/
example : ((run pipelineStep (moderationInit ⟨true, true, true⟩ true true)
    [.queueChat (str "ann") (str "::1") (str "hi") 2 true, .queueChat (str "bob") (str "::2") (str "yo") 2 true,
      .queueChat (str "eve") (str "::3") (str "hm") 2 true, .enqueue 0, .enqueue 0, .takeTask, .hostWrite 7,
      .hostWrite 99, .workerRead 99, .workerRead 99, .workerRead 99, .workerJudge ⟨true, true, str "rude", []⟩,
      .workerWrite 99, .hostRead 20, .hostRead 20, .hostRead 20, .takeTask, .hostWrite 99, .workerDie, .enqueue 0,
      .hostFail false, .proceed true, .proceed true, .shutdown, .proceed true, .proceed true, .proceed true,
      .proceed true, .proceed true, .proceed true]).disposed.map fun settled => settled.settled) =
    [.applied 1 ⟨1, 1, 4, 0⟩ (str "rude"), .failed workerUnavailable, .flushed workerUnavailable] := by
  decide +kernel

end Accounted

end SshChatter.Moderation
