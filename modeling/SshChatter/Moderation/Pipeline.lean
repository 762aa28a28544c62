import SshChatter.Lib.RecordStream
import SshChatter.Lib.RecordLayout
import SshChatter.Lib.EventRun

namespace SshChatter.Moderation
open CString RecordLayout BytePipe EventRun

abbrev moderationCategoryLen : Nat := 64

abbrev moderationSnippetLen : Nat := 1024

/-- This is `SSH_CHATTER_MESSAGE_LIMIT`. -/
abbrev chatMessageLimit : Nat := 4096

def maxRestartAttempts : Nat := 5

/-- This is `host_moderation_task_t`, where the length of the snippet is that of its text. -/
structure ModerationTask where
  taskId : UInt64
  username : CText 255
  clientIp : CText 63
  category : CText (moderationCategoryLen - 1)
  snippet : CText (moderationSnippetLen - 1)
  message : CText (chatMessageLimit - 1)
  postSend : Bool
  deriving DecidableEq

def blankControl (c : UInt8) : UInt8 := if c < 32 ∧ c ≠ 10 ∧ c ≠ 13 ∧ c ≠ 9 then 32 else c

/-- The task that `host_moderation_queue_chat` makes before it takes the lock. -/
def prepareTask (username clientIp message : Bytes) (length : Nat) : ModerationTask :=
  let effectiveLength := min ((message.take (chatMessageLimit - 1)).takeWhile (· ≠ 0)).length length
  let snippet := (message.take (min effectiveLength (moderationSnippetLen - 1))).takeWhile (· ≠ 0)
  { taskId := 0, username := .print username, clientIp := .print clientIp, category := .print (str "chat message"),
    snippet := .print (snippet.map blankControl), message := .print (message.take effectiveLength), postSend := true }

/-- This is `host_moderation_ipc_request_t`. -/
structure IpcRequest where
  taskId : UInt64
  categoryLength : UInt32
  contentLength : UInt32
  deriving DecidableEq

abbrev requestSize : Nat := 16

def IpcRequest.bytes (request : IpcRequest) : Bytes :=
  fixed 8 request.taskId.toNat ++ (fixed 4 request.categoryLength.toNat ++ fixed 4 request.contentLength.toNat)

def IpcRequest.ofBytes (bytes : Bytes) : IpcRequest :=
  ⟨.ofNat (unsigned (bytes.take 8)), .ofNat (unsigned ((bytes.drop 8).take 4)),
    .ofNat (unsigned ((bytes.drop 12).take 4))⟩

def IpcRequest.isEnd (request : IpcRequest) : Bool :=
  request.categoryLength = 0 ∧ request.contentLength = 0 ∧ request.taskId = 0

def IpcRequest.clamped (request : IpcRequest) : IpcRequest where
  taskId := request.taskId
  categoryLength :=
    if moderationCategoryLen ≤ request.categoryLength.toNat then .ofNat (moderationCategoryLen - 1)
    else request.categoryLength
  contentLength :=
    if moderationSnippetLen ≤ request.contentLength.toNat then .ofNat (moderationSnippetLen - 1)
    else request.contentLength

/-- This is `host_moderation_ipc_response_t`. -/
structure IpcResponse where
  taskId : UInt64
  result : Int32
  messageLength : UInt32
  disableFilter : UInt32
  deriving DecidableEq

abbrev responseSize : Nat := 24

def IpcResponse.bytes (response : IpcResponse) : Bytes :=
  fixed 8 response.taskId.toNat ++ (fixed 4 response.result.toUInt32.toNat ++
    (fixed 4 response.messageLength.toNat ++ (fixed 4 response.disableFilter.toNat ++ fixed 4 0)))

def IpcResponse.ofBytes (bytes : Bytes) : IpcResponse :=
  ⟨.ofNat (unsigned (bytes.take 8)), (UInt32.ofNat (unsigned ((bytes.drop 8).take 4))).toInt32,
    .ofNat (unsigned ((bytes.drop 12).take 4)), .ofNat (unsigned ((bytes.drop 16).take 4))⟩

def ModerationTask.request (task : ModerationTask) : IpcRequest :=
  ⟨task.taskId, .ofNat task.category.text.length, .ofNat task.snippet.text.length⟩

def ModerationTask.wire (task : ModerationTask) : Bytes :=
  task.request.bytes ++ (task.category.text ++ task.snippet.text)

/-- The values of `HOST_SECURITY_SCAN_CLEAN`, `HOST_SECURITY_SCAN_BLOCKED` and `HOST_SECURITY_SCAN_ERROR`. -/
def scanClean : Int32 := 0
def scanBlocked : Int32 := 1
def scanError : Int32 := 2

/-- What `translator_moderate_text` and `translator_last_error` give. -/
structure Outcome where
  success : Bool
  blocked : Bool
  reason : Bytes
  error : Bytes
  deriving DecidableEq

/-- A verdict that a worker computed, with the number of tasks that were sent by then. -/
structure Judgement where
  serial : Nat
  taskId : UInt64
  category : CText (moderationCategoryLen - 1)
  content : CText (moderationSnippetLen - 1)
  outcome : Outcome
  deriving DecidableEq

def Judgement.message (judgement : Judgement) : CText 255 :=
  if !judgement.outcome.success then
    let error : CText 255 := .print judgement.outcome.error
    if error.text ≠ [] then error else .print (str "moderation unavailable")
  else if judgement.outcome.blocked then .print judgement.outcome.reason
  else .zero

def Judgement.response (judgement : Judgement) : IpcResponse where
  taskId := judgement.taskId
  result :=
    if !judgement.outcome.success then scanError else if judgement.outcome.blocked then scanBlocked else scanClean
  messageLength := .ofNat judgement.message.text.length
  disableFilter := if !judgement.outcome.success then 1 else 0

/-- What the worker writes back. -/
def Judgement.wire (judgement : Judgement) : Bytes := judgement.response.bytes ++ judgement.message.text

/-- Where `host_moderation_worker_loop` stands. -/
inductive WorkerStage where
  | header (got : Bytes)
  | category (request : IpcRequest) (got : Bytes)
  | content (request : IpcRequest) (category : CText (moderationCategoryLen - 1)) (got : Bytes)
  | judging (taskId : UInt64) (category : CText (moderationCategoryLen - 1))
      (content : CText (moderationSnippetLen - 1))
  | replying (rest : Bytes)
  | ended
  deriving DecidableEq

/-- The two pipes and the child process behind them. -/
structure Link where
  request : Bytes
  response : Bytes
  worker : WorkerStage
  deriving DecidableEq

/-- What `host_moderation_spawn_worker` makes. -/
def Link.fresh : Link := ⟨[], [], .header []⟩

/-- A `read` of the worker gives at most so many bytes. -/
def Link.workerRead (link : Link) (count : Nat) : Link :=
  match link.worker with
  | .header got =>
    let (got, left) := collect requestSize got link.request count
    let request := IpcRequest.ofBytes got
    let stage : WorkerStage :=
      if got.length < requestSize then .header got
      else if request.isEnd then .ended
      else .category request.clamped []
    { link with request := left, worker := stage }
  | .category request got =>
    let (got, left) := collect request.categoryLength.toNat got link.request count
    let stage : WorkerStage :=
      if got.length < request.categoryLength.toNat then .category request got else .content request (.print got) []
    { link with request := left, worker := stage }
  | .content request category got =>
    let (got, left) := collect request.contentLength.toNat got link.request count
    let stage : WorkerStage :=
      if got.length < request.contentLength.toNat then .content request category got
      else .judging request.taskId category (.print got)
    { link with request := left, worker := stage }
  | _ => link

/-- A `write` of the worker takes at most so many bytes. -/
def Link.workerWrite (link : Link) (count : Nat) : Link :=
  match link.worker with
  | .replying rest =>
    let (rest, response) := deliver rest link.response count
    { link with response := response, worker := if rest = [] then .header [] else .replying rest }
  | _ => link

/-- What became of a task. -/
inductive Settled where
  | applied (serial : Nat) (response : IpcResponse) (message : Bytes)
  | failed (message : Bytes)
  | flushed (message : Bytes)
  deriving DecidableEq

structure Disposition where
  task : ModerationTask
  settled : Settled
  deriving DecidableEq

/-- What is given to `host_security_process_blocked` or to `host_security_process_error`. -/
inductive Report where
  | blocked (category diagnostic username ip : Bytes) (postSend : Bool) (content : Bytes)
  | error (category diagnostic username ip : Bytes) (postSend : Bool)
  deriving DecidableEq

def Disposition.report (disposition : Disposition) : Option Report :=
  let task := disposition.task
  let error (message : Bytes) : Report :=
    .error task.category.text message task.username.text task.clientIp.text task.postSend
  match disposition.settled with
  | .applied _ response message =>
    if response.result = scanClean then none
    else if response.result = scanBlocked then
      some (.blocked task.category.text message task.username.text task.clientIp.text task.postSend task.message.text)
    else some (error message)
  | .failed message => some (error message)
  | .flushed message => some (error message)

structure SecurityFlags where
  filterEnabled : Bool
  aiEnabled : Bool
  elizaEnabled : Bool
  deriving DecidableEq

def SecurityFlags.disableFilter (flags : SecurityFlags) : SecurityFlags :=
  if flags.aiEnabled then { flags with aiEnabled := false, filterEnabled := false } else flags

/-- What the thread does after it flushed the queue. -/
inductive Afterwards where
  | restart (attempt : Nat)
  | leave (failureReason : Option Bytes)
  deriving DecidableEq

/-- Where `host_moderation_thread` stands. -/
inductive Phase where
  | loop
  | writing (task : ModerationTask) (rest : Bytes)
  | readingHeader (task : ModerationTask) (got : Bytes)
  | readingMessage (task : ModerationTask) (response : IpcResponse) (got : Bytes)
  | closeWorker (afterwards : Afterwards)
  | flushPending (afterwards : Afterwards)
  | flushing (pending : List ModerationTask) (afterwards : Afterwards)
  | backoff (attempt : Nat)
  | spawn (attempt : Nat)
  | publish
  | exited
  deriving DecidableEq

/-- This is `host_moderation_state_t` with the thread and the calls of `host_moderation_queue_chat` under way. -/
structure Pipeline where
  active : Bool
  stop : Bool
  queue : List ModerationTask
  nextTaskId : UInt64
  restartAttempts : Nat
  link : Option Link
  security : SecurityFlags
  calls : List ModerationTask
  phase : Phase
  accepted : List ModerationTask
  sent : List ModerationTask
  judged : List Judgement
  disposed : List Disposition
  deriving DecidableEq

/-- This is `host_moderation_init`, where the fork or the start of the thread can fail. -/
def moderationInit (security : SecurityFlags) (spawned started : Bool) : Pipeline :=
  let idle : Pipeline :=
    { active := false, stop := true, queue := [], nextTaskId := 1, restartAttempts := 0, link := none,
      security := security, calls := [], phase := .exited, accepted := [], sent := [], judged := [], disposed := [] }
  if spawned && started then { idle with active := true, stop := false, link := some .fresh, phase := .loop } else idle

/-- This is `host_moderation_queue_chat` up to the lock: the task that it goes on with, if it does. -/
def queueChat (state : Pipeline) (username clientIp message : Bytes) (length : Nat) (allocated : Bool) : Pipeline :=
  if length = 0 then state
  else if !state.active || state.link.isNone then state
  else if !state.security.filterEnabled then state
  else if !state.security.aiEnabled then { state with security := { state.security with filterEnabled := false } }
  else if !state.security.elizaEnabled || !allocated then state
  else { state with calls := state.calls ++ [prepareTask username clientIp message length] }

/-- This is `host_moderation_queue_chat` under the lock, and what it returns. -/
def enqueue (state : Pipeline) (task : ModerationTask) : Pipeline × Bool :=
  if !state.active || state.stop then (state, false)
  else
    let task := { task with taskId := state.nextTaskId }
    ({ state with nextTaskId := state.nextTaskId + 1, queue := state.queue ++ [task],
                  accepted := state.accepted ++ [task] }, true)

def shutdown (state : Pipeline) : Pipeline := { state with stop := true, active := false }

def workerUnavailable : Bytes := str "moderation worker unavailable"

/-- The head of the loop of `host_moderation_thread`. -/
def takeTask (state : Pipeline) : Pipeline :=
  if !state.active || state.stop then { state with phase := .closeWorker (.leave none) }
  else match state.queue with
    | [] => state
    | task :: rest => { state with queue := rest, phase := .writing task task.wire, sent := state.sent ++ [task] }

/-- A `write` of the thread takes at most so many bytes. -/
def hostWrite (state : Pipeline) (count : Nat) : Pipeline :=
  match state.phase, state.link with
  | .writing task rest, some link =>
    if link.worker = .ended then state
    else
      let (rest, request) := deliver rest link.request count
      { state with link := some { link with request := request },
                   phase := if rest = [] then .readingHeader task [] else .writing task rest }
  | _, _ => state

def applyResult (state : Pipeline) (task : ModerationTask) (response : IpcResponse) (message : Bytes) : Pipeline :=
  { state with security := if response.disableFilter ≠ 0 then state.security.disableFilter else state.security,
               disposed := state.disposed ++ [⟨task, .applied state.sent.length response message⟩],
               phase := .loop }

/-- A `read` of the thread gives at most so many bytes. -/
def hostRead (state : Pipeline) (count : Nat) : Pipeline :=
  match state.phase, state.link with
  | .readingHeader task got, some link =>
    let (got, left) := collect responseSize got link.response count
    let response := IpcResponse.ofBytes got
    let state := { state with link := some { link with response := left } }
    if got.length < responseSize then { state with phase := .readingHeader task got }
    else if response.messageLength = 0 then applyResult state task response []
    else { state with phase := .readingMessage task response [] }
  | .readingMessage task response got, some link =>
    let (got, left) := collect response.messageLength.toNat got link.response count
    let state := { state with link := some { link with response := left } }
    if got.length < response.messageLength.toNat then { state with phase := .readingMessage task response got }
    else applyResult state task response got
  | _, _ => state

/-- This is `host_moderation_handle_failure` and the start of `host_moderation_recover_worker`, where a worker that ran
for long sets the count of attempts back. -/
def handleFailure (state : Pipeline) (task : ModerationTask) (stable : Bool) : Pipeline :=
  let restartAttempts := if stable then 0 else state.restartAttempts
  { state with security := state.security.disableFilter,
               disposed := state.disposed ++ [⟨task, .failed workerUnavailable⟩],
               restartAttempts := restartAttempts,
               phase := .closeWorker (.restart (restartAttempts + 1)) }

def hostFail (state : Pipeline) (stable : Bool) : Pipeline :=
  match state.phase with
  | .writing task _ => handleFailure state task stable
  | .readingHeader task _ => handleFailure state task stable
  | .readingMessage task _ _ => handleFailure state task stable
  | _ => state

/-- The recovery gives up and `host_moderation_thread` leaves its loop. -/
def giveUp (state : Pipeline) : Pipeline :=
  { state with active := false, stop := true, security := { state.security with filterEnabled := false },
               phase := .closeWorker (.leave (some workerUnavailable)) }

/-- The text that the tasks of a flush are settled with. -/
def Afterwards.diagnostic : Afterwards → Bytes
  | .restart _ => workerUnavailable
  | .leave (some reason) => reason
  | .leave none => str "moderation unavailable"

/-- A step of `host_moderation_close_worker`, `host_moderation_flush_pending` or `host_moderation_recover_worker`, where
the fork can fail. -/
def proceed (state : Pipeline) (spawned : Bool) : Pipeline :=
  match state.phase with
  | .closeWorker afterwards => { state with link := none, phase := .flushPending afterwards }
  | .flushPending afterwards => { state with queue := [], phase := .flushing state.queue afterwards }
  | .flushing (task :: rest) afterwards =>
    { state with disposed := state.disposed ++ [⟨task, .flushed afterwards.diagnostic⟩],
                 phase := .flushing rest afterwards }
  | .flushing [] (.restart attempt) =>
    if maxRestartAttempts < attempt then giveUp state else { state with phase := .backoff attempt }
  | .flushing [] (.leave _) => { state with phase := .exited }
  | .backoff attempt =>
    if state.stop then { state with phase := .closeWorker (.leave (some workerUnavailable)) }
    else { state with phase := .spawn attempt }
  | .spawn attempt =>
    if spawned then { state with link := some .fresh, restartAttempts := attempt, phase := .publish }
    else giveUp state
  | .publish =>
    if state.stop then { state with phase := .closeWorker (.leave (some workerUnavailable)) }
    else { state with active := true, stop := false, phase := .loop }
  | _ => state

def workerJudge (state : Pipeline) (outcome : Outcome) : Pipeline :=
  match state.link with
  | some link =>
    match link.worker with
    | .judging taskId category content =>
      let judgement : Judgement := ⟨state.sent.length, taskId, category, content, outcome⟩
      { state with link := some { link with worker := .replying judgement.wire },
                   judged := state.judged ++ [judgement] }
    | _ => state
  | none => state

/-- A step of a call, of the thread, of the worker or of the rest of the host. -/
inductive PipelineEvent where
  | queueChat (username clientIp message : Bytes) (length : Nat) (allocated : Bool)
  | enqueue (call : Nat)
  | shutdown
  | setSecurity (flags : SecurityFlags)
  | takeTask
  | hostWrite (count : Nat)
  | hostRead (count : Nat)
  | hostFail (stable : Bool)
  | proceed (spawned : Bool)
  | workerRead (count : Nat)
  | workerJudge (outcome : Outcome)
  | workerWrite (count : Nat)
  | workerDie

def pipelineStep (state : Pipeline) : PipelineEvent → Pipeline
  | .queueChat username clientIp message length allocated => queueChat state username clientIp message length allocated
  | .enqueue call =>
    match state.calls[call]? with
    | some task => (enqueue { state with calls := state.calls.eraseIdx call } task).1
    | none => state
  | .shutdown => shutdown state
  | .setSecurity flags => { state with security := flags }
  | .takeTask => if state.phase = .loop then takeTask state else state
  | .hostWrite count => hostWrite state count
  | .hostRead count => hostRead state count
  | .hostFail stable => hostFail state stable
  | .proceed spawned => proceed state spawned
  | .workerRead count => { state with link := state.link.map (·.workerRead count) }
  | .workerJudge outcome => workerJudge state outcome
  | .workerWrite count => { state with link := state.link.map (·.workerWrite count) }
  | .workerDie => { state with link := state.link.map ({ · with worker := .ended }) }

end SshChatter.Moderation
