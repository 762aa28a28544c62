import SshChatter.Moderation.PipelineAccounting

namespace SshChatter.Moderation
open CString RecordLayout BytePipe EventRun List

section Wire

theorem IpcRequest.bytes_length (request : IpcRequest) : request.bytes.length = requestSize := by
  simp only [IpcRequest.bytes, length_append, fixed_length]

variable (task : ModerationTask) (response : IpcResponse) (judgement : Judgement)

theorem IpcResponse.bytes_length : response.bytes.length = responseSize := by
  simp only [IpcResponse.bytes, length_append, fixed_length]

theorem word64_fixed (word : UInt64) : UInt64.ofNat (unsigned (fixed 8 word.toNat)) = word := by
  rw [unsigned_fixed word.toNat_lt, UInt64.ofNat_toNat]

theorem word32_fixed (word : UInt32) : UInt32.ofNat (unsigned (fixed 4 word.toNat)) = word := by
  rw [unsigned_fixed word.toNat_lt, UInt32.ofNat_toNat]

theorem IpcRequest.ofBytes_bytes (request : IpcRequest) : IpcRequest.ofBytes request.bytes = request := by
  have first : request.bytes.take 8 = fixed 8 request.taskId.toNat := fixed_take 8 _ _
  have second : (request.bytes.drop 8).take 4 = fixed 4 request.categoryLength.toNat := by
    rw [IpcRequest.bytes, fixed_drop 8 _ _ 0, drop_zero, fixed_take]
  have third : (request.bytes.drop 12).take 4 = fixed 4 request.contentLength.toNat := by
    rw [IpcRequest.bytes, fixed_drop 8 _ _ 4, fixed_drop 4 _ _ 0, drop_zero,
      take_of_length_le (fixed_length 4 _).le]
  rw [IpcRequest.ofBytes, first, second, third, word64_fixed, word32_fixed, word32_fixed]

theorem IpcResponse.ofBytes_bytes : IpcResponse.ofBytes response.bytes = response := by
  have first : response.bytes.take 8 = fixed 8 response.taskId.toNat := fixed_take 8 _ _
  have second : (response.bytes.drop 8).take 4 = fixed 4 response.result.toUInt32.toNat := by
    rw [IpcResponse.bytes, fixed_drop 8 _ _ 0, drop_zero, fixed_take]
  have third : (response.bytes.drop 12).take 4 = fixed 4 response.messageLength.toNat := by
    rw [IpcResponse.bytes, fixed_drop 8 _ _ 4, fixed_drop 4 _ _ 0, drop_zero, fixed_take]
  have fourth : (response.bytes.drop 16).take 4 = fixed 4 response.disableFilter.toNat := by
    rw [IpcResponse.bytes, fixed_drop 8 _ _ 8, fixed_drop 4 _ _ 4, fixed_drop 4 _ _ 0, drop_zero, fixed_take]
  rw [IpcResponse.ofBytes, first, second, third, fourth, word64_fixed, word32_fixed, word32_fixed, word32_fixed]
  rfl

theorem ModerationTask.categoryLength : task.request.categoryLength.toNat = task.category.text.length :=
  UInt32.toNat_ofNat_of_lt' (lt_of_le_of_lt task.category.fits (by decide))

theorem ModerationTask.contentLength : task.request.contentLength.toNat = task.snippet.text.length :=
  UInt32.toNat_ofNat_of_lt' (lt_of_le_of_lt task.snippet.fits (by decide))

theorem Judgement.messageLength : judgement.response.messageLength.toNat = judgement.message.text.length :=
  UInt32.toNat_ofNat_of_lt' (lt_of_le_of_lt judgement.message.fits (by decide))

theorem ModerationTask.request_clamped : task.request.clamped = task.request := by
  have shortCategory : ¬ moderationCategoryLen ≤ task.request.categoryLength.toNat := by
    rw [task.categoryLength, not_le]
    exact lt_of_le_of_lt task.category.fits (by decide)
  have shortContent : ¬ moderationSnippetLen ≤ task.request.contentLength.toNat := by
    rw [task.contentLength, not_le]
    exact lt_of_le_of_lt task.snippet.fits (by decide)
  rw [IpcRequest.clamped, if_neg shortCategory, if_neg shortContent]

theorem ModerationTask.wire_ne_nil : task.wire ≠ [] := by
  intro empty
  have size := congrArg length empty
  simp [ModerationTask.wire, IpcRequest.bytes_length] at size

theorem Judgement.wire_ne_nil : judgement.wire ≠ [] := by
  intro empty
  have size := congrArg length empty
  simp [Judgement.wire, IpcResponse.bytes_length] at size

end Wire

section Lockstep

/-- The worker read some bytes of the request for a task. -/
inductive Receiving (task : ModerationTask) : WorkerStage → Bytes → Prop where
  | header {got : Bytes} (short : got.length ≤ requestSize) : Receiving task (.header got) got
  | category {got : Bytes} (short : got.length ≤ task.category.text.length) :
      Receiving task (.category task.request got) (task.request.bytes ++ got)
  | content {got : Bytes} (short : got.length ≤ task.snippet.text.length) :
      Receiving task (.content task.request task.category got) (task.request.bytes ++ (task.category.text ++ got))

/-- Nothing is on its way. -/
inductive Link.Quiet : Link → Prop where
  | idle : Link.Quiet ⟨[], [], .header []⟩
  | dead : Link.Quiet ⟨[], [], .ended⟩

/-- The reply for a task is still to come, where the rest of the request is not written yet. -/
inductive Link.Awaits (task : ModerationTask) (rest : Bytes) : Link → Prop where
  | dead {request : Bytes} : Link.Awaits task rest ⟨request, [], .ended⟩
  | receiving {request taken : Bytes} {worker : WorkerStage} (stage : Receiving task worker taken)
      (whole : taken ++ (request ++ rest) = task.wire) : Link.Awaits task rest ⟨request, [], worker⟩
  | judging (written : rest = []) :
      Link.Awaits task rest ⟨[], [], .judging task.taskId task.category task.snippet⟩

/-- The reply with a verdict is on its way, where the thread already took some of its bytes. -/
inductive Link.Answers (judgement : Judgement) (taken : Bytes) : Link → Prop where
  | replying {response more : Bytes} (whole : taken ++ (response ++ more) = judgement.wire) (some' : more ≠ []) :
      Link.Answers judgement taken ⟨[], response, .replying more⟩
  | idle {response : Bytes} (whole : taken ++ (response ++ []) = judgement.wire) :
      Link.Answers judgement taken ⟨[], response, .header []⟩
  | dead {response more : Bytes} (whole : taken ++ (response ++ more) = judgement.wire) :
      Link.Answers judgement taken ⟨[], response, .ended⟩

variable {task : ModerationTask} {judgement : Judgement} {rest taken : Bytes} {link : Link}

theorem Link.Quiet.workerRead (quiet : link.Quiet) (count : Nat) : (link.workerRead count).Quiet := by
  cases quiet with
  | idle =>
    have empty : Link.workerRead ⟨[], [], .header []⟩ count = ⟨[], [], .header []⟩ := by
      simp [Link.workerRead, collect]
    rw [empty]
    exact .idle
  | dead => exact .dead

theorem Link.Answers.workerRead (answers : link.Answers judgement taken) (count : Nat) :
    (link.workerRead count).Answers judgement taken := by
  cases answers with
  | replying whole some' => exact .replying whole some'
  | @idle response whole =>
    have empty : Link.workerRead ⟨[], response, .header []⟩ count = ⟨[], response, .header []⟩ := by
      simp [Link.workerRead, collect]
    rw [empty]
    exact .idle whole
  | dead whole => exact .dead whole

theorem Link.Awaits.workerRead (awaits : link.Awaits task rest) (count : Nat) :
    (link.workerRead count).Awaits task rest := by
  cases awaits with
  | dead => exact .dead
  | judging written => exact .judging written
  | @receiving request taken worker stage whole =>
    cases stage with
    | header short =>
      have joined := collect_append requestSize taken request count
      have fits := collect_length short request count
      rw [← append_assoc, ← joined, append_assoc] at whole
      rw [Link.workerRead]
      dsimp only
      generalize collect requestSize taken request count = read at joined fits whole ⊢
      split_ifs with part ends
      · exact .receiving (.header part.le) whole
      · exact .dead
      · have full : read.1.length = task.request.bytes.length := by
          rw [IpcRequest.bytes_length]
          omega
        obtain ⟨got, left⟩ := collected whole full
        rw [got, IpcRequest.ofBytes_bytes, ModerationTask.request_clamped]
        apply Link.Awaits.receiving (.category (Nat.zero_le _))
        rw [append_nil, left, ModerationTask.wire]
    | @category got short =>
      have joined := collect_append task.category.text.length got request count
      have fits := collect_length short request count
      rw [append_assoc, ← append_assoc got, ← joined, append_assoc] at whole
      rw [Link.workerRead]
      dsimp only
      rw [task.categoryLength]
      generalize collect task.category.text.length got request count = read at joined fits whole ⊢
      split_ifs with part
      · apply Link.Awaits.receiving (.category part.le)
        exact whole
      · have full : read.1.length = task.category.text.length := by omega
        obtain ⟨head, left⟩ := collected (append_cancel_left whole) full
        rw [head, CText.print_text]
        apply Link.Awaits.receiving (.content (Nat.zero_le _))
        rw [append_nil, left, ModerationTask.wire, append_assoc]
    | @content got short =>
      have joined := collect_append task.snippet.text.length got request count
      have fits := collect_length short request count
      rw [append_assoc, append_assoc, ← append_assoc got, ← joined, append_assoc] at whole
      rw [Link.workerRead]
      dsimp only
      rw [task.contentLength]
      generalize collect task.snippet.text.length got request count = read at joined fits whole ⊢
      have body := append_cancel_left (append_cancel_left whole)
      split_ifs with part
      · apply Link.Awaits.receiving (.content part.le)
        rw [append_assoc, append_assoc]
        exact whole
      · have full : read.1.length = task.snippet.text.length := by omega
        rw [← append_nil task.snippet.text] at body
        obtain ⟨head, left⟩ := collected body full
        obtain ⟨pipe, written⟩ := append_eq_nil_iff.mp left
        rw [head, pipe, CText.print_text]
        exact .judging written

theorem Link.Awaits.hostWrite (awaits : link.Awaits task rest) (some' : rest ≠ []) (count : Nat) :
    Link.Awaits task (deliver rest link.request count).1
      { link with request := (deliver rest link.request count).2 } := by
  cases awaits with
  | dead => exact .dead
  | judging written => exact absurd written some'
  | receiving stage whole =>
    apply Link.Awaits.receiving stage
    rw [deliver_append]
    exact whole

theorem Link.Quiet.workerWrite (quiet : link.Quiet) (count : Nat) : (link.workerWrite count).Quiet := by
  cases quiet with
  | idle => exact .idle
  | dead => exact .dead

theorem Link.Awaits.workerWrite (awaits : link.Awaits task rest) (count : Nat) :
    (link.workerWrite count).Awaits task rest := by
  cases awaits with
  | dead => exact .dead
  | judging written => exact .judging written
  | receiving stage whole =>
    cases stage with
    | header short => exact .receiving (.header short) whole
    | category short => exact .receiving (.category short) whole
    | content short => exact .receiving (.content short) whole

theorem Link.Answers.workerWrite (answers : link.Answers judgement taken) (count : Nat) :
    (link.workerWrite count).Answers judgement taken := by
  cases answers with
  | @replying response more whole =>
    have joined := deliver_append more response count
    rw [← joined] at whole
    rw [Link.workerWrite]
    dsimp only
    split_ifs with done
    · rw [done] at whole
      exact .idle whole
    · exact .replying whole done
  | idle whole => exact .idle whole
  | dead whole => exact .dead whole

theorem Link.Quiet.workerDie (quiet : link.Quiet) : Link.Quiet { link with worker := .ended } := by
  cases quiet with
  | idle => exact .dead
  | dead => exact .dead

theorem Link.Awaits.workerDie (awaits : link.Awaits task rest) :
    Link.Awaits task rest { link with worker := .ended } := by
  cases awaits with
  | dead => exact .dead
  | judging => exact .dead
  | receiving => exact .dead

theorem Link.Answers.workerDie (answers : link.Answers judgement taken) :
    Link.Answers judgement taken { link with worker := .ended } := by
  cases answers with
  | replying whole => exact .dead whole
  | idle whole => exact .dead whole
  | dead whole => exact .dead whole

/-- The thread takes bytes of the reply. -/
theorem Link.Answers.hostRead {got left : Bytes} (answers : link.Answers judgement taken)
    (joined : got ++ left = taken ++ link.response) : Link.Answers judgement got { link with response := left } := by
  cases answers with
  | replying whole some' =>
    rw [← append_assoc, ← joined, append_assoc] at whole
    exact .replying whole some'
  | idle whole =>
    rw [← append_assoc, ← joined, append_assoc] at whole
    exact .idle whole
  | dead whole =>
    rw [← append_assoc, ← joined, append_assoc] at whole
    exact .dead whole

theorem Link.Answers.head (answers : link.Answers judgement taken)
    (full : taken.length = judgement.response.bytes.length) : taken = judgement.response.bytes := by
  cases answers with
  | replying whole => exact (collected whole full).1
  | idle whole => exact (collected whole full).1
  | dead whole => exact (collected whole full).1

/-- A reply that the thread took in full leaves nothing behind. -/
theorem Link.Answers.complete (answers : link.Answers judgement taken)
    (full : judgement.wire.length ≤ taken.length) : taken = judgement.wire ∧ link.Quiet := by
  have split : ∀ {behind : Bytes}, taken ++ behind = judgement.wire → taken = judgement.wire ∧ behind = [] := by
    intro behind whole
    have size := congrArg length whole
    rw [length_append] at size
    rw [← append_nil judgement.wire] at whole
    exact collected whole (by omega)
  cases answers with
  | replying whole some' =>
    obtain ⟨-, behind⟩ := split whole
    exact absurd (append_eq_nil_iff.mp behind).2 some'
  | idle whole =>
    obtain ⟨taken', behind⟩ := split whole
    obtain ⟨rfl, -⟩ := append_eq_nil_iff.mp behind
    exact ⟨taken', .idle⟩
  | dead whole =>
    obtain ⟨taken', behind⟩ := split whole
    obtain ⟨rfl, -⟩ := append_eq_nil_iff.mp behind
    exact ⟨taken', .dead⟩

end Lockstep

end SshChatter.Moderation
