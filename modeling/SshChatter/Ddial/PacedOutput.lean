import SshChatter.Lib.EventRun
import SshChatter.Ddial.ClientLine

namespace SshChatter.Ddial
open CString EventRun List

/-- This is the size of `out_buf`. -/
def outBufSize : Nat := messageLimit * 8

structure Timespec where
  sec : Nat
  nsec : Nat
  valid : nsec < 1000000000
  deriving DecidableEq

def Timespec.zero : Timespec := ⟨0, 0, by decide⟩

def Timespec.nanos (time : Timespec) : Nat := time.sec * 1000000000 + time.nsec

/-- The part of `ddial_session_t` that output works on. -/
structure OutQueue where
  outBuf : Bytes
  paceStart : Nat
  paceLen : Nat
  paceCps : Nat
  paceLast : Timespec
  baudLast : Timespec
  deriving DecidableEq

def OutQueue.empty : OutQueue := ⟨[], 0, 0, 0, .zero, .zero⟩

/-- The part of a write that fits into the buffer. -/
def OutQueue.fitting (queue : OutQueue) (data : Bytes) : Bytes := data.take (outBufSize - queue.outBuf.length)

def OutQueue.writeRaw (queue : OutQueue) (data : Bytes) : OutQueue :=
  { queue with outBuf := queue.outBuf ++ queue.fitting data }

def paceRate (baud : UInt16) : Nat := if 10 ≤ baud then baud.toNat / 10 else 1

def OutQueue.writePaced (queue : OutQueue) (data : Bytes) (baud : UInt16) (now : Timespec) : OutQueue :=
  if queue.fitting data = [] then queue
  else
    let outBuf := queue.outBuf ++ queue.fitting data
    if queue.paceLen = 0 then
      { queue with
        outBuf := outBuf
        paceStart := queue.outBuf.length
        paceCps := paceRate baud
        paceLast := now
        paceLen := outBuf.length - queue.outBuf.length }
    else
      { queue with
        outBuf := outBuf
        paceCps := if paceRate baud < queue.paceCps then paceRate baud else queue.paceCps
        paceLen := outBuf.length - queue.paceStart }

/-- The milliseconds since a time, as `ddial_session_budget` counts them. The quotient is rounded towards zero. -/
def elapsedMs (last now : Timespec) : Nat :=
  (((now.sec : Int) - last.sec) * 1000 + ((now.nsec : Int) - last.nsec).tdiv 1000000).toNat

def sessionBudget (last : Timespec) (cps : Nat) (now : Timespec) : Nat := cps * elapsedMs last now % 2 ^ 64 / 1000

/-- This is the time that `ddial_session_budget` leaves. It advances when some budget is used. -/
def advanced (last : Timespec) (cps : Nat) (now : Timespec) : Timespec :=
  if 0 < sessionBudget last cps now then now else last

/-- A result of `send`. A result of zero bytes and an error end the loop alike. -/
inductive SendResult where
  | sent (bytes : Nat)
  | interrupted
  | failed
  deriving DecidableEq

/-- The bytes that the loop of `ddial_session_flush` has sent at its end. `send` takes no more than it is given. -/
def sendLoop (limit : Nat) : Nat → List SendResult → Nat
  | sent, [] => sent
  | sent, result :: results =>
    if sent < limit then
      match result with
      | .sent bytes => if bytes = 0 then sent else sendLoop limit (sent + min bytes (limit - sent)) results
      | .interrupted => sendLoop limit sent results
      | .failed => sent
    else sent

/-- The bytes that the pacing lets through, and the time of the pacing behind it. -/
def OutQueue.paceLimit (queue : OutQueue) (now : Timespec) : Nat × Timespec :=
  if queue.paceLen = 0 then (queue.outBuf.length, queue.paceLast)
  else if 0 < queue.paceStart then (queue.paceStart, queue.paceLast)
  else (min (sessionBudget queue.paceLast queue.paceCps now) queue.paceLen,
    advanced queue.paceLast queue.paceCps now)

/-- The bytes that the rate of the session lets through, and the time of the rate behind it. -/
def OutQueue.baudLimit (queue : OutQueue) (limit : Nat) (baud : UInt16) (now : Timespec) : Nat × Timespec :=
  if baud ≠ 0 ∧ 0 < limit then
    (min (sessionBudget queue.baudLast (baud.toNat / 10) now) limit, advanced queue.baudLast (baud.toNat / 10) now)
  else (limit, queue.baudLast)

def OutQueue.restart (queue : OutQueue) (now : Timespec) : OutQueue :=
  if queue.outBuf = [] then { queue with baudLast := now, paceLast := now } else queue

def OutQueue.flushLimit (queue : OutQueue) (baud : UInt16) (now : Timespec) : Nat :=
  let queue := queue.restart now
  (queue.baudLimit (queue.paceLimit now).1 baud now).1

def OutQueue.flushSent (queue : OutQueue) (baud : UInt16) (now : Timespec) (results : List SendResult) : Nat :=
  sendLoop (queue.flushLimit baud now) 0 results

/-- The buffer and the paced region after some bytes have been sent. -/
def OutQueue.consume (queue : OutQueue) (sent : Nat) : OutQueue :=
  let queue' := { queue with outBuf := queue.outBuf.drop sent }
  if queue.paceLen = 0 then queue'
  else if sent ≤ queue.paceStart then { queue' with paceStart := queue.paceStart - sent }
  else { queue' with paceStart := 0, paceLen := queue.paceLen - (sent - queue.paceStart) }

/-- This is `ddial_session_flush` on an open socket. -/
def OutQueue.flush (queue : OutQueue) (baud : UInt16) (now : Timespec) (results : List SendResult) : OutQueue :=
  let queue' := queue.restart now
  let paced := queue'.paceLimit now
  let rated := queue'.baudLimit paced.1 baud now
  ({ queue' with paceLast := paced.2, baudLast := rated.2 }).consume (queue.flushSent baud now results)

section Run

/-- A call on the output of a session. -/
inductive OutEvent where
  | writeRaw (data : Bytes)
  | writePaced (data : Bytes) (baud : UInt16) (now : Timespec)
  | flush (baud : UInt16) (now : Timespec) (results : List SendResult)

/-- The queue, the bytes that were sent, and the bytes of the writes that were accepted. A byte of a paced write is
marked. -/
structure OutState where
  queue : OutQueue
  sent : Bytes
  accepted : List (UInt8 × Bool)

def OutState.start : OutState := ⟨.empty, [], []⟩

def OutState.accept (state : OutState) (data : Bytes) (paced : Bool) : List (UInt8 × Bool) :=
  state.accepted ++ (state.queue.fitting data).map fun c => (c, paced)

def OutState.step (state : OutState) : OutEvent → OutState
  | .writeRaw data => ⟨state.queue.writeRaw data, state.sent, state.accept data false⟩
  | .writePaced data baud now => ⟨state.queue.writePaced data baud now, state.sent, state.accept data true⟩
  | .flush baud now results =>
    ⟨state.queue.flush baud now results, state.sent ++ state.queue.outBuf.take (state.queue.flushSent baud now results),
      state.accepted⟩

/-- The sent bytes and the buffer are the accepted bytes, and each unsent byte of a paced write lies in the paced
region. -/
structure QueueHolds (state : OutState) : Prop where
  order : state.sent ++ state.queue.outBuf = state.accepted.map Prod.fst
  fits : state.queue.outBuf.length ≤ outBufSize
  region : 0 < state.queue.paceLen → state.queue.paceStart + state.queue.paceLen ≤ state.queue.outBuf.length
  paced : ∀ i c, (state.accepted.drop state.sent.length)[i]? = some (c, true) →
    0 < state.queue.paceLen ∧ state.queue.paceStart ≤ i ∧ i < state.queue.paceStart + state.queue.paceLen

/-- A flush sends no byte of the paced region together with bytes before it, and no more of it than the budget of the
elapsed time. The milliseconds are rounded up by less than one. -/
def KeepsPace (queue : OutQueue) (baud : UInt16) (now : Timespec) (results : List SendResult) : Prop :=
  0 < queue.paceLen → queue.flushSent baud now results ≤ queue.paceStart ∨
    queue.paceStart = 0 ∧ queue.flushSent baud now results ≤ sessionBudget queue.paceLast queue.paceCps now ∧
      (queue.paceLast.nanos ≤ now.nanos → queue.flushSent baud now results * 1000000000 ≤
        queue.paceCps * (now.nanos - queue.paceLast.nanos + 999999))

theorem sendLoop_le {limit sent : Nat} (within : sent ≤ limit) (results : List SendResult) :
    sendLoop limit sent results ≤ limit := by
  induction results generalizing sent with
  | nil => exact within
  | cons result results ih =>
    rw [sendLoop.eq_def]
    dsimp only
    split_ifs with more
    · cases result with
      | sent =>
        dsimp only
        split_ifs
        · exact within
        · apply ih
          omega
      | interrupted => exact ih within
      | failed => exact within
    · exact within

theorem flushSent_le (queue : OutQueue) (baud : UInt16) (now : Timespec) (results : List SendResult) :
    queue.flushSent baud now results ≤ queue.flushLimit baud now :=
  sendLoop_le (Nat.zero_le _) results

theorem baudLimit_le (queue : OutQueue) (limit : Nat) (baud : UInt16) (now : Timespec) :
    (queue.baudLimit limit baud now).1 ≤ limit := by
  rw [OutQueue.baudLimit]
  split_ifs
  · exact min_le_right _ _
  · exact le_rfl

variable {state : OutState} {queue : OutQueue}

theorem flushLimit_le {now : Timespec} (same : queue.restart now = queue) (baud : UInt16) :
    queue.flushLimit baud now ≤ (queue.paceLimit now).1 := by
  rw [OutQueue.flushLimit, same]
  exact baudLimit_le queue _ baud now

theorem restart_eq (nonEmpty : queue.outBuf ≠ []) (now : Timespec) : queue.restart now = queue :=
  if_neg nonEmpty

/-- The milliseconds are rounded up by less than one. -/
theorem elapsedMs_le {last now : Timespec} (later : last.nanos ≤ now.nanos) :
    elapsedMs last now * 1000000 ≤ now.nanos - last.nanos + 999999 := by
  have quotient := Int.mul_tdiv_add_tmod ((now.nsec : Int) - last.nsec) 1000000
  have low := Int.lt_tmod_of_pos ((now.nsec : Int) - last.nsec) (by norm_num : (0 : Int) < 1000000)
  rw [elapsedMs]
  generalize ((now.nsec : Int) - last.nsec).tdiv 1000000 = whole at quotient ⊢
  simp only [Timespec.nanos] at later ⊢
  zify [later]
  rcases le_total 0 (((now.sec : Int) - last.sec) * 1000 + whole) with positive | negative
  · rw [Int.toNat_of_nonneg positive]
    linarith
  · rw [Int.toNat_of_nonpos negative]
    push_cast
    linarith

theorem sessionBudget_elapsed {last now : Timespec} (later : last.nanos ≤ now.nanos) (cps : Nat) :
    sessionBudget last cps now * 1000000000 ≤ cps * (now.nanos - last.nanos + 999999) := by
  have milliseconds := elapsedMs_le later
  have product : cps * elapsedMs last now % 2 ^ 64 ≤ cps * elapsedMs last now := Nat.mod_le _ _
  have budget : sessionBudget last cps now * 1000 ≤ cps * elapsedMs last now :=
    (Nat.div_mul_le_self _ _).trans product
  calc sessionBudget last cps now * 1000000000
      = sessionBudget last cps now * 1000 * 1000000 := by ring
    _ ≤ cps * elapsedMs last now * 1000000 := Nat.mul_le_mul_right _ budget
    _ = cps * (elapsedMs last now * 1000000) := by ring
    _ ≤ cps * (now.nanos - last.nanos + 999999) := Nat.mul_le_mul_left _ milliseconds

theorem QueueHolds.append_order (holds : QueueHolds state) (data : Bytes) (paced : Bool) :
    state.sent ++ (state.queue.outBuf ++ state.queue.fitting data) = (state.accept data paced).map Prod.fst := by
  rw [OutState.accept, map_append, ← holds.order, map_map, append_assoc]
  congr 2
  exact (map_id _).symm

theorem QueueHolds.append_fits (holds : QueueHolds state) (data : Bytes) :
    (state.queue.outBuf ++ state.queue.fitting data).length ≤ outBufSize := by
  have bound := holds.fits
  rw [length_append, OutQueue.fitting, length_take]
  omega

theorem QueueHolds.unsent (holds : QueueHolds state) (data : Bytes) (paced : Bool) :
    (state.accept data paced).drop state.sent.length =
      state.accepted.drop state.sent.length ++ (state.queue.fitting data).map (fun c => (c, paced)) ∧
    (state.accepted.drop state.sent.length).length = state.queue.outBuf.length := by
  have total := congrArg length holds.order
  rw [length_append, length_map] at total
  constructor
  · rw [OutState.accept, drop_append_of_le_length (by omega)]
  · rw [length_drop]
    omega

theorem QueueHolds.writeRaw (holds : QueueHolds state) (data : Bytes) : QueueHolds (state.step (.writeRaw data)) where
  order := holds.append_order data false
  fits := holds.append_fits data
  region := by
    intro some'
    have inside := holds.region some'
    simp only [OutState.step, OutQueue.writeRaw, length_append]
    omega
  paced := by
    intro i c marked
    obtain ⟨unsent, size⟩ := holds.unsent data false
    change ((state.accept data false).drop state.sent.length)[i]? = some (c, true) at marked
    rw [unsent] at marked
    rcases lt_or_ge i (state.accepted.drop state.sent.length).length with old | new
    · rw [getElem?_append_left old] at marked
      exact holds.paced i c marked
    · rw [getElem?_append_right new, getElem?_map] at marked
      obtain ⟨d, -, same⟩ := Option.map_eq_some_iff.mp marked
      cases same

theorem writePaced_region {data : Bytes} (baud : UInt16) (now : Timespec) (some' : queue.fitting data ≠ [])
    (region : 0 < queue.paceLen → queue.paceStart + queue.paceLen ≤ queue.outBuf.length) :
    (queue.writePaced data baud now).outBuf = queue.outBuf ++ queue.fitting data ∧
      (queue.writePaced data baud now).paceStart ≤ queue.outBuf.length ∧
      (queue.writePaced data baud now).paceStart + (queue.writePaced data baud now).paceLen =
        (queue.outBuf ++ queue.fitting data).length ∧
      (0 < queue.paceLen → (queue.writePaced data baud now).paceStart = queue.paceStart) := by
  rw [OutQueue.writePaced, if_neg some']
  by_cases none' : queue.paceLen = 0
  · rw [if_pos none']
    refine ⟨rfl, le_rfl, ?_, fun some' => absurd none' some'.ne'⟩
    dsimp only
    rw [length_append]
    omega
  · have inside := region (pos_of_ne_zero none')
    rw [if_neg none']
    refine ⟨rfl, le_trans (Nat.le_add_right _ _) inside, ?_, fun _ => rfl⟩
    dsimp only
    rw [length_append]
    omega

theorem QueueHolds.writePaced (holds : QueueHolds state) (data : Bytes) (baud : UInt16) (now : Timespec) :
    QueueHolds (state.step (.writePaced data baud now)) := by
  by_cases some' : state.queue.fitting data = []
  · have same : state.queue.writePaced data baud now = state.queue := if_pos some'
    have kept : state.accept data true = state.accepted := by
      rw [OutState.accept, some', map_nil, append_nil]
    rw [OutState.step, same, kept]
    exact holds
  · obtain ⟨buffer, start, stop, fixed⟩ := writePaced_region baud now some' holds.region
    obtain ⟨unsent, size⟩ := holds.unsent data true
    rw [length_append] at stop
    constructor
    · change state.sent ++ (state.queue.writePaced data baud now).outBuf = _
      rw [buffer]
      exact holds.append_order data true
    · change (state.queue.writePaced data baud now).outBuf.length ≤ _
      rw [buffer]
      exact holds.append_fits data
    · intro _
      change _ ≤ (state.queue.writePaced data baud now).outBuf.length
      rw [buffer, length_append]
      exact stop.le
    · intro i c marked
      change ((state.accept data true).drop state.sent.length)[i]? = some (c, true) at marked
      change 0 < (state.queue.writePaced data baud now).paceLen ∧ (state.queue.writePaced data baud now).paceStart ≤ i ∧
        i < (state.queue.writePaced data baud now).paceStart + (state.queue.writePaced data baud now).paceLen
      rw [unsent] at marked
      have inside := (List.getElem?_eq_some_iff.mp marked).1
      rw [length_append, length_map] at inside
      rcases lt_or_ge i (state.accepted.drop state.sent.length).length with old | new
      · rw [getElem?_append_left old] at marked
        obtain ⟨more, low, -⟩ := holds.paced i c marked
        omega
      · omega

theorem QueueHolds.flushSent (holds : QueueHolds state) (baud : UInt16) (now : Timespec) (results : List SendResult) :
    state.queue.flushSent baud now results ≤ state.queue.outBuf.length ∧
      KeepsPace state.queue baud now results := by
  have sent := flushSent_le state.queue baud now results
  by_cases none' : state.queue.paceLen = 0
  · constructor
    · apply sent.trans
      have limit := baudLimit_le (state.queue.restart now) ((state.queue.restart now).paceLimit now).1 baud now
      apply limit.trans
      rw [OutQueue.paceLimit, OutQueue.restart]
      split_ifs <;> simp_all
    · intro some'
      omega
  · have inside := holds.region (pos_of_ne_zero none')
    have nonEmpty : state.queue.outBuf ≠ [] := ne_nil_of_length_pos (by omega)
    have limit := sent.trans (flushLimit_le (restart_eq nonEmpty now) baud)
    rw [OutQueue.paceLimit, if_neg none'] at limit
    by_cases behind : 0 < state.queue.paceStart
    · rw [if_pos behind] at limit
      exact ⟨by dsimp only at limit; omega, fun _ => .inl limit⟩
    · rw [if_neg behind] at limit
      have budget := limit.trans (min_le_left _ _)
      refine ⟨(limit.trans (min_le_right _ _)).trans (by omega), fun _ => .inr ⟨by omega, budget, ?_⟩⟩
      intro later
      exact (Nat.mul_le_mul_right _ budget).trans (sessionBudget_elapsed later _)

theorem flush_eq (queue : OutQueue) (baud : UInt16) (now : Timespec) (results : List SendResult) :
    (queue.flush baud now results).outBuf = queue.outBuf.drop (queue.flushSent baud now results) ∧
      (queue.flush baud now results).paceStart = (queue.consume (queue.flushSent baud now results)).paceStart ∧
      (queue.flush baud now results).paceLen = (queue.consume (queue.flushSent baud now results)).paceLen := by
  simp only [OutQueue.flush, OutQueue.restart, OutQueue.consume]
  split_ifs <;> simp

theorem consume_region (sent : Nat) (within : sent ≤ queue.outBuf.length)
    (region : 0 < queue.paceLen → queue.paceStart + queue.paceLen ≤ queue.outBuf.length) :
    0 < (queue.consume sent).paceLen →
      (queue.consume sent).paceStart + (queue.consume sent).paceLen ≤ queue.outBuf.length - sent := by
  rw [OutQueue.consume]
  split_ifs with none' before
  · intro some'
    exact absurd none' some'.ne'
  · intro some'
    dsimp only
    omega
  · dsimp only
    intro some'
    omega

/-- A byte of the region that was not sent is in the region behind it. -/
theorem consume_paced {i : Nat} (sent : Nat)
    (paced : 0 < queue.paceLen ∧ queue.paceStart ≤ sent + i ∧ sent + i < queue.paceStart + queue.paceLen) :
    0 < (queue.consume sent).paceLen ∧ (queue.consume sent).paceStart ≤ i ∧
      i < (queue.consume sent).paceStart + (queue.consume sent).paceLen := by
  obtain ⟨some', low, high⟩ := paced
  rw [OutQueue.consume, if_neg some'.ne']
  split_ifs with before
  · dsimp only
    omega
  · dsimp only
    omega

theorem QueueHolds.flush (holds : QueueHolds state) (baud : UInt16) (now : Timespec) (results : List SendResult) :
    QueueHolds (state.step (.flush baud now results)) := by
  obtain ⟨within, keeps⟩ := holds.flushSent baud now results
  obtain ⟨buffer, start, length⟩ := flush_eq state.queue baud now results
  generalize sentNow : state.queue.flushSent baud now results = sent at *
  have taken : (state.queue.outBuf.take sent).length = sent := length_take_of_le within
  constructor
  · change state.sent ++ state.queue.outBuf.take (state.queue.flushSent baud now results) ++
      (state.queue.flush baud now results).outBuf = state.accepted.map Prod.fst
    rw [sentNow, buffer, append_assoc, take_append_drop]
    exact holds.order
  · change (state.queue.flush baud now results).outBuf.length ≤ _
    rw [buffer, length_drop]
    exact (Nat.sub_le _ _).trans holds.fits
  · change 0 < (state.queue.flush baud now results).paceLen → (state.queue.flush baud now results).paceStart +
      (state.queue.flush baud now results).paceLen ≤ (state.queue.flush baud now results).outBuf.length
    rw [buffer, start, length, length_drop]
    exact consume_region sent within holds.region
  · intro i c marked
    change (state.accepted.drop (state.sent ++ state.queue.outBuf.take _).length)[i]? = some (c, true) at marked
    rw [sentNow, length_append, taken, ← drop_drop, getElem?_drop] at marked
    change 0 < (state.queue.flush baud now results).paceLen ∧ (state.queue.flush baud now results).paceStart ≤ i ∧
      i < (state.queue.flush baud now results).paceStart + (state.queue.flush baud now results).paceLen
    rw [start, length]
    exact consume_paced sent (holds.paced (sent + i) c marked)

/-- Every event keeps the order of the output and the paced region. -/
theorem QueueHolds.step (holds : QueueHolds state) (event : OutEvent) : QueueHolds (state.step event) := by
  cases event with
  | writeRaw data => exact holds.writeRaw data
  | writePaced data baud now => exact holds.writePaced data baud now
  | flush baud now results => exact holds.flush baud now results

theorem queueHolds_start : QueueHolds .start where
  order := rfl
  fits := Nat.zero_le _
  region := fun some' => absurd some' (lt_irrefl 0)
  paced := by simp [OutState.start]

/-- After every sequence of writes and flushes the output is in order and its paced part is in the paced region, and
every flush keeps the pace. -/
theorem output_paced (events : List OutEvent) :
    QueueHolds (run OutState.step .start events) ∧
      ∀ baud now results, KeepsPace (run OutState.step .start events).queue baud now results := by
  have holds := run_invariant OutState.step QueueHolds (fun _ event kept => kept.step event) queueHolds_start events
  exact ⟨holds, fun baud now results => (holds.flushSent baud now results).2⟩

/-- A raw write, a paced write of four bytes at one byte for each second, and two flushes. -/
example : (run OutState.step .start
    [.writeRaw (str "ab"), .writePaced (str "cdef") 10 .zero, .flush 0 ⟨2, 0, by decide⟩ [.sent 9],
      .flush 0 ⟨2, 0, by decide⟩ [.sent 9]]).sent = str "abcd" := by
  decide +kernel

end Run

end SshChatter.Ddial
