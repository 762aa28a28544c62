import SshChatter.Transport.GuardIsolation

namespace SshChatter.Transport
open CString List

def ConnectionGuard.entryOf (guard : ConnectionGuard) (ip : Bytes) : Option GuardEntry :=
  KeyedList.lookup GuardEntry.name guard.entries ip

def resultOf (guard : ConnectionGuard) (call : GuardCall) : GuardResult := (register guard call.ip call.now).2

def refused (guard : ConnectionGuard) (call : GuardCall) : Bool :=
  (guard.entryOf call.ip).any fun entry => decide (call.now.toNs < entry.blockedUntil.toNs)

def newBlock (guard : ConnectionGuard) (call : GuardCall) : Bool := (resultOf guard call).blocked && !refused guard call

def startsRow (guard : ConnectionGuard) (call : GuardCall) : Bool :=
  match (guard.entryOf call.ip).filter (keepEntry call.now) with
  | none => true
  | some entry =>
    !refused guard call &&
      decide (entry.windowStart ≠ .zero ∧ guardRetentionNs < (Timespec.diff call.now entry.windowStart).toNs)

def rowStep (ip : Bytes) (state : ConnectionGuard × Nat) (call : GuardCall) : ConnectionGuard × Nat :=
  ((register state.1 call.ip call.now).1,
    if call.ip = ip then
      (if startsRow state.1 call then 0 else state.2) + (if newBlock state.1 call then 1 else 0)
    else state.2)

def blocksInRow (ip : Bytes) (start : ConnectionGuard) (calls : List GuardCall) : Nat :=
  (calls.foldl (rowStep ip) (start, 0)).2

def openCalls (ip : Bytes) (start : ConnectionGuard) (calls : List GuardCall) : List GuardCall :=
  ((calls.zip (results start calls)).filter fun pair => pair.1.ip = ip ∧ pair.2.blocked = false).map Prod.fst

def FitsLongLong (value : Int) : Prop := -2 ^ 63 ≤ value ∧ value < 2 ^ 63

/-- What a call does after a run. -/
structure GuardLaw (start : ConnectionGuard) (calls : List GuardCall) (call : GuardCall) : Prop where
  sound : newBlock (registerAll start calls) call →
    guardThreshold ≤ ((openCalls call.ip start calls ++ [call]).filter fun counted =>
      call.now.toNs - guardWindowNs ≤ counted.now.toNs ∧ counted.now.toNs ≤ call.now.toNs).length
  refuses : ∀ entry, (registerAll start calls).entryOf call.ip = some entry → call.now.toNs < entry.blockedUntil.toNs →
    (resultOf (registerAll start calls) call).blocked ∧
      (resultOf (registerAll start calls) call).blockedUntil = entry.blockedUntil
  keeps : ∀ ip entry, (registerAll start calls).entryOf ip = some entry → call.now.toNs < entry.blockedUntil.toNs →
    ∃ entry', (registerAll start (calls ++ [call])).entryOf ip = some entry' ∧
      entry'.blockedUntil = entry.blockedUntil ∧
      entry'.attempts = entry.attempts ∧ entry'.blockCount = entry.blockCount ∧ entry'.windowStart = entry.windowStart
  lasts : newBlock (registerAll start calls) call → 1 ≤ blocksInRow call.ip start (calls ++ [call]) ∧
    (resultOf (registerAll start calls) call).blockedUntil.toNs =
      call.now.toNs + min (2 * blocksInRow call.ip start (calls ++ [call]) : Int) 60 * 1000000000 ∧
    ∃ entry, (registerAll start (calls ++ [call])).entryOf call.ip = some entry ∧
      entry.blockedUntil = (resultOf (registerAll start calls) call).blockedUntil
  counts : ∀ ip entry, (registerAll start (calls ++ [call])).entryOf ip = some entry → entry.blockCount ≤ 2 ^ 32 - 1
  range : ∀ blockCount : Nat, 1 ≤ blockCount → blockCount ≤ 2 ^ 32 - 1 →
    FitsLongLong (((blockCount - 1 : Nat) : Int) * guardBlockStepNs) ∧
      FitsLongLong (guardBlockBaseNs + ((blockCount - 1 : Nat) : Int) * guardBlockStepNs)
  escalates : (resultOf (registerAll start calls) call).escalateBan ↔
    newBlock (registerAll start calls) call ∧
      guardBanThreshold ≤ (resultOf (registerAll start calls) call).blockCount

/-- What holds of the entry of an address after a run. -/
structure Tracked (ip : Bytes) (start : ConnectionGuard) (calls : List GuardCall) (entry : GuardEntry) : Prop where
  counted : entry.attempts ≤
    ((openCalls ip start calls).filter fun call => entry.windowStart.toNs ≤ call.now.toNs).length
  inRow : entry.blockCount = min (blocksInRow ip start calls) (2 ^ 32 - 1)
  blockShort : entry.blockedUntil.toNs ≤ entry.lastSeen.toNs + guardBlockMaxNs
  windowSeen : entry.windowStart.toNs ≤ entry.lastSeen.toNs
  seen : ∃ call ∈ calls, entry.lastSeen = call.now

/-- What holds of the entry of a call that is counted, in front of the count. -/
structure Opened (start : ConnectionGuard) (calls : List GuardCall) (call : GuardCall) (entry : GuardEntry) : Prop where
  counted : entry.attempts ≤
    ((openCalls call.ip start calls).filter fun call => entry.windowStart.toNs ≤ call.now.toNs).length
  inRow : entry.blockCount =
    min (if startsRow (registerAll start calls) call then 0 else blocksInRow call.ip start calls) (2 ^ 32 - 1)
  free : entry.blockedUntil = .zero
  seen : entry.lastSeen = call.now
  windowRecent : call.now.toNs - guardWindowNs ≤ entry.windowStart.toNs
  windowSeen : entry.windowStart.toNs ≤ call.now.toNs

section Entries

variable {now : Timespec} {entry : GuardEntry}

theorem refused_iff (guard : ConnectionGuard) (call : GuardCall) : refused guard call ↔
    ∃ entry, guard.entryOf call.ip = some entry ∧ call.now.toNs < entry.blockedUntil.toNs := by
  rw [refused, Option.any_eq_true]
  simp only [decide_eq_true_eq]

theorem registerEntry_refused (blocked : now.toNs < entry.blockedUntil.toNs) : registerEntry now entry =
    ({ entry with lastSeen := now }, ⟨true, false, entry.blockedUntil, entry.attempts, entry.blockCount⟩) := by
  have set : entry.blockedUntil ≠ .zero := by
    have nonNegative := now.toNs_nonneg
    rw [Ne, Timespec.eq_zero_iff]
    omega
  rw [registerEntry, if_pos ⟨set, (Timespec.compare_pos _ _).mpr blocked⟩]

theorem registerEntry_counted (free : entry.blockedUntil.toNs ≤ now.toNs) : registerEntry now entry =
    countAttempt now (refreshWindow now { entry with lastSeen := now, blockedUntil := .zero }) := by
  have expired : ¬ 0 < Timespec.compare entry.blockedUntil now := by
    rw [Timespec.compare_pos]
    omega
  rw [registerEntry, if_neg fun both => expired both.2]

theorem keepEntry_blocked (named : entry.name ≠ [])
    (short : entry.blockedUntil.toNs ≤ entry.lastSeen.toNs + guardBlockMaxNs)
    (blocked : now.toNs < entry.blockedUntil.toNs) : keepEntry now entry := by
  have named' : entry.ip.text ≠ [] := named
  rw [keepEntry, if_neg named']
  split_ifs with seen
  · rw [decide_eq_true_eq, Timespec.toNs_diff]
    simp only [guardBlockMaxNs, guardRetentionNs] at short ⊢
    omega
  · rfl

theorem penaltyNs_eq {blockCount : Nat} (positive : 1 ≤ blockCount) :
    penaltyNs blockCount = min (2 * blockCount : Int) 60 * 1000000000 := by
  have counted : 0 < blockCount := positive
  rw [penaltyNs, if_pos counted, guardBlockBaseNs, guardBlockStepNs, guardBlockMaxNs]
  omega

theorem countUp_min (limit value : Nat) : countUp limit (min value limit) = min (value + 1) limit := by
  rw [countUp]
  split_ifs <;> omega

end Entries

section Runs

variable {start : ConnectionGuard} {calls : List GuardCall} {call : GuardCall} {ip : Bytes}

theorem registerAll_concat (start : ConnectionGuard) (calls : List GuardCall) (call : GuardCall) :
    registerAll start (calls ++ [call]) = (register (registerAll start calls) call.ip call.now).1 := by
  rw [registerAll, foldl_append]
  rfl

theorem results_length (start : ConnectionGuard) (calls : List GuardCall) :
    (results start calls).length = calls.length := by
  induction calls generalizing start with
  | nil => rfl
  | cons call rest inductionHypothesis => rw [results, length_cons, inductionHypothesis, length_cons]

theorem results_concat (start : ConnectionGuard) (calls : List GuardCall) (call : GuardCall) :
    results start (calls ++ [call]) = results start calls ++ [resultOf (registerAll start calls) call] := by
  induction calls generalizing start with
  | nil => rfl
  | cons first rest inductionHypothesis =>
    rw [cons_append, results, inductionHypothesis]
    rfl

theorem openCalls_concat (ip : Bytes) (start : ConnectionGuard) (calls : List GuardCall) (call : GuardCall) :
    openCalls ip start (calls ++ [call]) = openCalls ip start calls ++
      if call.ip = ip ∧ (resultOf (registerAll start calls) call).blocked = false then [call] else [] := by
  rw [openCalls, results_concat, zip_append (results_length start calls).symm, filter_append, map_append]
  congr 1
  by_cases counts : call.ip = ip ∧ (resultOf (registerAll start calls) call).blocked = false
  · simp [counts]
  · rw [if_neg counts]
    simp only [zip_cons_cons, zip_nil_right, filter_cons, filter_nil, decide_eq_true_eq, counts, if_false,
      map_nil]

theorem rowStep_guard (ip : Bytes) (start : ConnectionGuard) (calls : List GuardCall) :
    (calls.foldl (rowStep ip) (start, 0)).1 = registerAll start calls := by
  induction calls using reverseRecOn with
  | nil => rfl
  | append_singleton calls call inductionHypothesis =>
    rw [foldl_append, registerAll_concat, ← inductionHypothesis]
    rfl

theorem blocksInRow_concat (ip : Bytes) (start : ConnectionGuard) (calls : List GuardCall) (call : GuardCall) :
    blocksInRow ip start (calls ++ [call]) =
      if call.ip = ip then
        (if startsRow (registerAll start calls) call then 0 else blocksInRow ip start calls) +
          (if newBlock (registerAll start calls) call then 1 else 0)
      else blocksInRow ip start calls := by
  rw [blocksInRow, foldl_append, ← rowStep_guard ip]
  rfl

/-- A call that is not refused counts on a window of the last seconds. -/
theorem opened_refresh {kept : Option GuardEntry}
    (pruned : ((registerAll start calls).entryOf call.ip).filter (keepEntry call.now) = kept)
    (tracked : ∀ entry, (registerAll start calls).entryOf call.ip = some entry → Tracked call.ip start calls entry)
    (later : ∀ earlier ∈ calls, earlier.now.toNs ≤ call.now.toNs)
    (free : refused (registerAll start calls) call = false) : Opened start calls call
      (refreshWindow call.now { kept.getD (.fresh call.ip) with lastSeen := call.now, blockedUntil := .zero }) := by
  have recent : call.now.toNs - guardWindowNs ≤ call.now.toNs := by
    rw [guardWindowNs]
    omega
  cases kept with
  | none =>
    have row : startsRow (registerAll start calls) call := by rw [startsRow, pruned]
    exact ⟨Nat.zero_le _, by rw [if_pos row]; rfl, rfl, rfl, recent, le_rfl⟩
  | some entry =>
    have known : (registerAll start calls).entryOf call.ip = some entry := (Option.filter_eq_some_iff.mp pruned).1
    obtain ⟨counted, inRow, -, windowSeen, earlier, member, seen⟩ := tracked entry known
    have windowNow : entry.windowStart.toNs ≤ call.now.toNs := by
      rw [seen] at windowSeen
      exact windowSeen.trans (later earlier member)
    have row : startsRow (registerAll start calls) call =
        decide (entry.windowStart ≠ .zero ∧ guardRetentionNs < (Timespec.diff call.now entry.windowStart).toNs) := by
      rw [startsRow, pruned]
      simp only [free, Bool.not_false, Bool.true_and]
    rw [Option.getD_some]
    by_cases unset : entry.windowStart = .zero
    · have sameRow : startsRow (registerAll start calls) call = false := by simp [row, unset]
      rw [refreshWindow, if_pos unset]
      refine ⟨Nat.zero_le _, ?_, rfl, rfl, recent, le_rfl⟩
      rw [sameRow]
      exact inRow
    · by_cases old : guardWindowNs < (Timespec.diff call.now entry.windowStart).toNs
      · rw [refreshWindow, if_neg unset, if_pos old]
        refine ⟨Nat.zero_le _, ?_, rfl, rfl, recent, le_rfl⟩
        by_cases forgotten : guardRetentionNs < (Timespec.diff call.now entry.windowStart).toNs
        · have newRow : startsRow (registerAll start calls) call := by simp [row, unset, forgotten]
          rw [if_pos forgotten, if_pos newRow, Nat.zero_min]
        · have sameRow : startsRow (registerAll start calls) call = false := by simp [row, forgotten]
          rw [if_neg forgotten, sameRow]
          exact inRow
      · have notOld : ¬ guardRetentionNs < (Timespec.diff call.now entry.windowStart).toNs := by
          simp only [guardWindowNs, guardRetentionNs] at old ⊢
          omega
        have sameRow : startsRow (registerAll start calls) call = false := by simp [row, notOld]
        rw [refreshWindow, if_neg unset, if_neg old]
        rw [Timespec.toNs_diff] at old
        refine ⟨counted, ?_, rfl, rfl, by dsimp only; omega, windowNow⟩
        rw [sameRow]
        exact inRow

def entryFor (guard : ConnectionGuard) (call : GuardCall) : GuardEntry :=
  ((guard.entryOf call.ip).filter (keepEntry call.now)).getD (.fresh call.ip)

theorem call_spec (sound : Sound (registerAll start calls)) (present : call.ip ≠ []) (short : call.ip.length < ipLen) :
    resultOf (registerAll start calls) call =
        (registerEntry call.now (entryFor (registerAll start calls) call)).2 ∧
      (registerAll start (calls ++ [call])).entryOf call.ip =
        some (registerEntry call.now (entryFor (registerAll start calls) call)).1 ∧
      (∀ other, other ≠ call.ip → (registerAll start (calls ++ [call])).entryOf other =
        ((registerAll start calls).entryOf other).filter (keepEntry call.now)) ∧
      Sound (registerAll start (calls ++ [call])) := by
  obtain ⟨result, entries, after⟩ := register_spec sound present short call.now
  rw [registerAll_concat]
  refine ⟨result, ?_, fun other different => ?_, after⟩
  · exact (entries call.ip).trans (if_pos rfl)
  · exact (entries other).trans (if_neg different)

theorem own_call (sound : Sound (registerAll start calls)) (present : call.ip ≠ []) (short : call.ip.length < ipLen)
    (tracked : ∀ entry, (registerAll start calls).entryOf call.ip = some entry → Tracked call.ip start calls entry)
    (later : ∀ earlier ∈ calls, earlier.now.toNs ≤ call.now.toNs) :
    (∃ entry, (registerAll start calls).entryOf call.ip = some entry ∧ call.now.toNs < entry.blockedUntil.toNs ∧
      resultOf (registerAll start calls) call =
        ⟨true, false, entry.blockedUntil, entry.attempts, entry.blockCount⟩ ∧
      (registerAll start (calls ++ [call])).entryOf call.ip = some { entry with lastSeen := call.now } ∧
      startsRow (registerAll start calls) call = false) ∨
    (refused (registerAll start calls) call = false ∧ ∃ entry, Opened start calls call entry ∧
      resultOf (registerAll start calls) call = (countAttempt call.now entry).2 ∧
      (registerAll start (calls ++ [call])).entryOf call.ip = some (countAttempt call.now entry).1) := by
  obtain ⟨result, entryAfter, -⟩ := call_spec sound present short
  by_cases blocked : ∃ entry, (registerAll start calls).entryOf call.ip = some entry ∧
      call.now.toNs < entry.blockedUntil.toNs
  · obtain ⟨entry, known, blocked⟩ := blocked
    have named := sound.named entry (KeyedList.lookup_some known).1
    have keep := keepEntry_blocked named (tracked entry known).blockShort blocked
    have kept : ((registerAll start calls).entryOf call.ip).filter (keepEntry call.now) = some entry := by
      rw [known, Option.filter_some, if_pos keep]
    have refuses := (refused_iff (registerAll start calls) call).mpr ⟨entry, known, blocked⟩
    have works : entryFor (registerAll start calls) call = entry := by rw [entryFor, kept, Option.getD_some]
    rw [works, registerEntry_refused blocked] at result entryAfter
    refine .inl ⟨entry, known, blocked, result, entryAfter, ?_⟩
    simp [startsRow, kept, refuses]
  · have free : refused (registerAll start calls) call = false := by
      rw [Bool.eq_false_iff, Ne, refused_iff]
      exact blocked
    have expired : (entryFor (registerAll start calls) call).blockedUntil.toNs ≤ call.now.toNs := by
      rw [entryFor]
      cases kept : ((registerAll start calls).entryOf call.ip).filter (keepEntry call.now) with
      | none =>
        have block : (GuardEntry.fresh call.ip).blockedUntil.toNs = 0 := Timespec.toNs_zero
        rw [Option.getD_none, block]
        exact call.now.toNs_nonneg
      | some entry =>
        rw [Option.getD_some]
        by_contra later
        exact blocked ⟨entry, (Option.filter_eq_some_iff.mp kept).1, by omega⟩
    rw [registerEntry_counted expired] at result entryAfter
    exact .inr ⟨free, _, opened_refresh rfl tracked later free, result, entryAfter⟩

variable {entry : GuardEntry}

theorem Tracked.other (tracked : Tracked ip start calls entry) (different : call.ip ≠ ip) :
    Tracked ip start (calls ++ [call]) entry := by
  obtain ⟨earlier, member, seen⟩ := tracked.seen
  refine ⟨?_, ?_, tracked.blockShort, tracked.windowSeen, earlier, mem_append_left _ member, seen⟩
  · rw [openCalls_concat, if_neg (fun both => different both.1), append_nil]
    exact tracked.counted
  · rw [blocksInRow_concat, if_neg different]
    exact tracked.inRow

theorem Tracked.refuse (tracked : Tracked call.ip start calls entry)
    (later : ∀ earlier ∈ calls, earlier.now.toNs ≤ call.now.toNs)
    (refuses : refused (registerAll start calls) call)
    (blocked : (resultOf (registerAll start calls) call).blocked)
    (sameRow : startsRow (registerAll start calls) call = false) :
    Tracked call.ip start (calls ++ [call]) { entry with lastSeen := call.now } := by
  obtain ⟨earlier, member, seen⟩ := tracked.seen
  have onward : entry.lastSeen.toNs ≤ call.now.toNs := by
    rw [seen]
    exact later earlier member
  refine ⟨?_, ?_, ?_, tracked.windowSeen.trans onward, call, by simp, rfl⟩
  · rw [openCalls_concat, if_neg (by simp [blocked]), append_nil]
    exact tracked.counted
  · have known : newBlock (registerAll start calls) call = false := by
      rw [newBlock, refuses, Bool.not_true, Bool.and_false]
    rw [blocksInRow_concat, if_pos rfl, sameRow, known]
    exact tracked.inRow
  · have short := tracked.blockShort
    dsimp only
    omega

theorem countAttempt_block (now : Timespec) (many : guardThreshold ≤ countUp (2 ^ 64 - 1) entry.attempts) :
    countAttempt now entry =
      ({ entry with
          windowStart := now
          attempts := 0
          blockCount := countUp (2 ^ 32 - 1) entry.blockCount
          blockedUntil := Timespec.addNs now (penaltyNs (countUp (2 ^ 32 - 1) entry.blockCount)) },
        ⟨true, guardBanThreshold ≤ countUp (2 ^ 32 - 1) entry.blockCount,
          Timespec.addNs now (penaltyNs (countUp (2 ^ 32 - 1) entry.blockCount)), countUp (2 ^ 64 - 1) entry.attempts,
          countUp (2 ^ 32 - 1) entry.blockCount⟩) := by
  rw [countAttempt, if_pos many]

theorem countAttempt_open (now : Timespec) (few : ¬ guardThreshold ≤ countUp (2 ^ 64 - 1) entry.attempts) :
    countAttempt now entry =
      ({ entry with attempts := countUp (2 ^ 64 - 1) entry.attempts },
        ⟨false, false, .zero, countUp (2 ^ 64 - 1) entry.attempts, entry.blockCount⟩) := by
  rw [countAttempt, if_neg few]

theorem Opened.blocked (opened : Opened start calls call entry)
    (new : newBlock (registerAll start calls) call) :
    1 ≤ blocksInRow call.ip start (calls ++ [call]) ∧
      countUp (2 ^ 32 - 1) entry.blockCount = min (blocksInRow call.ip start (calls ++ [call])) (2 ^ 32 - 1) := by
  rw [blocksInRow_concat, if_pos rfl, if_pos new, opened.inRow, countUp_min]
  exact ⟨Nat.le_add_left _ _, rfl⟩

theorem Opened.track (opened : Opened start calls call entry) (free : refused (registerAll start calls) call = false)
    (result : resultOf (registerAll start calls) call = (countAttempt call.now entry).2) :
    Tracked call.ip start (calls ++ [call]) (countAttempt call.now entry).1 := by
  have seenNow : entry.lastSeen.toNs = call.now.toNs := by rw [opened.seen]
  by_cases many : guardThreshold ≤ countUp (2 ^ 64 - 1) entry.attempts
  · rw [countAttempt_block call.now many] at result ⊢
    have new : newBlock (registerAll start calls) call := by
      rw [newBlock, free, result]
      rfl
    have bounds := penaltyNs_bounds (countUp (2 ^ 32 - 1) entry.blockCount)
    refine ⟨Nat.zero_le _, (opened.blocked new).2, ?_, seenNow.ge, call, by simp, opened.seen⟩
    dsimp only
    rw [Timespec.toNs_addNs _ bounds.1]
    omega
  · rw [countAttempt_open call.now many] at result ⊢
    have old : newBlock (registerAll start calls) call = false := by
      rw [newBlock, result]
      rfl
    refine ⟨?_, ?_, ?_, opened.windowSeen.trans seenNow.ge, call, by simp, opened.seen⟩
    · have counted := opened.counted
      rw [openCalls_concat, if_pos ⟨rfl, by rw [result]⟩, filter_append, length_append]
      rw [filter_singleton, decide_eq_true opened.windowSeen, countUp]
      simp only [cond_true, length_singleton]
      split_ifs <;> omega
    · rw [blocksInRow_concat, if_pos rfl, old]
      exact opened.inRow
    · dsimp only
      rw [opened.free, Timespec.toNs_zero, guardBlockMaxNs]
      have nonNegative := entry.lastSeen.toNs_nonneg
      omega

theorem register_nil (guard : ConnectionGuard) (now : Timespec) : register guard [] now = (guard, .zero) := by
  rw [register, if_pos rfl]

theorem tracked_run (empty : start.count = 0) (short : ∀ call ∈ calls, call.ip.length < ipLen)
    (ordered : calls.Pairwise fun call later => call.now.toNs ≤ later.now.toNs) :
    Sound (registerAll start calls) ∧
      ∀ ip entry, (registerAll start calls).entryOf ip = some entry → Tracked ip start calls entry := by
  have fresh := (linked_empty [] empty).sound
  refine ⟨registerAll_sound fresh short, ?_⟩
  induction calls using reverseRecOn with
  | nil =>
    intro ip entry known
    have none : start.entries = [] := by rw [ConnectionGuard.entries, empty, take_zero]
    change KeyedList.lookup GuardEntry.name start.entries ip = some entry at known
    rw [none] at known
    cases known
  | append_singleton calls call inductionHypothesis =>
    intro ip entry' known'
    rw [pairwise_append] at ordered
    have shortBefore : ∀ made ∈ calls, made.ip.length < ipLen := fun made member =>
      short made (mem_append_left _ member)
    have later : ∀ earlier ∈ calls, earlier.now.toNs ≤ call.now.toNs := fun earlier member =>
      ordered.2.2 earlier member call (mem_singleton_self call)
    have tracked := inductionHypothesis shortBefore ordered.1
    have sound := registerAll_sound fresh shortBefore
    by_cases present : call.ip = []
    · rw [registerAll_concat, present] at known'
      have different : call.ip ≠ ip := by
        rw [present]
        rintro rfl
        exact sound.named entry' (KeyedList.lookup_some known').1 (KeyedList.lookup_some known').2
      exact (tracked ip entry' known').other different
    · have shortCall := short call (by simp)
      by_cases own : ip = call.ip
      · subst own
        rcases own_call sound present shortCall (tracked call.ip) later with
          ⟨entry, known, blocked, result, after, sameRow⟩ | ⟨free, entry, opened, result, after⟩
        · rw [after, Option.some.injEq] at known'
          subst known'
          exact (tracked call.ip entry known).refuse later ((refused_iff _ _).mpr ⟨entry, known, blocked⟩)
            (by rw [result]) sameRow
        · rw [after, Option.some.injEq] at known'
          subst known'
          exact opened.track free result
      · obtain ⟨-, -, others, -⟩ := call_spec sound present shortCall
        rw [others ip own] at known'
        exact (tracked ip entry' (Option.filter_eq_some_iff.mp known').1).other (Ne.symm own)

theorem newBlock_opened (sound : Sound (registerAll start calls)) (short : call.ip.length < ipLen)
    (tracked : ∀ entry, (registerAll start calls).entryOf call.ip = some entry → Tracked call.ip start calls entry)
    (later : ∀ earlier ∈ calls, earlier.now.toNs ≤ call.now.toNs)
    (new : newBlock (registerAll start calls) call) :
    ∃ entry, Opened start calls call entry ∧ guardThreshold ≤ countUp (2 ^ 64 - 1) entry.attempts ∧
      resultOf (registerAll start calls) call = (countAttempt call.now entry).2 ∧
      (registerAll start (calls ++ [call])).entryOf call.ip = some (countAttempt call.now entry).1 := by
  obtain ⟨blocked, free⟩ := Bool.and_eq_true_iff.mp new
  have present : call.ip ≠ [] := by
    intro absent
    rw [resultOf, absent] at blocked
    cases blocked
  rcases own_call sound present short tracked later with
    ⟨entry, known, until', -⟩ | ⟨-, entry, opened, result, after⟩
  · rw [(refused_iff _ _).mpr ⟨entry, known, until'⟩] at free
    cases free
  · refine ⟨entry, opened, ?_, result, after⟩
    by_contra few
    rw [result, countAttempt_open call.now few] at blocked
    cases blocked

theorem openCalls_subset {counted : GuardCall} (member : counted ∈ openCalls ip start calls) : counted ∈ calls := by
  obtain ⟨pair, listed, rfl⟩ := mem_map.mp member
  exact (of_mem_zip (mem_filter.mp listed).1).1

theorem newBlock_recent (sound : Sound (registerAll start calls)) (short : call.ip.length < ipLen)
    (tracked : ∀ ip entry, (registerAll start calls).entryOf ip = some entry → Tracked ip start calls entry)
    (later : ∀ earlier ∈ calls, earlier.now.toNs ≤ call.now.toNs)
    (new : newBlock (registerAll start calls) call) :
    guardThreshold ≤ ((openCalls call.ip start calls ++ [call]).filter fun counted =>
      call.now.toNs - guardWindowNs ≤ counted.now.toNs ∧ counted.now.toNs ≤ call.now.toNs).length := by
  obtain ⟨entry, opened, many, -⟩ := newBlock_opened sound short (tracked call.ip) later new
  have counted := opened.counted
  have window := opened.windowRecent
  have recent : (openCalls call.ip start calls).countP (fun call => entry.windowStart.toNs ≤ call.now.toNs) ≤
      (openCalls call.ip start calls).countP fun counted =>
        call.now.toNs - guardWindowNs ≤ counted.now.toNs ∧ counted.now.toNs ≤ call.now.toNs := by
    apply countP_mono_left
    intro counted member inWindow
    have before := later counted (openCalls_subset member)
    rw [decide_eq_true_eq] at inWindow ⊢
    omega
  rw [countP_eq_length_filter, countP_eq_length_filter] at recent
  rw [filter_append, length_append, filter_singleton]
  have here : decide (call.now.toNs - guardWindowNs ≤ call.now.toNs ∧ call.now.toNs ≤ call.now.toNs) = true := by
    rw [decide_eq_true_eq, guardWindowNs]
    omega
  rw [here, cond_true, length_singleton]
  rw [countUp, guardThreshold] at many
  rw [guardThreshold]
  split_ifs at many <;> omega

theorem blocked_kept (sound : Sound (registerAll start calls)) (short : call.ip.length < ipLen)
    (tracked : ∀ ip entry, (registerAll start calls).entryOf ip = some entry → Tracked ip start calls entry)
    (later : ∀ earlier ∈ calls, earlier.now.toNs ≤ call.now.toNs) {ip : Bytes}
    (known : (registerAll start calls).entryOf ip = some entry) (blocked : call.now.toNs < entry.blockedUntil.toNs) :
    ∃ entry', (registerAll start (calls ++ [call])).entryOf ip = some entry' ∧ entry'.blockedUntil =
      entry.blockedUntil ∧ entry'.attempts = entry.attempts ∧ entry'.blockCount = entry.blockCount ∧
        entry'.windowStart = entry.windowStart := by
  by_cases present : call.ip = []
  · rw [registerAll_concat, present]
    exact ⟨entry, known, rfl, rfl, rfl, rfl⟩
  by_cases own : ip = call.ip
  · subst own
    rcases own_call sound present short (tracked call.ip) later with
      ⟨entry', known', -, -, after, -⟩ | ⟨free, -⟩
    · rw [known, Option.some.injEq] at known'
      subst known'
      exact ⟨_, after, rfl, rfl, rfl, rfl⟩
    · rw [(refused_iff _ _).mpr ⟨entry, known, blocked⟩] at free
      cases free
  · obtain ⟨-, -, others, -⟩ := call_spec sound present short
    have keep := keepEntry_blocked (sound.named entry (KeyedList.lookup_some known).1)
      (tracked ip entry known).blockShort blocked
    refine ⟨entry, ?_, rfl, rfl, rfl, rfl⟩
    rw [others ip own, known, Option.filter_some, if_pos keep]

/-- A call asks for a ban when it blocks its address anew and the blocks in a row are enough. -/
theorem escalates_iff (sound : Sound (registerAll start calls)) (short : call.ip.length < ipLen)
    (tracked : ∀ ip entry, (registerAll start calls).entryOf ip = some entry → Tracked ip start calls entry)
    (later : ∀ earlier ∈ calls, earlier.now.toNs ≤ call.now.toNs) :
    (resultOf (registerAll start calls) call).escalateBan ↔
      newBlock (registerAll start calls) call ∧
        guardBanThreshold ≤ (resultOf (registerAll start calls) call).blockCount := by
  constructor
  · intro escalates
    by_cases present : call.ip = []
    · rw [resultOf, present] at escalates
      cases escalates
    rcases own_call sound present short (tracked call.ip) later with
      ⟨entry, -, -, result, -⟩ | ⟨free, entry, opened, result, -⟩
    · rw [result] at escalates
      cases escalates
    · by_cases many : guardThreshold ≤ countUp (2 ^ 64 - 1) entry.attempts
      · rw [countAttempt_block call.now many] at result
        have new : newBlock (registerAll start calls) call := by
          rw [newBlock, free, result]
          rfl
        rw [result] at escalates ⊢
        exact ⟨new, of_decide_eq_true escalates⟩
      · rw [result, countAttempt_open call.now many] at escalates
        cases escalates
  · rintro ⟨new, often⟩
    obtain ⟨entry, opened, many, result, after⟩ := newBlock_opened sound short (tracked call.ip) later new
    rw [countAttempt_block call.now many] at result
    rw [result] at often ⊢
    exact decide_eq_true often

theorem penalty_range {blockCount : Nat} (positive : 1 ≤ blockCount) (small : blockCount ≤ 2 ^ 32 - 1) :
    FitsLongLong (((blockCount - 1 : Nat) : Int) * guardBlockStepNs) ∧
      FitsLongLong (guardBlockBaseNs + ((blockCount - 1 : Nat) : Int) * guardBlockStepNs) := by
  rw [FitsLongLong, FitsLongLong, guardBlockStepNs, guardBlockBaseNs]
  omega

end Runs

/-- In every run with growing times a new block follows eight counted calls of the last seconds. A block holds until
its end and nothing changes meanwhile. The blocks in a row grow by two seconds up to a minute, and from the fifth on
the address is to be banned. -/
theorem guard_law {start : ConnectionGuard} (empty : start.count = 0) {calls : List GuardCall} {call : GuardCall}
    (short : ∀ made ∈ calls ++ [call], made.ip.length < ipLen)
    (ordered : (calls ++ [call]).Pairwise fun call later => call.now.toNs ≤ later.now.toNs) :
      GuardLaw start calls call := by
  obtain ⟨soundAfter, trackedAfter⟩ := tracked_run empty short ordered
  obtain ⟨orderedBefore, -, cross⟩ := pairwise_append.mp ordered
  have shortBefore : ∀ made ∈ calls, made.ip.length < ipLen := fun made member =>
    short made (mem_append_left _ member)
  obtain ⟨sound, tracked⟩ := tracked_run empty shortBefore orderedBefore
  have later : ∀ earlier ∈ calls, earlier.now.toNs ≤ call.now.toNs := fun earlier member =>
    cross earlier member call (mem_singleton_self call)
  have shortCall := short call (by simp)
  have named {ip : Bytes} {entry : GuardEntry} (known : (registerAll start calls).entryOf ip = some entry) :
    ip ≠ [] := by
    rintro rfl
    exact sound.named entry (KeyedList.lookup_some known).1 (KeyedList.lookup_some known).2
  constructor
  case sound => exact newBlock_recent sound shortCall tracked later
  case refuses =>
    intro entry known blocked
    rcases own_call sound (named known) shortCall (tracked call.ip) later with
      ⟨entry', known', -, result, -⟩ | ⟨free, -⟩
    · rw [known, Option.some.injEq] at known'
      subst known'
      rw [result]
      exact ⟨rfl, rfl⟩
    · rw [(refused_iff _ _).mpr ⟨entry, known, blocked⟩] at free
      cases free
  case keeps => exact fun ip entry known blocked => blocked_kept sound shortCall tracked later known blocked
  case lasts =>
    intro new
    obtain ⟨entry, opened, many, result, after⟩ := newBlock_opened sound shortCall (tracked call.ip) later new
    obtain ⟨positive, count⟩ := opened.blocked new
    rw [countAttempt_block call.now many] at result after
    refine ⟨positive, ?_, _, after, by rw [result]⟩
    have bounds := penaltyNs_bounds (countUp (2 ^ 32 - 1) entry.blockCount)
    rw [result]
    rw [Timespec.toNs_addNs _ bounds.1, penaltyNs_eq (by omega)]
    omega
  case counts =>
    intro ip entry known
    rw [(trackedAfter ip entry known).inRow]
    exact min_le_right _ _
  case range => exact fun blockCount positive small => penalty_range positive small
  case escalates => exact escalates_iff sound shortCall tracked later

/-- Seven calls of one second, and the one that is blocked. -/
theorem guard_law_eighth :
    let start : ConnectionGuard := ⟨[], 0, Nat.zero_le _⟩
    let call : GuardCall := ⟨str "10.0.0.1", ⟨1, 0, by decide⟩⟩
    newBlock (registerAll start (replicate 7 call)) call ∧ GuardLaw start (replicate 7 call) call := by
  intro start call
  exact ⟨by decide +kernel, @guard_law start rfl (replicate 7 call) call (by decide) (by decide)⟩

end SshChatter.Transport
