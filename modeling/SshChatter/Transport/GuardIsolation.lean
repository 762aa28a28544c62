import SshChatter.Transport.ConnectionGuard

namespace SshChatter.Transport
open CString List

/-- One `host_connection_guard_register` call and the time that its clock showed. -/
structure GuardCall where
  ip : Bytes
  now : Timespec

def results : ConnectionGuard → List GuardCall → List GuardResult
  | _, [] => []
  | guard, call :: rest => (register guard call.ip call.now).2 :: results (register guard call.ip call.now).1 rest

def registerAll (guard : ConnectionGuard) (calls : List GuardCall) : ConnectionGuard :=
  calls.foldl (fun guard call => (register guard call.ip call.now).1) guard

def resultsFor (ip : Bytes) (guard : ConnectionGuard) (calls : List GuardCall) : List GuardResult :=
  ((calls.zip (results guard calls)).filter fun pair => pair.1.ip = ip).map Prod.snd

def callsOf (ip : Bytes) (calls : List GuardCall) : List GuardCall := calls.filter fun call => call.ip = ip

/-- The same code on a single entry that is never pruned. -/
def registerUnpruned (entry : Option GuardEntry) (call : GuardCall) : Option GuardEntry × GuardResult :=
  if call.ip = [] then (entry, .zero) else
  let registered := registerEntry call.now (entry.getD (.fresh call.ip))
  (some registered.1, registered.2)

def unprunedResults : Option GuardEntry → List GuardCall → List GuardResult
  | _, [] => []
  | entry, call :: rest => (registerUnpruned entry call).2 :: unprunedResults (registerUnpruned entry call).1 rest

def unprunedEntry (entry : Option GuardEntry) (calls : List GuardCall) : Option GuardEntry :=
  calls.foldl (fun entry call => (registerUnpruned entry call).1) entry

/-- What holds of an entry between two calls. -/
structure Settled (ip : Bytes) (time : Int) (entry : GuardEntry) : Prop where
  named : entry.ip = .print ip
  seen : entry.lastSeen.toNs ≤ time
  seenSet : 0 < entry.lastSeen.toNs
  windowSet : 0 < entry.windowStart.toNs
  windowSeen : entry.windowStart.toNs ≤ entry.lastSeen.toNs
  blockShort : entry.blockedUntil.toNs ≤ entry.lastSeen.toNs + guardBlockMaxNs

section Entries

variable {ip : Bytes} {now : Timespec} {entry : GuardEntry}

theorem ne_zero_of_pos {value : Timespec} (positive : 0 < value.toNs) : value ≠ .zero := by
  rw [Ne, Timespec.eq_zero_iff]
  omega

def Stale (time : Int) (entry : GuardEntry) : Prop := guardRetentionNs < time - entry.lastSeen.toNs

theorem keepEntry_iff (now : Timespec) (present : ip ≠ []) (short : ip.length < ipLen) {time : Int}
    (settled : Settled ip time entry) : keepEntry now entry ↔ ¬ Stale now.toNs entry := by
  have name : entry.ip.text = ip := by
    rw [settled.named]
    exact fresh_name short
  have set := ne_zero_of_pos settled.seenSet
  simp only [keepEntry, name, present, if_false, ne_eq, set, not_false_eq_true, if_true, decide_eq_true_eq,
    Timespec.toNs_diff, Stale]
  rw [guardRetentionNs]
  omega

theorem registerEntry_stale {time : Int} (settled : Settled ip time entry) (stale : Stale now.toNs entry) :
    registerEntry now entry = registerEntry now (.fresh ip) := by
  have seen := settled.windowSeen
  have block := settled.blockShort
  rw [Stale] at stale
  have expired : ¬ 0 < Timespec.compare entry.blockedUntil now := by
    rw [Timespec.compare_pos]
    simp only [guardBlockMaxNs, guardRetentionNs] at block stale
    omega
  have window : guardRetentionNs < (Timespec.diff now entry.windowStart).toNs := by
    rw [Timespec.toNs_diff]
    omega
  have windowShort : guardWindowNs < (Timespec.diff now entry.windowStart).toNs := by
    simp only [guardWindowNs, guardRetentionNs] at window ⊢
    omega
  have set := ne_zero_of_pos settled.windowSet
  simp only [registerEntry, expired, and_false, if_false, refreshWindow, set, windowShort, window, if_true,
    GuardEntry.fresh, GuardEntry.zero, ne_eq, not_true_eq_false, false_and, settled.named]

theorem penaltyNs_bounds (blockCount : Nat) : 0 ≤ penaltyNs blockCount ∧ penaltyNs blockCount ≤ guardBlockMaxNs := by
  simp only [penaltyNs, guardBlockBaseNs, guardBlockStepNs, guardBlockMaxNs]
  omega

theorem refreshWindow_window (entry : GuardEntry) (positive : 0 < now.toNs)
    (before : entry.windowStart.toNs ≤ now.toNs) :
    0 < (refreshWindow now entry).windowStart.toNs ∧ (refreshWindow now entry).windowStart.toNs ≤ now.toNs := by
  have nonNegative := entry.windowStart.toNs_nonneg
  by_cases unset : entry.windowStart = .zero
  · rw [refreshWindow, if_pos unset]
    exact ⟨positive, le_rfl⟩
  · by_cases old : guardWindowNs < (Timespec.diff now entry.windowStart).toNs
    · simp only [refreshWindow, if_neg unset, if_pos old]
      exact ⟨positive, le_rfl⟩
    · simp only [refreshWindow, if_neg unset, if_neg old]
      rw [Timespec.eq_zero_iff] at unset
      omega

theorem refreshWindow_frame (now : Timespec) (entry : GuardEntry) :
    (refreshWindow now entry).ip = entry.ip ∧ (refreshWindow now entry).lastSeen = entry.lastSeen ∧
      (refreshWindow now entry).blockedUntil = entry.blockedUntil := by
  simp only [refreshWindow]
  split_ifs <;> exact ⟨rfl, rfl, rfl⟩

theorem countAttempt_settled (settled : Settled ip now.toNs entry) (seenNow : entry.lastSeen = now) :
    Settled ip now.toNs (countAttempt now entry).1 := by
  have positive := settled.seenSet
  rw [seenNow] at positive
  by_cases many : guardThreshold ≤ countUp (2 ^ 64 - 1) entry.attempts
  · simp only [countAttempt, if_pos many]
    have bounds := penaltyNs_bounds (countUp (2 ^ 32 - 1) entry.blockCount)
    refine ⟨settled.named, settled.seen, settled.seenSet, positive, ?_, ?_⟩
    · exact le_of_eq (congrArg Timespec.toNs seenNow.symm)
    · simp only [Timespec.toNs_addNs now bounds.1, seenNow]
      omega
  · simp only [countAttempt, if_neg many]
    exact ⟨settled.named, settled.seen, settled.seenSet, settled.windowSet, settled.windowSeen, settled.blockShort⟩

theorem registerEntry_settled (positive : 0 < now.toNs)
    (old : entry = .fresh ip ∨ ∃ time ≤ now.toNs, Settled ip time entry) :
    Settled ip now.toNs (registerEntry now entry).1 := by
  have bounds : entry.ip = .print ip ∧ entry.windowStart.toNs ≤ now.toNs ∧
      entry.blockedUntil.toNs ≤ now.toNs + guardBlockMaxNs := by
    rcases old with rfl | ⟨time, earlier, settled⟩
    · have window : (GuardEntry.fresh ip).windowStart.toNs = 0 := Timespec.toNs_zero
      have block : (GuardEntry.fresh ip).blockedUntil.toNs = 0 := Timespec.toNs_zero
      rw [window, guardBlockMaxNs]
      exact ⟨rfl, positive.le, by omega⟩
    · have seen := settled.seen
      have window := settled.windowSeen
      have block := settled.blockShort
      exact ⟨settled.named, by omega, by omega⟩
  by_cases blocked : entry.blockedUntil ≠ .zero ∧ 0 < Timespec.compare entry.blockedUntil now
  · rw [registerEntry, if_pos blocked]
    -- A new entry has no block, so this one was settled before.
    rcases old with rfl | ⟨time, earlier, settled⟩
    · exact absurd rfl blocked.1
    · exact ⟨bounds.1, le_rfl, positive, settled.windowSet, bounds.2.1, bounds.2.2⟩
  · rw [registerEntry, if_neg blocked]
    obtain ⟨name, seen, block⟩ := refreshWindow_frame now { entry with lastSeen := now, blockedUntil := .zero }
    obtain ⟨windowSet, windowSeen⟩ :=
      refreshWindow_window { entry with lastSeen := now, blockedUntil := .zero } positive bounds.2.1
    apply countAttempt_settled
    · refine ⟨name.trans bounds.1, ?_, ?_, windowSet, ?_, ?_⟩
      · rw [seen]
      · rw [seen]
        exact positive
      · rw [seen]
        exact windowSeen
      · simp only [seen, block, Timespec.toNs_zero, guardBlockMaxNs]
        omega
    · exact seen

end Entries

/-- The table and the entry that is never pruned agree unless that entry is stale. -/
structure Linked (ip : Bytes) (time : Int) (guard : ConnectionGuard) (entry : Option GuardEntry) : Prop where
  sound : Sound guard
  settled : ∀ old, entry = some old → Settled ip time old
  agree : KeyedList.lookup GuardEntry.name guard.entries ip = entry ∨
    (KeyedList.lookup GuardEntry.name guard.entries ip = none ∧ ∃ old, entry = some old ∧ Stale time old)

section Runs

variable {ip : Bytes} {time : Int} {guard : ConnectionGuard} {entry : Option GuardEntry} {now : Timespec}

theorem Stale.later {old : GuardEntry} (stale : Stale time old) (later : time ≤ now.toNs) : Stale now.toNs old := by
  rw [Stale] at stale ⊢
  omega

/-- After the pruning the table still agrees unless the entry is stale now. -/
theorem Linked.pruned (linked : Linked ip time guard entry) (now : Timespec) (present : ip ≠ [])
    (short : ip.length < ipLen) (later : time ≤ now.toNs) :
    (KeyedList.lookup GuardEntry.name guard.entries ip).filter (keepEntry now) = entry ∨
      ((KeyedList.lookup GuardEntry.name guard.entries ip).filter (keepEntry now) = none ∧
        ∃ old, entry = some old ∧ Stale now.toNs old) := by
  obtain same | ⟨absent, old, known, stale⟩ := linked.agree
  · rw [same]
    cases known : entry with
    | none => exact .inl rfl
    | some old =>
      have kept := keepEntry_iff now present short (linked.settled old known)
      by_cases stale : Stale now.toNs old
      · refine .inr ⟨?_, old, rfl, stale⟩
        rw [Option.filter_some, if_neg (fun keep => kept.mp keep stale)]
      · refine .inl ?_
        rw [Option.filter_some, if_pos (kept.mpr stale)]
  · rw [absent]
    exact .inr ⟨rfl, old, known, stale.later later⟩

/-- A call of another address only prunes. -/
theorem Linked.other (linked : Linked ip time guard entry) (present : ip ≠ []) (short : ip.length < ipLen)
    {call : GuardCall} (callShort : call.ip.length < ipLen) (different : call.ip ≠ ip) (later : time ≤ call.now.toNs) :
    Linked ip call.now.toNs (register guard call.ip call.now).1 entry := by
  have settled : ∀ old, entry = some old → Settled ip call.now.toNs old := fun old known =>
    { linked.settled old known with seen := (linked.settled old known).seen.trans later }
  by_cases callPresent : call.ip = []
  · rw [register, if_pos callPresent]
    refine ⟨linked.sound, settled, ?_⟩
    obtain same | ⟨absent, old, known, stale⟩ := linked.agree
    · exact .inl same
    · exact .inr ⟨absent, old, known, stale.later later⟩
  · obtain ⟨_, lookups, sound⟩ := register_spec linked.sound callPresent callShort call.now
    refine ⟨sound, settled, ?_⟩
    rw [lookups ip, if_neg (Ne.symm different)]
    exact linked.pruned call.now present short later

/-- A call of the address gives the same result on the table and on the entry that is never pruned. -/
theorem Linked.same (linked : Linked ip time guard entry) (present : ip ≠ []) (short : ip.length < ipLen)
    (later : time ≤ now.toNs) (positive : 0 < now.toNs) :
    (register guard ip now).2 = (registerUnpruned entry ⟨ip, now⟩).2 ∧
      Linked ip now.toNs (register guard ip now).1 (registerUnpruned entry ⟨ip, now⟩).1 := by
  obtain ⟨result, lookups, sound⟩ := register_spec linked.sound present short now
  have old : ∀ old, entry = some old → ∃ time ≤ now.toNs, Settled ip time old := fun old known =>
    ⟨time, later, linked.settled old known⟩
  -- The entry that the call works on gives what the unpruned one gives.
  have alike : registerEntry now
      (((KeyedList.lookup GuardEntry.name guard.entries ip).filter (keepEntry now)).getD (.fresh ip)) =
      registerEntry now (entry.getD (.fresh ip)) := by
    obtain same | ⟨absent, old, known, stale⟩ := linked.pruned now present short later
    · rw [same]
    · rw [absent, known]
      exact (registerEntry_stale (linked.settled old known) stale).symm
  rw [alike] at result lookups
  have unpruned : registerUnpruned entry ⟨ip, now⟩ =
      (some (registerEntry now (entry.getD (.fresh ip))).1, (registerEntry now (entry.getD (.fresh ip))).2) := by
    rw [registerUnpruned, if_neg present]
  rw [unpruned]
  refine ⟨result, sound, ?_, .inl ?_⟩
  · rintro _ ⟨rfl⟩
    apply registerEntry_settled positive
    cases known : entry with
    | none => exact .inl rfl
    | some before => exact .inr (old before known)
  · rw [lookups ip, if_pos rfl]

theorem resultsFor_cons (ip : Bytes) (guard : ConnectionGuard) (call : GuardCall) (rest : List GuardCall) :
    resultsFor ip guard (call :: rest) =
      if call.ip = ip then
        (register guard call.ip call.now).2 :: resultsFor ip (register guard call.ip call.now).1 rest
      else resultsFor ip (register guard call.ip call.now).1 rest := by
  by_cases same : call.ip = ip <;> simp [resultsFor, results, same]

theorem callsOf_cons (ip : Bytes) (call : GuardCall) (rest : List GuardCall) :
    callsOf ip (call :: rest) = if call.ip = ip then call :: callsOf ip rest else callsOf ip rest := by
  by_cases same : call.ip = ip <;> simp [callsOf, same]

variable {calls : List GuardCall}

/-- The table follows the entry that is never pruned through a whole run. -/
theorem Linked.run (linked : Linked ip time guard entry) (present : ip ≠ []) (ipShort : ip.length < ipLen)
    (short : ∀ call ∈ calls, call.ip.length < ipLen) (nonZero : ∀ call ∈ calls, call.now ≠ .zero)
    (ordered : calls.Pairwise fun call later => call.now.toNs ≤ later.now.toNs)
    (later : ∀ call ∈ calls, time ≤ call.now.toNs) :
    resultsFor ip guard calls = unprunedResults entry (callsOf ip calls) ∧
      Linked ip ((calls.getLast?.map fun call => call.now.toNs).getD time) (registerAll guard calls)
        (unprunedEntry entry (callsOf ip calls)) := by
  induction calls generalizing guard entry time with
  | nil => exact ⟨rfl, linked⟩
  | cons call rest ih =>
    have first := mem_cons_self (a := call) (l := rest)
    have positive : 0 < call.now.toNs := by
      have set := nonZero call first
      have nonNegative := call.now.toNs_nonneg
      rw [Ne, Timespec.eq_zero_iff] at set
      omega
    rw [pairwise_cons] at ordered
    have last : ((call :: rest).getLast?.map fun call => call.now.toNs).getD time =
        (rest.getLast?.map fun call => call.now.toNs).getD call.now.toNs := by
      rw [getLast?_cons]
      cases rest.getLast? <;> rfl
    have tail := fun {guard entry} (linked : Linked ip call.now.toNs guard entry) => ih linked
      (fun call member => short call (mem_cons_of_mem _ member))
      (fun call member => nonZero call (mem_cons_of_mem _ member)) ordered.2 ordered.1
    rw [last, resultsFor_cons, callsOf_cons]
    by_cases same : call.ip = ip
    · subst same
      obtain ⟨result, next⟩ := linked.same present ipShort (later call first) positive
      obtain ⟨results, final⟩ := tail next
      rw [if_pos rfl, if_pos rfl]
      exact ⟨congrArg₂ _ result results, final⟩
    · rw [if_neg same, if_neg same]
      exact tail (linked.other present ipShort (short call first) same (later call first))

/-- No address gets a second entry. -/
theorem registerAll_sound (sound : Sound guard) (short : ∀ call ∈ calls, call.ip.length < ipLen) :
    Sound (registerAll guard calls) := by
  induction calls generalizing guard with
  | nil => exact sound
  | cons call rest ih =>
    apply ih
    · by_cases present : call.ip = []
      · simp only [register, if_pos present]
        exact sound
      · exact (register_spec sound present (short call mem_cons_self) call.now).2.2
    · exact fun call member => short call (mem_cons_of_mem _ member)

theorem resultsFor_nil (guard : ConnectionGuard) (entry : Option GuardEntry) (calls : List GuardCall) :
    resultsFor [] guard calls = unprunedResults entry (callsOf [] calls) := by
  induction calls generalizing guard with
  | nil => rfl
  | cons call rest ih =>
    rw [resultsFor_cons, callsOf_cons]
    by_cases same : call.ip = []
    · rw [if_pos same, if_pos same, unprunedResults, registerUnpruned, if_pos same, register, if_pos same, ih]
    · rw [if_neg same, if_neg same, ih]

theorem resultsFor_eq_nil (guard : ConnectionGuard) (none : callsOf ip calls = []) :
    resultsFor ip guard calls = [] := by
  induction calls generalizing guard with
  | nil => rfl
  | cons call rest ih =>
    rw [callsOf_cons] at none
    split_ifs at none with same
    rw [resultsFor_cons, if_neg same]
    exact ih _ none

/-- An entry belongs to an address that made a call. -/
theorem unprunedEntry_some {known : GuardEntry} (found : unprunedEntry none (callsOf ip calls) = some known) :
    ip ≠ [] ∧ ∃ call ∈ calls, call.ip = ip := by
  constructor
  · rintro rfl
    have stays : unprunedEntry none (callsOf [] calls) = none := by
      induction calls with
      | nil => rfl
      | cons call rest ih =>
        rw [callsOf_cons] at found ⊢
        split_ifs at found ⊢ with same
        · rw [unprunedEntry, foldl_cons, registerUnpruned, if_pos same] at found ⊢
          exact ih found
        · exact ih found
    rw [stays] at found
    cases found
  · by_contra never
    have none : callsOf ip calls = [] := filter_eq_nil_iff.mpr fun call member own =>
      never ⟨call, member, of_decide_eq_true own⟩
    rw [none] at found
    cases found

theorem resultsFor_callsOf (ip : Bytes) (guard : ConnectionGuard) (calls : List GuardCall) :
    resultsFor ip guard (callsOf ip calls) = results guard (callsOf ip calls) := by
  have own : ∀ call ∈ callsOf ip calls, call.ip = ip := fun call member =>
    of_decide_eq_true (mem_filter.mp member).2
  generalize callsOf ip calls = calls at own
  induction calls generalizing guard with
  | nil => rfl
  | cons call rest ih =>
    rw [resultsFor_cons, if_pos (own call mem_cons_self), results,
      ih _ fun call member => own call (mem_cons_of_mem _ member)]

end Runs

theorem linked_empty (ip : Bytes) {start : ConnectionGuard} (empty : start.count = 0) : Linked ip 0 start none := by
  have entries : start.entries = [] := by
    rw [ConnectionGuard.entries, empty, take_zero]
  refine ⟨⟨?_, ?_⟩, ?_, .inl ?_⟩
  · rw [entries]
    exact nodup_nil
  · rw [entries]
    exact forall_mem_nil _
  · intro old known
    cases known
  · rw [entries]
    rfl

/-- Each address gets the results of its own calls, no unexpired block is dropped, and no address has two entries. -/
theorem register_isolated {start : ConnectionGuard} (empty : start.count = 0) {calls : List GuardCall}
    (short : ∀ call ∈ calls, call.ip.length < ipLen) (nonZero : ∀ call ∈ calls, call.now ≠ .zero)
    (ordered : calls.Pairwise fun call later => call.now.toNs ≤ later.now.toNs) :
    (∀ ip, resultsFor ip start calls = results start (callsOf ip calls)) ∧
    (∀ ip, resultsFor ip start calls = unprunedResults none (callsOf ip calls)) ∧
    (∀ ip entry last, unprunedEntry none (callsOf ip calls) = some entry → calls.getLast? = some last →
      last.now.toNs < entry.blockedUntil.toNs → entry ∈ (registerAll start calls).entries) ∧
    ((registerAll start calls).entries.map GuardEntry.name).Nodup := by
  have unpruned : ∀ {calls : List GuardCall}, (∀ call ∈ calls, call.ip.length < ipLen) →
      (∀ call ∈ calls, call.now ≠ .zero) → calls.Pairwise (fun call later => call.now.toNs ≤ later.now.toNs) →
      ∀ ip, resultsFor ip start calls = unprunedResults none (callsOf ip calls) := by
    intro calls short nonZero ordered ip
    by_cases present : ip = []
    · rw [present]
      exact resultsFor_nil start none calls
    · by_cases ipShort : ip.length < ipLen
      · exact ((linked_empty ip empty).run present ipShort short nonZero ordered
          fun call _ => call.now.toNs_nonneg).1
      · -- No call has such a long address.
        have none : callsOf ip calls = [] := filter_eq_nil_iff.mpr fun call member => by
          have own := short call member
          rw [decide_eq_true_eq]
          rintro rfl
          exact ipShort own
        rw [none, resultsFor_eq_nil start none]
        rfl
  refine ⟨fun ip => ?_, unpruned short nonZero ordered, ?_, ?_⟩
  · have own : (callsOf ip calls).Sublist calls := filter_sublist
    have alone := unpruned (fun call member => short call (own.subset member))
      (fun call member => nonZero call (own.subset member)) (ordered.sublist own) ip
    have again : callsOf ip (callsOf ip calls) = callsOf ip calls := by
      rw [callsOf, callsOf]
      simp
    rw [unpruned short nonZero ordered ip, ← resultsFor_callsOf, alone, again]
  · intro ip entry last known final blocked
    obtain ⟨present, call, member, rfl⟩ := unprunedEntry_some known
    obtain ⟨_, linked⟩ := (linked_empty call.ip empty).run present (short call member) short nonZero ordered
      fun call _ => call.now.toNs_nonneg
    rw [final, known, Option.map_some, Option.getD_some] at linked
    obtain same | ⟨_, old, equal, stale⟩ := linked.agree
    · exact (KeyedList.lookup_some same).1
    · cases equal
      -- A block is shorter than the retention time.
      have block := (linked.settled _ rfl).blockShort
      simp only [Stale, guardRetentionNs, guardBlockMaxNs] at stale block
      omega
  · exact (registerAll_sound (linked_empty [] empty).sound short).distinct

/-- An address that comes back after the retention time is counted as before, whoever called in between. -/
theorem register_isolated_two_addresses :
    let start : ConnectionGuard := ⟨[], 0, Nat.zero_le _⟩
    let clock := fun sec => Timespec.mk sec 0 (by decide)
    let calls : List GuardCall := [⟨str "10.0.0.1", clock 1⟩, ⟨str "10.0.0.1", clock 2⟩, ⟨str "10.0.0.2", clock 303⟩,
      ⟨str "10.0.0.1", clock 304⟩]
    (results start (callsOf (str "10.0.0.1") calls)).map GuardResult.attemptCount = [1, 2, 1] ∧
      resultsFor (str "10.0.0.1") start calls = results start (callsOf (str "10.0.0.1") calls) := by
  intro start clock calls
  have isolated := @register_isolated start rfl calls (by decide) (by decide) (by decide)
  exact ⟨by decide +kernel, isolated.1 (str "10.0.0.1")⟩

end SshChatter.Transport
