import SshChatter.Bbs.FloodLedger

namespace SshChatter.Bbs
open CString EventRun Recency SlotTable List

section Runs

variable {ledger : FloodLedger} {event : BoardEvent} {rank : Activity UserName FloodKind → Int}

structure Guarded (rank : Activity UserName FloodKind → Int) (ledger : FloodLedger) : Prop where
  sound : LedgerSound ledger
  covered : Covered rank Named maxRateLimits (limitTable ledger.host.rateLimits) ledger.log
  distance : KeepsDistance rank ledger

theorem start_guarded (rank : Activity UserName FloodKind → Int) (host : BbsHost) : Guarded rank (.start host) :=
  ⟨start_sound host, fun _ inside => absurd inside not_mem_nil, List.Pairwise.nil⟩

theorem LedgerSound.leaves (sound : LedgerSound ledger) {activity : Activity UserName FloodKind}
    (accepts : Accepts ledger event activity) (earliest : FrontEarliest rank ledger event) :
    LeavesEarliest rank maxRateLimits (limitTable ledger.host.rateLimits)
      (limitTable (boardStep ledger.host event).rateLimits) ledger.log activity := by
  intro user member absent
  obtain ⟨gone, inside, rfl⟩ := mem_members.mp member
  have leaves : gone.username ∉ (boardStep ledger.host event).rateLimits.map RateLimit.username := by
    intro here
    exact absent (mem_members.mpr (mem_map.mp here))
  obtain ⟨first, meets⟩ := sound.departs inside leaves
  have before := earliest meets gone first
  obtain ⟨seen, same, -, new, full⟩ := meets
  obtain rfl : activity = seen := Option.some_inj.mp (accepts.accepted.symm.trans same)
  refine ⟨full.trans (limitTable_card sound.single).ge, fun here => new (mem_map.mpr (mem_members.mp here)), ?_⟩
  intro other there apart
  obtain ⟨limit, kept, rfl⟩ := mem_members.mp there
  exact before limit kept fun same => apart (congrArg RateLimit.username same)

/-- An event keeps the distances when the earliest user goes. -/
theorem Guarded.step (guarded : Guarded rank ledger) (forward : Forward ledger event)
    (highest : ∀ activity, Accepts ledger event activity → ∀ old ∈ ledger.log, rank old ≤ rank activity)
    (earliest : FrontEarliest rank ledger event) : Guarded rank (ledgerStep ledger event) := by
  have sound := guarded.sound.step forward
  rcases ledgerStep_cases ledger event with ⟨same, log, -⟩ | ⟨activity, accepts⟩
  · refine ⟨sound, ?_, ?_⟩
    · rw [log]
      exact same ▸ guarded.covered
    · rw [KeepsDistance, log]
      exact guarded.distance
  · have high := highest activity accepts
    have late := accepts.time_le forward
    have latest : ∀ old ∈ ledger.log, old.time ≤ activity.time :=
      fun old inside => (guarded.sound.timed old inside).2.trans late
    refine ⟨sound, ?_, ?_⟩
    · rw [accepts.log]
      by_cases name : Named activity.user
      · have recorded := ensured_recorded guarded.sound.single (accepts.ensured guarded.sound name)
        exact guarded.covered.step recorded high latest (guarded.sound.leaves accepts earliest)
      · have kept : Covered rank Named maxRateLimits (limitTable ledger.host.rateLimits) (activity :: ledger.log) :=
          guarded.covered.skip name
        rw [← accepts.unnamed name] at kept
        exact kept
    · rw [KeepsDistance, accepts.log]
      exact guarded.distance.step guarded.covered (fun _ => accepts.patient)
        (fun old inside => (guarded.sound.timed old inside).1) high

/-- The stamp of an entry is the time of the last activity of its user. -/
theorem FrontOldest.earliest (sound : LedgerSound ledger) (oldest : FrontOldest ledger event) :
    FrontEarliest Activity.time ledger event := by
  intro meets gone first other inside _ old here user
  have order := oldest meets gone first other inside
  obtain ⟨new, there, same, stamp⟩ := sound.logged other inside
  have last := sound.latest gone (mem_of_head? first) old here user
  refine ⟨new, there, same, ?_⟩
  omega

theorem Guarded.step_time (guarded : Guarded Activity.time ledger) (forward : Forward ledger event)
    (oldest : FrontOldest ledger event) : Guarded Activity.time (ledgerStep ledger event) :=
  guarded.step forward (fun _ accepts old inside => (guarded.sound.timed old inside).2.trans (accepts.time_le forward))
    (oldest.earliest guarded.sound)

theorem Guarded.step_turn (guarded : Guarded turnRank ledger) (forward : Forward ledger event)
    (earliest : FrontEarliest turnRank ledger event) : Guarded turnRank (ledgerStep ledger event) := by
  refine guarded.step forward (fun activity accepts old inside => ?_) earliest
  have before := guarded.sound.turned old inside
  rw [turnRank, turnRank, accepts.turn]
  omega

/-- In every run each user has one entry at most. The entry that goes has the oldest last activity exactly when the
first slot has it. While this is so, accepted activities keep their distance. -/
theorem floodControl_exact (host : BbsHost) (history : History host) :
    Along ledgerStep OneEach (.start host) history.events ∧
      (Along ledgerStep EvictsOldest (.start host) history.events ↔
        Along ledgerStep FrontOldest (.start host) history.events) ∧
      (Along ledgerStep FrontOldest (.start host) history.events →
        KeepsDistance Activity.time (run ledgerStep (.start host) history.events)) ∧
      (Along ledgerStep (FrontEarliest turnRank) (.start host) history.events →
        KeepsDistance turnRank (run ledgerStep (.start host) history.events)) := by
  refine ⟨?_, ?_, fun oldest => ?_, fun earliest => ?_⟩
  · apply along_along LedgerSound _ _ (start_sound host) history.forward
    · exact fun _ _ sound forward => sound.step forward
    · intro ledger event sound forward
      exact ⟨(sound.step forward).single, (sound.step forward).within⟩
  · exact along_congr LedgerSound (fun _ _ sound forward => sound.step forward)
      (fun _ event sound => evictsOldest_iff sound event) (start_sound host) history.forward
  · have both := history.forward.and oldest
    exact (along_invariant (Guarded Activity.time) (fun _ _ guarded here => guarded.step_time here.1 here.2)
      (start_guarded _ host) both).distance
  · have both := history.forward.and earliest
    exact (along_invariant (Guarded turnRank) (fun _ _ guarded here => guarded.step_turn here.1 here.2)
      (start_guarded _ host) both).distance

abbrev TimedPost : Type := UserName × Int

def member (name : UserName) : Caller := ⟨name, false, false, 0, 0⟩

def memberPost (post : TimedPost) : BoardEvent := .request (member post.1) ⟨post.2, true⟩ (.commit (sampleDraft 'p'))

def TimedPost.activity (post : TimedPost) (turn : Nat) : Activity UserName FloodKind := ⟨post.1, .post, post.2, turn⟩

instance (limits : List RateLimit) (user : UserName) (kind : FloodKind) (now : Int) :
    Decidable (Hasty limits user kind now) :=
  inferInstanceAs (Decidable (_ ∧ _))

instance (user : UserName) : Decidable (Named user) := inferInstanceAs (Decidable (¬ _))

def postsPass : List RateLimit → List TimedPost → Bool
  | _, [] => true
  | limits, post :: rest =>
    ¬ Hasty limits post.1 .post post.2 && postsPass (ensureRateLimit limits post.1 (·.record .post post.2)) rest

def postLog : List (Activity UserName FloodKind) → List TimedPost → List (Activity UserName FloodKind)
  | log, [] => log
  | log, post :: rest => postLog (post.activity log.length :: log) rest

theorem postLog_append (log : List (Activity UserName FloodKind)) (front back : List TimedPost) :
    postLog log (front ++ back) = postLog (postLog log front) back := by
  induction front generalizing log with
  | nil => rfl
  | cons post rest ih => exact ih _

structure RoomFor (count : Nat) (host : BbsHost) : Prop where
  mutes : host.mutes = []
  room : usedCount Post.inUse host.posts + count ≤ maxPosts

/-- The post of a member whom the table lets pass is written. -/
theorem memberPost_served {host : BbsHost} {count : Nat} (room : RoomFor (count + 1) host) (post : TimedPost)
    (calm : ¬ Hasty host.rateLimits post.1 .post post.2) :
    ∃ place notice, firstFree Post.inUse host.posts = some place ∧
      serve host (member post.1) ⟨post.2, true⟩ (.commit (sampleDraft 'p')) =
        (finishPost (host.allocateAt place post.2) place (member post.1) post.2 (sampleDraft 'p'), .done notice) := by
  obtain ⟨place, free⟩ : ∃ place, firstFree Post.inUse host.posts = some place := by
    cases found : firstFree Post.inUse host.posts with
    | some place => exact ⟨place, rfl⟩
    | none =>
      have full := usedCount_full (firstFree_none.mp found)
      have within := room.room
      omega
  have muted : ¬ muteBlocks (host.allocateAt place post.2) (member post.1) post.2 := by
    change ¬ muteActive host post.1 post.2
    rw [muteActive, room.mutes]
    exact Bool.false_ne_true
  have quick : ¬ postsTooQuickly (host.allocateAt place post.2) (member post.1) post.2 := by
    rw [postsTooQuickly_iff]
    exact calm
  refine ⟨place, str "Post created.", free, ?_⟩
  rw [serve]
  change commitNew host _ post.2 _ = _
  rw [commitNew, allocatePost, free]
  simp only [Option.map_some]
  rw [if_neg muted, if_neg fun both => quick both.2]

theorem memberPost_accepted {host : BbsHost} {count : Nat} (room : RoomFor (count + 1) host) (post : TimedPost)
    (turn : Nat) (calm : ¬ Hasty host.rateLimits post.1 .post post.2) :
    admitted host turn (memberPost post) = some (post.activity turn) ∧
      RoomFor count (boardStep host (memberPost post)) ∧
      (boardStep host (memberPost post)).rateLimits = ensureRateLimit host.rateLimits post.1
        (·.record .post post.2) := by
  obtain ⟨place, notice, free, done⟩ := memberPost_served room post calm
  refine ⟨?_, ⟨?_, ?_⟩, ?_⟩
  · rw [memberPost, accepted_done done]
    rfl
  · rw [memberPost, boardStep, done]
    exact room.mutes
  · have same := sameSlots_finishPost (host.allocateAt place post.2) place (member post.1) post.2 (sampleDraft 'p')
    have filled : usedCount Post.inUse (host.allocateAt place post.2).posts = usedCount Post.inUse host.posts + 1 :=
      usedCount_fill (firstFree_some free) rfl
    have kept : usedCount Post.inUse (finishPost (host.allocateAt place post.2) place (member post.1) post.2
        (sampleDraft 'p')).posts = usedCount Post.inUse (host.allocateAt place post.2).posts :=
      Finset.sum_congr rfl fun other _ => congrArg Bool.toNat (same.inUse other)
    have within := room.room
    rw [memberPost, boardStep, done]
    dsimp only
    omega
  · rw [memberPost, boardStep, done]
    exact finishPost_limits _ place _ post.2 _

variable (posts : List TimedPost)

theorem run_posts (ledger : FloodLedger) (room : RoomFor posts.length ledger.host)
    (pass : postsPass ledger.host.rateLimits posts) :
    (run ledgerStep ledger (posts.map memberPost)).log = postLog ledger.log posts := by
  induction posts generalizing ledger with
  | nil => rfl
  | cons post rest ih =>
    obtain ⟨calm, later⟩ := (Bool.and_eq_true _ _).mp pass
    obtain ⟨taken, room', limits⟩ := memberPost_accepted room post ledger.log.length (of_decide_eq_true calm)
    have log : (ledgerStep ledger (memberPost post)).log = post.activity ledger.log.length :: ledger.log := by
      rw [ledgerStep, taken]
      rfl
    rw [← limits] at later
    have step := ih (ledgerStep ledger (memberPost post)) room' later
    rw [log] at step
    exact step

theorem along_posts (ledger : FloodLedger) (sorted : (ledger.clock :: posts.map Prod.snd).IsChain (· ≤ ·)) :
    Along ledgerStep Forward ledger (posts.map memberPost) := by
  induction posts generalizing ledger with
  | nil => trivial
  | cons post rest ih =>
    obtain ⟨first, later⟩ := isChain_cons_cons.mp sorted
    refine ⟨fun time reading => ?_, ih (ledgerStep ledger (memberPost post)) later⟩
    rw [← Option.some_inj.mp reading]
    exact first

def letters (index : Nat) : UserName := .print [UInt8.ofNat (97 + index / 26), UInt8.ofNat (97 + index % 26)]

/-- Each of the users that the table has room for posts, and the first one posts again. Two seconds behind a new user
posts, the first one posts a third time. -/
def floodPosts : List TimedPost :=
  ((range maxRateLimits).map fun index => (letters index, (100 + index : Int))) ++
    [(letters 0, 230), (letters maxRateLimits, 231), (letters 0, 232)]

def floodHistory : History .fresh where
  events := floodPosts.map memberPost
  forward := along_posts floodPosts (.start .fresh) (by decide +kernel)

/-- A user who posted last but one is forgotten, and posts again at once. -/
theorem floodControl_forgets : ¬ KeepsDistance turnRank (run ledgerStep (.start .fresh) floodHistory.events) := by
  have log := run_posts floodPosts (.start .fresh) ⟨rfl, by decide +kernel⟩ (by decide +kernel)
  rw [KeepsDistance, floodHistory, log]
  intro spaced
  have apart := (pairwise_cons.mp spaced).1 _ (mem_cons_of_mem _ mem_cons_self)
  have late := apart (by decide +kernel) rfl rfl (by decide +kernel)
  exact absurd late (by decide)

end Runs

end SshChatter.Bbs
