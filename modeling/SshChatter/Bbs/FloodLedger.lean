import SshChatter.Bbs.Ownership
import SshChatter.Lib.Recency

namespace SshChatter.Bbs
open CString Recency EventRun SlotTable List

section Entries

/-- The two kinds of activity that are limited. -/
inductive FloodKind where
  | post
  | comment
  deriving DecidableEq

/-- The seconds that a user waits between two activities of a kind. -/
def FloodKind.gap : FloodKind → Int
  | .post => 30
  | .comment => 3

def RateLimit.last (limit : RateLimit) : FloodKind → Int
  | .post => limit.lastPostAt
  | .comment => limit.lastCommentAt

/-- An entry with the time of a new activity. -/
def RateLimit.record (kind : FloodKind) (time : Int) (limit : RateLimit) : RateLimit :=
  match kind with
  | .post => { limit with lastPostAt := time }
  | .comment => { limit with lastCommentAt := time }

/-- An entry right after it is added. -/
def RateLimit.blank (username : UserName) : RateLimit := ⟨username, 0, 0⟩

/-- What the entries remember. -/
def limitTable (limits : List RateLimit) : Table UserName FloodKind where
  members := (limits.map RateLimit.username).toFinset
  last user kind := ((limits.find? fun limit => limit.username == user).map fun limit => limit.last kind).getD 0

variable {limit : RateLimit} {kind other : FloodKind} {time : Int}

@[simp] theorem record_username : (limit.record kind time).username = limit.username := by cases kind <;> rfl

@[simp] theorem record_last : (limit.record kind time).last kind = time := by cases kind <;> rfl

theorem record_last_of_ne (different : other ≠ kind) : (limit.record kind time).last other = limit.last other := by
  cases kind <;> cases other <;> first | rfl | exact absurd rfl different

theorem stamp_eq_max (limit : RateLimit) : limit.stamp = max limit.lastPostAt limit.lastCommentAt := by
  rw [RateLimit.stamp]
  split_ifs with newer <;> omega

theorem record_stamp (newest : limit.stamp ≤ time) : (limit.record kind time).stamp = time := by
  rw [stamp_eq_max] at newest ⊢
  cases kind with
  | post =>
    change max time limit.lastCommentAt = time
    omega
  | comment =>
    change max limit.lastPostAt time = time
    omega

end Entries

section Eviction

variable {limits : List RateLimit} {username : UserName} {change : RateLimit → RateLimit}

/-- A stamp is never below the sentinel, so the search stays at the first slot. -/
theorem oldestRateLimit_eq_zero (stamped : ∀ limit ∈ limits, 0 ≤ limit.stamp) : oldestRateLimit limits = 0 := by
  have still : ∀ entries : List (RateLimit × Nat), (∀ entry ∈ entries, 0 ≤ entry.1.stamp) →
      entries.foldl (fun best entry => if entry.1.stamp < best.1 then (entry.1.stamp, entry.2) else best)
        ((-1 : Int), 0) = (-1, 0) := by
    intro entries
    induction entries with
    | nil => exact fun _ => rfl
    | cons entry rest ih =>
      intro all
      have here := all entry mem_cons_self
      rw [foldl_cons, if_neg (by omega)]
      exact ih fun other inside => all other (mem_cons_of_mem _ inside)
  rw [oldestRateLimit, still _ fun entry inside => stamped entry.1 (fst_mem_of_mem_zipIdx inside)]

/-- What becomes of the table: an entry changes, a new one is added, or a new one takes the first slot. -/
inductive Ensured (limits : List RateLimit) (username : UserName) (change : RateLimit → RateLimit) :
    List RateLimit → Prop where
  | changed (before after : List RateLimit) (entry : RateLimit) (split : limits = before ++ entry :: after)
      (own : entry.username = username) : Ensured limits username change (before ++ change entry :: after)
  | added (new : username ∉ limits.map RateLimit.username) (room : limits.length < maxRateLimits) :
      Ensured limits username change (limits ++ [change (.blank username)])
  | evicted (front : RateLimit) (rest : List RateLimit) (split : limits = front :: rest)
      (new : username ∉ limits.map RateLimit.username) (full : maxRateLimits ≤ limits.length) :
      Ensured limits username change (change (.blank username) :: rest)

theorem ensureRateLimit_cases (name : username.text ≠ []) (stamped : ∀ limit ∈ limits, 0 ≤ limit.stamp) :
    Ensured limits username change (ensureRateLimit limits username change) := by
  rw [ensureRateLimit, if_neg name]
  split
  next slot found =>
    obtain ⟨inside, own, -⟩ := findIdx?_eq_some_iff_getElem.mp found
    have split : limits = limits.take slot ++ limits[slot] :: limits.drop (slot + 1) := by
      rw [getElem_cons_drop, take_append_drop]
    have modified : limits.modify slot change = limits.take slot ++ change limits[slot] :: limits.drop (slot + 1) := by
      rw [modify_eq_take_cons_drop inside]
    rw [modified]
    exact .changed _ _ _ split (beq_iff_eq.mp own)
  next absent =>
    have new : username ∉ limits.map RateLimit.username := by
      intro inside
      obtain ⟨limit, here, same⟩ := mem_map.mp inside
      have other := findIdx?_eq_none_iff.mp absent limit here
      rw [same, beq_self_eq_true] at other
      cases other
    split_ifs with room
    · exact .added new room
    · have full : maxRateLimits ≤ limits.length := not_lt.mp room
      rw [oldestRateLimit_eq_zero stamped]
      cases limits with
      | nil => exact absurd full (by decide)
      | cons front rest => exact .evicted front rest rfl new full

variable {next : List RateLimit}

theorem mem_members {user : UserName} : user ∈ (limitTable limits).members ↔
    ∃ limit ∈ limits, limit.username = user := by
  simp only [limitTable, mem_toFinset, mem_map]

variable {limit : RateLimit}

theorem limitTable_last (single : (limits.map RateLimit.username).Nodup) (inside : limit ∈ limits) :
    (limitTable limits).last limit.username = limit.last := by
  have found : (limits.find? fun other => other.username == limit.username) = some limit := by
    induction limits with
    | nil => cases inside
    | cons first rest ih =>
      obtain ⟨absent, single⟩ := nodup_cons.mp single
      rcases mem_cons.mp inside with rfl | later
      · exact find?_cons_of_pos (beq_self_eq_true _)
      · have other : first.username ≠ limit.username := by
          intro same
          exact absent (mem_map.mpr ⟨limit, later, same.symm⟩)
        rw [find?_cons_of_neg (by simpa using other)]
        exact ih single later
  funext kind
  simp only [limitTable, found, Option.map_some, Option.getD_some]

theorem limitTable_card (single : (limits.map RateLimit.username).Nodup) :
    (limitTable limits).members.card = limits.length := by
  rw [limitTable, toFinset_card_of_nodup single, length_map]

/-- The entries of other users are old ones. -/
theorem Ensured.stays (ensured : Ensured limits username change next)
    (keeps : ∀ limit, (change limit).username = limit.username) (inside : limit ∈ next)
    (other : limit.username ≠ username) : limit ∈ limits := by
  cases ensured with
  | changed before after entry split own =>
    subst split
    rcases mem_append.mp inside with front | back
    · exact mem_append_left _ front
    · rcases mem_cons.mp back with rfl | behind
      · exact absurd ((keeps entry).trans own) other
      · exact mem_append_right _ (mem_cons_of_mem _ behind)
  | added =>
    rcases mem_append.mp inside with old | fresh
    · exact old
    · rw [mem_singleton.mp fresh] at other
      exact absurd (keeps _) other
  | evicted front rest split =>
    subst split
    rcases mem_cons.mp inside with rfl | old
    · exact absurd (keeps _) other
    · exact mem_cons_of_mem _ old

theorem Ensured.own (ensured : Ensured limits username change next) : ∃ entry, change entry ∈ next ∧ entry.username =
    username ∧ (entry ∈ limits ∨ username ∉ limits.map RateLimit.username ∧ entry = .blank username) := by
  cases ensured with
  | changed before after entry split own =>
    subst split
    exact ⟨entry, mem_append_right _ mem_cons_self, own, Or.inl (mem_append_right _ mem_cons_self)⟩
  | added new => exact ⟨_, mem_append_right _ mem_cons_self, rfl, Or.inr ⟨new, rfl⟩⟩
  | evicted front rest split new => exact ⟨_, mem_cons_self, rfl, Or.inr ⟨new, rfl⟩⟩

theorem Ensured.single (ensured : Ensured limits username change next)
    (keeps : ∀ limit, (change limit).username = limit.username) (single : (limits.map RateLimit.username).Nodup) :
    (next.map RateLimit.username).Nodup := by
  cases ensured with
  | changed before after entry split =>
    subst split
    simpa [keeps] using single
  | added new =>
    rw [map_append, map_singleton, keeps, nodup_append]
    refine ⟨single, nodup_singleton _, fun user inside other same => ?_⟩
    rw [mem_singleton.mp same]
    rintro rfl
    exact new inside
  | evicted front rest split new =>
    subst split
    rw [map_cons, keeps, nodup_cons]
    exact ⟨fun inside => new (mem_cons_of_mem _ inside), (nodup_cons.mp single).2⟩

theorem Ensured.length (ensured : Ensured limits username change next) (within : limits.length ≤ maxRateLimits) :
    next.length ≤ maxRateLimits := by
  cases ensured with
  | changed before after entry split =>
    subst split
    simpa using within
  | added new room => simpa using room
  | evicted front rest split =>
    subst split
    exact within

/-- Only the first user of a full table goes, and only for a new user. -/
theorem Ensured.gone (ensured : Ensured limits username change next)
    (keeps : ∀ limit, (change limit).username = limit.username) (inside : limit ∈ limits)
    (leaves : limit.username ∉ next.map RateLimit.username) :
    limits.head? = some limit ∧ username ∉ limits.map RateLimit.username ∧ maxRateLimits ≤ limits.length := by
  cases ensured with
  | changed before after entry split =>
    subst split
    have same : (before ++ change entry :: after).map RateLimit.username = (before ++ entry :: after).map
      RateLimit.username := by
      simp [keeps]
    rw [same] at leaves
    exact absurd (mem_map_of_mem inside) leaves
  | added =>
    rw [map_append] at leaves
    exact absurd (mem_append_left _ (mem_map_of_mem inside)) leaves
  | evicted front rest split new full =>
    subst split
    rcases mem_cons.mp inside with rfl | behind
    · exact ⟨rfl, new, full⟩
    · exact absurd (mem_cons_of_mem _ (mem_map_of_mem behind)) leaves

theorem Ensured.front_gone (ensured : Ensured limits username change next) {front : RateLimit}
    (first : limits.head? = some front)
    (keeps : ∀ limit, (change limit).username = limit.username) (single : (limits.map RateLimit.username).Nodup)
    (new : username ∉ limits.map RateLimit.username) (full : maxRateLimits ≤ limits.length) :
    front.username ∉ next.map RateLimit.username := by
  cases ensured with
  | changed before after entry split own =>
    subst split
    exact absurd (mem_map.mpr ⟨entry, mem_append_right _ mem_cons_self, own⟩) new
  | added _ room => exact absurd full (not_le.mpr room)
  | evicted head rest split _ _ =>
    subst split
    obtain rfl : head = front := Option.some_inj.mp first
    rw [map_cons, keeps, mem_cons, not_or]
    refine ⟨fun same => new ?_, (nodup_cons.mp single).1⟩
    rw [map_cons, same]
    exact mem_cons_self

end Eviction

section Recording

variable {limits next : List RateLimit} {activity : Activity UserName FloodKind}

theorem ensured_recorded (single : (limits.map RateLimit.username).Nodup)
    (ensured : Ensured limits activity.user (·.record activity.kind activity.time) next) :
    Recorded (limitTable limits) (limitTable next) activity := by
  have keeps (limit : RateLimit) : (limit.record activity.kind activity.time).username = limit.username :=
    record_username
  have single' := ensured.single keeps single
  obtain ⟨entry, inside, own, origin⟩ := ensured.own
  have name : (entry.record activity.kind activity.time).username = activity.user := record_username.trans own
  have last := limitTable_last single' inside
  rw [name] at last
  refine ⟨mem_members.mpr ⟨_, inside, name⟩, ?_, fun member kind other => ?_, fun user _ member other => ?_⟩
  · rw [last, record_last]
  · rw [last, record_last_of_ne other]
    rcases origin with old | ⟨new, -⟩
    · rw [← limitTable_last single old, own]
    · obtain ⟨limit, here, same⟩ := mem_members.mp member
      exact absurd (mem_map.mpr ⟨limit, here, same⟩) new
  · obtain ⟨limit, here, rfl⟩ := mem_members.mp member
    rw [limitTable_last single' here, limitTable_last single (ensured.stays keeps here other)]

end Recording

def Request.floodKind : Request → Option FloodKind
  | .commit draft => if draft.editing = none then some .post else none
  | .comment _ => some .comment
  | _ => none

/-- A new post or a comment of a caller without privilege that is accepted. -/
def admitted (host : BbsHost) (turn : Nat) : BoardEvent → Option (Activity UserName FloodKind)
  | .request caller moment request =>
    if caller.privileged = false ∧ (serve host caller moment request).2.isDone then
      request.floodKind.map fun kind => ⟨caller.name, kind, moment.now, turn⟩
    else none
  | _ => none

def BoardEvent.reading : BoardEvent → Option Int
  | .request _ moment _ => some moment.now
  | _ => none

/-- A host with all activities that it accepted, the newest first, and the last reading of the clock. -/
structure FloodLedger where
  host : BbsHost
  log : List (Activity UserName FloodKind)
  clock : Int

def FloodLedger.start (host : BbsHost) : FloodLedger := ⟨{ host with rateLimits := [] }, [], 1⟩

def ledgerStep (ledger : FloodLedger) (event : BoardEvent) : FloodLedger where
  host := boardStep ledger.host event
  log := (admitted ledger.host ledger.log.length event).toList ++ ledger.log
  clock := event.reading.getD ledger.clock

/-- The clock is positive and does not go back. -/
def Forward (ledger : FloodLedger) (event : BoardEvent) : Prop := ∀ time, event.reading = some time →
    ledger.clock ≤ time

/-- What happens to a host while the clock goes forward. -/
structure History (host : BbsHost) where
  events : List BoardEvent
  forward : Along ledgerStep Forward (.start host) events

/-- The name is not empty. No limit is kept for a caller without a name. -/
def Named (user : UserName) : Prop := user.text ≠ []

/-- After an event every user has one entry at most, and the table is within its size. -/
def OneEach (ledger : FloodLedger) (event : BoardEvent) : Prop :=
  ((boardStep ledger.host event).rateLimits.map RateLimit.username).Nodup ∧
    (boardStep ledger.host event).rateLimits.length ≤ maxRateLimits

def EvictsOldest (ledger : FloodLedger) (event : BoardEvent) : Prop :=
  ∀ gone ∈ ledger.host.rateLimits, gone.username ∉ (boardStep ledger.host event).rateLimits.map RateLimit.username →
    ∀ other ∈ ledger.host.rateLimits, gone.stamp ≤ other.stamp

def MeetsFull (ledger : FloodLedger) (event : BoardEvent) : Prop :=
  ∃ activity, admitted ledger.host ledger.log.length event = some activity ∧ Named activity.user ∧
    activity.user ∉ ledger.host.rateLimits.map RateLimit.username ∧ maxRateLimits ≤ ledger.host.rateLimits.length

/-- Whenever an entry has to go, the time in the first slot is the oldest one. -/
def FrontOldest (ledger : FloodLedger) (event : BoardEvent) : Prop :=
  MeetsFull ledger event → ∀ front, ledger.host.rateLimits.head? = some front →
    ∀ other ∈ ledger.host.rateLimits, front.stamp ≤ other.stamp

def turnRank (activity : Activity UserName FloodKind) : Int := activity.turn

/-- Whenever an entry has to go, every other user was active after the user of the first slot. -/
def FrontEarliest (rank : Activity UserName FloodKind → Int) (ledger : FloodLedger) (event : BoardEvent) : Prop :=
  MeetsFull ledger event → ∀ front, ledger.host.rateLimits.head? = some front →
    ∀ other ∈ ledger.host.rateLimits, other ≠ front → ∀ old ∈ ledger.log, old.user = front.username →
      ∃ new ∈ ledger.log, new.user = other.username ∧ rank old ≤ rank new

def KeepsDistance (rank : Activity UserName FloodKind → Int) (ledger : FloodLedger) : Prop :=
  Spaced rank Named maxRateLimits FloodKind.gap ledger.log

section Commands

variable {host : BbsHost} {caller : Caller} {moment : Moment}

theorem resetPosts_limits (places : List (Fin maxPosts)) (host : BbsHost) :
    (places.foldl resetPost host).rateLimits = host.rateLimits := by
  induction places generalizing host with
  | nil => rfl
  | cons first rest ih => exact ih (resetPost host first)

theorem clearPost_limits (host : BbsHost) (gone : Fin maxPosts) :
    (clearPost host gone).rateLimits = host.rateLimits := by
  simp only [clearPost, resetTail, resetPosts_limits, compactPosts, resetPost, BbsHost.setPost, BbsHost.setComments]

theorem limitCaller_limits (host : BbsHost) (caller : Caller) (change : RateLimit → RateLimit) :
    (limitCaller host caller change).rateLimits =
      if caller.privileged then host.rateLimits else ensureRateLimit host.rateLimits caller.name change := by
  rw [limitCaller]
  split <;> rfl

theorem finishPost_limits (host : BbsHost) (place : Fin maxPosts) (caller : Caller) (now : Int) (draft : Draft) :
    (finishPost host place caller now draft).rateLimits = if caller.privileged then host.rateLimits else
      ensureRateLimit host.rateLimits caller.name (·.record .post now) :=
  limitCaller_limits _ _ _

theorem finishComment_limits (host : BbsHost) (place : Fin maxPosts) (caller : Caller) (now : Int) (text : Bytes) :
    (finishComment host place caller now text).rateLimits = if caller.privileged then host.rateLimits else
      ensureRateLimit host.rateLimits caller.name (·.record .comment now) := by
  have limited := limitCaller_limits
    ((host.setComments place (changeAt (host.posts place).commentCount (·.written caller text now))).setPost place
      fun post =>
      { post with commentCount := (host.posts place).commentCount + 1, bumpedAt := now }) caller
    fun limit => { limit with lastCommentAt := now }
  simp only [finishComment, notifyMentions]
  split <;> exact limited

theorem commitNew_cases (host : BbsHost) (caller : Caller) (now : Int) (draft : Draft) :
    (∃ next answer, commitNew host caller now draft = (next, .refused answer) ∧ next.rateLimits = host.rateLimits) ∨
      ∃ place notice, firstFree Post.inUse host.posts = some place ∧ ¬ Held host caller now ∧
        commitNew host caller now draft = (finishPost (host.allocateAt place now) place caller now draft,
          .done notice) := by
  rw [commitNew, allocatePost]
  cases free : firstFree Post.inUse host.posts with
  | none => exact Or.inl ⟨_, _, rfl, rfl⟩
  | some place =>
    simp only [Option.map_some]
    split_ifs with silenced hasty
    · exact Or.inl ⟨_, _, rfl, rfl⟩
    · exact Or.inl ⟨_, _, rfl, rfl⟩
    · exact Or.inr ⟨place, _, rfl, not_or.mpr ⟨silenced, hasty⟩, rfl⟩

/-- The table makes a user wait who is active again before the gap is over. -/
def Hasty (limits : List RateLimit) (user : UserName) (kind : FloodKind) (now : Int) : Prop :=
  (limitTable limits).last user kind ≠ 0 ∧ now - (limitTable limits).last user kind < kind.gap

theorem postsTooQuickly_iff (host : BbsHost) (caller : Caller) (now : Int) :
    postsTooQuickly host caller now ↔ Hasty host.rateLimits caller.name .post now := by
  rw [postsTooQuickly, findRateLimit]
  simp only [Hasty, limitTable]
  cases host.rateLimits.find? fun limit => limit.username == caller.name with
  | none => simp
  | some => simp [RateLimit.last, FloodKind.gap]

theorem commentsTooQuickly_iff (host : BbsHost) (caller : Caller) (now : Int) :
    commentsTooQuickly host caller now ↔ Hasty host.rateLimits caller.name .comment now := by
  rw [commentsTooQuickly, findRateLimit]
  simp only [Hasty, limitTable]
  cases host.rateLimits.find? fun limit => limit.username == caller.name with
  | none => simp
  | some => simp [RateLimit.last, FloodKind.gap]

theorem patient_of_not_hasty {limits : List RateLimit} {activity : Activity UserName FloodKind}
    (calm : ¬ Hasty limits activity.user activity.kind activity.time) :
      Patient FloodKind.gap (limitTable limits) activity := by
  intro _
  rw [Hasty] at calm
  omega

/-- What an event does to the table: nothing, or it records an accepted activity of a user who waited. -/
inductive Limited (host : BbsHost) (turn : Nat) (event : BoardEvent) :
    Option (Activity UserName FloodKind) → List RateLimit → Prop where
  | kept : Limited host turn event none host.rateLimits
  | recorded (activity : Activity UserName FloodKind) (place : activity.turn = turn)
      (reading : event.reading = some activity.time)
      (patient : Patient FloodKind.gap (limitTable host.rateLimits) activity) :
      Limited host turn event (some activity)
        (ensureRateLimit host.rateLimits activity.user (·.record activity.kind activity.time))

variable {request : Request} {next : BbsHost} {turn : Nat}

theorem serve_limits (free : request.floodKind = none) :
    (serve host caller moment request).1.rateLimits = host.rateLimits := by
  have served := serve_served host caller moment request
  generalize serve host caller moment request = result at served
  cases served with
  | posted draft place notice vacant held body clean fresh =>
    rw [Request.floodKind, if_pos fresh] at free
    cases free
  | commented => cases free
  | deleted =>
    rw [clearPost_limits]
  | _ => rfl

theorem accepted_refused {answer : Answer} (refused : serve host caller moment request = (next, .refused answer)) :
    admitted host turn (.request caller moment request) = none := by
  rw [admitted, refused]
  exact if_neg fun both => Bool.false_ne_true both.2

theorem accepted_done {notice : Bytes} (done : serve host caller moment request = (next, .done notice)) :
    admitted host turn (.request caller moment request) =
      if caller.privileged then none else request.floodKind.map fun kind => ⟨caller.name, kind, moment.now, turn⟩ := by
  rw [admitted, done]
  cases caller.privileged with
  | false => exact if_pos ⟨rfl, rfl⟩
  | true => exact if_neg fun both => Bool.false_ne_true both.1.symm

theorem limited_done {notice : Bytes} {kind : FloodKind}
    (done : serve host caller moment request = (next, .done notice)) (asked : request.floodKind = some kind)
    (limits : next.rateLimits = if caller.privileged then host.rateLimits else ensureRateLimit host.rateLimits
      caller.name (·.record kind moment.now))
    (calm : caller.privileged = false → Patient FloodKind.gap (limitTable host.rateLimits)
      ⟨caller.name, kind, moment.now, turn⟩) :
    Limited host turn (.request caller moment request) (admitted host turn (.request caller moment request))
      (boardStep host (.request caller moment request)).rateLimits := by
  rw [accepted_done done, boardStep, done, asked]
  rw [limits]
  cases privileged : caller.privileged with
  | true => exact .kept
  | false => exact .recorded ⟨caller.name, kind, moment.now, turn⟩ rfl rfl (calm privileged)

theorem limited_refused {answer : Answer} (refused : serve host caller moment request = (next, .refused answer))
    (same : next.rateLimits = host.rateLimits) :
    Limited host turn (.request caller moment request) (admitted host turn (.request caller moment request))
      (boardStep host (.request caller moment request)).rateLimits := by
  rw [accepted_refused refused, boardStep, refused]
  rw [same]
  exact .kept

theorem limited_commit {draft : Draft} (fresh : draft.editing = none) (turn : Nat) :
    Limited host turn (.request caller moment (.commit draft))
      (admitted host turn (.request caller moment (.commit draft)))
      (boardStep host (.request caller moment (.commit draft))).rateLimits := by
  by_cases empty : draft.body.text = []
  · exact limited_refused (by rw [serve, commitPendingPost, if_pos empty]) rfl
  · by_cases dirty : moment.clean = false
    · exact limited_refused (by rw [serve, commitPendingPost, if_neg empty, if_pos dirty]) rfl
    · have new : serve host caller moment (.commit draft) = commitNew host caller moment.now draft := by
        rw [serve, commitPendingPost, if_neg empty, if_neg dirty, fresh]
      rcases commitNew_cases host caller moment.now draft with ⟨next, answer, same, kept⟩ |
        ⟨place, notice, free, calm, same⟩
      · exact limited_refused (new.trans same) kept
      · refine limited_done (new.trans same) (if_pos fresh) (finishPost_limits _ place caller moment.now draft)
          fun limited => ?_
        exact patient_of_not_hasty fun hasty => calm (Or.inr ⟨limited, (postsTooQuickly_iff _ _ _).mpr hasty⟩)

theorem limited_comment (host : BbsHost) (caller : Caller) (moment : Moment) (arguments : Bytes) (turn : Nat) :
    Limited host turn (.request caller moment (.comment arguments))
      (admitted host turn (.request caller moment (.comment arguments)))
      (boardStep host (.request caller moment (.comment arguments))).rateLimits := by
  have served := serve_served host caller moment (.comment arguments)
  generalize result : serve host caller moment (.comment arguments) = after at served
  cases served with
  | refused => exact limited_refused result rfl
  | commented _ text id place notice parsed found room clean calm =>
    refine limited_done result rfl (finishComment_limits host place caller moment.now text) fun limited => ?_
    exact patient_of_not_hasty fun hasty => calm (Or.inr ⟨limited, (commentsTooQuickly_iff _ _ _).mpr hasty⟩)

/-- The table changes only by what is accepted. -/
theorem boardStep_limited (host : BbsHost) (turn : Nat) (event : BoardEvent) :
    Limited host turn event (admitted host turn event) (boardStep host event).rateLimits := by
  cases event with
  | request caller moment request =>
    cases asked : request.floodKind with
    | none =>
      have none_accepted : admitted host turn (.request caller moment request) = none := by
        rw [admitted, asked]
        exact ite_self none
      rw [none_accepted, boardStep, serve_limits asked]
      exact .kept
    | some =>
      cases request with
      | commit draft =>
        have fresh : draft.editing = none := by
          by_contra edits
          rw [Request.floodKind, if_neg edits] at asked
          cases asked
        exact limited_commit fresh turn
      | comment arguments => exact limited_comment host caller moment arguments turn
      | _ => cases asked
  | moderate =>
    rw [boardStep]
    split
    · exact .kept
    · rw [clearPost_limits]
      exact .kept
  | mute => exact .kept
  | unmute => exact .kept

end Commands

section Tables

/-- What the table and the log have to do with each other. -/
structure LedgerSound (ledger : FloodLedger) : Prop where
  single : (ledger.host.rateLimits.map RateLimit.username).Nodup
  within : ledger.host.rateLimits.length ≤ maxRateLimits
  named : ∀ limit ∈ ledger.host.rateLimits, Named limit.username
  logged : ∀ limit ∈ ledger.host.rateLimits, ∃ old ∈ ledger.log, old.user = limit.username ∧ old.time = limit.stamp
  latest : ∀ limit ∈ ledger.host.rateLimits, ∀ old ∈ ledger.log, old.user = limit.username → old.time ≤ limit.stamp
  timed : ∀ old ∈ ledger.log, 0 < old.time ∧ old.time ≤ ledger.clock
  turned : ∀ old ∈ ledger.log, old.turn < ledger.log.length
  running : 0 < ledger.clock

variable {ledger : FloodLedger} {event : BoardEvent} {activity : Activity UserName FloodKind}

theorem LedgerSound.stamped (sound : LedgerSound ledger) : ∀ limit ∈ ledger.host.rateLimits, 0 ≤ limit.stamp := by
  intro limit inside
  obtain ⟨old, here, -, same⟩ := sound.logged limit inside
  rw [← same]
  exact (sound.timed old here).1.le

theorem start_sound (host : BbsHost) : LedgerSound (.start host) := by
  constructor <;> simp [FloodLedger.start]

structure Accepts (ledger : FloodLedger) (event : BoardEvent) (activity : Activity UserName FloodKind) : Prop where
  accepted : admitted ledger.host ledger.log.length event = some activity
  turn : activity.turn = ledger.log.length
  reading : event.reading = some activity.time
  patient : Patient FloodKind.gap (limitTable ledger.host.rateLimits) activity
  limits : (boardStep ledger.host event).rateLimits =
    ensureRateLimit ledger.host.rateLimits activity.user (·.record activity.kind activity.time)
  log : (ledgerStep ledger event).log = activity :: ledger.log

/-- An event leaves the table and the log, or it is accepted. -/
theorem ledgerStep_cases (ledger : FloodLedger) (event : BoardEvent) :
    (boardStep ledger.host event).rateLimits = ledger.host.rateLimits ∧ (ledgerStep ledger event).log = ledger.log ∧
        ¬ MeetsFull ledger event ∨ ∃ activity, Accepts ledger event activity := by
  have limited := boardStep_limited ledger.host ledger.log.length event
  generalize seen : admitted ledger.host ledger.log.length event = what at limited
  generalize after : (boardStep ledger.host event).rateLimits = limits at limited
  cases limited with
  | kept =>
    refine Or.inl ⟨rfl, ?_, ?_⟩
    · rw [ledgerStep, seen]
      rfl
    · rintro ⟨activity, other, -⟩
      rw [seen] at other
      cases other
  | recorded activity place reading patient =>
    refine Or.inr ⟨activity, seen, place, reading, patient, after, ?_⟩
    rw [ledgerStep, seen]
    rfl

theorem Accepts.time_le (accepts : Accepts ledger event activity) (forward : Forward ledger event) :
    ledger.clock ≤ activity.time := forward _ accepts.reading

theorem Accepts.ensured (accepts : Accepts ledger event activity) (sound : LedgerSound ledger)
    (name : Named activity.user) : Ensured ledger.host.rateLimits activity.user (·.record activity.kind activity.time)
      (boardStep ledger.host event).rateLimits := by
  rw [accepts.limits]
  exact ensureRateLimit_cases name sound.stamped

theorem Accepts.unnamed (accepts : Accepts ledger event activity) (nameless : ¬ Named activity.user) :
    (boardStep ledger.host event).rateLimits = ledger.host.rateLimits := by
  rw [accepts.limits, ensureRateLimit, if_pos (not_not.mp nameless)]

theorem clock_le (ledger : FloodLedger) (event : BoardEvent) (forward : Forward ledger event) :
    ledger.clock ≤ (ledgerStep ledger event).clock := by
  rw [ledgerStep]
  cases reading : event.reading with
  | none => exact le_rfl
  | some time => exact forward time reading

theorem Accepts.entry (accepts : Accepts ledger event activity) (sound : LedgerSound ledger)
    (forward : Forward ledger event)
    (name : Named activity.user) {limit : RateLimit} (inside : limit ∈ (boardStep ledger.host event).rateLimits) :
    limit ∈ ledger.host.rateLimits ∧ limit.username ≠ activity.user ∨
      limit.username = activity.user ∧ limit.stamp = activity.time := by
  have ensured := accepts.ensured sound name
  have keeps (limit : RateLimit) : (limit.record activity.kind activity.time).username = limit.username :=
    record_username
  by_cases own : limit.username = activity.user
  · refine Or.inr ⟨own, ?_⟩
    obtain ⟨entry, here, user, origin⟩ := ensured.own
    have same : limit = entry.record activity.kind activity.time := by
      apply inj_on_of_nodup_map (ensured.single keeps sound.single) inside here
      rw [own, record_username, user]
    have late := accepts.time_le forward
    rw [same]
    apply record_stamp
    rcases origin with old | ⟨-, rfl⟩
    · obtain ⟨before, there, -, stamp⟩ := sound.logged entry old
      have past := (sound.timed before there).2
      omega
    · have running := sound.running
      change (0 : Int) ≤ activity.time
      omega
  · exact Or.inl ⟨ensured.stays keeps inside own, own⟩

theorem LedgerSound.accept (sound : LedgerSound ledger) (forward : Forward ledger event)
    (accepts : Accepts ledger event activity) : LedgerSound (ledgerStep ledger event) := by
  have late := accepts.time_le forward
  have keeps (limit : RateLimit) : (limit.record activity.kind activity.time).username = limit.username :=
    record_username
  have clock : (ledgerStep ledger event).clock = activity.time := by rw [ledgerStep, accepts.reading, Option.getD_some]
  have timed : ∀ old ∈ (ledgerStep ledger event).log, 0 < old.time ∧ old.time ≤ (ledgerStep ledger event).clock := by
    rw [accepts.log, clock]
    intro old inside
    rcases mem_cons.mp inside with rfl | before
    · exact ⟨sound.running.trans_le late, le_rfl⟩
    · exact ⟨(sound.timed old before).1, (sound.timed old before).2.trans late⟩
  have turned : ∀ old ∈ (ledgerStep ledger event).log, old.turn < (ledgerStep ledger event).log.length := by
    rw [accepts.log]
    intro old inside
    rcases mem_cons.mp inside with rfl | before
    · rw [accepts.turn]
      exact Nat.lt_succ_self _
    · exact (sound.turned old before).trans (Nat.lt_succ_self _)
  have running : 0 < (ledgerStep ledger event).clock := sound.running.trans_le (clock_le ledger event forward)
  by_cases name : Named activity.user
  · have ensured := accepts.ensured sound name
    refine ⟨ensured.single keeps sound.single, ensured.length sound.within, ?_, ?_, ?_, timed, turned, running⟩
    · intro limit inside
      rcases accepts.entry sound forward name inside with ⟨old, -⟩ | ⟨own, -⟩
      · exact sound.named limit old
      · exact own ▸ name
    · rw [accepts.log]
      intro limit inside
      rcases accepts.entry sound forward name inside with ⟨old, -⟩ | ⟨own, stamp⟩
      · obtain ⟨before, here, same⟩ := sound.logged limit old
        exact ⟨before, mem_cons_of_mem _ here, same⟩
      · exact ⟨activity, mem_cons_self, own.symm, stamp.symm⟩
    · rw [accepts.log]
      intro limit inside old here user
      rcases accepts.entry sound forward name inside with ⟨before, other⟩ | ⟨-, stamp⟩
      · rcases mem_cons.mp here with rfl | there
        · exact absurd user.symm other
        · exact sound.latest limit before old there user
      · rw [stamp, ← clock]
        exact (timed old (accepts.log ▸ here)).2
  · have same := accepts.unnamed name
    constructor
    · exact same ▸ sound.single
    · exact same ▸ sound.within
    · exact same ▸ sound.named
    · rw [accepts.log]
      intro limit inside
      obtain ⟨before, here, there⟩ := sound.logged limit (same ▸ inside)
      exact ⟨before, mem_cons_of_mem _ here, there⟩
    · rw [accepts.log]
      intro limit inside old here user
      rcases mem_cons.mp here with rfl | there
      · exact absurd (user ▸ sound.named limit (same ▸ inside)) name
      · exact sound.latest limit (same ▸ inside) old there user
    · exact timed
    · exact turned
    · exact running

theorem LedgerSound.step (sound : LedgerSound ledger) (forward : Forward ledger event) :
    LedgerSound (ledgerStep ledger event) := by
  rcases ledgerStep_cases ledger event with ⟨same, log, -⟩ | ⟨activity, accepts⟩
  · have later := clock_le ledger event forward
    constructor
    · exact same ▸ sound.single
    · exact same ▸ sound.within
    · exact same ▸ sound.named
    · rw [log]
      exact fun limit inside => sound.logged limit (same ▸ inside)
    · rw [log]
      exact fun limit inside => sound.latest limit (same ▸ inside)
    · rw [log]
      exact fun old inside => ⟨(sound.timed old inside).1, (sound.timed old inside).2.trans later⟩
    · rw [log]
      exact sound.turned
    · exact sound.running.trans_le later
  · exact sound.accept forward accepts

/-- An entry goes only from the first slot of a full table. -/
theorem LedgerSound.departs (sound : LedgerSound ledger) {gone : RateLimit} (inside : gone ∈ ledger.host.rateLimits)
    (leaves : gone.username ∉ (boardStep ledger.host event).rateLimits.map RateLimit.username) :
    ledger.host.rateLimits.head? = some gone ∧ MeetsFull ledger event := by
  rcases ledgerStep_cases ledger event with ⟨same, -⟩ | ⟨activity, accepts⟩
  · rw [same] at leaves
    exact absurd (mem_map_of_mem inside) leaves
  · by_cases name : Named activity.user
    · obtain ⟨first, new, full⟩ := (accepts.ensured sound name).gone (fun _ => record_username) inside leaves
      exact ⟨first, activity, accepts.accepted, name, new, full⟩
    · rw [accepts.unnamed name] at leaves
      exact absurd (mem_map_of_mem inside) leaves

/-- The entry in the first slot goes whenever room is needed. -/
theorem LedgerSound.front_departs (sound : LedgerSound ledger) (meets : MeetsFull ledger event) {front : RateLimit}
    (first : ledger.host.rateLimits.head? = some front) :
    front.username ∉ (boardStep ledger.host event).rateLimits.map RateLimit.username := by
  rcases ledgerStep_cases ledger event with ⟨-, -, none⟩ | ⟨activity, accepts⟩
  · exact absurd meets none
  · obtain ⟨other, same, name, new, full⟩ := meets
    obtain rfl : activity = other := Option.some_inj.mp (accepts.accepted.symm.trans same)
    exact (accepts.ensured sound name).front_gone first (fun _ => record_username) sound.single new full

theorem evictsOldest_iff (sound : LedgerSound ledger) (event : BoardEvent) :
    EvictsOldest ledger event ↔ FrontOldest ledger event := by
  constructor
  · intro evicts meets front first
    exact evicts front (mem_of_head? first) (sound.front_departs meets first)
  · intro oldest gone inside leaves
    obtain ⟨first, meets⟩ := sound.departs inside leaves
    exact oldest meets gone first

end Tables

end SshChatter.Bbs
