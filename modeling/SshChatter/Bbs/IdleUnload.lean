import SshChatter.Bbs.DraftTable
import SshChatter.Bbs.Restart
import SshChatter.Bbs.SideFiles

namespace SshChatter.Bbs
open CString EventRun SlotTable List
open BbsFiles (saveNotifications loadNotifications saveReports loadReports saveMutes loadMutes)

abbrev maxVotes : Nat := 8192

/-- The file `votes.dat` behind its magic and version. -/
structure VoteFile where
  count : Nat
  entries : List Vote

/-- This is `host_bbs_votes_save_locked`. -/
def saveVotes (votes : List Vote) : VoteFile := ⟨votes.length % 2 ^ 32, votes⟩

def loadVotes : Option VoteFile → List Vote × Nat
  | none => ([], maxVotes)
  | some file => (file.entries.take file.count, max file.count maxVotes)

/-- The files of the board. A file that does not exist is none. -/
structure BbsDisk where
  state : Option StateFile
  votes : Option VoteFile
  drafts : Option DraftFile
  notifications : Option Bytes
  reports : Option Bytes
  mutes : Option Bytes

/-- The board of the host in memory and on disk. The last two fields are not in the host: they tell whether
`host_bbs_aux_loads` ran, and which posts were created and not deleted. -/
structure CachedBoard where
  board : BbsHost
  draftSlots : List SavedDraft
  draftCount : Nat
  allocated : Bool
  loaded : Bool
  disk : BbsDisk
  tablesRead : Bool
  live : List Nat

def CachedBoard.drafts (host : CachedBoard) : DraftStore := ⟨host.draftSlots, host.draftCount, host.board.nextId⟩

/-- The slots that `host_bbs_acquire_storage` allocates. -/
def BbsHost.allocated (board : BbsHost) : BbsHost :=
  { board with
    posts := fun place => { PostRecord.blank with inUse := false, comments := place }
    arrays := fun _ _ => .blank }

def acquireStorage (host : CachedBoard) : CachedBoard :=
  if host.allocated then host else { host with board := host.board.allocated, allocated := true, loaded := false }

/-- This is `host_bbs_release_cache`. The slots are gone until they are allocated again, and the tables stay. -/
def releaseCache (host : CachedBoard) : CachedBoard :=
  { host with board := { host.board with postCount := 0 }, allocated := false, loaded := false }

/-- This is `host_bbs_aux_loads`. -/
def loadTables (host : CachedBoard) : CachedBoard :=
  let votes := loadVotes host.disk.votes
  let drafts := loadDrafts host.board.nextId host.disk.drafts
  { host with
    board := { host.board with
      votes := votes.1
      voteCapacity := votes.2
      notifications := (host.disk.notifications.map loadNotifications).getD host.board.notifications
      reports := (host.disk.reports.map loadReports).getD host.board.reports
      mutes := (host.disk.mutes.map loadMutes).getD host.board.mutes }
    draftSlots := drafts.drafts
    draftCount := drafts.count
    tablesRead := true }

/-- This is `host_bbs_state_load`. -/
def loadBoard (host : CachedBoard) (clock : Int) : CachedBoard :=
  loadTables { host with board := loadState host.board clock host.disk.state, loaded := true }

def ensureLive (host : CachedBoard) (clock : Int) : CachedBoard :=
  if (acquireStorage host).loaded then acquireStorage host else loadBoard (acquireStorage host) clock

/-- This is `host_bbs_state_save_locked`. It only looks whether the slots are allocated. -/
def saveBoard (host : CachedBoard) : CachedBoard :=
  if host.allocated = false then host
  else
    { host with
      disk := {
        state := some (saveState host.board)
        votes := some (saveVotes host.board.votes)
        drafts := some (saveDrafts host.drafts)
        notifications := some (saveNotifications host.board.notifications)
        reports := some (saveReports host.board.reports)
        mutes := some (saveMutes host.board.mutes) } }

/-- A request passes the checks that come before `session_bbs_ensure_live_storage`. -/
def reachesStorage (board : BbsHost) (caller : Caller) (moment : Moment) : Request → Bool
  | .commit draft => draft.body.text ≠ [] ∧ moment.clean
  | .comment arguments => (parseComment caller arguments).any fun target => target.1 ≠ 0 ∧ moment.clean = true
  | .editComment arguments =>
    (arguments ≠ [] ∧ board.commentEditEnabled = true) ∧ (parseTarget arguments).any fun target =>
      target.2.2.head? = some 32 ∧ trimSpace ((target.2.2.dropWhile (· = 32)).take 511) ≠ [] ∧ moment.clean = true
  | .deleteComment arguments =>
    (arguments ≠ [] ∧ board.commentDeleteEnabled = true) ∧ (parseTarget arguments).any fun target =>
      target.2.2 = [] ∨ target.2.2.head? = some 32
  | .upvote id | .downvote id | .delete id | .regen id => id ≠ 0
  | .voteComment arguments => (parseTarget arguments).any fun target => (parseDirection target.2.2).isSome
  | .report arguments => (readUnsigned arguments).any fun target =>
    (target.2 = [] ∨ target.2.head? = some 32) ∧
      (trimSpace ((target.2.dropWhile (· = 32)).take 127) = [] ∨ moment.clean = true)
  | .setModFlag id _ _ => caller.privileged ∧ id ≠ 0

/-- The posts that were created and not deleted behind a request. -/
def booked (board : BbsHost) (live : List Nat) : Request → Outcome → List Nat
  | .commit draft, .done _ => if draft.editing.isNone then board.nextId :: live else live
  | .delete id, .done _ => live.filter (· ≠ id)
  | _, _ => live

/-- A request behind `session_bbs_ensure_live_storage`. What is done is saved. -/
def answered (host : CachedBoard) (caller : Caller) (moment : Moment) (request : Request) : CachedBoard :=
  let result := serve host.board caller moment request
  let after := { host with board := result.1, live := booked host.board host.live request result.2 }
  if result.2.isDone then saveBoard after else after

/-- The watchdog removes a post that it finds in the slots. -/
def moderated (host : CachedBoard) (id : Nat) : CachedBoard :=
  if host.allocated = false then host
  else
    match findPost host.board id with
    | none => host
    | some place => saveBoard { host with board := clearPost host.board place, live := host.live.filter (· ≠ id) }

/-- The command `draft`, which does not call `session_bbs_ensure_live_storage`. -/
def drafted (host : CachedBoard) (caller : Caller) (pending : Option PendingDraft) (now : Int) (arguments : Bytes) :
    CachedBoard :=
  let result := draftCommand host.drafts caller pending now arguments
  if result.2.quiet then host
  else
    saveBoard { host with
      board := { host.board with nextId := result.1.nextId }
      draftSlots := result.1.drafts
      draftCount := result.1.count }

/-- `session_bbs_show_dashboard` takes the notifications of the user. They are not saved. -/
def drained (host : CachedBoard) (name : UserName) : CachedBoard :=
  { host with board := { host.board with
      notifications := host.board.notifications.filter fun notice => notice.toName ≠ name } }

/-- What happens to the cache: the idle unload, the entry of a user, the commands and the watchdog. -/
inductive UnloadEvent where
  | release
  | acquire
  | visit (clock : Int)
  | dashboard (name : UserName) (clock : Int)
  | request (caller : Caller) (moment : Moment) (request : Request)
  | mute (username : UserName) (mutedUntil : Int) (mutedBy : UserName) (now : Int)
  | unmute (username : UserName) (now : Int)
  | audit (now : Int)
  | moderate (id : Nat)
  | draft (caller : Caller) (pending : Option PendingDraft) (now : Int) (arguments : Bytes)

/-- What one event does. A visit is a command that only reads. -/
def unloadStep (host : CachedBoard) : UnloadEvent → CachedBoard
  | .release => releaseCache host
  | .acquire => acquireStorage host
  | .visit clock => ensureLive host clock
  | .dashboard name clock => drained (ensureLive host clock) name
  | .request caller moment request =>
    if reachesStorage host.board caller moment request then
      answered (ensureLive host moment.now) caller moment request
    else host
  | .mute username mutedUntil mutedBy now =>
    let live := ensureLive host now
    saveBoard { live with board := boardStep live.board (.mute username mutedUntil mutedBy now) }
  | .unmute username now =>
    let live := ensureLive host now
    if live.board.mutes.any fun mute => mute.username == username then
      saveBoard { live with board := boardStep live.board (.unmute username) }
    else live
  | .audit now => saveBoard (ensureLive host now)
  | .moderate id => moderated host id
  | .draft caller pending now arguments => drafted host caller pending now arguments

def HasPost (board : BbsHost) (id : Nat) : Prop := ∃ place, (board.posts place).inUse ∧ (board.posts place).id = id

def Complete (file : Option StateFile) (live : List Nat) : Prop :=
  ∀ id ∈ live, ∃ written, file = some written ∧ ∃ entry ∈ written.entries, entry.id = id

def FileComplete (host : CachedBoard) (event : UnloadEvent) : Prop :=
  Complete (unloadStep host event).disk.state (unloadStep host event).live

def Emptied {File : Type} (empty : File → Prop) (before after : Option File) : Prop :=
  (∃ file, before = some file ∧ ¬ empty file) ∧ ∃ file, after = some file ∧ empty file

structure TablesKept (host : CachedBoard) (event : UnloadEvent) : Prop where
  votes : Emptied (fun file => file.entries = []) host.disk.votes (unloadStep host event).disk.votes →
    (unloadStep host event).tablesRead
  drafts : Emptied (fun file => file.entries = []) host.disk.drafts (unloadStep host event).disk.drafts →
    (unloadStep host event).tablesRead
  notifications : Emptied (· = []) host.disk.notifications (unloadStep host event).disk.notifications →
    (unloadStep host event).tablesRead
  reports : Emptied (· = []) host.disk.reports (unloadStep host event).disk.reports →
    (unloadStep host event).tablesRead
  mutes : Emptied (· = []) host.disk.mutes (unloadStep host event).disk.mutes →
    (unloadStep host event).tablesRead

def savesDraft (store : DraftStore) (caller : Caller) (pending : Option PendingDraft) (arguments : Bytes) : Bool :=
  let rest := (arguments.drop (draftAction arguments).length).dropWhile fun c => c = 32 ∨ c = 9
  (draftAction arguments = str "save" ∧ pending.isSome = true ∧ store.drafts.any fun draft => !draft.inUse) ∨
    (draftAction arguments = str "delete" ∧ (strtoulField rest).any fun index => (ownDraft store caller index).isSome)

def LoadsAll (host : CachedBoard) (clock : Int) : Prop :=
  host.loaded ∨ ∀ file, host.disk.state = some file → ∀ entry ∈ file.entries, entry.id ∈ host.live →
    (normalize (loadTime clock) entry).hasRequiredFields ∧
      (normalize (loadTime clock) entry).isSane (loadTime clock)

/-- Drafts are changed while the posts are loaded, or there are no posts, or there are no slots to be saved. What is
loaded passes the checks of the loader. -/
def Safe (host : CachedBoard) : UnloadEvent → Prop
  | .release | .acquire | .moderate _ => True
  | .visit clock | .dashboard _ clock | .mute _ _ _ clock | .unmute _ clock | .audit clock => LoadsAll host clock
  | .request caller moment request => reachesStorage host.board caller moment request → LoadsAll host moment.now
  | .draft caller pending _ arguments => savesDraft host.drafts caller pending arguments →
      host.loaded ∨ host.allocated = false ∨ host.live = []

/-- The host at its start, with the files of an earlier run. -/
structure Started (host : CachedBoard) : Prop where
  allocated : host.allocated
  unloaded : host.loaded = false
  posts : host.board.posts = host.board.allocated.posts
  drafts : host.draftSlots = []
  written : host.disk.state = none ∨ ∃ board, host.disk.state = some (saveState board)
  live : host.live = (host.disk.state.map fun file => file.entries.map fun entry => entry.id).getD []

section Slots

variable {board after : BbsHost} {id : Nat} {live : List Nat}

theorem hasPost_stored : (∃ entry ∈ stored board, entry.id = id) ↔ HasPost board id := by
  constructor
  · rintro ⟨entry, inside, same⟩
    obtain ⟨place, used, rfl⟩ := mem_map.mp inside
    exact ⟨place, mem_usedPlaces.mp used, same⟩
  · rintro ⟨place, used, same⟩
    exact ⟨saved board place, mem_map_of_mem (mem_usedPlaces.mpr used), same⟩

theorem HasPost.congr (posts : after.posts = board.posts) : HasPost after id ↔ HasPost board id := by
  rw [HasPost, HasPost, posts]

/-- A change of a slot that keeps its use and its identifier. -/
theorem HasPost.setPost (has : HasPost board id) (place : Fin maxPosts) (change : Post → Post)
    (inUse : (change (board.posts place)).inUse = (board.posts place).inUse)
    (same : (change (board.posts place)).id = (board.posts place).id) : HasPost (board.setPost place change) id := by
  obtain ⟨other, used, rfl⟩ := has
  refine ⟨other, ?_, ?_⟩
  · by_cases here : other = place
    · rw [here, setPost_here, inUse, ← here, used]
    · rw [setPost_other _ here, used]
  · by_cases here : other = place
    · rw [here, setPost_here, same]
    · rw [setPost_other _ here]

/-- A removal leaves every post with another identifier. -/
theorem HasPost.clear (has : HasPost board id) {gone : Fin maxPosts} (other : (board.posts gone).id ≠ id) :
    HasPost (clearPost board gone) id := by
  obtain ⟨place, used, rfl⟩ := has
  have away : place ≠ gone := fun same => other (same ▸ rfl)
  have stays : ((resetPost board gone).posts place).inUse := by
    rw [reset_inUse, decide_eq_true away, used]
    rfl
  obtain ⟨target, front, same⟩ := exists_source stays
  have slot : (clearPost board gone).posts target = board.posts place := by
    have moved : origin board gone target = place := same
    have before : ¬ remaining board gone ≤ target.val := not_le.mpr front
    rw [(clearPost_spec board gone).2.1 target, if_neg before, moved, resetPost_posts, Function.update_of_ne away]
  exact ⟨target, by rw [slot, used], by rw [slot]⟩

theorem hasPost_allocate (board : BbsHost) (place : Fin maxPosts) (now : Int) :
    HasPost (board.allocateAt place now) board.nextId := by
  refine ⟨place, ?_, ?_⟩
  · rw [allocateAt_posts, Function.update_self]
    rfl
  · rw [allocateAt_posts, Function.update_self]
    rfl

theorem HasPost.allocate (has : HasPost board id) {place : Fin maxPosts}
    (free : firstFree Post.inUse board.posts = some place) (now : Int) : HasPost (board.allocateAt place now) id := by
  obtain ⟨other, used, same⟩ := has
  have away : other ≠ place := by
    rintro rfl
    rw [firstFree_some free] at used
    cases used
  refine ⟨other, ?_, ?_⟩
  · rw [allocateAt_posts, Function.update_of_ne away, used]
  · rw [allocateAt_posts, Function.update_of_ne away, same]

theorem HasPost.finish (has : HasPost board id) (place : Fin maxPosts) (caller : Caller) (now : Int) (draft : Draft) :
    HasPost (finishPost board place caller now draft) id :=
  (HasPost.congr (finishPost_posts board place caller now draft)).mpr
    (has.setPost place (·.written caller draft) rfl rfl)

end Slots

section Requests

variable {board : BbsHost} {caller : Caller} {moment : Moment} {live : List Nat}

theorem held_commit (held : ∀ id ∈ live, HasPost board id) (draft : Draft) :
    ∀ id ∈ booked board live (.commit draft) (commitPendingPost board caller moment draft).2,
      HasPost (commitPendingPost board caller moment draft).1 id := by
  rw [commitPendingPost]
  split
  · exact held
  · split
    · exact held
    · split
      next edited editing =>
        have unborn : draft.editing.isNone = false := by rw [editing]; rfl
        rw [commitEdit]
        split
        · exact held
        next place found =>
          split
          · intro id inside
            rw [booked, unborn] at inside
            exact (held id inside).setPost place (·.edited draft moment.now) rfl rfl
          · exact held
      next fresh =>
        have born : draft.editing.isNone := by rw [fresh]; rfl
        cases free : firstFree Post.inUse board.posts with
        | none =>
          have full : commitNew board caller moment.now draft =
              (board, .refused (.line (str "The bulletin board is full right now."))) := by
            rw [commitNew, allocatePost, free]
            rfl
          rw [full]
          exact held
        | some place =>
          by_cases barred : Held board caller moment.now
          · -- The slot stays taken by a post that nobody created.
            have taken : ∃ answer, commitNew board caller moment.now draft =
                (board.allocateAt place moment.now, .refused answer) := by
              rw [commitNew, allocatePost, free]
              dsimp only [Option.map_some]
              split
              · exact ⟨_, rfl⟩
              next heard =>
                rcases barred with muted | quick
                · exact absurd muted heard
                · exact ⟨_, if_pos quick⟩
            obtain ⟨answer, same⟩ := taken
            rw [same]
            intro id inside
            exact (held id inside).allocate free moment.now
          · rw [commitNew_eq free barred]
            intro id inside
            rw [booked, born] at inside
            have there : HasPost (board.allocateAt place moment.now) id := by
              rcases mem_cons.mp inside with rfl | before
              · exact hasPost_allocate board place moment.now
              · exact (held id before).allocate free moment.now
            exact there.finish place caller moment.now draft

theorem deletable_id {id : Nat} {place : Fin maxPosts} (found : deletable board caller id = some place) :
    (board.posts place).id = id := by
  rw [deletable] at found
  split_ifs at found
  have first := firstWith_some (Option.filter_eq_some_iff.mp found).1
  exact beq_iff_eq.mp first

theorem queued_posts (board : BbsHost) (queue : List Notification) :
    ({ board with notifications := queue } : BbsHost).posts = board.posts := rfl

/-- A request keeps the posts that were created and not deleted. -/
theorem held_serve (held : ∀ id ∈ live, HasPost board id) (request : Request) :
    ∀ id ∈ booked board live request (serve board caller moment request).2,
      HasPost (serve board caller moment request).1 id := by
  by_cases commit : ∃ draft, request = .commit draft
  · obtain ⟨draft, rfl⟩ := commit
    exact held_commit held draft
  have served := serve_served board caller moment request
  generalize serve board caller moment request = result at served
  cases served with
  | refused request =>
    cases request with
    | _ => exact held
  | taken draft => exact absurd ⟨draft, rfl⟩ commit
  | posted draft => exact absurd ⟨draft, rfl⟩ commit
  | edited draft => exact absurd ⟨draft, rfl⟩ commit
  | commented arguments text id place =>
    intro other inside
    have posts := (finishComment_posts board place caller moment.now text).1
    exact (HasPost.congr posts).mpr ((held other inside).setPost place
      (fun post => { post with commentCount := (board.posts place).commentCount + 1, bumpedAt := moment.now }) rfl rfl)
  | commentEdited => exact fun other inside => held other inside
  | commentDeleted arguments id index place =>
    exact fun other inside => (held other inside).setPost place
      (fun post => { post with commentCount := (board.posts place).commentCount - 1 }) rfl rfl
  | upvoted id place before =>
    obtain ⟨up, down, same⟩ := (board.posts place).balloted_eq before 1
    exact fun other inside => (held other inside).setPost place (·.balloted before 1) (by rw [same]) (by rw [same])
  | downvoted id place before =>
    obtain ⟨up, down, same⟩ := (board.posts place).balloted_eq before (-1)
    exact fun other inside => (held other inside).setPost place (·.balloted before (-1)) (by rw [same]) (by rw [same])
  | commentVoted => exact fun other inside => held other inside
  | reported => exact fun other inside => held other inside
  | deleted id place queue notice found =>
    intro other inside
    obtain ⟨before, away⟩ := mem_filter.mp inside
    have kept : (board.posts place).id ≠ other := by
      rw [deletable_id found]
      exact fun same => of_decide_eq_true away same.symm
    have cleared : HasPost (clearPost board place) other := (held other before).clear kept
    exact (HasPost.congr (queued_posts (clearPost board place) queue)).mpr cleared
  | bumped id place =>
    exact fun other inside => (held other inside).setPost place (fun post => { post with bumpedAt := moment.now }) rfl
      rfl
  | flagged id place flag set flags =>
    exact fun other inside => (held other inside).setPost place
      (fun post => { post with modFlags := flags post.modFlags }) rfl rfl

end Requests

section Drafts

variable {store : DraftStore} {caller : Caller} {pending : Option PendingDraft} {now : Int} {arguments : Bytes}

theorem saveDraft_quiet : (saveDraft store caller pending now).2.quiet =
    !(pending.isSome && store.drafts.any fun draft => !draft.inUse) := by
  cases pending with
  | none => rfl
  | some =>
    rw [saveDraft, ← findIdx?_isSome]
    cases found : store.drafts.findIdx? fun draft => !draft.inUse with
    | none => rfl
    | some => rfl

theorem deleteDraft_quiet (rest : Bytes) : (deleteDraft store caller rest).2.quiet =
    !(strtoulField rest).any fun index => (ownDraft store caller index).isSome := by
  rw [deleteDraft]
  cases strtoulField rest with
  | none => rfl
  | some index =>
    rw [Option.any_some]
    cases own : ownDraft store caller index with
    | none =>
      dsimp only
      rw [own]
      rfl
    | some =>
      dsimp only
      rw [own]
      rfl

/-- The answer of the command tells whether the drafts changed. -/
theorem draft_quiet :
    (draftCommand store caller pending now arguments).2.quiet = !savesDraft store caller pending arguments := by
  have apart : str "save" ≠ str "delete" := by decide +kernel
  rw [draftCommand, savesDraft]
  by_cases empty : arguments = []
  · subst empty
    have neither : draftAction [] ≠ str "save" ∧ draftAction [] ≠ str "delete" := by decide +kernel
    rw [decide_eq_false]
    · rfl
    · rintro (save | delete)
      · exact neither.1 save.1
      · exact neither.2 delete.1
  rw [if_neg empty]
  by_cases save : draftAction arguments = str "save"
  · simp only [save, if_true, saveDraft_quiet, apart, true_and, false_and, or_false, Bool.decide_and,
      Bool.decide_eq_true]
  rw [if_neg save]
  by_cases list : draftAction arguments = str "list"
  · have other : str "list" ≠ str "delete" := by decide +kernel
    rw [if_pos list, decide_eq_false]
    · rfl
    · rintro (saves | delete)
      · exact save saves.1
      · exact other (list.symm.trans delete.1)
  rw [if_neg list]
  by_cases load : draftAction arguments = str "load"
  · have other : str "load" ≠ str "delete" := by decide +kernel
    rw [if_pos load, decide_eq_false]
    · exact loadDraft_quiet _ _ _
    · rintro (saves | delete)
      · exact save saves.1
      · exact other (load.symm.trans delete.1)
  rw [if_neg load]
  by_cases delete : draftAction arguments = str "delete"
  · simp only [delete, if_true, deleteDraft_quiet, apart.symm, true_and, false_and, false_or, Bool.decide_eq_true]
  · rw [if_neg delete, decide_eq_false]
    · rfl
    · rintro (saves | deletes)
      · exact save saves.1
      · exact delete deletes.1

theorem savesDraft_some (saves : savesDraft store caller pending arguments) : store.drafts ≠ [] := by
  rw [savesDraft, decide_eq_true_iff] at saves
  intro none'
  rcases saves with ⟨-, -, free⟩ | ⟨-, own⟩
  · rw [none'] at free
    cases free
  · cases number : strtoulField ((arguments.drop (draftAction arguments).length).dropWhile fun c => c = 32 ∨ c = 9) with
    | none =>
      rw [number] at own
      cases own
    | some =>
      rw [number, Option.any_some, ownDraft, none'] at own
      cases own

end Drafts

section Cache

variable {host : CachedBoard} {clock : Int}

/-- What holds in every run: posts are loaded with the tables, and slots without loaded posts are free. -/
structure CacheSound (host : CachedBoard) : Prop where
  ready : host.loaded → host.allocated ∧ host.tablesRead
  drafts : host.draftSlots ≠ [] → host.tablesRead
  free : host.allocated → host.loaded = false → host.board.posts = host.board.allocated.posts
  written : host.disk.state = none ∨ ∃ board, host.disk.state = some (saveState board)

/-- The posts that were created and not deleted are in the state file, and in the slots as soon as it is loaded. -/
structure PostsSound (host : CachedBoard) : Prop where
  filed : Complete host.disk.state host.live
  held : host.loaded → ∀ id ∈ host.live, HasPost host.board id

theorem Started.sound (started : Started host) : CacheSound host ∧ PostsSound host := by
  obtain ⟨allocated, unloaded, posts, drafts, written, live⟩ := started
  have notLoaded : host.loaded ≠ true := Bool.eq_false_iff.mp unloaded
  refine ⟨⟨fun loaded => absurd loaded notLoaded, fun some => absurd drafts some, fun _ _ => posts, written⟩,
    ⟨?_, fun loaded => absurd loaded notLoaded⟩⟩
  intro id inside
  rw [live] at inside
  cases file : host.disk.state with
  | none =>
    rw [file] at inside
    exact absurd inside not_mem_nil
  | some file' =>
    rw [file] at inside
    obtain ⟨entry, member, same⟩ := mem_map.mp inside
    exact ⟨file', rfl, entry, member, same⟩

theorem CacheSound.acquire (sound : CacheSound host) : CacheSound (acquireStorage host) := by
  rw [acquireStorage]
  split
  · exact sound
  · exact ⟨fun loaded => (nomatch loaded), sound.drafts, fun _ _ => rfl, sound.written⟩

theorem PostsSound.acquire (posts : PostsSound host) : PostsSound (acquireStorage host) := by
  rw [acquireStorage]
  split
  · exact posts
  · exact ⟨posts.filed, fun loaded => nomatch loaded⟩

theorem acquire_allocated (host : CachedBoard) : (acquireStorage host).allocated := by
  rw [acquireStorage]
  split
  next allocated => exact allocated
  · rfl

theorem acquire_disk (host : CachedBoard) :
    (acquireStorage host).disk = host.disk ∧ (acquireStorage host).live = host.live := by
  rw [acquireStorage]
  split
  · exact ⟨rfl, rfl⟩
  · exact ⟨rfl, rfl⟩

theorem acquire_loaded (sound : CacheSound host) (loaded : host.loaded) : (acquireStorage host).loaded := by
  rw [acquireStorage, if_pos (sound.ready loaded).1]
  exact loaded

theorem ensure_loaded (sound : CacheSound host) (clock : Int) :
    CacheSound (ensureLive host clock) ∧ (ensureLive host clock).loaded := by
  rw [ensureLive]
  split
  next loaded => exact ⟨sound.acquire, loaded⟩
  · refine ⟨⟨fun _ => ⟨acquire_allocated host, rfl⟩, fun _ => rfl, fun _ unloaded => (nomatch unloaded), ?_⟩, rfl⟩
    exact sound.acquire.written

theorem ensure_disk (host : CachedBoard) (clock : Int) :
    (ensureLive host clock).disk = host.disk ∧ (ensureLive host clock).live = host.live := by
  rw [ensureLive]
  split
  · exact acquire_disk host
  · exact acquire_disk host

/-- The loader puts every post into the slots that passes its checks. -/
theorem PostsSound.ensure (sound : CacheSound host) (posts : PostsSound host) (all : LoadsAll host clock) :
    PostsSound (ensureLive host clock) := by
  obtain ⟨disk, live⟩ := acquire_disk host
  rw [ensureLive]
  split
  · exact posts.acquire
  next unloaded =>
    rcases all with loaded | passes
    · exact absurd (acquire_loaded sound loaded) unloaded
    refine ⟨posts.acquire.filed, fun _ id inside => ?_⟩
    have known : id ∈ host.live := live ▸ inside
    obtain ⟨file, here, entry, member, rfl⟩ := posts.filed id known
    obtain ⟨required, sane⟩ := passes file here entry member known
    obtain ⟨board, same⟩ : ∃ board, file = saveState board := by
      rcases sound.written with missing | ⟨board, there⟩
      · rw [missing] at here
        cases here
      · exact ⟨board, Option.some.inj (here.symm.trans there)⟩
    subst same
    have slots := sound.acquire.free (acquire_allocated host) (Bool.eq_false_iff.mpr unloaded)
    have apart : Function.Injective (refs (acquireStorage host).board) := by
      intro first second same
      rw [refs, refs, slots] at same
      exact same
    have reloaded : reload (loadTime clock) entry = some (normalize (loadTime clock) entry).kept :=
      if_pos ⟨required, sane⟩
    have stays : HasPost (loadState (acquireStorage host).board clock (some (saveState board))) entry.id := by
      rw [← hasPost_stored, stored_loadState apart]
      exact ⟨_, mem_filterMap.mpr ⟨entry, member, reloaded⟩, rfl⟩
    rw [← here, ← disk] at stays
    exact stays

theorem CacheSound.save (sound : CacheSound host) : CacheSound (saveBoard host) := by
  rw [saveBoard]
  split
  · exact sound
  · exact ⟨sound.ready, sound.drafts, sound.free, Or.inr ⟨host.board, rfl⟩⟩

theorem PostsSound.save (allocated : host.allocated) (held : ∀ id ∈ host.live, HasPost host.board id) :
    PostsSound (saveBoard host) := by
  rw [saveBoard, if_neg (by rw [allocated]; exact Bool.noConfusion)]
  exact ⟨fun id inside => ⟨saveState host.board, rfl, hasPost_stored.mpr (held id inside)⟩, fun _ => held⟩

end Cache

section Steps

variable {host : CachedBoard}

theorem save_read (host : CachedBoard) : (saveBoard host).tablesRead = host.tablesRead := by
  rw [saveBoard]
  split
  · rfl
  · rfl

theorem found_loaded (sound : CacheSound host) (allocated : host.allocated) {id : Nat} {place : Fin maxPosts}
    (found : findPost host.board id = some place) : host.loaded := by
  by_contra unloaded
  have used := (findPost_formed found).1
  rw [sound.free allocated (Bool.eq_false_iff.mpr unloaded)] at used
  cases used

theorem CacheSound.answer (sound : CacheSound host) (loaded : host.loaded) (caller : Caller) (moment : Moment)
    (request : Request) : CacheSound (answered host caller moment request) := by
  have after : CacheSound { host with
      board := (serve host.board caller moment request).1
      live := booked host.board host.live request (serve host.board caller moment request).2 } :=
    ⟨sound.ready, sound.drafts, fun _ unloaded => absurd loaded (Bool.eq_false_iff.mp unloaded), sound.written⟩
  rw [answered]
  split
  · exact after.save
  · exact after

theorem PostsSound.answer (sound : CacheSound host) (posts : PostsSound host) (loaded : host.loaded) (caller : Caller)
    (moment : Moment) (request : Request) : PostsSound (answered host caller moment request) := by
  have held : ∀ id ∈ booked host.board host.live request (serve host.board caller moment request).2,
      HasPost (serve host.board caller moment request).1 id := held_serve (posts.held loaded) request
  rw [answered]
  split
  · exact PostsSound.save (sound.ready loaded).1 held
  next refused =>
    refine ⟨?_, fun _ => held⟩
    have same : booked host.board host.live request (serve host.board caller moment request).2 = host.live := by
      cases outcome : (serve host.board caller moment request).2 with
      | refused => cases request <;> rfl
      | done =>
        rw [outcome] at refused
        exact absurd rfl refused
    intro id inside
    exact posts.filed id (same ▸ inside)

theorem CacheSound.moderate (sound : CacheSound host) (id : Nat) : CacheSound (moderated host id) := by
  rw [moderated]
  split
  · exact sound
  next allocated =>
    split
    · exact sound
    next place found =>
      have loaded := found_loaded sound (Bool.eq_true_of_not_eq_false allocated) found
      have after : CacheSound { host with board := clearPost host.board place, live := host.live.filter (· ≠ id) } :=
        ⟨sound.ready, sound.drafts, fun _ unloaded => absurd loaded (Bool.eq_false_iff.mp unloaded), sound.written⟩
      exact after.save

theorem PostsSound.moderate (sound : CacheSound host) (posts : PostsSound host) (id : Nat) :
    PostsSound (moderated host id) := by
  rw [moderated]
  split
  · exact posts
  next allocated =>
    split
    · exact posts
    next place found =>
      have allocated' := Bool.eq_true_of_not_eq_false allocated
      have loaded := found_loaded sound allocated' found
      have held : ∀ other ∈ host.live.filter (· ≠ id), HasPost (clearPost host.board place) other := by
        intro other inside
        obtain ⟨before, away⟩ := mem_filter.mp inside
        have kept : (host.board.posts place).id ≠ other := by
          rw [(findPost_formed found).2]
          exact fun same => of_decide_eq_true away same.symm
        exact (posts.held loaded other before).clear kept
      refine PostsSound.save ?_ held
      exact allocated'

theorem CacheSound.draft (sound : CacheSound host) (caller : Caller) (pending : Option PendingDraft) (now : Int)
    (arguments : Bytes) : CacheSound (drafted host caller pending now arguments) := by
  rw [drafted]
  split
  · exact sound
  next told =>
    have saves : savesDraft host.drafts caller pending arguments := by
      rw [draft_quiet] at told
      simpa using told
    have read := sound.drafts (savesDraft_some saves)
    apply CacheSound.save
    exact ⟨sound.ready, fun _ => read, sound.free, sound.written⟩

theorem PostsSound.draft (sound : CacheSound host) (posts : PostsSound host) (caller : Caller)
    (pending : Option PendingDraft) (now : Int) (arguments : Bytes)
      (safe : Safe host (.draft caller pending now arguments)) :
    PostsSound (drafted host caller pending now arguments) := by
  rw [drafted]
  split
  · exact posts
  next told =>
    have saves : savesDraft host.drafts caller pending arguments := by
      rw [draft_quiet] at told
      simpa using told
    rcases safe saves with loaded | released | empty
    · refine PostsSound.save ?_ (posts.held loaded)
      exact (sound.ready loaded).1
    · rw [saveBoard, if_pos released]
      exact ⟨posts.filed, posts.held⟩
    · by_cases allocated : host.allocated
      · have held : ∀ id ∈ host.live, HasPost host.board id := by
          intro id inside
          rw [empty] at inside
          cases inside
        refine PostsSound.save ?_ held
        exact allocated
      · rw [saveBoard, if_pos (Bool.eq_false_iff.mpr allocated)]
        exact ⟨posts.filed, posts.held⟩

/-- Every event leaves a cache whose loaded posts came with the tables. -/
theorem unload_sound (sound : CacheSound host) (event : UnloadEvent) : CacheSound (unloadStep host event) := by
  cases event with
  | release => exact ⟨fun loaded => (nomatch loaded), sound.drafts, fun allocated => (nomatch allocated), sound.written⟩
  | acquire => exact sound.acquire
  | visit clock => exact (ensure_loaded sound clock).1
  | dashboard name clock =>
    have live := (ensure_loaded sound clock).1
    exact ⟨live.ready, live.drafts, live.free, live.written⟩
  | request caller moment request =>
    obtain ⟨live, loaded⟩ := ensure_loaded sound moment.now
    rw [unloadStep]
    split
    · exact live.answer loaded caller moment request
    · exact sound
  | mute username mutedUntil mutedBy now =>
    obtain ⟨live, loaded⟩ := ensure_loaded sound now
    exact CacheSound.save ⟨live.ready, live.drafts, live.free, live.written⟩
  | unmute username now =>
    obtain ⟨live, loaded⟩ := ensure_loaded sound now
    rw [unloadStep]
    split
    · exact CacheSound.save ⟨live.ready, live.drafts, live.free, live.written⟩
    · exact live
  | audit now => exact (ensure_loaded sound now).1.save
  | moderate id => exact sound.moderate id
  | draft caller pending now arguments => exact sound.draft caller pending now arguments

/-- An event under the condition leaves every post in the state file. -/
theorem unload_posts (sound : CacheSound host) (posts : PostsSound host) {event : UnloadEvent}
    (safe : Safe host event) : PostsSound (unloadStep host event) := by
  cases event with
  | release => exact ⟨posts.filed, fun loaded => nomatch loaded⟩
  | acquire => exact posts.acquire
  | visit => exact posts.ensure sound safe
  | dashboard =>
    have there := posts.ensure sound safe
    exact ⟨there.filed, there.held⟩
  | request caller moment request =>
    rw [unloadStep]
    split
    next reaches =>
      obtain ⟨live, loaded⟩ := ensure_loaded sound moment.now
      exact (posts.ensure sound (safe reaches)).answer live loaded caller moment request
    · exact posts
  | mute username mutedUntil mutedBy now =>
    obtain ⟨live, loaded⟩ := ensure_loaded sound now
    exact PostsSound.save (live.ready loaded).1 ((posts.ensure sound safe).held loaded)
  | unmute username now =>
    obtain ⟨live, loaded⟩ := ensure_loaded sound now
    have there := posts.ensure sound safe
    rw [unloadStep]
    split
    · exact PostsSound.save (live.ready loaded).1 (there.held loaded)
    · exact there
  | audit now =>
    obtain ⟨live, loaded⟩ := ensure_loaded sound now
    exact PostsSound.save (live.ready loaded).1 ((posts.ensure sound safe).held loaded)
  | moderate id => exact posts.moderate sound id
  | draft caller pending now arguments => exact posts.draft sound caller pending now arguments safe

end Steps

section Tables

variable {host : CachedBoard}

theorem answered_read (host : CachedBoard) (caller : Caller) (moment : Moment) (request : Request) :
    (answered host caller moment request).tablesRead = host.tablesRead := by
  rw [answered]
  split
  · exact (save_read _)
  · rfl

/-- The files stay as they are, or the tables were read. -/
theorem unload_disk (sound : CacheSound host) (event : UnloadEvent) :
    (unloadStep host event).disk = host.disk ∨ (unloadStep host event).tablesRead := by
  have read (clock : Int) : (ensureLive host clock).tablesRead := by
    obtain ⟨live, loaded⟩ := ensure_loaded sound clock
    exact (live.ready loaded).2
  cases event with
  | release => exact Or.inl rfl
  | acquire => exact Or.inl (acquire_disk host).1
  | visit clock => exact Or.inl (ensure_disk host clock).1
  | dashboard _ clock => exact Or.inl (ensure_disk host clock).1
  | request caller moment request =>
    rw [unloadStep]
    split
    · exact Or.inr ((answered_read _ caller moment request).trans (read moment.now))
    · exact Or.inl rfl
  | mute username mutedUntil mutedBy now => exact Or.inr ((save_read _).trans (read now))
  | unmute username now =>
    rw [unloadStep]
    split
    · exact Or.inr ((save_read _).trans (read now))
    · exact Or.inr (read now)
  | audit now => exact Or.inr ((save_read _).trans (read now))
  | moderate =>
    rw [unloadStep, moderated]
    split
    · exact Or.inl rfl
    next allocated =>
      split
      · exact Or.inl rfl
      next place found =>
        have loaded := found_loaded sound (Bool.eq_true_of_not_eq_false allocated) found
        exact Or.inr ((save_read _).trans (sound.ready loaded).2)
  | draft caller pending now arguments =>
    rw [unloadStep, drafted]
    split
    · exact Or.inl rfl
    next told =>
      have saves : savesDraft host.drafts caller pending arguments := by
        rw [draft_quiet] at told
        simpa using told
      exact Or.inr ((save_read _).trans (sound.drafts (savesDraft_some saves)))

theorem not_emptied {File : Type} {empty : File → Prop} (file : Option File) : ¬ Emptied empty file file := by
  rintro ⟨⟨before, here, some⟩, after, there, none'⟩
  rw [here] at there
  cases there
  exact some none'

theorem tables_kept (sound : CacheSound host) (event : UnloadEvent) : TablesKept host event := by
  rcases unload_disk sound event with same | read
  · constructor <;> intro emptied <;> rw [same] at emptied <;> exact absurd emptied (not_emptied _)
  · exact ⟨fun _ => read, fun _ => read, fun _ => read, fun _ => read, fun _ => read⟩

end Tables

abbrev StartedBoard : Type := { host : CachedBoard // Started host }

/-- In every run no file of a table is emptied before the tables were read. In every run under the condition the state
file has every post that was created and not deleted behind every event. -/
theorem unload_keeps_posts (host : StartedBoard) (events : List UnloadEvent) :
    Along unloadStep TablesKept host.val events ∧
      (Along unloadStep Safe host.val events → Along unloadStep FileComplete host.val events) := by
  obtain ⟨cache, posts⟩ := host.property.sound
  constructor
  · exact along_always CacheSound (fun _ event sound => unload_sound sound event)
      (fun _ event sound => tables_kept sound event) cache events
  · intro safe
    apply along_along (fun host => CacheSound host ∧ PostsSound host) _ _ ⟨cache, posts⟩ safe
    · exact fun _ event sound safe => ⟨unload_sound sound.1 event, unload_posts sound.1 sound.2 safe⟩
    · exact fun _ event sound safe => (unload_posts sound.1 sound.2 safe).filed

def CachedBoard.first : CachedBoard where
  board := { BbsHost.fresh with voteCapacity := 0 }
  draftSlots := []
  draftCount := 0
  allocated := true
  loaded := false
  disk := ⟨none, none, none, none, none, none⟩
  tablesRead := false
  live := []

theorem first_started : Started .first := ⟨rfl, rfl, rfl, rfl, Or.inl rfl, rfl⟩

def newsPost : UnloadEvent :=
  .request operator ⟨1767225600, true⟩ (.commit { sampleDraft 'a' with title := .print (str "News") })

/-- A post is there behind an unload. -/
theorem audited_post_kept : Along unloadStep TablesKept .first [newsPost, .release, .acquire, .audit 1767225601] ∧
    Along unloadStep FileComplete .first [newsPost, .release, .acquire, .audit 1767225601] := by
  have passes : ((run unloadStep .first [newsPost, .release, .acquire]).disk.state.all fun file =>
      file.entries.all fun entry => (normalize (loadTime 1767225601) entry).hasRequiredFields &&
        (normalize (loadTime 1767225601) entry).isSane (loadTime 1767225601)) := by decide +kernel
  have safe : Along unloadStep Safe .first [newsPost, .release, .acquire, .audit 1767225601] := by
    refine ⟨fun _ => Or.inr fun file here => (nomatch here), trivial, trivial, Or.inr ?_, trivial⟩
    intro file here entry inside _
    have there : (run unloadStep .first [newsPost, .release, .acquire]).disk.state = some file := here
    rw [there] at passes
    exact Bool.and_eq_true_iff.mp (all_eq_true.mp passes entry inside)
  have kept := unload_keeps_posts ⟨.first, first_started⟩ [newsPost, .release, .acquire, .audit 1767225601]
  exact ⟨kept.1, kept.2 safe⟩

def draftRun : List UnloadEvent :=
  [newsPost, .draft writer (some (samplePending (str "Plan"))) 1767225601 (str "save"), .release, .acquire,
    .draft writer none 1767225602 (str "delete 0")]

/-- The draft is deleted while the slots are empty, and the post is gone from the file. -/
theorem draft_deletes_post : ¬ Along unloadStep FileComplete .first draftRun := by
  rintro ⟨-, -, -, -, complete, -⟩
  have created : 1 ∈ (run unloadStep .first draftRun).live := by decide +kernel
  have emptied : ((run unloadStep .first draftRun).disk.state.all fun file => file.entries.isEmpty) = true := by
    decide +kernel
  obtain ⟨file, here, entry, inside, -⟩ := complete 1 created
  have there : (run unloadStep .first draftRun).disk.state = some file := here
  rw [there, Option.all_some, List.isEmpty_iff] at emptied
  rw [emptied] at inside
  cases inside

end SshChatter.Bbs
