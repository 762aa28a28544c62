import SshChatter.Lib.SlotCompaction
import SshChatter.UserData.Record

namespace SshChatter.Bbs
open CString SlotTable
open UserData (stripColumnReset)

abbrev maxPosts : Nat := 256

abbrev maxComments : Nat := 64

abbrev maxTags : Nat := 4

abbrev maxRateLimits : Nat := 128

abbrev maxNotifications : Nat := 256

abbrev maxReports : Nat := 256

abbrev maxMutes : Nat := 256

abbrev idSaneMax : Nat := 2 ^ 40

abbrev UserName : Type := CText 255

/-- This is `bbs_comment_t`. -/
structure Comment where
  author : UserName
  text : CText 511
  createdAt : Int
  editedAt : Int
  upvotes : Int
  downvotes : Int
  deriving DecidableEq

abbrev CommentArray : Type := Fin maxComments → Comment

/-- The fields of `bbs_post_t` that lie in the slot itself. -/
structure PostRecord where
  id : Nat
  boardId : UInt16
  modFlags : UInt8
  author : UserName
  title : CText 511
  body : CText 40959
  tags : Fin maxTags → CText 23
  tagCount : Nat
  createdAt : Int
  bumpedAt : Int
  upvotes : Int
  downvotes : Int
  commentCount : Nat

/-- This is `bbs_post_t`. The slot refers to its comments. -/
structure Post extends PostRecord where
  inUse : Bool
  comments : Fin maxPosts

/-- This is `bbs_vote_t`. -/
structure Vote where
  targetPostId : Nat
  targetCommentIdx : Int
  voter : UserName
  voteType : Int
  createdAt : Int
  deriving DecidableEq

/-- This is `bbs_rate_limit_entry_t`. -/
structure RateLimit where
  username : UserName
  lastCommentAt : Int
  lastPostAt : Int
  deriving DecidableEq

/-- This is `bbs_notification_t`. -/
structure Notification where
  kind : Int
  toName : UserName
  fromName : UserName
  postId : Nat
  commentIdx : Int
  createdAt : Int
  deriving DecidableEq

/-- This is `bbs_report_t`. -/
structure Report where
  postId : Nat
  reporter : UserName
  reason : CText 127
  status : Int
  createdAt : Int
  deriving DecidableEq

structure Mute where
  username : UserName
  mutedUntil : Int
  mutedBy : UserName
  createdAt : Int
  deriving DecidableEq

/-- The fields of the host that the board needs, with the comment arrays of the slots. The last field tells which
users have a stored record. -/
structure BbsHost where
  posts : Fin maxPosts → Post
  arrays : Fin maxPosts → CommentArray
  postCount : Nat
  nextId : Nat
  votes : List Vote
  voteCapacity : Nat
  rateLimits : List RateLimit
  notifications : List Notification
  reports : List Report
  mutes : List Mute
  commentEditEnabled : Bool
  commentDeleteEnabled : Bool
  knownUser : Bytes → Bool

def hasRequiredFields (post : Post) : Bool :=
  post.inUse ∧ post.id ≠ 0 ∧ post.author.text ≠ [] ∧ post.title.text ≠ []

/-- This is `host_find_bbs_post_locked`. -/
def findPost (host : BbsHost) (id : Nat) : Option (Fin maxPosts) :=
  if id = 0 ∨ idSaneMax < id then none
  else firstWith (fun post => hasRequiredFields post && post.id == id) host.posts

def BbsHost.setPost (host : BbsHost) (place : Fin maxPosts) (change : Post → Post) : BbsHost :=
  { host with posts := Function.update host.posts place (change (host.posts place)) }

def BbsHost.setComments (host : BbsHost) (place : Fin maxPosts) (change : CommentArray → CommentArray) : BbsHost :=
  { host with
    arrays :=
      Function.update host.arrays (host.posts place).comments (change (host.arrays (host.posts place).comments)) }

/-- The comment is emptied as `host_allocate_bbs_post_locked` does it. -/
def Comment.emptied (comment : Comment) : Comment :=
  { comment with author := .zero, text := .zero, createdAt := 0 }

/-- The comment is emptied as `host_reset_bbs_post` does it. -/
def Comment.reset (comment : Comment) : Comment :=
  { comment with author := .zero, text := .zero, createdAt := 0, editedAt := 0 }

/-- The slot that `host_allocate_bbs_post_locked` fills. -/
def Post.allocated (post : Post) (id : Nat) (now : Int) : Post :=
  { post with
    inUse := true, id := id, tagCount := 0, commentCount := 0, createdAt := now, bumpedAt := now
    title := .zero, body := .zero, author := .zero, tags := fun _ => .zero }

/-- The slot that `host_reset_bbs_post` empties. -/
def Post.reset (post : Post) : Post :=
  { post with
    inUse := false, id := 0, modFlags := 0, author := .zero, title := .zero, body := .zero, tagCount := 0
    createdAt := 0, bumpedAt := 0, commentCount := 0, tags := fun _ => .zero }

def BbsHost.allocateAt (host : BbsHost) (place : Fin maxPosts) (now : Int) : BbsHost :=
  let filled := (host.setPost place (·.allocated host.nextId now)).setComments place fun comments index =>
    (comments index).emptied
  { filled with
    nextId := (host.nextId + 1) % 2 ^ 64
    postCount := if host.postCount < maxPosts then host.postCount + 1 else host.postCount }

/-- This is `host_allocate_bbs_post_locked`. -/
def allocatePost (host : BbsHost) (now : Int) : Option (Fin maxPosts × BbsHost) :=
  (firstFree Post.inUse host.posts).map fun place => (place, host.allocateAt place now)

/-- This is `host_reset_bbs_post`. -/
def resetPost (host : BbsHost) (place : Fin maxPosts) : BbsHost :=
  (host.setComments place fun comments index => (comments index).reset).setPost place Post.reset

/-- The copy loop of `host_clear_bbs_post_locked`. -/
def compactPosts (host : BbsHost) : BbsHost := { host with posts := (compact Post.inUse host.posts).1 }

/-- The loop of `host_clear_bbs_post_locked` over the slots from the write position on. -/
def resetTail (host : BbsHost) (count : Nat) : BbsHost :=
  ((List.finRange maxPosts).filter fun place => count ≤ place.val).foldl resetPost host

/-- This is `host_clear_bbs_post_locked`. -/
def clearPost (host : BbsHost) (place : Fin maxPosts) : BbsHost :=
  let emptied := resetPost host place
  let count := (compact Post.inUse emptied.posts).2
  { resetTail (compactPosts emptied) count with postCount := count }

/-- This is `host_bbs_rate_limit_find_locked`. -/
def findRateLimit (host : BbsHost) (username : UserName) : Option RateLimit :=
  host.rateLimits.find? fun limit => limit.username == username

/-- The last time that an entry counts. -/
def RateLimit.stamp (limit : RateLimit) : Int :=
  if limit.lastPostAt > limit.lastCommentAt then limit.lastPostAt else limit.lastCommentAt

/-- The slot that `host_bbs_rate_limit_ensure_locked` evicts from a full table. -/
def oldestRateLimit (limits : List RateLimit) : Nat :=
  ((limits.zipIdx).foldl (fun best entry => if entry.1.stamp < best.1 then (entry.1.stamp, entry.2) else best)
    ((-1 : Int), 0)).2

def ensureRateLimit (limits : List RateLimit) (username : UserName) (change : RateLimit → RateLimit) : List RateLimit :=
  if username.text = [] then limits
  else
    match limits.findIdx? fun limit => limit.username == username with
    | some slot => limits.modify slot change
    | none =>
      if limits.length < maxRateLimits then limits ++ [change ⟨username, 0, 0⟩]
      else limits.set (oldestRateLimit limits) (change ⟨username, 0, 0⟩)

/-- This is `host_bbs_notification_enqueue_locked`. -/
def enqueueNotification (queue : List Notification) (notification : Notification) : List Notification :=
  if notification.toName.text = [] ∨ notification.fromName.text = [] then queue
  else if maxNotifications ≤ queue.length then queue.drop 1 ++ [notification]
  else queue ++ [notification]

/-- This is `host_bbs_notification_drop_for_post_locked`. -/
def dropNotifications (queue : List Notification) (postId : Nat) : List Notification :=
  queue.filter fun notification => notification.postId ≠ postId

def isNameChar (c : UInt8) : Bool := UserData.isAlnum c ∨ c = byte '_'

def markedNames : Bytes → List Bytes
  | [] => []
  | c :: text =>
    let name := (text.take 255).takeWhile isNameChar
    if c = byte '@' ∧ name ≠ [] then name :: markedNames text else markedNames text

def scanMentions (text : Bytes) (maxNames : Nat) : List Bytes :=
  (markedNames text).foldl
    (fun found name => if maxNames ≤ found.length ∨ name ∈ found then found else found ++ [name]) []

def notifyMentions (host : BbsHost) (text : Bytes) (actor : UserName) (postId : Nat) (commentIdx now : Int) : BbsHost :=
  { host with
    notifications := (scanMentions text 8).foldl (fun queue name =>
      if name = actor.text ∨ host.knownUser name = false then queue
      else enqueueNotification queue ⟨1, .print name, actor, postId, commentIdx, now⟩) host.notifications }

def reportVictim (reports : List Report) : Nat := (reports.findIdx? fun report => report.status ≠ 0).getD 0

/-- This is `host_bbs_report_enqueue_locked`. -/
def enqueueReport (reports : List Report) (postId : Nat) (reporter : UserName) (reason : CText 127) (now : Int) :
    Option (List Report) :=
  if reporter.text = [] then none
  else if reports.any fun report =>
    report.postId == postId && report.status == 0 && report.reporter == reporter then none
  else
    let kept := if maxReports ≤ reports.length then reports.eraseIdx (reportVictim reports) else reports
    some (kept ++ [⟨postId, reporter, reason, 0, now⟩])

/-- This is `host_bbs_reports_resolve_for_post_locked`. -/
def resolveReports (reports : List Report) (postId : Nat) : List Report :=
  reports.map fun report => if report.postId = postId ∧ report.status = 0 then { report with status := 1 } else report

def muteActive (host : BbsHost) (username : UserName) (now : Int) : Bool :=
  match host.mutes.find? fun mute => mute.username == username with
  | none => false
  | some mute => mute.mutedUntil = 0 ∨ now < mute.mutedUntil

/-- This is `host_bbs_mute_set_locked`. -/
def setMute (mutes : List Mute) (username : UserName) (mutedUntil : Int) (mutedBy : UserName) (now : Int) : List Mute :=
  if username.text = [] then mutes
  else
    match mutes.findIdx? fun mute => mute.username == username with
    | some slot => mutes.set slot ⟨username, mutedUntil, mutedBy, now⟩
    | none => (if maxMutes ≤ mutes.length then mutes.drop 1 else mutes) ++ [⟨username, mutedUntil, mutedBy, now⟩]

/-- This is `host_bbs_mute_remove_locked`. -/
def removeMute (mutes : List Mute) (username : UserName) : List Mute :=
  mutes.eraseP fun mute => mute.username == username

end SshChatter.Bbs
