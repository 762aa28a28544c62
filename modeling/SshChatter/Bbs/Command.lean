import SshChatter.Bbs.Board

namespace SshChatter.Bbs
open CString SlotTable
open UserData (stripColumnReset)

/-- What the board reads of a session. The viewed post is zero when no view is active. -/
structure Caller where
  name : UserName
  isOperator : Bool
  isLanOperator : Bool
  boardId : UInt16
  viewing : Nat

def Caller.privileged (caller : Caller) : Bool := caller.isOperator || caller.isLanOperator

/-- The clock, and the verdict of the security check on the text of a request. -/
structure Moment where
  now : Int
  clean : Bool

/-- What a session is told. -/
inductive Answer where
  | line (text : Bytes)
  | usage (command arguments : Bytes)
  | silent
  deriving DecidableEq

/-- A request is refused, or it is done with a notice. -/
inductive Outcome where
  | refused (answer : Answer)
  | done (notice : Bytes)
  deriving DecidableEq

def Outcome.isDone : Outcome → Bool
  | .refused _ => false
  | .done _ => true

/-- The pending post of a session. A post that is edited has its identifier. -/
structure Draft where
  editing : Option Nat
  title : CText 511
  body : CText 40959
  tags : Fin maxTags → CText 23
  tagCount : Nat

def strip {room : Nat} (text : CText room) : CText room := .print (stripColumnReset text.text)

def muteBlocks (host : BbsHost) (caller : Caller) (now : Int) : Bool :=
  if caller.privileged then false else muteActive host caller.name now

def postsTooQuickly (host : BbsHost) (caller : Caller) (now : Int) : Bool :=
  match findRateLimit host caller.name with
  | none => false
  | some limit => limit.lastPostAt ≠ 0 ∧ now - limit.lastPostAt < 30

def commentsTooQuickly (host : BbsHost) (caller : Caller) (now : Int) : Bool :=
  match findRateLimit host caller.name with
  | none => false
  | some limit => limit.lastCommentAt ≠ 0 ∧ now - limit.lastCommentAt < 3

def limitCaller (host : BbsHost) (caller : Caller) (change : RateLimit → RateLimit) : BbsHost :=
  if caller.privileged then host else { host with rateLimits := ensureRateLimit host.rateLimits caller.name change }

def noSuchPost : Bytes := str "No post exists with that identifier."

def Post.edited (draft : Draft) (now : Int) (post : Post) : Post :=
  { post with
    title := strip draft.title, body := strip draft.body, tagCount := draft.tagCount
    tags := fun tag => if tag.val < draft.tagCount then strip (draft.tags tag) else post.tags tag
    bumpedAt := now }

def Post.written (caller : Caller) (draft : Draft) (post : Post) : Post :=
  { post with
    boardId := caller.boardId, author := strip caller.name, title := strip draft.title, body := strip draft.body
    tagCount := draft.tagCount
    tags := fun tag => if tag.val < draft.tagCount then strip (draft.tags tag) else post.tags tag }

/-- The branch of `session_bbs_commit_pending_post` for an edit. -/
def commitEdit (host : BbsHost) (caller : Caller) (now : Int) (draft : Draft) (id : Nat) : BbsHost × Outcome :=
  match findPost host id with
  | none => (host, .refused (.line (str "No post exists with that identifier anymore.")))
  | some place =>
    if (host.posts place).author = caller.name ∨ caller.privileged then
      (host.setPost place (·.edited draft now), .done (str "Post updated."))
    else (host, .refused (.line (str "Only the author or an operator may edit this post.")))

def finishPost (host : BbsHost) (place : Fin maxPosts) (caller : Caller) (now : Int) (draft : Draft) : BbsHost :=
  let written := host.setPost place (·.written caller draft)
  let limited := limitCaller written caller fun limit => { limit with lastPostAt := now }
  let post := limited.posts place
  let named := notifyMentions limited post.title.text post.author post.id (-1) now
  notifyMentions named post.body.text post.author post.id (-1) now

/-- The branch of `session_bbs_commit_pending_post` for a new post. The slot is taken before the caller is checked. -/
def commitNew (host : BbsHost) (caller : Caller) (now : Int) (draft : Draft) : BbsHost × Outcome :=
  match allocatePost host now with
  | none => (host, .refused (.line (str "The bulletin board is full right now.")))
  | some (place, taken) =>
    if muteBlocks taken caller now then
      (taken, .refused (.line (str "You are muted and cannot post right now.")))
    else if caller.privileged = false ∧ postsTooQuickly taken caller now then
      (taken, .refused (.line (str "You are posting too quickly. Try again in a moment.")))
    else (finishPost taken place caller now draft, .done (str "Post created."))

def commitPendingPost (host : BbsHost) (caller : Caller) (moment : Moment) (draft : Draft) : BbsHost × Outcome :=
  if draft.body.text = [] then (host, .refused (.line (str "Post body was empty. Draft discarded.")))
  else if moment.clean = false then (host, .refused .silent)
  else
    match draft.editing with
    | some id => commitEdit host caller moment.now draft id
    | none => commitNew host caller moment.now draft

/-- The slot that `session_bbs_delete` empties. -/
def deletable (host : BbsHost) (caller : Caller) (id : Nat) : Option (Fin maxPosts) :=
  if id = 0 then none
  else (firstWith (fun post => post.id == id) host.posts).filter fun place =>
    (host.posts place).author.text = [] ∨ (host.posts place).author = caller.name ∨ caller.privileged

/-- This is `session_bbs_delete`. -/
def deletePost (host : BbsHost) (caller : Caller) (id : Nat) : BbsHost × Outcome :=
  match deletable host caller id with
  | some place =>
    let cleared := clearPost host place
    ({ cleared with notifications := dropNotifications cleared.notifications id }, .done (str "Post deleted."))
  | none =>
    if id = 0 then (host, .refused (.line (str "Invalid post identifier.")))
    else
      match firstWith (fun post => post.id == id) host.posts with
      | none => (host, .refused (.line noSuchPost))
      | some _ => (host, .refused (.line (str "Only the author or an operator may delete this post.")))

def regenPost (host : BbsHost) (now : Int) (id : Nat) : BbsHost × Outcome :=
  if id = 0 then (host, .refused .silent)
  else
    match findPost host id with
    | none => (host, .refused (.line noSuchPost))
    | some place =>
      (host.setPost place fun post => { post with bumpedAt := now }, .done (str "Post bumped to the top."))

/-- The flags that an operator sets. -/
inductive ModFlag where
  | hidden
  | pinned
  deriving DecidableEq

def ModFlag.bit : ModFlag → UInt8
  | .hidden => 1
  | .pinned => 2

def ModFlag.notice : ModFlag → Bool → Bytes
  | .hidden, true => str "Post hidden."
  | .hidden, false => str "Post unhidden."
  | .pinned, true => str "Post pinned."
  | .pinned, false => str "Post unpinned."

def setModFlag (host : BbsHost) (caller : Caller) (id : Nat) (flag : ModFlag) (set : Bool) : BbsHost × Outcome :=
  if caller.privileged = false then (host, .refused (.line (str "Only operators may use this command.")))
  else if id = 0 then (host, .refused (.line (str "Invalid post identifier.")))
  else
    match findPost host id with
    | none => (host, .refused (.line noSuchPost))
    | some place =>
      let flagged := host.setPost place fun post =>
        { post with modFlags := if set then post.modFlags ||| flag.bit else post.modFlags &&& ~~~flag.bit }
      let resolved := if flag = .hidden then { flagged with reports := resolveReports flagged.reports id } else flagged
      (resolved, .done (flag.notice set))

/-- This is `strtoull` in base ten with the rest of the text. It has no result when no digit is read or the number
does not fit. -/
def readUnsigned (text : Bytes) : Option (Nat × Bytes) :=
  let trimmed := text.dropWhile isSpace
  let negative := trimmed.head? = some (byte '-')
  let digits := if negative ∨ trimmed.head? = some (byte '+') then trimmed.drop 1 else trimmed
  if digits.takeWhile isDigit = [] ∨ 2 ^ 64 ≤ digitsValue (digits.takeWhile isDigit) then none
  else
    let value := digitsValue (digits.takeWhile isDigit)
    some (if negative then (2 ^ 64 - value) % 2 ^ 64 else value, digits.dropWhile isDigit)

/-- This is `strtol` in base ten with the rest of the text. It has no result when the number does not fit, and it
stays where it is when no digit is read. -/
def readSigned (text : Bytes) : Option (Int × Bytes) :=
  let trimmed := text.dropWhile isSpace
  let negative := trimmed.head? = some (byte '-')
  let digits := if negative ∨ trimmed.head? = some (byte '+') then trimmed.drop 1 else trimmed
  let value : Int := digitsValue (digits.takeWhile isDigit)
  if digits.takeWhile isDigit = [] then some (0, text)
  else if negative then
    if 2 ^ 63 < value then none else some (-value, digits.dropWhile isDigit)
  else if 2 ^ 63 ≤ value then none
  else some (value, digits.dropWhile isDigit)

/-- The identifier of a post and the position of a comment at the start of a text. -/
def parseTarget (text : Bytes) : Option (Nat × Nat × Bytes) :=
  match readUnsigned text with
  | none => none
  | some (id, rest) =>
    if rest.head? ≠ some 32 then none
    else
      match readSigned rest with
      | none => none
      | some (index, behind) => if index < 0 ∨ 2 ^ 31 - 1 < index then none else some (id, index.toNat, behind)

/-- The first check of the arguments of `session_bbs_add_comment`. -/
def parseComment (caller : Caller) (arguments : Bytes) : Option (Nat × Bytes) :=
  let working := trimSpace (arguments.take 4095)
  if working = [] then none
  else
    match strchr (byte '|') working with
    | none => if caller.viewing ≠ 0 then some (caller.viewing, working) else none
    | some (before, behind) =>
      if trimSpace before = [] ∨ trimSpace behind = [] then none
      else some ((strtoulField (trimSpace before)).getD 0, trimSpace behind)

/-- The direction of `session_bbs_cmtvote`. Whatever starts with one of the two words is taken. -/
def parseDirection (text : Bytes) : Option Int :=
  let word := text.dropWhile (· = 32)
  if text.head? ≠ some 32 then none
  else if (word.take 2).map toLower = str "up" ∨ (word.take 4).map toLower = str "down" then
    some (if (word.take 7).map toLower = str "up" then 1 else -1)
  else none

def Comment.written (caller : Caller) (text : Bytes) (now : Int) (comment : Comment) : Comment :=
  { comment with author := strip caller.name, text := strip (.print text), createdAt := now, editedAt := 0 }

def changeAt (index : Nat) (change : Comment → Comment) (comments : CommentArray) : CommentArray := fun other =>
  if other.val = index then change (comments other) else comments other

/-- The part of `session_bbs_add_comment` behind the checks. -/
def finishComment (host : BbsHost) (place : Fin maxPosts) (caller : Caller) (now : Int) (text : Bytes) : BbsHost :=
  let index := (host.posts place).commentCount
  let written := (host.setComments place (changeAt index (·.written caller text now))).setPost place fun post =>
    { post with commentCount := index + 1, bumpedAt := now }
  let limited := limitCaller written caller fun limit => { limit with lastCommentAt := now }
  let post := limited.posts place
  let author := strip caller.name
  let replied :=
    if post.author.text ≠ [] ∧ post.author ≠ author then
      { limited with
        notifications := enqueueNotification limited.notifications ⟨0, post.author, author, post.id, index, now⟩ }
    else limited
  notifyMentions replied (strip (.print text : CText 511)).text author post.id index now

def addComment (host : BbsHost) (caller : Caller) (moment : Moment) (arguments : Bytes) : BbsHost × Outcome :=
  match parseComment caller arguments with
  | none => (host, .refused (.usage (str "comment") (str "<id>|<text>")))
  | some (id, text) =>
    if id = 0 then (host, .refused (.line (str "Invalid post identifier.")))
    else if moment.clean = false then (host, .refused .silent)
    else
      match findPost host id with
      | none => (host, .refused (.line noSuchPost))
      | some place =>
        if maxComments ≤ (host.posts place).commentCount then
          (host, .refused (.line (str "This post has reached the comment limit.")))
        else if muteBlocks host caller moment.now then
          (host, .refused (.line (str "You are muted and cannot post right now.")))
        else if caller.privileged = false ∧ commentsTooQuickly host caller moment.now then
          (host, .refused (.line (str "You are commenting too quickly. Try again in a moment.")))
        else (finishComment host place caller moment.now text, .done (str "Comment added."))

def mayChange (caller : Caller) (comment : Comment) : Bool :=
  comment.author.text = [] ∨ comment.author = caller.name ∨ caller.privileged

def commentAt (host : BbsHost) (id index : Nat) : Option (Fin maxPosts × Fin maxComments) :=
  match findPost host id with
  | none => none
  | some place =>
    if inside : index < maxComments then
      if index < (host.posts place).commentCount then some (place, ⟨index, inside⟩) else none
    else none

def invalidComment : Answer := .line (str "Invalid post or comment index.")

/-- This is `session_bbs_cmtedit`. -/
def editComment (host : BbsHost) (caller : Caller) (moment : Moment) (arguments : Bytes) : BbsHost × Outcome :=
  let usage : Answer := .usage (str "cmtedit") (str "<id> <idx> <text>")
  if arguments = [] then (host, .refused usage)
  else if host.commentEditEnabled = false then (host, .refused (.line (str "Comment editing is disabled.")))
  else
    match parseTarget arguments with
    | none => (host, .refused usage)
    | some (id, index, rest) =>
      let text := trimSpace ((rest.dropWhile (· = 32)).take 511)
      if rest.head? ≠ some 32 ∨ text = [] then (host, .refused usage)
      else if moment.clean = false then (host, .refused .silent)
      else
        match commentAt host id index with
        | none => (host, .refused invalidComment)
        | some (place, position) =>
          if mayChange caller (host.arrays (host.posts place).comments position) then
            (host.setComments place (changeAt index fun comment =>
              { comment with text := strip (.print text), editedAt := moment.now }), .done (str "Comment updated."))
          else (host, .refused (.line (str "Only the author or an operator may edit this comment.")))

def shiftComments (removed count : Nat) (comments : CommentArray) : CommentArray := fun index =>
  if later : index.val + 1 < maxComments then
    if removed ≤ index.val ∧ index.val + 1 < count then comments ⟨index.val + 1, later⟩ else comments index
  else comments index

/-- The loop of `session_bbs_cmtdel` over the votes. -/
def dropCommentVotes (votes : List Vote) (id removed : Nat) : List Vote :=
  votes.filterMap fun vote =>
    if vote.targetPostId = id then
      if vote.targetCommentIdx = (removed : Int) then none
      else if (removed : Int) < vote.targetCommentIdx then
        some { vote with targetCommentIdx := vote.targetCommentIdx - 1 }
      else some vote
    else some vote

/-- This is `session_bbs_cmtdel`. -/
def deleteComment (host : BbsHost) (caller : Caller) (arguments : Bytes) : BbsHost × Outcome :=
  let usage : Answer := .usage (str "cmtdel") (str "<id> <idx>")
  if arguments = [] then (host, .refused usage)
  else if host.commentDeleteEnabled = false then (host, .refused (.line (str "Comment deletion is disabled.")))
  else
    match parseTarget arguments with
    | none => (host, .refused usage)
    | some (id, index, rest) =>
      if rest ≠ [] ∧ rest.head? ≠ some 32 then (host, .refused usage)
      else
        match commentAt host id index with
        | none => (host, .refused invalidComment)
        | some (place, position) =>
          if mayChange caller (host.arrays (host.posts place).comments position) then
            let count := (host.posts place).commentCount
            let shifted := (host.setComments place (shiftComments index count)).setPost place fun post =>
              { post with commentCount := count - 1 }
            ({ shifted with votes := dropCommentVotes shifted.votes id index }, .done (str "Comment deleted."))
          else (host, .refused (.line (str "Only the author or an operator may delete this comment.")))

def findVote (votes : List Vote) (id : Nat) (index : Int) (voter : UserName) : Option Nat :=
  votes.findIdx? fun vote => vote.targetPostId == id && vote.targetCommentIdx == index && vote.voter == voter

def addVote (host : BbsHost) (vote : Vote) : List Vote :=
  if host.votes.length < host.voteCapacity then host.votes ++ [vote] else host.votes

def Post.tally (direction amount : Int) (post : Post) : Post :=
  if direction = 1 then { post with upvotes := post.upvotes + amount }
  else { post with downvotes := post.downvotes + amount }

def Comment.tally (direction amount : Int) (comment : Comment) : Comment :=
  if direction = 1 then { comment with upvotes := comment.upvotes + amount }
  else { comment with downvotes := comment.downvotes + amount }

def votePost (direction : Int) (already notice : Bytes) (host : BbsHost) (caller : Caller) (now : Int) (id : Nat) :
    BbsHost × Outcome :=
  if id = 0 then (host, .refused .silent)
  else
    match findPost host id with
    | none => (host, .refused (.line noSuchPost))
    | some place =>
      match findVote host.votes id (-1) caller.name with
      | some slot =>
        if (host.votes[slot]?).map Vote.voteType = some direction then (host, .refused (.line already))
        else
          ({ host.setPost place fun post => (post.tally (-direction) (-1)).tally direction 1 with
            votes := host.votes.modify slot fun vote => { vote with voteType := direction } }, .done notice)
      | none =>
        ({ host.setPost place (·.tally direction 1) with
          votes := addVote host ⟨id, -1, caller.name, direction, now⟩ }, .done notice)

def upvote : BbsHost → Caller → Int → Nat → BbsHost × Outcome :=
  votePost 1 (str "You already upvoted this post.") (str "Upvoted.")

def downvote : BbsHost → Caller → Int → Nat → BbsHost × Outcome :=
  votePost (-1) (str "You already downvoted this post.") (str "Downvoted.")

/-- This is `session_bbs_cmtvote`. -/
def voteComment (host : BbsHost) (caller : Caller) (now : Int) (arguments : Bytes) : BbsHost × Outcome :=
  let usage : Answer := .line (str "Usage: /bbs cmtvote <post_id> <comment_idx> [up|down]")
  match parseTarget arguments with
  | none => (host, .refused usage)
  | some (id, index, rest) =>
    match parseDirection rest with
    | none => (host, .refused usage)
    | some direction =>
      let notice := if direction = 1 then str "Comment upvoted." else str "Comment downvoted."
      match commentAt host id index with
      | none => (host, .refused invalidComment)
      | some (place, _) =>
        match findVote host.votes id index caller.name with
        | some slot =>
          let before := ((host.votes[slot]?).map Vote.voteType).getD 0
          if before = direction then (host, .refused (.line (str "You already voted this comment.")))
          else
            ({ host.setComments place (changeAt index fun comment =>
                (comment.tally before (-1)).tally direction 1) with
              votes := host.votes.modify slot fun vote => { vote with voteType := direction } }, .done notice)
        | none =>
          ({ host.setComments place (changeAt index (·.tally direction 1)) with
            votes := addVote host ⟨id, index, caller.name, direction, now⟩ }, .done notice)

/-- This is `session_bbs_report`. -/
def reportPost (host : BbsHost) (caller : Caller) (moment : Moment) (arguments : Bytes) : BbsHost × Outcome :=
  let usage : Answer := .usage (str "report") (str "<id> [reason]")
  match readUnsigned arguments with
  | none => (host, .refused usage)
  | some (id, rest) =>
    if rest ≠ [] ∧ rest.head? ≠ some 32 then (host, .refused usage)
    else
      let reason := trimSpace ((rest.dropWhile (· = 32)).take 127)
      if reason ≠ [] ∧ moment.clean = false then (host, .refused .silent)
      else
        match findPost host id with
        | none => (host, .refused (.line noSuchPost))
        | some _ =>
          match enqueueReport host.reports id caller.name (.print reason) moment.now with
          | none => (host, .refused (.line (str "You have already reported this post.")))
          | some reports => ({ host with reports := reports }, .done (str "Report submitted. Thank you."))

/-- The requests of a session that change the board. -/
inductive Request where
  | commit (draft : Draft)
  | comment (arguments : Bytes)
  | editComment (arguments : Bytes)
  | deleteComment (arguments : Bytes)
  | upvote (id : Nat)
  | downvote (id : Nat)
  | voteComment (arguments : Bytes)
  | report (arguments : Bytes)
  | delete (id : Nat)
  | regen (id : Nat)
  | setModFlag (id : Nat) (flag : ModFlag) (set : Bool)

def serve (host : BbsHost) (caller : Caller) (moment : Moment) : Request → BbsHost × Outcome
  | .commit draft => commitPendingPost host caller moment draft
  | .comment arguments => addComment host caller moment arguments
  | .editComment arguments => editComment host caller moment arguments
  | .deleteComment arguments => deleteComment host caller arguments
  | .upvote id => upvote host caller moment.now id
  | .downvote id => downvote host caller moment.now id
  | .voteComment arguments => voteComment host caller moment.now arguments
  | .report arguments => reportPost host caller moment arguments
  | .delete id => deletePost host caller id
  | .regen id => regenPost host moment.now id
  | .setModFlag id flag set => setModFlag host caller id flag set

/-- What changes the board: a request, the watchdog that removes a post, and the mutes. -/
inductive BoardEvent where
  | request (caller : Caller) (moment : Moment) (request : Request)
  | moderate (id : Nat)
  | mute (username : UserName) (mutedUntil : Int) (mutedBy : UserName) (now : Int)
  | unmute (username : UserName)

def boardStep (host : BbsHost) : BoardEvent → BbsHost
  | .request caller moment request => (serve host caller moment request).1
  | .moderate id =>
    match findPost host id with
    | none => host
    | some place => clearPost host place
  | .mute username mutedUntil mutedBy now =>
    { host with mutes := setMute host.mutes username mutedUntil mutedBy now }
  | .unmute username => { host with mutes := removeMute host.mutes username }

end SshChatter.Bbs
