import SshChatter.Bbs.Refusal
import SshChatter.Bbs.VoteTable

namespace SshChatter.Bbs
open CString EventRun SlotTable Function List

def Post.votesFor (direction : Int) (post : Post) : Int := if direction = 1 then post.upvotes else post.downvotes

def Comment.votesFor (direction : Int) (comment : Comment) : Int :=
  if direction = 1 then comment.upvotes else comment.downvotes

/-- The tallies are the numbers of recorded votes. The identifiers are told apart and grow, and the votes on a post in
use are about comments that it has. -/
structure TallySound (host : BbsHost) : Prop where
  votes : VotesSound host.votes
  posts : ∀ place, (host.posts place).inUse → ∀ direction, direction = 1 ∨ direction = -1 →
    (host.posts place).votesFor direction = countVotes host.votes (host.posts place).id (-1) direction
  comments : ∀ place, (host.posts place).inUse → ∀ index : Fin maxComments,
    index.val < (host.posts place).commentCount → ∀ direction, direction = 1 ∨ direction = -1 →
      (host.arrays (refs host place) index).votesFor direction =
        countVotes host.votes (host.posts place).id index.val direction
  apart : ∀ place other, (host.posts place).inUse → (host.posts other).inUse →
    (host.posts place).id = (host.posts other).id → place = other
  ids : ∀ place, (host.posts place).inUse → (host.posts place).id < host.nextId
  voteIds : ∀ vote ∈ host.votes, vote.targetPostId < host.nextId
  within : ∀ vote ∈ host.votes, ∀ place, (host.posts place).inUse →
    (host.posts place).id = vote.targetPostId → vote.targetCommentIdx < (host.posts place).commentCount
  room : ∀ place, (host.posts place).inUse → (host.posts place).commentCount ≤ maxComments

def typedDirection (text : Bytes) : Int := if ((text.dropWhile (· = 32)).take 2).map toLower = str "up" then 1 else -1

def typedVote : Request → Option (Nat × Int × Int)
  | .upvote id => some (id, -1, 1)
  | .downvote id => some (id, -1, -1)
  | .voteComment arguments =>
    (parseTarget arguments).map fun target => (target.1, target.2.1, typedDirection target.2.2)
  | _ => none

/-- A slot starts without votes. -/
def Post.Unvoted (post : Post) : Prop := post.upvotes = 0 ∧ post.downvotes = 0

def Comment.Unvoted (comment : Comment) : Prop := comment.upvotes = 0 ∧ comment.downvotes = 0

def share (votes : List Vote) (id : Nat) (index : Int) (voter : UserName) : Int :=
  ((votes.filter fun vote => vote.key = (id, index, voter)).map Vote.voteType).sum

/-- The tallies are right after an event and no user changes a score by more than one, a new post and a new comment
start at zero, and a vote that is cast is recorded as it was typed. -/
structure VotesKept (host : BbsHost) (event : BoardEvent) : Prop where
  sound : TallySound (boardStep host event)
  limited : ∀ id index voter, |share (boardStep host event).votes id index voter| ≤ 1
  created : ∀ caller moment draft, event = .request caller moment (.commit draft) → ∀ place,
    (host.posts place).inUse = false → ((boardStep host event).posts place).inUse →
      ((boardStep host event).posts place).Unvoted
  commented : ∀ place, commented host event = some place → ∀ index : Fin maxComments,
    index.val = (host.posts place).commentCount → index.val < ((boardStep host event).posts place).commentCount →
      ((boardStep host event).arrays (refs (boardStep host event) place) index).Unvoted
  recorded : ∀ caller moment request, event = .request caller moment request →
    (serve host caller moment request).2.isDone → ∀ id index direction, typedVote request =
      some (id, index, direction) →
      ∃ vote ∈ (boardStep host event).votes, vote.key = (id, index, caller.name) ∧ vote.voteType = direction

def Unshared (host : BbsHost) (place : Fin maxPosts) (index : Nat) : Prop :=
  ∀ other, other ≠ place → (host.posts other).inUse → refs host other = refs host place →
    (host.posts other).commentCount ≤ index

/-- What a request votes on can be recorded: a slot or a position that is taken anew has no votes from before, a new
vote has room in the table, the direction is read as it was typed, and no other post shares the comment. -/
def VotesFit (host : BbsHost) : BoardEvent → Prop
  | .request _ moment (.commit draft) => draft.body.text ≠ [] → moment.clean → draft.editing = none →
      ∀ place, firstFree Post.inUse host.posts = some place → (host.posts place).Unvoted ∧ host.nextId + 1 < 2 ^ 64
  | .request caller moment (.comment arguments) => moment.clean → ¬ CommentHeld host caller moment.now →
      ∀ place, commented host (.request caller moment (.comment arguments)) = some place →
        ∀ index : Fin maxComments, index.val = (host.posts place).commentCount →
          (host.arrays (refs host place) index).Unvoted
  | .request caller _ (.upvote id) => findPost host id ≠ none → findVote host.votes id (-1) caller.name = none →
      host.votes.length < host.voteCapacity
  | .request caller _ (.downvote id) => findPost host id ≠ none → findVote host.votes id (-1) caller.name = none →
      host.votes.length < host.voteCapacity
  | .request caller _ (.voteComment arguments) => ∀ id index rest direction place position,
      parseTarget arguments = some (id, index, rest) → parseDirection rest = some direction →
        commentAt host id index = some (place, position) →
          (∀ slot vote, findVote host.votes id index caller.name = some slot → host.votes[slot]? = some vote →
            vote.voteType ≠ direction) →
            direction = typedDirection rest ∧ Unshared host place index ∧
              (findVote host.votes id index caller.name = none → host.votes.length < host.voteCapacity)
  | .request caller _ (.deleteComment arguments) => ∀ id index rest place position,
      host.commentDeleteEnabled → parseTarget arguments = some (id, index, rest) →
        commentAt host id index = some (place, position) →
          mayChange caller (host.arrays (refs host place) position) → Unshared host place index
  | _ => True

section Frames

variable {host after : BbsHost} {place : Fin maxPosts}

/-- What the tallies depend on in a slot. -/
structure SameTally (post before : Post) : Prop where
  id : post.id = before.id
  upvotes : post.upvotes = before.upvotes
  downvotes : post.downvotes = before.downvotes
  commentCount : post.commentCount = before.commentCount
  comments : post.comments = before.comments

theorem SameTally.refl (post : Post) : SameTally post post := ⟨rfl, rfl, rfl, rfl, rfl⟩

theorem SameTally.votesFor {post before : Post} (same : SameTally post before) (direction : Int) :
    post.votesFor direction = before.votesFor direction := by
  rw [Post.votesFor, Post.votesFor, same.upvotes, same.downvotes]

/-- The slots are moved at most, and the comments keep their tallies. -/
theorem TallySound.moved (sound : TallySound host) (origin : Fin maxPosts → Fin maxPosts)
    (votes : after.votes = host.votes) (nextId : after.nextId = host.nextId)
    (slots : ∀ place, (after.posts place).inUse →
      (host.posts (origin place)).inUse ∧ SameTally (after.posts place) (host.posts (origin place)))
    (apart : ∀ place other, (after.posts place).inUse → (after.posts other).inUse →
      origin place = origin other → place = other)
    (arrays : ∀ ref index direction, (after.arrays ref index).votesFor direction =
      (host.arrays ref index).votesFor direction) :
    TallySound after where
  votes := votes ▸ sound.votes
  posts place inUse direction sign := by
    obtain ⟨before, same⟩ := slots place inUse
    rw [same.votesFor, same.id, votes]
    exact sound.posts _ before direction sign
  comments place inUse index inside direction sign := by
    obtain ⟨before, same⟩ := slots place inUse
    have owner : refs after place = refs host (origin place) := same.comments
    rw [arrays, same.id, votes, owner]
    exact sound.comments _ before index (same.commentCount ▸ inside) direction sign
  apart place other inUse inUse' equal := by
    obtain ⟨before, same⟩ := slots place inUse
    obtain ⟨before', same'⟩ := slots other inUse'
    exact apart place other inUse inUse' (sound.apart _ _ before before' (same.id.symm.trans (equal.trans same'.id)))
  ids place inUse := by
    obtain ⟨before, same⟩ := slots place inUse
    rw [same.id, nextId]
    exact sound.ids _ before
  voteIds := by
    rw [votes, nextId]
    exact sound.voteIds
  within vote inside place inUse equal := by
    obtain ⟨before, same⟩ := slots place inUse
    rw [same.commentCount]
    exact sound.within vote (votes ▸ inside) _ before (same.id.symm.trans equal)
  room place inUse := by
    obtain ⟨before, same⟩ := slots place inUse
    rw [same.commentCount]
    exact sound.room _ before

theorem TallySound.stayed (sound : TallySound host) (votes : after.votes = host.votes)
    (nextId : after.nextId = host.nextId)
    (slots : ∀ place, (after.posts place).inUse = (host.posts place).inUse ∧ SameTally (after.posts place)
      (host.posts place))
    (arrays : ∀ ref index direction, (after.arrays ref index).votesFor direction =
      (host.arrays ref index).votesFor direction) :
    TallySound after :=
  sound.moved id votes nextId (fun place inUse => ⟨(slots place).1.symm.trans inUse, (slots place).2⟩)
    (fun _ _ _ _ same => same) arrays

/-- One slot is changed where the tallies do not look. -/
theorem sameTally_setPost (host : BbsHost) (place : Fin maxPosts) (change : Post → Post)
    (inUse : (change (host.posts place)).inUse = (host.posts place).inUse)
    (same : SameTally (change (host.posts place)) (host.posts place)) (other : Fin maxPosts) :
    ((host.setPost place change).posts other).inUse = (host.posts other).inUse ∧
      SameTally ((host.setPost place change).posts other) (host.posts other) := by
  by_cases here : other = place
  · rw [here, setPost_here]
    exact ⟨inUse, same⟩
  · rw [setPost_other change here]
    exact ⟨rfl, .refl _⟩

theorem setComments_votesFor (host : BbsHost) (place : Fin maxPosts) (change : CommentArray → CommentArray)
    (keeps : ∀ comments index direction, (change comments index).votesFor direction =
      (comments index).votesFor direction)
    (ref : Fin maxPosts) (index : Fin maxComments) (direction : Int) :
    ((host.setComments place change).arrays ref index).votesFor direction =
      (host.arrays ref index).votesFor direction := by
  change (update host.arrays (refs host place) (change (host.arrays (refs host place))) ref index).votesFor direction =
    _
  by_cases here : ref = refs host place
  · rw [here, update_self, keeps]
  · rw [update_of_ne here]

theorem changeAt_votesFor (position : Nat) (change : Comment → Comment)
    (keeps : ∀ comment direction, (change comment).votesFor direction = comment.votesFor direction)
    (comments : CommentArray) (index : Fin maxComments) (direction : Int) :
    (changeAt position change comments index).votesFor direction = (comments index).votesFor direction := by
  rw [changeAt]
  split
  · exact keeps _ direction
  · rfl

theorem resetPosts_votesFor (places : List (Fin maxPosts)) (host : BbsHost) (ref : Fin maxPosts)
    (index : Fin maxComments) (direction : Int) :
    ((places.foldl resetPost host).arrays ref index).votesFor direction =
      (host.arrays ref index).votesFor direction := by
  induction places generalizing host with
  | nil => rfl
  | cons first rest ih =>
    rw [foldl_cons, ih]
    exact setComments_votesFor host first (fun comments index => (comments index).reset)
      (fun _ _ _ => rfl) ref index direction

theorem clearPost_votesFor (host : BbsHost) (gone ref : Fin maxPosts) (index : Fin maxComments) (direction : Int) :
    ((clearPost host gone).arrays ref index).votesFor direction = (host.arrays ref index).votesFor direction := by
  rw [clearPost_arrays, resetTail, resetPosts_votesFor]
  exact resetPosts_votesFor [gone] host ref index direction

theorem TallySound.queued (sound : TallySound host) (queue : List Notification) :
    TallySound { host with notifications := queue } :=
  sound.stayed rfl rfl (fun _ => ⟨rfl, .refl _⟩) fun _ _ _ => rfl

theorem TallySound.clear (sound : TallySound host) (gone : Fin maxPosts) : TallySound (clearPost host gone) := by
  apply sound.moved (origin host gone) (clearPost_table host gone).1 (clearPost_table host gone).2
  · intro place inUse
    obtain ⟨-, -, before, same⟩ := clearPost_slot inUse
    rw [same]
    exact ⟨before, .refl _⟩
  · intro place other inUse inUse' same
    exact source_front_injective (clearPost_slot inUse).1 (clearPost_slot inUse').1 same
  · exact fun ref index direction => clearPost_votesFor host gone ref index direction

end Frames

section Posting

variable {host : BbsHost} {place : Fin maxPosts} {caller : Caller}

theorem unvoted_votesFor {post : Post} (unvoted : post.Unvoted) (direction : Int) : post.votesFor direction = 0 := by
  rw [Post.votesFor, unvoted.1, unvoted.2, ite_self]

/-- A slot is taken for a new post. -/
theorem TallySound.allocate (sound : TallySound host) (now : Int)
    (unvoted : (host.posts place).Unvoted) (small : host.nextId + 1 < 2 ^ 64) :
      TallySound (host.allocateAt place now) := by
  have next : (host.allocateAt place now).nextId = host.nextId + 1 := Nat.mod_eq_of_lt small
  have here : (host.allocateAt place now).posts place = (host.posts place).allocated host.nextId now := by
    rw [allocateAt_posts, update_self]
  have there (other : Fin maxPosts) (away : other ≠ place) :
    (host.allocateAt place now).posts other = host.posts other := by
    rw [allocateAt_posts, update_of_ne away]
  have before (other : Fin maxPosts) (away : other ≠ place) (inUse : ((host.allocateAt place now).posts other).inUse) :
      (host.posts other).inUse := there other away ▸ inUse
  have fresh : ∀ vote ∈ host.votes, vote.targetPostId ≠ host.nextId :=
    fun vote inside => ne_of_lt (sound.voteIds vote inside)
  refine ⟨sound.votes, ?_, ?_, ?_, ?_, ?_, ?_, ?_⟩
  · intro other inUse direction sign
    by_cases same : other = place
    · have none' : countVotes host.votes host.nextId (-1) direction = 0 :=
        countVotes_none fun vote inside both => fresh vote inside both.1
      rw [same, here]
      exact (unvoted_votesFor unvoted direction).trans none'.symm
    · rw [there other same]
      exact sound.posts other (before other same inUse) direction sign
  · intro other inUse index inside direction sign
    by_cases same : other = place
    · rw [same, here] at inside
      exact absurd inside (Nat.not_lt_zero _)
    · have kept : ((host.allocateAt place now).arrays (refs (host.allocateAt place now) other) index).votesFor
          direction = (host.arrays (refs (host.allocateAt place now) other) index).votesFor direction :=
        setComments_votesFor (host.setPost place (·.allocated host.nextId now)) place
          (fun comments index => (comments index).emptied) (fun _ _ _ => rfl) _ index direction
      have owner : refs (host.allocateAt place now) other = refs host other := congrArg Post.comments (there other same)
      rw [there other same] at inside
      rw [kept, owner, there other same]
      exact sound.comments other (before other same inUse) index inside direction sign
  · intro first second inUse inUse' equal
    by_cases same : first = place
    · by_cases same' : second = place
      · rw [same, same']
      · rw [same, here, there second same'] at equal
        exact absurd equal (ne_of_gt (sound.ids second (before second same' inUse')))
    · by_cases same' : second = place
      · rw [same', here, there first same] at equal
        exact absurd equal (ne_of_lt (sound.ids first (before first same inUse)))
      · rw [there first same, there second same'] at equal
        exact sound.apart first second (before first same inUse) (before second same' inUse') equal
  · intro other inUse
    rw [next]
    by_cases same : other = place
    · rw [same, here]
      exact Nat.lt_succ_self _
    · rw [there other same]
      exact Nat.lt_succ_of_lt (sound.ids other (before other same inUse))
  · intro vote inside
    rw [next]
    exact Nat.lt_succ_of_lt (sound.voteIds vote inside)
  · intro vote inside other inUse equal
    by_cases same : other = place
    · rw [same, here] at equal
      exact absurd equal.symm (fresh vote inside)
    · rw [there other same] at equal ⊢
      exact sound.within vote inside other (before other same inUse) equal
  · intro other inUse
    by_cases same : other = place
    · rw [same, here]
      exact Nat.zero_le _
    · rw [there other same]
      exact sound.room other (before other same inUse)

theorem TallySound.finish (sound : TallySound host) (place : Fin maxPosts) (caller : Caller) (now : Int)
    (draft : Draft) : TallySound (finishPost host place caller now draft) := by
  obtain ⟨votes, nextId, arrays⟩ := finishPost_rest host place caller now draft
  apply sound.stayed votes nextId
  · intro other
    rw [finishPost_posts]
    exact sameTally_setPost host place (·.written caller draft) rfl ⟨rfl, rfl, rfl, rfl, rfl⟩ other
  · intro ref index direction
    rw [arrays]

/-- A comment is written at a position without votes. -/
theorem TallySound.comment (sound : TallySound host) (inUse : (host.posts place).inUse)
    (room : (host.posts place).commentCount < maxComments) (caller : Caller) (now : Int) (text : Bytes)
    (unvoted : ∀ index : Fin maxComments, index.val = (host.posts place).commentCount →
      (host.arrays (refs host place) index).Unvoted) : TallySound (finishComment host place caller now text) := by
  obtain ⟨-, arrays, -⟩ := finishComment_posts host place caller now text
  have table := finishComment_table host place caller now text
  have here := finishComment_here host place caller now text
  have there (other : Fin maxPosts) (away : other ≠ place) := finishComment_there host away caller now text
  have fields (other : Fin maxPosts) : ((finishComment host place caller now text).posts other).inUse =
      (host.posts other).inUse ∧ ((finishComment host place caller now text).posts other).id = (host.posts other).id ∧
      (∀ direction, ((finishComment host place caller now text).posts other).votesFor direction =
        (host.posts other).votesFor direction) ∧
      refs (finishComment host place caller now text) other = refs host other ∧
      (host.posts other).commentCount ≤ ((finishComment host place caller now text).posts other).commentCount := by
    by_cases same : other = place
    · rw [same, refs, here]
      exact ⟨rfl, rfl, fun _ => rfl, rfl, Nat.le_succ _⟩
    · rw [refs, there other same]
      exact ⟨rfl, rfl, fun _ => rfl, rfl, le_rfl⟩
  have kept (ref : Fin maxPosts) (index : Fin maxComments) (direction : Int) :
      ((finishComment host place caller now text).arrays ref index).votesFor direction =
        (host.arrays ref index).votesFor direction := by
    rw [arrays]
    exact setComments_votesFor host place _
      (changeAt_votesFor _ (·.written caller text now) fun _ _ => rfl) ref index direction
  refine ⟨table.1 ▸ sound.votes, ?_, ?_, ?_, ?_, ?_, ?_, ?_⟩
  · intro other inUse' direction sign
    obtain ⟨used, id, tally, -⟩ := fields other
    rw [tally, id, table.1]
    exact sound.posts other (used ▸ inUse') direction sign
  · intro other inUse' index inside direction sign
    obtain ⟨used, id, -, owner, -⟩ := fields other
    rw [kept, owner, id, table.1]
    by_cases old : index.val < (host.posts other).commentCount
    · exact sound.comments other (used ▸ inUse') index old direction sign
    · have same : other = place := by
        by_contra away
        rw [there other away] at inside
        exact old inside
      rw [same] at old ⊢
      rw [same, here] at inside
      have last : index.val = (host.posts place).commentCount :=
        le_antisymm (Nat.le_of_lt_succ inside) (Nat.le_of_not_lt old)
      have none' : countVotes host.votes (host.posts place).id index.val direction = 0 := by
        apply countVotes_none
        intro vote member both
        have before := sound.within vote member place inUse both.1.symm
        omega
      rw [none', Comment.votesFor, (unvoted index last).1, (unvoted index last).2, ite_self]
  · intro first second inUse' inUse'' equal
    obtain ⟨used, id, -⟩ := fields first
    obtain ⟨used', id', -⟩ := fields second
    exact sound.apart first second (used ▸ inUse') (used' ▸ inUse'') (id ▸ id' ▸ equal)
  · intro other inUse'
    obtain ⟨used, id, -⟩ := fields other
    rw [id, table.2]
    exact sound.ids other (used ▸ inUse')
  · rw [table.1, table.2]
    exact sound.voteIds
  · intro vote member other inUse' equal
    obtain ⟨used, id, -, -, more⟩ := fields other
    have before := sound.within vote (table.1 ▸ member) other (used ▸ inUse') (id ▸ equal)
    omega
  · intro other inUse'
    by_cases same : other = place
    · rw [same, here]
      exact room
    · rw [there other same] at inUse' ⊢
      exact sound.room other inUse'

end Posting

section Voting

variable {host : BbsHost} {place : Fin maxPosts} {id : Nat} {direction : Int} {voter : UserName} {before : Option Int}
  {votes : List Vote}

theorem either_direction {direction other : Int} (sign : direction = 1 ∨ direction = -1)
    (sign' : other = 1 ∨ other = -1) : other = direction ∨ other = -direction := by
  omega

/-- A vote that is cast counts once, and it no longer counts in the other direction. -/
theorem Post.balloted_votesFor (post : Post) (before : Option Int) (sign : direction = 1 ∨ direction = -1) :
    (post.balloted before direction).votesFor direction = post.votesFor direction + 1 ∧
      (post.balloted before direction).votesFor (-direction) =
        post.votesFor (-direction) - (if before.isSome then 1 else 0) := by
  cases before with
  | none => rcases sign with rfl | rfl <;> simp [balloted, tally, votesFor]
  | some => rcases sign with rfl | rfl <;> simp [balloted, tally, votesFor] <;> omega

theorem Comment.balloted_votesFor (comment : Comment) (before : Option Int) (sign : direction = 1 ∨ direction = -1)
    (earlier : ∀ old, before = some old → old = -direction) :
    (comment.balloted before direction).votesFor direction = comment.votesFor direction + 1 ∧
      (comment.balloted before direction).votesFor (-direction) =
        comment.votesFor (-direction) - (if before.isSome then 1 else 0) := by
  cases before with
  | none => rcases sign with rfl | rfl <;> simp [balloted, tally, votesFor]
  | some old =>
    rw [earlier old rfl]
    rcases sign with rfl | rfl <;> simp [balloted, tally, votesFor] <;> omega

theorem TallySound.votePost (sound : TallySound host) (found : findPost host id = some place)
    (sign : direction = 1 ∨ direction = -1) (cast : Recorded host id (-1) voter direction before votes) :
    TallySound { host.setPost place (·.balloted before direction) with votes := votes } := by
  obtain ⟨inUse, number⟩ := findPost_formed found
  have fields (other : Fin maxPosts) :
      ((host.setPost place (·.balloted before direction)).posts other).inUse = (host.posts other).inUse ∧
        ((host.setPost place (·.balloted before direction)).posts other).id = (host.posts other).id ∧
        refs (host.setPost place (·.balloted before direction)) other = refs host other ∧
        ((host.setPost place (·.balloted before direction)).posts other).commentCount =
          (host.posts other).commentCount := by
    have owner := congrFun (sameSlots_balloted host place before direction).refs other
    by_cases here : other = place
    · rw [here] at owner ⊢
      obtain ⟨id, -, -, used⟩ := balloted_fields before direction (host.posts place)
      rw [setPost_here]
      refine ⟨used, id, owner, ?_⟩
      cases before <;> simp only [Post.balloted, Post.tally] <;> split <;> (try split) <;> rfl
    · rw [setPost_other _ here]
      exact ⟨rfl, rfl, owner, rfl⟩
  refine ⟨cast.sound, ?_, ?_, ?_, ?_, ?_, ?_, ?_⟩
  · intro other used kind sign'
    obtain ⟨same, sameId, -⟩ := fields other
    rw [sameId]
    have tally := sound.posts other (same ▸ used) kind sign'
    by_cases here : other = place
    · rw [here] at tally ⊢
      rw [number] at tally ⊢
      obtain ⟨gained, lost⟩ := (host.posts place).balloted_votesFor before sign
      rw [setPost_here]
      rcases either_direction sign sign' with rfl | rfl
      · rw [gained, cast.gained, tally]
      · rw [lost, cast.lost, tally]
    · rw [setPost_other _ here, tally, cast.others]
      exact fun both => here (sound.apart other place (same ▸ used) inUse (both.1.trans number.symm))
  · intro other used index inside kind sign'
    obtain ⟨same, sameId, owner, count⟩ := fields other
    change (host.arrays (refs (host.setPost place (·.balloted before direction)) other) index).votesFor kind =
      countVotes votes ((host.setPost place (·.balloted before direction)).posts other).id index.val kind
    rw [sameId, owner, cast.others]
    · exact sound.comments other (same ▸ used) index (count ▸ inside) kind sign'
    · exact fun both => absurd both.2 (by omega)
  · intro first second used used' equal
    exact sound.apart first second ((fields first).1 ▸ used) ((fields second).1 ▸ used')
      ((fields first).2.1.symm.trans (equal.trans (fields second).2.1))
  · intro other used
    exact (fields other).2.1 ▸ sound.ids other ((fields other).1 ▸ used)
  · intro vote member
    rcases cast.targets vote member with new | ⟨old, known, target, -⟩
    · rw [new.1, ← number]
      exact sound.ids place inUse
    · exact target ▸ sound.voteIds old known
  · intro vote member other used equal
    obtain ⟨same, sameId, -, count⟩ := fields other
    rw [count]
    rcases cast.targets vote member with new | ⟨old, known, target, position⟩
    · rw [new.2]
      omega
    · rw [← position]
      exact sound.within old known other (same ▸ used) (sameId.symm.trans (equal.trans target.symm))
  · intro other used
    exact (fields other).2.2.2 ▸ sound.room other ((fields other).1 ▸ used)

theorem parseDirection_sign {text : Bytes} (chosen : parseDirection text = some direction) :
    direction = 1 ∨ direction = -1 := by
  simp only [parseDirection] at chosen
  split_ifs at chosen
  · exact Or.inl (Option.some_inj.mp chosen).symm
  · exact Or.inr (Option.some_inj.mp chosen).symm

theorem Balloted.fresh {index now : Int} (cast : Balloted host id index voter direction now before votes) :
    ∀ slot vote, findVote host.votes id index voter = some slot → host.votes[slot]? = some vote →
      vote.voteType ≠ direction := by
  intro slot vote found here
  cases cast with
  | switched slot' vote' found' here' other =>
    rw [found] at found'
    cases found'
    rw [here] at here'
    cases here'
    exact other
  | added absent =>
    rw [found] at absent
    cases absent

/-- A user has at most one vote on a target. -/
theorem VotesSound.share_le (sound : VotesSound votes) (id : Nat) (index : Int) (voter : UserName) :
    |share votes id index voter| ≤ 1 := by
  have single : (votes.filter fun vote => vote.key = (id, index, voter)).length ≤ 1 := by
    have counted := nodup_iff_count_le_one.mp sound.single (id, index, voter)
    rw [count, countP_map, countP_eq_length_filter] at counted
    calc (votes.filter fun vote => vote.key = (id, index, voter)).length
        = (votes.filter ((· == (id, index, voter)) ∘ Vote.key)).length :=
          congrArg length (filter_congr fun vote _ => (beq_eq_decide vote.key (id, index, voter)).symm)
      _ ≤ 1 := counted
  rw [share]
  cases mine : votes.filter fun vote => vote.key = (id, index, voter) with
  | nil => decide
  | cons vote rest =>
    rw [mine, length_cons] at single
    have last : rest = [] := eq_nil_of_length_eq_zero (by omega)
    have member : vote ∈ votes := (mem_filter.mp (mine ▸ mem_cons_self)).1
    rw [last, map_singleton]
    rcases sound.signs vote member with up | down
    · rw [up]
      decide
    · rw [down]
      decide

theorem setComments_arrays (host : BbsHost) (place : Fin maxPosts) (change : CommentArray → CommentArray) :
    (host.setComments place change).arrays =
      update host.arrays (refs host place) (change (host.arrays (refs host place))) := rfl

theorem TallySound.voteComment (sound : TallySound host) {index : Nat} {position : Fin maxComments}
    (found : commentAt host id index = some (place, position)) (sign : direction = 1 ∨ direction = -1)
    (unshared : Unshared host place index) (cast : Recorded host id index voter direction before votes) :
    TallySound { host.setComments place (changeAt index (·.balloted before direction)) with votes := votes } := by
  obtain ⟨known, at', inside'⟩ := commentAt_some found
  obtain ⟨inUse, number⟩ := findPost_formed known
  refine ⟨cast.sound, ?_, ?_, sound.apart, sound.ids, ?_, ?_, sound.room⟩
  · intro other used kind sign'
    exact (sound.posts other used kind sign').trans (cast.others _ _ _ fun both => absurd both.2 (by omega)).symm
  · intro other used spot inside kind sign'
    change ((host.setComments place (changeAt index (·.balloted before direction))).arrays (refs host other)
      spot).votesFor kind = countVotes votes (host.posts other).id spot.val kind
    have tally := sound.comments other used spot inside kind sign'
    rw [setComments_arrays]
    by_cases here : other = place
    · rw [here] at tally inside ⊢
      rw [number] at tally ⊢
      rw [update_self, changeAt]
      by_cases spot' : spot.val = index
      · obtain ⟨gained, lost⟩ := (host.arrays (refs host place) spot).balloted_votesFor before sign cast.earlier
        rw [if_pos spot', spot']
        rw [spot'] at tally
        rcases either_direction sign sign' with rfl | rfl
        · rw [gained, cast.gained, tally]
        · rw [lost, cast.lost, tally]
      · rw [if_neg spot', tally, cast.others]
        exact fun both => spot' (Int.ofNat_inj.mp both.2)
    · rw [cast.others]
      · rw [← tally]
        by_cases shared : refs host other = refs host place
        · have short := unshared other here used shared
          have away : spot.val ≠ index := by
            change spot.val < (host.posts other).commentCount at inside
            omega
          rw [shared, update_self, changeAt, if_neg away]
        · rw [update_of_ne shared]
      · exact fun both => here (sound.apart other place used inUse (both.1.trans number.symm))
  · intro vote member
    rcases cast.targets vote member with new | ⟨old, known', target, -⟩
    · rw [new.1, ← number]
      exact sound.ids place inUse
    · exact target ▸ sound.voteIds old known'
  · intro vote member other used equal
    rcases cast.targets vote member with new | ⟨old, known', target, spot⟩
    · have same := sound.apart other place used inUse (equal.trans (new.1.trans number.symm))
      rw [new.2, same]
      exact Int.ofNat_lt.mpr inside'
    · rw [← spot]
      exact sound.within old known' other used (equal.trans target.symm)

end Voting

section Dropping

variable {host after : BbsHost} {place other : Fin maxPosts} {id index : Nat}

/-- A comment goes from a post, and the later ones of the array move up. -/
structure CommentDropped (host after : BbsHost) (place : Fin maxPosts) (index : Nat) : Prop where
  here : after.posts place = { host.posts place with commentCount := (host.posts place).commentCount - 1 }
  there : ∀ other, other ≠ place → after.posts other = host.posts other
  arrays : after.arrays = update host.arrays (refs host place)
    (shiftComments index (host.posts place).commentCount (host.arrays (refs host place)))

theorem commentDropped_change (host : BbsHost) (place : Fin maxPosts) (index : Nat) :
    CommentDropped host ((host.setComments place (shiftComments index (host.posts place).commentCount)).setPost place
      fun post => { post with commentCount := (host.posts place).commentCount - 1 }) place index where
  here := setPost_here _
  there := fun _ away => setPost_other _ away
  arrays := rfl

theorem CommentDropped.fields (dropped : CommentDropped host after place index) (other : Fin maxPosts) :
    (after.posts other).inUse = (host.posts other).inUse ∧ (after.posts other).id = (host.posts other).id ∧
      refs after other = refs host other ∧
      (∀ direction, (after.posts other).votesFor direction = (host.posts other).votesFor direction) ∧
      (after.posts other).commentCount ≤ (host.posts other).commentCount := by
  by_cases same : other = place
  · rw [same, refs, dropped.here]
    exact ⟨rfl, rfl, rfl, fun _ => rfl, Nat.sub_le _ 1⟩
  · rw [refs, dropped.there other same]
    exact ⟨rfl, rfl, rfl, fun _ => rfl, le_rfl⟩

variable {spot : Fin maxComments}

theorem CommentDropped.counts_here (dropped : CommentDropped host after place index) (sound : TallySound host)
    (inUse : (host.posts place).inUse) (inside : spot.val < (host.posts place).commentCount - 1)
    {direction : Int} (sign : direction = 1 ∨ direction = -1) :
    (after.arrays (refs host place) spot).votesFor direction =
      countVotes (dropCommentVotes host.votes (host.posts place).id index)
        (host.posts place).id spot.val direction := by
  have room := sound.room place inUse
  have later : spot.val + 1 < maxComments := by omega
  rw [countVotes_drop_here, dropped.arrays, update_self, shiftComments, dif_pos later, lifted]
  by_cases before : spot.val < index
  · rw [if_neg (by omega), if_pos (by omega)]
    exact sound.comments place inUse spot (by omega) direction sign
  · rw [if_pos (by omega), if_neg (by omega)]
    have moved := sound.comments place inUse ⟨spot.val + 1, later⟩ (by dsimp only; omega) direction sign
    rw [moved]
    rfl

theorem CommentDropped.counts_there (dropped : CommentDropped host after place index) (sound : TallySound host)
    (unshared : Unshared host place index) (away : other ≠ place) (used : (host.posts other).inUse)
    (apart : (host.posts other).id ≠ id) (inside : spot.val < (host.posts other).commentCount) {direction : Int}
    (sign : direction = 1 ∨ direction = -1) :
    (after.arrays (refs host other) spot).votesFor direction =
      countVotes (dropCommentVotes host.votes id index) (host.posts other).id spot.val direction := by
  rw [countVotes_drop_other apart, ← sound.comments other used spot inside direction sign, dropped.arrays]
  by_cases shared : refs host other = refs host place
  · have short := unshared other away used shared
    rw [shared, update_self, shiftComments]
    split
    · rw [if_neg (by omega)]
    · rfl
  · rw [update_of_ne shared]

/-- A comment goes, and the votes on the later ones move with them. -/
theorem TallySound.dropComment (sound : TallySound host) {position : Fin maxComments}
    (found : commentAt host id index = some (place, position)) (unshared : Unshared host place index) :
    TallySound {
      (host.setComments place (shiftComments index (host.posts place).commentCount)).setPost place fun post =>
        { post with commentCount := (host.posts place).commentCount - 1 } with
      votes := dropCommentVotes host.votes id index } := by
  obtain ⟨known, at', inside'⟩ := commentAt_some found
  obtain ⟨inUse, rfl⟩ := findPost_formed known
  have dropped := commentDropped_change host place index
  have otherId (other : Fin maxPosts) (away : other ≠ place) (used : (host.posts other).inUse) :
      (host.posts other).id ≠ (host.posts place).id := fun same => away (sound.apart other place used inUse same)
  generalize changed : (host.setComments place (shiftComments index (host.posts place).commentCount)).setPost place
    (fun post =>
      { post with commentCount := (host.posts place).commentCount - 1 }) = after at dropped
  have nextId : after.nextId = host.nextId := changed ▸ rfl
  have used' (other : Fin maxPosts) (used : (after.posts other).inUse) : (host.posts other).inUse :=
    (dropped.fields other).1 ▸ used
  have ids (other : Fin maxPosts) : (after.posts other).id = (host.posts other).id := (dropped.fields other).2.1
  refine ⟨sound.votes.drop, ?_, ?_, ?_, ?_, ?_, ?_, ?_⟩
  · intro other used direction sign
    have tally := sound.posts other (used' other used) direction sign
    rw [(dropped.fields other).2.2.2.1, ids]
    by_cases same : other = place
    · subst same
      rw [countVotes_drop_here]
      exact tally
    · rw [countVotes_drop_other (otherId other same (used' other used))]
      exact tally
  · intro other used spot inside direction sign
    change (after.arrays (refs after other) spot).votesFor direction =
      countVotes (dropCommentVotes host.votes (host.posts place).id index) (after.posts other).id spot.val direction
    rw [(dropped.fields other).2.2.1, ids]
    by_cases same : other = place
    · subst same
      rw [dropped.here] at inside
      exact dropped.counts_here sound inUse inside sign
    · rw [dropped.there other same] at inside
      exact dropped.counts_there sound unshared same (used' other used) (otherId other same (used' other used)) inside
        sign
  · intro first second used used'' equal
    exact sound.apart first second (used' first used) (used' second used'')
      ((ids first).symm.trans (equal.trans (ids second)))
  · intro other used
    rw [ids, nextId]
    exact sound.ids other (used' other used)
  · intro vote member
    obtain ⟨old, known', kept⟩ := mem_filterMap.mp member
    have target := (dropVote_some kept).1
    rw [target, nextId]
    exact sound.voteIds old known'
  · intro vote member other used equal
    obtain ⟨old, known', kept⟩ := mem_filterMap.mp member
    obtain ⟨target, -, -, still, moved⟩ := dropVote_some kept
    have named : (host.posts other).id = old.targetPostId := (ids other).symm.trans (equal.trans target)
    have before := sound.within old known' other (used' other used) named
    by_cases same : other = place
    · subst same
      rw [moved named.symm, lifted] at before
      rw [dropped.here]
      dsimp only
      split_ifs at before <;> omega
    · rw [dropped.there other same, still fun mine => otherId other same (used' other used) (named.trans mine)]
      exact before
  · intro other used
    exact (dropped.fields other).2.2.2.2.trans (sound.room other (used' other used))

end Dropping

section Steps

variable {host : BbsHost} {caller : Caller} {moment : Moment}

theorem sound_of_fit (sound : TallySound host) {event : BoardEvent} (fit : VotesFit host event) :
    TallySound (boardStep host event) := by
  cases event with
  | mute =>
    exact sound.stayed rfl rfl (fun _ => ⟨rfl, .refl _⟩) fun _ _ _ => rfl
  | unmute => exact sound.stayed rfl rfl (fun _ => ⟨rfl, .refl _⟩) fun _ _ _ => rfl
  | moderate =>
    rw [boardStep]
    split
    · exact sound
    next place _ => exact sound.clear place
  | request caller moment request =>
    have served := serve_served host caller moment request
    rw [boardStep]
    generalize serve host caller moment request = result at served
    cases served with
    | refused => exact sound
    | taken draft place answer free held body clean fresh =>
      obtain ⟨unvoted, small⟩ := fit body clean fresh place free
      exact sound.allocate moment.now unvoted small
    | posted draft place notice free held body clean fresh =>
      obtain ⟨unvoted, small⟩ := fit body clean fresh place free
      exact (sound.allocate moment.now unvoted small).finish place caller moment.now draft
    | edited draft id place =>
      exact sound.stayed rfl rfl (sameTally_setPost host place (·.edited draft moment.now) rfl
        ⟨rfl, rfl, rfl, rfl, rfl⟩) fun _ _ _ => rfl
    | commented arguments text id place notice parsed found room clean held =>
      have target : commented host (.request caller moment (.comment arguments)) = some place := by
        rw [commented, parsed, Option.bind_some, found]
      exact sound.comment (findPost_formed found).1 room caller moment.now text (fit clean held place target)
    | commentEdited arguments text id index place =>
      refine sound.stayed rfl rfl (fun _ => ⟨rfl, .refl _⟩) fun ref spot direction => ?_
      exact setComments_votesFor host place _ (changeAt_votesFor index
        (fun comment => { comment with text := strip (.print text), editedAt := moment.now }) fun _ _ => rfl) ref spot
          direction
    | commentDeleted arguments id index place position notice found rest parsed enabled allowed =>
      exact sound.dropComment found (fit id index rest place position enabled parsed found allowed)
    | upvoted id place before votes notice found cast =>
      have known : findPost host id ≠ none := by
        rw [found]
        exact Option.some_ne_none place
      exact sound.votePost found (Or.inl rfl) (cast.recorded sound.votes (Or.inl rfl) le_rfl (fit known))
    | downvoted id place before votes notice found cast =>
      have known : findPost host id ≠ none := by
        rw [found]
        exact Option.some_ne_none place
      exact sound.votePost found (Or.inr rfl) (cast.recorded sound.votes (Or.inr rfl) le_rfl (fit known))
    | commentVoted arguments rest id index place position direction before votes notice parsed chosen found cast =>
      obtain ⟨typed, unshared, room⟩ := fit id index rest direction place position parsed chosen found cast.fresh
      have sign := parseDirection_sign chosen
      exact sound.voteComment found sign unshared (cast.recorded sound.votes sign (by omega) room)
    | reported => exact sound.stayed rfl rfl (fun _ => ⟨rfl, .refl _⟩) fun _ _ _ => rfl
    | deleted id place queue =>
      exact (sound.clear place).queued queue
    | bumped id place =>
      exact sound.stayed rfl rfl (sameTally_setPost host place (fun post => { post with bumpedAt := moment.now }) rfl
        ⟨rfl, rfl, rfl, rfl, rfl⟩) fun _ _ _ => rfl
    | flagged id place flag set flags =>
      exact sound.stayed rfl rfl (sameTally_setPost host place
        (fun post => { post with modFlags := flags post.modFlags }) rfl ⟨rfl, rfl, rfl, rfl, rfl⟩) fun _ _ _ => rfl

/-- A commit takes a slot without votes. -/
theorem created_unvoted {draft : Draft} (fit : VotesFit host (.request caller moment (.commit draft)))
    {place : Fin maxPosts} (free : (host.posts place).inUse = false)
    (used : ((boardStep host (.request caller moment (.commit draft))).posts place).inUse) :
    ((boardStep host (.request caller moment (.commit draft))).posts place).Unvoted := by
  have served := serve_served host caller moment (.commit draft)
  rw [boardStep] at used ⊢
  generalize serve host caller moment (.commit draft) = result at served used ⊢
  have taken (other : Fin maxPosts) (next : firstFree Post.inUse host.posts = some other)
      (used : ((host.allocateAt other moment.now).posts place).inUse) :
      place = other := by
    by_contra away
    rw [allocateAt_posts, update_of_ne away, free] at used
    cases used
  cases served with
  | refused =>
    rw [free] at used
    cases used
  | taken _ other answer next held body clean fresh =>
    rw [taken other next used, allocateAt_posts, update_self]
    exact (fit body clean fresh other next).1
  | posted _ other notice next held body clean fresh =>
    have same : place = other := by
      apply taken other next
      by_cases here : place = other
      · rw [here, allocateAt_posts, update_self]
        rfl
      · rwa [finishPost_posts, setPost_other _ here] at used
    rw [same, finishPost_posts, setPost_here, allocateAt_posts, update_self]
    exact (fit body clean fresh other next).1
  | edited _ id other =>
    have same := (sameTally_setPost host other (·.edited draft moment.now) rfl ⟨rfl, rfl, rfl, rfl, rfl⟩ place).1
    rw [same, free] at used
    cases used

/-- A new comment takes a position without votes. -/
theorem commented_unvoted {arguments : Bytes} (fit : VotesFit host (.request caller moment (.comment arguments)))
    {place : Fin maxPosts} (target : commented host (.request caller moment (.comment arguments)) = some place)
    {index : Fin maxComments} (last : index.val = (host.posts place).commentCount)
    (inside : index.val < ((boardStep host (.request caller moment (.comment arguments))).posts place).commentCount) :
    ((boardStep host (.request caller moment (.comment arguments))).arrays
      (refs (boardStep host (.request caller moment (.comment arguments))) place) index).Unvoted := by
  have served := serve_served host caller moment (.comment arguments)
  rw [boardStep] at inside ⊢
  generalize serve host caller moment (.comment arguments) = result at served inside ⊢
  cases served with
  | refused => exact absurd inside (not_lt.mpr (Nat.le_of_eq last.symm))
  | commented _ text id here notice parsed found room clean held =>
    have same : here = place := by
      rw [commented, parsed, Option.bind_some, found] at target
      exact Option.some_inj.mp target
    rw [same]
    obtain ⟨-, arrays, -⟩ := finishComment_posts host place caller moment.now text
    rw [finishComment_refs, arrays, setComments_arrays, update_self, changeAt, if_pos last]
    exact fit clean held place target index last

theorem voted_recorded (sound : TallySound host) {request : Request}
    (fit : VotesFit host (.request caller moment request))
    (done : (serve host caller moment request).2.isDone) {id : Nat} {index direction : Int}
    (typed : typedVote request = some (id, index, direction)) :
    ∃ vote ∈ (boardStep host (.request caller moment request)).votes,
      vote.key = (id, index, caller.name) ∧ vote.voteType = direction := by
  have served := serve_served host caller moment request
  rw [boardStep]
  generalize serve host caller moment request = result at served done ⊢
  cases served with
  | refused => cases done
  | upvoted id' place before votes notice found cast =>
    have known : findPost host id' ≠ none := by
      rw [found]
      exact Option.some_ne_none place
    cases typed
    exact (cast.recorded sound.votes (Or.inl rfl) le_rfl (fit known)).here
  | downvoted id' place before votes notice found cast =>
    have known : findPost host id' ≠ none := by
      rw [found]
      exact Option.some_ne_none place
    cases typed
    exact (cast.recorded sound.votes (Or.inr rfl) le_rfl (fit known)).here
  | commentVoted arguments rest id' index' place position chosen before votes notice parsed read found cast =>
    obtain ⟨same, -, room⟩ := fit id' index' rest chosen place position parsed read found cast.fresh
    rw [typedVote, parsed] at typed
    cases typed
    rw [← same]
    exact (cast.recorded sound.votes (parseDirection_sign read) (by omega) room).here
  | _ => cases typed

theorem kept_of_fit (sound : TallySound host) {event : BoardEvent} (fit : VotesFit host event) :
    VotesKept host event where
  sound := sound_of_fit sound fit
  limited := (sound_of_fit sound fit).votes.share_le
  created caller moment draft same place free used := by
    rw [same] at fit used ⊢
    exact created_unvoted fit free used
  commented place target index last inside := by
    cases event with
    | request caller moment request =>
      cases request with
      | comment => exact commented_unvoted fit target last inside
      | _ => cases target
    | _ => cases target
  recorded caller moment request same done id index direction typed := by
    rw [same] at fit ⊢
    exact voted_recorded sound fit done typed

end Steps

abbrev TalliedBoard : Type := { host : BbsHost // TallySound host }

/-- The tallies are the numbers of the recorded votes all along a run whose votes can be recorded. -/
theorem tallies_match_votes (host : TalliedBoard) (events : List BoardEvent)
    (fit : Along boardStep VotesFit host.val events) : Along boardStep VotesKept host.val events :=
  along_along TallySound (fun _ _ sound fits => sound_of_fit sound fits) (fun _ _ sound fits => kept_of_fit sound fits)
    host.property fit

theorem fresh_tallies : TallySound .fresh where
  votes := ⟨nodup_nil, fun _ inside => absurd inside not_mem_nil, fun _ inside => absurd inside not_mem_nil⟩
  posts _ inUse := nomatch inUse
  comments _ inUse := nomatch inUse
  apart _ _ inUse := nomatch inUse
  ids _ inUse := nomatch inUse
  voteIds _ inside := absurd inside not_mem_nil
  within _ inside := absurd inside not_mem_nil
  room _ inUse := nomatch inUse

/-- A guest votes for the first post. -/
theorem first_vote_matches : Along boardStep VotesKept .fresh [samplePost 'a', .request guest ⟨1001, true⟩
    (.upvote 1)] := by
  have first : VotesFit .fresh (samplePost 'a') := by
    intro _ _ _ place _
    exact ⟨⟨rfl, rfl⟩, by decide⟩
  have room : (boardStep .fresh (samplePost 'a')).votes.length < (boardStep .fresh (samplePost 'a')).voteCapacity := by
    decide +kernel
  have second : VotesFit (boardStep .fresh (samplePost 'a')) (.request guest ⟨1001, true⟩ (.upvote 1)) :=
    fun _ _ => room
  exact tallies_match_votes ⟨.fresh, fresh_tallies⟩ [samplePost 'a', .request guest ⟨1001, true⟩ (.upvote 1)]
    ⟨first, second, trivial⟩

/-- The post that takes the slot of a removed one has its votes. -/
theorem reused_slot_keeps_votes : ¬ Along boardStep VotesKept .fresh
    [samplePost 'a', .request guest ⟨1001, true⟩ (.upvote 1), .request operator ⟨1002, true⟩ (.delete 1),
      samplePost 'b'] := by
  rintro ⟨-, -, -, last, -⟩
  have tallied := last.created operator ⟨1000, true⟩ (sampleDraft 'b') rfl 0 (by decide +kernel) (by decide +kernel)
  revert tallied
  rw [Post.Unvoted]
  decide +kernel

end SshChatter.Bbs
