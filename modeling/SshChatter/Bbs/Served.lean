import SshChatter.Bbs.Command

namespace SshChatter.Bbs
open CString SlotTable

def Held (host : BbsHost) (caller : Caller) (now : Int) : Prop :=
  muteBlocks host caller now ∨ caller.privileged = false ∧ postsTooQuickly host caller now

def CommentHeld (host : BbsHost) (caller : Caller) (now : Int) : Prop :=
  muteBlocks host caller now ∨ caller.privileged = false ∧ commentsTooQuickly host caller now

/-- The votes and the tally of a target when a user votes on it in one direction. The tally loses what the user voted
before in the other direction. -/
inductive Balloted (host : BbsHost) (id : Nat) (index : Int) (voter : UserName) (direction now : Int) :
    Option Int → List Vote → Prop where
  | switched (slot : Nat) (vote : Vote) (found : findVote host.votes id index voter = some slot)
      (here : host.votes[slot]? = some vote) (other : vote.voteType ≠ direction) :
      Balloted host id index voter direction now (some vote.voteType)
        (host.votes.modify slot fun vote => { vote with voteType := direction })
  | added (absent : findVote host.votes id index voter = none) :
      Balloted host id index voter direction now none (addVote host ⟨id, index, voter, direction, now⟩)

/-- What a tally gains when a vote is cast. -/
def Post.balloted (before : Option Int) (direction : Int) (post : Post) : Post :=
  match before with
  | none => post.tally direction 1
  | some _ => (post.tally (-direction) (-1)).tally direction 1

def Comment.balloted (before : Option Int) (direction : Int) (comment : Comment) : Comment :=
  match before with
  | none => comment.tally direction 1
  | some old => (comment.tally old (-1)).tally direction 1

/-- What a request does. -/
inductive Served (host : BbsHost) (caller : Caller) (moment : Moment) : Request → BbsHost × Outcome → Prop where
  | refused (request : Request) (answer : Answer) : Served host caller moment request (host, .refused answer)
  | taken (draft : Draft) (place : Fin maxPosts) (answer : Answer) (free : firstFree Post.inUse host.posts = some place)
      (held : Held host caller moment.now) (body : draft.body.text ≠ []) (clean : moment.clean)
      (fresh : draft.editing = none) :
      Served host caller moment (.commit draft) (host.allocateAt place moment.now, .refused answer)
  | posted (draft : Draft) (place : Fin maxPosts) (notice : Bytes) (free : firstFree Post.inUse host.posts = some place)
      (held : ¬ Held host caller moment.now) (body : draft.body.text ≠ []) (clean : moment.clean)
      (fresh : draft.editing = none) :
      Served host caller moment (.commit draft)
        (finishPost (host.allocateAt place moment.now) place caller moment.now draft, .done notice)
  | edited (draft : Draft) (id : Nat) (place : Fin maxPosts) (notice : Bytes) (found : findPost host id = some place) :
      Served host caller moment (.commit draft) (host.setPost place (·.edited draft moment.now), .done notice)
  | commented (arguments text : Bytes) (id : Nat) (place : Fin maxPosts) (notice : Bytes)
      (parsed : parseComment caller arguments = some (id, text)) (found : findPost host id = some place)
      (room : (host.posts place).commentCount < maxComments) (clean : moment.clean)
      (held : ¬ CommentHeld host caller moment.now) :
      Served host caller moment (.comment arguments) (finishComment host place caller moment.now text, .done notice)
  | commentEdited (arguments text : Bytes) (id index : Nat) (place : Fin maxPosts) (position : Fin maxComments)
      (notice : Bytes) (found : commentAt host id index = some (place, position)) :
      Served host caller moment (.editComment arguments)
        (host.setComments place (changeAt index fun comment =>
          { comment with text := strip (.print text), editedAt := moment.now }), .done notice)
  | commentDeleted (arguments : Bytes) (id index : Nat) (place : Fin maxPosts) (position : Fin maxComments)
      (notice : Bytes) (found : commentAt host id index = some (place, position)) (rest : Bytes)
      (parsed : parseTarget arguments = some (id, index, rest)) (enabled : host.commentDeleteEnabled)
      (allowed : mayChange caller (host.arrays (host.posts place).comments position)) :
      Served host caller moment (.deleteComment arguments)
        ({ (host.setComments place (shiftComments index (host.posts place).commentCount)).setPost place fun post =>
            { post with commentCount := (host.posts place).commentCount - 1 } with
          votes := dropCommentVotes host.votes id index }, .done notice)
  | upvoted (id : Nat) (place : Fin maxPosts) (before : Option Int) (votes : List Vote) (notice : Bytes)
      (found : findPost host id = some place) (cast : Balloted host id (-1) caller.name 1 moment.now before votes) :
      Served host caller moment (.upvote id) ({ host.setPost place (·.balloted before 1) with votes := votes },
        .done notice)
  | downvoted (id : Nat) (place : Fin maxPosts) (before : Option Int) (votes : List Vote) (notice : Bytes)
      (found : findPost host id = some place) (cast : Balloted host id (-1) caller.name (-1) moment.now before votes) :
      Served host caller moment (.downvote id)
        ({ host.setPost place (·.balloted before (-1)) with votes := votes }, .done notice)
  | commentVoted (arguments rest : Bytes) (id index : Nat) (place : Fin maxPosts) (position : Fin maxComments)
      (direction : Int) (before : Option Int) (votes : List Vote) (notice : Bytes)
      (parsed : parseTarget arguments = some (id, index, rest)) (chosen : parseDirection rest = some direction)
      (found : commentAt host id index = some (place, position))
      (cast : Balloted host id index caller.name direction moment.now before votes) :
      Served host caller moment (.voteComment arguments)
        ({ host.setComments place (changeAt index (·.balloted before direction)) with votes := votes }, .done notice)
  | reported (arguments : Bytes) (reports : List Report) (notice : Bytes) :
      Served host caller moment (.report arguments) ({ host with reports := reports }, .done notice)
  | deleted (id : Nat) (place : Fin maxPosts) (queue : List Notification) (notice : Bytes)
      (found : deletable host caller id = some place) :
      Served host caller moment (.delete id) ({ clearPost host place with notifications := queue }, .done notice)
  | bumped (id : Nat) (place : Fin maxPosts) (notice : Bytes) (found : findPost host id = some place) :
      Served host caller moment (.regen id)
        (host.setPost place fun post => { post with bumpedAt := moment.now }, .done notice)
  | flagged (id : Nat) (place : Fin maxPosts) (flag : ModFlag) (set : Bool) (flags : UInt8 → UInt8)
      (reports : List Report) (notice : Bytes) (found : findPost host id = some place) :
      Served host caller moment (.setModFlag id flag set)
        ({ host.setPost place fun post => { post with modFlags := flags post.modFlags } with reports := reports },
          .done notice)

section Commands

variable (host : BbsHost) (caller : Caller) (moment : Moment)

theorem serve_commit (draft : Draft) :
    Served host caller moment (.commit draft) (commitPendingPost host caller moment draft) := by
  rw [commitPendingPost]
  split
  · exact .refused _ _
  next body =>
    split
    · exact .refused _ _
    next dirty =>
      have clean : moment.clean = true := Bool.eq_true_of_not_eq_false dirty
      split
      next id _ =>
        rw [commitEdit]
        split
        · exact .refused _ _
        next place found =>
          split
          · exact .edited draft id place _ found
          · exact .refused _ _
      next fresh =>
        rw [commitNew, allocatePost]
        cases free : firstFree Post.inUse host.posts with
        | none => exact .refused _ _
        | some place =>
          simp only [Option.map_some]
          split
          next muted => exact .taken draft place _ free (Or.inl muted) body clean fresh
          next heard =>
            split
            next quick => exact .taken draft place _ free (Or.inr quick) body clean fresh
            next calm => exact .posted draft place _ free (not_or.mpr ⟨heard, calm⟩) body clean fresh

theorem serve_comment (arguments : Bytes) :
    Served host caller moment (.comment arguments) (addComment host caller moment arguments) := by
  rw [addComment]
  split
  · exact .refused _ _
  next id text parsed =>
    split
    · exact .refused _ _
    · split
      · exact .refused _ _
      next dirty =>
        have clean : moment.clean = true := Bool.eq_true_of_not_eq_false dirty
        split
        · exact .refused _ _
        next place found =>
          split
          · exact .refused _ _
          next room =>
            split
            · exact .refused _ _
            next heard =>
              split
              · exact .refused _ _
              next calm =>
                exact .commented arguments text id place _ parsed found (not_le.mp room) clean
                  (not_or.mpr ⟨heard, calm⟩)

theorem serve_editComment (arguments : Bytes) :
    Served host caller moment (.editComment arguments) (editComment host caller moment arguments) := by
  simp only [editComment]
  split
  · exact .refused _ _
  · split
    · exact .refused _ _
    · split
      · exact .refused _ _
      next id index rest _ =>
        split
        · exact .refused _ _
        · split
          · exact .refused _ _
          · split
            · exact .refused _ _
            next place position found =>
              split
              · exact .commentEdited arguments _ id index place position _ found
              · exact .refused _ _

theorem serve_deleteComment (arguments : Bytes) :
    Served host caller moment (.deleteComment arguments) (deleteComment host caller arguments) := by
  simp only [deleteComment]
  split
  · exact .refused _ _
  · split
    · exact .refused _ _
    next disabled =>
      have enabled : host.commentDeleteEnabled = true := Bool.eq_true_of_not_eq_false disabled
      split
      · exact .refused _ _
      next id index rest parsed =>
        split
        · exact .refused _ _
        · split
          · exact .refused _ _
          next place position found =>
            split
            next allowed => exact .commentDeleted arguments id index place position _ found rest parsed enabled allowed
            · exact .refused _ _

theorem votePost_cases (direction : Int) (already notice : Bytes) (now : Int) (id : Nat) :
    (∃ answer, votePost direction already notice host caller now id = (host, .refused answer)) ∨
      ∃ place before votes, findPost host id = some place ∧
        Balloted host id (-1) caller.name direction now before votes ∧
        votePost direction already notice host caller now id =
          ({ host.setPost place (·.balloted before direction) with votes := votes }, .done notice) := by
  rw [votePost]
  split
  · exact Or.inl ⟨_, rfl⟩
  · split
    · exact Or.inl ⟨_, rfl⟩
    next place found =>
      split
      next slot voted =>
        split
        · exact Or.inl ⟨_, rfl⟩
        next other =>
          obtain ⟨inside, -⟩ := List.findIdx?_eq_some_iff_getElem.mp voted
          have here : host.votes[slot]? = some host.votes[slot] := List.getElem?_eq_getElem inside
          rw [here] at other
          exact Or.inr ⟨place, _, _, found, .switched slot host.votes[slot] voted here fun same =>
            other (congrArg some same), rfl⟩
      next absent => exact Or.inr ⟨place, none, _, found, .added absent, rfl⟩

theorem serve_voteComment (arguments : Bytes) :
    Served host caller moment (.voteComment arguments) (voteComment host caller moment.now arguments) := by
  simp only [voteComment]
  split
  · exact .refused _ _
  next id index rest parsed =>
    split
    · exact .refused _ _
    next direction chosen =>
      split
      · exact .refused _ _
      next place position found =>
        split
        next slot voted =>
          obtain ⟨inside, -⟩ := List.findIdx?_eq_some_iff_getElem.mp voted
          have here : host.votes[slot]? = some host.votes[slot] := List.getElem?_eq_getElem inside
          simp only [here]
          split
          · exact .refused _ _
          next other =>
            exact .commentVoted arguments rest id index place position direction _ _ _ parsed chosen found
              (.switched slot host.votes[slot] voted here other)
        next absent =>
          exact .commentVoted arguments rest id index place position direction none _ _ parsed chosen found
            (.added absent)

theorem serve_report (arguments : Bytes) :
    Served host caller moment (.report arguments) (reportPost host caller moment arguments) := by
  simp only [reportPost]
  split
  · exact .refused _ _
  · split
    · exact .refused _ _
    · split
      · exact .refused _ _
      · split
        · exact .refused _ _
        · split
          · exact .refused _ _
          · exact .reported arguments _ _

theorem serve_delete (id : Nat) : Served host caller moment (.delete id) (deletePost host caller id) := by
  rw [deletePost]
  split
  next place found => exact .deleted id place _ _ found
  · split
    · exact .refused _ _
    · split <;> exact .refused _ _

theorem serve_regen (id : Nat) : Served host caller moment (.regen id) (regenPost host moment.now id) := by
  rw [regenPost]
  split
  · exact .refused _ _
  · split
    · exact .refused _ _
    next place found => exact .bumped id place _ found

theorem serve_setModFlag (id : Nat) (flag : ModFlag) (set : Bool) :
    Served host caller moment (.setModFlag id flag set) (setModFlag host caller id flag set) := by
  rw [setModFlag]
  split
  · exact .refused _ _
  · split
    · exact .refused _ _
    · split
      · exact .refused _ _
      next place found =>
        dsimp only
        split
        · exact .flagged id place flag set (fun flags => if set then flags ||| flag.bit
            else flags &&& ~~~flag.bit) _ _ found
        · exact .flagged id place flag set (fun flags => if set then flags ||| flag.bit
            else flags &&& ~~~flag.bit) _ _ found

/-- Every request does one of the things listed. -/
theorem serve_served (request : Request) : Served host caller moment request (serve host caller moment request) := by
  cases request with
  | commit draft => exact serve_commit host caller moment draft
  | comment arguments => exact serve_comment host caller moment arguments
  | editComment arguments => exact serve_editComment host caller moment arguments
  | deleteComment arguments => exact serve_deleteComment host caller moment arguments
  | upvote id =>
    rcases votePost_cases host caller 1 (str "You already upvoted this post.") (str "Upvoted.") moment.now id with
      ⟨answer, same⟩ | ⟨place, before, votes, found, cast, same⟩
    · rw [serve, upvote, same]
      exact .refused _ _
    · rw [serve, upvote, same]
      exact .upvoted id place before votes _ found cast
  | downvote id =>
    rcases votePost_cases host caller (-1) (str "You already downvoted this post.") (str "Downvoted.") moment.now id
      with ⟨answer, same⟩ | ⟨place, before, votes, found, cast, same⟩
    · rw [serve, downvote, same]
      exact .refused _ _
    · rw [serve, downvote, same]
      exact .downvoted id place before votes _ found cast
  | voteComment arguments => exact serve_voteComment host caller moment arguments
  | report arguments => exact serve_report host caller moment arguments
  | delete id => exact serve_delete host caller moment id
  | regen id => exact serve_regen host caller moment id
  | setModFlag id flag set => exact serve_setModFlag host caller moment id flag set

end Commands

end SshChatter.Bbs
