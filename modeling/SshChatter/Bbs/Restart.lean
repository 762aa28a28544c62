import SshChatter.Bbs.Refusal
import SshChatter.Bbs.StateFile

namespace SshChatter.Bbs
open CString EventRun SlotTable Function

/-- The posts in use and their comments are storable, and their identifiers are below the next one. -/
structure StateSound (host : BbsHost) : Prop where
  posts : ∀ place, (host.posts place).inUse → (host.posts place).Storable
  comments : ∀ place, (host.posts place).inUse → CommentsStorable host place
  ids : ∀ place, (host.posts place).inUse → (host.posts place).id < host.nextId
  positive : 0 < host.nextId

def Recent (host : BbsHost) (clock : Int) : Prop :=
  ∀ place, (host.posts place).inUse → (host.posts place).bumpedAt ≤ loadTime clock + week

def restarted (store : BbsHost) (clock : Int) (host : BbsHost) :
    BbsHost := loadState store clock (some (saveState host))

/-- A restart after an event restores the posts in use and the next identifier, and what is saved then is the same
file. -/
structure Survives (host : BbsHost) (event : BoardEvent) : Prop where
  posts : ∀ store clock, Function.Injective (refs store) → Recent (boardStep host event) clock →
    stored (restarted store clock (boardStep host event)) = stored (boardStep host event)
  next : ∀ store clock, (restarted store clock (boardStep host event)).nextId = (boardStep host event).nextId
  again : ∀ store clock, Function.Injective (refs store) → Recent (boardStep host event) clock →
    saveState (restarted store clock (boardStep host event)) = saveState (boardStep host event)

/-- The identifier that an event gives out. -/
def issued (host : BbsHost) (event : BoardEvent) : List Nat :=
  if (boardStep host event).nextId = host.nextId then [] else [host.nextId]

/-- A user name that can be stored as the author of a post. -/
def Caller.Named (caller : Caller) : Prop :=
  (strip caller.name).text ≠ [] ∧ hasDisallowedControls (strip caller.name).text = false ∧ Settled (strip caller.name)

structure Draft.Storable (draft : Draft) : Prop where
  title : (strip draft.title).text ≠ [] ∧ hasDisallowedControls (strip draft.title).text = false ∧
    Settled (strip draft.title)
  ordinary : ¬ breakingNews <:+: (strip draft.title).text
  body : Settled (strip draft.body)
  tags : ∀ tag : Fin maxTags, tag.val < draft.tagCount → Settled (strip (draft.tags tag))

def Uncommented (host : BbsHost) (place : Fin maxPosts) : Prop :=
  ∀ other, other ≠ place → (host.posts other).inUse → refs host other = refs host place →
    (host.posts other).commentCount = 0

/-- What an event writes can be stored: texts that settle, times that do not run backwards, and a slot that is taken or
emptied without the comments of another post. -/
def Storing (host : BbsHost) : BoardEvent → Prop
  | .request caller moment (.commit draft) => draft.body.text ≠ [] → moment.clean →
      match draft.editing with
      | none => ∀ place, firstFree Post.inUse host.posts = some place → ¬ Held host caller moment.now ∧ caller.Named ∧
          draft.Storable ∧ minValid ≤ moment.now ∧ host.nextId + 1 < 2 ^ 64 ∧ Uncommented host place
      | some id => ∀ place, findPost host id = some place →
          ((host.posts place).author = caller.name ∨ caller.privileged) →
            draft.Storable ∧ (host.posts place).createdAt ≤ moment.now
  | .request caller moment (.comment arguments) => ∀ id text place, parseComment caller arguments = some (id, text) →
      findPost host id = some place → (host.posts place).commentCount < maxComments → moment.clean →
        ¬ CommentHeld host caller moment.now → Settled (strip caller.name) ∧ Settled (strip (.print text : CText 511)) ∧
          (host.posts place).createdAt ≤ moment.now
  | .request caller moment (.editComment arguments) => ∀ id index rest place position, host.commentEditEnabled →
      parseTarget arguments = some (id, index, rest) → moment.clean → commentAt host id index = some (place, position) →
        mayChange caller (host.arrays (host.posts place).comments position) →
          Settled (strip (.print (trimSpace ((rest.dropWhile (· = 32)).take 511)) : CText 511))
  | .request _ moment (.regen id) => ∀ place, findPost host id = some place → (host.posts place).createdAt ≤ moment.now
  | event => ∀ gone, removal host event = some gone → ∀ place, place ≠ gone → (host.posts place).inUse →
      (host.posts place).commentCount ≠ 0 → refs host gone ≠ refs host place ∧
        ∀ other : Fin maxPosts, remaining host gone ≤ other.val → refs host other ≠ refs host place

section Frames

variable {host : BbsHost} {place : Fin maxPosts}

/-- A vote changes nothing but the two tallies of a post. -/
theorem Post.balloted_eq (before : Option Int) (direction : Int) (post : Post) :
    ∃ up down, post.balloted before direction = { post with upvotes := up, downvotes := down } := by
  cases before with
  | none =>
    rw [balloted, tally]
    split
    · exact ⟨_, post.downvotes, rfl⟩
    · exact ⟨post.upvotes, _, rfl⟩
  | some =>
    rw [balloted, tally, tally]
    split <;> split <;> exact ⟨_, _, rfl⟩

theorem Comment.balloted_eq (before : Option Int) (direction : Int) (comment : Comment) :
    ∃ up down, comment.balloted before direction = { comment with upvotes := up, downvotes := down } := by
  cases before with
  | none =>
    rw [balloted, tally]
    split
    · exact ⟨_, comment.downvotes, rfl⟩
    · exact ⟨comment.upvotes, _, rfl⟩
  | some =>
    rw [balloted, tally, tally]
    split <;> split <;> exact ⟨_, _, rfl⟩

theorem Post.Storable.balloted {post : Post} (storable : post.Storable) (before : Option Int) (direction : Int) :
    (post.balloted before direction).Storable := by
  obtain ⟨up, down, same⟩ := post.balloted_eq before direction
  rw [same]
  exact { storable with }

theorem Comment.Storable.balloted {comment : Comment} (storable : comment.Storable) (before : Option Int)
    (direction : Int) : (comment.balloted before direction).Storable := by
  obtain ⟨up, down, same⟩ := comment.balloted_eq before direction
  rw [same]
  exact { storable with }

/-- One slot is changed and stays storable. -/
theorem StateSound.setPost (sound : StateSound host) (place : Fin maxPosts) (change : Post → Post)
    (inUse : (change (host.posts place)).inUse = (host.posts place).inUse)
    (fields : (change (host.posts place)).id = (host.posts place).id ∧
      (change (host.posts place)).comments = (host.posts place).comments)
    (comments : (host.posts place).inUse → (change (host.posts place)).commentCount ≤ (host.posts place).commentCount)
    (storable : (host.posts place).inUse → (host.posts place).Storable → (change (host.posts place)).Storable) :
    StateSound (host.setPost place change) := by
  obtain ⟨posts, commented, ids, positive⟩ := sound
  refine ⟨fun other used => ?_, fun other used index inside => ?_, fun other used => ?_, positive⟩
  · by_cases here : other = place
    · rw [here, setPost_here] at used ⊢
      exact storable (inUse ▸ used) (posts place (inUse ▸ used))
    · rw [setPost_other _ here] at used ⊢
      exact posts other used
  · by_cases here : other = place
    · rw [here, setPost_here] at used inside
      rw [here, refs, setPost_here, fields.2]
      exact commented place (inUse ▸ used) index (inside.trans_le (comments (inUse ▸ used)))
    · rw [setPost_other _ here] at used inside
      rw [refs, setPost_other _ here]
      exact commented other used index inside
  · by_cases here : other = place
    · rw [here, setPost_here] at used ⊢
      rw [fields.1]
      exact ids place (inUse ▸ used)
    · rw [setPost_other _ here] at used ⊢
      exact ids other used

theorem StateSound.balloted (sound : StateSound host) (place : Fin maxPosts) (before : Option Int) (direction : Int) :
    StateSound (host.setPost place (·.balloted before direction)) := by
  obtain ⟨up, down, same⟩ := (host.posts place).balloted_eq before direction
  apply sound.setPost place (·.balloted before direction)
  · rw [same]
  · rw [same]
    exact ⟨rfl, rfl⟩
  · rw [same]
    exact fun _ => le_rfl
  · exact fun _ storable => storable.balloted before direction

theorem StateSound.setComments (sound : StateSound host) (place : Fin maxPosts) (change : CommentArray → CommentArray)
    (storable : ∀ other, (host.posts other).inUse → refs host other = refs host place → ∀ index : Fin maxComments,
      index.val < (host.posts other).commentCount → (change (host.arrays (refs host place)) index).Storable) :
    StateSound (host.setComments place change) := by
  obtain ⟨posts, commented, ids, positive⟩ := sound
  refine ⟨posts, fun other used index inside => ?_, ids, positive⟩
  change (update host.arrays (refs host place) (change (host.arrays (refs host place))) (refs host other)
    index).Storable
  by_cases here : refs host other = refs host place
  · rw [here, update_self]
    exact storable other used here index inside
  · rw [update_of_ne here]
    exact commented other used index inside

theorem StateSound.tables (sound : StateSound host) (votes : List Vote) (queue : List Notification)
    (reports : List Report) : StateSound { host with votes := votes, notifications := queue, reports := reports } :=
  ⟨sound.posts, sound.comments, sound.ids, sound.positive⟩

/-- A removal moves slots and empties only arrays without comments of other posts. -/
theorem StateSound.clear (sound : StateSound host) {gone : Fin maxPosts}
    (empty : ∀ place, place ≠ gone → (host.posts place).inUse → (host.posts place).commentCount ≠ 0 →
      refs host gone ≠ refs host place ∧
        ∀ other : Fin maxPosts, remaining host gone ≤ other.val → refs host other ≠ refs host place) :
    StateSound (clearPost host gone) := by
  have next := (clearPost_table host gone).2
  refine ⟨fun place used => ?_, fun place used index inside => ?_, fun place used =>
    ?_, by rw [next]; exact sound.positive⟩
  · obtain ⟨-, -, before, same⟩ := clearPost_slot used
    rw [same]
    exact sound.posts _ before
  · obtain ⟨-, away, before, same⟩ := clearPost_slot used
    rw [same] at inside
    have some' : (host.posts (origin host gone place)).commentCount ≠ 0 := ne_of_gt (Nat.zero_lt_of_lt inside)
    obtain ⟨apart, behind⟩ := empty (origin host gone place) away before some'
    rw [(clearPost_spec host gone).1 place, clearPost_array apart behind]
    exact sound.comments _ before index inside
  · obtain ⟨-, -, before, same⟩ := clearPost_slot used
    rw [same, next]
    exact sound.ids _ before

/-- A new post is written into a slot that was taken for it. -/
theorem StateSound.post (sound : StateSound host) {caller : Caller} {now : Int} {draft : Draft} (named : caller.Named)
    (storable : draft.Storable) (valid : minValid ≤ now) (small : host.nextId + 1 < 2 ^ 64)
    (uncommented : Uncommented host place) :
      StateSound (finishPost (host.allocateAt place now) place caller now draft) := by
  obtain ⟨-, nextId, arrays⟩ := finishPost_rest (host.allocateAt place now) place caller now draft
  have next : (finishPost (host.allocateAt place now) place caller now draft).nextId = host.nextId + 1 :=
    nextId.trans (Nat.mod_eq_of_lt small)
  have here : (finishPost (host.allocateAt place now) place caller now draft).posts place =
      ((host.posts place).allocated host.nextId now).written caller draft := by
    rw [finishPost_posts, setPost_here, allocateAt_posts, update_self]
  have there (other : Fin maxPosts) (away : other ≠ place) :
      (finishPost (host.allocateAt place now) place caller now draft).posts other = host.posts other := by
    rw [finishPost_posts, setPost_other _ away, allocateAt_posts, update_of_ne away]
  constructor
  · intro other used
    by_cases same : other = place
    · rw [same, here]
      exact {
        id := ne_of_gt sound.positive
        author := named
        title := storable.title
        ordinary := storable.ordinary
        body := storable.body
        tags := fun tag inside => by
          have typed : (((host.posts place).allocated host.nextId now).written caller draft).tags tag =
            strip (draft.tags tag) :=
            if_pos inside
          rw [typed]
          exact storable.tags tag inside
        created := valid
        bumped := le_rfl }
    · rw [there other same] at used ⊢
      exact sound.posts other used
  · intro other used index inside
    by_cases same : other = place
    · rw [same, here] at inside
      exact absurd inside (Nat.not_lt_zero _)
    · rw [there other same] at used inside
      have away : refs host other ≠ refs host place := fun shared =>
        ne_of_gt (Nat.zero_lt_of_lt inside) (uncommented other same used shared)
      have kept : (finishPost (host.allocateAt place now) place caller now draft).arrays (refs host other) =
          host.arrays (refs host other) := by
        rw [arrays]
        have owner : refs (host.setPost place (·.allocated host.nextId now)) place = refs host place := by
          rw [refs, setPost_here]
          rfl
        change update host.arrays (refs (host.setPost place (·.allocated host.nextId now)) place) _ (refs host other) =
          _
        rw [owner, update_of_ne away]
      have owner : refs (finishPost (host.allocateAt place now) place caller now draft) other = refs host other := by
        rw [refs, there other same]
        rfl
      rw [owner, kept]
      exact sound.comments other used index inside
  · intro other used
    rw [next]
    by_cases same : other = place
    · rw [same, here]
      exact Nat.lt_succ_self _
    · rw [there other same] at used ⊢
      exact Nat.lt_succ_of_lt (sound.ids other used)
  · rw [next]
    exact Nat.succ_pos _

/-- A new comment is written. -/
theorem StateSound.comment (sound : StateSound host) {caller : Caller} {now : Int} {text : Bytes}
    (inUse : (host.posts place).inUse) (author : Settled (strip caller.name))
    (settled : Settled (strip (.print text : CText 511))) (order : (host.posts place).createdAt ≤ now) :
    StateSound (finishComment host place caller now text) := by
  obtain ⟨-, arrays, -⟩ := finishComment_posts host place caller now text
  have next := (finishComment_table host place caller now text).2
  have here := finishComment_here host place caller now text
  have there (other : Fin maxPosts) (away : other ≠ place) := finishComment_there host away caller now text
  have before (other : Fin maxPosts) (used : ((finishComment host place caller now text).posts other).inUse) :
      (host.posts other).inUse := by
    by_cases same : other = place
    · exact same ▸ inUse
    · exact there other same ▸ used
  have created := (sound.posts place inUse).created
  have written (comment : Comment) : (comment.written caller text now).Storable := by
    refine ⟨author, settled, ?_⟩
    change 0 < now
    change (946684800 : Int) ≤ (host.posts place).createdAt at created
    omega
  constructor
  · intro other used
    by_cases same : other = place
    · rw [same, here]
      exact { sound.posts place inUse with bumped := order }
    · rw [there other same] at used ⊢
      exact sound.posts other used
  · intro other used index inside
    have owner := finishComment_refs host place other caller now text
    have array : (finishComment host place caller now text).arrays (refs host other) index =
        if refs host other = refs host place ∧ index.val = (host.posts place).commentCount
          then (host.arrays (refs host place) index).written caller text now
            else host.arrays (refs host other) index := by
      rw [arrays]
      change update host.arrays (refs host place) _ (refs host other) index = _
      by_cases shared : refs host other = refs host place
      · rw [shared, update_self]
        simp only [true_and]
        rfl
      · rw [update_of_ne shared, if_neg fun both => shared both.1]
    rw [owner, array]
    split
    · exact written _
    next old =>
      apply sound.comments other (before other used)
      by_cases same : other = place
      · rw [same, here] at inside
        rw [same]
        have last : index.val ≠ (host.posts place).commentCount := fun last => old ⟨by rw [same], last⟩
        exact Nat.lt_of_le_of_ne (Nat.le_of_lt_succ inside) last
      · rw [there other same] at inside
        exact inside
  · intro other used
    rw [next]
    by_cases same : other = place
    · rw [same, here]
      exact sound.ids place inUse
    · rw [there other same] at used ⊢
      exact sound.ids other used
  · rw [next]
    exact sound.positive

end Frames

section Steps

variable {host : BbsHost} {caller : Caller} {moment : Moment}

theorem editComment_cases (host : BbsHost) (caller : Caller) (moment : Moment) (arguments : Bytes) :
    (∃ answer, editComment host caller moment arguments = (host, .refused answer)) ∨
      ∃ id index rest place position notice, host.commentEditEnabled ∧
        parseTarget arguments = some (id, index, rest) ∧ moment.clean ∧
          commentAt host id index = some (place, position) ∧
            mayChange caller (host.arrays (host.posts place).comments position) ∧
              editComment host caller moment arguments =
                (host.setComments place (changeAt index fun comment =>
                  { comment with
                    text := strip (.print (trimSpace ((rest.dropWhile (· = 32)).take 511))), editedAt := moment.now }),
                  .done notice) := by
  simp only [editComment]
  split
  · exact Or.inl ⟨_, rfl⟩
  · split
    · exact Or.inl ⟨_, rfl⟩
    next disabled =>
      split
      · exact Or.inl ⟨_, rfl⟩
      next id index rest parsed =>
        split
        · exact Or.inl ⟨_, rfl⟩
        · split
          · exact Or.inl ⟨_, rfl⟩
          next dirty =>
            split
            · exact Or.inl ⟨_, rfl⟩
            next place position found =>
              split
              next allowed =>
                exact Or.inr ⟨id, index, rest, place, position, _, Bool.eq_true_of_not_eq_false disabled, parsed,
                  Bool.eq_true_of_not_eq_false dirty, found, allowed, rfl⟩
              · exact Or.inl ⟨_, rfl⟩

theorem StateSound.editComment (sound : StateSound host) {arguments : Bytes}
    (storing : Storing host (.request caller moment (.editComment arguments))) :
    StateSound (boardStep host (.request caller moment (.editComment arguments))) := by
  rw [boardStep, serve]
  rcases editComment_cases host caller moment arguments with
    ⟨answer, same⟩ | ⟨id, index, rest, place, position, notice, enabled, parsed, clean, found, allowed, same⟩
  · rw [same]
    exact sound
  · have settled := storing id index rest place position enabled parsed clean found allowed
    rw [same]
    apply sound.setComments
    intro other used shared spot inside
    rw [← shared, changeAt]
    have before := sound.comments other used spot inside
    split
    · exact { before with text := settled }
    · exact before

theorem StateSound.commit (sound : StateSound host) {draft : Draft}
    (storing : Storing host (.request caller moment (.commit draft))) :
    StateSound (boardStep host (.request caller moment (.commit draft))) := by
  rw [boardStep, serve, commitPendingPost]
  split
  · exact sound
  next body =>
    split
    · exact sound
    next dirty =>
      have fits := storing body (Bool.eq_true_of_not_eq_false dirty)
      split
      next id editing =>
        rw [editing] at fits
        rw [commitEdit]
        split
        · exact sound
        next place found =>
          split
          next permitted =>
            obtain ⟨storable, order⟩ := fits place found permitted
            apply sound.setPost place (·.edited draft moment.now) rfl ⟨rfl, rfl⟩ fun _ => le_rfl
            intro _ before
            refine ⟨before.id, before.author, storable.title, storable.ordinary, storable.body, fun tag inside => ?_,
              before.created, order⟩
            have typed : ((host.posts place).edited draft moment.now).tags tag = strip (draft.tags tag) := if_pos inside
            rw [typed]
            exact storable.tags tag inside
          · exact sound
      next fresh =>
        rw [fresh] at fits
        cases free : firstFree Post.inUse host.posts with
        | none =>
          have full : commitNew host caller moment.now draft =
              (host, .refused (.line (str "The bulletin board is full right now."))) := by
            simp only [commitNew, allocatePost, free, Option.map_none]
          rw [full]
          exact sound
        | some place =>
          obtain ⟨allowed, named, storable, valid, small, uncommented⟩ := fits place free
          rw [commitNew_eq free allowed]
          exact sound.post named storable valid small uncommented

variable {event : BoardEvent}

/-- An event that writes what can be stored leaves only posts that can be stored. -/
theorem sound_of_storing (sound : StateSound host) (storing : Storing host event) :
    StateSound (boardStep host event) := by
  cases event with
  | mute => exact ⟨sound.posts, sound.comments, sound.ids, sound.positive⟩
  | unmute => exact ⟨sound.posts, sound.comments, sound.ids, sound.positive⟩
  | moderate =>
    rw [boardStep]
    split
    · exact sound
    next gone found => exact sound.clear (storing gone found)
  | request caller moment request =>
    by_cases commit : ∃ draft, request = .commit draft
    · obtain ⟨draft, rfl⟩ := commit
      exact sound.commit storing
    by_cases edit : ∃ arguments, request = .editComment arguments
    · obtain ⟨arguments, rfl⟩ := edit
      exact sound.editComment storing
    have served := serve_served host caller moment request
    rw [boardStep]
    generalize serve host caller moment request = result at served
    cases served with
    | refused => exact sound
    | taken draft => exact absurd ⟨draft, rfl⟩ commit
    | posted draft => exact absurd ⟨draft, rfl⟩ commit
    | edited draft => exact absurd ⟨draft, rfl⟩ commit
    | commented arguments text id place notice parsed found room clean held =>
      obtain ⟨author, settled, order⟩ := storing id text place parsed found room clean held
      exact sound.comment (findPost_formed found).1 author settled order
    | commentEdited arguments => exact absurd ⟨arguments, rfl⟩ edit
    | commentDeleted arguments id index place position notice found =>
      have inUse := (findPost_formed (commentAt_some found).1).1
      have shifted := sound.setComments place (shiftComments index (host.posts place).commentCount)
        fun other used shared spot inside => by
          rw [shiftComments]
          split
          next later =>
            split
            next moved => exact sound.comments place inUse ⟨spot.val + 1, later⟩ moved.2
            · exact shared ▸ sound.comments other used spot inside
          · exact shared ▸ sound.comments other used spot inside
      have counted := shifted.setPost place
        (fun post => { post with commentCount := (host.posts place).commentCount - 1 }) rfl ⟨rfl, rfl⟩
        (fun _ => Nat.sub_le _ 1) fun _ before => { before with }
      exact counted.tables (dropCommentVotes host.votes id index) host.notifications host.reports
    | upvoted id place before votes => exact (sound.balloted place before 1).tables votes _ _
    | downvoted id place before votes => exact (sound.balloted place before (-1)).tables votes _ _
    | commentVoted arguments rest id index place position direction before votes =>
      have voted := sound.setComments place (changeAt index (·.balloted before direction))
        fun other used shared spot inside => by
          have storable := shared ▸ sound.comments other used spot inside
          rw [changeAt]
          split
          · exact storable.balloted before direction
          · exact storable
      exact voted.tables votes host.notifications host.reports
    | reported arguments reports => exact sound.tables host.votes host.notifications reports
    | deleted id place queue notice found =>
      have cleared := sound.clear (storing place found)
      exact cleared.tables _ queue _
    | bumped id place notice found =>
      have order := storing place found
      exact sound.setPost place (fun post => { post with bumpedAt := moment.now }) rfl ⟨rfl, rfl⟩ (fun _ => le_rfl)
        fun _ before => { before with bumped := order }
    | flagged id place flag set flags reports =>
      have changed := sound.setPost place (fun post => { post with modFlags := flags post.modFlags }) rfl
        ⟨rfl, rfl⟩ (fun _ => le_rfl) fun _ before => { before with }
      exact changed.tables host.votes host.notifications reports

theorem nextId_queued (host : BbsHost) (queue : List Notification) :
    ({ host with notifications := queue } : BbsHost).nextId = host.nextId := rfl

/-- An event leaves the next identifier or counts it up. -/
theorem nextId_step (storing : Storing host event) :
    (boardStep host event).nextId = host.nextId ∨ (boardStep host event).nextId = host.nextId + 1 := by
  cases event with
  | mute => exact Or.inl rfl
  | unmute => exact Or.inl rfl
  | moderate =>
    rw [boardStep]
    split
    · exact Or.inl rfl
    next gone _ => exact Or.inl (clearPost_table host gone).2
  | request caller moment request =>
    have served := serve_served host caller moment request
    rw [boardStep]
    generalize serve host caller moment request = result at served
    cases served with
    | taken draft place answer free held body clean fresh =>
      have fits := storing body clean
      rw [fresh] at fits
      exact absurd held (fits place free).1
    | posted draft place notice free held body clean fresh =>
      have fits := storing body clean
      rw [fresh] at fits
      have next : (finishPost (host.allocateAt place moment.now) place caller moment.now draft).nextId =
          (host.nextId + 1) % 2 ^ 64 := (finishPost_rest _ place caller moment.now draft).2.1
      exact Or.inr (next.trans (Nat.mod_eq_of_lt (fits place free).2.2.2.2.1))
    | commented arguments text id place => exact Or.inl (finishComment_table host place caller moment.now text).2
    | deleted id place queue => exact Or.inl ((nextId_queued _ queue).trans (clearPost_table host place).2)
    | _ => exact Or.inl rfl

theorem issued_below (storing : Storing host event) :
    host.nextId ≤ (boardStep host event).nextId ∧ ∀ id ∈ issued host event, id < (boardStep host event).nextId := by
  rw [issued]
  rcases nextId_step storing with same | next
  · rw [if_pos same, same]
    exact ⟨le_rfl, fun _ inside => absurd inside List.not_mem_nil⟩
  · rw [if_neg (by omega), next]
    refine ⟨Nat.le_succ _, fun id inside => ?_⟩
    rw [List.mem_singleton.mp inside]
    exact Nat.lt_succ_self _

theorem survives_of_storing (sound : StateSound host) (storing : Storing host event) : Survives host event := by
  have after := sound_of_storing sound storing
  have posts (store : BbsHost) (clock : Int) (apart : Function.Injective (refs store))
      (recent : Recent (boardStep host event) clock) :
      stored (restarted store clock (boardStep host event)) = stored (boardStep host event) :=
    (restart_iff apart clock).mpr fun place used =>
      ⟨after.posts place used, after.comments place used, recent place used⟩
  have next (store : BbsHost) (clock : Int) : (restarted store clock (boardStep host event)).nextId =
      (boardStep host event).nextId := nextId_loadState after.positive after.ids
  refine ⟨posts, next, fun store clock apart recent => ?_⟩
  have same := posts store clock apart recent
  rw [saveState, saveState, next, ← stored_length, ← stored_length, same]

end Steps

abbrev StorableBoard : Type := { host : BbsHost // StateSound host }

/-- All along a run that writes what can be stored a restart restores the posts, and the next identifier that it
restores is larger than every identifier that the run gave out. -/
theorem posts_survive_restart (host : StorableBoard) (events : List BoardEvent)
    (storing : Along boardStep Storing host.val events) :
    Along boardStep Survives host.val events ∧ ∀ id ∈ emitted boardStep issued host.val events, ∀ store clock,
      id < (restarted store clock (run boardStep host.val events)).nextId := by
  constructor
  · exact along_along StateSound (fun _ _ sound storing => sound_of_storing sound storing)
      (fun _ _ sound storing => survives_of_storing sound storing) host.property storing
  · intro id given store clock
    have last := along_invariant StateSound (fun _ _ sound storing => sound_of_storing sound storing) host.property
      storing
    have below := (emitted_lt BbsHost.nextId StateSound (fun _ _ sound storing => sound_of_storing sound storing)
      (fun _ _ _ storing => issued_below storing) host.property storing).2 id given
    exact below.trans_eq (nextId_loadState last.positive last.ids).symm

theorem fresh_storable : StateSound .fresh where
  posts _ inUse := absurd inUse Bool.false_ne_true
  comments _ inUse := absurd inUse Bool.false_ne_true
  ids _ inUse := absurd inUse Bool.false_ne_true
  positive := by decide

/-- A new post in the year 2026 with a title. -/
def sampleTitle (title : Bytes) : BoardEvent :=
  .request operator ⟨1767225600, true⟩ (.commit { sampleDraft 'a' with title := .print title })

/-- A post of the operator survives. -/
theorem first_post_survives : Along boardStep Survives .fresh [sampleTitle (str "News")] ∧
    ∀ id ∈ emitted boardStep issued .fresh [sampleTitle (str "News")], ∀ store clock,
      id < (restarted store clock (run boardStep .fresh [sampleTitle (str "News")])).nextId := by
  have allowed : ¬ Held .fresh operator 1767225600 := by
    rintro (muted | quick)
    · revert muted
      decide +kernel
    · cases quick.1
  have named : operator.Named := by
    rw [Caller.Named, Settled]
    decide +kernel
  have storable : ({ sampleDraft 'a' with title := .print (str "News") } : Draft).Storable := by
    refine ⟨?_, by decide +kernel, ?_, fun tag inside => absurd inside (Nat.not_lt_zero _)⟩
    · rw [Settled]
      decide +kernel
    · rw [Settled]
      decide +kernel
  have storing : Storing .fresh (sampleTitle (str "News")) :=
    fun _ _ _ _ => ⟨allowed, named, storable, by decide, by decide, fun _ _ inUse => absurd inUse Bool.false_ne_true⟩
  exact posts_survive_restart ⟨.fresh, fresh_storable⟩ [sampleTitle (str "News")] ⟨storing, trivial⟩

/-- The loader strips a title again that the command stripped. -/
theorem nested_reset_altered : ¬ Along boardStep Survives .fresh [sampleTitle (str "[1[1GG x")] := by
  rintro ⟨first, -⟩
  have used : ((boardStep .fresh (sampleTitle (str "[1[1GG x"))).posts 0).inUse := by decide +kernel
  have recent : Recent (boardStep .fresh (sampleTitle (str "[1[1GG x"))) 1767225600 := by
    rw [Recent]
    decide +kernel
  have kept := (restart_iff fresh_sound.apart 1767225600).mp (first.posts .fresh 1767225600 fresh_sound.apart recent)
  have settled := (kept 0 used).1.title.2.2
  revert settled
  rw [Settled]
  decide +kernel

end SshChatter.Bbs
