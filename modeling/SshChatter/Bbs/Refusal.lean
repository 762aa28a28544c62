import SshChatter.Bbs.Ownership

namespace SshChatter.Bbs
open CString EventRun SlotTable

/-- A post can be listed: it has an identifier, an author and a title. -/
structure Formed (post : Post) : Prop where
  id : post.id ≠ 0
  author : post.author.text ≠ []
  title : post.title.text ≠ []

def AllFormed (host : BbsHost) : Prop := ∀ place, (host.posts place).inUse → Formed (host.posts place)

/-- A refused request changes nothing, and every slot in use is formed after an event. -/
structure RefusalKept (host : BbsHost) (event : BoardEvent) : Prop where
  refused : ∀ caller moment request, event = .request caller moment request →
    (serve host caller moment request).2.isDone = false → boardStep host event = host
  formed : AllFormed (boardStep host event)

/-- A pending post that reaches its slot is allowed and leaves a formed post there. -/
def CommitSound (host : BbsHost) (caller : Caller) (now : Int) (draft : Draft) : Prop :=
  match draft.editing with
  | none => (∃ place, (host.posts place).inUse = false) → ¬ Held host caller now ∧ host.nextId ≠ 0 ∧
      (strip caller.name).text ≠ [] ∧ (strip draft.title).text ≠ []
  | some id => ∀ place, findPost host id = some place →
      ((host.posts place).author = caller.name ∨ caller.privileged) → (strip draft.title).text ≠ []

def CommitsSound (host : BbsHost) : BoardEvent → Prop
  | .request caller moment (.commit draft) =>
    draft.body.text ≠ [] → moment.clean → CommitSound host caller moment.now draft
  | _ => True

section Frames

variable {host : BbsHost} {place : Fin maxPosts}

theorem findPost_formed {id : Nat} (found : findPost host id = some place) :
    (host.posts place).inUse ∧ (host.posts place).id = id := by
  rw [findPost] at found
  split_ifs at found
  have both := firstWith_some found
  rw [Bool.and_eq_true_iff, hasRequiredFields, decide_eq_true_iff, beq_iff_eq] at both
  exact ⟨both.1.1, both.2⟩

theorem commentAt_some {id index : Nat} {position : Fin maxComments} (found : commentAt host id index =
    some (place, position)) :
    findPost host id = some place ∧ position.val = index ∧ index < (host.posts place).commentCount := by
  rw [commentAt] at found
  split at found
  · cases found
  next here known =>
    split_ifs at found with inside before
    cases found
    exact ⟨known, rfl, before⟩

theorem formed_change {after : BbsHost} (formed : AllFormed host) (place : Fin maxPosts) (change : Post → Post)
    (posts : after.posts = (host.setPost place change).posts)
    (here : (change (host.posts place)).inUse → Formed (change (host.posts place))) : AllFormed after := by
  intro other inUse
  rw [posts] at inUse ⊢
  by_cases same : other = place
  · rw [same, setPost_here] at inUse ⊢
    exact here inUse
  · rw [setPost_other change same] at inUse ⊢
    exact formed other inUse

theorem formed_notifications (queue : List Notification) (formed : AllFormed host) :
    AllFormed { host with notifications := queue } := formed

theorem finishPost_posts (host : BbsHost) (place : Fin maxPosts) (caller : Caller) (now : Int) (draft : Draft) :
    (finishPost host place caller now draft).posts = (host.setPost place (·.written caller draft)).posts := by
  have limited := (limitCaller_posts (host.setPost place (·.written caller draft)) caller
    fun limit => { limit with lastPostAt := now }).1
  exact limited

theorem clearPost_formed (formed : AllFormed host) (gone : Fin maxPosts) : AllFormed (clearPost host gone) := by
  intro place inUse
  have front : place.val < remaining host gone := of_decide_eq_true ((clearPost_inUse place).symm.trans inUse)
  rw [(clearPost_spec host gone).2.1 place, if_neg (not_le.mpr front)] at inUse ⊢
  have stays := inUse
  rw [reset_inUse, Bool.and_eq_true_iff, decide_eq_true_iff] at stays
  rw [resetPost_posts, Function.update_of_ne stays.1]
  exact formed _ stays.2

theorem balloted_fields (before : Option Int) (direction : Int) (post : Post) :
    (post.balloted before direction).id = post.id ∧ (post.balloted before direction).author = post.author ∧
      (post.balloted before direction).title = post.title ∧ (post.balloted before direction).inUse = post.inUse := by
  cases before with
  | none =>
    rw [Post.balloted, Post.tally]
    split <;> exact ⟨rfl, rfl, rfl, rfl⟩
  | some =>
    rw [Post.balloted, Post.tally, Post.tally]
    split <;> split <;> exact ⟨rfl, rfl, rfl, rfl⟩

theorem Formed.balloted {post : Post} (formed : Formed post) (before : Option Int) (direction : Int) :
    Formed (post.balloted before direction) := by
  obtain ⟨id, author, title, -⟩ := balloted_fields before direction post
  exact ⟨id ▸ formed.id, author ▸ formed.author, title ▸ formed.title⟩

end Frames

section Steps

variable {host : BbsHost} {caller : Caller} {moment : Moment}

theorem kept_unchanged {request : Request} (formed : AllFormed host) (answer : Answer)
    (same : serve host caller moment request = (host, .refused answer)) :
    RefusalKept host (.request caller moment request) := by
  constructor
  · intro caller' moment' request' equal _
    cases equal
    rw [boardStep, same]
  · rw [boardStep, same]
    exact formed

/-- A request other than a commit keeps the slots formed, and it changes nothing when it is refused. -/
theorem kept_request (formed : AllFormed host) {request : Request} (other : ∀ draft, request ≠ .commit draft) :
    RefusalKept host (.request caller moment request) := by
  have served := serve_served host caller moment request
  constructor
  · intro caller' moment' request' same refused
    cases same
    rw [boardStep]
    generalize serve host caller moment request = result at served refused
    cases served with
    | refused => rfl
    | taken draft => exact absurd rfl (other draft)
    | _ => cases refused
  · rw [boardStep]
    generalize serve host caller moment request = result at served
    cases served with
    | refused => exact formed
    | taken draft => exact absurd rfl (other draft)
    | posted draft => exact absurd rfl (other draft)
    | edited draft => exact absurd rfl (other draft)
    | commented arguments text id place =>
      refine formed_change formed place _ (finishComment_posts host place caller moment.now text).1 fun inUse => ?_
      exact ⟨(formed place inUse).id, (formed place inUse).author, (formed place inUse).title⟩
    | commentEdited => exact formed
    | commentDeleted arguments id index place =>
      refine formed_change formed place (fun post => { post with commentCount := (host.posts place).commentCount - 1 })
        rfl fun inUse => ?_
      exact ⟨(formed place inUse).id, (formed place inUse).author, (formed place inUse).title⟩
    | upvoted id place before votes notice found =>
      refine formed_change formed place (·.balloted before 1) rfl fun _ => ?_
      exact (formed place (findPost_formed found).1).balloted before 1
    | downvoted id place before votes notice found =>
      refine formed_change formed place (·.balloted before (-1)) rfl fun _ => ?_
      exact (formed place (findPost_formed found).1).balloted before (-1)
    | commentVoted =>
      exact formed
    | reported => exact formed
    | deleted id place queue => exact formed_notifications queue (clearPost_formed formed place)
    | bumped id place =>
      refine formed_change formed place (fun post => { post with bumpedAt := moment.now }) rfl fun inUse => ?_
      exact ⟨(formed place inUse).id, (formed place inUse).author, (formed place inUse).title⟩
    | flagged id place flag set flags =>
      refine formed_change formed place (fun post => { post with modFlags := flags post.modFlags }) rfl fun inUse => ?_
      exact ⟨(formed place inUse).id, (formed place inUse).author, (formed place inUse).title⟩

variable {place : Fin maxPosts} {draft : Draft}

theorem commitNew_eq (free : firstFree Post.inUse host.posts = some place) (allowed : ¬ Held host caller moment.now) :
    commitNew host caller moment.now draft =
      (finishPost (host.allocateAt place moment.now) place caller moment.now draft, .done (str "Post created.")) := by
  obtain ⟨heard, calm⟩ := not_or.mp allowed
  have heard' : ¬ muteBlocks (host.allocateAt place moment.now) caller moment.now := heard
  have calm' : ¬ (caller.privileged = false ∧
      postsTooQuickly (host.allocateAt place moment.now) caller moment.now) := calm
  rw [commitNew, allocatePost, free]
  simp only [Option.map_some]
  rw [if_neg heard', if_neg calm']

theorem commitNew_held (draft : Draft) (free : firstFree Post.inUse host.posts = some place)
    (held : Held host caller moment.now) : ∃ answer, commitNew host caller moment.now draft =
      (host.allocateAt place moment.now, .refused answer) := by
  rw [commitNew, allocatePost, free]
  simp only [Option.map_some]
  split
  · exact ⟨_, rfl⟩
  next heard =>
    have quick := held.resolve_left heard
    exact ⟨_, if_pos quick⟩

/-- The slot of a new post. -/
theorem finished_fields (host : BbsHost) (place : Fin maxPosts) (caller : Caller) (now : Int) (draft : Draft) :
    ((finishPost (host.allocateAt place now) place caller now draft).posts place).inUse ∧
      ((finishPost (host.allocateAt place now) place caller now draft).posts place).id = host.nextId ∧
      ((finishPost (host.allocateAt place now) place caller now draft).posts place).author = strip caller.name ∧
      ((finishPost (host.allocateAt place now) place caller now draft).posts place).title = strip draft.title := by
  rw [finishPost_posts, setPost_here, allocateAt_posts, Function.update_self]
  exact ⟨rfl, rfl, rfl, rfl⟩

/-- A new post keeps the slots formed exactly when it may be made and is formed. -/
theorem kept_commitNew (formed : AllFormed host) (body : draft.body.text ≠ []) (clean : moment.clean)
    (fresh : draft.editing = none) (free : firstFree Post.inUse host.posts = some place) :
    RefusalKept host (.request caller moment (.commit draft)) ↔ ¬ Held host caller moment.now ∧ host.nextId ≠ 0 ∧
      (strip caller.name).text ≠ [] ∧ (strip draft.title).text ≠ [] := by
  have served : serve host caller moment (.commit draft) = commitNew host caller moment.now draft := by
    rw [serve, commitPendingPost, if_neg body, if_neg (by rw [clean]; decide), fresh]
  have unused := firstFree_some free
  by_cases held : Held host caller moment.now
  · refine iff_of_false (fun kept => ?_) fun all => all.1 held
    obtain ⟨answer, same⟩ := commitNew_held draft free held
    have unchanged := kept.refused caller moment (.commit draft) rfl (by rw [served, same]; rfl)
    rw [boardStep, served, same] at unchanged
    have taken : (host.posts place).inUse := by
      rw [← unchanged, allocateAt_posts, Function.update_self]
      rfl
    rw [unused] at taken
    cases taken
  · have step : boardStep host (.request caller moment (.commit draft)) =
        finishPost (host.allocateAt place moment.now) place caller moment.now draft := by
      rw [boardStep, served, commitNew_eq free held]
    obtain ⟨inUse, id, author, title⟩ := finished_fields host place caller moment.now draft
    constructor
    · intro kept
      have here := kept.formed place (by rw [step]; exact inUse)
      rw [step] at here
      exact ⟨held, id ▸ here.id, author ▸ here.author, title ▸ here.title⟩
    · rintro ⟨-, number, name, titled⟩
      constructor
      · intro caller' moment' request' same refused
        cases same
        rw [served, commitNew_eq free held] at refused
        cases refused
      · rw [step]
        intro other inUse'
        by_cases here : other = place
        · rw [here]
          exact ⟨id ▸ number, author ▸ name, title ▸ titled⟩
        · rw [finishPost_posts, setPost_other _ here, allocateAt_posts, Function.update_of_ne here] at inUse' ⊢
          exact formed other inUse'

/-- An edit keeps the slots formed exactly when it leaves a title. -/
theorem kept_commitEdit {id : Nat} (formed : AllFormed host) (body : draft.body.text ≠ [])
    (clean : moment.clean) (editing : draft.editing = some id) :
    RefusalKept host (.request caller moment (.commit draft)) ↔ ∀ place, findPost host id = some place →
      ((host.posts place).author = caller.name ∨ caller.privileged) → (strip draft.title).text ≠ [] := by
  have served : serve host caller moment (.commit draft) = commitEdit host caller moment.now draft id := by
    rw [serve, commitPendingPost, if_neg body, if_neg (by rw [clean]; decide), editing]
  cases found : findPost host id with
  | none =>
    refine iff_of_true (kept_unchanged formed (.line (str "No post exists with that identifier anymore.")) ?_)
      fun place none' => by cases none'
    rw [served, commitEdit, found]
  | some place =>
    by_cases permitted : (host.posts place).author = caller.name ∨ caller.privileged
    · have same : commitEdit host caller moment.now draft id =
          (host.setPost place (·.edited draft moment.now), .done (str "Post updated.")) := by
        rw [commitEdit, found]
        exact if_pos permitted
      have inUse := (findPost_formed found).1
      have before := formed place inUse
      constructor
      · intro kept place' found' _
        cases found'
        have after := kept.formed place
        rw [boardStep, served, same, setPost_here] at after
        exact (after inUse).title
      · intro titled
        constructor
        · intro caller' moment' request' equal refused
          cases equal
          rw [served, same] at refused
          cases refused
        · rw [boardStep, served, same]
          exact formed_change formed place _ rfl fun _ => ⟨before.id, before.author, titled place rfl permitted⟩
    · refine iff_of_true (kept_unchanged formed
        (.line (str "Only the author or an operator may edit this post.")) ?_) fun place' found' allowed => ?_
      · rw [served, commitEdit, found]
        exact if_neg permitted
      · cases found'
        exact absurd allowed permitted

theorem kept_iff_sound (formed : AllFormed host) (event : BoardEvent) : RefusalKept host event ↔
    CommitsSound host event := by
  cases event with
  | request caller moment request =>
    cases request with
    | commit draft =>
      by_cases ready : draft.body.text ≠ [] ∧ moment.clean
      · obtain ⟨body, clean⟩ := ready
        have unfolded : CommitsSound host (.request caller moment (.commit draft)) ↔
            CommitSound host caller moment.now draft :=
          ⟨fun sound => sound body clean, fun sound _ _ => sound⟩
        rw [unfolded, CommitSound]
        cases editing : draft.editing with
        | none =>
          cases free : firstFree Post.inUse host.posts with
          | none =>
            have full := firstFree_none.mp free
            have same : serve host caller moment (.commit draft) =
                (host, .refused (.line (str "The bulletin board is full right now."))) := by
              rw [serve, commitPendingPost, if_neg body, if_neg (by rw [clean]; decide), editing]
              simp only [commitNew, allocatePost, free, Option.map_none]
            refine iff_of_true (kept_unchanged formed _ same) ?_
            rintro ⟨place, unused⟩
            rw [full place] at unused
            cases unused
          | some place =>
            rw [kept_commitNew formed body clean editing free]
            exact ⟨fun all _ => all, fun all => all ⟨place, firstFree_some free⟩⟩
        | some => exact kept_commitEdit formed body clean editing
      · have idle : ∃ answer, serve host caller moment (.commit draft) = (host, .refused answer) := by
          rw [serve, commitPendingPost]
          by_cases empty : draft.body.text = []
          · exact ⟨_, if_pos empty⟩
          · rw [if_neg empty]
            exact ⟨_, if_pos (Bool.eq_false_iff.mpr fun clean => ready ⟨empty, clean⟩)⟩
        obtain ⟨answer, same⟩ := idle
        exact iff_of_true (kept_unchanged formed answer same) fun body clean => absurd ⟨body, clean⟩ ready
    | _ => exact iff_of_true (kept_request formed fun _ same => by cases same) trivial
  | moderate =>
    refine iff_of_true ⟨by rintro _ _ _ ⟨⟩, ?_⟩ trivial
    rw [boardStep]
    split
    · exact formed
    · exact clearPost_formed formed _
  | mute => exact iff_of_true ⟨by rintro _ _ _ ⟨⟩, formed⟩ trivial
  | unmute => exact iff_of_true ⟨by rintro _ _ _ ⟨⟩, formed⟩ trivial

end Steps

abbrev FormedBoard : Type := { host : BbsHost // AllFormed host }

/-- A run refuses without a trace and leaves no nameless post exactly when what it commits is sound. -/
theorem refusals_change_nothing (host : FormedBoard) (events : List BoardEvent) :
    Along boardStep RefusalKept host.val events ↔ Along boardStep CommitsSound host.val events :=
  along_iff_kept AllFormed (fun _ _ _ kept => kept.formed) (fun _ event formed => kept_iff_sound formed event)
    host.property events

def guest : Caller where
  name := .print (str "guest")
  isOperator := false
  isLanOperator := false
  boardId := 0
  viewing := 0

/-- A muted guest takes a slot. -/
theorem muted_guest_takes_slot : ¬ Along boardStep RefusalKept .fresh
    [.mute (.print (str "guest")) 0 (.print (str "root")) 900,
      .request guest ⟨1000, true⟩ (.commit (sampleDraft 'a'))] := by
  rintro ⟨first, second, -⟩
  have sound := (kept_iff_sound first.formed _).mp second (by decide +kernel) rfl
  have muted : muteBlocks (boardStep .fresh (.mute (.print (str "guest")) 0 (.print (str "root")) 900)) guest 1000 := by
    decide +kernel
  exact (sound ⟨0, by decide +kernel⟩).1 (Or.inl muted)

end SshChatter.Bbs
