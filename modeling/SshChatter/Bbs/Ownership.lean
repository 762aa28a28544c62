import SshChatter.Lib.EventRun
import SshChatter.Bbs.Served

namespace SshChatter.Bbs
open CString EventRun SlotTable Function List

/-- The array that each slot refers to. -/
def refs (host : BbsHost) : Fin maxPosts → Fin maxPosts := fun place => (host.posts place).comments

def commentsOf (host : BbsHost) (place : Fin maxPosts) : List Comment :=
  ((finRange maxComments).take (host.posts place).commentCount).map (host.arrays (refs host place))

/-- A post with its comments as they can be read, without the reference. -/
def shown (host : BbsHost) (place : Fin maxPosts) : PostRecord × List Comment :=
  ((host.posts place).toPostRecord, commentsOf host place)

def board (host : BbsHost) : List (PostRecord × List Comment) := (usedPlaces Post.inUse host.posts).map (shown host)

/-- Distinct slots refer to distinct arrays, and the count is the number of slots in use. -/
structure BoardSound (host : BbsHost) : Prop where
  apart : Function.Injective (refs host)
  count : host.postCount = usedCount Post.inUse host.posts

def removal (host : BbsHost) : BoardEvent → Option (Fin maxPosts)
  | .request caller _ (.delete id) => deletable host caller id
  | .moderate id => findPost host id
  | _ => none

def commented (host : BbsHost) : BoardEvent → Option (Fin maxPosts)
  | .request caller _ (.comment arguments) =>
    (parseComment caller arguments).bind fun parsed => findPost host parsed.1
  | _ => none

/-- The board is sound after an event. A removal takes exactly the one post away, and a comment shows in its own post
only. -/
structure EventKept (host : BbsHost) (event : BoardEvent) : Prop where
  sound : BoardSound (boardStep host event)
  removes : ∀ gone, removal host event = some gone →
    board (boardStep host event) = ((usedPlaces Post.inUse host.posts).filter (· ≠ gone)).map (shown host)
  comments : ∀ place, commented host event = some place → ∀ other, other ≠ place →
    shown (boardStep host event) other = shown host other

/-- A removal leaves no gap: every slot in use stands in front of every free slot and of the post that goes. -/
def NothingMoves (host : BbsHost) (event : BoardEvent) : Prop :=
  ∀ gone, removal host event = some gone → ∀ place, (host.posts place).inUse → place ≠ gone →
    ∀ other < place, (host.posts other).inUse ∧ other ≠ gone

section Frames

variable {host after : BbsHost} {place other : Fin maxPosts}

/-- The slots are in use and refer to arrays as before. -/
structure SameSlots (host after : BbsHost) : Prop where
  inUse : ∀ place, (after.posts place).inUse = (host.posts place).inUse
  refs : refs after = refs host
  count : after.postCount = host.postCount

theorem SameSlots.symm (same : SameSlots host after) : SameSlots after host :=
  ⟨fun place => (same.inUse place).symm, same.refs.symm, same.count.symm⟩

theorem SameSlots.trans {last : BbsHost} (first : SameSlots host after) (second : SameSlots after last) :
    SameSlots host last :=
  ⟨fun place => (second.inUse place).trans (first.inUse place), second.refs.trans first.refs,
    second.count.trans first.count⟩

theorem SameSlots.sound (same : SameSlots host after) (sound : BoardSound host) : BoardSound after where
  apart := by
    rw [same.refs]
    exact sound.apart
  count := by
    rw [same.count, sound.count]
    exact Finset.sum_congr rfl fun place _ => congrArg Bool.toNat (same.inUse place).symm

variable (change : Post → Post)

theorem setPost_other (away : other ≠ place) : (host.setPost place change).posts other = host.posts other :=
  update_of_ne away _ _

theorem setPost_here : (host.setPost place change).posts place = change (host.posts place) :=
  update_self _ _ _

theorem sameSlots_setPost (host : BbsHost) (place : Fin maxPosts) (change : Post → Post)
    (inUse : (change (host.posts place)).inUse = (host.posts place).inUse)
    (comments : (change (host.posts place)).comments = (host.posts place).comments) :
    SameSlots host (host.setPost place change) where
  inUse other := by
    by_cases here : other = place
    · rw [here, setPost_here, inUse]
    · rw [setPost_other change here]
  refs := by
    funext other
    by_cases here : other = place
    · rw [here, refs, setPost_here, comments]
      rfl
    · rw [refs, setPost_other change here]
      rfl
  count := rfl

theorem sameSlots_setComments (host : BbsHost) (place : Fin maxPosts) (change : CommentArray → CommentArray) :
    SameSlots host (host.setComments place change) := ⟨fun _ => rfl, rfl, rfl⟩

theorem limitCaller_posts (host : BbsHost) (caller : Caller) (change : RateLimit → RateLimit) :
    (limitCaller host caller change).posts = host.posts ∧ (limitCaller host caller change).arrays = host.arrays ∧
      (limitCaller host caller change).postCount = host.postCount := by
  rw [limitCaller]
  split
  · exact ⟨rfl, rfl, rfl⟩
  · exact ⟨rfl, rfl, rfl⟩

theorem limitCaller_table (host : BbsHost) (caller : Caller) (change : RateLimit → RateLimit) :
    (limitCaller host caller change).votes = host.votes ∧ (limitCaller host caller change).nextId = host.nextId := by
  rw [limitCaller]
  split
  · exact ⟨rfl, rfl⟩
  · exact ⟨rfl, rfl⟩

theorem sameSlots_of (posts : after.posts = host.posts) (count : after.postCount = host.postCount) :
    SameSlots host after :=
  ⟨fun place => by rw [posts], congrArg (fun posts place => (posts place).comments) posts, count⟩

theorem sameSlots_votes (host : BbsHost) (votes : List Vote) : SameSlots host { host with votes := votes } :=
  ⟨fun _ => rfl, rfl, rfl⟩

theorem sameSlots_notifications (host : BbsHost) (queue : List Notification) :
    SameSlots host { host with notifications := queue } := ⟨fun _ => rfl, rfl, rfl⟩

theorem board_notifications (host : BbsHost) (queue : List Notification) :
    board { host with notifications := queue } = board host := rfl

theorem sameSlots_reports (host : BbsHost) (reports : List Report) : SameSlots host { host with reports := reports } :=
  ⟨fun _ => rfl, rfl, rfl⟩

theorem sameSlots_mutes (host : BbsHost) (mutes : List Mute) : SameSlots host { host with mutes := mutes } :=
  ⟨fun _ => rfl, rfl, rfl⟩

theorem sameSlots_limit (host : BbsHost) (caller : Caller) (change : RateLimit → RateLimit) :
    SameSlots host (limitCaller host caller change) :=
  sameSlots_of (limitCaller_posts host caller change).1 (limitCaller_posts host caller change).2.2

theorem sameSlots_notify (host : BbsHost) (text : Bytes) (actor : UserName) (postId : Nat) (commentIdx now : Int) :
    SameSlots host (notifyMentions host text actor postId commentIdx now) := sameSlots_of rfl rfl

theorem sameSlots_finishPost (host : BbsHost) (place : Fin maxPosts) (caller : Caller) (now : Int) (draft : Draft) :
    SameSlots host (finishPost host place caller now draft) := by
  have written := sameSlots_setPost host place (·.written caller draft) rfl rfl
  have limited := sameSlots_limit (host.setPost place (·.written caller draft)) caller
    fun limit => { limit with lastPostAt := now }
  exact (written.trans limited).trans ((sameSlots_notify _ _ _ _ _ _).trans (sameSlots_notify _ _ _ _ _ _))

theorem finishPost_rest (host : BbsHost) (place : Fin maxPosts) (caller : Caller) (now : Int) (draft : Draft) :
    (finishPost host place caller now draft).votes = host.votes ∧ (finishPost host place caller now draft).nextId =
      host.nextId ∧ (finishPost host place caller now draft).arrays = host.arrays := by
  have table := limitCaller_table (host.setPost place (·.written caller draft)) caller
    fun limit => { limit with lastPostAt := now }
  have posts := limitCaller_posts (host.setPost place (·.written caller draft)) caller
    fun limit => { limit with lastPostAt := now }
  exact ⟨table.1, table.2, posts.2.1⟩

theorem finishComment_posts (host : BbsHost) (place : Fin maxPosts) (caller : Caller) (now : Int) (text : Bytes) :
    (finishComment host place caller now text).posts =
        (host.setPost place fun post =>
          { post with commentCount := (host.posts place).commentCount + 1, bumpedAt := now }).posts ∧
      (finishComment host place caller now text).arrays =
        (host.setComments place (changeAt (host.posts place).commentCount (·.written caller text now))).arrays ∧
      (finishComment host place caller now text).postCount = host.postCount := by
  obtain ⟨posts, arrays, count⟩ := limitCaller_posts
    ((host.setComments place (changeAt (host.posts place).commentCount (·.written caller text now))).setPost place
      fun post =>
      { post with commentCount := (host.posts place).commentCount + 1, bumpedAt := now }) caller
    fun limit => { limit with lastCommentAt := now }
  simp only [finishComment, notifyMentions]
  split
  · exact ⟨posts, arrays, count⟩
  · exact ⟨posts, arrays, count⟩

theorem finishComment_here (host : BbsHost) (place : Fin maxPosts) (caller : Caller) (now : Int) (text : Bytes) :
    (finishComment host place caller now text).posts place =
      { host.posts place with commentCount := (host.posts place).commentCount + 1, bumpedAt := now } := by
  rw [(finishComment_posts host place caller now text).1, setPost_here]

theorem finishComment_there (host : BbsHost) {place other : Fin maxPosts} (away : other ≠ place) (caller : Caller)
    (now : Int) (text : Bytes) : (finishComment host place caller now text).posts other = host.posts other := by
  rw [(finishComment_posts host place caller now text).1, setPost_other _ away]

theorem finishComment_refs (host : BbsHost) (place other : Fin maxPosts) (caller : Caller) (now : Int) (text : Bytes) :
    refs (finishComment host place caller now text) other = refs host other := by
  by_cases same : other = place
  · rw [same, refs, finishComment_here]
    rfl
  · rw [refs, finishComment_there host same]
    rfl

theorem finishComment_table (host : BbsHost) (place : Fin maxPosts) (caller : Caller) (now : Int) (text : Bytes) :
    (finishComment host place caller now text).votes = host.votes ∧
      (finishComment host place caller now text).nextId = host.nextId := by
  have limited := limitCaller_table
    ((host.setComments place (changeAt (host.posts place).commentCount (·.written caller text now))).setPost place
      fun post =>
      { post with commentCount := (host.posts place).commentCount + 1, bumpedAt := now }) caller
    fun limit => { limit with lastCommentAt := now }
  simp only [finishComment, notifyMentions]
  split <;> exact limited

theorem sameSlots_finishComment (host : BbsHost) (place : Fin maxPosts) (caller : Caller) (now : Int) (text : Bytes) :
    SameSlots host (finishComment host place caller now text) := by
  obtain ⟨posts, -, count⟩ := finishComment_posts host place caller now text
  exact (sameSlots_setPost host place _ rfl rfl).trans (sameSlots_of posts count)

theorem sameSlots_balloted (host : BbsHost) (place : Fin maxPosts) (before : Option Int) (direction : Int) :
    SameSlots host (host.setPost place (·.balloted before direction)) := by
  apply sameSlots_setPost
  · cases before <;> simp only [Post.balloted, Post.tally] <;> split <;> (try split) <;> rfl
  · cases before <;> simp only [Post.balloted, Post.tally] <;> split <;> (try split) <;> rfl

end Frames

section Removal

variable {host : BbsHost} {gone place : Fin maxPosts}

theorem resetPost_posts (host : BbsHost) (place : Fin maxPosts) :
    (resetPost host place).posts = update host.posts place (host.posts place).reset := rfl

theorem resetPost_arrays (host : BbsHost) (place : Fin maxPosts) :
    (resetPost host place).arrays = update host.arrays (refs host place)
      fun index => (host.arrays (refs host place) index).reset := rfl

theorem resetPost_refs (host : BbsHost) (place : Fin maxPosts) : refs (resetPost host place) = refs host := by
  funext other
  rw [refs, resetPost_posts]
  by_cases here : other = place
  · rw [here, update_self]
    rfl
  · rw [update_of_ne here]
    rfl

variable (places : List (Fin maxPosts))

theorem resetPosts (host : BbsHost) :
    refs (places.foldl resetPost host) = refs host ∧
      (∀ place, (places.foldl resetPost host).posts place =
        if place ∈ places then (host.posts place).reset else host.posts place) ∧
      ∀ ref, (∀ place ∈ places, refs host place ≠ ref) → (places.foldl resetPost host).arrays ref =
        host.arrays ref := by
  induction places generalizing host with
  | nil => exact ⟨rfl, fun _ => (if_neg not_mem_nil).symm, fun _ _ => rfl⟩
  | cons first rest ih =>
    obtain ⟨owners, posts, arrays⟩ := ih (resetPost host first)
    rw [foldl_cons]
    refine ⟨owners.trans (resetPost_refs host first), fun place => ?_, fun ref away => ?_⟩
    · rw [posts place, resetPost_posts]
      by_cases here : place = first
      · rw [here, update_self, if_pos mem_cons_self]
        split <;> rfl
      · simp only [update_of_ne here, mem_cons, here, false_or]
    · have others : ∀ place ∈ rest, refs (resetPost host first) place ≠ ref := by
        intro place inside
        rw [resetPost_refs]
        exact away place (mem_cons_of_mem first inside)
      rw [arrays ref others, resetPost_arrays, update_of_ne (away first mem_cons_self).symm]

theorem resetTail_spec (host : BbsHost) (count : Nat) :
    refs (resetTail host count) = refs host ∧
      (∀ place, (resetTail host count).posts place =
        if count ≤ place.val then (host.posts place).reset else host.posts place) ∧
      ∀ ref, (∀ place : Fin maxPosts, count ≤ place.val → refs host place ≠ ref) →
        (resetTail host count).arrays ref = host.arrays ref := by
  have member (place : Fin maxPosts) :
      (place ∈ (finRange maxPosts).filter fun place => count ≤ place.val) ↔ count ≤ place.val := by
    rw [mem_filter, and_iff_right (mem_finRange place), decide_eq_true_iff]
  obtain ⟨owners, posts, arrays⟩ := resetPosts ((finRange maxPosts).filter fun place => count ≤ place.val) host
  rw [resetTail]
  refine ⟨owners, fun place => ?_, fun ref away => arrays ref fun place inside => away place ((member place).mp inside)⟩
  rw [posts place]
  simp only [member]

def staying (host : BbsHost) (gone : Fin maxPosts) : List (Fin maxPosts) :=
    usedPlaces Post.inUse (resetPost host gone).posts

theorem reset_inUse (place : Fin maxPosts) :
    ((resetPost host gone).posts place).inUse = (decide (place ≠ gone) && (host.posts place).inUse) := by
  rw [resetPost_posts]
  by_cases here : place = gone
  · rw [here, update_self, decide_eq_false (not_not.mpr rfl)]
    rfl
  · rw [update_of_ne here, decide_eq_true here, Bool.true_and]

theorem staying_eq : staying host gone = (usedPlaces Post.inUse host.posts).filter (· ≠ gone) := by
  rw [staying, usedPlaces, usedPlaces, filter_filter]
  congr 1
  funext place
  exact reset_inUse place

def origin (host : BbsHost) (gone place : Fin maxPosts) :
    Fin maxPosts := source Post.inUse (resetPost host gone).posts place

/-- The number of slots that stay in use. -/
def remaining (host : BbsHost) (gone : Fin maxPosts) : Nat := usedCount Post.inUse (resetPost host gone).posts

theorem compactPosts_posts (host : BbsHost) (place : Fin maxPosts) :
    (compactPosts host).posts place = host.posts (source Post.inUse host.posts place) := by
  simp only [compactPosts, compact_apply]

theorem refs_count (host : BbsHost) (count : Nat) : refs { host with postCount := count } = refs host := rfl

/-- What a removal does: the slots move to the front, and what stands behind them is reset. -/
theorem clearPost_spec (host : BbsHost) (gone : Fin maxPosts) :
    (∀ place, refs (clearPost host gone) place = refs host (origin host gone place)) ∧
      (∀ place, (clearPost host gone).posts place = if remaining host gone ≤ place.val
        then ((resetPost host gone).posts (origin host gone place)).reset
        else (resetPost host gone).posts (origin host gone place)) ∧
      (clearPost host gone).postCount = remaining host gone := by
  have count : (compact Post.inUse (resetPost host gone).posts).2 = remaining host gone := compact_count
  obtain ⟨owners, posts, -⟩ := resetTail_spec (compactPosts (resetPost host gone)) (remaining host gone)
  rw [clearPost, count, refs_count]
  refine ⟨fun place => ?_, fun place => ?_, rfl⟩
  · rw [owners, origin, ← congrFun (resetPost_refs host gone), refs, refs, compactPosts_posts]
  · simp only [posts, compactPosts_posts, origin]

theorem clearPost_arrays (host : BbsHost) (gone : Fin maxPosts) : (clearPost host gone).arrays =
    (resetTail (compactPosts (resetPost host gone)) (remaining host gone)).arrays := by
  simp only [clearPost, remaining, compact_count]

theorem clearPost_inUse (place : Fin maxPosts) :
    ((clearPost host gone).posts place).inUse = decide (place.val < remaining host gone) := by
  rw [(clearPost_spec host gone).2.1 place]
  by_cases behind : remaining host gone ≤ place.val
  · rw [if_pos behind, decide_eq_false (not_lt.mpr behind)]
    rfl
  · have front := source_front (Nat.lt_of_not_le behind)
    rw [if_neg behind, decide_eq_true (Nat.lt_of_not_le behind)]
    exact front

theorem clearPost_slot (inUse : ((clearPost host gone).posts place).inUse) :
    place.val < remaining host gone ∧ origin host gone place ≠ gone ∧ (host.posts (origin host gone place)).inUse ∧
      (clearPost host gone).posts place = host.posts (origin host gone place) := by
  have front : place.val < remaining host gone := of_decide_eq_true ((clearPost_inUse place).symm.trans inUse)
  have stays := inUse
  rw [(clearPost_spec host gone).2.1 place, if_neg (not_le.mpr front), reset_inUse, Bool.and_eq_true_iff,
    decide_eq_true_iff] at stays
  refine ⟨front, stays.1, stays.2, ?_⟩
  rw [(clearPost_spec host gone).2.1 place, if_neg (not_le.mpr front), resetPost_posts, update_of_ne stays.1]

theorem clearPost_array {ref : Fin maxPosts} (away : refs host gone ≠ ref)
    (behind : ∀ other : Fin maxPosts, remaining host gone ≤ other.val → refs host other ≠ ref) :
    (clearPost host gone).arrays ref = host.arrays ref := by
  have tail := (resetTail_spec (compactPosts (resetPost host gone)) (remaining host gone)).2.2 ref
    fun other back => by
      have moved : refs (compactPosts (resetPost host gone)) other = refs host other := by
        rw [refs, compactPosts_posts, source_behind back]
        exact congrFun (resetPost_refs host gone) other
      rw [moved]
      exact behind other back
  have reset : (compactPosts (resetPost host gone)).arrays ref = host.arrays ref := by
    exact update_of_ne away.symm _ _
  rw [clearPost_arrays]
  exact tail.trans reset

/-- Nothing stands in use behind a gap once the post is gone. -/
theorem packed_iff : Packed Post.inUse (resetPost host gone).posts ↔ ∀ place, (host.posts place).inUse →
    place ≠ gone → ∀ other < place, (host.posts other).inUse ∧ other ≠ gone := by
  have inUse (place : Fin maxPosts) : ((resetPost host gone).posts place).inUse ↔
      (host.posts place).inUse ∧ place ≠ gone := by
    rw [reset_inUse, Bool.and_eq_true_iff, decide_eq_true_iff, and_comm]
  constructor
  · intro packed place here away other before
    exact (inUse other).mp (packed place ((inUse place).mpr ⟨here, away⟩) other before)
  · intro packed place here other before
    exact (inUse other).mpr (packed place ((inUse place).mp here).1 ((inUse place).mp here).2 other before)

/-- A removal keeps the arrays apart exactly when it moves no slot. -/
theorem clearPost_sound (sound : BoardSound host) :
    BoardSound (clearPost host gone) ↔ Packed Post.inUse (resetPost host gone).posts := by
  obtain ⟨owners, -, count⟩ := clearPost_spec host gone
  have composed : refs (clearPost host gone) = refs host ∘ origin host gone := funext owners
  rw [← source_injective]
  constructor
  · intro after
    have apart := after.apart
    rw [composed] at apart
    exact apart.of_comp
  · intro injective
    constructor
    · rw [composed]
      exact sound.apart.comp injective
    · rw [count]
      exact (usedCount_front (usedCount_le _) clearPost_inUse).symm

theorem clearPost_shown (sound : BoardSound host) (packed : Packed Post.inUse (resetPost host gone).posts)
    (stays : place ∈ staying host gone) : shown (clearPost host gone) place = shown host place := by
  obtain ⟨owners, posts, -⟩ := clearPost_spec host gone
  have still (place : Fin maxPosts) : origin host gone place = place := packed.source place
  have inUse : ((resetPost host gone).posts place).inUse := mem_usedPlaces.mp stays
  have away : place ≠ gone := by
    rintro rfl
    rw [reset_inUse, decide_eq_false (not_not.mpr rfl)] at inUse
    cases inUse
  have front : place.val < remaining host gone := packed.front inUse
  have post : (clearPost host gone).posts place = host.posts place := by
    rw [posts place, if_neg (not_le.mpr front), still, resetPost_posts, update_of_ne away]
  have array : (clearPost host gone).arrays (refs host place) = host.arrays (refs host place) := by
    apply clearPost_array fun same => away (sound.apart same).symm
    intro other behind same
    rw [sound.apart same] at behind
    exact absurd front (not_lt.mpr behind)
  have owner : refs (clearPost host gone) place = refs host place := by rw [owners, still]
  rw [shown, shown, commentsOf, commentsOf, owner, post, array]

theorem clearPost_board (sound : BoardSound host) (packed : Packed Post.inUse (resetPost host gone).posts) :
    board (clearPost host gone) = ((usedPlaces Post.inUse host.posts).filter (· ≠ gone)).map (shown host) := by
  have same : usedPlaces Post.inUse (clearPost host gone).posts = staying host gone := by
    rw [staying]
    apply filter_congr
    intro place _
    obtain ⟨-, posts, -⟩ := clearPost_spec host gone
    have still : origin host gone place = place := packed.source place
    rw [posts place, still]
    by_cases behind : remaining host gone ≤ place.val
    · rw [if_pos behind]
      by_contra filled
      have inUse : ((resetPost host gone).posts place).inUse := by
        rw [← Bool.not_eq_false]
        exact fun free => filled free.symm
      exact absurd (packed.front inUse) (not_lt.mpr behind)
    · rw [if_neg behind]
  rw [board, same, ← staying_eq]
  exact map_congr_left fun place stays => clearPost_shown sound packed stays

theorem resetPosts_table (host : BbsHost) :
    (places.foldl resetPost host).votes = host.votes ∧ (places.foldl resetPost host).nextId = host.nextId := by
  induction places generalizing host with
  | nil => exact ⟨rfl, rfl⟩
  | cons first rest ih => exact ih (resetPost host first)

theorem clearPost_table (host : BbsHost) (gone : Fin maxPosts) :
    (clearPost host gone).votes = host.votes ∧ (clearPost host gone).nextId = host.nextId := by
  simp only [clearPost, resetTail, resetPosts_table, compactPosts, resetPost, BbsHost.setPost, BbsHost.setComments,
    and_self]

end Removal

section Steps

variable {host : BbsHost} {place : Fin maxPosts}

theorem allocateAt_posts (host : BbsHost) (place : Fin maxPosts) (now : Int) :
    (host.allocateAt place now).posts = update host.posts place ((host.posts place).allocated host.nextId now) := rfl

theorem allocateAt_sound (sound : BoardSound host) (free : firstFree Post.inUse host.posts = some place) (now : Int) :
    BoardSound (host.allocateAt place now) := by
  have unused := firstFree_some free
  have room : host.postCount < maxPosts := sound.count ▸ usedCount_lt unused
  constructor
  · have owners : refs (host.allocateAt place now) = refs host := by
      funext other
      rw [refs, allocateAt_posts]
      by_cases here : other = place
      · rw [here, update_self]
        rfl
      · rw [update_of_ne here]
        rfl
    rw [owners]
    exact sound.apart
  · have count : (host.allocateAt place now).postCount = host.postCount + 1 := if_pos room
    have filled : usedCount Post.inUse (host.allocateAt place now).posts = usedCount Post.inUse host.posts + 1 :=
      usedCount_fill unused rfl
    rw [count, filled, sound.count]

theorem sameSlots_commentDeleted (host : BbsHost) (place : Fin maxPosts) (change : CommentArray → CommentArray)
    (count : Nat) (votes : List Vote) : SameSlots host
      { (host.setComments place change).setPost place fun post =>
        { post with commentCount := count } with votes := votes } :=
  ((sameSlots_setComments host place change).trans (sameSlots_setPost _ place _ rfl rfl)).trans
    (sameSlots_votes _ votes)

theorem serve_sound {caller : Caller} {moment : Moment} {request : Request} (sound : BoardSound host)
    (stays : removal host (.request caller moment request) = none) :
      BoardSound (serve host caller moment request).1 := by
  have served := serve_served host caller moment request
  generalize serve host caller moment request = result at served
  cases served with
  | refused => exact sound
  | taken draft place answer free => exact allocateAt_sound sound free moment.now
  | posted draft place notice free =>
    exact (sameSlots_finishPost _ place caller moment.now draft).sound (allocateAt_sound sound free moment.now)
  | edited draft id place => exact (sameSlots_setPost host place _ rfl rfl).sound sound
  | commented arguments text id place =>
    exact (sameSlots_finishComment host place caller moment.now text).sound sound
  | commentEdited arguments text id index place =>
    exact (sameSlots_setComments host place _).sound sound
  | commentDeleted arguments id index place =>
    exact (sameSlots_commentDeleted host place _ _ _).sound sound
  | upvoted id place before votes =>
    exact ((sameSlots_balloted host place before 1).trans (sameSlots_votes _ votes)).sound sound
  | downvoted id place before votes =>
    exact ((sameSlots_balloted host place before (-1)).trans (sameSlots_votes _ votes)).sound sound
  | commentVoted arguments rest id index place position direction before votes =>
    exact ((sameSlots_setComments host place _).trans (sameSlots_votes _ votes)).sound sound
  | reported arguments reports => exact (sameSlots_reports host reports).sound sound
  | deleted id place queue notice found =>
    rw [removal, found] at stays
    cases stays
  | bumped id place =>
    exact (sameSlots_setPost host place (fun post => { post with bumpedAt := moment.now }) rfl rfl).sound sound
  | flagged id place flag set flags reports =>
    exact ((sameSlots_setPost host place (fun post => { post with modFlags := flags post.modFlags }) rfl rfl).trans
      (sameSlots_reports _ reports)).sound sound

theorem finishComment_shown (sound : BoardSound host) (caller : Caller) (now : Int) (text : Bytes)
    {other : Fin maxPosts}
    (away : other ≠ place) : shown (finishComment host place caller now text) other = shown host other := by
  obtain ⟨-, arrays, -⟩ := finishComment_posts host place caller now text
  have post := finishComment_there host away caller now text
  have owner := finishComment_refs host place other caller now text
  have array : (finishComment host place caller now text).arrays (refs host other) = host.arrays (refs host other) := by
    rw [arrays]
    exact update_of_ne (fun same => away (sound.apart same)) _ _
  rw [shown, shown, commentsOf, commentsOf, owner, post, array]

theorem addComment_shown (sound : BoardSound host) {caller : Caller} {moment : Moment} {arguments : Bytes}
    (target : commented host (.request caller moment (.comment arguments)) = some place) {other : Fin maxPosts}
    (away : other ≠ place) : shown (serve host caller moment (.comment arguments)).1 other = shown host other := by
  have served := serve_served host caller moment (.comment arguments)
  generalize serve host caller moment (.comment arguments) = result at served
  cases served with
  | refused => rfl
  | commented _ text id here notice parsed found =>
    rw [commented, parsed, Option.bind_some, found] at target
    rw [Option.some_inj.mp target]
    exact finishComment_shown sound caller moment.now text away

variable {event : BoardEvent}

/-- What an event does to a board from which no post goes. -/
theorem kept_staying (sound : BoardSound host) (stays : removal host event = none) : EventKept host event where
  sound := by
    cases event with
    | request => exact serve_sound sound stays
    | moderate =>
      rw [removal] at stays
      rw [boardStep, stays]
      exact sound
    | mute => exact (sameSlots_mutes host _).sound sound
    | unmute => exact (sameSlots_mutes host _).sound sound
  removes gone removed := by
    rw [stays] at removed
    cases removed
  comments place target other away := by
    cases event with
    | request caller moment request =>
      cases request with
      | comment => exact addComment_shown sound target away
      | _ => cases target
    | _ => cases target

theorem removal_step {gone : Fin maxPosts} (removed : removal host event = some gone) :
    ∃ queue, boardStep host event = { clearPost host gone with notifications := queue } := by
  cases event with
  | request caller moment request =>
    cases request with
    | delete id =>
      rw [removal] at removed
      refine ⟨dropNotifications (clearPost host gone).notifications id, ?_⟩
      rw [boardStep, serve, deletePost, removed]
    | _ => cases removed
  | moderate =>
    rw [removal] at removed
    refine ⟨(clearPost host gone).notifications, ?_⟩
    rw [boardStep, removed]
  | _ => cases removed

theorem kept_removal {gone : Fin maxPosts} (sound : BoardSound host) (removed : removal host event = some gone) :
    EventKept host event ↔ NothingMoves host event := by
  obtain ⟨queue, step⟩ := removal_step removed
  have quiet := sameSlots_notifications (clearPost host gone) queue
  have packed : NothingMoves host event ↔ Packed Post.inUse (resetPost host gone).posts := by
    rw [packed_iff]
    constructor
    · exact fun all => all gone removed
    · intro all other removed'
      rw [removed] at removed'
      exact Option.some_inj.mp removed' ▸ all
  rw [packed]
  constructor
  · intro kept
    have after := kept.sound
    rw [step] at after
    exact (clearPost_sound sound).mp (quiet.symm.sound after)
  · intro still
    refine ⟨?_, fun other removed' => ?_, fun place target other away => ?_⟩
    · rw [step]
      exact quiet.sound ((clearPost_sound sound).mpr still)
    · rw [removed] at removed'
      rw [← Option.some_inj.mp removed', step, board_notifications]
      exact clearPost_board sound still
    · cases event with
      | request caller moment request =>
        cases request with
        | comment => cases removed
        | _ => cases target
      | _ => cases target

theorem kept_iff (sound : BoardSound host) (event : BoardEvent) : EventKept host event ↔ NothingMoves host event := by
  cases removed : removal host event with
  | none =>
    refine iff_of_true (kept_staying sound removed) fun gone removed' => ?_
    rw [removed] at removed'
    cases removed'
  | some => exact kept_removal sound removed

end Steps

/-- A board whose slots own their comments, as it is after the storage was acquired or loaded. -/
abbrev SoundBoard : Type := { host : BbsHost // BoardSound host }

/-- A run removes single posts, keeps the others with their comments and lets each slot own its comments exactly when no
removal moves a slot. -/
theorem removals_keep_others (host : SoundBoard) (events : List BoardEvent) :
    Along boardStep EventKept host.val events ↔ Along boardStep NothingMoves host.val events :=
  along_iff_kept BoardSound (fun _ _ _ kept => kept.sound) (fun _ event sound => kept_iff sound event) host.property
    events

def Comment.blank : Comment := ⟨.zero, .zero, 0, 0, 0, 0⟩

def PostRecord.blank : PostRecord where
  id := 0
  boardId := 0
  modFlags := 0
  author := .zero
  title := .zero
  body := .zero
  tags _ := .zero
  tagCount := 0
  createdAt := 0
  bumpedAt := 0
  upvotes := 0
  downvotes := 0
  commentCount := 0

/-- The board after `host_bbs_acquire_storage` without a file. -/
def BbsHost.fresh : BbsHost where
  posts place := { PostRecord.blank with inUse := false, comments := place }
  arrays _ _ := .blank
  postCount := 0
  nextId := 1
  votes := []
  voteCapacity := 8192
  rateLimits := []
  notifications := []
  reports := []
  mutes := []
  commentEditEnabled := true
  commentDeleteEnabled := true
  knownUser _ := false

theorem fresh_sound : BoardSound .fresh where
  apart _ _ same := same
  count := (Finset.sum_eq_zero fun _ _ => rfl).symm

def operator : Caller where
  name := .print (str "root")
  isOperator := true
  isLanOperator := false
  boardId := 0
  viewing := 0

def sampleDraft (letter : Char) : Draft where
  editing := none
  title := .print [byte letter]
  body := .print (str "text")
  tags _ := .zero
  tagCount := 0

def samplePost (letter : Char) : BoardEvent := .request operator ⟨1000, true⟩ (.commit (sampleDraft letter))

/-- The first of two posts is deleted. -/
theorem first_removed_shares :
    ¬ Along boardStep EventKept .fresh [samplePost 'a', samplePost 'b', .request operator ⟨1001, true⟩
      (.delete 1)] := by
  rintro ⟨-, second, third, -⟩
  have still := (kept_iff second.sound _).mp third
  have removed : removal (boardStep (boardStep .fresh (samplePost 'a')) (samplePost 'b'))
      (.request operator ⟨1001, true⟩ (.delete 1)) = some 0 := by decide +kernel
  have inUse : ((boardStep (boardStep .fresh (samplePost 'a')) (samplePost 'b')).posts 1).inUse := by
    decide +kernel
  exact (still 0 removed 1 inUse (by decide) 0 (by decide)).2 rfl

end SshChatter.Bbs
