import SshChatter.Bbs.Ownership

namespace SshChatter.Bbs
open CString SlotTable List
open UserData (stripColumnReset)

abbrev stateMagic : Nat := 0x42425332

abbrev stateVersion : Nat := 3

/-- This is `bbs_state_post_entry_disk_t`. The texts are read up to their first NUL. -/
structure StateEntry extends PostRecord where
  comments : CommentArray

structure StateFile where
  magic : Nat
  version : Nat
  postCount : Nat
  nextId : Nat
  entries : List StateEntry

/-- This is `bbs_state_post_entry_from_v1`. The old layout has neither flags nor the times of edits. -/
def StateEntry.fromV1 (entry : StateEntry) : StateEntry :=
  { entry with modFlags := 0, comments := fun index => { entry.comments index with editedAt := 0 } }

/-- The entry of a post in the file of `host_bbs_state_save_locked`. -/
def saved (host : BbsHost) (place : Fin maxPosts) : StateEntry :=
  let post := host.posts place
  { post.toPostRecord with
    tagCount := min post.tagCount maxTags
    commentCount := min post.commentCount maxComments
    tags := fun tag => if tag.val < post.tagCount then post.tags tag else .zero
    comments := fun index => if index.val < post.commentCount then host.arrays post.comments index else .blank }

def stored (host : BbsHost) : List StateEntry := (usedPlaces Post.inUse host.posts).map (saved host)

/-- This is `host_bbs_state_save_locked`. -/
def saveState (host : BbsHost) : StateFile where
  magic := stateMagic
  version := stateVersion
  postCount := (usedPlaces Post.inUse host.posts).length
  nextId := host.nextId
  entries := stored host

/-- The times that the loader repairs. -/
def normalize (now : Int) (entry : StateEntry) : StateEntry :=
  let createdAt := if entry.createdAt ≤ 0 then now else entry.createdAt
  { entry with
    createdAt := createdAt
    bumpedAt := if entry.bumpedAt ≤ 0 ∨ entry.bumpedAt < createdAt then createdAt else entry.bumpedAt
    comments := fun index =>
      { entry.comments index with
        createdAt := if (entry.comments index).createdAt ≤ 0 then now else (entry.comments index).createdAt } }

def StateEntry.hasRequiredFields (entry : StateEntry) : Bool := entry.id ≠ 0 ∧ entry.author.text ≠ [] ∧
    entry.title.text ≠ []

def hasDisallowedControls (text : Bytes) : Bool :=
  text.any fun c => c ≠ 10 ∧ c ≠ 13 ∧ c ≠ 9 ∧ (c < 0x20 ∨ c = 0x7F)

/-- The first valid second of `host_bbs_serialized_is_sane`. -/
abbrev minValid : Int := 946684800

abbrev week : Int := 604800

/-- The mark in the titles that the loader drops. -/
def breakingNews : Bytes := str "[BREAKING NEWS]"

def StateEntry.isSane (now : Int) (entry : StateEntry) : Bool :=
  hasDisallowedControls entry.author.text = false ∧ hasDisallowedControls entry.title.text = false ∧
    minValid ≤ entry.createdAt ∧ entry.createdAt ≤ entry.bumpedAt ∧ entry.bumpedAt ≤ now + week ∧
    ¬ breakingNews <:+: entry.title.text

/-- The slot is emptied as `host_bbs_state_load` does it. -/
def Post.unloaded (post : Post) : Post :=
  { post with
    inUse := false, id := 0, boardId := 0, author := .zero, title := .zero, body := .zero, tagCount := 0
    createdAt := 0, bumpedAt := 0, upvotes := 0, downvotes := 0, commentCount := 0 }

def emptySlots (host : BbsHost) : BbsHost :=
  { host with
    posts := fun place => (host.posts place).unloaded
    arrays := fun ref => if ∃ place, refs host place = ref then fun _ => .blank else host.arrays ref
    postCount := 0 }

def StateEntry.kept (entry : StateEntry) : StateEntry :=
  { entry with
    author := strip entry.author, title := strip entry.title, body := strip entry.body
    tagCount := min entry.tagCount maxTags
    tags := fun tag => if tag.val < entry.tagCount then strip (entry.tags tag) else .zero
    commentCount := min entry.commentCount maxComments
    comments := fun index =>
      if index.val < entry.commentCount then
        { entry.comments index with
          author := strip (entry.comments index).author, text := strip (entry.comments index).text }
      else .blank }

/-- The next free slot takes an entry. The comments behind the count stay as they are in the array. -/
def placeEntry (host : BbsHost) (entry : StateEntry) : BbsHost :=
  if room : host.postCount < maxPosts then
    let place : Fin maxPosts := ⟨host.postCount, room⟩
    let filled := (host.setComments place fun comments index =>
      if index.val < entry.commentCount then entry.kept.comments index else comments index).setPost place fun post =>
        { entry.kept.toPostRecord with inUse := true, comments := post.comments }
    { filled with postCount := host.postCount + 1 }
  else host

/-- One turn of the loop of `host_bbs_state_load`, with the largest identifier so far. -/
def loadStep (now : Int) (state : BbsHost × Nat) (numbered : StateEntry × Nat) : BbsHost × Nat :=
  let entry := normalize now numbered.1
  if entry.hasRequiredFields ∧ entry.isSane now then
    (if maxPosts ≤ numbered.2 then state.1 else placeEntry state.1 entry, max state.2 entry.id)
  else state

/-- The entries that the loop reads. -/
def StateFile.read (file : StateFile) : List StateEntry :=
  let entries := file.entries.take file.postCount
  if file.version = 1 then entries.map StateEntry.fromV1 else entries

def loadTime (clock : Int) : Int := if clock ≤ 0 then 1 else clock

/-- This is `host_bbs_state_load` of a host with the slots and the tables of a store. A file that cannot be read is
none. -/
def loadState (store : BbsHost) (clock : Int) (file : Option StateFile) : BbsHost :=
  match file with
  | none => store
  | some file =>
    if file.magic ≠ stateMagic ∨ ¬ (file.version = stateVersion ∨ file.version = 2 ∨ file.version = 1) then store
    else
      let loaded := file.read.zipIdx.foldl (loadStep (loadTime clock)) (emptySlots store, 0)
      if file.entries.length < file.postCount then { emptySlots loaded.1 with nextId := 1 }
      else
        { loaded.1 with
          nextId := if file.nextId = 0 ∨ file.nextId ≤ loaded.2 then (loaded.2 + 1) % 2 ^ 64 else file.nextId }

/-- What the loader makes of an entry that is not dropped. -/
def reload (now : Int) (entry : StateEntry) : Option StateEntry :=
  let entry := normalize now entry
  if entry.hasRequiredFields ∧ entry.isSane now then some entry.kept else none

section Filling

variable {store host : BbsHost} {entries : List StateEntry} {entry : StateEntry} {now : Int}

/-- The slots in front hold entries, and the others are free. -/
structure Filled (store host : BbsHost) (entries : List StateEntry) : Prop where
  count : host.postCount = entries.length
  owners : refs host = refs store
  used : ∀ place, (host.posts place).inUse = decide (place.val < entries.length)
  content : ∀ place entry, entries[place.val]? = some entry → saved host place = entry

theorem Filled.stored (filled : Filled store host entries) (room : entries.length ≤ maxPosts) : stored host = entries :=
  map_usedPlaces_front room filled.used filled.content

theorem filled_empty (store : BbsHost) : Filled store (emptySlots store) [] :=
  ⟨rfl, rfl, fun _ => rfl, fun _ _ found => (nomatch found)⟩

theorem saved_congr {after : BbsHost} {place : Fin maxPosts}
    (record : (after.posts place).toPostRecord = (host.posts place).toPostRecord)
    (comments : after.arrays (refs after place) = host.arrays (refs host place)) :
      saved after place = saved host place := by
  rw [refs, refs] at comments
  rw [saved, saved, record, comments]

theorem saved_kept {place : Fin maxPosts} (record : (host.posts place).toPostRecord = entry.kept.toPostRecord)
    (comments : ∀ index : Fin maxComments, index.val < entry.commentCount →
      host.arrays (refs host place) index = entry.kept.comments index) : saved host place = entry.kept := by
  have sameTags : (fun tag : Fin maxTags =>
      if tag.val < min entry.tagCount maxTags then entry.kept.tags tag else .zero) = entry.kept.tags := by
    funext tag
    by_cases inside : tag.val < entry.tagCount
    · rw [if_pos (lt_min inside tag.isLt)]
    · rw [if_neg fun small => inside (lt_of_lt_of_le small (min_le_left _ _))]
      exact (if_neg inside).symm
  have sameComments : (fun index : Fin maxComments =>
      if index.val < min entry.commentCount maxComments then host.arrays (refs host place) index else .blank) =
        entry.kept.comments := by
    funext index
    by_cases inside : index.val < entry.commentCount
    · rw [if_pos (lt_min inside index.isLt), comments index inside]
    · rw [if_neg fun small => inside (lt_of_lt_of_le small (min_le_left _ _))]
      exact (if_neg inside).symm
  have sameTagCount : min entry.kept.tagCount maxTags = entry.kept.tagCount := min_eq_left (min_le_right _ _)
  have sameCommentCount : min entry.kept.commentCount maxComments = entry.kept.commentCount :=
    min_eq_left (min_le_right _ _)
  rw [saved, record, sameTagCount, sameCommentCount]
  exact congrArg₂ (fun tags comments => ({ entry.kept with tags := tags, comments := comments } : StateEntry)) sameTags
    sameComments

/-- The loop puts an entry into the next slot. -/
theorem Filled.place (apart : Function.Injective (refs store)) (filled : Filled store host entries)
    (room : entries.length < maxPosts) (entry : StateEntry) :
      Filled store (placeEntry host entry) (entries ++ [entry.kept]) := by
  obtain ⟨count, owners, used, content⟩ := filled
  have open' : host.postCount < maxPosts := count ▸ room
  rw [placeEntry, dif_pos open']
  generalize at' : (⟨host.postCount, open'⟩ : Fin maxPosts) = place
  have number : place.val = entries.length := by rw [← at', ← count]
  constructor
  · rw [length_append, length_singleton, count]
  · rw [← owners]
    funext other
    by_cases here : other = place
    · rw [here, refs, setPost_here]
      rfl
    · rw [refs, setPost_other _ here]
      rfl
  · intro other
    rw [length_append, length_singleton]
    by_cases here : other = place
    · rw [here, setPost_here, decide_eq_true (by omega)]
    · have away : other.val ≠ entries.length := fun same => here (Fin.ext (same.trans number.symm))
      rw [setPost_other _ here]
      refine (used other).trans (decide_eq_decide.mpr ?_)
      omega
  · intro other stays found
    by_cases here : other = place
    · rw [here, number, getElem?_append_right le_rfl, Nat.sub_self] at found
      cases found
      rw [here]
      apply saved_kept
      · rw [setPost_here]
      · intro index inside
        rw [refs, setPost_here]
        change Function.update host.arrays (refs host place) _ (refs host place) index = _
        rw [Function.update_self]
        exact if_pos inside
    · have away : other.val ≠ entries.length := fun same => here (Fin.ext (same.trans number.symm))
      have front : other.val < entries.length := by
        have inside := (List.getElem?_eq_some_iff.mp found).1
        rw [length_append, length_singleton] at inside
        omega
      rw [getElem?_append_left front] at found
      rw [← content other stays found]
      apply saved_congr
      · rw [setPost_other _ here]
        rfl
      · rw [refs, setPost_other _ here]
        change Function.update host.arrays (refs host place) _ (refs host other) = _
        rw [Function.update_of_ne]
        rw [owners]
        exact fun same => here (apart same)

/-- One turn of the loop puts what is kept of the entry behind the others. -/
theorem Filled.step (now : Int) (largest : Nat) (apart : Function.Injective (refs store))
    (filled : Filled store host entries)
    {index : Nat} (behind : entries.length ≤ index) (room : index < maxPosts) (entry : StateEntry) :
    Filled store (loadStep now (host, largest) (entry, index)).1 (entries ++ (reload now entry).toList) := by
  rw [loadStep, reload]
  split
  · rw [if_neg (not_le.mpr room)]
    exact filled.place apart (behind.trans_lt room) (normalize now entry)
  · rw [Option.toList_none, append_nil]
    exact filled

/-- The loop fills the slots with what is kept of the entries, in order. -/
theorem Filled.fold (now : Int) (largest : Nat) (apart : Function.Injective (refs store))
    (filled : Filled store host entries)
    {index : Nat} (later : List StateEntry) (behind : entries.length ≤ index) (room : index + later.length ≤ maxPosts) :
    Filled store ((later.zipIdx index).foldl (loadStep now) (host, largest)).1
      (entries ++ later.filterMap (reload now)) := by
  induction later generalizing host entries index largest with
  | nil =>
    rw [filterMap_nil, append_nil]
    exact filled
  | cons entry rest ih =>
    rw [length_cons] at room
    have step := filled.step now largest apart behind (by omega : index < maxPosts) entry
    have short : (entries ++ (reload now entry).toList).length ≤ index + 1 := by
      rw [length_append]
      have one : (reload now entry).toList.length ≤ 1 := Option.length_toList_le
      omega
    have rest' := ih (loadStep now (host, largest) (entry, index)).2 step short (by omega)
    have split : entries ++ (entry :: rest).filterMap (reload now) =
        entries ++ (reload now entry).toList ++ rest.filterMap (reload now) := by
      rw [append_assoc]
      congr 1
      cases kept : reload now entry with
      | none => rw [filterMap_cons_none kept, Option.toList_none, nil_append]
      | some => rw [filterMap_cons_some kept, Option.toList_some, singleton_append]
    rw [split]
    exact rest'

theorem largest_lt (now : Int) (index : Nat) {bound largest : Nat} (first : largest < bound) (later : List StateEntry)
    (below : ∀ entry ∈ later, entry.id < bound) (host : BbsHost) :
    ((later.zipIdx index).foldl (loadStep now) (host, largest)).2 < bound := by
  induction later generalizing host largest index with
  | nil => exact first
  | cons entry rest ih =>
    rw [zipIdx_cons, foldl_cons]
    have rest' : ∀ other ∈ rest, other.id < bound := fun other inside => below other (mem_cons_of_mem _ inside)
    rw [loadStep]
    split
    · exact ih (index + 1) (max_lt first (below entry mem_cons_self)) rest' _
    · exact ih (index + 1) first rest' _

end Filling

section Reloading

variable {store host : BbsHost} {clock : Int}

theorem stored_length (host : BbsHost) : (stored host).length = (usedPlaces Post.inUse host.posts).length :=
    length_map _

theorem stored_room (host : BbsHost) : (stored host).length ≤ maxPosts := by
  rw [stored_length, usedPlaces_length]
  exact usedCount_le _

theorem saveState_read (host : BbsHost) : (saveState host).read = stored host := by
  exact take_of_length_le (stored_length host).le

theorem loadState_saved (store host : BbsHost) (clock : Int) : loadState store clock (some (saveState host)) =
    { (((stored host).zipIdx).foldl (loadStep (loadTime clock)) (emptySlots store, 0)).1 with
      nextId := if host.nextId = 0 ∨ host.nextId ≤ (((stored host).zipIdx).foldl (loadStep (loadTime clock))
        (emptySlots store, 0)).2
        then ((((stored host).zipIdx).foldl (loadStep (loadTime clock)) (emptySlots store, 0)).2 + 1) % 2 ^ 64 else
          host.nextId } := by
  have whole : ¬ (saveState host).entries.length < (saveState host).postCount := (stored_length host).not_lt
  rw [loadState]
  rw [if_neg whole, saveState_read]
  rfl

/-- The slots of the loading host hold what the loader keeps of the saved posts. -/
theorem stored_loadState (apart : Function.Injective (refs store)) :
    stored (loadState store clock (some (saveState host))) = (stored host).filterMap (reload (loadTime clock)) := by
  have room : 0 + (stored host).length ≤ maxPosts := (zero_add _).trans_le (stored_room host)
  have filled := (filled_empty store).fold (loadTime clock) 0 apart (stored host) le_rfl room
  rw [loadState_saved]
  exact filled.stored ((length_filterMap_le _ _).trans (stored_room host))

theorem nextId_loadState (positive : 0 < host.nextId) (below : ∀ place, (host.posts place).inUse →
    (host.posts place).id < host.nextId) : (loadState store clock (some (saveState host))).nextId = host.nextId := by
  have small : ∀ entry ∈ stored host, entry.id < host.nextId := by
    intro entry inside
    obtain ⟨place, used, rfl⟩ := mem_map.mp inside
    exact below place (mem_usedPlaces.mp used)
  have largest := largest_lt (loadTime clock) 0 positive (stored host) small (emptySlots store)
  rw [loadState_saved]
  rw [if_neg]
  rintro (zero | most)
  · exact absurd zero (ne_of_gt positive)
  · exact absurd most (not_le.mpr largest)

end Reloading

section Storable

variable {host : BbsHost} {now : Int}

def Settled {room : Nat} (text : CText room) : Prop := strip text = text

/-- The slot of a post that the loader leaves as it is. -/
structure Post.Storable (post : Post) : Prop where
  id : post.id ≠ 0
  author : post.author.text ≠ [] ∧ hasDisallowedControls post.author.text = false ∧ Settled post.author
  title : post.title.text ≠ [] ∧ hasDisallowedControls post.title.text = false ∧ Settled post.title
  ordinary : ¬ breakingNews <:+: post.title.text
  body : Settled post.body
  tags : ∀ tag : Fin maxTags, tag.val < post.tagCount → Settled (post.tags tag)
  created : minValid ≤ post.createdAt
  bumped : post.createdAt ≤ post.bumpedAt

/-- A comment that the loader leaves as it is. -/
structure Comment.Storable (comment : Comment) : Prop where
  author : Settled comment.author
  text : Settled comment.text
  created : 0 < comment.createdAt

def CommentsStorable (host : BbsHost) (place : Fin maxPosts) : Prop :=
  ∀ index : Fin maxComments, index.val < (host.posts place).commentCount →
    (host.arrays (refs host place) index).Storable

/-- The fields of an entry that the loader leaves as it is. -/
theorem kept_normalize_iff {entry : StateEntry} : (normalize now entry).kept = entry ↔
    ((normalize now entry).createdAt = entry.createdAt ∧ (normalize now entry).bumpedAt = entry.bumpedAt) ∧
      (Settled entry.author ∧ Settled entry.title ∧ Settled entry.body) ∧
      (normalize now entry).kept.tagCount = entry.tagCount ∧ (normalize now entry).kept.commentCount =
        entry.commentCount ∧
      (normalize now entry).kept.tags = entry.tags ∧ (normalize now entry).kept.comments = entry.comments := by
  constructor
  · intro same
    refine ⟨⟨?_, ?_⟩, ⟨?_, ?_, ?_⟩, ?_, ?_, ?_, ?_⟩
    · exact congrArg (fun entry => entry.createdAt) same
    · exact congrArg (fun entry => entry.bumpedAt) same
    · exact congrArg (fun entry => entry.author) same
    · exact congrArg (fun entry => entry.title) same
    · exact congrArg (fun entry => entry.body) same
    · exact congrArg (fun entry => entry.tagCount) same
    · exact congrArg (fun entry => entry.commentCount) same
    · exact congrArg (fun entry => entry.tags) same
    · exact congrArg (fun entry => entry.comments) same
  · rintro ⟨⟨created, bumped⟩, ⟨author, title, body⟩, tagCount, commentCount, tags, comments⟩
    simp only [StateEntry.kept, normalize] at created bumped tagCount commentCount tags comments ⊢
    simp only [Settled] at author title body
    rw [created] at bumped
    simp only [created, bumped, tagCount, commentCount, tags, comments, author, title, body]

theorem loadTime_pos (clock : Int) : 0 < loadTime clock := by
  rw [loadTime]
  split <;> omega

theorem repair_iff {time : Int} (positive : 0 < now) : (if time ≤ 0 then now else time) = time ↔ 0 < time := by
  split
  · constructor <;> omega
  · constructor <;> omega

theorem kept_tags_iff (place : Fin maxPosts) : (normalize now (saved host place)).kept.tags = (saved host place).tags ↔
    ∀ tag : Fin maxTags, tag.val < (host.posts place).tagCount → Settled ((host.posts place).tags tag) := by
  have tags (tag : Fin maxTags) : (normalize now (saved host place)).kept.tags tag =
      if tag.val < min (host.posts place).tagCount maxTags
        then strip (if tag.val < (host.posts place).tagCount then (host.posts place).tags tag else .zero) else .zero :=
          rfl
  have before (tag : Fin maxTags) : (saved host place).tags tag =
      if tag.val < (host.posts place).tagCount then (host.posts place).tags tag else .zero := rfl
  rw [funext_iff]
  refine forall_congr' fun tag => ?_
  rw [tags, before]
  by_cases inside : tag.val < (host.posts place).tagCount
  · rw [if_pos (lt_min inside tag.isLt), if_pos inside]
    exact ⟨fun same _ => same, fun settled => settled inside⟩
  · rw [if_neg fun small => inside (lt_of_lt_of_le small (min_le_left _ _)), if_neg inside]
    exact iff_of_true rfl fun counted => absurd counted inside

/-- The saved comments stay when those in front of the count are storable. -/
theorem kept_comments_iff (positive : 0 < now) (place : Fin maxPosts) :
    (normalize now (saved host place)).kept.comments = (saved host place).comments ↔ CommentsStorable host place := by
  have comments (index : Fin maxComments) (inside : index.val < (host.posts place).commentCount) :
      (normalize now (saved host place)).kept.comments index =
        { host.arrays (refs host place) index with
          author := strip (host.arrays (refs host place) index).author
          text := strip (host.arrays (refs host place) index).text
          createdAt := if (host.arrays (refs host place) index).createdAt ≤ 0 then now
            else (host.arrays (refs host place) index).createdAt } := by
    have counted : index.val < min (host.posts place).commentCount maxComments := lt_min inside index.isLt
    have mine : (saved host place).comments index = host.arrays (refs host place) index := if_pos inside
    rw [← mine]
    exact if_pos counted
  rw [funext_iff]
  refine forall_congr' fun index => ?_
  by_cases inside : index.val < (host.posts place).commentCount
  · have before : (saved host place).comments index = host.arrays (refs host place) index := if_pos inside
    rw [comments index inside, before]
    constructor
    · intro same _
      exact ⟨congrArg Comment.author same, congrArg Comment.text same,
        (repair_iff positive).mp (congrArg Comment.createdAt same)⟩
    · intro storable
      obtain ⟨author, text, created⟩ := storable inside
      rw [(repair_iff positive).mpr created]
      rw [author, text]
  · have behind : ¬ index.val < min (host.posts place).commentCount maxComments :=
      fun small => inside (lt_of_lt_of_le small (min_le_left _ _))
    have after : (normalize now (saved host place)).kept.comments index = .blank := if_neg behind
    have before : (saved host place).comments index = .blank := if_neg inside
    exact iff_of_true (after.trans before.symm) fun counted => absurd counted inside

/-- The loader leaves a saved post as it is exactly when the slot and its comments are storable and the post is not
from the future. -/
theorem reload_saved_iff (positive : 0 < now) (place : Fin maxPosts) :
    reload now (saved host place) = some (saved host place) ↔ (host.posts place).Storable ∧
      CommentsStorable host place ∧ (host.posts place).bumpedAt ≤ now + week := by
  have unfolded : reload now (saved host place) = some (saved host place) ↔
      ((normalize now (saved host place)).hasRequiredFields ∧ (normalize now (saved host place)).isSane now) ∧
        (normalize now (saved host place)).kept = saved host place := by
    rw [reload]
    split
    next loadable => rw [Option.some_inj, and_iff_right loadable]
    next dropped => exact iff_of_false (fun same => nomatch same) fun all => dropped all.1
  rw [unfolded, kept_normalize_iff, kept_tags_iff, kept_comments_iff positive]
  constructor
  · rintro ⟨⟨required, sane⟩, ⟨created, bumped⟩, ⟨author, title, body⟩, -, -, tags, comments⟩
    rw [StateEntry.hasRequiredFields, decide_eq_true_iff] at required
    rw [StateEntry.isSane, decide_eq_true_iff, created, bumped] at sane
    obtain ⟨id, named, titled⟩ := required
    obtain ⟨plain, plain', first, order, last, ordinary⟩ := sane
    exact ⟨⟨id, ⟨named, plain, author⟩, ⟨titled, plain', title⟩, ordinary, body, tags, first, order⟩, comments, last⟩
  · rintro ⟨storable, comments, last⟩
    have positive' : 0 < (host.posts place).createdAt := lt_of_lt_of_le (by decide) storable.created
    have created : (normalize now (saved host place)).createdAt = (saved host place).createdAt :=
      (repair_iff positive).mpr positive'
    have bumped : (normalize now (saved host place)).bumpedAt = (saved host place).bumpedAt := by
      have order := storable.bumped
      change (if (host.posts place).bumpedAt ≤ 0 ∨ (host.posts place).bumpedAt <
        (normalize now (saved host place)).createdAt
        then _ else (host.posts place).bumpedAt) = (host.posts place).bumpedAt
      rw [created, if_neg]
      change ¬ ((host.posts place).bumpedAt ≤ 0 ∨ (host.posts place).bumpedAt < (host.posts place).createdAt)
      omega
    refine ⟨⟨?_, ?_⟩, ⟨created, bumped⟩, ⟨storable.author.2.2, storable.title.2.2, storable.body⟩, ?_, ?_,
      storable.tags, comments⟩
    · rw [StateEntry.hasRequiredFields, decide_eq_true_iff]
      exact ⟨storable.id, storable.author.1, storable.title.1⟩
    · rw [StateEntry.isSane, decide_eq_true_iff, created, bumped]
      exact ⟨storable.author.2.1, storable.title.2.1, storable.created, storable.bumped, last, storable.ordinary⟩
    · exact min_eq_left (min_le_right _ _)
    · exact min_eq_left (min_le_right _ _)

theorem restart_iff {store : BbsHost} (apart : Function.Injective (refs store)) (clock : Int) :
    stored (loadState store clock (some (saveState host))) = stored host ↔ ∀ place, (host.posts place).inUse →
      (host.posts place).Storable ∧ CommentsStorable host place ∧ (host.posts place).bumpedAt ≤
        loadTime clock + week := by
  rw [stored_loadState apart, filterMap_eq_self, stored, forall_mem_map]
  refine forall_congr' fun place => ?_
  rw [mem_usedPlaces, reload_saved_iff (loadTime_pos clock)]

end Storable

end SshChatter.Bbs
