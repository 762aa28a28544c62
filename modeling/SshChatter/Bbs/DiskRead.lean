import SshChatter.Bbs.StateFile

namespace SshChatter.Bbs
open CString SlotTable List

/-- What a reader gets of a post: its fields, the tags and the comments in front of their counts. -/
structure ServedPost where
  id : Nat
  boardId : UInt16
  modFlags : UInt8
  author : UserName
  title : CText 511
  body : CText 40959
  tags : List (CText 23)
  createdAt : Int
  bumpedAt : Int
  upvotes : Int
  downvotes : Int
  comments : List Comment

def served (host : BbsHost) (place : Fin maxPosts) : ServedPost :=
  let post := host.posts place
  { id := post.id, boardId := post.boardId, modFlags := post.modFlags, author := post.author, title := post.title
    body := post.body, tags := (ofFn post.tags).take post.tagCount, createdAt := post.createdAt
    bumpedAt := post.bumpedAt, upvotes := post.upvotes, downvotes := post.downvotes
    comments := (ofFn (host.arrays post.comments)).take post.commentCount }

/-- What `session_bbs_load_post_from_state` copies of an entry. The other fields of the post stay cleared. -/
def StateEntry.fetched (entry : StateEntry) : ServedPost where
  id := entry.id
  boardId := 0
  modFlags := 0
  author := entry.author
  title := entry.title
  body := entry.body
  tags := (ofFn entry.tags).take (min entry.tagCount maxTags)
  createdAt := entry.createdAt
  bumpedAt := entry.bumpedAt
  upvotes := 0
  downvotes := 0
  comments := ((ofFn entry.comments).take (min entry.commentCount maxComments)).map fun comment =>
    ⟨comment.author, comment.text, comment.createdAt, 0, 0, 0⟩

def mapStateFile (file : Option StateFile) : Option StateFile :=
  file.filter fun file => file.magic = stateMagic ∧ (file.version = stateVersion ∨ file.version = 2 ∨ file.version = 1)

/-- The entries that the readers of the file do not skip, with their repaired times. -/
def accepted (now : Int) (file : StateFile) : List StateEntry :=
  (file.read.map (normalize now)).filter fun entry => entry.hasRequiredFields && entry.isSane now

def loadPostFromState (now : Int) (file : Option StateFile) (id : Nat) : Option ServedPost :=
  if id = 0 then none
  else match mapStateFile file with
    | none => none
    | some file => ((accepted now file).find? fun entry => entry.id == id).map StateEntry.fetched

/-- This is `session_bbs_load_post` of a host whose store is loaded. -/
def loadPost (host : BbsHost) (now : Int) (file : Option StateFile) (id : Nat) : Option ServedPost :=
  if id = 0 ∨ idSaneMax < id then none
  else match findPost host id with
    | some place => some (served host place)
    | none => loadPostFromState now file id

/-- This is `bbs_listing_t`. -/
structure Listing where
  id : Nat
  boardId : UInt16
  modFlags : UInt8
  title : CText 511
  author : UserName
  tags : List (CText 23)
  createdAt : Int
  bumpedAt : Int
  commentCount : Nat
  upvotes : Int
  downvotes : Int

def Post.listing (post : Post) : Listing where
  id := post.id
  boardId := post.boardId
  modFlags := post.modFlags
  title := post.title
  author := post.author
  tags := (ofFn post.tags).take post.tagCount
  createdAt := post.createdAt
  bumpedAt := post.bumpedAt
  commentCount := post.commentCount
  upvotes := post.upvotes
  downvotes := post.downvotes

def StateEntry.listing (entry : StateEntry) : Listing where
  id := entry.id
  boardId := entry.boardId
  modFlags := entry.modFlags
  title := entry.title
  author := entry.author
  tags := (ofFn entry.tags).take (min entry.tagCount maxTags)
  createdAt := entry.createdAt
  bumpedAt := entry.bumpedAt
  commentCount := min entry.commentCount maxComments
  upvotes := entry.upvotes
  downvotes := entry.downvotes

def collectListingsFromState (now : Int) (file : Option StateFile) : Option (List Listing) :=
  match file with
  | none => some []
  | some file => (mapStateFile (some file)).map fun file => ((accepted now file).map StateEntry.listing).take maxPosts

/-- This is `session_bbs_collect_listings` of a host whose store is loaded. -/
def collectListings (host : BbsHost) : List Listing :=
  ((finRange maxPosts).filter fun place => hasRequiredFields (host.posts place)).map fun place =>
    (host.posts place).listing

/-- The readers of a saved file and of the host that loads it give the same. -/
structure DiskAgrees (store host : BbsHost) (clock : Int) : Prop where
  posts : ∀ id, loadPostFromState (loadTime clock) (some (saveState host)) id =
    loadPost (loadState store clock (some (saveState host))) (loadTime clock) (some (saveState host)) id
  listings : collectListingsFromState (loadTime clock) (some (saveState host)) =
    some (collectListings (loadState store clock (some (saveState host))))

/-- The loader leaves what a row shows. -/
structure StateEntry.RowSettled (entry : StateEntry) : Prop where
  author : Settled entry.author
  title : Settled entry.title
  tags : ∀ tag : Fin maxTags, tag.val < entry.tagCount → Settled (entry.tags tag)

/-- A comment without the fields that the reader of the file leaves out. -/
structure Comment.Plain (comment : Comment) : Prop where
  author : Settled comment.author
  text : Settled comment.text
  unedited : comment.editedAt = 0
  upvotes : comment.upvotes = 0
  downvotes : comment.downvotes = 0

/-- A post without the fields that the reader of the file leaves out. -/
structure StateEntry.Plain (entry : StateEntry) : Prop where
  known : entry.id ≤ idSaneMax
  board : entry.boardId = 0
  flags : entry.modFlags = 0
  upvotes : entry.upvotes = 0
  downvotes : entry.downvotes = 0
  body : Settled entry.body
  comments : ∀ index : Fin maxComments, index.val < entry.commentCount → (entry.comments index).Plain

structure PlainFile (now : Int) (file : StateFile) : Prop where
  rows : ∀ entry ∈ accepted now file, entry.RowSettled
  posts : ∀ id entry, ((accepted now file).find? fun entry => entry.id == id) = some entry → entry.Plain

section Lists

variable {Value Other : Type} {values : List Value}

/-- Equal prefixes of two tables are equal up to the count. -/
theorem take_ofFn_iff {n : Nat} {first second : Fin n → Value} (count : Nat) :
    (ofFn first).take count = (ofFn second).take count ↔ ∀ index : Fin n, index.val < count →
      first index = second index := by
  rw [List.ext_getElem?_iff]
  constructor
  · intro same index inside
    have here := same index.val
    rw [getElem?_take_of_lt inside, getElem?_take_of_lt inside, List.getElem?_ofFn, List.getElem?_ofFn,
      dif_pos index.isLt, dif_pos index.isLt] at here
    exact Option.some.inj here
  · intro same place
    rw [getElem?_take, getElem?_take]
    split_ifs with inside
    · rw [List.getElem?_ofFn, List.getElem?_ofFn]
      split_ifs with less
      · rw [same ⟨place, less⟩ inside]
      · rfl
    · rfl

theorem filter_map_eq_iff {keep : Value → Bool} {row row' : Value → Other} :
    (values.filter keep).map row = values.map row' ↔ ∀ value ∈ values, keep value = true ∧ row value = row' value := by
  constructor
  · intro same
    have length := congrArg length same
    rw [length_map, length_map] at length
    have all := filter_eq_self.mp ((filter_sublist).eq_of_length length)
    rw [filter_eq_self.mpr all] at same
    exact fun value inside => ⟨all value inside, map_inj_left.mp same value inside⟩
  · intro same
    rw [filter_eq_self.mpr fun value inside => (same value inside).1]
    exact map_inj_left.mpr fun value inside => (same value inside).2

end Lists

section Slots

variable {host : BbsHost}

def StateEntry.visible (entry : StateEntry) : ServedPost where
  id := entry.id
  boardId := entry.boardId
  modFlags := entry.modFlags
  author := entry.author
  title := entry.title
  body := entry.body
  tags := (ofFn entry.tags).take entry.tagCount
  createdAt := entry.createdAt
  bumpedAt := entry.bumpedAt
  upvotes := entry.upvotes
  downvotes := entry.downvotes
  comments := (ofFn entry.comments).take entry.commentCount

/-- A table of a bounded size is cut at the bound. -/
theorem take_min {Value : Type} {n : Nat} (table : Fin n → Value) (count : Nat) :
    (ofFn table).take (min count n) = (ofFn table).take count := by
  rw [take_eq_take_iff, length_ofFn, Nat.min_assoc, min_self]

theorem served_saved (host : BbsHost) (place : Fin maxPosts) : served host place = (saved host place).visible := by
  have tags : (ofFn (host.posts place).tags).take (host.posts place).tagCount =
      (ofFn (saved host place).tags).take (saved host place).tagCount := by
    change _ = (ofFn (saved host place).tags).take (min (host.posts place).tagCount maxTags)
    rw [take_min, take_ofFn_iff]
    intro tag inside
    exact (if_pos inside).symm
  have comments : (ofFn (host.arrays (host.posts place).comments)).take (host.posts place).commentCount =
      (ofFn (saved host place).comments).take (saved host place).commentCount := by
    change _ = (ofFn (saved host place).comments).take (min (host.posts place).commentCount maxComments)
    rw [take_min, take_ofFn_iff]
    intro index inside
    exact (if_pos inside).symm
  rw [served, tags, comments]
  rfl

def Clamped (host : BbsHost) : Prop := ∀ place, (host.posts place).commentCount ≤ maxComments

theorem listing_saved (clamped : Clamped host) (place : Fin maxPosts) :
    (host.posts place).listing = (saved host place).listing := by
  have tags : (ofFn (host.posts place).tags).take (host.posts place).tagCount =
      (ofFn (saved host place).tags).take (min (saved host place).tagCount maxTags) := by
    change _ = (ofFn (saved host place).tags).take (min (min (host.posts place).tagCount maxTags) maxTags)
    rw [take_min, take_min, take_ofFn_iff]
    intro tag inside
    exact (if_pos inside).symm
  have comments : (host.posts place).commentCount = min (saved host place).commentCount maxComments := by
    change _ = min (min (host.posts place).commentCount maxComments) maxComments
    have small := clamped place
    omega
  rw [Post.listing, tags, comments]
  rfl

theorem required_saved (place : Fin maxPosts) :
    hasRequiredFields (host.posts place) = ((host.posts place).inUse && (saved host place).hasRequiredFields) := by
  rw [hasRequiredFields, StateEntry.hasRequiredFields, Bool.eq_iff_iff, Bool.and_eq_true, decide_eq_true_iff,
    decide_eq_true_iff]
  rfl

/-- The rows of a host are the rows of what it would save. -/
theorem collectListings_stored (clamped : Clamped host) : collectListings host =
    ((stored host).filter StateEntry.hasRequiredFields).map StateEntry.listing := by
  have places : ((finRange maxPosts).filter fun place => hasRequiredFields (host.posts place)) =
      (usedPlaces Post.inUse host.posts).filter fun place => (saved host place).hasRequiredFields := by
    rw [usedPlaces, filter_filter]
    apply filter_congr
    intro place _
    rw [required_saved, Bool.and_comm]
  rw [collectListings, places, stored, filter_map, map_map]
  apply map_congr_left
  intro place _
  exact listing_saved clamped place

/-- The search of the slots is a search of what would be saved. -/
theorem findPost_stored (host : BbsHost) {id : Nat} (positive : id ≠ 0) (known : id ≤ idSaneMax) :
    (findPost host id).map (served host) =
    ((stored host).find? fun entry => entry.hasRequiredFields && entry.id == id).map StateEntry.visible := by
  have range : ¬ (id = 0 ∨ idSaneMax < id) := by omega
  have same : (fun place => hasRequiredFields (host.posts place) && (host.posts place).id == id) = fun place =>
      (host.posts place).inUse && ((saved host place).hasRequiredFields && (saved host place).id == id) := by
    funext place
    rw [required_saved, Bool.and_assoc]
    rfl
  rw [findPost, if_neg range, firstWith]
  rw [same, stored, find?_map, usedPlaces, find?_filter, Option.map_map]
  congr 1
  · funext place
    exact served_saved host place
  · congr 1
    funext place
    simp only [Bool.decide_and, Bool.decide_eq_true]
    rfl

end Slots

section Loading

variable {store host : BbsHost} {now clock : Int} {entry : StateEntry}

theorem filterMap_reload (now : Int) (entries : List StateEntry) : entries.filterMap (reload now) =
    ((entries.map (normalize now)).filter fun entry => entry.hasRequiredFields && entry.isSane now).map
      StateEntry.kept := by
  induction entries with
  | nil => rfl
  | cons entry rest ih =>
    rw [map_cons, filter_cons]
    by_cases good : (normalize now entry).hasRequiredFields ∧ (normalize now entry).isSane now
    · have kept : reload now entry = some (normalize now entry).kept := if_pos good
      rw [filterMap_cons_some kept, if_pos (by rw [good.1, good.2]; rfl), map_cons, ih]
    · have dropped : reload now entry = none := if_neg good
      rw [filterMap_cons_none dropped, if_neg (by rwa [Bool.and_eq_true]), ih]

theorem stored_accepted (apart : Function.Injective (refs store)) :
    stored (loadState store clock (some (saveState host))) =
      (accepted (loadTime clock) (saveState host)).map StateEntry.kept := by
  rw [stored_loadState apart, filterMap_reload, accepted, saveState_read]

theorem clamped_step (clamped : Clamped host) (largest : Nat) (numbered : StateEntry × Nat) :
    Clamped (loadStep now (host, largest) numbered).1 := by
  rw [loadStep]
  split_ifs with good late
  · exact clamped
  · rw [placeEntry]
    split_ifs with room
    · intro place
      by_cases here : place = ⟨host.postCount, room⟩
      · rw [here, setPost_here]
        exact min_le_right _ _
      · rw [setPost_other _ here]
        exact clamped place
    · exact clamped
  · exact clamped

theorem clamped_load : Clamped (loadState store clock (some (saveState host))) := by
  have fold (entries : List (StateEntry × Nat)) (state : BbsHost × Nat) (clamped : Clamped state.1) :
      Clamped (entries.foldl (loadStep (loadTime clock)) state).1 := by
    induction entries generalizing state with
    | nil => exact clamped
    | cons numbered rest ih => exact ih _ (clamped_step clamped state.2 numbered)
  rw [loadState_saved]
  exact fold _ _ fun _ => Nat.zero_le _

theorem mapStateFile_saved (host : BbsHost) : mapStateFile (some (saveState host)) = some (saveState host) := by
  apply Option.filter_some_pos
  exact decide_eq_true ⟨rfl, Or.inl rfl⟩

theorem accepted_required (inside : entry ∈ accepted now (saveState host)) : entry.hasRequiredFields :=
  (Bool.and_eq_true_iff.mp (mem_filter.mp inside).2).1

theorem accepted_length : (accepted now (saveState host)).length ≤ maxPosts := by
  refine (length_filter_le _ _).trans ?_
  rw [length_map, saveState_read]
  exact stored_room host

end Loading

section Entries

variable {entry : StateEntry}

theorem kept_tags_take (entry : StateEntry) :
    (ofFn entry.kept.tags).take entry.kept.tagCount = (ofFn entry.tags).take (min entry.tagCount maxTags) ↔
      ∀ tag : Fin maxTags, tag.val < entry.tagCount → Settled (entry.tags tag) := by
  change (ofFn entry.kept.tags).take (min entry.tagCount maxTags) = _ ↔ _
  rw [take_min, take_min, take_ofFn_iff]
  refine forall_congr' fun tag => forall_congr' fun inside => ?_
  have kept : entry.kept.tags tag = strip (entry.tags tag) := if_pos inside
  rw [kept, Settled]

/-- The loader shows the row of an entry if and only if it leaves it. -/
theorem kept_listing_iff (required : entry.hasRequiredFields) :
    entry.kept.hasRequiredFields ∧ entry.kept.listing = entry.listing ↔ entry.RowSettled := by
  have tags : (ofFn entry.kept.tags).take (min entry.kept.tagCount maxTags) =
      (ofFn entry.kept.tags).take entry.kept.tagCount := take_min _ _
  have comments : min entry.kept.commentCount maxComments = min entry.commentCount maxComments := by
    change min (min entry.commentCount maxComments) maxComments = _
    omega
  constructor
  · rintro ⟨-, same⟩
    have row := (kept_tags_take entry).mp (tags.symm.trans (congrArg Listing.tags same))
    exact ⟨congrArg Listing.author same, congrArg Listing.title same, row⟩
  · rintro ⟨author, title, row⟩
    have sameAuthor : entry.kept.author = entry.author := author
    have sameTitle : entry.kept.title = entry.title := title
    refine ⟨?_, ?_⟩
    · rw [StateEntry.hasRequiredFields, sameAuthor, sameTitle]
      exact required
    · rw [StateEntry.listing, tags, (kept_tags_take entry).mpr row, comments, sameAuthor, sameTitle]
      rfl

/-- The loader gives the post that the reader of the file gives if and only if the reader leaves nothing out. -/
theorem kept_visible_iff (row : entry.RowSettled) (known : entry.id ≤ idSaneMax) :
    entry.fetched = entry.kept.visible ↔ entry.Plain := by
  have comments : (((ofFn entry.comments).take (min entry.commentCount maxComments)).map fun comment =>
      (⟨comment.author, comment.text, comment.createdAt, 0, 0, 0⟩ : Comment)) =
        (ofFn entry.kept.comments).take entry.kept.commentCount ↔
      ∀ index : Fin maxComments, index.val < entry.commentCount → (entry.comments index).Plain := by
    change _ = (ofFn entry.kept.comments).take (min entry.commentCount maxComments) ↔ _
    rw [take_min, take_min, map_take, map_ofFn, take_ofFn_iff]
    refine forall_congr' fun index => forall_congr' fun inside => ?_
    have kept : entry.kept.comments index =
        { entry.comments index with
          author := strip (entry.comments index).author, text := strip (entry.comments index).text } :=
      if_pos inside
    rw [kept]
    constructor
    · intro same
      exact ⟨(congrArg Comment.author same).symm, (congrArg Comment.text same).symm,
        (congrArg Comment.editedAt same).symm,
        (congrArg Comment.upvotes same).symm, (congrArg Comment.downvotes same).symm⟩
    · rintro ⟨author, text, unedited, upvotes, downvotes⟩
      rw [Function.comp_apply]
      generalize entry.comments index = comment at author text unedited upvotes downvotes
      change (⟨comment.author, comment.text, comment.createdAt, 0, 0, 0⟩ : Comment) =
        ⟨strip comment.author, strip comment.text, comment.createdAt, comment.editedAt, comment.upvotes,
          comment.downvotes⟩
      rw [author, text, unedited, upvotes, downvotes]
  constructor
  · intro same
    exact ⟨known, (congrArg ServedPost.boardId same).symm, (congrArg ServedPost.modFlags same).symm,
      (congrArg ServedPost.upvotes same).symm, (congrArg ServedPost.downvotes same).symm,
      (congrArg ServedPost.body same).symm, comments.mp (congrArg ServedPost.comments same)⟩
  · intro plain
    have author : entry.kept.author = entry.author := row.author
    have title : entry.kept.title = entry.title := row.title
    have body : entry.kept.body = entry.body := plain.body
    have board : entry.kept.boardId = 0 := plain.board
    have flags : entry.kept.modFlags = 0 := plain.flags
    have upvotes : entry.kept.upvotes = 0 := plain.upvotes
    have downvotes : entry.kept.downvotes = 0 := plain.downvotes
    rw [StateEntry.fetched, StateEntry.visible, ← (kept_tags_take entry).mpr row.tags, comments.mpr plain.comments,
      author, title, body, board, flags, upvotes, downvotes]
    rfl

end Entries

section Agree

variable {store host : BbsHost} {clock : Int}

theorem listings_agree_iff (apart : Function.Injective (refs store)) :
    collectListingsFromState (loadTime clock) (some (saveState host)) =
        some (collectListings (loadState store clock (some (saveState host)))) ↔
      ∀ entry ∈ accepted (loadTime clock) (saveState host), entry.RowSettled := by
  have disk : collectListingsFromState (loadTime clock) (some (saveState host)) =
      some ((accepted (loadTime clock) (saveState host)).map StateEntry.listing) := by
    rw [collectListingsFromState, mapStateFile_saved, Option.map_some, take_of_length_le]
    rw [length_map]
    exact accepted_length
  rw [disk, collectListings_stored clamped_load, stored_accepted apart, filter_map, map_map, Option.some_inj,
    eq_comm, filter_map_eq_iff]
  refine forall_congr' fun entry => forall_congr' fun inside => ?_
  exact kept_listing_iff (accepted_required inside)

/-- A settled row is found by the loaded host as by the reader of the file. -/
theorem loadPost_settled (apart : Function.Injective (refs store))
    (rows : ∀ entry ∈ accepted (loadTime clock) (saveState host), entry.RowSettled) {id : Nat} (positive : id ≠ 0)
    (known : id ≤ idSaneMax) :
    loadPost (loadState store clock (some (saveState host))) (loadTime clock) (some (saveState host)) id =
      ((accepted (loadTime clock) (saveState host)).find? fun entry => entry.id == id).map fun entry =>
        entry.kept.visible := by
  have range : ¬ (id = 0 ∨ idSaneMax < id) := by omega
  have search : (((accepted (loadTime clock) (saveState host)).map StateEntry.kept).find? fun entry =>
      entry.hasRequiredFields && entry.id == id) =
        ((accepted (loadTime clock) (saveState host)).find? fun entry => entry.id == id).map StateEntry.kept := by
    rw [find?_map]
    congr 1
    apply find?_congr
    intro entry inside
    have required := ((kept_listing_iff (accepted_required inside)).mpr (rows entry inside)).1
    change (entry.kept.hasRequiredFields && entry.id == id) = (entry.id == id)
    rw [required, Bool.true_and]
  have live := findPost_stored (loadState store clock (some (saveState host))) positive known
  rw [stored_accepted apart, search, Option.map_map] at live
  rw [loadPost, if_neg range]
  cases found : findPost (loadState store clock (some (saveState host))) id with
  | some =>
    rw [found] at live
    exact live
  | none =>
    rw [found] at live
    have missing := Option.map_eq_none_iff.mp live.symm
    rw [loadPostFromState, if_neg positive, mapStateFile_saved]
    dsimp only
    rw [missing]
    rfl

/-- The reader of the file and the loaded host agree if and only if the rows are settled and the posts are plain. -/
theorem disk_agrees_iff (store : SoundBoard) (host : BbsHost) (clock : Int) :
    DiskAgrees store.val host clock ↔ PlainFile (loadTime clock) (saveState host) := by
  have apart := store.property.apart
  have disk {id : Nat} (positive : id ≠ 0) : loadPostFromState (loadTime clock) (some (saveState host)) id =
      ((accepted (loadTime clock) (saveState host)).find? fun entry => entry.id == id).map StateEntry.fetched := by
    rw [loadPostFromState, if_neg positive, mapStateFile_saved]
  have positiveId {id : Nat} {entry : StateEntry}
      (found : ((accepted (loadTime clock) (saveState host)).find? fun entry => entry.id == id) = some entry) :
      entry.id = id ∧ id ≠ 0 ∧ entry ∈ accepted (loadTime clock) (saveState host) := by
    have same : entry.id = id := by simpa using find?_some found
    have inside := mem_of_find?_eq_some found
    have required : entry.id ≠ 0 ∧ _ := of_decide_eq_true (accepted_required inside)
    exact ⟨same, same ▸ required.1, inside⟩
  constructor
  · intro agrees
    have rows := (listings_agree_iff apart).mp agrees.listings
    refine ⟨rows, fun id entry found => ?_⟩
    obtain ⟨same, positive, inside⟩ := positiveId found
    have post := agrees.posts id
    rw [disk positive, found] at post
    have known : id ≤ idSaneMax := by
      by_contra large
      rw [loadPost, if_pos (Or.inr (Nat.lt_of_not_le large))] at post
      cases post
    rw [loadPost_settled apart rows positive known, found] at post
    exact (kept_visible_iff (rows entry inside) (same.symm ▸ known)).mp (Option.some.inj post)
  · intro plain
    refine ⟨fun id => ?_, (listings_agree_iff apart).mpr plain.rows⟩
    by_cases positive : id = 0
    · rw [loadPostFromState, if_pos positive, loadPost, if_pos (Or.inl positive)]
    rw [disk positive]
    cases found : (accepted (loadTime clock) (saveState host)).find? fun entry => entry.id == id with
    | none =>
      by_cases known : id ≤ idSaneMax
      · rw [loadPost_settled apart plain.rows positive known, found]
        rfl
      · rw [loadPost, if_pos (Or.inr (Nat.lt_of_not_le known))]
        rfl
    | some entry =>
      obtain ⟨same, -, inside⟩ := positiveId found
      have post := plain.posts id entry found
      have known : id ≤ idSaneMax := same ▸ post.known
      rw [loadPost_settled apart plain.rows positive known, found]
      exact congrArg some ((kept_visible_iff (plain.rows entry inside) post.known).mpr post)

def hiddenPost : BbsHost :=
  boardStep (boardStep .fresh (.request operator ⟨1767225600, true⟩ (.commit (sampleDraft 'a'))))
    (.request operator ⟨1767225600, true⟩ (.setModFlag 1 .hidden true))

/-- The mark of a hidden post is lost by the reader of the file. -/
theorem hidden_mark_lost : ¬ ∀ (store : SoundBoard) (host : BbsHost) (clock : Int),
    DiskAgrees store.val host clock := by
  intro agrees
  have same := congrArg (Option.map ServedPost.modFlags) ((agrees ⟨.fresh, fresh_sound⟩ hiddenPost 1767225600).posts 1)
  have disk : (loadPostFromState (loadTime 1767225600) (some (saveState hiddenPost)) 1).map ServedPost.modFlags =
    some 0 := by
    decide +kernel
  have live : (loadPost (loadState .fresh 1767225600 (some (saveState hiddenPost))) (loadTime 1767225600)
      (some (saveState hiddenPost)) 1).map ServedPost.modFlags ≠ some 0 := by decide +kernel
  exact live (same.symm.trans disk)

end Agree

end SshChatter.Bbs
