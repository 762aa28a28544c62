import SshChatter.Bbs.DiskRead
import SshChatter.Lib.RankedSort
import SshChatter.Lib.Segments

namespace SshChatter.Bbs
open CString Segments RankedSort List

/-- The array of rows that `session_bbs_list` allocates, filled by one of the two collectors. -/
structure ListingArray where
  rows : List Listing
  room : rows.length ≤ maxPosts

/-- The rows of a loaded store. -/
def ListingArray.ofHost (host : BbsHost) : ListingArray where
  rows := collectListings host
  room := by
    rw [collectListings, length_map]
    exact (length_filter_le _ _).trans (length_finRange).le

theorem collectListingsFromState_length (now : Int) (file : Option StateFile) :
    ∀ rows, collectListingsFromState now file = some rows → rows.length ≤ maxPosts := by
  intro rows collected
  cases file with
  | none =>
    cases Option.some.inj collected
    exact Nat.zero_le _
  | some =>
    obtain ⟨mapped, _, rfl⟩ := Option.map_eq_some_iff.mp collected
    exact length_take_le _ _

def ListingArray.ofFile (now : Int) (file : Option StateFile) : Option ListingArray :=
  (collectListingsFromState now file).pmap ListingArray.mk (collectListingsFromState_length now file)

/-- Where the two readers agree, both collectors fill the same array. -/
theorem DiskAgrees.table {store host : BbsHost} {clock : Int} (agrees : DiskAgrees store host clock) :
    ListingArray.ofFile (loadTime clock) (some (saveState host)) =
      some (.ofHost (loadState store clock (some (saveState host)))) := by
  rw [ListingArray.ofFile]
  simp only [agrees.listings]
  rfl

/-- The order that a listing is asked for. -/
inductive SortMode where
  | bumped
  | hot
  | top
  | new
  deriving DecidableEq

/-- The word of an order. -/
def SortMode.name : SortMode → Bytes
  | .bumped => str "bumped"
  | .hot => str "hot"
  | .top => str "top"
  | .new => str "new"

def Listing.hidden (row : Listing) : Bool := row.modFlags &&& ModFlag.hidden.bit ≠ 0

def Listing.pinned (row : Listing) : Bool := row.modFlags &&& ModFlag.pinned.bit ≠ 0

def Listing.score (row : Listing) : Int := row.upvotes - row.downvotes

def Listing.heat (row : Listing) : Int := row.score * 2 + row.commentCount

def passes (mode : SortMode) (key previous : Listing) : Bool :=
  if previous.pinned ≠ key.pinned then key.pinned
  else
    match mode with
    | .hot => previous.heat < key.heat || (previous.heat = key.heat && previous.bumpedAt < key.bumpedAt)
    | .top => previous.score < key.score || (previous.score = key.score && previous.bumpedAt < key.bumpedAt)
    | .new => previous.createdAt < key.createdAt
    | .bumped => previous.bumpedAt < key.bumpedAt

/-- The session that asks for a listing. -/
structure Viewer where
  isOperator : Bool
  isLanOperator : Bool
  currentBoard : UInt16

def inScope (table : ListingArray) (viewer : Viewer) (listAll : Bool) : List Listing :=
  let visible := if viewer.isOperator || viewer.isLanOperator then table.rows else table.rows.filter fun row =>
    !row.hidden
  if listAll then visible else visible.filter fun row => row.boardId == viewer.currentBoard

structure ListArguments where
  listAll : Bool
  page : Nat
  sortMode : SortMode
  deriving DecidableEq

/-- One word of the arguments. -/
def readListToken (parsed : ListArguments) (token : Bytes) : ListArguments :=
  if token.map toLower = str "all" then { parsed with listAll := true }
  else if token.map toLower = str "hot" then { parsed with sortMode := .hot }
  else if token.map toLower = str "top" then { parsed with sortMode := .top }
  else if token.map toLower = str "new" then { parsed with sortMode := .new }
  else
    match readUnsigned token with
    | some (page + 1, []) => { parsed with page := page + 1 }
    | _ => parsed

def parseListArguments (arguments : Option Bytes) : ListArguments :=
  match arguments with
  | none => ⟨false, 1, .bumped⟩
  | some text => (segments 32 (trimSpace (text.take 127))).foldl readListToken ⟨false, 1, .bumped⟩

def nextCommand (parsed : ListArguments) : Bytes :=
  str "list " ++ (if parsed.listAll then str "all" else parsed.sortMode.name) ++ byte ' ' :: decimal (parsed.page + 1)

/-- The part of `session_handle_bbs` that serves the command `list`. It gives the arguments of the listing. -/
def handleBbsList (line : Bytes) : Option (Option Bytes) :=
  let working := trimSpace (line.take 4095)
  let command := working.takeWhile fun c => !isSpace c
  if command = str "list" then
    match working.dropWhile fun c => !isSpace c with
    | [] => some none
    | _ :: rest => some (some (trimSpace rest))
  else none

abbrev pageSize : Nat := 20

/-- This is `bbs_topic_group_t` with the rows in place of their indexes. -/
structure TopicGroup where
  name : CText 23
  entries : List Listing

def Listing.topic (row : Listing) : CText 23 := row.tags.head?.getD (.print (str "general"))

def joinTopic (topics : List TopicGroup) (row : Listing) : List TopicGroup :=
  match topics.findIdx? fun topic => topic.name.text.map toLower == row.topic.text.map toLower with
  | none => if maxPosts ≤ topics.length then topics else topics ++ [⟨row.topic, [row]⟩]
  | some index => topics.modify index fun topic =>
    if topic.entries.length < maxPosts then { topic with entries := topic.entries ++ [row] } else topic

/-- The test of the second insertion sort, by `strcasecmp`. -/
def passesTopic (key previous : TopicGroup) : Bool := key.name.text.map toLower < previous.name.text.map toLower

def topicGroups (rows : List Listing) : List TopicGroup := insertSort passesTopic (rows.foldl joinTopic [])

/-- What a listing answers. The command is the one that the footer offers. -/
inductive ListReply where
  | empty
  | noSuchPage
  | page (topics : List TopicGroup) (current total : Nat) (next : Option Bytes)

def totalPages (scope : List Listing) : Nat := (scope.length + pageSize - 1) / pageSize

def pageRows (sorted : List Listing) (page : Nat) : List Listing := (sorted.drop ((page - 1) * pageSize)).take pageSize

/-- This is `session_bbs_list`. -/
def listPosts (table : ListingArray) (viewer : Viewer) (arguments : Option Bytes) : ListReply :=
  let parsed := parseListArguments arguments
  let scope := inScope table viewer parsed.listAll
  if scope = [] then .empty
  else if totalPages scope < parsed.page then .noSuchPage
  else
    .page (topicGroups (pageRows (insertSort (passes parsed.sortMode) scope) parsed.page)) parsed.page
      (totalPages scope) (if parsed.page < totalPages scope then some (nextCommand parsed) else none)

/-- A viewer reads a listing and enters the command of the footer until there is none. These are the posts of each
page. -/
def browse (table : ListingArray) (viewer : Viewer) : Nat → Option Bytes → Option (List (List Listing))
  | 0, _ => none
  | turns + 1, arguments =>
    match listPosts table viewer arguments with
    | .empty => some []
    | .noSuchPage => some []
    | .page topics _ _ none => some [topics.flatMap TopicGroup.entries]
    | .page topics _ _ (some command) =>
      match handleBbsList command with
      | none => none
      | some later => (browse table viewer turns later).map (topics.flatMap TopicGroup.entries :: ·)

def sortKey (mode : SortMode) (row : Listing) : Int :=
  match mode with
  | .hot => row.heat
  | .top => row.score
  | .new => row.createdAt
  | .bumped => row.bumpedAt

/-- A post that has to come before another one. -/
def Above (mode : SortMode) (first second : Listing) : Prop :=
  first.pinned ∧ second.pinned = false ∨ first.pinned = second.pinned ∧ sortKey mode second < sortKey mode first

instance (mode : SortMode) (first second : Listing) : Decidable (Above mode first second) :=
  inferInstanceAs (Decidable (_ ∨ _))

def Ahead (mode : SortMode) (earlier later : List Listing) : Prop :=
  ∀ first ∈ earlier, ∀ second ∈ later, ¬ Above mode second first

/-- The pages hold the posts of the scope once each, and no post comes on a later page than one that it is above. -/
structure Partition (mode : SortMode) (scope : List Listing) (pages : List (List Listing)) : Prop where
  complete : pages.flatten.Perm scope
  ordered : pages.Pairwise (Ahead mode)

/-- The number of posts of the scope that an order puts in front of one of them. Equal posts keep the order of the
array. -/
def placeIn (mode : SortMode) (scope : List Listing) (row : Listing × Nat) : Nat := place (passes mode) scope.zipIdx row

/-- The posts with the first places of an order, which fill a page. -/
def leading (mode : SortMode) (scope : List Listing) : List Listing :=
  (scope.zipIdx.filter fun row => placeIn mode scope row < pageSize).map Prod.fst

def InPageOrder (mode paged : SortMode) (scope : List Listing) : Prop :=
  ∀ first ∈ scope.zipIdx, ∀ second ∈ scope.zipIdx,
    placeIn paged scope first / pageSize < placeIn paged scope second / pageSize → ¬ Above mode second.1 first.1

section Order

variable {mode : SortMode} {key previous first second : Listing}

def tieKey (mode : SortMode) (row : Listing) : Int :=
  match mode with
  | .hot | .top => row.bumpedAt
  | .new | .bumped => 0

def rank (mode : SortMode) (row : Listing) : Nat ×ₗ Int ×ₗ Int :=
  toLex (row.pinned.toNat, toLex (sortKey mode row, tieKey mode row))

theorem rank_lt_iff :
    rank mode previous < rank mode key ↔
      previous.pinned.toNat < key.pinned.toNat ∨ previous.pinned.toNat = key.pinned.toNat ∧
        (sortKey mode previous < sortKey mode key ∨
          sortKey mode previous = sortKey mode key ∧ tieKey mode previous < tieKey mode key) := by
  simp only [rank, Prod.Lex.toLex_lt_toLex]

theorem passes_byRank (mode : SortMode) : ByRank (passes mode) (rank mode) := by
  intro key previous
  rw [rank_lt_iff]
  unfold passes
  cases keyPinned : key.pinned <;> cases previousPinned : previous.pinned <;>
    cases mode <;> simp [sortKey, tieKey]

theorem rank_lt_of_above (above : Above mode first second) : rank mode second < rank mode first := by
  rw [rank_lt_iff]
  rcases above with ⟨pinned, unpinned⟩ | ⟨same, higher⟩
  · rw [pinned, unpinned]
    exact Or.inl zero_lt_one
  · rw [same]
    exact Or.inr ⟨rfl, Or.inl higher⟩

end Order

section Sorted

variable {mode : SortMode} {scope : List Listing}

def sortedRows (mode : SortMode) (scope : List Listing) : List (Listing × Nat) :=
  insertSort (fun key previous => passes mode key.1 previous.1) scope.zipIdx

theorem sortedRows_fst (mode : SortMode) (scope : List Listing) :
    (sortedRows mode scope).map Prod.fst = insertSort (passes mode) scope := by
  unfold sortedRows
  rw [insertSort_map, zipIdx_map_fst]

theorem sortedRows_perm (mode : SortMode) (scope : List Listing) : (sortedRows mode scope).Perm scope.zipIdx :=
    insertSort_perm _

theorem sortedRows_length (mode : SortMode) (scope : List Listing) : (sortedRows mode scope).length = scope.length := by
  rw [(sortedRows_perm mode scope).length_eq, length_zipIdx]

theorem placeIn_sortedRows {position : Nat} (inside : position < (sortedRows mode scope).length) :
    placeIn mode scope (sortedRows mode scope)[position] = position :=
  place_sorted (passes_byRank mode) (zipIdx_increasing scope) inside

theorem exists_place (mode : SortMode) {row : Listing × Nat} (member : row ∈ scope.zipIdx) :
    ∃ inside : placeIn mode scope row < (sortedRows mode scope).length,
      (sortedRows mode scope)[placeIn mode scope row] = row := by
  obtain ⟨position, inside, rfl⟩ := mem_iff_getElem.mp ((sortedRows_perm mode scope).mem_iff.mpr member)
  rw [placeIn_sortedRows inside]
  exact ⟨inside, rfl⟩

theorem take_leading (mode : SortMode) (scope : List Listing) :
    ((insertSort (passes mode) scope).take pageSize).Perm (leading mode scope) := by
  rw [← sortedRows_fst, ← map_take]
  exact (take_sorted (passes_byRank mode) (zipIdx_increasing scope) pageSize).map _

end Sorted

section Topics

variable {topics : List TopicGroup}

theorem entries_length_le {topic : TopicGroup} (member : topic ∈ topics) :
    topic.entries.length ≤ (topics.flatMap TopicGroup.entries).length := by
  rw [length_flatMap]
  exact single_le_sum (fun _ _ => Nat.zero_le _) _ (mem_map_of_mem member)

/-- A row is added once. -/
theorem joinTopic_perm (few : topics.length < maxPosts) (small : (topics.flatMap TopicGroup.entries).length < maxPosts)
    (row : Listing) :
    ((joinTopic topics row).flatMap TopicGroup.entries).Perm (topics.flatMap TopicGroup.entries ++ [row]) ∧
      (joinTopic topics row).length ≤ topics.length + 1 := by
  unfold joinTopic
  split
  · rw [if_neg (not_le.mpr few), flatMap_append, length_append]
    exact ⟨List.Perm.refl _, le_rfl⟩
  next index found =>
    obtain ⟨inside, _⟩ := findIdx?_eq_some_iff_getElem.mp found
    have room : (topics[index]).entries.length < maxPosts :=
      lt_of_le_of_lt (entries_length_le (getElem_mem inside)) small
    refine ⟨?_, (length_modify _ _ _).le.trans (Nat.le_succ _)⟩
    conv_rhs => rw [← take_append_drop index topics, drop_eq_getElem_cons inside]
    rw [modify_eq_take_cons_drop inside, if_pos room, flatMap_append, flatMap_append, flatMap_cons,
      flatMap_cons, append_assoc, append_assoc, append_assoc]
    exact (perm_append_comm.append_left _).append_left _

theorem topicGroups_perm {rows : List Listing} (fits : rows.length ≤ maxPosts) :
    ((topicGroups rows).flatMap TopicGroup.entries).Perm rows := by
  have joined : ((rows.foldl joinTopic []).flatMap TopicGroup.entries).Perm rows ∧
      (rows.foldl joinTopic []).length ≤ rows.length := by
    induction rows using reverseRecOn with
    | nil => exact ⟨List.Perm.refl _, le_rfl⟩
    | append_singleton rows row ih =>
      rw [length_append] at fits
      obtain ⟨same, few⟩ := ih (Nat.le_of_succ_le fits)
      rw [foldl_append, length_append]
      obtain ⟨added, more⟩ := joinTopic_perm (lt_of_le_of_lt few fits) (same.length_eq ▸ fits) row
      exact ⟨added.trans (same.append_right _), more.trans (Nat.succ_le_succ few)⟩
  exact ((insertSort_perm _).flatMap_right _).trans joined.1

end Topics

section Continuation

theorem trimSpace_solid {text : Bytes} (front : ∀ c, text.head? = some c → isSpace c = false)
    (back : ∀ c, text.getLast? = some c → isSpace c = false) : trimSpace text = text := by
  unfold trimSpace
  have kept : text.dropWhile isSpace = text := by
    cases text with
    | nil => rfl
    | cons c => rw [dropWhile_cons_of_neg (by rw [front c rfl]; exact Bool.false_ne_true)]
  rw [kept, rdropWhile_eq_self_iff]
  intro present
  rw [back _ (getLast?_eq_some_getLast present)]
  exact Bool.false_ne_true

theorem toLower_digit {c : UInt8} (digit : isDigit c) : toLower c = c := by
  rw [isDigit, decide_eq_true_eq] at digit
  rw [toLower, if_neg]
  intro capital
  rw [UInt8.le_iff_toNat_le] at digit capital
  exact absurd (capital.1.trans digit.2) (by decide)

theorem decimal_ne_word {n : Nat} {word : Bytes} (letter : ∃ c ∈ word, isDigit c = false) :
    (decimal n).map toLower ≠ word := by
  obtain ⟨c, member, other⟩ := letter
  intro same
  have plain : (decimal n).map toLower = decimal n :=
    (map_congr_left fun c inside => toLower_digit (decimal_isDigit n c inside)).trans (map_id _)
  rw [← same, plain] at member
  rw [decimal_isDigit n c member] at other
  cases other

theorem readUnsigned_decimal {n : Nat} (small : n < 2 ^ 64) : readUnsigned (decimal n) = some (n, []) := by
  have all : (decimal n).takeWhile isDigit = decimal n := takeWhile_eq_self_iff.mpr (decimal_isDigit n)
  have rest : (decimal n).dropWhile isDigit = [] := dropWhile_eq_nil_iff.mpr (decimal_isDigit n)
  have value := digitsValue_decimal n
  obtain ⟨c, digits, printed⟩ := exists_cons_of_ne_nil (decimal_ne_nil n)
  obtain ⟨solid, notMinus, notPlus⟩ := isDigit_plain (decimal_isDigit n c (by rw [printed]; exact mem_cons_self))
  rw [printed] at all rest value ⊢
  unfold readUnsigned
  rw [dropWhile_cons_of_neg (by rw [solid]; exact Bool.false_ne_true)]
  simp only [head?_cons, Option.some.injEq, notMinus, notPlus, or_self, if_false, all, rest, value, reduceCtorEq,
    not_le.mpr small]

/-- The order of the pages that the footer leads to. The word `all` takes the place of the order. -/
def ListArguments.laterMode (parsed : ListArguments) : SortMode := if parsed.listAll then .bumped else parsed.sortMode

def ListArguments.word (parsed : ListArguments) : Bytes := if parsed.listAll then str "all" else parsed.sortMode.name

variable (parsed : ListArguments)

theorem word_plain : parsed.word ≠ [] ∧ parsed.word.length ≤ 6 ∧ ∀ c ∈ parsed.word, isSpace c = false := by
  unfold ListArguments.word
  generalize parsed.listAll = listAll
  generalize parsed.sortMode = mode
  cases listAll <;> cases mode <;> decide +kernel

theorem readListToken_word :
    readListToken ⟨false, 1, .bumped⟩ parsed.word = ⟨parsed.listAll, 1, parsed.laterMode⟩ := by
  obtain ⟨listAll, page, mode⟩ := parsed
  cases listAll <;> cases mode <;> rfl

theorem readListToken_decimal {page : Nat} (small : page + 1 < 2 ^ 64) :
    readListToken parsed (decimal (page + 1)) = { parsed with page := page + 1 } := by
  unfold readListToken
  rw [if_neg (decimal_ne_word ⟨byte 'a', by decide, by decide⟩), if_neg
    (decimal_ne_word ⟨byte 'h', by decide, by decide⟩), if_neg (decimal_ne_word ⟨byte 't', by decide, by decide⟩),
      if_neg (decimal_ne_word ⟨byte 'n', by decide, by decide⟩),
    readUnsigned_decimal small]

/-- The arguments in the command of the footer have no blanks at their ends. -/
theorem trimSpace_continuation (lead : Bytes) (front : ∀ c, lead.head? = some c → isSpace c = false) (n : Nat) :
    trimSpace (lead ++ parsed.word ++ 32 :: decimal n) = lead ++ parsed.word ++ 32 :: decimal n := by
  obtain ⟨present, _, plain⟩ := word_plain parsed
  apply trimSpace_solid
  · intro c first
    cases lead with
    | nil =>
      obtain ⟨letter, word, written⟩ := exists_cons_of_ne_nil present
      rw [nil_append, written, cons_append, head?_cons, Option.some.injEq] at first
      rw [← first]
      exact plain letter (by rw [written]; exact mem_cons_self)
    | cons => exact front c first
  · intro c last
    obtain ⟨digits, digit, printed⟩ := eq_nil_or_concat (decimal n) |>.resolve_left (decimal_ne_nil n)
    have ends : (lead ++ parsed.word ++ 32 :: (digits ++ [digit])).getLast? = some digit := by
      rw [getLast?_append, ← cons_append, getLast?_concat, Option.some_or]
    rw [printed, concat_eq_append, ends] at last
    cases last
    exact (isDigit_plain (decimal_isDigit n c (by rw [printed]; simp))).1

/-- The command of the footer asks for the next page in the order that its word selects. -/
theorem next_parsed (small : parsed.page + 1 < 2 ^ 64) :
    ∃ arguments, handleBbsList (nextCommand parsed) = some arguments ∧
      parseListArguments arguments = ⟨parsed.listAll, parsed.page + 1, parsed.laterMode⟩ := by
  obtain ⟨present, short, plain⟩ := word_plain parsed
  have digits : (decimal (parsed.page + 1)).length ≤ 20 := decimal_length (small.trans (by decide)) (by decide)
  have command : nextCommand parsed = str "list " ++ parsed.word ++ 32 :: decimal (parsed.page + 1) := rfl
  have length : (parsed.word ++ 32 :: decimal (parsed.page + 1)).length ≤ 27 := by
    rw [length_append, length_cons]
    omega
  have trimmed := trimSpace_continuation parsed [] (by simp) (parsed.page + 1)
  rw [nil_append] at trimmed
  refine ⟨some (parsed.word ++ 32 :: decimal (parsed.page + 1)), ?_, ?_⟩
  · have whole : (nextCommand parsed).take 4095 = nextCommand parsed := by
      apply take_of_length_le
      rw [command, append_assoc, length_append]
      have five : (str "list ").length = 5 := by decide +kernel
      omega
    unfold handleBbsList
    rw [whole, command, trimSpace_continuation parsed (str "list ") (by decide +kernel)]
    change (if str "list" = str "list" then some (some (trimSpace (parsed.word ++ 32 :: decimal (parsed.page + 1))))
      else none) = _
    rw [if_pos rfl, trimmed]
  · have parts : segments 32 (parsed.word ++ 32 :: decimal (parsed.page + 1)) =
      [parsed.word, decimal (parsed.page + 1)] := by
      have joined : join 32 [parsed.word, decimal (parsed.page + 1)] = parsed.word ++
        32 :: decimal (parsed.page + 1) := by
        rw [join, flatMap_cons, flatMap_nil, append_nil]
      rw [← joined]
      apply segments_join
      rintro part member
      rcases mem_pair.mp member with rfl | rfl
      · exact ⟨present, fun blank => absurd (plain 32 blank) (by decide)⟩
      · exact ⟨decimal_ne_nil _, fun blank => absurd (decimal_isDigit _ 32 blank) (by decide)⟩
    change (segments 32 (trimSpace (take 127 _))).foldl readListToken ⟨false, 1, .bumped⟩ = _
    rw [take_of_length_le (length.trans (by decide)), trimmed, parts, foldl_cons, foldl_cons, foldl_nil,
      readListToken_word, readListToken_decimal _ small]

end Continuation

section Browsing

variable {table : ListingArray} {viewer : Viewer}

def shownRows (sorted : List Listing) (page : Nat) : List Listing :=
  (topicGroups (pageRows sorted page)).flatMap TopicGroup.entries

theorem shownRows_perm (sorted : List Listing) (page : Nat) : (shownRows sorted page).Perm (pageRows sorted page) :=
  topicGroups_perm ((length_take_le _ _).trans (by decide))

theorem inScope_length (table : ListingArray) (viewer : Viewer) (listAll : Bool) :
    (inScope table viewer listAll).length ≤ maxPosts := by
  refine le_trans ?_ table.room
  unfold inScope
  split_ifs
  · exact le_rfl
  · exact length_filter_le _ _
  · exact length_filter_le _ _
  · exact (length_filter_le _ _).trans (length_filter_le _ _)

theorem totalPages_le (table : ListingArray) (viewer : Viewer) (listAll : Bool) :
    totalPages (inScope table viewer listAll) ≤ 13 := by
  have few : (inScope table viewer listAll).length ≤ 256 := inScope_length table viewer listAll
  change (_ + 20 - 1) / 20 ≤ 13
  omega

variable {arguments : Option Bytes} {parsed : ListArguments}

theorem browse_page (read : parseListArguments arguments = parsed) (some : inScope table viewer parsed.listAll ≠ [])
    (exists_page : parsed.page ≤ totalPages (inScope table viewer parsed.listAll)) (turns : Nat) :
    ∃ later, parseListArguments later = ⟨parsed.listAll, parsed.page + 1, parsed.laterMode⟩ ∧
      browse table viewer (turns + 1) arguments =
        if parsed.page < totalPages (inScope table viewer parsed.listAll) then
          (browse table viewer turns later).map
            (shownRows (insertSort (passes parsed.sortMode) (inScope table viewer parsed.listAll)) parsed.page :: ·)
        else [shownRows (insertSort (passes parsed.sortMode) (inScope table viewer parsed.listAll)) parsed.page] := by
  have bound := totalPages_le table viewer parsed.listAll
  obtain ⟨later, handled, reread⟩ := next_parsed parsed (by omega)
  refine ⟨later, reread, ?_⟩
  rw [browse, listPosts, read]
  simp only [if_neg some, if_neg (not_lt.mpr exists_page)]
  split_ifs
  · simp only [handled]
    rfl
  · rfl

/-- From a page whose order the footer keeps, all later pages follow in that order. -/
theorem browse_from {listAll : Bool} {mode : SortMode} (kept : listAll = true → mode = .bumped)
    (some : inScope table viewer listAll ≠ []) (rest : Nat) {page : Nat}
    (read : parseListArguments arguments = ⟨listAll, page, mode⟩)
    (last : page + rest = totalPages (inScope table viewer listAll)) :
    browse table viewer (rest + 1) arguments =
      ((range' page (rest + 1)).map (shownRows (insertSort (passes mode) (inScope table viewer listAll)))) := by
  induction rest generalizing arguments page with
  | zero =>
    obtain ⟨later, reread, turn⟩ := browse_page read some (by simpa using last.le) 0
    rw [turn, if_neg (by simpa using last.ge)]
    rfl
  | succ rest ih =>
    have within : page ≤ totalPages (inScope table viewer listAll) := by omega
    have less : page < totalPages (inScope table viewer listAll) := by omega
    have onward : page + 1 + rest = totalPages (inScope table viewer listAll) := by omega
    obtain ⟨later, reread, turn⟩ := browse_page read some within (rest + 1)
    have same : (ListArguments.mk listAll page mode).laterMode = mode := by
      unfold ListArguments.laterMode
      split_ifs with all
      · exact (kept all).symm
      · rfl
    rw [same] at reread
    rw [turn, if_pos less, ih reread onward]
    rfl

/-- The first page is in the order of the arguments, and the later pages are in the order that the footer keeps. -/
theorem browse_first (read : parseListArguments arguments = parsed) (first : parsed.page = 1)
    (some : inScope table viewer parsed.listAll ≠ []) :
    browse table viewer (totalPages (inScope table viewer parsed.listAll)) arguments =
      (shownRows (insertSort (passes parsed.sortMode) (inScope table viewer parsed.listAll)) 1 ::
        (range' 2 (totalPages (inScope table viewer parsed.listAll) - 1)).map
          (shownRows (insertSort (passes parsed.laterMode) (inScope table viewer parsed.listAll)))) := by
  have present : 1 ≤ totalPages (inScope table viewer parsed.listAll) := by
    have length := length_pos_iff.mpr some
    change 1 ≤ (_ + 20 - 1) / 20
    omega
  obtain ⟨count, pages⟩ := Nat.exists_eq_add_of_le' present
  obtain ⟨later, reread, turn⟩ := browse_page read some (first ▸ present) count
  rw [pages] at turn ⊢
  rw [turn, first]
  cases count with
  | zero => rfl
  | succ count =>
    rw [first] at reread
    have kept : parsed.listAll = true → parsed.laterMode = .bumped := fun all => if_pos all
    rw [browse_from kept some count reread (by omega)]
    rfl

/-- Two readings that come to an end show the same. -/
theorem browse_unique {turns turns' : Nat} {pages pages' : List (List Listing)}
    (shown : browse table viewer turns arguments = some pages)
    (shown' : browse table viewer turns' arguments = some pages') :
    pages = pages' := by
  induction turns generalizing turns' arguments pages pages' with
  | zero => cases shown
  | succ turns ih =>
    cases turns' with
    | zero => cases shown'
    | succ =>
      rw [browse] at shown shown'
      cases reply : listPosts table viewer arguments with
      | empty =>
        simp only [reply] at shown shown'
        exact Option.some.inj (shown.symm.trans shown')
      | noSuchPage =>
        simp only [reply] at shown shown'
        exact Option.some.inj (shown.symm.trans shown')
      | page topics current total next =>
        cases next with
        | none =>
          simp only [reply] at shown shown'
          exact Option.some.inj (shown.symm.trans shown')
        | some command =>
          cases handled : handleBbsList command with
          | none =>
            simp only [reply, handled] at shown
            cases shown
          | some =>
            simp only [reply, handled] at shown shown'
            obtain ⟨rest, reached, rfl⟩ := Option.map_eq_some_iff.mp shown
            obtain ⟨rest', reached', rfl⟩ := Option.map_eq_some_iff.mp shown'
            rw [ih reached reached']

end Browsing

section Partitions

variable {mode paged : SortMode} {scope sorted : List Listing}

theorem Ahead.congr {earlier later earlier' later' : List Listing} (front : earlier.Perm earlier')
    (back : later.Perm later') : Ahead mode earlier later ↔ Ahead mode earlier' later' := by
  simp only [Ahead, front.mem_iff, back.mem_iff]

/-- Consecutive pages up to the end make up the rest of the rows. -/
theorem flatten_pageRows (sorted : List Listing) (count page : Nat)
    (covers : sorted.length ≤ (page + count) * pageSize) :
    ((range' (page + 1) count).map (pageRows sorted)).flatten = sorted.drop (page * pageSize) := by
  induction count generalizing page with
  | zero => exact (drop_eq_nil_of_le covers).symm
  | succ count ih =>
    have step : (page + 1) * pageSize = page * pageSize + pageSize := Nat.succ_mul _ _
    rw [range'_succ, map_cons, flatten_cons, ih (page + 1) (by rwa [add_assoc, add_comm 1]), step,
      ← drop_drop]
    exact take_append_drop _ _

theorem mem_pageRows {row : Listing} {page : Nat} :
    row ∈ pageRows sorted (page + 1) ↔ ∃ position, position / pageSize = page ∧ sorted[position]? = some row := by
  have index (offset : Nat) : (offset < pageSize ∧ sorted[page * pageSize + offset]? = some row) ↔
      (pageRows sorted (page + 1))[offset]? = some row := by
    unfold pageRows
    rw [Nat.add_sub_cancel, getElem?_take, getElem?_drop]
    split_ifs with less
    · simp only [less, true_and]
    · simp [less]
  rw [mem_iff_getElem?]
  constructor
  · rintro ⟨offset, found⟩
    obtain ⟨less, same⟩ := (index offset).mpr found
    refine ⟨page * pageSize + offset, ?_, same⟩
    rw [mul_comm, Nat.mul_add_div (by decide), Nat.div_eq_of_lt less, add_zero]
  · rintro ⟨position, rfl, found⟩
    refine ⟨position % pageSize, (index _).mp ⟨Nat.mod_lt _ (by decide), ?_⟩⟩
    rwa [Nat.div_add_mod']

theorem pages_ordered_iff :
    ((range' 1 (totalPages scope)).map (pageRows (insertSort (passes paged) scope))).Pairwise (Ahead mode) ↔
      InPageOrder mode paged scope := by
  have length := sortedRows_length paged scope
  have length' : (insertSort (passes paged) scope).length = scope.length := insertSort_length scope
  have row {place : Nat} (inside : place < (sortedRows paged scope).length) :
      (insertSort (passes paged) scope)[place]? = some (sortedRows paged scope)[place].1 := by
    rw [← sortedRows_fst, getElem?_map, getElem?_eq_getElem inside, Option.map_some]
  rw [pairwise_map, pairwise_iff_getElem]
  simp only [getElem_range', length_range', one_mul, add_comm 1]
  constructor
  · intro ordered first member second member' less
    obtain ⟨inside, same⟩ := exists_place paged member
    obtain ⟨inside', same'⟩ := exists_place paged member'
    have page : placeIn paged scope second / pageSize < totalPages scope := by
      change _ / 20 < (_ + 20 - 1) / 20
      omega
    apply ordered _ _ (less.trans page) page less
    · exact mem_pageRows.mpr ⟨_, rfl, by rw [row inside, same]⟩
    · exact mem_pageRows.mpr ⟨_, rfl, by rw [row inside', same']⟩
  · intro ordered i j _ _ less first member second member'
    obtain ⟨position, rfl, found⟩ := mem_pageRows.mp member
    obtain ⟨position', rfl, found'⟩ := mem_pageRows.mp member'
    have inside : position < (sortedRows paged scope).length := by
      rw [length, ← length']
      exact (List.getElem?_eq_some_iff.mp found).1
    have inside' : position' < (sortedRows paged scope).length := by
      rw [length, ← length']
      exact (List.getElem?_eq_some_iff.mp found').1
    have before := ordered _ ((sortedRows_perm paged scope).mem_iff.mp (getElem_mem inside))
      _ ((sortedRows_perm paged scope).mem_iff.mp (getElem_mem inside'))
    rw [placeIn_sortedRows inside, placeIn_sortedRows inside'] at before
    rw [row inside, Option.some.injEq] at found
    rw [row inside', Option.some.injEq] at found'
    rw [← found, ← found']
    exact before less

theorem length_le_pages (scope : List Listing) : scope.length ≤ totalPages scope * pageSize := by
  change _ ≤ (_ + 20 - 1) / 20 * 20
  omega

/-- A first page in one order and later pages in another one are a partition when the orders agree. -/
theorem partition_iff (some : scope ≠ []) :
    Partition mode scope (shownRows (insertSort (passes mode) scope) 1 ::
        (range' 2 (totalPages scope - 1)).map (shownRows (insertSort (passes paged) scope))) ↔
      (leading mode scope).Perm (leading paged scope) ∧ InPageOrder mode paged scope := by
  have present : 1 ≤ totalPages scope := by
    have length := length_pos_iff.mpr some
    change 1 ≤ (_ + 20 - 1) / 20
    omega
  have length : (insertSort (passes paged) scope).length = scope.length := insertSort_length scope
  have later : (((range' 2 (totalPages scope - 1)).map (shownRows (insertSort (passes paged) scope))).flatten).Perm
      ((insertSort (passes paged) scope).drop pageSize) := by
    have covers := length_le_pages scope
    rw [← length] at covers
    have rest := flatten_pageRows (insertSort (passes paged) scope) (totalPages scope - 1) 1
      (by rwa [Nat.add_sub_cancel' present])
    rw [one_mul] at rest
    rw [← rest]
    exact List.Perm.flatMap_left _ fun page _ => shownRows_perm _ page
  have shown (sorted : List Listing) : (shownRows sorted 1).Perm (sorted.take pageSize) := shownRows_perm sorted 1
  have complete : (shownRows (insertSort (passes mode) scope) 1 ::
        (range' 2 (totalPages scope - 1)).map (shownRows (insertSort (passes paged) scope))).flatten.Perm scope ↔
      ((insertSort (passes mode) scope).take pageSize).Perm ((insertSort (passes paged) scope).take pageSize) := by
    have all : scope.Perm ((insertSort (passes paged) scope).take pageSize ++
      (insertSort (passes paged) scope).drop pageSize) := by
      rw [take_append_drop]
      exact (insertSort_perm scope).symm
    rw [flatten_cons, ((shown _).append later).congr_left, all.congr_right, perm_append_right_iff]
  have leads : ((insertSort (passes mode) scope).take pageSize).Perm ((insertSort (passes paged) scope).take pageSize) ↔
      (leading mode scope).Perm (leading paged scope) := by
    rw [(take_leading mode scope).congr_left, (take_leading paged scope).congr_right]
  have ordered (agrees : ((insertSort (passes mode) scope).take pageSize).Perm
      ((insertSort (passes paged) scope).take pageSize)) : (shownRows (insertSort (passes mode) scope) 1 ::
        (range' 2 (totalPages scope - 1)).map (shownRows (insertSort (passes paged) scope))).Pairwise (Ahead mode) ↔
      InPageOrder mode paged scope := by
    obtain ⟨count, pages⟩ := Nat.exists_eq_add_of_le' present
    rw [← pages_ordered_iff, pages, range'_succ, map_cons, pairwise_cons, pairwise_cons,
      pairwise_map, pairwise_map]
    have front := (shown (insertSort (passes mode) scope)).trans agrees
    have page (number : Nat) := shownRows_perm (insertSort (passes paged) scope) number
    simp only [forall_mem_map, Ahead.congr front (page _), Ahead.congr (page _) (page _)]
    rfl
  constructor
  · intro partition
    have agrees := complete.mp partition.complete
    exact ⟨leads.mp agrees, (ordered agrees).mp partition.ordered⟩
  · rintro ⟨lead, order⟩
    have agrees := leads.mpr lead
    exact ⟨complete.mpr agrees, (ordered agrees).mpr order⟩

theorem inPageOrder_self (mode : SortMode) (scope : List Listing) : InPageOrder mode mode scope := by
  intro first member second member' less above
  obtain ⟨inside, same⟩ := exists_place mode member
  obtain ⟨inside', same'⟩ := exists_place mode member'
  have sorted := insertSort_pairwise (passes_byRank mode) (zipIdx_increasing scope)
  have places : placeIn mode scope first < placeIn mode scope second := by
    by_contra other
    exact absurd (Nat.div_le_div_right (not_lt.mp other)) (not_le.mpr less)
  have goes := pairwise_iff_getElem.mp sorted _ _ inside inside' places
  change precedes _ (sortedRows mode scope)[_] (sortedRows mode scope)[_] at goes
  rw [same, same', precedes_iff (passes_byRank mode)] at goes
  have higher := rank_lt_of_above above
  rcases goes with lower | ⟨level, _⟩
  · exact absurd lower (lt_asymm higher)
  · exact absurd level higher.ne'

theorem leading_short (short : scope.length ≤ pageSize) (mode : SortMode) : leading mode scope = scope := by
  unfold leading
  rw [filter_eq_self.mpr, zipIdx_map_fst]
  intro row member
  obtain ⟨inside, _⟩ := exists_place mode member
  rw [sortedRows_length] at inside
  exact decide_eq_true (lt_of_lt_of_le inside short)

theorem inPageOrder_short (short : scope.length ≤ pageSize) : InPageOrder mode paged scope := by
  intro first member second member' less
  obtain ⟨inside, _⟩ := exists_place paged member'
  rw [sortedRows_length] at inside
  rw [Nat.div_eq_of_lt (lt_of_lt_of_le inside short)] at less
  cases less

end Partitions

/-- The pages that a viewer is led through show the posts of the scope once each and in the order of the arguments if
and only if the command in the footer keeps that order, or one page is enough, or bump order has the same leading
posts and no post on a later one of its pages is above a post on an earlier one. -/
theorem listing_partitioned_iff (table : ListingArray) (viewer : Viewer) (arguments : Option Bytes)
    (parsed : ListArguments) (read : parseListArguments arguments = parsed) (first : parsed.page = 1) :
    (∃ turns pages, browse table viewer turns arguments = some pages ∧
        Partition parsed.sortMode (inScope table viewer parsed.listAll) pages) ↔
      ¬ (parsed.listAll ∧ parsed.sortMode ≠ .bumped) ∨ (inScope table viewer parsed.listAll).length ≤ pageSize ∨
      ((leading parsed.sortMode (inScope table viewer parsed.listAll)).Perm
          (leading .bumped (inScope table viewer parsed.listAll)) ∧
        InPageOrder parsed.sortMode .bumped (inScope table viewer parsed.listAll)) := by
  by_cases nothing : inScope table viewer parsed.listAll = []
  · rw [nothing]
    have shown : browse table viewer 1 arguments = some [] := by
      rw [browse, listPosts, read]
      simp only [if_pos nothing]
    exact iff_of_true ⟨1, [], shown, List.Perm.refl _, List.Pairwise.nil⟩ (Or.inr (Or.inl (Nat.zero_le _)))
  · have shown := browse_first read first nothing
    have reached : (∃ turns pages, browse table viewer turns arguments = some pages ∧
        Partition parsed.sortMode (inScope table viewer parsed.listAll) pages) ↔
      (leading parsed.sortMode (inScope table viewer parsed.listAll)).Perm
          (leading parsed.laterMode (inScope table viewer parsed.listAll)) ∧
        InPageOrder parsed.sortMode parsed.laterMode (inScope table viewer parsed.listAll) := by
      rw [← partition_iff nothing]
      constructor
      · rintro ⟨turns, pages, browsed, partition⟩
        rwa [browse_unique browsed shown] at partition
      · intro partition
        exact ⟨_, _, shown, partition⟩
    rw [reached]
    unfold ListArguments.laterMode
    by_cases kept : parsed.listAll ∧ parsed.sortMode ≠ .bumped
    · rw [if_pos kept.1]
      constructor
      · intro agrees
        exact Or.inr (Or.inr agrees)
      · rintro (other | short | agrees)
        · exact absurd kept other
        · rw [leading_short short, leading_short short]
          exact ⟨List.Perm.refl _, inPageOrder_short short⟩
        · exact agrees
    · have same : (if parsed.listAll then SortMode.bumped else parsed.sortMode) = parsed.sortMode := by
        split_ifs with all
        · exact (not_not.mp (not_and.mp kept all)).symm
        · rfl
      rw [same]
      exact iff_of_true ⟨List.Perm.refl _, inPageOrder_self _ _⟩ (Or.inl kept)

/-- A post that was bumped the earlier the later it was written, in the first slots. -/
def agingHost : BbsHost :=
  { BbsHost.fresh with
    posts := fun place =>
      { BbsHost.fresh.posts place with
        inUse := place.val < 21
        id := place.val + 1
        author := .print (str "ann")
        title := .print (str "title")
        createdAt := 1000 + place.val
        bumpedAt := 2000 - place.val } }

def agingTable : ListingArray := .ofHost agingHost

def visitor : Viewer := ⟨false, false, 0⟩

def newestPage : { parsed : ListArguments // parseListArguments (some (str "new")) = parsed } :=
  ⟨⟨false, 1, .new⟩, by decide +kernel⟩

theorem newest_first_partitioned :
    ∃ turns pages, browse agingTable visitor turns (some (str "new")) = some pages ∧
      Partition .new (inScope agingTable visitor false) pages := by
  exact (listing_partitioned_iff agingTable visitor (some (str "new")) newestPage.1 newestPage.2 rfl).mpr
    (Or.inl (by decide))

/-- The second page of all boards by creation time is the second page by bump time. -/
theorem all_new_repeats_post :
    ¬ ∃ turns pages, browse agingTable visitor turns (some (str "all new")) = some pages ∧
      Partition .new (inScope agingTable visitor true) pages := by
  rintro ⟨turns, pages, browsed, partition⟩
  have read : parseListArguments (some (str "all new")) = ⟨true, 1, .new⟩ := by decide +kernel
  have present : inScope agingTable visitor true ≠ [] := by
    apply ne_nil_of_length_pos
    decide +kernel
  have shown := browse_first read rfl present
  rw [browse_unique browsed shown] at partition
  have lead := ((partition_iff present).mp partition).1.map Listing.id
  revert lead
  decide +kernel

end SshChatter.Bbs
