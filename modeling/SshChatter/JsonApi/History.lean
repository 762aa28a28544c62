import SshChatter.Lib.CString
import SshChatter.Lib.CursorPaging

namespace SshChatter.JsonApi
open CString List

def historyDefault : Nat := 50

def historyMax : Nat := 200

/-- This is `chat_attachment_type_t`. -/
inductive AttachmentType where
  | none
  | image
  | video
  | audio
  | file
  deriving DecidableEq

/-- The fields of `chat_history_entry_t` that the JSON views read. -/
structure HistoryEntry where
  isUserMessage : Bool
  preserveWhitespace : Bool
  message : Bytes
  username : Bytes
  messageId : Nat
  attachmentType : AttachmentType
  attachmentTarget : Bytes
  attachmentCaption : Bytes
  createdAt : Int
  deriving DecidableEq

def entryIsEmpty (entry : HistoryEntry) : Bool := entry.message = [] ∧ entry.attachmentType = .none

/-- The answers of `host_ddial_display_view`. The view of an entry keeps its id. -/
structure DisplayView where
  visible : HistoryEntry → Bool
  shown : HistoryEntry → HistoryEntry
  sameId : ∀ entry, (shown entry).messageId = entry.messageId

/-- The fields of the request that `json_api_handle_history` reads. -/
structure HistoryRequest where
  limit : Option Nat
  before : Nat

/-- The result that `json_api_handle_history` sends. -/
structure HistoryPage where
  messages : List HistoryEntry
  hasMore : Bool
  deriving DecidableEq

def pageLimit (limit : Option Nat) : Nat :=
  let asked := limit.getD historyDefault
  let positive := if asked = 0 then 1 else asked
  if historyMax < positive then historyMax else positive

/-- The loop over the history, newest entry first. -/
def pick (view : DisplayView) (limit before : Nat) : List HistoryEntry → List HistoryEntry → List HistoryEntry × Bool
  | [], picked => (picked, false)
  | entry :: older, picked =>
    if before ≠ 0 ∧ entry.messageId ≠ 0 ∧ before ≤ entry.messageId then pick view limit before older picked
    else if entryIsEmpty entry || !view.visible entry then pick view limit before older picked
    else if picked.length = limit then (picked, true)
    else pick view limit before older (picked ++ [entry])

def handleHistory (view : DisplayView) (history : List HistoryEntry) (request : HistoryRequest) : HistoryPage :=
  let picked := pick view (pageLimit request.limit) request.before history.reverse []
  ⟨picked.1.reverse.map view.shown, picked.2⟩

def fetchPages (view : DisplayView) (history : List HistoryEntry) (limit : Option Nat) : Nat → Nat → List HistoryPage
  | 0, _ => []
  | fuel + 1, before =>
    let page := handleHistory view history ⟨limit, before⟩
    match page.hasMore, page.messages.head? with
    | true, some first => page :: fetchPages view history limit fuel first.messageId
    | _, _ => [page]

def readable (view : DisplayView) (history : List HistoryEntry) : List HistoryEntry :=
  history.filter fun entry => !entryIsEmpty entry && view.visible entry

def cursorOf (before : Nat) : Option Nat := if before = 0 then none else some before

section Handler

variable {view : DisplayView} {history : List HistoryEntry} {limit before : Nat}

theorem pageLimit_pos (limit : Option Nat) : 0 < pageLimit limit := by
  simp only [pageLimit, historyMax]
  split_ifs <;> omega

def eligible (view : DisplayView) (before : Nat) (entries : List HistoryEntry) : List HistoryEntry :=
  CursorPaging.older HistoryEntry.messageId (readable view entries) (cursorOf before)

/-- The tests of the loop decide whether an entry is eligible. -/
theorem eligible_cons (entry : HistoryEntry) (older : List HistoryEntry) :
    eligible view before (entry :: older) =
      if before ≠ 0 ∧ before ≤ entry.messageId then eligible view before older
      else if entryIsEmpty entry || !view.visible entry then eligible view before older
      else entry :: eligible view before older := by
  have seen : readable view (entry :: older) =
      if entryIsEmpty entry || !view.visible entry then readable view older else entry :: readable view older := by
    by_cases hidden : (entryIsEmpty entry || !view.visible entry)
    · rw [if_pos hidden]
      exact filter_cons_of_neg (by simpa [imp_iff_not_or] using hidden)
    · rw [if_neg hidden]
      exact filter_cons_of_pos (by simpa using hidden)
  rw [eligible, eligible, seen]
  by_cases first : before = 0
  · simp only [cursorOf, first, if_true, CursorPaging.older, ne_eq, not_true_eq_false, false_and, if_false]
  · simp only [cursorOf, first, if_false, CursorPaging.older, ne_eq, not_false_eq_true, true_and]
    by_cases newer : before ≤ entry.messageId
    · rw [if_pos newer]
      split_ifs
      · rfl
      · exact filter_cons_of_neg (by simpa using newer)
    · rw [if_neg newer]
      split_ifs
      · rfl
      · exact filter_cons_of_pos (by simpa using newer)

/-- The loop takes the eligible entries up to the limit and looks one further. -/
theorem pick_eq (view : DisplayView) (before : Nat) (newest picked : List HistoryEntry) (room : picked.length ≤ limit)
    (numbered : ∀ entry ∈ newest, entry.messageId ≠ 0) :
    pick view limit before newest picked =
      ((picked ++ eligible view before newest).take limit,
        decide (limit < picked.length + (eligible view before newest).length)) := by
  induction newest generalizing picked with
  | nil =>
    have none : eligible view before [] = [] := by
      rw [eligible, cursorOf]
      split_ifs <;> rfl
    rw [pick, none, append_nil, take_of_length_le room, length_nil, add_zero,
      decide_eq_false (Nat.not_lt_of_le room)]
  | cons entry older ih =>
    have own := numbered entry mem_cons_self
    have tail := fun picked room => ih picked room fun entry member => numbered entry (mem_cons_of_mem _ member)
    rw [pick, eligible_cons]
    simp only [ne_eq, own, not_false_eq_true, true_and]
    split_ifs with skipped hidden full
    · exact tail picked room
    · exact tail picked room
    · rw [← full, take_left, length_cons, decide_eq_true (by omega)]
    · have larger : (picked ++ [entry]).length ≤ limit := by
        rw [length_append, length_singleton]
        omega
      rw [tail _ larger, append_assoc, length_append, length_singleton, length_cons]
      simp only [singleton_append, add_assoc, add_comm 1]

/-- A request is answered with the page below its cursor, oldest entry first. -/
theorem handleHistory_eq (view : DisplayView) (numbered : ∀ entry ∈ history, entry.messageId ≠ 0) (asked : Option Nat)
    (before : Nat) :
    let page := CursorPaging.page HistoryEntry.messageId (pageLimit asked) (readable view history.reverse)
      (cursorOf before)
    handleHistory view history ⟨asked, before⟩ = ⟨page.1.reverse.map view.shown, page.2⟩ := by
  have loop := pick_eq view before history.reverse [] (Nat.zero_le (pageLimit asked))
    fun entry member => numbered entry (mem_reverse.mp member)
  simp only [handleHistory, loop, length_nil, zero_add]
  rfl

theorem page_numbered (view : DisplayView) (numbered : ∀ entry ∈ history, entry.messageId ≠ 0) (asked : Option Nat)
    (before : Nat) :
    ∀ entry ∈ (CursorPaging.page HistoryEntry.messageId (pageLimit asked) (readable view history.reverse)
      (cursorOf before)).1, entry.messageId ≠ 0 := by
  intro entry member
  have inside : entry ∈ readable view history.reverse := by
    have older := mem_of_mem_take member
    rw [cursorOf] at older
    split_ifs at older
    · exact older
    · exact mem_of_mem_filter older
  exact numbered entry (mem_reverse.mp (mem_of_mem_filter inside))

theorem fetchPages_eq (view : DisplayView) (numbered : ∀ entry ∈ history, entry.messageId ≠ 0) (asked : Option Nat)
    (fuel before : Nat) : fetchPages view history asked fuel before =
      (CursorPaging.walk HistoryEntry.messageId (pageLimit asked) (readable view history.reverse) fuel
        (cursorOf before)).map fun page => ⟨page.1.reverse.map view.shown, page.2⟩ := by
  induction fuel generalizing before with
  | zero => rfl
  | succ fuel ih =>
    have answer := handleHistory_eq view numbered asked before
    have known := page_numbered view numbered asked before
    rw [fetchPages, CursorPaging.walk]
    generalize CursorPaging.page HistoryEntry.messageId (pageLimit asked) (readable view history.reverse)
      (cursorOf before) = page at answer known
    simp only [answer, head?_map, head?_reverse]
    cases more : page.2 with
    | false => simp [more]
    | true =>
      cases ends : page.1.getLast? with
      | none => simp [more]
      | some last =>
        have cursor : cursorOf (view.shown last).messageId = some last.messageId := by
          rw [view.sameId, cursorOf, if_neg (known last (mem_of_getLast? ends))]
        simp [ih, cursor, more]

theorem joinReversed (view : DisplayView) (pages : List (List HistoryEntry × Bool)) :
    ((pages.map fun page => (⟨page.1.reverse.map view.shown, page.2⟩ : HistoryPage)).reverse.flatMap
      HistoryPage.messages) = (pages.flatMap Prod.fst).reverse.map view.shown := by
  induction pages with
  | nil => rfl
  | cons page rest ih =>
    rw [map_cons, reverse_cons, flatMap_append, ih, flatMap_singleton, flatMap_cons,
      reverse_append, map_append]

end Handler

/-- The pages in reverse order are the readable entries, and exactly the last page announces no more. -/
theorem fetchPages_complete (view : DisplayView) {history : List HistoryEntry}
    (numbered : ∀ entry ∈ history, entry.messageId ≠ 0)
    (increasing : history.Pairwise fun entry next => entry.messageId < next.messageId) (limit : Option Nat)
    {fuel : Nat} (enough : history.length < fuel) :
    let pages := fetchPages view history limit fuel 0
    pages.reverse.flatMap HistoryPage.messages = (readable view history).map view.shown ∧
      ∃ front last, pages = front ++ [last] ∧ last.hasMore = false ∧ ∀ page ∈ front, page.hasMore := by
  intro pages
  have newest : (readable view history.reverse).Pairwise fun entry next => next.messageId < entry.messageId :=
    (pairwise_reverse.mpr increasing).filter _
  have room : (CursorPaging.older HistoryEntry.messageId (readable view history.reverse) (cursorOf 0)).length <
    fuel := by
    have shorter := length_filter_le (fun entry => !entryIsEmpty entry && view.visible entry) history.reverse
    rw [length_reverse] at shorter
    exact lt_of_le_of_lt shorter enough
  obtain ⟨joined, front, last, shape, stop, more⟩ := CursorPaging.walk_spec (pageLimit_pos limit) newest room
  have walked : pages = _ := fetchPages_eq view numbered limit fuel 0
  rw [walked]
  constructor
  · rw [joinReversed, joined, cursorOf, if_pos rfl, CursorPaging.older, readable, filter_reverse,
      reverse_reverse, readable]
  · rw [shape, map_append]
    refine ⟨_, _, rfl, stop, ?_⟩
    intro page member
    obtain ⟨source, inside, rfl⟩ := mem_map.mp member
    exact more source inside

/-- Three entries are read in two pages around a hidden one. -/
theorem fetchPages_complete_two_pages :
    let entry := fun id text => HistoryEntry.mk true false (str text) (str "bob") id .none [] [] 0
    let view : DisplayView := ⟨fun entry => entry.messageId ≠ 5, id, fun _ => rfl⟩
    let history := [entry 2 "hello", entry 3 "", entry 5 "secret", entry 7 "again", entry 8 "bye"]
    let pages := fetchPages view history (some 2) 6 0
    pages.map (fun page => page.messages.map HistoryEntry.messageId) = [[7, 8], [2]] ∧
      pages.reverse.flatMap HistoryPage.messages = (readable view history).map view.shown := by
  intro entry view history pages
  have complete := @fetchPages_complete view history (by decide) (by decide) (some 2) 6 (by decide)
  exact ⟨by decide +kernel, complete.1⟩

end SshChatter.JsonApi
