import SshChatter.Rss.RefreshCycle
import SshChatter.Lib.NameRegistry

namespace SshChatter.Rss
open CString EventRun NamedReference Function List

section Feeds

/-- The names of the feeds are their tags without their case, and their origins are their addresses. -/
def RssFeed.entry (feed : RssFeed) : Bytes × CText 1023 := (feed.tag.text.map toLower, feed.url)

/-- The tags and addresses of the registered feeds. -/
def directory (feeds : FeedTable) : Directory (Fin maxFeeds) Bytes (CText 1023) :=
  fun place => if (feeds place).inUse then some (feeds place).entry else none

/-- The snapshots that are still to be refreshed. -/
def pending (cycles : List (List RssFeed)) : Set (Bytes × CText 1023) :=
  {reference | ∃ cycle ∈ cycles, ∃ snapshot ∈ cycle, reference = snapshot.entry}

def SameIdentity (first second : RssFeed) : Prop :=
  first.inUse = second.inUse ∧ first.tag = second.tag ∧ first.url = second.url

def RssFeed.marks (feed : RssFeed) : CText 1023 × CText 511 × CText 1023 :=
  (feed.lastItemKey, feed.lastTitle, feed.lastLink)

variable {feeds feeds' : FeedTable} {feed snapshot : RssFeed} {place : Fin maxFeeds} {tag : Bytes}

theorem findRssFeed_some (found : findRssFeed feeds tag = some place) :
    (feeds place).inUse ∧ (feeds place).tag.text.map toLower = tag.map toLower := by
  rw [findRssFeed] at found
  split_ifs at found with empty
  have both := find?_some found
  simpa [sameIgnoringCase] using both

theorem directory_congr (same : ∀ place, SameIdentity (feeds' place) (feeds place)) :
    directory feeds' = directory feeds := by
  funext place
  obtain ⟨used, tagged, addressed⟩ := same place
  rw [directory, directory, RssFeed.entry, RssFeed.entry, used, tagged, addressed]

theorem directory_update (feeds : FeedTable) (place : Fin maxFeeds) (feed : RssFeed) :
    directory (update feeds place feed) =
      update (directory feeds) place (if feed.inUse then some feed.entry else none) := by
  funext other
  by_cases same : other = place
  · subst same
    rw [directory, update_self, update_self]
  · rw [directory, update_of_ne same, update_of_ne same, directory]

theorem storeItem_identity (feed : RssFeed) (item : RssItem) : SameIdentity (storeItem feed item).1 feed := by
  rw [storeItem]
  split_ifs with known
  · exact ⟨rfl, rfl, rfl⟩
  · exact ⟨rfl, rfl, rfl⟩

theorem storeItems_identity (feed : RssFeed) (items : List RssItem) : SameIdentity (storeItems feed items) feed := by
  induction items with
  | nil => exact ⟨rfl, rfl, rfl⟩
  | cons item rest ih =>
    obtain ⟨used, tagged, addressed⟩ := storeItem_identity (storeItems feed rest) item
    exact ⟨used.trans ih.1, tagged.trans ih.2.1, addressed.trans ih.2.2⟩

theorem refreshed_identity (feed snapshot : RssFeed) (download : Download) (now : Int) :
    SameIdentity (refreshed feed snapshot download now) feed := by
  have stored (items : List RssItem) := storeItems_identity { feed with lastChecked := now } items
  rw [refreshed]
  cases download.items with
  | nil => exact stored _
  | cons => exact stored _

theorem rollOver_identity (feed : RssFeed) (windowId : UInt8) : SameIdentity (feed.rollOver windowId) feed := by
  rw [RssFeed.rollOver]
  split_ifs with unused stale
  · exact ⟨rfl, rfl, rfl⟩
  · exact ⟨rfl, rfl, rfl⟩
  · exact ⟨rfl, rfl, rfl⟩

theorem mem_snapshots (inside : snapshot ∈ snapshots feeds) :
    ∃ place, (feeds place).inUse ∧ feeds place = snapshot := by
  obtain ⟨place, used, same⟩ := mem_map.mp inside
  exact ⟨place, by simpa using (mem_filter.mp used).2, same⟩

end Feeds

section Steps

variable {state : RssState} {cycle : Nat}

/-- The tags differ, and a tag that a snapshot still has to be refreshed under is the tag of its address only. -/
def Referable (state : RssState) : Prop := Sound (directory state.host.feeds) (pending state.cycles)

/-- A tag may be given to a feed when no other feed has it, as it is stored, and no snapshot of another address that is
still to be refreshed has it. -/
def TagFree (state : RssState) (tag : CText 31) (url : CText 1023) (others : Fin maxFeeds → Prop) : Prop :=
  (∀ place, others place → (state.host.feeds place).inUse →
    sameIgnoringCase (state.host.feeds place).tag.text tag.text = false) ∧
  ∀ cycle ∈ state.cycles, ∀ snapshot ∈ cycle, sameIgnoringCase snapshot.tag.text tag.text → snapshot.url = url

def TagsKept (state : RssState) : RssEvent → Prop
  | .add url tag => addError state.host url tag = none → TagFree state (.print tag) (.print url) fun _ => True
  | .rename oldTag newTag =>
    renameError state.host oldTag newTag = none → ∀ place, findRssFeed state.host.feeds oldTag = some place →
      TagFree state (.print newTag) (state.host.feeds place).url (· ≠ place)
  | _ => True

/-- A feed is left with what it had, with or without the items, or with nothing. -/
def Leaves (before after : RssFeed) : Prop :=
  (after.url = before.url ∧ after.marks = before.marks ∧
    (after.storedItems = before.storedItems ∨ after.storedItems = [])) ∨
  (after.marks = (.zero, .zero, .zero) ∧ after.storedItems = [])

def Attributed (state : RssState) (event : RssEvent) : Prop :=
  ∀ place, Leaves (state.host.feeds place) ((rssStep state event).host.feeds place) ∨
    ∃ cycle download now snapshot, event = .fetched cycle download now ∧ state.next cycle = some snapshot ∧
      (state.host.feeds place).url = snapshot.url ∧ ((rssStep state event).host.feeds place).url = snapshot.url

variable (cycles : List (List RssFeed)) {place : Fin maxFeeds}

theorem pending_advance (cycle : Nat) : pending (advance cycles cycle) ⊆ pending cycles := by
  rintro reference ⟨rest, inside, snapshot, member, rfl⟩
  obtain ⟨index, found⟩ := mem_iff_getElem?.mp inside
  rw [advance, getElem?_modify] at found
  obtain ⟨whole, here, same⟩ := Option.map_eq_some_iff.mp found
  refine ⟨whole, mem_of_getElem? here, snapshot, ?_, rfl⟩
  split_ifs at same with mine
  · subst same
    exact mem_of_mem_tail member
  · subst same
    exact member

theorem pending_finish (cycle : Nat) : pending (cycles.set cycle []) ⊆ pending cycles := by
  rintro reference ⟨rest, inside, snapshot, member, rfl⟩
  rcases mem_or_eq_of_mem_set inside with before | rfl
  · exact ⟨rest, before, snapshot, member, rfl⟩
  · exact absurd member not_mem_nil

theorem pending_snapshots (feeds : FeedTable) :
    pending (cycles ++ [snapshots feeds]) ⊆ pending cycles ∪ entries (directory feeds) := by
  rintro reference ⟨rest, inside, snapshot, member, rfl⟩
  rcases mem_append.mp inside with before | new
  · exact .inl ⟨rest, before, snapshot, member, rfl⟩
  · obtain rfl := mem_singleton.mp new
    obtain ⟨place, used, rfl⟩ := mem_snapshots member
    exact .inr ⟨place, by rw [directory, if_pos used]⟩

theorem next_pending {snapshot : RssFeed} (next : state.next cycle = some snapshot) :
    snapshot.entry ∈ pending state.cycles := by
  obtain ⟨rest, inside, head⟩ := Option.bind_eq_some_iff.mp next
  exact ⟨rest, mem_of_getElem? inside, snapshot, mem_of_head? head, rfl⟩

theorem Referable.give (referable : Referable state) {feed : RssFeed} (used : feed.inUse)
    {others : Fin maxFeeds → Prop} (all : ∀ other, other ≠ place → others other)
    (free : TagFree state feed.tag feed.url others) :
    Sound (directory (update state.host.feeds place feed)) (pending state.cycles) := by
  rw [directory_update, if_pos used]
  apply Sound.enter referable
  · intro other away origin found
    rw [directory] at found
    split_ifs at found with inUse
    have differs := free.1 other (all other away) inUse
    have same : (state.host.feeds other).tag.text.map toLower = feed.tag.text.map toLower :=
      congrArg Prod.fst (Option.some.inj found)
    rw [sameIgnoringCase, decide_eq_false_iff_not] at differs
    exact differs same
  · rintro origin ⟨cycle, inside, snapshot, member, same⟩
    have named : feed.tag.text.map toLower = snapshot.tag.text.map toLower := congrArg Prod.fst same
    have address : origin = snapshot.url := congrArg Prod.snd same
    have agrees := free.2 cycle inside snapshot member (by rw [sameIgnoringCase, named, decide_eq_true rfl])
    rw [address, agrees]

theorem writeBack_identity (host : RssHost) (snapshot : RssFeed) (download : Download) (now : Int)
    (other : Fin maxFeeds) : SameIdentity ((writeBack host snapshot download now).feeds other) (host.feeds other) := by
  rw [writeBack]
  cases findRssFeed host.feeds snapshot.tag.text with
  | none => exact ⟨rfl, rfl, rfl⟩
  | some place =>
    by_cases same : other = place
    · subst same
      have kept := refreshed_identity (host.feeds other) snapshot download now
      simpa only [RssHost.put, update_self] using kept
    · simpa only [RssHost.put, update_of_ne same] using ⟨rfl, rfl, rfl⟩

theorem writeBack_directory (host : RssHost) (snapshot : RssFeed) (download : Download) (now : Int) :
    directory (writeBack host snapshot download now).feeds = directory host.feeds :=
  directory_congr (writeBack_identity host snapshot download now)

theorem rollover_directory (host : RssHost) (windowId : UInt8) :
    directory (handleWindowRollover host windowId).1.feeds = directory host.feeds := by
  apply directory_congr
  intro place
  rw [handleWindowRollover]
  split_ifs with same
  · exact ⟨rfl, rfl, rfl⟩
  · exact rollOver_identity _ _

/-- A step that gives only free tags keeps every pending snapshot under the tag of its address. -/
theorem rssStep_referable (state : RssState) (event : RssEvent) (referable : Referable state)
    (kept : TagsKept state event) : Referable (rssStep state event) := by
  cases event with
  | start now =>
    have rolled : Sound (directory (handleWindowRollover state.host (currentWindow now)).1.feeds)
        (pending state.cycles) := by
      rw [rollover_directory]
      exact referable
    exact rolled.refer.forget (pending_snapshots _ _)
  | fetched cycle =>
    rw [rssStep]
    cases state.next cycle with
    | none => exact referable
    | some =>
      rw [Referable, writeBack_directory]
      exact referable.forget (pending_advance _ _)
  | failed => exact referable.forget (pending_advance _ _)
  | finish => exact referable.forget (pending_finish _ _)
  | add url tag =>
    rw [rssStep, addFeed]
    cases error : addError state.host url tag with
    | some => exact referable
    | none =>
      have free := kept error
      cases (finRange maxFeeds).find? fun place => !(state.host.feeds place).inUse with
      | none => exact referable
      | some => exact referable.give rfl (fun _ _ => trivial) free
  | remove tag =>
    rw [rssStep, removeFeed]
    split_ifs with empty invalid
    · exact referable
    · exact referable
    · cases findRssFeed state.host.feeds tag with
      | none => exact referable
      | some place =>
        have erased := Sound.erase referable place
        change Sound (directory (update state.host.feeds place .cleared)) (pending state.cycles)
        rwa [directory_update]
  | rename oldTag newTag =>
    rw [rssStep, renameFeed]
    cases error : renameError state.host oldTag newTag with
    | some => exact referable
    | none =>
      cases found : findRssFeed state.host.feeds oldTag with
      | none => exact referable
      | some place =>
        have free := kept error place found
        exact referable.give (findRssFeed_some found).1 (fun _ => id) free

theorem Leaves.same (feed : RssFeed) : Leaves feed feed := .inl ⟨rfl, rfl, .inl rfl⟩

theorem put_leaves {host : RssHost} {feed : RssFeed} (leaves : Leaves (host.feeds place) feed)
    (other : Fin maxFeeds) : Leaves (host.feeds other) ((host.put place feed).feeds other) := by
  change Leaves (host.feeds other) (update host.feeds place feed other)
  by_cases same : other = place
  · subst same
    rwa [update_self]
  · rw [update_of_ne same]
    exact .same _

theorem rollOver_leaves (feed : RssFeed) (windowId : UInt8) : Leaves feed (feed.rollOver windowId) := by
  rw [RssFeed.rollOver]
  split_ifs with unused stale
  · exact .inl ⟨rfl, rfl, .inr rfl⟩
  · exact .inl ⟨rfl, rfl, .inr rfl⟩
  · exact .inl ⟨rfl, rfl, .inl rfl⟩

theorem Referable.resolves (referable : Referable state) {snapshot : RssFeed}
    (next : state.next cycle = some snapshot) (found : findRssFeed state.host.feeds snapshot.tag.text = some place) :
    (state.host.feeds place).url = snapshot.url := by
  obtain ⟨used, named⟩ := findRssFeed_some found
  have entry : directory state.host.feeds place =
      some (snapshot.tag.text.map toLower, (state.host.feeds place).url) := by
    rw [directory, if_pos used, RssFeed.entry, named]
  exact Sound.resolves referable place _ snapshot.url _ (next_pending next) entry

/-- As long as the pending snapshots are under the tags of their addresses, a step attributes what it writes. -/
theorem rssStep_attributed (state : RssState) (event : RssEvent) (referable : Referable state) :
    Attributed state event := by
  intro place
  cases event with
  | start =>
    left
    rw [rssStep]
    rw [handleWindowRollover]
    split_ifs with same
    · exact .same _
    · exact rollOver_leaves _ _
  | fetched cycle download now =>
    cases next : state.next cycle with
    | none =>
      left
      rw [rssStep, next]
      exact .same _
    | some snapshot =>
      have stepped : (rssStep state (.fetched cycle download now)).host =
          writeBack state.host snapshot download now := by
        rw [rssStep, next]
      rw [stepped, writeBack]
      cases found : findRssFeed state.host.feeds snapshot.tag.text with
      | none => exact .inl (.same _)
      | some target =>
        by_cases same : place = target
        · subst same
          have address := referable.resolves next found
          have kept := (refreshed_identity (state.host.feeds place) snapshot download now).2.2
          refine .inr ⟨cycle, download, now, snapshot, rfl, next, address, ?_⟩
          simpa only [RssHost.put, update_self] using kept.trans address
        · left
          simpa only [RssHost.put, update_of_ne same] using Leaves.same _
  | failed => exact .inl (.same _)
  | finish => exact .inl (.same _)
  | add url tag =>
    left
    rw [rssStep, addFeed]
    cases addError state.host url tag with
    | some => exact .same _
    | none =>
      cases (finRange maxFeeds).find? fun place => !(state.host.feeds place).inUse with
      | none => exact .same _
      | some => exact put_leaves (.inr ⟨rfl, rfl⟩) place
  | remove tag =>
    left
    rw [rssStep, removeFeed]
    split_ifs with empty invalid
    · exact .same _
    · exact .same _
    · cases findRssFeed state.host.feeds tag with
      | none => exact .same _
      | some => exact put_leaves (.inr ⟨rfl, rfl⟩) place
  | rename oldTag newTag =>
    left
    rw [rssStep, renameFeed]
    cases renameError state.host oldTag newTag with
    | some => exact .same _
    | none =>
      cases findRssFeed state.host.feeds oldTag with
      | none => exact .same _
      | some =>
        apply put_leaves
        exact .inl ⟨rfl, rfl, .inl rfl⟩

end Steps

def TagsApart (feeds : FeedTable) : Prop :=
  ∀ first second, (feeds first).inUse → (feeds second).inUse →
    sameIgnoringCase (feeds first).tag.text (feeds second).tag.text → first = second

instance (feeds : FeedTable) : Decidable (TagsApart feeds) := inferInstanceAs (Decidable (∀ _ _, _ → _ → _ → _))

theorem initial_referable {host : RssHost} (apart : TagsApart host.feeds) : Referable ⟨host, []⟩ := by
  constructor
  case apart =>
    intro first second name origin origin' found found'
    simp only [directory] at found found'
    split_ifs at found found' with used used'
    have named := (Prod.mk.inj (Option.some.inj found)).1
    have named' := (Prod.mk.inj (Option.some.inj found')).1
    apply apart first second used used'
    rw [sameIgnoringCase, named, named', decide_eq_true rfl]
  case resolves =>
    rintro place name origin origin' ⟨_, inside, _⟩
    exact absurd inside not_mem_nil

/-- In every run whose additions and renamings give free tags only, what is downloaded from an address is written into
feeds of this address only. -/
theorem refresh_attributed (host : RssHost) (apart : TagsApart host.feeds) (events : List RssEvent)
    (kept : Along rssStep TagsKept ⟨host, []⟩ events) : Along rssStep Attributed ⟨host, []⟩ events :=
  along_along Referable rssStep_referable (fun state event referable _ => rssStep_attributed state event referable)
    (initial_referable apart) kept

def someItem (id title : Bytes) : RssItem := ⟨.print id, .print title, .zero, .zero⟩

def oneItem (item : RssItem) : Download := ⟨[item], Nat.le_of_ble_eq_true rfl⟩

/-- Two feeds are registered and refreshed, and one of them takes another tag meanwhile. -/
theorem refresh_attributed_news :
    Along rssStep Attributed .initial
      [.add (str "http://a/") (str "news"), .add (str "http://b/") (str "blog"), .start 0,
        .rename (str "blog") (str "notes"), .fetched 0 (oneItem (someItem (str "1") (str "One"))) 1, .failed 0] := by
  have kept : Along rssStep TagsKept .initial
      [.add (str "http://a/") (str "news"), .add (str "http://b/") (str "blog"), .start 0,
        .rename (str "blog") (str "notes"), .fetched 0 (oneItem (someItem (str "1") (str "One"))) 1, .failed 0] := by
    refine ⟨fun _ => ⟨by decide +kernel, by decide +kernel⟩, fun _ => ⟨by decide +kernel, by decide +kernel⟩, trivial,
      ?_, trivial, trivial, trivial⟩
    intro _ place found
    have first : place = 1 := by
      have other : findRssFeed (rssStep (rssStep (rssStep .initial (.add (str "http://a/") (str "news")))
          (.add (str "http://b/") (str "blog"))) (.start 0)).host.feeds (str "blog") = some 1 := by decide +kernel
      rw [other] at found
      exact (Option.some.inj found).symm
    subst first
    exact ⟨by decide +kernel, by decide +kernel⟩
  have apart : TagsApart RssState.initial.host.feeds := by decide +kernel
  exact refresh_attributed RssState.initial.host apart _ kept

/-- The feed is removed and its tag is given to another address while it is refreshed. -/
def swapped : RssState :=
  run rssStep .initial
    [.add (str "http://a/") (str "news"), .start 0, .remove (str "news"), .add (str "http://b/") (str "news")]

/-- The feed of the new address gets the items of the old address. -/
theorem refresh_misattributed : ¬ ∀ events, Along rssStep Attributed .initial events := by
  intro all
  have last : Attributed swapped (.fetched 0 (oneItem (someItem (str "1") (str "One"))) 1) :=
    (all [.add (str "http://a/") (str "news"), .start 0, .remove (str "news"), .add (str "http://b/") (str "news"),
      .fetched 0 (oneItem (someItem (str "1") (str "One"))) 1]).2.2.2.2.1
  have fetched : (swapped.next 0).map (·.url.text) = some (str "http://a/") := by decide +kernel
  have item : ((rssStep swapped (.fetched 0 (oneItem (someItem (str "1") (str "One"))) 1)).host.feeds 0).storedItems ≠
      (swapped.host.feeds 0).storedItems := by decide +kernel
  have some' : ((rssStep swapped (.fetched 0 (oneItem (someItem (str "1") (str "One"))) 1)).host.feeds 0).storedItems ≠
      [] := by decide +kernel
  rcases last 0 with (⟨-, -, same | same⟩ | ⟨-, same⟩) | ⟨cycle, download, now, snapshot, event, next, address, -⟩
  · exact item same
  · exact some' same
  · exact some' same
  · obtain rfl : 0 = cycle := (RssEvent.fetched.inj event).1
    rw [next, Option.map_some, ← address] at fetched
    exact absurd fetched (by decide +kernel)

end SshChatter.Rss
