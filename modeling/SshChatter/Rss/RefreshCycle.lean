import SshChatter.Lib.EventRun
import SshChatter.UserData.Record

namespace SshChatter.Rss
open CString EventRun

abbrev maxFeeds : Nat := 32

abbrev maxItems : Nat := 32

/-- This is `rss_session_item_t`. -/
structure RssItem where
  id : CText 1023
  title : CText 511
  link : CText 1023
  summary : CText 2047
  deriving DecidableEq

/-- This is `rss_feed_t`. The count of the stored items is the length of the list. -/
structure RssFeed where
  inUse : Bool
  tag : CText 31
  url : CText 1023
  lastItemKey : CText 1023
  lastTitle : CText 511
  lastLink : CText 1023
  lastChecked : Int
  windowId : UInt8
  storedItems : List RssItem
  fits : storedItems.length ≤ maxItems
  deriving DecidableEq

abbrev FeedTable := Fin maxFeeds → RssFeed

structure RssHost where
  feeds : FeedTable
  feedCount : Nat
  currentWindowId : UInt8

/-- This is `host_clear_rss_feed`. -/
def RssFeed.cleared : RssFeed where
  inUse := false
  tag := .zero
  url := .zero
  lastItemKey := .zero
  lastTitle := .zero
  lastLink := .zero
  lastChecked := 0
  windowId := 0
  storedItems := []
  fits := Nat.zero_le _

/-- This is `strcasecmp` in the C locale. -/
def sameIgnoringCase (first second : Bytes) : Bool := first.map toLower = second.map toLower

def tagIsValid (tag : Bytes) : Bool :=
  tag ≠ [] ∧ ∀ c ∈ tag, UserData.isAlnum c ∨ c = byte '-' ∨ c = byte '_' ∨ c = byte '.'

def findRssFeed (feeds : FeedTable) (tag : Bytes) : Option (Fin maxFeeds) :=
  if tag = [] then none
  else (List.finRange maxFeeds).find? fun place => (feeds place).inUse && sameIgnoringCase (feeds place).tag.text tag

def recount (host : RssHost) : RssHost :=
  { host with feedCount := (List.finRange maxFeeds).countP fun place => (host.feeds place).inUse }

def RssHost.put (host : RssHost) (place : Fin maxFeeds) (feed : RssFeed) : RssHost :=
  { host with feeds := Function.update host.feeds place feed }

/-- This is `host_rss_reset_feed_window_locked`. -/
def RssFeed.resetWindow (feed : RssFeed) (windowId : UInt8) : RssFeed :=
  { feed with windowId := windowId, storedItems := [], fits := Nat.zero_le _ }

/-- The body of the loop of `host_rss_handle_window_rollover_locked`. -/
def RssFeed.rollOver (feed : RssFeed) (windowId : UInt8) : RssFeed :=
  if feed.inUse = false then feed.resetWindow windowId
  else if feed.storedItems ≠ [] ∨ feed.windowId ≠ windowId then feed.resetWindow windowId
  else { feed with windowId := windowId }

def handleWindowRollover (host : RssHost) (windowId : UInt8) : RssHost × Bool :=
  if host.currentWindowId = windowId then (host, false)
  else
    ({ host with feeds := fun place => (host.feeds place).rollOver windowId, currentWindowId := windowId },
      decide (∃ place, (host.feeds place).inUse = true ∧ (host.feeds place).storedItems ≠ []))

def RssItem.key (item : RssItem) : Bytes :=
  if item.id.text ≠ [] then item.id.text else if item.link.text ≠ [] then item.link.text else item.title.text

theorem pushed_fits (item : RssItem) (items : List RssItem) :
    (item :: items.take (maxItems - 1)).length ≤ maxItems := by
  have short := List.length_take_le (maxItems - 1) items
  exact Nat.succ_le_succ short

def storeItem (feed : RssFeed) (item : RssItem) : RssFeed × Bool :=
  if item.key ≠ [] ∧ ∃ existing ∈ feed.storedItems, existing.key = item.key then (feed, false)
  else
    ({ feed with storedItems := item :: feed.storedItems.take (maxItems - 1), fits := pushed_fits item _ }, true)

/-- The checks of `host_rss_add_feed`, with the text of the first that fails. -/
def addError (host : RssHost) (url tag : Bytes) : Option Bytes :=
  if url = [] ∨ tag = [] then some (str "Invalid RSS feed details.")
  else if tagIsValid tag = false then some (str "Tag may only contain letters, numbers, '-', '_' or '.'.")
  else if maxFeeds ≤ host.feedCount then some (str "Maximum RSS feed capacity reached.")
  else if (findRssFeed host.feeds tag).isSome then
    some (str "Tag '" ++ tag ++ str "' is already assigned to another feed.")
  else
    match (List.finRange maxFeeds).find? fun place =>
      (host.feeds place).inUse && sameIgnoringCase (host.feeds place).url.text url with
    | some place =>
      some (str "Feed '" ++ url ++ str "' is already registered as '" ++ (host.feeds place).tag.text ++ str "'.")
    | none => none

def RssFeed.registered (url tag : Bytes) : RssFeed :=
  { RssFeed.cleared with inUse := true, tag := .print tag, url := .print url }

def addFeed (host : RssHost) (url tag : Bytes) : RssHost × Option Bytes :=
  match addError host url tag with
  | some error => (host, some error)
  | none =>
    match (List.finRange maxFeeds).find? fun place => !(host.feeds place).inUse with
    | none => (host, some (str "Unable to allocate RSS feed slot."))
    | some place => (recount (host.put place (.registered url tag)), none)

/-- The checks of `host_rss_rename_feed`, with the text of the first that fails. -/
def renameError (host : RssHost) (oldTag newTag : Bytes) : Option Bytes :=
  if oldTag = [] ∨ newTag = [] then some (str "Invalid RSS feed tag.")
  else if tagIsValid oldTag = false ∨ tagIsValid newTag = false then
    some (str "Tag may only contain letters, numbers, '-', '_' or '.'.")
  else if findRssFeed host.feeds oldTag = none then some (str "No RSS feed found for tag '" ++ oldTag ++ str "'.")
  else if sameIgnoringCase oldTag newTag = false ∧ (findRssFeed host.feeds newTag).isSome then
    some (str "Tag '" ++ newTag ++ str "' is already assigned to another feed.")
  else none

def renameFeed (host : RssHost) (oldTag newTag : Bytes) : RssHost × Option Bytes :=
  match renameError host oldTag newTag with
  | some error => (host, some error)
  | none =>
    match findRssFeed host.feeds oldTag with
    | none => (host, none)
    | some place => (host.put place { host.feeds place with tag := .print newTag }, none)

def removeFeed (host : RssHost) (tag : Bytes) : RssHost × Option Bytes :=
  if tag = [] then (host, some (str "Invalid RSS feed tag."))
  else if tagIsValid tag = false then (host, some (str "Tag may only contain letters, numbers, '-', '_' or '.'."))
  else
    match findRssFeed host.feeds tag with
    | none => (host, some (str "No RSS feed found for tag '" ++ tag ++ str "'."))
    | some place => (recount (host.put place .cleared), none)

/-- This is `host_rss_current_window_id` at a time of the clock. -/
def currentWindow (now : Int) : UInt8 :=
  if now = -1 then 0
  else
    match ((now - 3 * 60 * 60) / 86400 + 4) % 7 with
    | 1 | 2 => 0
    | 3 | 4 => 1
    | _ => 2

structure Download where
  items : List RssItem
  fits : items.length ≤ maxItems

/-- The host and, for each cycle that runs, the snapshots that it still has to refresh. -/
structure RssState where
  host : RssHost
  cycles : List (List RssFeed)

/-- No feed is registered and no cycle runs. -/
def RssState.initial : RssState := ⟨⟨fun _ => .cleared, 0, 0⟩, []⟩

/-- The snapshots of `host_rss_refresh_cycle`. -/
def snapshots (feeds : FeedTable) : List RssFeed :=
  ((List.finRange maxFeeds).filter fun place => (feeds place).inUse).map feeds

def newItemCount (snapshot : RssFeed) (items : List RssItem) : Nat :=
  if snapshot.lastItemKey.text = [] then items.length
  else items.findIdx fun item => item.id.text = snapshot.lastItemKey.text

def storeItems (feed : RssFeed) (items : List RssItem) : RssFeed :=
  items.foldr (fun item feed => (storeItem feed item).1) feed

def markLatest (feed : RssFeed) (latest : RssItem) : RssFeed :=
  { feed with
    lastItemKey := if latest.key ≠ [] ∧ feed.lastItemKey.text ≠ latest.key then .print latest.key else feed.lastItemKey
    lastTitle := latest.title
    lastLink := latest.link }

def refreshed (feed snapshot : RssFeed) (download : Download) (now : Int) : RssFeed :=
  let stored := storeItems { feed with lastChecked := now }
    (download.items.take (newItemCount snapshot download.items))
  match download.items with
  | [] => stored
  | latest :: _ => markLatest stored latest

/-- The part of `host_rss_refresh_cycle` after a download, under the lock. -/
def writeBack (host : RssHost) (snapshot : RssFeed) (download : Download) (now : Int) : RssHost :=
  match findRssFeed host.feeds snapshot.tag.text with
  | none => host
  | some place => host.put place (refreshed (host.feeds place) snapshot download now)

/-- The lock is held for each of these. A cycle that cannot take the refresh lock runs all the same, so that several
cycles may run at a time. -/
inductive RssEvent where
  | start (now : Int)
  | fetched (cycle : Nat) (download : Download) (now : Int)
  | failed (cycle : Nat)
  | finish (cycle : Nat)
  | add (url tag : Bytes)
  | remove (tag : Bytes)
  | rename (oldTag newTag : Bytes)

def RssState.next (state : RssState) (cycle : Nat) : Option RssFeed := state.cycles[cycle]?.bind List.head?

/-- A cycle is done with its first snapshot. -/
def advance (cycles : List (List RssFeed)) (cycle : Nat) : List (List RssFeed) := cycles.modify cycle List.tail

/-- One step of a cycle or one command. A cycle that is told to stop, or that is done, goes on with no snapshot. -/
def rssStep (state : RssState) : RssEvent → RssState
  | .start now =>
    let host := (handleWindowRollover state.host (currentWindow now)).1
    ⟨host, state.cycles ++ [snapshots host.feeds]⟩
  | .fetched cycle download now =>
    match state.next cycle with
    | none => state
    | some snapshot => ⟨writeBack state.host snapshot download now, advance state.cycles cycle⟩
  | .failed cycle => { state with cycles := advance state.cycles cycle }
  | .finish cycle => { state with cycles := state.cycles.set cycle [] }
  | .add url tag => { state with host := (addFeed state.host url tag).1 }
  | .remove tag => { state with host := (removeFeed state.host tag).1 }
  | .rename oldTag newTag => { state with host := (renameFeed state.host oldTag newTag).1 }

end SshChatter.Rss
