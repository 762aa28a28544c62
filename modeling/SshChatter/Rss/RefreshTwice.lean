import SshChatter.Lib.TokenText
import SshChatter.Rss.Attribution

namespace SshChatter.Rss
open CString EventRun

/-- This is `strcasestr`. It returns the text from the first occurrence on. -/
def strcasestr (text needle : Bytes) : Option Bytes :=
  (strstr (needle.map toLower) (text.map toLower)).map fun found => text.drop found.1.length

def offset (text found : Bytes) : Nat := text.length - found.length

/-- This is `rss_strip_html`. The flag tells whether the place is in a tag. -/
def stripHtml : Bool → Bytes → Bytes
  | _, [] => []
  | inTag, c :: text =>
    if c = byte '<' then stripHtml true text
    else if inTag then stripHtml (c ≠ byte '>') text
    else c :: stripHtml false text

def entities : List (Bytes × Bytes) :=
  [(str "&amp;", str "&"), (str "&lt;", str "<"), (str "&gt;", str ">"), (str "&quot;", str "\""),
    (str "&#39;", str "'")]

def decodeEntities (text : Bytes) : Bytes := TokenText.replace entities text

def extractTag (block tag : Bytes) (room : Nat) : Option Bytes :=
  (strcasestr block (str "<" ++ tag)).bind fun start =>
    (strchr (byte '>') start).bind fun opened =>
      (strcasestr opened.2 (str "</" ++ tag ++ str ">")).map fun found =>
        (opened.2.take (offset opened.2 found)).take room

/-- The address that a link of an atom entry refers to. The text starts at the link, and the tag ends in front of the
rest. -/
def linkTarget (link rest : Bytes) : Option Bytes :=
  (strcasestr link (str "href=")).bind fun href =>
    if href.length ≤ rest.length then none
    else
      match href.drop 5 with
      | [] => none
      | quote :: value =>
        if quote = byte '"' ∨ quote = byte '\'' then
          (strchr quote value).bind fun found => if found.2.length < rest.length then none else some found.1
        else none

/-- This is the loop of `host_rss_extract_atom_link` for a number of links. -/
def searchAtomLink (room : Nat) : Nat → Bytes → Option Bytes
  | 0, _ => none
  | links + 1, cursor =>
    (strcasestr cursor (str "<link")).bind fun link =>
      (strchr (byte '>') link).bind fun closed =>
        match linkTarget link closed.2 with
        | none => searchAtomLink room links closed.2
        | some target => if trimSpace (target.take room) = [] then none else some (trimSpace (target.take room))

def extractAtomLink (block : Bytes) (room : Nat) : Option Bytes := searchAtomLink room block.length block

def fieldText (found : Option Bytes) : Bytes := decodeEntities (trimSpace (found.getD []))

def parseItem (block : Bytes) (isAtom : Bool) : RssItem :=
  let title := extractTag block (str "title") 511
  let link := (extractTag block (str "link") 1023).or (extractAtomLink block 1023)
  let guid := extractTag block (if isAtom then str "id" else str "guid") 1023
  let summary := ((extractTag block (str "description") 2047).or (extractTag block (str "summary") 2047)).or
    (extractTag block (str "content") 2047)
  { id := .print (fieldText (guid.or (link.or title)))
    title := .print (fieldText title)
    link := .print (fieldText link)
    summary := .print (decodeEntities (stripHtml false (trimSpace (summary.getD [])))) }

def nextBlock (cursor : Bytes) : Option (Bytes × Bool × Bytes) :=
  match strcasestr cursor (str "<item"), strcasestr cursor (str "<entry") with
  | none, none => none
  | some item, none => some (item, false, str "</item>")
  | none, some entry => some (entry, true, str "</entry>")
  | some item, some entry =>
    if entry.length < item.length then some (item, false, str "</item>") else some (entry, true, str "</entry>")

/-- The loop of `host_rss_parse_items` while there is room for some items. -/
def parseBlocks : Nat → Bytes → List RssItem
  | 0, _ => []
  | room + 1, cursor =>
    match nextBlock cursor with
    | none => []
    | some (start, isAtom, closeTag) =>
      match strcasestr start closeTag with
      | none => []
      | some found =>
        let length := offset start found + closeTag.length
        parseItem (start.take length) isAtom :: parseBlocks room (start.drop length)

def parseItems (payload : Bytes) : List RssItem := parseBlocks maxItems (payload.takeWhile (· ≠ 0))

theorem parseBlocks_length (room : Nat) (cursor : Bytes) : (parseBlocks room cursor).length ≤ room := by
  induction room generalizing cursor with
  | zero => exact le_refl 0
  | succ room ih =>
    rw [parseBlocks]
    split
    · exact Nat.zero_le _
    · split
      · exact Nat.zero_le _
      · exact Nat.succ_le_succ (ih _)

def Download.parse (payload : Bytes) : Download := ⟨parseItems payload, parseBlocks_length _ _⟩

/-- A feed whose first item has an empty guid. -/
example : (parseItems (str "<item><guid></guid><title>T</title><link>http://x/</link></item>")).map (fun item =>
    (item.id.text, item.title.text, item.link.text)) = [([], str "T", str "http://x/")] := by decide +kernel

/-- The text "속보" in UTF-8. -/
def koreanBreaking : Bytes := [0xEC, 0x86, 0x8D, 0xEB, 0xB3, 0xB4]

/-- The text "速報" in UTF-8. -/
def japaneseBreaking : Bytes := [0xE9, 0x80, 0x9F, 0xE5, 0xA0, 0xB1]

/-- The test of a field in `host_rss_should_broadcast_breaking`. -/
def isBreaking (field : Bytes) : Bool :=
  field ≠ [] ∧ ((field.take 9).map toLower = str "[breaking" ∨ (strcasestr field (str "breaking news")).isSome ∨
    (strcasestr field (str "breaking:")).isSome ∨ (strcasestr field (str "breaking ")).isSome ∨
    (strcasestr field (str "urgent")).isSome ∨ (strcasestr field (str "alert")).isSome ∨
    (strstr koreanBreaking field).isSome ∨ (strstr japaneseBreaking field).isSome)

def shouldBroadcastBreaking (item : RssItem) : Bool :=
  [item.title.text, item.summary.text, item.link.text].any isBreaking

def oneLine (text : Bytes) : Bytes :=
  trimSpace ((trimSpace text).map fun c => if c = byte '\r' ∨ c = byte '\n' ∨ c = byte '\t' then byte ' ' else c)

def headline (item : RssItem) : Bytes :=
  let text := if item.title.text ≠ [] then item.title.text else if item.summary.text ≠ [] then item.summary.text
    else if item.link.text ≠ [] then item.link.text else str "New update"
  if oneLine (text.take 511) = [] then str "New update" else oneLine (text.take 511)

/-- The line that is sent to the sessions that want breaking news. -/
def notice (tag : Bytes) (item : RssItem) : Bytes :=
  let front := str "* [BREAKING NEWS] [" ++ tag ++ str "] " ++ headline item
  (if item.link.text = [] then front else front ++ str " - " ++ oneLine item.link.text).take 4095

/-- The lines about the new items, the last item first. -/
def notices (tag : Bytes) (items : List RssItem) : List Bytes :=
  (items.reverse.filter shouldBroadcastBreaking).map (notice tag)

/-- What a refresh of one feed finds and does: the number of new items, the items that are stored and the lines that are
sent. -/
structure FeedReport where
  newItemCount : Nat
  stored : List RssItem
  sent : List Bytes
  deriving DecidableEq

def storing (feed : RssFeed) : List RssItem → List RssItem
  | [] => []
  | item :: rest => storing feed rest ++ if (storeItem (storeItems feed rest) item).2 then [item] else []

def report (host : RssHost) (snapshot : RssFeed) (items : List RssItem) (now : Int) : FeedReport :=
  let new := items.take (newItemCount snapshot items)
  match findRssFeed host.feeds snapshot.tag.text with
  | none => ⟨newItemCount snapshot items, [], []⟩
  | some place =>
    ⟨newItemCount snapshot items, storing { host.feeds place with lastChecked := now } new,
      notices snapshot.tag.text new⟩

/-- What is downloaded from an address, if anything. -/
abbrev Network : Type := CText 1023 → Option Bytes

structure CycleClock where
  start : Int
  checked : Fin maxFeeds → Int

/-- One round of the loop of `host_rss_refresh_cycle`. The snapshots were made before the loop. -/
def refreshFeed (feeds : FeedTable) (network : Network) (clock : CycleClock)
    (state : RssHost × List (Fin maxFeeds × FeedReport)) (place : Fin maxFeeds) :
      RssHost × List (Fin maxFeeds × FeedReport) :=
  match network (feeds place).url with
  | none => state
  | some payload =>
    (writeBack state.1 (feeds place) (.parse payload) (clock.checked place),
      state.2 ++ [(place, report state.1 (feeds place) (parseItems payload) (clock.checked place))])

def usedFeeds (feeds : FeedTable) : List (Fin maxFeeds) := (List.finRange maxFeeds).filter fun place =>
    (feeds place).inUse

/-- This is `host_rss_refresh_cycle` while no stop is requested, with the reports on the feeds that were downloaded. -/
def refreshCycle (host : RssHost) (network : Network) (clock : CycleClock) :
    RssHost × List (Fin maxFeeds × FeedReport) :=
  let rolled := (handleWindowRollover host (currentWindow clock.start)).1
  (usedFeeds rolled.feeds).foldl (refreshFeed rolled.feeds network clock) (rolled, [])

/-- Nothing is new, nothing is stored and nothing is sent. -/
def Quiet (report : FeedReport) : Prop := report = ⟨0, [], []⟩

def KeysApart (feed : RssFeed) : Prop :=
  feed.storedItems.Pairwise fun first second => first.key ≠ [] → first.key ≠ second.key

def leftKey (mark : Bytes) : List RssItem → Bytes
  | [] => mark
  | latest :: _ => if latest.key = [] then mark else latest.key

def referring (feeds : FeedTable) (place : Fin maxFeeds) : List (Fin maxFeeds) :=
  (usedFeeds feeds).filter fun other => findRssFeed feeds (feeds other).tag.text = some place

/-- The key that a cycle leaves at a feed: that of the last download under a tag that finds the feed. -/
def markAfter (feeds : FeedTable) (network : Network) (place : Fin maxFeeds) : Bytes :=
  (referring feeds place).foldl (fun mark other => match network (feeds other).url with
    | none => mark
    | some payload => leftKey mark (parseItems payload)) (feeds place).lastItemKey.text

def Settled (feeds : FeedTable) (network : Network) (place : Fin maxFeeds) : Prop :=
  ∀ payload latest rest, network (feeds place).url = some payload → parseItems payload = latest :: rest →
    latest.id.text ≠ [] ∧ latest.id.text = markAfter feeds network place

section Marks

variable {feeds feeds' : FeedTable} {host : RssHost} {snapshot feed : RssFeed} {place : Fin maxFeeds}
  {network : Network} {clock : CycleClock}

theorem item_key (item : RssItem) : ∃ text : CText 1023, text.text = item.key := by
  rw [RssItem.key]
  split_ifs with id link
  · exact ⟨item.id, rfl⟩
  · exact ⟨item.link, rfl⟩
  · exact ⟨⟨item.title.text, item.title.fits.trans (by decide), item.title.clean⟩, rfl⟩

theorem print_key (item : RssItem) : (CText.print item.key : CText 1023).text = item.key := by
  obtain ⟨text, same⟩ := item_key item
  rw [← same, CText.print_text]

theorem storeItem_mark (feed : RssFeed) (item : RssItem) : (storeItem feed item).1.lastItemKey = feed.lastItemKey := by
  rw [storeItem]
  split_ifs <;> rfl

theorem storeItems_mark (feed : RssFeed) (items : List RssItem) :
    (storeItems feed items).lastItemKey = feed.lastItemKey := by
  induction items with
  | nil => rfl
  | cons item rest ih => exact (storeItem_mark (storeItems feed rest) item).trans ih

theorem refreshed_mark (feed snapshot : RssFeed) (download : Download) (now : Int) :
    (refreshed feed snapshot download now).lastItemKey.text = leftKey feed.lastItemKey.text download.items := by
  have stored (items : List RssItem) := storeItems_mark { feed with lastChecked := now } items
  rw [refreshed]
  cases download.items with
  | nil =>
    rw [stored]
    rfl
  | cons latest =>
    dsimp only [markLatest, leftKey]
    rw [stored]
    by_cases empty : latest.key = []
    · rw [if_pos empty, if_neg fun both => both.1 empty]
    · rw [if_neg empty]
      by_cases same : feed.lastItemKey.text = latest.key
      · rw [if_neg fun both => both.2 same, same]
      · rw [if_pos ⟨empty, same⟩, print_key]

theorem writeBack_mark (host : RssHost) (snapshot : RssFeed) (download : Download) (now : Int) (other : Fin maxFeeds) :
    ((writeBack host snapshot download now).feeds other).lastItemKey.text =
      if findRssFeed host.feeds snapshot.tag.text = some other then leftKey (host.feeds other).lastItemKey.text
      download.items else (host.feeds other).lastItemKey.text := by
  rw [writeBack]
  cases found : findRssFeed host.feeds snapshot.tag.text with
  | none => rw [if_neg (by simp)]
  | some place =>
    change ((Function.update host.feeds place _) other).lastItemKey.text = _
    by_cases same : other = place
    · subst same
      rw [Function.update_self, refreshed_mark, if_pos rfl]
    · rw [Function.update_of_ne same, if_neg fun equal => same (Option.some_inj.mp equal).symm]

theorem rollOver_mark (feed : RssFeed) (windowId : UInt8) :
    (feed.rollOver windowId).lastItemKey = feed.lastItemKey := by
  rw [RssFeed.rollOver]
  split_ifs <;> rfl

theorem findRssFeed_congr (same : ∀ place, SameIdentity (feeds' place) (feeds place)) (tag : Bytes) :
    findRssFeed feeds' tag = findRssFeed feeds tag := by
  have each (place : Fin maxFeeds) : ((feeds' place).inUse && sameIgnoringCase (feeds' place).tag.text tag) =
      ((feeds place).inUse && sameIgnoringCase (feeds place).tag.text tag) := by
    rw [(same place).1, (same place).2.1]
  rw [findRssFeed, findRssFeed, funext each]

theorem usedFeeds_congr (same : ∀ place, SameIdentity (feeds' place) (feeds place)) :
    usedFeeds feeds' = usedFeeds feeds :=
  List.filter_congr fun place _ => (same place).1

theorem markAfter_congr (same : ∀ place, SameIdentity (feeds' place) (feeds place))
    (marks : (feeds' place).lastItemKey = (feeds place).lastItemKey) :
      markAfter feeds' network place = markAfter feeds network place := by
  have found (other : Fin maxFeeds) :
    findRssFeed feeds' (feeds' other).tag.text = findRssFeed feeds (feeds other).tag.text := by
    rw [findRssFeed_congr same, (same other).2.1]
  have address (other : Fin maxFeeds) : network (feeds' other).url = network (feeds other).url := by
    rw [(same other).2.2]
  simp only [markAfter, referring, usedFeeds_congr same, found, address, marks]

variable (places : List (Fin maxFeeds)) {entry : Fin maxFeeds × FeedReport}

/-- A cycle keeps the tags and the addresses. -/
theorem refreshFeed_identity (state : RssHost × List (Fin maxFeeds × FeedReport))
    (same : ∀ place, SameIdentity (state.1.feeds place) (feeds place)) (place : Fin maxFeeds) :
    SameIdentity ((places.foldl (refreshFeed feeds network clock) state).1.feeds place) (feeds place) := by
  induction places generalizing state with
  | nil => exact same place
  | cons first rest ih =>
    refine ih _ fun other => ?_
    rw [refreshFeed]
    split
    · exact same other
    · obtain ⟨used, tagged, addressed⟩ :=
        writeBack_identity state.1 (feeds first) (.parse _) (clock.checked first) other
      exact ⟨used.trans (same other).1, tagged.trans (same other).2.1, addressed.trans (same other).2.2⟩

/-- The rounds leave a feed the key of the last download under a tag that finds it. -/
theorem refreshFeed_mark (state : RssHost × List (Fin maxFeeds × FeedReport))
    (same : ∀ place, SameIdentity (state.1.feeds place) (feeds place)) (place : Fin maxFeeds) :
    ((places.foldl (refreshFeed feeds network clock) state).1.feeds place).lastItemKey.text =
      (places.filter fun other => findRssFeed feeds (feeds other).tag.text = some place).foldl
        (fun mark other => match network (feeds other).url with
          | none => mark
          | some payload => leftKey mark (parseItems payload)) (state.1.feeds place).lastItemKey.text := by
  induction places generalizing state with
  | nil => rfl
  | cons first rest ih =>
    have later := ih (refreshFeed feeds network clock state first) fun other =>
      refreshFeed_identity [first] state same other
    rw [List.foldl_cons, later, List.filter_cons]
    cases fetched : network (feeds first).url with
    | none =>
      have stays : refreshFeed feeds network clock state first = state := by rw [refreshFeed, fetched]
      rw [stays]
      split_ifs
      · rw [List.foldl_cons, fetched]
      · rfl
    | some payload =>
      have round : (refreshFeed feeds network clock state first).1 =
          writeBack state.1 (feeds first) (.parse payload) (clock.checked first) := by rw [refreshFeed, fetched]
      rw [round, writeBack_mark, findRssFeed_congr same]
      by_cases refers : findRssFeed feeds (feeds first).tag.text = some place
      · rw [if_pos refers, if_pos (decide_eq_true refers), List.foldl_cons, fetched]
        rfl
      · rw [if_neg refers, if_neg (by simpa using refers)]

theorem refreshFeed_reports (state : RssHost × List (Fin maxFeeds × FeedReport))
    (inside : entry ∈ (places.foldl (refreshFeed feeds network clock) state).2) :
    entry ∈ state.2 ∨ ∃ host payload, network (feeds entry.1).url = some payload ∧
      entry.2 = report host (feeds entry.1) (parseItems payload) (clock.checked entry.1) := by
  induction places generalizing state with
  | nil => exact Or.inl inside
  | cons first rest ih =>
    rcases ih _ inside with before | later
    · rw [refreshFeed] at before
      split at before
      · exact Or.inl before
      next payload fetched =>
        rcases List.mem_append.mp before with old | new
        · exact Or.inl old
        · rw [List.mem_singleton.mp new]
          exact Or.inr ⟨state.1, payload, fetched, rfl⟩
    · exact Or.inr later

theorem rollover_identity (host : RssHost) (windowId : UInt8) (place : Fin maxFeeds) :
    SameIdentity ((handleWindowRollover host windowId).1.feeds place) (host.feeds place) := by
  rw [handleWindowRollover]
  split_ifs
  · exact ⟨rfl, rfl, rfl⟩
  · exact rollOver_identity _ _

theorem rollover_mark (host : RssHost) (windowId : UInt8) (place : Fin maxFeeds) :
    ((handleWindowRollover host windowId).1.feeds place).lastItemKey = (host.feeds place).lastItemKey := by
  rw [handleWindowRollover]
  split_ifs
  · rfl
  · exact rollOver_mark _ _

theorem SameIdentity.refl (feed : RssFeed) : SameIdentity feed feed := ⟨rfl, rfl, rfl⟩

theorem SameIdentity.trans {last : RssFeed} (first : SameIdentity last feed) (second : SameIdentity feed snapshot) :
    SameIdentity last snapshot :=
  ⟨first.1.trans second.1, first.2.1.trans second.2.1, first.2.2.trans second.2.2⟩

theorem refreshCycle_identity (host : RssHost) (network : Network) (clock : CycleClock) (place : Fin maxFeeds) :
    SameIdentity ((refreshCycle host network clock).1.feeds place) (host.feeds place) := by
  have rolled := rollover_identity host (currentWindow clock.start) place
  rw [refreshCycle]
  generalize (handleWindowRollover host (currentWindow clock.start)).1 = next at rolled ⊢
  have same : ∀ other, SameIdentity ((next, ([] : List (Fin maxFeeds × FeedReport))).1.feeds other)
    (next.feeds other) :=
    fun other => .refl _
  exact (refreshFeed_identity _ _ same place).trans rolled

theorem refreshCycle_mark (host : RssHost) (network : Network) (clock : CycleClock) (place : Fin maxFeeds) :
    ((refreshCycle host network clock).1.feeds place).lastItemKey.text = markAfter host.feeds network place := by
  have rolled := rollover_identity host (currentWindow clock.start)
  have marks := rollover_mark host (currentWindow clock.start) place
  rw [refreshCycle]
  generalize (handleWindowRollover host (currentWindow clock.start)).1 = next at rolled marks ⊢
  have same : ∀ other, SameIdentity ((next, ([] : List (Fin maxFeeds × FeedReport))).1.feeds other)
    (next.feeds other) :=
    fun other => .refl _
  rw [refreshFeed_mark _ _ same place]
  exact markAfter_congr rolled marks

theorem refreshCycle_reports (host : RssHost) (network : Network) (clock : CycleClock)
    (inside : entry ∈ (refreshCycle host network clock).2) :
    ∃ next snapshot payload, network (host.feeds entry.1).url = some payload ∧
      snapshot.lastItemKey = (host.feeds entry.1).lastItemKey ∧
      entry.2 = report next snapshot (parseItems payload) (clock.checked entry.1) := by
  have rolled := rollover_identity host (currentWindow clock.start) entry.1
  have marks := rollover_mark host (currentWindow clock.start) entry.1
  rcases refreshFeed_reports _ _ inside with none_before | ⟨next, payload, fetched, same⟩
  · exact absurd none_before List.not_mem_nil
  · rw [rolled.2.2] at fetched
    exact ⟨next, _, payload, fetched, marks, same⟩

end Marks

section Quiet

variable {feeds : FeedTable} {place : Fin maxFeeds} {network : Network}

theorem newItemCount_eq_zero {snapshot : RssFeed} {latest : RssItem} {rest : List RssItem} :
    newItemCount snapshot (latest :: rest) = 0 ↔ latest.id.text ≠ [] ∧ latest.id.text = snapshot.lastItemKey.text := by
  rw [newItemCount]
  split_ifs with first
  · rw [first]
    simp
  · rw [List.findIdx_cons]
    by_cases same : latest.id.text = snapshot.lastItemKey.text
    · simpa [same] using first
    · simp [same]

theorem report_quiet (host : RssHost) (snapshot : RssFeed) (items : List RssItem) (now : Int) :
    Quiet (report host snapshot items now) ↔ newItemCount snapshot items = 0 := by
  constructor
  · intro quiet
    have count := congrArg FeedReport.newItemCount quiet
    rw [report] at count
    split at count
    · exact count
    · exact count
  · intro old
    rw [report, old]
    split <;> rfl

theorem second_quiet (host : RssHost) (network : Network) (first second : CycleClock)
    {entry : Fin maxFeeds × FeedReport}
    (inside : entry ∈ (refreshCycle (refreshCycle host network first).1 network second).2) :
    Quiet entry.2 ↔ Settled host.feeds network entry.1 := by
  obtain ⟨next, snapshot, payload, fetched, mark, same⟩ := refreshCycle_reports _ _ _ inside
  have left := refreshCycle_mark host network first entry.1
  rw [(refreshCycle_identity host network first entry.1).2.2] at fetched
  rw [same, report_quiet]
  constructor
  · intro old payload' latest rest fetched' parsed
    rw [fetched] at fetched'
    rw [Option.some_inj.mp fetched', parsed, newItemCount_eq_zero, mark, left] at old
    exact old
  · intro settled
    cases parsed : parseItems payload with
    | nil =>
      rw [newItemCount]
      split_ifs <;> rfl
    | cons latest rest =>
      rw [newItemCount_eq_zero, mark, left]
      exact settled payload latest rest fetched parsed

end Quiet

section Keys

variable {feed : RssFeed} {state : RssState}

def KeysDistinct (state : RssState) : Prop := ∀ place, KeysApart (state.host.feeds place)

theorem keysApart_nil (none_stored : feed.storedItems = []) : KeysApart feed := by
  rw [KeysApart, none_stored]
  exact List.Pairwise.nil

theorem storeItem_apart (apart : KeysApart feed) (item : RssItem) : KeysApart (storeItem feed item).1 := by
  rw [storeItem]
  split_ifs with known
  · exact apart
  · refine List.pairwise_cons.mpr ⟨fun other inside present same =>
      known ⟨present, other, List.mem_of_mem_take inside, same.symm⟩, ?_⟩
    exact List.Pairwise.sublist (List.take_sublist _ _) apart

theorem storeItems_apart (apart : KeysApart feed) (items : List RssItem) : KeysApart (storeItems feed items) := by
  induction items with
  | nil => exact apart
  | cons item rest ih => exact storeItem_apart ih item

theorem refreshed_apart (apart : KeysApart feed) (snapshot : RssFeed) (download : Download) (now : Int) :
    KeysApart (refreshed feed snapshot download now) := by
  have checked : KeysApart { feed with lastChecked := now } := apart
  have stored (items : List RssItem) := storeItems_apart checked items
  rw [refreshed]
  cases download.items with
  | nil => exact stored _
  | cons => exact stored _

theorem put_apart {host : RssHost} (apart : ∀ place, KeysApart (host.feeds place)) {place : Fin maxFeeds}
    (here : KeysApart feed) (other : Fin maxFeeds) : KeysApart ((host.put place feed).feeds other) := by
  change KeysApart (Function.update host.feeds place feed other)
  by_cases same : other = place
  · rw [same, Function.update_self]
    exact here
  · rw [Function.update_of_ne same]
    exact apart other

theorem rollover_apart {host : RssHost} (apart : ∀ place, KeysApart (host.feeds place)) (windowId : UInt8)
    (place : Fin maxFeeds) : KeysApart ((handleWindowRollover host windowId).1.feeds place) := by
  rw [handleWindowRollover]
  split_ifs
  · exact apart place
  · change KeysApart ((host.feeds place).rollOver windowId)
    rw [RssFeed.rollOver]
    split_ifs
    · exact keysApart_nil rfl
    · exact keysApart_nil rfl
    · exact apart place

theorem rssStep_distinct (state : RssState) (event : RssEvent) (distinct : KeysDistinct state) :
    KeysDistinct (rssStep state event) := by
  intro place
  cases event with
  | start => exact rollover_apart distinct _ place
  | fetched cycle download now =>
    rw [rssStep]
    cases state.next cycle with
    | none => exact distinct place
    | some snapshot =>
      dsimp only
      rw [writeBack]
      cases findRssFeed state.host.feeds snapshot.tag.text with
      | none => exact distinct place
      | some found => exact put_apart distinct (refreshed_apart (distinct found) snapshot download now) place
  | failed => exact distinct place
  | finish => exact distinct place
  | add url tag =>
    rw [rssStep, addFeed]
    cases addError state.host url tag with
    | some => exact distinct place
    | none =>
      cases (List.finRange maxFeeds).find? fun place => !(state.host.feeds place).inUse with
      | none => exact distinct place
      | some => exact put_apart distinct (keysApart_nil rfl) place
  | remove tag =>
    rw [rssStep, removeFeed]
    split_ifs
    · exact distinct place
    · exact distinct place
    · cases findRssFeed state.host.feeds tag with
      | none => exact distinct place
      | some => exact put_apart distinct (keysApart_nil rfl) place
  | rename oldTag newTag =>
    rw [rssStep, renameFeed]
    cases renameError state.host oldTag newTag with
    | some => exact distinct place
    | none =>
      cases findRssFeed state.host.feeds oldTag with
      | none => exact distinct place
      | some slot =>
        have kept : KeysApart { state.host.feeds slot with tag := .print newTag } := distinct slot
        exact put_apart distinct kept place

end Keys

section Cycles

variable {feeds : FeedTable} {network : Network} {clock : CycleClock}

def cycleEvent (feeds : FeedTable) (network : Network) (clock : CycleClock) (place : Fin maxFeeds) : RssEvent :=
  match network (feeds place).url with
  | none => .failed 0
  | some payload => .fetched 0 (.parse payload) (clock.checked place)

variable (places : List (Fin maxFeeds))

theorem refreshFeed_run (state : RssHost × List (Fin maxFeeds × FeedReport)) :
    (run rssStep ⟨state.1, [places.map feeds]⟩ (places.map (cycleEvent feeds network clock))).host =
      (places.foldl (refreshFeed feeds network clock) state).1 := by
  induction places generalizing state with
  | nil => rfl
  | cons first rest ih =>
    have step : rssStep ⟨state.1, [(first :: rest).map feeds]⟩ (cycleEvent feeds network clock first) =
        ⟨(refreshFeed feeds network clock state first).1, [rest.map feeds]⟩ := by
      rw [cycleEvent, refreshFeed]
      cases network (feeds first).url with
      | none => rfl
      | some => rfl
    change (run rssStep (rssStep _ (cycleEvent feeds network clock first)) _).host = _
    rw [step]
    exact ih _

theorem refreshCycle_run (host : RssHost) (network : Network) (clock : CycleClock) :
    ∃ events, (run rssStep ⟨host, []⟩ events).host = (refreshCycle host network clock).1 := by
  refine ⟨.start clock.start :: (usedFeeds (handleWindowRollover host (currentWindow clock.start)).1.feeds).map
    (cycleEvent (handleWindowRollover host (currentWindow clock.start)).1.feeds network clock), ?_⟩
  exact refreshFeed_run _ ((handleWindowRollover host (currentWindow clock.start)).1, [])

theorem refreshCycle_apart {host : RssHost} (apart : ∀ place, KeysApart (host.feeds place)) (network : Network)
    (clock : CycleClock) (place : Fin maxFeeds) : KeysApart ((refreshCycle host network clock).1.feeds place) := by
  obtain ⟨events, same⟩ := refreshCycle_run host network clock
  rw [← same]
  have start : KeysDistinct ⟨host, []⟩ := apart
  exact run_invariant rssStep KeysDistinct rssStep_distinct start events place

theorem refreshFeed_places (state : RssHost × List (Fin maxFeeds × FeedReport)) :
    (places.foldl (refreshFeed feeds network clock) state).2.map Prod.fst =
      state.2.map Prod.fst ++ places.filter fun place => (network (feeds place).url).isSome := by
  induction places generalizing state with
  | nil => exact (List.append_nil _).symm
  | cons first rest ih =>
    rw [List.foldl_cons, ih, refreshFeed, List.filter_cons]
    cases network (feeds first).url with
    | none => rfl
    | some => simp

theorem refreshCycle_places (host : RssHost) (network : Network) (clock : CycleClock) :
    (refreshCycle host network clock).2.map Prod.fst =
      (usedFeeds host.feeds).filter fun place => (network (host.feeds place).url).isSome := by
  have rolled := rollover_identity host (currentWindow clock.start)
  rw [refreshCycle]
  generalize (handleWindowRollover host (currentWindow clock.start)).1 = next at rolled ⊢
  have address (place : Fin maxFeeds) : (next.feeds place).url = (host.feeds place).url := (rolled place).2.2
  rw [refreshFeed_places, usedFeeds_congr rolled]
  simp only [address, List.map_nil, List.nil_append]

/-- A host whose feeds store different keys, as it is without feeds. -/
abbrev KeyedState : Type := { state : RssState // KeysDistinct state }

/-- In every run the stored items of a feed have different keys and are not too many. Two cycles with the same
payloads report on every registered feed that is downloaded, and the second one is quiet about a feed exactly when the
first one settles it. -/
theorem refreshCycle_exact (start : KeyedState) (events : List RssEvent) (network : Network)
    (first second : CycleClock) : let host := (run rssStep start.val events).host
    let once := (refreshCycle host network first).1
    (∀ place, KeysApart (host.feeds place) ∧ (host.feeds place).storedItems.length ≤ maxItems) ∧
      (∀ place, KeysApart (once.feeds place) ∧ (once.feeds place).storedItems.length ≤ maxItems) ∧
      (refreshCycle once network second).2.map Prod.fst =
        ((usedFeeds host.feeds).filter fun place => (network (host.feeds place).url).isSome) ∧
      ∀ entry ∈ (refreshCycle once network second).2, Quiet entry.2 ↔ Settled host.feeds network entry.1 := by
  intro host once
  have distinct : KeysDistinct (run rssStep start.val events) :=
    run_invariant rssStep KeysDistinct rssStep_distinct start.property events
  have same : ∀ place, SameIdentity (once.feeds place) (host.feeds place) := refreshCycle_identity host network first
  refine ⟨fun place => ⟨distinct place, (host.feeds place).fits⟩,
    fun place => ⟨refreshCycle_apart distinct network first place, (once.feeds place).fits⟩, ?_,
    fun entry inside => second_quiet host network first second inside⟩
  have address (place : Fin maxFeeds) : (once.feeds place).url = (host.feeds place).url := (same place).2.2
  rw [refreshCycle_places, usedFeeds_congr same]
  simp only [address]

def breakingPayload : Bytes :=
  str "<rss><item><guid></guid><title>Breaking: rain</title><link>http://w/1</link></item></rss>"

/-- A feed is registered, and nothing was downloaded yet. -/
def newsHost : RssHost := (addFeed RssState.initial.host (str "http://w/") (str "news")).1

/-- The news is new again in the second cycle, and it is sent again. -/
theorem refreshCycle_repeats :
    (refreshCycle (refreshCycle newsHost (fun _ => some breakingPayload) ⟨1000, fun _ => 1001⟩).1
      (fun _ => some breakingPayload) ⟨1300, fun _ => 1301⟩).2 =
        [(0, ⟨1, [], [str "* [BREAKING NEWS] [news] Breaking: rain - http://w/1"]⟩)] := by
  decide +kernel

end Cycles

end SshChatter.Rss
