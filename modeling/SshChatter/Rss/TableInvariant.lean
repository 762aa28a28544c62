import SshChatter.Lib.SlotTable
import SshChatter.Rss.Attribution

namespace SshChatter.Rss
open CString EventRun SlotTable Function List

abbrev Argument : Type := { text : Bytes // 0 ∉ text }

/-- The operations on the feeds. -/
inductive FeedCommand where
  | add (url tag : Argument)
  | rename (oldTag newTag : Argument)
  | remove (tag : Argument)

/-- The host after an operation, and the error that it reports. -/
def execute (host : RssHost) : FeedCommand → RssHost × Option Bytes
  | .add url tag => addFeed host url.val tag.val
  | .rename oldTag newTag => renameFeed host oldTag.val newTag.val
  | .remove tag => removeFeed host tag.val

def feedStep (host : RssHost) (command : FeedCommand) : RssHost := (execute host command).1

def folded (text : Bytes) : Bytes := text.map toLower

/-- The count is right, and the tags and addresses in use are valid and differ without their case. -/
structure TableSound (host : RssHost) : Prop where
  count : host.feedCount = usedCount RssFeed.inUse host.feeds
  tags : Distinct RssFeed.inUse (fun feed => folded feed.tag.text) host.feeds
  urls : Distinct RssFeed.inUse (fun feed => folded feed.url.text) host.feeds
  valid : ∀ place, (host.feeds place).inUse → tagIsValid (host.feeds place).tag.text

def Finds (host after : RssHost) : FeedCommand → Prop
  | .add url tag => ∃ place, (host.feeds place).inUse = false ∧ findRssFeed after.feeds tag.val = some place ∧
      after.feeds place = .registered url.val tag.val
  | .rename oldTag newTag => ∃ place, findRssFeed host.feeds oldTag.val = some place ∧
      findRssFeed after.feeds newTag.val = some place ∧
      after.feeds place = { host.feeds place with tag := .print newTag.val }
  | .remove _ => True

/-- The table is sound after a command. A successful command is found, and a failed one changes nothing. -/
structure CommandKept (host : RssHost) (command : FeedCommand) : Prop where
  sound : TableSound (feedStep host command)
  finds : (execute host command).2 = none → Finds host (feedStep host command) command
  refused : (execute host command).2 ≠ none → feedStep host command = host

/-- A new feed passes the checks: its tag is valid and free, its address is free, and the table has room. -/
structure Addable (host : RssHost) (url tag : Bytes) : Prop where
  addressed : url ≠ []
  valid : tagIsValid tag
  room : host.feedCount < maxFeeds
  freeTag : findRssFeed host.feeds tag = none
  freeUrl : ∀ place, (host.feeds place).inUse → folded (host.feeds place).url.text ≠ folded url

/-- A feed can be renamed: both tags are valid, the old one is found, and the new one is free or differs in case
only. -/
structure Renamable (host : RssHost) (oldTag newTag : Bytes) : Prop where
  old : tagIsValid oldTag
  new : tagIsValid newTag
  found : findRssFeed host.feeds oldTag ≠ none
  free : folded oldTag = folded newTag ∨ findRssFeed host.feeds newTag = none

/-- The bytes that are stored of a command are told apart as the whole texts are: the tag fits in its array, and the
address as far as it is stored is free. -/
def Stored (host : RssHost) : FeedCommand → Prop
  | .add url tag => Addable host url.val tag.val → tag.val.length ≤ 31 ∧
      ∀ place, (host.feeds place).inUse → folded (host.feeds place).url.text ≠ folded (url.val.take 1023)
  | .rename oldTag newTag => Renamable host oldTag.val newTag.val → newTag.val.length ≤ 31
  | .remove _ => True

section Tables

variable {host : RssHost} {tag : Bytes} {place : Fin maxFeeds}

theorem sameIgnoringCase_iff {first second : Bytes} : sameIgnoringCase first second ↔ folded first = folded second := by
  rw [sameIgnoringCase, decide_eq_true_iff, folded, folded]

theorem valid_nonempty (valid : tagIsValid tag) : tag ≠ [] := by
  rw [tagIsValid, decide_eq_true_iff] at valid
  exact valid.1

theorem findRssFeed_eq (nonempty : tag ≠ []) (feeds : FeedTable) :
    findRssFeed feeds tag = firstWith (fun feed => feed.inUse && sameIgnoringCase feed.tag.text tag) feeds := by
  rw [findRssFeed, if_neg nonempty, firstWith]

theorem findRssFeed_none (nonempty : tag ≠ []) : findRssFeed host.feeds tag = none ↔
    ∀ place, (host.feeds place).inUse → folded (host.feeds place).tag.text ≠ folded tag := by
  rw [findRssFeed_eq nonempty, firstWith_none]
  apply forall_congr'
  intro place
  rw [Bool.and_eq_false_iff, ← Bool.not_eq_true, ← Bool.not_eq_true, sameIgnoringCase_iff, ← not_and_or, not_and]

theorem findRssFeed_here (distinct : Distinct RssFeed.inUse (fun feed => folded feed.tag.text) host.feeds)
    (nonempty : tag ≠ []) (inUse : (host.feeds place).inUse)
    (same : folded (host.feeds place).tag.text = folded tag) : findRssFeed host.feeds tag = some place := by
  rw [findRssFeed_eq nonempty]
  apply firstWith_unique
  · rw [inUse, sameIgnoringCase_iff.mpr same, Bool.and_self]
  · intro other both
    obtain ⟨otherUse, otherSame⟩ := Bool.and_eq_true_iff.mp both
    exact distinct other place otherUse inUse ((sameIgnoringCase_iff.mp otherSame).trans same.symm)

theorem findRssFeed_long (feeds : FeedTable) (long : 31 < tag.length) : findRssFeed feeds tag = none := by
  have nonempty : tag ≠ [] := ne_nil_of_length_pos (by omega)
  rw [findRssFeed_eq nonempty, firstWith_none]
  intro place
  rw [Bool.and_eq_false_iff, ← Bool.not_eq_true (sameIgnoringCase _ _), sameIgnoringCase_iff]
  refine Or.inr fun same => ?_
  have lengths := congrArg length same
  rw [folded, folded, length_map, length_map] at lengths
  have short := (feeds place).tag.fits
  omega

theorem print_text_clean {room : Nat} {text : Bytes} (clean : 0 ∉ text) :
    (CText.print text : CText room).text = text.take room := by
  have visible : text.takeWhile (· ≠ 0) = text := by
    apply takeWhile_eq_self_iff.mpr
    intro c member
    exact decide_eq_true fun zero => clean (zero ▸ member)
  change (text.takeWhile (· ≠ 0)).take room = text.take room
  rw [visible]

theorem take_valid (valid : tagIsValid tag) : tagIsValid (tag.take 31) := by
  rw [tagIsValid, decide_eq_true_iff] at valid ⊢
  obtain ⟨nonempty, each⟩ := valid
  constructor
  · intro empty
    rw [take_eq_nil_iff] at empty
    exact empty.elim (by decide) nonempty
  · exact fun c inside => each c (mem_of_mem_take inside)

theorem recount_count (host : RssHost) : (recount host).feedCount = usedCount RssFeed.inUse (recount host).feeds := by
  exact countP_usedCount RssFeed.inUse host.feeds

theorem addError_none {url : Bytes} : addError host url tag = none ↔ Addable host url tag := by
  have search : ∀ (url : Bytes), ((finRange maxFeeds).find? fun place =>
      (host.feeds place).inUse && sameIgnoringCase (host.feeds place).url.text url) = none ↔
        ∀ place, (host.feeds place).inUse → folded (host.feeds place).url.text ≠ folded url := by
    intro url
    simp [sameIgnoringCase_iff]
  rw [addError]
  constructor
  · intro clear
    split_ifs at clear with missing invalid full taken
    obtain ⟨addressed, tagged⟩ := not_or.mp missing
    refine ⟨addressed, Bool.not_eq_false _ ▸ invalid, not_le.mp full, Option.not_isSome_iff_eq_none.mp taken, ?_⟩
    rw [← search]
    split at clear
    · cases clear
    · assumption
  · intro addable
    have tagged := valid_nonempty addable.valid
    rw [if_neg (not_or.mpr ⟨addable.addressed, tagged⟩), if_neg (by rw [addable.valid]; decide),
      if_neg (not_le.mpr addable.room), addable.freeTag, if_neg (by decide), (search url).mpr addable.freeUrl]

theorem renameError_none {oldTag newTag : Bytes} : renameError host oldTag newTag = none ↔
    Renamable host oldTag newTag := by
  rw [renameError]
  constructor
  · intro clear
    split_ifs at clear with missing invalid absent taken
    obtain ⟨old, new⟩ := not_or.mp invalid
    refine ⟨Bool.not_eq_false _ ▸ old, Bool.not_eq_false _ ▸ new, absent, ?_⟩
    by_cases same : folded oldTag = folded newTag
    · exact Or.inl same
    · refine Or.inr (Option.not_isSome_iff_eq_none.mp fun some' => taken ⟨?_, some'⟩)
      exact Bool.eq_false_iff.mpr (mt sameIgnoringCase_iff.mp same)
  · intro renamable
    have old := valid_nonempty renamable.old
    have new := valid_nonempty renamable.new
    rw [if_neg (not_or.mpr ⟨old, new⟩), if_neg (by rw [renamable.old, renamable.new]; decide),
      if_neg renamable.found, if_neg]
    rintro ⟨other, taken⟩
    rcases renamable.free with same | free
    · rw [sameIgnoringCase_iff.mpr same] at other
      cases other
    · rw [free] at taken
      cases taken

end Tables

section Steps

variable {host : RssHost} {place : Fin maxFeeds} {feed : RssFeed}

theorem sound_put (place : Fin maxFeeds) (feed : RssFeed) (sound : TableSound host) (filled : feed.inUse)
    (valid : tagIsValid feed.tag.text) : TableSound (recount (host.put place feed)) ↔
      (∀ other, other ≠ place → (host.feeds other).inUse →
        folded (host.feeds other).tag.text ≠ folded feed.tag.text) ∧
      ∀ other, other ≠ place → (host.feeds other).inUse →
        folded (host.feeds other).url.text ≠ folded feed.url.text := by
  constructor
  · exact fun after => ⟨(sound.tags.fill_iff filled).mp after.tags, (sound.urls.fill_iff filled).mp after.urls⟩
  · rintro ⟨tags, urls⟩
    refine ⟨recount_count _, (sound.tags.fill_iff filled).mpr tags, (sound.urls.fill_iff filled).mpr urls, ?_⟩
    intro other inUse
    change (update host.feeds place feed other).inUse at inUse
    change tagIsValid (update host.feeds place feed other).tag.text
    by_cases here : other = place
    · rw [here, update_self]
      exact valid
    · rw [update_of_ne here] at inUse ⊢
      exact sound.valid other inUse

theorem kept_refused {command : FeedCommand} (error : Bytes) (sound : TableSound host)
    (refused : execute host command = (host, some error)) : CommandKept host command where
  sound := by
    rw [feedStep, refused]
    exact sound
  finds done := by
    rw [refused] at done
    cases done
  refused _ := by rw [feedStep, refused]

/-- A stored entry has the tag and the address as far as they fit. -/
theorem registered_texts (url tag : Argument) :
    (RssFeed.registered url.val tag.val).tag.text = tag.val.take 31 ∧
      (RssFeed.registered url.val tag.val).url.text = url.val.take 1023 :=
  ⟨print_text_clean tag.property, print_text_clean url.property⟩

theorem kept_add (sound : TableSound host) (url tag : Argument) :
    CommandKept host (.add url tag) ↔ Stored host (.add url tag) := by
  by_cases addable : Addable host url.val tag.val
  · have accepted := addError_none.mpr addable
    have full : firstFree RssFeed.inUse host.feeds ≠ none := by
      intro none'
      have many := usedCount_full (firstFree_none.mp none')
      have room := addable.room
      rw [sound.count] at room
      omega
    obtain ⟨place, free⟩ := Option.ne_none_iff_exists'.mp full
    have unused := firstFree_some free
    have executed : execute host (.add url tag) = (recount (host.put place (.registered url.val tag.val)), none) := by
      have search : ((finRange maxFeeds).find? fun place => !(host.feeds place).inUse) = some place := free
      rw [execute, addFeed, accepted, search]
    obtain ⟨tagText, urlText⟩ := registered_texts url tag
    have valid : tagIsValid (RssFeed.registered url.val tag.val).tag.text := by
      rw [tagText]
      exact take_valid addable.valid
    have nonempty := valid_nonempty addable.valid
    have puts := sound_put place (.registered url.val tag.val) sound rfl valid
    rw [tagText, urlText] at puts
    have here : (recount (host.put place (.registered url.val tag.val))).feeds place = .registered url.val tag.val :=
      update_self _ _ _
    constructor
    · intro kept _
      have after := kept.sound
      rw [feedStep, executed] at after
      constructor
      · by_contra long
        obtain ⟨_, _, found, _⟩ := kept.finds (by rw [executed])
        rw [findRssFeed_long _ (not_le.mp long)] at found
        cases found
      · intro other inUse
        refine (puts.mp after).2 other ?_ inUse
        rintro rfl
        rw [unused] at inUse
        cases inUse
    · intro stored
      obtain ⟨short, apart⟩ := stored addable
      have whole : tag.val.take 31 = tag.val := take_of_length_le short
      have after : TableSound (recount (host.put place (.registered url.val tag.val))) := by
        refine puts.mpr ⟨fun other _ inUse => ?_, fun other _ inUse => apart other inUse⟩
        rw [whole]
        exact (findRssFeed_none nonempty).mp addable.freeTag other inUse
      refine ⟨?_, fun _ => ⟨place, unused, ?_, ?_⟩, ?_⟩
      · rw [feedStep, executed]
        exact after
      · rw [feedStep, executed]
        apply findRssFeed_here after.tags nonempty
        · rw [here]
          rfl
        · rw [here, tagText, whole]
      · rw [feedStep, executed]
        exact here
      · rw [executed]
        exact fun failed => absurd rfl failed
  · have refused : ∃ error, execute host (.add url tag) = (host, some error) := by
      cases failed : addError host url.val tag.val with
      | none => exact absurd (addError_none.mp failed) addable
      | some error =>
        refine ⟨error, ?_⟩
        rw [execute, addFeed, failed]
    obtain ⟨error, same⟩ := refused
    exact ⟨fun _ fits => absurd fits addable, fun _ => kept_refused error sound same⟩

/-- A new tag is stored as far as it fits. -/
theorem kept_rename (sound : TableSound host) (oldTag newTag : Argument) :
    CommandKept host (.rename oldTag newTag) ↔ Stored host (.rename oldTag newTag) := by
  by_cases renamable : Renamable host oldTag.val newTag.val
  · have accepted := renameError_none.mpr renamable
    obtain ⟨place, found⟩ := Option.ne_none_iff_exists'.mp renamable.found
    obtain ⟨inUse, oldSame⟩ := findRssFeed_some found
    let feed : RssFeed := { host.feeds place with tag := .print newTag.val }
    have executed : execute host (.rename oldTag newTag) = (host.put place feed, none) := by
      rw [execute, renameFeed, accepted, found]
    have text : feed.tag.text = newTag.val.take 31 := print_text_clean newTag.property
    have nonempty := valid_nonempty renamable.new
    have here : (host.put place feed).feeds place = feed := update_self _ _ _
    constructor
    · intro kept _
      by_contra long
      obtain ⟨_, _, lost, _⟩ := kept.finds (by rw [executed])
      rw [findRssFeed_long _ (not_le.mp long)] at lost
      cases lost
    · intro stored
      have whole : newTag.val.take 31 = newTag.val := take_of_length_le (stored renamable)
      rw [whole] at text
      have apart : ∀ other, other ≠ place → (host.feeds other).inUse →
          folded (host.feeds other).tag.text ≠ folded feed.tag.text := by
        intro other away otherUse same
        rw [text] at same
        rcases renamable.free with onlyCase | free
        · exact away (sound.tags other place otherUse inUse (same.trans (onlyCase.symm.trans oldSame.symm)))
        · exact (findRssFeed_none nonempty).mp free other otherUse same
      have urlsApart : ∀ other, other ≠ place → (host.feeds other).inUse →
          folded (host.feeds other).url.text ≠ folded feed.url.text :=
        fun other away otherUse same => away (sound.urls other place otherUse inUse same)
      have valid : tagIsValid feed.tag.text := by
        rw [text]
        exact renamable.new
      have recounted := (sound_put place feed sound inUse valid).mpr ⟨apart, urlsApart⟩
      have after : TableSound (host.put place feed) := by
        refine ⟨?_, recounted.tags, recounted.urls, recounted.valid⟩
        have same : usedCount RssFeed.inUse (update host.feeds place feed) = usedCount RssFeed.inUse host.feeds :=
          usedCount_keep rfl
        exact sound.count.trans same.symm
      refine ⟨?_, fun _ => ⟨place, found, ?_, ?_⟩, ?_⟩
      · rw [feedStep, executed]
        exact after
      · rw [feedStep, executed]
        apply findRssFeed_here after.tags nonempty
        · rw [here]
          exact inUse
        · rw [here, text]
      · rw [feedStep, executed]
        exact here
      · rw [executed]
        exact fun failed => absurd rfl failed
  · have refused : ∃ error, execute host (.rename oldTag newTag) = (host, some error) := by
      cases failed : renameError host oldTag.val newTag.val with
      | none => exact absurd (renameError_none.mp failed) renamable
      | some error =>
        refine ⟨error, ?_⟩
        rw [execute, renameFeed, failed]
    obtain ⟨error, same⟩ := refused
    exact ⟨fun _ fits => absurd fits renamable, fun _ => kept_refused error sound same⟩

theorem kept_remove (sound : TableSound host) (tag : Argument) : CommandKept host (.remove tag) := by
  by_cases empty : tag.val = []
  · exact kept_refused _ sound (if_pos empty)
  · by_cases invalid : tagIsValid tag.val = false
    · refine kept_refused (str "Tag may only contain letters, numbers, '-', '_' or '.'.") sound ?_
      rw [execute, removeFeed, if_neg empty, if_pos invalid]
    · cases found : findRssFeed host.feeds tag.val with
      | none =>
        refine kept_refused (str "No RSS feed found for tag '" ++ tag.val ++ str "'.") sound ?_
        rw [execute, removeFeed, if_neg empty, if_neg invalid, found]
      | some place =>
        have executed : execute host (.remove tag) = (recount (host.put place .cleared), none) := by
          rw [execute, removeFeed, if_neg empty, if_neg invalid, found]
        refine ⟨?_, fun _ => trivial, ?_⟩
        · rw [feedStep, executed]
          refine ⟨recount_count _, sound.tags.clear rfl, sound.urls.clear rfl, ?_⟩
          intro other inUse
          change (update host.feeds place .cleared other).inUse at inUse
          change tagIsValid (update host.feeds place .cleared other).tag.text
          by_cases here : other = place
          · rw [here, update_self] at inUse
            cases inUse
          · rw [update_of_ne here] at inUse ⊢
            exact sound.valid other inUse
        · rw [executed]
          exact fun failed => absurd rfl failed

theorem kept_iff_stored (sound : TableSound host) (command : FeedCommand) : CommandKept host command ↔
    Stored host command := by
  cases command with
  | add url tag => exact kept_add sound url tag
  | rename oldTag newTag => exact kept_rename sound oldTag newTag
  | remove tag => exact iff_of_true (kept_remove sound tag) trivial

end Steps

abbrev SoundHost : Type := { host : RssHost // TableSound host }

def RssHost.blank : RssHost where
  feeds _ := .cleared
  feedCount := 0
  currentWindowId := 0

theorem blank_sound : TableSound .blank where
  count := (Finset.sum_eq_zero fun _ _ => rfl).symm
  tags _ _ inUse := by cases inUse
  urls _ _ inUse := by cases inUse
  valid _ inUse := by cases inUse

/-- Every command of a run keeps the table, is found and fails without a change exactly when what the run stores tells
the feeds apart. -/
theorem feed_table_kept (host : SoundHost) (commands : List FeedCommand) :
    Along feedStep CommandKept host.val commands ↔ Along feedStep Stored host.val commands :=
  along_iff_kept TableSound (fun _ _ _ kept => kept.sound) (fun _ command sound => kept_iff_stored sound command)
    host.property commands

def longTag : Argument := ⟨replicate 32 (byte 'a'), by decide⟩

def feedUrl : Argument := ⟨str "http://a.example/rss", by decide +kernel⟩

/-- A feed is added with a tag that does not find it. -/
theorem long_tag_lost : ¬ CommandKept .blank (.add feedUrl longTag) := by
  intro kept
  have addable : Addable .blank feedUrl.val longTag.val := addError_none.mp (by decide +kernel)
  have short := ((kept_iff_stored blank_sound _).mp kept addable).1
  exact absurd short (by decide)

end SshChatter.Rss
