import SshChatter.Lib.CString
import SshChatter.Lib.EventRun
import SshChatter.Lib.RankedSort

namespace SshChatter.AiChat
open CString EventRun RankedSort List

abbrev memoryMax : Nat := 64

abbrev contextLimit : Nat := 3

abbrev tokenLimit : Nat := 12

/-- This is `SSH_CHATTER_AI_MEMORY_PREVIEW_LEN`. -/
abbrev previewLength : Nat := 160

structure MemoryEntry where
  storedAt : Int
  username : CText 255
  prompt : CText 4095
  reply : CText 4095
  deriving DecidableEq

/-- The memory of the host, oldest entry first. -/
structure Memory where
  entries : List MemoryEntry
  bounded : entries.length ≤ memoryMax

/-- What a member said, what was replied and when. -/
structure Exchange where
  now : Int
  username : Bytes
  prompt : Bytes
  reply : Bytes

/-- The entry that `host_ai_chat_memory_store` writes. -/
def Exchange.entry (exchange : Exchange) : MemoryEntry where
  storedAt := exchange.now
  username := .print (if exchange.username = [] then str "user" else exchange.username)
  prompt := .print (trimSpace (exchange.prompt.take 4095))
  reply := .print (trimSpace (exchange.reply.take 4095))

/-- This is `host_ai_chat_memory_store`. A full memory loses its first entry. -/
def store (memory : Memory) (exchange : Exchange) : Memory where
  entries := (if memoryMax ≤ memory.entries.length then memory.entries.drop 1 else memory.entries) ++ [exchange.entry]
  bounded := by
    have bounded : memory.entries.length ≤ 64 := memory.bounded
    change _ ≤ 64
    by_cases full : 64 ≤ memory.entries.length
    · rw [if_pos full, length_append, length_drop, length_singleton]
      omega
    · rw [if_neg full, length_append, length_singleton]
      omega

def words (text : Bytes) : List Bytes := (text.splitOnP isSpace).filter (· ≠ [])

def memoryToken (word : Bytes) : Bytes := (word.take 31).map toLower

def tooShort (token : Bytes) : Bool := token.length < 3 ∧ token.headD 0 < 128

def collectTokens (prompt : Bytes) : List Bytes :=
  ((words prompt).map memoryToken).foldl
    (fun tokens token =>
      if tokenLimit ≤ tokens.length ∨ tooShort token ∨ token ∈ tokens then tokens else tokens ++ [token]) []

def stringContainsCaseInsensitive (haystack needle : Bytes) : Bool :=
  needle ≠ [] ∧ (strstr (needle.map toLower) (haystack.map toLower)).isSome

def matchCount (tokens : List Bytes) (entry : MemoryEntry) : Nat :=
  tokens.countP fun token =>
    stringContainsCaseInsensitive entry.prompt.text token || stringContainsCaseInsensitive entry.reply.text token

def recencyBonus (count position : Nat) : Nat := min (count - position) 4

/-- The entries that are considered, with their positions. Without a token these are all of them. -/
def candidates (tokens : List Bytes) (memory : Memory) : List (MemoryEntry × Nat) :=
  memory.entries.zipIdx.filter fun entry => tokens = [] ∨ matchCount tokens entry.1 ≠ 0

def score (tokens : List Bytes) (memory : Memory) (entry : MemoryEntry × Nat) : Nat :=
  matchCount tokens entry.1 + recencyBonus memory.entries.length entry.2

/-- The insertion into `best_scores` and `best_indices`. -/
def bestIndices (tokens : List Bytes) (memory : Memory) : List Nat :=
  (((candidates tokens memory).map fun entry => (score tokens memory entry, entry.2)).foldl
    (insertBounded (fun key other : Nat × Nat => other.1 < key.1) contextLimit) []).map Prod.snd

def selectEntries (tokens : List Bytes) (memory : Memory) : List Nat :=
  if bestIndices tokens memory = [] ∧ tokens = [] then
    (range (min memory.entries.length contextLimit)).map fun index => memory.entries.length - index - 1
  else bestIndices tokens memory

def preparePreview (source : Bytes) : Bytes :=
  let copied := trimSpace (source.take (previewLength - 1))
  if previewLength ≤ source.length ∧ copied.length + 3 < previewLength then copied ++ str "..." else copied

def orElse (text other : Bytes) : Bytes := if text = [] then other else text

/-- The lines about an entry. The function tells how a time is printed, and prints nothing where it cannot. -/
def memoryBlock (timeText : Int → Bytes) (entry : MemoryEntry) : Bytes :=
  let time := if entry.storedAt = 0 then [] else timeText entry.storedAt
  str "- [" ++ orElse time (str "-") ++ str "] " ++ orElse entry.username.text (str "user") ++ str " said: " ++
    orElse (preparePreview entry.prompt.text) (str "(empty)") ++ str "\n  ai-eliza replied: " ++
      orElse (preparePreview entry.reply.text) (str "(empty)")

/-- The blocks behind each other in a buffer. What does not fit is cut, and what follows is left out. -/
def joinBlocks (room : Nat) (context : Bytes) : List Bytes → Bytes
  | [] => context
  | block :: rest =>
    if room ≤ context.length + block.length then context ++ block.take (room - context.length - 1)
    else joinBlocks room (context ++ block) rest

def collectContext (timeText : Int → Bytes) (memory : Memory) (prompt : Bytes) (contextLength : Nat) : Nat × Bytes :=
  if contextLength = 0 then (0, [])
  else
    let selected := selectEntries (collectTokens prompt) memory
    let blocks := (selected.filterMap fun position => memory.entries[position]?).map (memoryBlock timeText)
    let printed := blocks.zipIdx.map fun block =>
      (if block.2 = 0 then block.1 else str "\n" ++ block.1).take (4 * previewLength - 1)
    (selected.length, joinBlocks contextLength [] printed)

section Selection

/-- The selected positions are those of the best entries. An entry that is left out is not better and as recent, and of
entries that match as much the recent ones are taken. -/
structure BestSelection (tokens : List Bytes) (memory : Memory) (selected : List Nat) : Prop where
  considered : ∀ position ∈ selected, ∃ entry, (entry, position) ∈ candidates tokens memory
  distinct : selected.Nodup
  count : selected.length = min contextLimit (candidates tokens memory).length
  best : ∀ chosen ∈ candidates tokens memory, chosen.2 ∈ selected → ∀ other ∈ candidates tokens memory,
    other.2 ∉ selected → ¬ (matchCount tokens chosen.1 < matchCount tokens other.1 ∧ chosen.2 ≤ other.2)
  recent : ∀ chosen ∈ candidates tokens memory, chosen.2 ∈ selected → ∀ other ∈ candidates tokens memory,
    other.2 ∉ selected → matchCount tokens other.1 = matchCount tokens chosen.1 → other.2 < chosen.2

/-- One entry goes before another: its score is higher, or it is as high and the entry is older. -/
def Leads (tokens : List Bytes) (memory : Memory) (first second : MemoryEntry × Nat) : Prop :=
  score tokens memory second < score tokens memory first ∨
    score tokens memory second = score tokens memory first ∧ first.2 < second.2

instance (tokens : List Bytes) (memory : Memory) (first second : MemoryEntry × Nat) :
    Decidable (Leads tokens memory first second) :=
  inferInstanceAs (Decidable (_ ∨ _))

def leading (tokens : List Bytes) (memory : Memory) (entry : MemoryEntry × Nat) : Nat :=
  (candidates tokens memory).countP fun other => Leads tokens memory other entry

/-- Of two entries of which the newer one matches as much, it is not the older one alone that has less than three
entries in front of it. -/
def RecencySafe (tokens : List Bytes) (memory : Memory) : Prop :=
  ∀ older ∈ candidates tokens memory, ∀ newer ∈ candidates tokens memory, older.2 < newer.2 →
    matchCount tokens older.1 ≤ matchCount tokens newer.1 → leading tokens memory older < contextLimit →
      leading tokens memory newer < contextLimit

variable {tokens : List Bytes} {memory : Memory} {entry other : MemoryEntry × Nat} {position : Nat}

def scored (tokens : List Bytes) (memory : Memory) : List (Nat × Nat) :=
  (candidates tokens memory).map fun entry => (score tokens memory entry, entry.2)

theorem byScore : ByRank (fun key other : Nat => other < key) (id : Nat → Nat) := fun _ _ => decide_eq_true_iff

theorem candidates_increasing (tokens : List Bytes) (memory : Memory) :
    (candidates tokens memory).Pairwise fun first second => first.2 < second.2 := (zipIdx_increasing _).filter _

theorem scored_increasing (tokens : List Bytes) (memory : Memory) :
    (scored tokens memory).Pairwise fun first second => first.2 < second.2 :=
  pairwise_map.mpr (candidates_increasing tokens memory)

/-- The insertions keep the entries with less than three others in front of them. -/
theorem bestIndices_perm (tokens : List Bytes) (memory : Memory) :
    (bestIndices tokens memory).Perm (((candidates tokens memory).filter fun entry =>
      leading tokens memory entry < contextLimit).map Prod.snd) := by
  have front := take_sorted byScore (scored_increasing tokens memory) contextLimit
  rw [← foldl_insertBounded byScore (scored_increasing tokens memory)] at front
  have places (entry : MemoryEntry × Nat) : place (fun key other : Nat => other < key) (scored tokens memory)
      (score tokens memory entry, entry.2) = leading tokens memory entry := by
    rw [place, scored, countP_map]
    apply countP_congr
    intro other _
    rw [Function.comp_apply, precedes_iff byScore, decide_eq_true_iff]
    rfl
  have kept : (scored tokens memory).filter
    (fun row => place (fun key other : Nat => other < key) (scored tokens memory) row <
      contextLimit) = ((candidates tokens memory).filter fun entry => leading tokens memory entry < contextLimit).map
        fun entry => (score tokens memory entry, entry.2) := by
    conv_lhs => rw [scored, filter_map]
    congr 1
    apply filter_congr
    intro entry _
    exact congrArg (fun count => decide (count < contextLimit)) (places entry)
  rw [kept] at front
  have positions := front.map Prod.snd
  rw [map_map] at positions
  exact positions

theorem bestIndices_length (tokens : List Bytes) (memory : Memory) :
    (bestIndices tokens memory).length = min contextLimit (candidates tokens memory).length := by
  rw [bestIndices, length_map]
  change ((scored tokens memory).foldl _ []).length = _
  rw [foldl_insertBounded byScore (scored_increasing tokens memory), length_take, insertSort_length, scored, length_map]

theorem selectEntries_eq (tokens : List Bytes) (memory : Memory) :
    selectEntries tokens memory = bestIndices tokens memory := by
  rw [selectEntries]
  split_ifs with fallback
  · obtain ⟨nothing, rfl⟩ := fallback
    have count := bestIndices_length [] memory
    have all : (candidates [] memory).length = memory.entries.length := by
      rw [candidates, filter_eq_self.mpr fun _ _ => by simp, length_zipIdx]
    rw [nothing, all] at count
    change 0 = min 3 memory.entries.length at count
    have empty : memory.entries.length = 0 := by omega
    rw [nothing, empty]
    rfl
  · rfl

theorem mem_selectEntries : position ∈ selectEntries tokens memory ↔
    ∃ entry, (entry, position) ∈ candidates tokens memory ∧ leading tokens memory (entry, position) < contextLimit := by
  rw [selectEntries_eq, (bestIndices_perm tokens memory).mem_iff, mem_map]
  simp only [mem_filter, decide_eq_true_iff]
  constructor
  · rintro ⟨⟨entry, here⟩, kept, rfl⟩
    exact ⟨entry, kept⟩
  · rintro ⟨entry, kept⟩
    exact ⟨(entry, position), kept, rfl⟩

/-- An entry is told by its position. -/
theorem candidates_unique (inside : entry ∈ candidates tokens memory) (inside' : other ∈ candidates tokens memory)
    (same : entry.2 = other.2) : entry = other := by
  have first := (mem_zipIdx' (mem_of_mem_filter inside)).2
  have second := (mem_zipIdx' (mem_of_mem_filter inside')).2
  refine Prod.ext ?_ same
  rw [first, second]
  simp only [same]

theorem selected_iff (inside : entry ∈ candidates tokens memory) :
    entry.2 ∈ selectEntries tokens memory ↔ leading tokens memory entry < contextLimit := by
  rw [mem_selectEntries]
  constructor
  · rintro ⟨text, member, few⟩
    exact candidates_unique member inside rfl ▸ few
  · exact fun few => ⟨entry.1, inside, few⟩

/-- The selection is the best one exactly when the bonus for old entries does not tell. -/
theorem selection_iff (tokens : List Bytes) (memory : Memory) :
    BestSelection tokens memory (selectEntries tokens memory) ↔ RecencySafe tokens memory := by
  constructor
  · intro sound older here newer there later more few
    rw [← selected_iff here] at few
    rw [← selected_iff there]
    by_contra left
    rcases more.lt_or_eq with better | same
    · exact sound.best older here few newer there left ⟨better, later.le⟩
    · exact absurd (sound.recent older here few newer there left same.symm) later.not_gt
  · intro safe
    refine ⟨fun position member => ?_, ?_, ?_, ?_, ?_⟩
    · obtain ⟨entry, inside, -⟩ := mem_selectEntries.mp member
      exact ⟨entry, inside⟩
    · rw [selectEntries_eq, (bestIndices_perm tokens memory).nodup_iff]
      have increasing := (candidates_increasing tokens memory).filter fun entry =>
        leading tokens memory entry < contextLimit
      exact (pairwise_map.mpr increasing).imp fun less => less.ne
    · rw [selectEntries_eq, bestIndices_length]
    · rintro chosen here kept other there left ⟨better, older⟩
      rw [selected_iff here] at kept
      rw [selected_iff there] at left
      have away : chosen.2 ≠ other.2 := fun same => left (candidates_unique here there same ▸ kept)
      exact left (safe chosen here other there (lt_of_le_of_ne older away) better.le kept)
    · intro chosen here kept other there left same
      rw [selected_iff here] at kept
      rw [selected_iff there] at left
      by_contra newer
      rcases (not_lt.mp newer).lt_or_eq with older | level
      · exact left (safe chosen here other there older same.ge kept)
      · exact left (candidates_unique here there level ▸ kept)

end Selection

section Stores

variable {memory : Memory}

theorem store_entries (memory : Memory) (exchange : Exchange) : (store memory exchange).entries =
    (memory.entries ++ [exchange.entry]).drop (memory.entries.length + 1 - memoryMax) := by
  have bounded : memory.entries.length ≤ 64 := memory.bounded
  change (if 64 ≤ memory.entries.length then memory.entries.drop 1 else memory.entries) ++ [exchange.entry] =
    (memory.entries ++ [exchange.entry]).drop (memory.entries.length + 1 - 64)
  split_ifs with full
  · have one : memory.entries.length + 1 - 64 = 1 := by omega
    rw [one, drop_append_of_le_length (by omega)]
  · have none_gone : memory.entries.length + 1 - 64 = 0 := by omega
    rw [none_gone, drop_zero]

/-- What is stored stands behind what was there, and a full memory keeps the last entries. -/
theorem run_store (memory : Memory) (exchanges : List Exchange) : (run store memory exchanges).entries =
    (memory.entries ++ exchanges.map Exchange.entry).drop (memory.entries.length + exchanges.length - memoryMax) := by
  induction exchanges generalizing memory with
  | nil =>
    have bounded := memory.bounded
    rw [map_nil, append_nil, length_nil, add_zero, Nat.sub_eq_zero_of_le bounded]
    rfl
  | cons exchange rest ih =>
    have inside : memory.entries.length + 1 - 64 ≤ (memory.entries ++ [exchange.entry]).length := by
      rw [length_append]
      omega
    change (run store (store memory exchange) rest).entries = _
    rw [ih, store_entries, ← drop_append_of_le_length inside, drop_drop, append_assoc]
    simp only [length_drop, length_append]
    congr 1
    change memory.entries.length + 1 - 64 + (memory.entries.length + 1 - (memory.entries.length + 1 - 64) +
      rest.length - 64) = memory.entries.length + (rest.length + 1) - 64
    omega

end Stores

/-- After any exchanges the memory is in the order of time, as many entries are selected as there are and may be, and
they are the best ones exactly when the bonus for old entries does not tell. -/
theorem collectContext_exact (timeText : Int → Bytes) (loaded : Memory) (exchanges : List Exchange) (prompt : Bytes)
    (contextLength : Nat) :
    (run store loaded exchanges).entries = (loaded.entries ++ exchanges.map Exchange.entry).drop
        (loaded.entries.length + exchanges.length - memoryMax) ∧
      (0 < contextLength → (collectContext timeText (run store loaded exchanges) prompt contextLength).1 =
        min contextLimit (candidates (collectTokens prompt) (run store loaded exchanges)).length) ∧
      (BestSelection (collectTokens prompt) (run store loaded exchanges)
          (selectEntries (collectTokens prompt) (run store loaded exchanges)) ↔
        RecencySafe (collectTokens prompt) (run store loaded exchanges)) := by
  refine ⟨run_store loaded exchanges, fun room => ?_, selection_iff _ _⟩
  rw [collectContext, if_neg room.ne', selectEntries_eq]
  exact bestIndices_length _ _

def Memory.empty : Memory := ⟨[], Nat.zero_le _⟩

/-- A member says hello for the fourth time. -/
def greetings : List Exchange :=
  [100, 200, 300, 400].map fun now => ⟨now, str "ann", str "hello", str "hi there"⟩

/-- The last of four entries that match as much is left out. -/
theorem selection_leaves_newest : ¬ BestSelection (collectTokens (str "hello")) (run store .empty greetings)
    (selectEntries (collectTokens (str "hello")) (run store .empty greetings)) := by
  intro sound
  have oldest := sound.recent ((Exchange.mk 100 (str "ann") (str "hello") (str "hi there")).entry, 0)
    (by decide +kernel)
    (by decide +kernel) ((Exchange.mk 400 (str "ann") (str "hello") (str "hi there")).entry, 3) (by decide +kernel)
    (by decide +kernel) (by decide +kernel)
  exact absurd oldest (by decide)

end SshChatter.AiChat
