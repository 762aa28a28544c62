import SshChatter.HostState.StateLoad

namespace SshChatter.HostState
open CString RecordStream List

def readHeader (file : Bytes) : Option (BaseHeader × Metadata × Bytes) :=
  match readBaseHeader file with
  | none => none
  | some (header, file) => (readMetadata header.version file).map fun found => (header, found.1, found.2)

/-- The records of the three sections that can be read. -/
structure Sections where
  history : List ChatHistoryEntry
  preferences : List RecordLayout.Memory
  grants : List Bytes
  historyWhole : Bool
  whole : Bool

def readSections (header : BaseHeader) (grantCount preferenceCount : Nat) (file : Bytes) : Sections :=
  let history := readUpTo (readHistoryEntry header.version) header.historyCount file
  match history.2 with
  | none => ⟨history.1, [], [], false, false⟩
  | some file =>
    let preferences := readUpTo (readPreferenceEntry header.version) preferenceCount file
    match preferences.2 with
    | none => ⟨history.1, preferences.1, [], true, false⟩
    | some file =>
      let grants := readUpTo readGrantEntry grantCount file
      ⟨history.1, preferences.1, grants.1, true, grants.2.isSome⟩

structure StateFile where
  header : BaseHeader
  metadata : Metadata
  records : Sections

def parseStateFile (file : Bytes) : Option StateFile :=
  match readHeader file with
  | none => none
  | some (header, metadata, body) =>
    let records := readSections header metadata.grantCount header.preferenceCount body
    if records.whole then some ⟨header, metadata, records⟩ else none

/-- A message that the clean-up keeps. -/
def isRecent (now : Option Int) (entry : ChatHistoryEntry) : Bool :=
  now.all fun now => now - historyLifetime ≤ entry.createdAt

/-- A host that has exactly what the file says. The cache holds the last messages with content, less the old ones. -/
def install (palette : Palette) (now : Option Int) (file : StateFile) : HostData :=
  let window := kept palette (file.records.history.drop (keepStart file.header.historyCount))
  let recent := window.filter (isRecent now)
  let total := (kept palette file.records.history).length
  { captchaEnabled := 8 ≤ file.header.version ∧ file.metadata.captchaEnabledRaw ≠ 0
    geoLanguageEnabled := 13 ≤ file.header.version ∧ file.metadata.geoLanguageEnabledRaw ≠ 0
    history := recent
    historyStartIndex := total - window.length
    historyTotal := total - (window.length - recent.length)
    nextMessageId := max file.metadata.nextMessageId (total + 1)
    preferences := (file.records.preferences.take maxPreferences).map decodePreference
    operatorGrants := grantsOf file.records.grants }

def AllOrNothing (palette : Palette) (now : Option Int) (file : Bytes) : Prop :=
  (∃ state, parseStateFile file = some state ∧ hostStateLoad palette now file .fresh = install palette now state) ∨
    hostStateLoad palette now file .fresh = .fresh

/-- A cut file that leaves no trace: its flags are off, its next id is the first one, its history is cut or has no
message, and no grant was read. -/
structure Traceless (palette : Palette) (header : BaseHeader) (metadata : Metadata) (records : Sections) : Prop where
  captcha : 8 ≤ header.version → metadata.captchaEnabledRaw = 0
  geoLanguage : 13 ≤ header.version → metadata.geoLanguageEnabledRaw = 0
  nextId : metadata.nextMessageId ≤ 1
  noHistory : records.historyWhole → kept palette records.history = []
  noGrants : grantsOf records.grants = []

/-- The files that are loaded as a whole or not at all: those without a header, those whose grants are the same behind
all preferences and behind the first 1024 of them, and the cut ones that leave no trace. -/
def SafeFile (palette : Palette) (file : Bytes) : Prop :=
  match readHeader file with
  | none => True
  | some (header, metadata, body) =>
    let clamped := readSections header metadata.grantCount (min header.preferenceCount maxPreferences) body
    let stored := readSections header metadata.grantCount header.preferenceCount body
    if clamped.whole then stored.whole ∧ grantsOf clamped.grants = grantsOf stored.grants
    else Traceless palette header metadata clamped

section Sections

variable (header : BaseHeader) (grantCount : Nat) (body : Bytes)

/-- The records are complete when the history is and the rest of the file is long enough. -/
theorem whole_iff (count : Nat) :
    (readSections header grantCount count body).whole ↔
      ∃ file, (readUpTo (readHistoryEntry header.version) header.historyCount body).2 = some file ∧
        count * preferenceSize header.version + grantCount * ipLen ≤ file.length := by
  rw [readSections]
  cases history : (readUpTo (readHistoryEntry header.version) header.historyCount body).2 with
  | none => simp
  | some file =>
    obtain ⟨long, short⟩ := (readPreferenceEntry_sized header.version).readUpTo_complete count file
    simp only [Option.some.injEq, exists_eq_left']
    by_cases room : count * preferenceSize header.version ≤ file.length
    · obtain ⟨long', short'⟩ :=
        readGrantEntry_sized.readUpTo_complete grantCount (file.drop (count * preferenceSize header.version))
      rw [length_drop] at long' short'
      simp only [long room]
      by_cases room' : grantCount * ipLen ≤ file.length - count * preferenceSize header.version
      · rw [long' room']
        simp only [Option.isSome_some, true_iff]
        omega
      · rw [short' (by omega)]
        simp only [Option.isSome_none, Bool.false_eq_true, false_iff]
        omega
    · simp only [short (by omega), Bool.false_eq_true, false_iff]
      omega

/-- Fewer preferences need no more bytes. -/
theorem whole_clamped {count more : Nat} (whole : (readSections header grantCount (count + more) body).whole) :
    (readSections header grantCount count body).whole := by
  rw [whole_iff] at whole ⊢
  obtain ⟨file, read, room⟩ := whole
  refine ⟨file, read, ?_⟩
  rw [add_mul] at room
  omega

theorem whole_sections {count : Nat} (whole : (readSections header grantCount count body).whole) :
    (readSections header grantCount count body).history =
        (readUpTo (readHistoryEntry header.version) header.historyCount body).1 ∧
      (readSections header grantCount count body).historyWhole ∧
      (readSections header grantCount count body).preferences.length = count := by
  rw [readSections] at whole ⊢
  cases history : (readUpTo (readHistoryEntry header.version) header.historyCount body).2 with
  | none => simp [history] at whole
  | some file =>
    simp only [history] at whole ⊢
    cases preferences : (readUpTo (readPreferenceEntry header.version) count file).2 with
    | none => simp [preferences] at whole
    | some => exact ⟨rfl, rfl, (readUpTo_length count file).2 (by rw [preferences]; rfl)⟩

theorem preferences_clamped (count more : Nat)
    (whole : (readSections header grantCount (count + more) body).whole) :
    (readSections header grantCount (count + more) body).preferences.take count =
      (readSections header grantCount count body).preferences := by
  have clamped := whole_clamped header grantCount body whole
  rw [readSections] at whole clamped ⊢
  rw [readSections]
  cases history : (readUpTo (readHistoryEntry header.version) header.historyCount body).2 with
  | none => simp [history] at whole
  | some file =>
    simp only [history] at whole clamped ⊢
    cases all : (readUpTo (readPreferenceEntry header.version) (count + more) file).2 with
    | none => simp [all] at whole
    | some =>
      cases first : (readUpTo (readPreferenceEntry header.version) count file).2 with
      | none => simp [first] at clamped
      | some => exact readUpTo_take count more file

end Sections

section Outcome

variable (palette : Palette) (now : Option Int) (header : BaseHeader) (metadata : Metadata) (body : Bytes)

/-- The messages of the cache. -/
def windowOf (historyCount : Nat) (records : Sections) : List ChatHistoryEntry :=
  kept palette (records.history.drop (keepStart historyCount))

/-- The number of messages that a load counts. -/
def totalOf (records : Sections) : Nat := if records.historyWhole then (kept palette records.history).length else 0

/-- The three stages leave what they read in a host without records. -/
theorem loadRecords_eq {host : HostData} (noTotal : host.historyTotal = 0) (noPreferences : host.preferences = [])
    (noGrants : host.operatorGrants = []) (grantCount : Nat) {count : Nat} (bound : count ≤ maxPreferences) :
    let records := readSections header grantCount count body
    loadRecords palette header grantCount count body host =
      ({ host with
          history := windowOf palette header.historyCount records
          historyStartIndex := totalOf palette records - (windowOf palette header.historyCount records).length
          historyTotal := totalOf palette records
          preferences := records.preferences.map decodePreference
          operatorGrants := grantsOf records.grants }, records.whole) := by
  rw [loadRecords, loadHistoryEntries_eq, readSections]
  dsimp only
  cases history : (readUpTo (readHistoryEntry header.version) header.historyCount body).2 with
  | none =>
    simp only [totalOf, windowOf, Bool.false_eq_true, if_false, Nat.zero_sub]
    rw [← noTotal, map_nil, show grantsOf [] = [] from rfl, ← noPreferences, ← noGrants]
  | some file =>
    simp only
    rw [loadPreferences_eq bound]
    dsimp only
    cases preferences : (readUpTo (readPreferenceEntry header.version) count file).2 with
    | none =>
      simp only [totalOf, windowOf, if_true]
      rw [show grantsOf [] = [] from rfl, ← noGrants]
    | some =>
      simp only
      rw [loadGrants_eq]
      simp only [totalOf, windowOf, if_true]

/-- The last steps of a load. -/
def finish (loaded : HostData × Bool) : HostData :=
  let host := if loaded.2 then loaded.1 else resetLoadedData loaded.1
  let requested := if metadata.nextMessageId = 0 then host.historyTotal + 1 else metadata.nextMessageId
  cleanupExpired now { host with nextMessageId := normalizeNextMessageId requested host.historyTotal }

variable {file : Bytes}

theorem hostStateLoad_unread (unread : readHeader file = none) (host : HostData) :
    hostStateLoad palette now file host = host := by
  rw [readHeader] at unread
  rw [hostStateLoad]
  cases base : readBaseHeader file with
  | none => rfl
  | some =>
    rw [base] at unread
    simp only [Option.map_eq_none_iff] at unread
    simp only [unread]

theorem hostStateLoad_read (read : readHeader file = some (header, metadata, body)) (host : HostData) :
    hostStateLoad palette now file host =
      finish now metadata (loadRecords palette header metadata.grantCount (min header.preferenceCount maxPreferences)
        body
        (applyHeader header.version metadata host)) := by
  rw [readHeader] at read
  rw [hostStateLoad]
  cases base : readBaseHeader file with
  | none => simp [base] at read
  | some =>
    rw [base] at read
    simp only [Option.map_eq_some_iff] at read
    obtain ⟨rest, metadataRead, rfl, rfl, rfl⟩ := read
    simp only [metadataRead]
    rfl

theorem requested_eq (total : Nat) :
    normalizeNextMessageId (if metadata.nextMessageId = 0 then total + 1 else metadata.nextMessageId) total =
      max metadata.nextMessageId (total + 1) := by
  rw [normalizeNextMessageId]
  split_ifs <;> omega

/-- The clean-up keeps the recent messages. -/
theorem cleanupExpired_eq (host : HostData) :
    cleanupExpired now host =
      { host with
        history := host.history.filter (isRecent now)
        historyTotal := host.historyTotal - (host.history.length - (host.history.filter (isRecent now)).length) } := by
  cases now with
  | none =>
    have all : host.history.filter (isRecent none) = host.history :=
      filter_eq_self.mpr fun _ _ => rfl
    rw [cleanupExpired, all, Nat.sub_self, Nat.sub_zero]
  | some now =>
    have same : (fun entry : ChatHistoryEntry => decide (now - historyLifetime ≤ entry.createdAt)) =
        isRecent (some now) := rfl
    rw [cleanupExpired]
    simp only [same]
    have short := length_filter_le (isRecent (some now)) host.history
    by_cases none' : host.history.length - (host.history.filter (isRecent (some now))).length = 0
    · have whole : host.history.filter (isRecent (some now)) = host.history :=
        (filter_sublist).eq_of_length (by omega)
      rw [if_pos none', none', whole, Nat.sub_zero]
    · rw [if_neg none']
      congr 1
      split_ifs <;> omega

/-- A load that reads all records installs them. -/
theorem load_whole (read : readHeader file = some (header, metadata, body))
    (whole : (readSections header metadata.grantCount (min header.preferenceCount maxPreferences) body).whole) :
    hostStateLoad palette now file .fresh = install palette now ⟨header, metadata,
      readSections header metadata.grantCount (min header.preferenceCount maxPreferences) body⟩ := by
  obtain ⟨-, historyWhole, length⟩ := whole_sections header metadata.grantCount body whole
  have loaded := loadRecords_eq palette header body
    (show (applyHeader header.version metadata .fresh).historyTotal = 0 from rfl) rfl rfl metadata.grantCount
    (min_le_right header.preferenceCount maxPreferences)
  rw [hostStateLoad_read palette now header metadata body read, loaded, finish]
  generalize readSections header metadata.grantCount (min header.preferenceCount maxPreferences) body = records at *
  have total : totalOf palette records = (kept palette records.history).length := by rw [totalOf, if_pos historyWhole]
  have all : records.preferences.take maxPreferences = records.preferences :=
    take_of_length_le (by rw [length]; exact min_le_right _ _)
  simp only [whole, if_true]
  rw [requested_eq, cleanupExpired_eq, install, total, all]
  have flag (has : Prop) [Decidable has] (raw : UInt8) :
      (if has then decide (raw ≠ 0) else false) = decide (has ∧ raw ≠ 0) := by
    by_cases here : has <;> simp [here]
  simp only [applyHeader, HostData.fresh, flag, HostData.mk.injEq, true_and, and_true]
  exact ⟨rfl, rfl, rfl⟩

theorem load_cut (read : readHeader file = some (header, metadata, body))
    (cut : (readSections header metadata.grantCount (min header.preferenceCount maxPreferences) body).whole = false) :
    let records := readSections header metadata.grantCount (min header.preferenceCount maxPreferences) body
    hostStateLoad palette now file .fresh =
      { applyHeader header.version metadata .fresh with
        historyStartIndex := totalOf palette records - (windowOf palette header.historyCount records).length
        historyTotal := totalOf palette records
        nextMessageId := max metadata.nextMessageId (totalOf palette records + 1)
        operatorGrants := grantsOf records.grants } := by
  intro records
  have loaded := loadRecords_eq palette header body
    (show (applyHeader header.version metadata .fresh).historyTotal = 0 from rfl) rfl rfl metadata.grantCount
    (min_le_right header.preferenceCount maxPreferences)
  rw [hostStateLoad_read palette now header metadata body read, loaded, finish]
  simp only [cut]
  rw [requested_eq, cleanupExpired_eq]
  rfl

end Outcome

section Loads

variable (palette : Palette) (now : Option Int)
variable {header : BaseHeader} {metadata : Metadata}

theorem cut_fresh_iff {body file : Bytes} (read : readHeader file = some (header, metadata, body))
    (cut : (readSections header metadata.grantCount (min header.preferenceCount maxPreferences) body).whole = false) :
    hostStateLoad palette now file .fresh = .fresh ↔ Traceless palette header metadata
      (readSections header metadata.grantCount (min header.preferenceCount maxPreferences) body) := by
  rw [load_cut palette now header metadata body read cut]
  generalize readSections header metadata.grantCount (min header.preferenceCount maxPreferences) body = records
  simp only [applyHeader, HostData.fresh, HostData.mk.injEq, true_and]
  constructor
  · rintro ⟨captcha, geo, -, total, next, grants⟩
    constructor
    case captcha =>
      intro has
      simpa [has] using captcha
    case geoLanguage =>
      intro has
      simpa [has] using geo
    case nextId => omega
    case noHistory =>
      intro whole
      rw [totalOf, if_pos whole] at total
      exact length_eq_zero_iff.mp total
    case noGrants => exact grants
  · rintro ⟨captcha, geo, next, history, grants⟩
    have total : totalOf palette records = 0 := by
      rw [totalOf]
      split_ifs with whole
      · rw [history whole]
        rfl
      · rfl
    rw [total]
    refine ⟨?_, ?_, by omega, rfl, by omega, grants⟩
    · split_ifs with has
      · simp [captcha has]
      · rfl
    · split_ifs with has
      · simp [geo has]
      · rfl

/-- Two complete readings install the same exactly when they have the same grants. -/
theorem install_clamped_iff {body : Bytes}
    (stored : (readSections header metadata.grantCount header.preferenceCount body).whole) :
    install palette now ⟨header, metadata,
        readSections header metadata.grantCount (min header.preferenceCount maxPreferences) body⟩ =
      install palette now ⟨header, metadata, readSections header metadata.grantCount header.preferenceCount body⟩ ↔
      grantsOf (readSections header metadata.grantCount (min header.preferenceCount maxPreferences) body).grants =
        grantsOf (readSections header metadata.grantCount header.preferenceCount body).grants := by
  obtain ⟨more, count⟩ := Nat.exists_eq_add_of_le (min_le_left header.preferenceCount maxPreferences)
  have sum :
      (readSections header metadata.grantCount (min header.preferenceCount maxPreferences + more) body).whole := by
    rw [← count]
    exact stored
  have front := preferences_clamped header metadata.grantCount body _ more sum
  obtain ⟨first, -, length⟩ := whole_sections header metadata.grantCount body
    (whole_clamped header metadata.grantCount body sum)
  obtain ⟨second, -, length'⟩ := whole_sections header metadata.grantCount body stored
  rw [← count] at front
  have history := first.trans second.symm
  generalize readSections header metadata.grantCount (min header.preferenceCount maxPreferences) body = clamped at *
  generalize readSections header metadata.grantCount header.preferenceCount body = whole at *
  have preferences : clamped.preferences.take maxPreferences = whole.preferences.take maxPreferences := by
    rw [← front, take_take]
    rcases le_total header.preferenceCount maxPreferences with few | many
    · rw [min_eq_left few, min_eq_right few, take_of_length_le length'.le,
        take_of_length_le (length'.le.trans few)]
    · rw [min_eq_right many, min_self]
  rw [install, install]
  simp only [history, preferences, HostData.mk.injEq, true_and]

theorem fresh_unclamped {body : Bytes}
    (whole : (readSections header metadata.grantCount (min header.preferenceCount maxPreferences) body).whole)
    (fresh : install palette now ⟨header, metadata, readSections header metadata.grantCount
      (min header.preferenceCount maxPreferences) body⟩ = .fresh) :
    min header.preferenceCount maxPreferences = header.preferenceCount := by
  obtain ⟨-, -, length⟩ := whole_sections header metadata.grantCount body whole
  have none' := congrArg (fun host => host.preferences.length) fresh
  simp only [install, HostData.fresh, length_map, length_take, length_nil] at none'
  have positive : 0 < maxPreferences := by decide
  omega

/-- From a fresh host a file is loaded as a whole or not at all exactly when it is one of the safe files. -/
theorem load_all_or_nothing (file : Bytes) : AllOrNothing palette now file ↔ SafeFile palette file := by
  rw [AllOrNothing, SafeFile, parseStateFile]
  cases read : readHeader file with
  | none => simp [hostStateLoad_unread palette now read]
  | some found =>
    obtain ⟨header, metadata, body⟩ := found
    dsimp only
    obtain ⟨more, count⟩ := Nat.exists_eq_add_of_le (min_le_left header.preferenceCount maxPreferences)
    cases clamped :
      (readSections header metadata.grantCount (min header.preferenceCount maxPreferences) body).whole with
    | true =>
      rw [load_whole palette now header metadata body read clamped]
      cases stored : (readSections header metadata.grantCount header.preferenceCount body).whole with
      | true =>
        simp only [if_true, Option.some.injEq, exists_eq_left', true_and]
        rw [install_clamped_iff palette now stored]
        constructor
        · rintro (same | fresh)
          · exact same
          · rw [fresh_unclamped palette now clamped fresh]
        · exact Or.inl
      | false =>
        simp only [if_true, if_false, reduceCtorEq, false_and, exists_false, false_or,
          iff_false]
        intro fresh
        rw [fresh_unclamped palette now clamped fresh, stored] at clamped
        cases clamped
    | false =>
      have cut : (readSections header metadata.grantCount header.preferenceCount body).whole ≠ true := by
        intro whole
        rw [count] at whole
        have less := whole_clamped header metadata.grantCount body whole
        rw [clamped] at less
        cases less
      rw [cut_fresh_iff palette now read clamped]
      simp [cut]

def plainPalette : Palette where
  lookupUserColor := fun _ => none
  lookupHighlight := fun _ => none
  themeUserColor := []
  themeHighlight := []
  defaultUserColorName := str "green"
  defaultUserHighlightName := str "default"

/-- A file of the present version that promises one preference, switches the captcha on, and ends. -/
def cutFile : Bytes :=
  [0x54, 0x43, 0x48, 0x53, 16, 0, 0, 0, 0, 0, 0, 0, 1, 0, 0, 0] ++ [0, 0, 0, 0, 0, 0, 0, 0, 1, 0, 0, 0, 0, 0, 0, 0] ++
    [1, 0, 0, 0, 0, 0, 0, 0]

/-- The captcha stays on although the file is cut. -/
theorem load_leaves_flag : ¬ ∀ (palette : Palette) (now : Option Int) (file : Bytes),
    AllOrNothing palette now file := by
  intro claimed
  rcases claimed plainPalette none cutFile with ⟨state, parsed, -⟩ | fresh
  · have cut : (parseStateFile cutFile).isSome = false := by decide +kernel
    rw [parsed] at cut
    cases cut
  · have flag : (hostStateLoad plainPalette none cutFile .fresh).captchaEnabled := by decide +kernel
    rw [fresh] at flag
    cases flag

end Loads

end SshChatter.HostState
