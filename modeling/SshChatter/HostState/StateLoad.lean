import SshChatter.HostState.StateFile

namespace SshChatter.HostState
open CString RecordStream List

def historyCacheLimit : Nat := 32768
def maxPreferences : Nat := 1024
def maxGrants : Nat := 128

/-- The parts of `host_t` that a load touches. -/
structure HostData where
  captchaEnabled : Bool
  geoLanguageEnabled : Bool
  history : List ChatHistoryEntry
  historyStartIndex : Nat
  historyTotal : Nat
  nextMessageId : Nat
  preferences : List UserPreference
  operatorGrants : List Bytes

def HostData.fresh : HostData where
  captchaEnabled := false
  geoLanguageEnabled := false
  history := []
  historyStartIndex := 0
  historyTotal := 0
  nextMessageId := 1
  preferences := []
  operatorGrants := []

/-- The first record that is kept in the cache. -/
def keepStart (historyCount : Nat) : Nat := historyCount - historyCacheLimit

/-- The variables of the loop of `host_state_load_history_entries`. -/
structure HistoryLoop where
  window : List ChatHistoryEntry
  startIndex : Nat
  totalKept : Nat

def historyRecord (palette : Palette) (keepStart index : Nat) (entry : ChatHistoryEntry) (loop : HistoryLoop) :
    HistoryLoop :=
  match normalizeEntry palette entry with
  | none => loop
  | some entry =>
    if loop.window.length = historyCacheLimit then
      ⟨loop.window.drop 1 ++ [entry], loop.startIndex + 1, loop.totalKept + 1⟩
    else if keepStart ≤ index then ⟨loop.window ++ [entry], loop.startIndex, loop.totalKept + 1⟩
    else { loop with totalKept := loop.totalKept + 1 }

def loadHistoryEntries (palette : Palette) (version historyCount : Nat) (file : Bytes) (host : HostData) :
    HostData × Option Bytes :=
  let result := readLoop (readHistoryEntry version) (historyRecord palette (keepStart historyCount)) historyCount 0 file
    ⟨[], 0, 0⟩
  match result.2 with
  | none => ({ host with history := result.1.window, historyStartIndex := result.1.startIndex }, none)
  | some rest =>
    ({ host with
        history := result.1.window
        historyStartIndex := result.1.totalKept - result.1.window.length
        historyTotal := result.1.totalKept }, some rest)

def applyPreferenceEntry (preferences : List UserPreference) (record : RecordLayout.Memory) : List UserPreference :=
  if maxPreferences ≤ preferences.length then preferences else preferences ++ [decodePreference record]

def loadPreferences (version preferenceCount : Nat) (file : Bytes) (host : HostData) : HostData × Option Bytes :=
  let result := readLoop (readPreferenceEntry version)
    (fun _ record preferences => applyPreferenceEntry preferences record) preferenceCount 0 file []
  ({ host with preferences := result.1 }, result.2)

/-- One grant. Empty addresses and those without a place are left out. -/
def addGrant (grants : List Bytes) (ip : Bytes) : List Bytes :=
  if ip = [] then grants else if maxGrants ≤ grants.length then grants else grants ++ [ip]

def loadGrants (grantCount : Nat) (file : Bytes) (host : HostData) : HostData × Option Bytes :=
  let result := readLoop readGrantEntry (fun _ ip grants => addGrant grants ip) grantCount 0 file []
  ({ host with operatorGrants := result.1 }, result.2)

def resetLoadedData (host : HostData) : HostData := { host with history := [], preferences := [] }

def normalizeNextMessageId (requested historyTotal : Nat) : Nat :=
  if requested < historyTotal + 1 then historyTotal + 1 else requested

/-- The age in seconds at which `host_history_cleanup_expired` removes a message. -/
def historyLifetime : Int := 3 * 24 * 60 * 60

/-- This is `host_history_cleanup_expired`. Nothing is done without a clock. -/
def cleanupExpired (now : Option Int) (host : HostData) : HostData :=
  match now with
  | none => host
  | some now =>
    let kept := host.history.filter fun entry => now - historyLifetime ≤ entry.createdAt
    let removed := host.history.length - kept.length
    if removed = 0 then host
    else { host with
      history := kept
      historyTotal := if removed < host.historyTotal then host.historyTotal - removed else 0 }

def applyHeader (version : Nat) (metadata : Metadata) (host : HostData) : HostData :=
  { host with
    captchaEnabled := if 8 ≤ version then metadata.captchaEnabledRaw ≠ 0 else host.captchaEnabled
    geoLanguageEnabled := if 13 ≤ version then metadata.geoLanguageEnabledRaw ≠ 0 else host.geoLanguageEnabled }

def loadRecords (palette : Palette) (header : BaseHeader) (grantCount preferenceCount : Nat) (file : Bytes)
    (host : HostData) : HostData × Bool :=
  match loadHistoryEntries palette header.version header.historyCount file host with
  | (host, none) => (host, false)
  | (host, some file) =>
    match loadPreferences header.version preferenceCount file host with
    | (host, none) => (host, false)
    | (host, some file) => ((loadGrants grantCount file host).1, (loadGrants grantCount file host).2.isSome)

def hostStateLoad (palette : Palette) (now : Option Int) (file : Bytes) (host : HostData) : HostData :=
  match readBaseHeader file with
  | none => host
  | some (header, file) =>
    match readMetadata header.version file with
    | none => host
    | some (metadata, file) =>
      let preferenceCount := min header.preferenceCount maxPreferences
      let loaded := loadRecords palette header metadata.grantCount preferenceCount file
        (applyHeader header.version metadata host)
      let host := if loaded.2 then loaded.1 else resetLoadedData loaded.1
      let requested := if metadata.nextMessageId = 0 then host.historyTotal + 1 else metadata.nextMessageId
      cleanupExpired now { host with nextMessageId := normalizeNextMessageId requested host.historyTotal }

section Stages

variable (palette : Palette)

def kept (entries : List ChatHistoryEntry) : List ChatHistoryEntry := entries.filterMap (normalizeEntry palette)

/-- The loop keeps the last records in the cache and counts all of them. The cache is never full in between. -/
theorem handleAll_history {start : Nat} (entries : List ChatHistoryEntry) (index : Nat) (loop : HistoryLoop)
    (room : loop.window.length ≤ index - start) (bound : index + entries.length ≤ start + historyCacheLimit) :
    handleAll (historyRecord palette start) index entries loop =
      ⟨loop.window ++ kept palette (entries.drop (start - index)), loop.startIndex,
        loop.totalKept + (kept palette entries).length⟩ := by
  induction entries generalizing index loop with
  | nil => simp [handleAll, kept]
  | cons entry entries ih =>
    rw [length_cons] at bound
    have positive : 0 < historyCacheLimit := by decide
    have notFull : loop.window.length ≠ historyCacheLimit := by omega
    rw [handleAll, historyRecord]
    by_cases early : index < start
    · have dropped : (entry :: entries).drop (start - index) = entries.drop (start - (index + 1)) := by
        rw [show start - index = start - (index + 1) + 1 by omega, drop_succ_cons]
      rw [dropped]
      cases content : normalizeEntry palette entry with
      | none =>
        rw [ih (index + 1) loop (by omega) (by omega), kept, kept, kept, filterMap_cons_none content]
      | some =>
        simp only [if_neg notFull, if_neg (not_le.mpr early)]
        rw [ih (index + 1) _ (by show loop.window.length ≤ _; omega) (by omega), kept, kept, kept,
          filterMap_cons_some content, length_cons, add_assoc, add_comm 1]
    · have whole : start - index = 0 := by omega
      have whole' : start - (index + 1) = 0 := by omega
      rw [whole, drop_zero]
      cases content : normalizeEntry palette entry with
      | none =>
        rw [ih (index + 1) loop (by omega) (by omega), whole', drop_zero, kept, kept,
          filterMap_cons_none content]
      | some =>
        simp only [if_neg notFull, if_pos (not_lt.mp early)]
        rw [ih (index + 1) _ (by rw [length_append, length_singleton]; omega) (by omega), whole',
          drop_zero, kept, kept, filterMap_cons_some content, length_cons, append_assoc,
          singleton_append, add_assoc, add_comm 1]

theorem handleAll_preferences (records : List RecordLayout.Memory) (index : Nat) (preferences : List UserPreference)
    (room : preferences.length + records.length ≤ maxPreferences) :
    handleAll (fun _ record preferences => applyPreferenceEntry preferences record) index records preferences =
      preferences ++ records.map decodePreference := by
  induction records generalizing index preferences with
  | nil => simp [handleAll]
  | cons record records ih =>
    rw [length_cons] at room
    rw [handleAll, applyPreferenceEntry, if_neg (by omega), ih _ _ (by simp; omega), map_cons, append_assoc,
      singleton_append]

/-- The grants with an address, up to the limit of the table. -/
theorem handleAll_grants (ips : List Bytes) (index : Nat) (grants : List Bytes) (room : grants.length ≤ maxGrants) :
    handleAll (fun _ ip grants => addGrant grants ip) index ips grants =
      (grants ++ ips.filter (fun ip => ip ≠ [])).take maxGrants := by
  induction ips generalizing index grants with
  | nil =>
    rw [handleAll, filter_nil, append_nil, take_of_length_le room]
  | cons ip ips ih =>
    rw [handleAll, addGrant]
    by_cases empty : ip = []
    · rw [if_pos empty, ih _ _ room, filter_cons_of_neg (by simpa using empty)]
    · rw [if_neg empty, filter_cons_of_pos (by simpa using empty)]
      by_cases full : maxGrants ≤ grants.length
      · rw [if_pos full, ih _ _ room, take_append_of_le_length full, take_append_of_le_length full]
      · rw [if_neg full, ih _ _ (by rw [length_append, length_singleton]; omega), append_assoc,
          singleton_append]

theorem historyLoop_eq (version historyCount : Nat) (file : Bytes) :
    handleAll (historyRecord palette (keepStart historyCount)) 0
        (readUpTo (readHistoryEntry version) historyCount file).1 ⟨[], 0, 0⟩ =
      ⟨kept palette ((readUpTo (readHistoryEntry version) historyCount file).1.drop (keepStart historyCount)), 0,
        (kept palette (readUpTo (readHistoryEntry version) historyCount file).1).length⟩ := by
  have short : (readUpTo (readHistoryEntry version) historyCount file).1.length ≤ historyCount :=
    (readUpTo_length historyCount file).1
  have fits : 0 + (readUpTo (readHistoryEntry version) historyCount file).1.length ≤
      keepStart historyCount + historyCacheLimit := by
    rw [keepStart]
    omega
  rw [handleAll_history palette _ 0 _ (Nat.zero_le _) fits, nil_append, Nat.sub_zero, zero_add]

theorem loadHistoryEntries_eq (version historyCount : Nat) (file : Bytes) (host : HostData) :
    loadHistoryEntries palette version historyCount file host =
      let records := readUpTo (readHistoryEntry version) historyCount file
      let window := kept palette (records.1.drop (keepStart historyCount))
      let total := (kept palette records.1).length
      (match records.2 with
        | none => { host with history := window, historyStartIndex := 0 }
        | some _ =>
          { host with history := window, historyStartIndex := total - window.length, historyTotal := total },
        records.2) := by
  rw [loadHistoryEntries, readLoop_eq, historyLoop_eq]
  dsimp only
  cases (readUpTo (readHistoryEntry version) historyCount file).2 with
  | none => rfl
  | some => rfl

theorem loadPreferences_eq {version preferenceCount : Nat} (bound : preferenceCount ≤ maxPreferences) (file : Bytes)
    (host : HostData) :
    loadPreferences version preferenceCount file host =
      let records := readUpTo (readPreferenceEntry version) preferenceCount file
      ({ host with preferences := records.1.map decodePreference }, records.2) := by
  have short : (readUpTo (readPreferenceEntry version) preferenceCount file).1.length ≤ preferenceCount :=
    (readUpTo_length preferenceCount file).1
  have loop := handleAll_preferences (readUpTo (readPreferenceEntry version) preferenceCount file).1 0 []
    (by rw [length_nil]; omega)
  rw [loadPreferences, readLoop_eq, loop]
  rfl

def grantsOf (ips : List Bytes) : List Bytes := (ips.filter fun ip => ip ≠ []).take maxGrants

theorem loadGrants_eq (grantCount : Nat) (file : Bytes) (host : HostData) :
    loadGrants grantCount file host =
      let records := readUpTo readGrantEntry grantCount file
      ({ host with operatorGrants := grantsOf records.1 }, records.2) := by
  rw [loadGrants, readLoop_eq, handleAll_grants _ _ _ (Nat.zero_le _)]
  rfl

end Stages

end SshChatter.HostState
