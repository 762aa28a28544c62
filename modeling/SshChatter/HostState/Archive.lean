import SshChatter.HostState.HistoryRecord
import SshChatter.HostState.StateLoad
import SshChatter.Lib.CivilDate
import SshChatter.Lib.EventRun

namespace SshChatter.HostState
open CString RecordLayout RecordStream CivilDate

/-- What `host_state_header_t` is filled with before it is written. -/
structure StateHeader where
  historyCount : Nat
  preferenceCount : Nat
  grantCount : Nat
  nextMessageId : Nat
  captchaEnabled : Bool
  geoLanguageEnabled : Bool

def StateHeader.bytes (header : StateHeader) : Bytes :=
  (fixed 4 hostStateMagic ++ fixed 4 hostStateVersion ++ fixed 4 (header.historyCount % 2 ^ 32) ++
      fixed 4 (header.preferenceCount % 2 ^ 32)) ++
    (fixed 4 0 ++ fixed 4 (header.grantCount % 2 ^ 32) ++ fixed 8 (header.nextMessageId % 2 ^ 64)) ++
    (flagByte header.captchaEnabled :: flagByte header.geoLanguageEnabled :: List.replicate 6 0)

def streamOpen (file : Bytes) : Option (Nat × Nat × Bytes) :=
  match fread 16 file with
  | none => none
  | some (base, rest) =>
    if unsigned (base.take 4) ≠ hostStateMagic then none
    else if unsigned ((base.drop 4).take 4) ≠ hostStateVersion then none
    else
      match fread 16 rest with
      | none => none
      | some (_, rest) =>
        match fread 8 rest with
        | none => none
        | some (_, rest) => some (hostStateVersion, unsigned ((base.drop 8).take 4), rest)

def pathMax : Nat := 4096

/-- The conversions `%02d` and `%04d`. -/
def zeroPadded (width : Nat) (value : Int) : Bytes :=
  let digits := decimal value.natAbs
  if value < 0 then byte '-' :: (List.replicate (width - 1 - digits.length) 48 ++ digits)
  else List.replicate (width - digits.length) 48 ++ digits

def dateText (year month day : Int) : Bytes :=
  zeroPadded 4 year ++ (byte '-' :: (zeroPadded 2 month ++ (byte '-' :: zeroPadded 2 day)))

/-- The date of a time, if `gmtime_r` has one: the years since 1900 are an `int`. -/
def gmtime (time : Int) : Option Date :=
  let date := ofDayNumber (time / 86400)
  if -2 ^ 31 ≤ date.year - 1900 ∧ date.year - 1900 < 2 ^ 31 then some date else none

/-- The time of a year, a month and a day, where `timegm` carries months and days that are out of range. -/
def timegm (year month day : Int) : Int :=
  let carried := year + (month - 1) / 12
  (daysBeforeYear carried + daysBeforeMonth (isLeap carried) ((month - 1) % 12).toNat + day - 1 - epoch) * 86400

structure ArchiveSettings where
  archiveDir : Option Bytes
  stateDir : Option Bytes
  stateFilePath : Bytes

/-- The directory of the archive in `host_archive_resolve_path`. -/
def ArchiveSettings.baseDir (settings : ArchiveSettings) : Bytes :=
  let chosen := match settings.archiveDir with
    | some dir => if dir = [] then settings.stateDir else some dir
    | none => settings.stateDir
  match chosen with
  | some (c :: dir) => (c :: dir).take (pathMax - 1)
  | _ =>
    if byte '/' ∈ settings.stateFilePath then
      ((settings.stateFilePath.reverse.dropWhile (· ≠ byte '/')).drop 1).reverse.take (pathMax - 1)
    else []

def resolvePath (settings : ArchiveSettings) (createdAt : Int) : Option Bytes :=
  let name (year month day : Int) : Bytes := str "chat_archive_" ++ (dateText year month day ++ str ".dat")
  let file := match gmtime createdAt with
    | some date => name date.year (date.month + 1) (date.day + 1)
    | none => name 1900 1 0
  let path := if settings.baseDir = [] then file else settings.baseDir ++ (byte '/' :: file)
  if path.length < pathMax then some path else none

abbrev Files : Type := Bytes → Option Bytes

def overwrite (file : Bytes) (offset : Nat) (bytes : Bytes) : Bytes :=
  file.take offset ++ (bytes ++ file.drop (offset + bytes.length))

def archiveHeader : StateHeader := ⟨0, 0, 0, 1, false, false⟩

/-- The count that `host_archive_append_entry` takes from the header of a present file. -/
def presentCount (file : Bytes) : Nat :=
  match fread 16 file with
  | none => 0
  | some (base, _) =>
    if unsigned (base.take 4) = hostStateMagic ∧ unsigned ((base.drop 4).take 4) = hostStateVersion then
      unsigned ((base.drop 8).take 4)
    else 0

/-- The content of an archive file after `host_archive_append_entry`. -/
def appendRecord (present : Option Bytes) (entry : ChatHistoryEntry) : Bytes :=
  let count := match present with
    | some file => presentCount file
    | none => 0
  let grown := (present.getD archiveHeader.bytes) ++ writeHistoryEntry entry
  overwrite grown 8 (fixed 4 ((count + 1) % 2 ^ 32))

def archiveAppendEntry (settings : ArchiveSettings) (enabled : Bool) (files : Files) (entry : ChatHistoryEntry) :
    Files × Bool :=
  if !enabled then (files, true)
  else match resolvePath settings entry.createdAt with
    | none => (files, false)
    | some path => (Function.update files path (some (appendRecord (files path) entry)), true)

/-- The conversion `%d` of `sscanf`. -/
def scanInt (text : Bytes) : Option (Int × Bytes) :=
  let text := text.dropWhile isSpace
  let signed := text.head? = some (byte '-') ∨ text.head? = some (byte '+')
  let body := if signed then text.drop 1 else text
  let digits := body.takeWhile isDigit
  if digits = [] then none
  else some (if text.head? = some (byte '-') then -(digitsValue digits : Int) else digitsValue digits,
    body.dropWhile isDigit)

/-- A dash of the format of `sscanf`. -/
def scanDash (text : Bytes) : Option Bytes :=
  match text with
  | c :: rest => if c = byte '-' then some rest else none
  | [] => none

/-- The scan of `%d-%d-%d`. -/
def scanDate (text : Bytes) : Option (Int × Int × Int) := do
  let (year, text) ← scanInt text
  let (month, text) ← scanInt (← scanDash text)
  let (day, _) ← scanInt (← scanDash text)
  return (year, month, day)

def archiveReadDate (settings : ArchiveSettings) (files : Files) (dateStr : Bytes) : List ChatHistoryEntry :=
  match scanDate dateStr with
  | none => []
  | some (year, month, day) =>
    let time := timegm year month day
    if time = -1 then []
    else match (resolvePath settings time).bind files with
      | none => []
      | some file =>
        match streamOpen file with
        | none => []
        | some (version, count, rest) => (readUpTo (readHistoryEntry version) count rest).1

def storeEntry {Entry : Type} (cache : List Entry) (entry : Entry) : List Entry × Option Entry :=
  if cache.length < historyCacheLimit then (cache ++ [entry], none)
  else match cache with
    | evicted :: rest => (rest ++ [entry], some evicted)
    | [] => ([entry], none)

abbrev TypedEntry : Type := { entry : ChatHistoryEntry // entry.Typed }

structure ArchiveHost where
  cache : List TypedEntry
  files : Files

/-- An append to the history, or a new start of the host with some history. -/
inductive ArchiveEvent where
  | append (entry : TypedEntry)
  | restart (cache : List TypedEntry)

def archiveStep (settings : ArchiveSettings) (host : ArchiveHost) : ArchiveEvent → ArchiveHost
  | .append entry =>
    let stored := storeEntry host.cache entry
    { cache := stored.1
      files := match stored.2 with
        | some evicted => (archiveAppendEntry settings true host.files evicted).1
        | none => host.files }
  | .restart cache => { host with cache := cache }

def evictedBy (host : ArchiveHost) : ArchiveEvent → List TypedEntry
  | .append entry => (storeEntry host.cache entry).2.toList
  | .restart _ => []

end SshChatter.HostState
