import SshChatter.UserData.Record

namespace SshChatter.UserData
open CString

/-- The file store under one root. A name stands for `NAME.dat`, for its backup `NAME.dat.bak` and for the
picture `profiles/NAME.dat`. -/
structure Store where
  records : Bytes → Option Record
  backups : Bytes → Option Record
  pictures : Bytes → Option Bytes

def Store.empty : Store := ⟨fun _ => none, fun _ => none, fun _ => none⟩

/-- The magic and the version that `user_data_load_raw_fd` accepts. -/
def isLoadable (record : Record) : Bool :=
  record.magic = userDataMagic ∧ 0 < record.version ∧ record.version ≤ userDataVersion

def loadRaw (store : Store) (name : Bytes) : Option Record :=
  match store.records name with
  | none => none
  | some record =>
    if isLoadable record then some record
    else (store.backups name).filter isLoadable

/-- What the search through the variants has seen. A wide record ends it. -/
structure Scan where
  ipWide : Option Nat
  ipMatch : Option Nat
  available : Option Nat

/-- One turn of the loop of `user_data_path_for`. -/
def scanVariant (store : Store) (username ip base : Bytes) (scan : Scan) (index : Nat) : Scan :=
  if scan.ipWide.isSome then scan
  else if (store.records (variantName base index)).isSome then
    match loadRaw store (variantName base index) with
    | none => scan
    | some existing =>
      if existing.username.text ≠ username then scan
      else if isIpWide existing then { scan with ipWide := some index }
      else if existing.lastIp.text = ip ∧ scan.ipMatch = none then { scan with ipMatch := some index }
      else scan
  else if scan.available = none then { scan with available := some index }
  else scan

def scanVariants (store : Store) (username ip base : Bytes) : Scan :=
  (List.range variantLimit).foldl (scanVariant store username ip base) ⟨none, none, none⟩

/-- The record under the plain name has a password or is wide, so it is taken without a look at its name. -/
def isClaimed (store : Store) (base : Bytes) : Bool :=
  (loadRaw store base).any fun existing => hasPassword existing || isIpWide existing

/-- This is `user_data_path_for`. The empty address also stands for a null pointer. -/
def pathFor (store : Store) (username ip : Bytes) (createIfMissing : Bool) : Option Bytes :=
  match sanitizeUsername username with
  | none => none
  | some base =>
    if isClaimed store base then some base
    else if ip = [] then some base
    else
      let scan := scanVariants store username ip base
      match scan.ipWide, scan.ipMatch with
      | some index, _ => some (variantName base index)
      | none, some index => some (variantName base index)
      | none, none => if createIfMissing then scan.available.map (variantName base) else none

def profilePictureOverlay (store : Store) (username : Bytes) (record : Record) : Record :=
  match (sanitizeUsername username).bind store.pictures with
  | none => record
  | some picture =>
    { record with profilePicture := .print (stripColumnReset ((picture.take 20479).takeWhile (· ≠ 0))) }

/-- The record that the load reads, before it is put under the name of the caller. -/
def readFor (store : Store) (username ip : Bytes) : Option Record :=
  (pathFor store username ip false).bind (loadRaw store)

def load (store : Store) (username ip : Bytes) : Option Record :=
  (readFor store username ip).map fun raw =>
    let record := profilePictureOverlay store username (normalizeRecord raw username)
    let record := if raw.version ≠ userDataVersion then { record with version := userDataVersion } else record
    if ip ≠ [] then { record with lastIp := .print ip } else record

def profilePictureStore (store : Store) (base : Bytes) (record : Record) : Store :=
  { store with
    pictures := Function.update store.pictures base
      (if record.profilePicture.text = [] then none else some record.profilePicture.text) }

def removeIpVariant (username base keepName : Bytes) (store : Store) (index : Nat) : Store :=
  let name := variantName base index
  if name = keepName then store
  else if (loadRaw store name).any fun existing => existing.username.text = username then
    { store with records := Function.update store.records name none }
  else store

def removeIpVariants (store : Store) (username base keepName : Bytes) : Store :=
  (List.range variantLimit).foldl (removeIpVariant username base keepName) store

def effectiveIp (record : Record) (ip : Bytes) : Bytes := if ip ≠ [] then ip else record.lastIp.text

/-- The record as it is saved, still with its picture. -/
def normalized (record : Record) (ip : Bytes) : Record :=
  let clean := { normalizeRecord record record.username.text with
    magic := userDataMagic, version := userDataVersion }
  if effectiveIp record ip ≠ [] then { clean with lastIp := .print (effectiveIp record ip) } else clean

def writeRecord (store : Store) (name : Bytes) (record : Record) : Store :=
  { store with
    backups := if (store.records name).isSome then Function.update store.backups name (store.records name)
      else store.backups
    records := Function.update store.records name (some { record with profilePicture := .zero }) }

def savePath (store : Store) (record : Record) (ip : Bytes) : Option Bytes :=
  if hasPassword record || isIpWide record then sanitizeUsername record.username.text
  else pathFor store record.username.text (effectiveIp record ip) true

def save (store : Store) (record : Record) (ip : Bytes) : Bool × Store :=
  match savePath store record ip, sanitizeUsername record.username.text with
  | some name, some base =>
    let written := writeRecord store name (normalized record ip)
    let pictured := profilePictureStore written base (normalized record ip)
    (true, if isIpWide record then removeIpVariants pictured record.username.text base name else pictured)
  | _, _ => (false, store)

inductive Saved : Store → Prop
  | empty : Saved .empty
  | save {store : Store} (record : Record) (ip : Bytes) : Saved store → Saved (save store record ip).2

/-- A save under the first name never changes a load under the second, and a load under the second never
reads a record that was saved under the first. -/
def Independent (username username' : CBuffer 256) : Prop :=
  ∀ store, Saved store →
    (∀ record ip ip', record.username = username →
      load (save store record ip).2 username'.text ip' = load store username'.text ip') ∧
    (∀ ip' raw, readFor store username'.text ip' = some raw → raw.username ≠ username)

end SshChatter.UserData
