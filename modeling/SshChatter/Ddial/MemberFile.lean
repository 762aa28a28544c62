import SshChatter.Lib.FieldRecord

namespace SshChatter.Ddial
open CString FieldRecord

/-- The tabulator ends a field. -/
def tab : UInt8 := 9

/-- The loop of `ddial_member_escape` for one character. -/
def escapeChar (c : UInt8) : Bytes :=
  if c = byte '\\' then str "\\\\"
  else if c = tab then str "\\t"
  else if c = 10 then str "\\n"
  else if c = 13 then str "\\r"
  else [c]

def memberEscape (value : Bytes) : Bytes := value.flatMap escapeChar

def unescapeChar (c : UInt8) : UInt8 :=
  if c = byte 't' then tab else if c = byte 'n' then 10 else if c = byte 'r' then 13 else c

def memberUnescape : Nat → Bytes → Bytes
  | 0, _ => []
  | _ + 1, [] => []
  | _ + 1, [c] => [c]
  | room + 1, c :: next :: rest =>
    if c = byte '\\' then unescapeChar next :: memberUnescape room rest
    else c :: memberUnescape room (next :: rest)

/-- The buffer of the readers has `DDIAL_MV_TEXT_LIMIT * 2` bytes. -/
def unescapeRoom : Nat := 1023

/-- The digits of `ddial_member_hex`. -/
def hexDigits : Bytes := str "0123456789abcdef"

def memberHex (bytes : Bytes) : Bytes :=
  bytes.flatMap fun b => [hexDigits.getD (b.toNat / 16) 0, hexDigits.getD (b.toNat % 16) 0]

def hexValue (c : UInt8) : Option Nat :=
  if 48 ≤ c ∧ c ≤ 57 then some (c.toNat - 48)
  else if 97 ≤ c ∧ c ≤ 102 then some (c.toNat - 87)
  else if 65 ≤ c ∧ c ≤ 70 then some (c.toNat - 55)
  else none

/-- This is `sscanf(text, "%2x", &value)`, with the value cast to a byte. -/
def scanHex (text : Bytes) : Option UInt8 :=
  match (text.dropWhile isSpace).take 2 with
  | [a, b] =>
    if a = byte '-' then (hexValue b).map fun value => UInt8.ofNat (256 - value)
    else if a = byte '+' then (hexValue b).map UInt8.ofNat
    else if a = byte '0' ∧ (b = byte 'x' ∨ b = byte 'X') then none
    else (hexValue a).map fun high =>
      match hexValue b with
      | some low => UInt8.ofNat (16 * high + low)
      | none => UInt8.ofNat high
  | [a] => (hexValue a).map UInt8.ofNat
  | _ => none

/-- The loop of `ddial_member_unhex` over a cleared array. -/
def unhexLoop : Nat → Bytes → Bytes
  | 0, _ => []
  | len + 1, a :: b :: rest => (scanHex (a :: b :: rest)).getD 0 :: unhexLoop len rest
  | len + 1, _ => List.replicate (len + 1) 0

theorem unhexLoop_length (len : Nat) (text : Bytes) : (unhexLoop len text).length = len := by
  fun_induction unhexLoop len text with
  | case1 => rfl
  | case2 len a b rest ih => rw [List.length_cons, ih]
  | case3 => exact List.length_replicate

/-- An array of bytes. -/
structure Octets (len : Nat) where
  bytes : Bytes
  length : bytes.length = len

theorem Octets.doubled_length (octets : Octets 16) : (octets.bytes ++ octets.bytes).length = 32 := by
  rw [List.length_append, octets.length]

def memberUnhex (len : Nat) (text : Bytes) : Octets len := ⟨unhexLoop len text, unhexLoop_length len text⟩

/-- A cleared array. -/
def Octets.zero (len : Nat) : Octets len := ⟨List.replicate len 0, List.length_replicate⟩

/-- This is `ddial_member_t`. -/
structure Member where
  number : UInt32
  handle : CText 31
  salt : Octets 16
  hash : Octets 32
  cosysop : Bool
  handleColor : CText 159
  msgColor : CText 15
  prefixText : CText 47
  postfixText : CText 47
  status : CText 95
  profile : CText 511
  bday : CText 10
  bdayCountdown : Bool
  box : CText 511
  boxRotate : Bool
  savedHandles : Fin 9 → CText 31
  font : CText 47
  beepOn : Bool
  beepVolume : UInt8
  beepEvents : UInt8
  baud : UInt16
  badgesOn : Bool
  repliesOn : Bool
  autoSlash : Bool
  voiceOn : Bool
  notifyOn : Bool
  logins : UInt32
  messages : UInt32
  created : Int
  lastSeen : Int

/-- This is `ddial_mail_t`. -/
structure Mail where
  id : UInt32
  toNumber : UInt32
  fromNumber : UInt32
  fromHandle : CText 31
  sent : Int
  offline : Bool
  text : CText 511

def Member.zero : Member :=
  ⟨0, .zero, .zero 16, .zero 32, false, .zero, .zero, .zero, .zero, .zero, .zero, .zero, false, .zero, false,
    fun _ => .zero, .zero, false, 0, 0, 0, false, false, false, false, false, 0, 0, 0, 0⟩

def Mail.zero : Mail := ⟨0, 0, 0, .zero, 0, false, .zero⟩

section Fields

variable {Record : Type}

def atoi (text : Bytes) : Int := (atol text).bmod (2 ^ 32)

def textField (key : String) {room : Nat} (get : Record → CText room) (set : CText room → Record → Record) :
    NamedField Record :=
  ⟨str key, fun record => some (get record).text, fun value => set (.print value)⟩

/-- An array is written with hexadecimal digits. -/
def hexField (key : String) {len : Nat} (get : Record → Octets len) (set : Octets len → Record → Record) :
    NamedField Record :=
  ⟨str key, fun record => some (memberHex (get record).bytes), fun value => set (memberUnhex len value)⟩

def flagField (key : String) (get : Record → Bool) (set : Bool → Record → Record) : NamedField Record :=
  ⟨str key, fun record => some (decimal (if get record then 1 else 0)), fun value => set (atoi value ≠ 0)⟩

def byteField (key : String) (get : Record → UInt8) (set : UInt8 → Record → Record) : NamedField Record :=
  ⟨str key, fun record => some (decimal (get record).toNat), fun value => set (.ofNat (atoi value % 256).toNat)⟩

/-- A rate is read by `atoi`. -/
def wordField (key : String) (get : Record → UInt16) (set : UInt16 → Record → Record) : NamedField Record :=
  ⟨str key, fun record => some (decimal (get record).toNat), fun value => set (.ofNat (atoi value % 65536).toNat)⟩

def numberField (key : String) (get : Record → UInt32) (set : UInt32 → Record → Record) : NamedField Record :=
  ⟨str key, fun record => some (decimal (get record).toNat), fun value => set (.ofNat ((strtoulField value).getD 0))⟩

/-- A time is written without sign and read by `strtoll`. -/
def timeField (key : String) (get : Record → Int) (set : Int → Record → Record) : NamedField Record :=
  ⟨str key, fun record => some (decimal (get record % 2 ^ 64).toNat), fun value => set (atol value)⟩

end Fields

def savedField (index : Fin 9) : NamedField Member :=
  ⟨[byte 'h', 49 + UInt8.ofNat index.val],
    fun m => if (m.savedHandles index).text = [] then none else some (m.savedHandles index).text,
    fun value m => { m with savedHandles := Function.update m.savedHandles index (.print value) }⟩

/-- The fields in the order of `ddial_members_save_locked` and of the comparisons in `ddial_member_field`. -/
def memberTable : List (NamedField Member) :=
  [numberField "no" Member.number fun v m => { m with number := v },
    textField "handle" Member.handle fun v m => { m with handle := v },
    hexField "salt" Member.salt fun v m => { m with salt := v },
    hexField "hash" Member.hash fun v m => { m with hash := v },
    flagField "cosysop" Member.cosysop fun v m => { m with cosysop := v },
    textField "hcolor" Member.handleColor fun v m => { m with handleColor := v },
    textField "mcolor" Member.msgColor fun v m => { m with msgColor := v },
    textField "pre" Member.prefixText fun v m => { m with prefixText := v },
    textField "post" Member.postfixText fun v m => { m with postfixText := v },
    textField "status" Member.status fun v m => { m with status := v },
    textField "profile" Member.profile fun v m => { m with profile := v },
    textField "bday" Member.bday fun v m => { m with bday := v },
    flagField "bdaycd" Member.bdayCountdown fun v m => { m with bdayCountdown := v },
    textField "box" Member.box fun v m => { m with box := v },
    flagField "boxrot" Member.boxRotate fun v m => { m with boxRotate := v }] ++
  (List.finRange 9).map savedField ++
  [textField "font" Member.font fun v m => { m with font := v },
    flagField "beep" Member.beepOn fun v m => { m with beepOn := v },
    byteField "beepvol" Member.beepVolume fun v m => { m with beepVolume := v },
    byteField "beepev" Member.beepEvents fun v m => { m with beepEvents := v },
    wordField "baud" Member.baud fun v m => { m with baud := v },
    flagField "badges" Member.badgesOn fun v m => { m with badgesOn := v },
    flagField "replies" Member.repliesOn fun v m => { m with repliesOn := v },
    flagField "autoslash" Member.autoSlash fun v m => { m with autoSlash := v },
    flagField "voice" Member.voiceOn fun v m => { m with voiceOn := v },
    flagField "notify" Member.notifyOn fun v m => { m with notifyOn := v },
    numberField "logins" Member.logins fun v m => { m with logins := v },
    numberField "messages" Member.messages fun v m => { m with messages := v },
    timeField "created" Member.created fun v m => { m with created := v },
    timeField "seen" Member.lastSeen fun v m => { m with lastSeen := v }]

/-- The fields in the order of `ddial_mail_save_locked` and of the comparisons in `ddial_mail_field`. -/
def mailTable : List (NamedField Mail) :=
  [numberField "id" Mail.id fun v m => { m with id := v },
    numberField "to" Mail.toNumber fun v m => { m with toNumber := v },
    numberField "from" Mail.fromNumber fun v m => { m with fromNumber := v },
    textField "fromh" Mail.fromHandle fun v m => { m with fromHandle := v },
    timeField "sent" Mail.sent fun v m => { m with sent := v },
    flagField "offline" Mail.offline fun v m => { m with offline := v },
    textField "text" Mail.text fun v m => { m with text := v }]

section Files

variable {Record : Type}

def recordFields (table : List (NamedField Record)) (record : Record) : Bytes :=
  printFields tab (byte '=') memberEscape table record

def saveRecords (table : List (NamedField Record)) (records : List Record) : Bytes :=
  records.flatMap fun record => recordFields table record ++ [10]

/-- The buffer of `fgets`. -/
def lineSize : Nat := 8192

def parseRecord (table : List (NamedField Record)) (zero : Record) (line : Bytes) : Record :=
  parseFields tab (byte '=') (memberUnescape unescapeRoom) table
    ((line.takeWhile (· ≠ 0)).takeWhile fun c => c ≠ 13 ∧ c ≠ 10) zero

def fileLines (file : Bytes) : List Bytes := fgetsLines lineSize file.length file

end Files

def memberMax : Nat := 1024

def mailMax : Nat := 1024

structure MemberStore where
  members : List Member
  mails : List Mail
  nextId : UInt32

def MemberStore.empty : MemberStore := ⟨[], [], 1⟩

def MemberStore.loadMember (store : MemberStore) (line : Bytes) : MemberStore :=
  if store.members.length < memberMax then
    let m := parseRecord memberTable .zero line
    if m.number ≠ 0 ∧ m.handle.text ≠ [] then { store with members := store.members ++ [m] } else store
  else store

def MemberStore.loadMail (store : MemberStore) (line : Bytes) : MemberStore :=
  if store.mails.length < mailMax then
    let m := parseRecord mailTable .zero line
    if m.id ≠ 0 ∧ m.toNumber ≠ 0 then
      { store with mails := store.mails ++ [m], nextId := if store.nextId ≤ m.id then m.id + 1 else store.nextId }
    else store
  else store

def MemberStore.ensureLoadedLocked (store : MemberStore) (memberFile mailFile : Bytes) : MemberStore :=
  (fileLines mailFile).foldl MemberStore.loadMail ((fileLines memberFile).foldl MemberStore.loadMember store)

def MemberStore.membersSaveLocked (store : MemberStore) : Bytes := saveRecords memberTable store.members

def MemberStore.mailSaveLocked (store : MemberStore) : Bytes := saveRecords mailTable store.mails

end SshChatter.Ddial
