import SshChatter.Ddial.MemberRoll
import SshChatter.Ddial.Protocol

namespace SshChatter.Ddial
open CString AtomicProgram DdialProtocol

/-- The preferences of a session that `mv_save_member` stores in the member record. -/
structure Preferences where
  msgColor : CText 15
  prefixText : CText 47
  postfixText : CText 47
  status : CText 95
  font : CText 47
  beepOn : Bool
  beepVolume : UInt8
  beepEvents : UInt8
  baud : UInt16
  badgesOn : Bool
  repliesOn : Bool
  autoSlash : Bool
  voiceOn : Bool
  notifyOn : Bool

def Preferences.defaults : Preferences :=
  ⟨.zero, .zero, .zero, .zero, .zero, true, 100, defaultBeepEvents, 0, true, true, true, false, false⟩

def Member.preferences (member : Member) : Preferences :=
  ⟨member.msgColor, member.prefixText, member.postfixText, member.status, member.font, member.beepOn,
    member.beepVolume, member.beepEvents, member.baud, member.badgesOn, member.repliesOn, member.autoSlash,
    member.voiceOn, member.notifyOn⟩

def Member.withPreferences (member : Member) (mv : Preferences) : Member :=
  { member with
    msgColor := mv.msgColor, prefixText := mv.prefixText, postfixText := mv.postfixText, status := mv.status,
    font := mv.font, beepOn := mv.beepOn, beepVolume := mv.beepVolume, beepEvents := mv.beepEvents, baud := mv.baud,
    badgesOn := mv.badgesOn, repliesOn := mv.repliesOn, autoSlash := mv.autoSlash, voiceOn := mv.voiceOn,
    notifyOn := mv.notifyOn }

/-- The fields of `ddial_session_t` that the member commands use. -/
structure MvSession where
  loggedIn : Bool
  handle : CText 31
  memberNo : UInt32
  cosysop : Bool
  mv : Preferences
  messagesSent : UInt32
  profileCapture : Bool

def MvSession.fresh : MvSession := ⟨false, .zero, 0, false, .defaults, 0, false⟩

inductive SessionEffect where
  | nothing
  | rename (handle : Bytes)
  | guest (handle : Bytes)
  | memberLogin (member : Member) (after : Option Bytes)
  | setCosysop (number : UInt32) (value : Bool)
  | captureProfile
  | loggedOut
  | stackOverflow

structure CommandResult where
  effect : SessionEffect
  reply : Bytes

abbrev MemberProgram := Program MemberOp MemberOp.Answer CommandResult

/-- A command that ends with a line. -/
def say (reply : Bytes) : MemberProgram := .done ⟨.nothing, reply⟩

def skipWs (text : Bytes) : Bytes := text.dropWhile fun c => c = 32 ∨ c = 9

/-- This is `mv_parse_uint`: the number and the text behind it. -/
def parseUint (text : Bytes) : Option (UInt32 × Bytes) :=
  if text.takeWhile isDigit = [] ∨ 0xFFFFFFFF < digitsValue (text.takeWhile isDigit) then none
  else some (.ofNat (digitsValue (text.takeWhile isDigit)), text.dropWhile isDigit)

def markerLength (text : Bytes) : Nat :=
  match text with
  | c :: rest =>
    if c = byte '\\' ∧ (rest.head? = some (byte 'i') ∨ rest.head? = some (byte 'b') ∨ rest.head? = some (byte 'u'))
    then 2
    else if c = byte '#' ∧ 7 ≤ text.length ∧ (rest.take 6).all (fun c => (hexValue c).isSome) then 7
    else 0
  | [] => 0

/-- The plain text of `mv_render`, with so many characters of a marker left. -/
def renderPlain : Nat → Bytes → Bytes
  | _, [] => []
  | skip + 1, _ :: rest => renderPlain skip rest
  | 0, c :: rest =>
    if markerLength (c :: rest) = 0 then c :: renderPlain 0 rest
    else renderPlain (markerLength (c :: rest) - 1) rest

theorem renderPlain_mem {skip : Nat} {text : Bytes} {c : UInt8} (kept : c ∈ renderPlain skip text) : c ∈ text := by
  fun_induction renderPlain skip text with
  | case1 => cases kept
  | case2 skip _ rest ih => exact List.mem_cons_of_mem _ (ih kept)
  | case3 d rest none' ih =>
    rcases List.mem_cons.mp kept with rfl | later
    · exact List.mem_cons_self
    · exact List.mem_cons_of_mem _ (ih later)
  | case4 d rest marker ih => exact List.mem_cons_of_mem _ (ih kept)

/-- The buffer `plain` of `mv_cmd_handle`. -/
def plainRoom : Nat := 63

/-- The handle that a text asks for, as `mv_cmd_handle` cleans it. -/
def askedHandle (arg : Bytes) : Bytes :=
  let plain := if arg.head? = some (byte '#') then renderPlain 0 arg else arg
  sanitizeHandle (plain.take plainRoom) maxHandleLen

def requireText : Bytes := str "* That command is for members. Type /signup <password> to join (it's free)."

def recordText : Bytes := str "* Member record not found."

def saveMember (sess : MvSession) : MemberProgram :=
  if sess.memberNo = 0 then say []
  else
    .act (.get sess.memberNo) fun
      | none => say []
      | some m => .act (.put (m.withPreferences sess.mv)) fun _ => say []

/-- This is `mv_cmd_cosysops`. The list of the CoSysops writes nothing. -/
def cmdCosysops (sess : MvSession) (arg : Bytes) : MemberProgram :=
  match skipWs arg with
  | [] => say (str "CoSysops:")
  | c :: p =>
    if (c = byte '+' ∨ c = byte '-') ∧ sess.cosysop then
      match parseUint p with
      | none => say (str "* No such member.")
      | some (no, _) =>
        .act (.get no) fun
          | none => say (str "* No such member.")
          | some m =>
            .act (.put { m with cosysop := c = byte '+' }) fun _ =>
              .done ⟨.setCosysop no (c = byte '+'), str "* Member #" ++ decimal no.toNat ++ str " is " ++
                (if c = byte '+' then str "now" else str "no longer") ++ str " a CoSysop."⟩
    else say (str "CoSysops:")

/-- The part of `mv_cmd_handle` that takes a new handle. A handle is in use when another session carries it. -/
def takeHandle (sess : MvSession) (inUse : Bytes → Bool) (arg : Bytes) : MemberProgram :=
  let colored := arg.head? = some (byte '#')
  if colored ∧ sess.memberNo = 0 then say requireText
  else
    let clean := askedHandle arg
    if clean = [] then say (str "* Invalid handle.")
    else
      .act (.ownerOf clean) fun owner =>
        if owner ≠ 0 ∧ owner ≠ sess.memberNo then
          say (str "* '" ++ clean ++ str "' belongs to member #" ++ decimal owner.toNat ++ str ".")
        else if inUse clean then say (str "* '" ++ clean ++ str "' is in use.")
        else
          let renamed : CommandResult :=
            ⟨.rename clean, if sess.handle.text = clean then str "* Handle updated." else []⟩
          if sess.memberNo = 0 then .done renamed
          else
            .act (.get sess.memberNo) fun
              | none => .done renamed
              | some m =>
                .act (.put { m with handle := .print clean, handleColor := .print (if colored then arg else []) })
                  fun _ => .done renamed

def savedSlot (c : UInt8) : Fin 9 := ⟨(c.toNat - 49) % 9, Nat.mod_lt _ (by decide)⟩

/-- This is `mv_cmd_handle`. It calls itself with a saved handle, as deep as the stack allows. -/
def cmdHandle (sess : MvSession) (inUse : Bytes → Bool) : Nat → Bytes → MemberProgram
  | 0, _ => .done ⟨.stackOverflow, []⟩
  | depth + 1, arg =>
    match skipWs arg with
    | [] => say []
    | c :: rest =>
      if c = byte '?' then
        if sess.memberNo = 0 then say requireText
        else
          .act (.get sess.memberNo) fun
            | none => say recordText
            | some _ => say (str "Saved handles:")
      else if 49 ≤ c ∧ c ≤ 57 ∧ (rest = [] ∨ rest.head? = some (byte '=')) then
        if sess.memberNo = 0 then say requireText
        else
          .act (.get sess.memberNo) fun
            | none => say recordText
            | some m =>
              match rest with
              | _ :: text =>
                let clean := sanitizeHandle text maxHandleLen
                .act (.put { m with
                  savedHandles := Function.update m.savedHandles (savedSlot c) (.print clean) }) fun _ =>
                  say (str "* Saved handle " ++ [c] ++ str ": " ++
                    (if clean = [] then str "(cleared)" else clean))
              | [] =>
                if (m.savedHandles (savedSlot c)).text = [] then
                  say (str "* Handle " ++ [c] ++ str " is empty. Save one with /h" ++ [c] ++ str "=Name")
                else cmdHandle sess inUse depth (m.savedHandles (savedSlot c)).text
      else takeHandle sess inUse (c :: rest)

/-- This is `mv_cmd_profile`. A profile that is shown is only read. -/
def cmdProfile (sess : MvSession) (arg : Bytes) : MemberProgram :=
  if arg.head? = some (byte '=') then
    if sess.memberNo = 0 then say requireText
    else if skipWs arg.tail = [] then .done ⟨.captureProfile, str "* Type your profile on the next line:"⟩
    else
      .act (.get sess.memberNo) fun
        | none => say recordText
        | some m => .act (.put { m with profile := .print (skipWs arg.tail) }) fun _ => say (str "* Profile saved.")
  else
    match parseUint arg with
    | some (no, _) => .act (.get no) fun _ => say []
    | none =>
      if sess.memberNo = 0 then say (str "* Usage: /r<member#>   (members: /r= to set)")
      else .act (.get sess.memberNo) fun _ => say []

/-- The branch `/pw=` of `ddial_mv_dispatch`, with the salt that is drawn. -/
def cmdPassword (sess : MvSession) (r : Bytes) (salt : Option (Octets 16)) : MemberProgram :=
  if sess.memberNo = 0 then say requireText
  else
    .act (.setPassword sess.memberNo (skipWs r) salt) fun changed =>
      if changed then say (str "* Password changed.")
      else say (str "* Password must be 4+ characters without spaces or ':'.")

def finishLogin (member : Member) (now : Int) (after : Option Bytes) : MemberProgram :=
  let m := { member with logins := member.logins + 1, lastSeen := now }
  .act (.put m) fun _ => .done ⟨.memberLogin m after, []⟩

/-- The part of `ddial_mv_login_line` for a guest, without the greeting. -/
def guestLogin (inUse : Bytes → Bool) (line : Bytes) : MemberProgram :=
  let clean := sanitizeHandle line maxHandleLen
  if clean = [] then say (str "Invalid handle. Try again.")
  else
    .act (.ownerOf clean) fun owner =>
      if owner ≠ 0 then
        say (str "'" ++ clean ++ str "' is a registered handle. Log in with " ++ decimal owner.toNat ++
          str "<password> or pick another handle.")
      else if inUse clean then say (str "That handle is in use. Try another.")
      else .done ⟨.guest clean, []⟩

def loginPassword (p : Bytes) : Bytes × Option Bytes :=
  match p with
  | c :: rest =>
    if c = byte ':' then
      match strchr (byte ':') rest with
      | some (password, after) => (password.take 127, some after)
      | none => (rest.take 127, none)
    else (p.take 127, none)
  | [] => ([], none)

def loginLine (inUse : Bytes → Bool) (online : UInt32 → Bool) (now : Int) (line : Bytes) : MemberProgram :=
  if skipWs line = [] then say (str "Invalid handle. Try again.")
  else
    match parseUint (skipWs line) with
    | none => guestLogin inUse (skipWs line)
    | some (number, p) =>
      if p = [] then guestLogin inUse (skipWs line)
      else
        .act (.get number) fun
          | none => guestLogin inUse (skipWs line)
          | some _ =>
            .act (.authenticate number (loginPassword p).1) fun
              | none => say (str "Invalid member login.")
              | some member =>
                if online number then say (str "That member is already online.")
                else finishLogin member now (loginPassword p).2

def onLogout (sess : MvSession) (now : Int) : MemberProgram :=
  if sess.memberNo = 0 then .done ⟨.loggedOut, []⟩
  else
    .act (.get sess.memberNo) fun
      | none => .done ⟨.loggedOut, []⟩
      | some m =>
        .act (.put { m with lastSeen := now, messages := m.messages + sess.messagesSent }) fun _ =>
          .done ⟨.loggedOut, []⟩

inductive MemberCommand where
  | saveMember (sess : MvSession)
  | cosysops (sess : MvSession) (arg : Bytes)
  | handle (sess : MvSession) (inUse : Bytes → Bool) (depth : Nat) (arg : Bytes)
  | profile (sess : MvSession) (arg : Bytes)
  | password (sess : MvSession) (arg : Bytes) (salt : Option (Octets 16))
  | login (inUse : Bytes → Bool) (online : UInt32 → Bool) (now : Int) (line : Bytes)
  | logout (sess : MvSession) (now : Int)

def MemberCommand.program : MemberCommand → MemberProgram
  | .saveMember sess => Ddial.saveMember sess
  | .cosysops sess arg => cmdCosysops sess arg
  | .handle sess inUse depth arg => cmdHandle sess inUse depth arg
  | .profile sess arg => cmdProfile sess arg
  | .password sess arg salt => cmdPassword sess arg salt
  | .login inUse online now line => loginLine inUse online now line
  | .logout sess now => onLogout sess now

end SshChatter.Ddial
