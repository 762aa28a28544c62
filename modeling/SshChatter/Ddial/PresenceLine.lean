import SshChatter.Ddial.LinkRoundTrip

namespace SshChatter.DdialProtocol
open CString List

abbrev CStr : Type := { text : Bytes // 0 ∉ text }

/-- What a presence line says about a user or a link. -/
structure LinkUser where
  slot : UInt16
  channel : UInt8
  tier : UserTier
  handle : CStr
  account : UInt16
  isLink : Bool
  deriving DecidableEq

section Formatting

variable (user : LinkUser)

def LinkUser.wireHandle : Bytes := sanitizeHandle user.handle.val maxHandleLen

/-- This is the format `#%u%sT%u`. -/
def LinkUser.identityHead : Bytes :=
  byte '#' :: decimal user.slot.toNat ++ tierBracketOpen user.tier :: byte 'T' :: decimal
    (clampChannel user.channel).toNat

def LinkUser.entryText : Bytes :=
  if user.isLink then
    byte '^' :: user.identityHead ++ byte '=' :: user.wireHandle ++ byte ':' :: decimal user.account.toNat
  else if user.tier = .guest then byte '^' :: user.identityHead ++ byte ':' :: user.wireHandle
  else byte '^' :: user.identityHead ++ byte ':' :: user.wireHandle ++ byte ':' :: decimal user.account.toNat

def formatBroadcastEntry (dstCap : Nat) : Option Bytes := snprintf dstCap user.entryText

def formatBroadcastHeader (dstCap : Nat) (stationName : Bytes) (stationLocked : Bool) : Option Bytes :=
  if sanitizeHandle stationName maxHandleLen = [] then none
  else
    snprintf dstCap (byte '}' :: byte '}' :: byte '}' :: byte '-' :: (if stationLocked then byte ',' else byte '.') ::
      sanitizeHandle stationName maxHandleLen)

def LinkUser.eventIdentity : Bytes :=
  if user.isLink then user.identityHead ++ byte '=' :: user.wireHandle
  else if user.tier = .guest then user.identityHead ++ [byte ':', byte '?']
  else if 0 < user.account then
    user.identityHead ++ byte ':' :: user.wireHandle ++ byte ':' :: byte '#' :: decimal user.account.toNat ++ [byte '*']
  else user.identityHead ++ byte ':' :: user.wireHandle

def LinkUser.eventText (stationLocked isLogin : Bool) : Bytes :=
  byte '-' :: byte '-' :: byte '>' :: (if stationLocked then byte ',' else byte '.') :: byte ' ' ::
    (if isLogin then byte '+' else byte '-') :: byte '^' :: user.eventIdentity

def formatLinkEvent (dstCap : Nat) (stationLocked isLogin : Bool) : Option Bytes :=
  snprintf dstCap ((if user.tier = .guest then [byte '}', byte '}'] else [byte '}']) ++
    user.eventText stationLocked isLogin ++ crlf)

def formatLinkLogin (dstCap : Nat) (stationLocked : Bool) :
    Option Bytes := formatLinkEvent user dstCap stationLocked true

def formatLinkLogout (dstCap : Nat) (stationLocked : Bool) : Option Bytes :=
  formatLinkEvent user dstCap stationLocked false

end Formatting

theorem stripAnsiLoop_mem {state : AnsiState} {room : Nat} {src : Bytes} {c : UInt8}
    (kept : c ∈ stripAnsiLoop state room src) : c ∈ src ∧ c ≠ 0x1B := by
  fun_induction stripAnsiLoop state room src with
  | case1 => cases kept
  | case2 room d rest final ih => exact ⟨mem_cons_of_mem _ (ih kept).1, (ih kept).2⟩
  | case3 room d rest open' ih => exact ⟨mem_cons_of_mem _ (ih kept).1, (ih kept).2⟩
  | case4 => cases kept
  | case5 => cases kept
  | case6 room rest ih =>
    exact ⟨mem_cons_of_mem _ (mem_cons_of_mem _ (ih kept).1), (ih kept).2⟩
  | case7 room d rest other ih =>
    exact ⟨mem_cons_of_mem _ (mem_cons_of_mem _ (ih kept).1), (ih kept).2⟩
  | case8 room d rest notEscape bell ih => exact ⟨mem_cons_of_mem _ (ih kept).1, (ih kept).2⟩
  | case9 room d rest notEscape noBell ih =>
    rcases mem_cons.mp kept with rfl | later
    · exact ⟨mem_cons_self, notEscape⟩
    · exact ⟨mem_cons_of_mem _ (ih later).1, (ih later).2⟩

theorem sanitizeHandle_mem {src : Bytes} {dstCap : Nat} {c : UInt8} (kept : c ∈ sanitizeHandle src dstCap) :
    c ∈ src ∧ c ≠ 0x1B ∧ forbiddenInHandle c = false := by
  obtain ⟨stripped, allowed⟩ := mem_filter.mp (mem_of_mem_take kept)
  obtain ⟨inside, noEscape⟩ := stripAnsiLoop_mem stripped
  exact ⟨inside, noEscape, by simpa using allowed⟩

theorem LinkUser.wireHandle_length (user : LinkUser) : user.wireHandle.length ≤ maxHandleWireLen :=
  sanitizeHandle_length _ _

end SshChatter.DdialProtocol
