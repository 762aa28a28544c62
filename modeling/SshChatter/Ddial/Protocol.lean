import SshChatter.Lib.CString
import SshChatter.Lib.Transducer

namespace SshChatter.DdialProtocol
open CString Transducer List

inductive UserTier where
  | guest
  | password
  | master
  deriving DecidableEq, Repr

def tierBracketOpen : UserTier → UInt8
  | .password => byte '['
  | .master => byte '<'
  | .guest => byte '('

abbrev maxHandleLen : Nat := 32

abbrev maxHandleWireLen : Nat := 25

abbrev maxBodyLen : Nat := 255

/-- The stripper is in plain text or inside a control sequence. -/
inductive AnsiState where
  | text
  | csi

/-- This is the loop of `ddial_strip_ansi`, with the bytes that the buffer still accepts. -/
def stripAnsiLoop : AnsiState → Nat → Bytes → Bytes
  | _, _, [] => []
  | .csi, room, c :: rest =>
    if 0x40 ≤ c ∧ c ≤ 0x7E then stripAnsiLoop .text room rest else stripAnsiLoop .csi room rest
  | .text, 0, _ => []
  | .text, room + 1, c :: rest =>
    if c = 0x1B then
      match rest with
      | [] => []
      | d :: rest =>
        if d = byte '[' then stripAnsiLoop .csi (room + 1) rest
        else stripAnsiLoop .text (room + 1) rest
    else if c = 0x07 ∨ c = 0x08 then stripAnsiLoop .text (room + 1) rest
    else c :: stripAnsiLoop .text room rest

def stripAnsi (src : Bytes) (dstCap : Nat) : Bytes := stripAnsiLoop .text (dstCap - 1) src

def forbiddenInHandle (c : UInt8) : Bool :=
  c = byte '^' ∨ c = byte ')' ∨ c = byte '}' ∨ c = byte ']' ∨ c = byte '>' ∨ c = 13 ∨ c = 10

def sanitizeHandle (src : Bytes) (dstCap : Nat) : Bytes :=
  ((stripAnsi src maxHandleLen).filter fun c => !forbiddenInHandle c).take
    (min (dstCap - 1) maxHandleWireLen)

def cleanBody (message : Bytes) (dstCap : Nat) : Bytes :=
  (message.takeWhile fun c => c ≠ 13 ∧ c ≠ 10).take (min (dstCap - 1) maxBodyLen)

def clampChannel (channel : UInt8) : UInt8 :=
  let channel := if channel < 1 then 1 else channel
  if 4 < channel then 4 else channel

/-- The print succeeds when the text and its terminator fit. -/
def snprintf (dstCap : Nat) (text : Bytes) : Option Bytes :=
  if text.length < dstCap then some text else none

/-- The line terminator of the wire. -/
def crlf : Bytes := [13, 10]

/-- This is the format `#%u%sT%u:%s) %s`, which every link message carries. -/
def linkIdentityBody (slot : UInt16) (channel : UInt8) (tier : UserTier) (handle message : Bytes) : Bytes :=
  byte '#' :: decimal slot.toNat ++ tierBracketOpen tier :: byte 'T' ::
    decimal (clampChannel channel).toNat ++ byte ':' :: sanitizeHandle handle maxHandleLen ++
    byte ')' :: byte ' ' :: cleanBody message (maxBodyLen + 1)

def formatLinkChat (dstCap : Nat) (slot : UInt16) (channel : UInt8) (tier : UserTier)
    (handle message : Bytes) : Option Bytes :=
  snprintf dstCap (linkIdentityBody slot channel tier handle message ++ crlf)

def formatLinkDualChat (dstCap : Nat) (slot : UInt16) (channel : UInt8) (tier : UserTier)
    (handle message : Bytes) : Option Bytes :=
  snprintf dstCap (byte '~' :: linkIdentityBody slot channel tier handle message ++ crlf)

def formatLinkPrivate (dstCap : Nat) (targetSlot ourSlot : UInt16) (channel : UInt8)
    (ourTier : UserTier) (ourHandle message : Bytes) : Option Bytes :=
  snprintf dstCap (byte '/' :: byte 'P' :: decimal targetSlot.toNat ++ byte ' ' ::
    linkIdentityBody ourSlot channel ourTier ourHandle message ++ crlf)

/-- The identity part of an incoming line. -/
structure Identity where
  slot : UInt16
  channel : UInt8
  isLink : Bool
  handle : Bytes
  deriving DecidableEq

def closesHandle (c : UInt8) : Bool := c = byte ')' ∨ c = byte ']' ∨ c = byte '>'

/-- The parser cuts a handle at its account number and strips the tier symbols. -/
def trimHandle (handle : Bytes) : Bytes :=
  (handle.takeWhile fun c => c ≠ byte ':').rdropWhile fun c => c = byte '*' ∨ c = byte '$'

/-- The line type `:` or `=` is optional and tells a link from a user. -/
def parseLineType (p : Bytes) : Bool × Bytes :=
  match p with
  | c :: rest => if c = byte ':' ∨ c = byte '=' then (c = byte '=', rest) else (false, p)
  | [] => (false, [])

/-- The handle runs to the closing bracket. The text after the bracket is returned. -/
def parseHandle (handleCap : Nat) (p : Bytes) : Option (Bytes × Bytes) :=
  match p.dropWhile fun c => !closesHandle c with
  | [] => none
  | _ :: rest =>
    some ((trimHandle (p.takeWhile fun c => !closesHandle c)).take (handleCap - 1), rest)

/-- This is `ddial_parse_identity`. The text after the closing bracket is returned. -/
def parseIdentity (handleCap : Nat) (p : Bytes) : Option (Identity × Bytes) :=
  match p with
  | [] => none
  | hash :: digits =>
    if hash ≠ byte '#' ∨ digits.head?.any isDigit = false then none
    else
      let slot := (strtoul digits).1
      if 65535 < slot then none
      else match (strtoul digits).2 with
        | bracket :: letter :: digit :: p =>
          if bracket ≠ byte '(' ∧ bracket ≠ byte '[' ∧ bracket ≠ byte '<' then none
          else if letter ≠ byte 'T' ∨ isDigit digit = false then none
          else
            (parseHandle handleCap (parseLineType p).2).map fun parsed =>
              (⟨UInt16.ofNat slot, digit - 48, (parseLineType p).1, parsed.1⟩, parsed.2)
        | _ => none

def skipSpace (p : Bytes) : Bytes :=
  match p with
  | c :: rest => if c = byte ' ' then rest else p
  | [] => []

/-- The optional link slot stands before the identity. A bad number leaves the text as it is. -/
def parseLinkSlot (p : Bytes) : UInt16 × Bytes :=
  if p.head?.any isDigit then
    let candidate := (strtoul p).1
    let rest := (strtoul p).2
    if rest.head? = some (byte '#') ∧ 0 < candidate ∧ candidate ≤ 65535 then
      (UInt16.ofNat candidate, rest)
    else (0, p)
  else (0, p)

/-- The result of `ddial_parse_incoming_chat`. -/
structure IncomingChat where
  linkSlot : UInt16
  identity : Identity
  dual : Bool
  message : Bytes
  deriving DecidableEq

def parseIncomingChat (handleCap : Nat) (line : Bytes) : Option IncomingChat :=
  let dual : Bool := line.head? = some (byte '~')
  let p := if dual then line.tail else line
  let link := parseLinkSlot p
  (parseIdentity handleCap link.2).map fun parsed =>
    ⟨link.1, parsed.1, dual, skipSpace parsed.2⟩

/-- The result of `ddial_parse_incoming_private`. The line type is not reported. -/
structure IncomingPrivate where
  targetSlot : UInt16
  fromSlot : UInt16
  channel : UInt8
  handle : Bytes
  message : Bytes
  deriving DecidableEq

def parseIncomingPrivate (handleCap : Nat) (line : Bytes) : Option IncomingPrivate :=
  match line with
  | slash :: letter :: p =>
    if slash ≠ byte '/' ∨ (letter ≠ byte 'P' ∧ letter ≠ byte 'p') then none
    else if p.head?.any isDigit = false then none
    else if 65535 < (strtoul p).1 then none
    else
      (parseIdentity handleCap ((strtoul p).2.dropWhile fun c => c = byte ' ')).map fun parsed =>
        ⟨UInt16.ofNat (strtoul p).1, parsed.1.slot, parsed.1.channel, parsed.1.handle,
          skipSpace parsed.2⟩
  | _ => none

/-- The stripper is in plain text, behind an escape byte or inside a control sequence. -/
inductive Mode where
  | text
  | escape
  | csi
  deriving DecidableEq

def stripStep : Mode → UInt8 → Mode × Bytes
  | .text, c => if c = 0x1B then (.escape, []) else if c = 0x07 ∨ c = 0x08 then (.text, []) else (.text, [c])
  | .escape, c => (if c = byte '[' then .csi else .text, [])
  | .csi, c => (if 0x40 ≤ c ∧ c ≤ 0x7E then .text else .csi, [])

/-- The text without its escape sequences, whatever its length. -/
def strip (src : Bytes) : Bytes := output stripStep .text src

/-- A byte that is no escape byte and no control byte that the stripper drops. -/
def Printed (c : UInt8) : Prop := c ≠ 0x1B ∧ c ≠ 0x07 ∧ c ≠ 0x08

instance (c : UInt8) : Decidable (Printed c) := inferInstanceAs (Decidable (_ ∧ _))

section Stripping

variable {room : Nat} {src rest : Bytes} {c : UInt8}

/-- The loop writes what the machine writes, as far as the buffer goes. -/
theorem stripAnsiLoop_eq (state : AnsiState) (room : Nat) (src : Bytes) : stripAnsiLoop state room src =
    (output stripStep (match state with | .text => .text | .csi => .csi) src).take room := by
  fun_induction stripAnsiLoop state room src with
  | case1 => simp
  | case2 room c rest ends ih => simpa [stripStep, ends] using ih
  | case3 room c rest inside ih => simpa [stripStep, inside] using ih
  | case4 => simp
  | case5 => simp [stripStep]
  | case6 room rest ih => simpa [stripStep] using ih
  | case7 room c rest other ih => simpa [stripStep, other] using ih
  | case8 room c rest notEscape bell ih => simpa [stripStep, notEscape, bell] using ih
  | case9 room c rest notEscape noBell ih => simpa [stripStep, notEscape, noBell] using ih

theorem stripAnsi_eq (src : Bytes) (dstCap : Nat) : stripAnsi src dstCap = (strip src).take (dstCap - 1) :=
  stripAnsiLoop_eq .text (dstCap - 1) src

theorem stripStep_printed (printed : Printed c) : stripStep .text c = (.text, [c]) := by
  rw [stripStep, if_neg printed.1, if_neg (not_or.mpr printed.2)]

theorem strip_printed (printed : ∀ c ∈ src, Printed c) : strip src = src ∧ final stripStep .text src = .text := by
  rw [strip]
  induction src with
  | nil => exact ⟨rfl, rfl⟩
  | cons c src ih =>
    obtain ⟨first, later⟩ := forall_mem_cons.mp printed
    simp [stripStep_printed first, ih later]

/-- What is left is printed. -/
theorem mem_output (mode : Mode) (member : c ∈ output stripStep mode src) : Printed c := by
  induction src generalizing mode with
  | nil => cases member
  | cons d src ih =>
    rw [output_cons, mem_append] at member
    rcases member with here | later
    · cases mode with
      | text =>
        rw [stripStep] at here
        split_ifs at here with escape bell
        · cases here
        · cases here
        · obtain rfl := mem_singleton.mp here
          exact ⟨escape, not_or.mp bell⟩
      | escape => cases here
      | csi => cases here
    · exact ih _ later

theorem strip_length_le (src : Bytes) : (strip src).length ≤ src.length := by
  have bound (mode : Mode) : (output stripStep mode src).length ≤ src.length := by
    induction src generalizing mode with
    | nil => exact Nat.zero_le _
    | cons c src ih =>
      have later := ih (stripStep mode c).1
      have here : (stripStep mode c).2.length ≤ 1 := by
        cases mode <;> rw [stripStep]
        · split_ifs <;> simp
        · simp
        · simp
      simp only [output_cons, length_append, length_cons]
      omega
  exact bound .text

/-- A control sequence with parameters below 0x40 and a final byte is silent. -/
theorem silent_csi {params : Bytes} {last : UInt8} (low : ∀ c ∈ params, c < 0x40) (ends : 0x40 ≤ last ∧ last ≤ 0x7E) :
    Silent stripStep .text (0x1B :: byte '[' :: (params ++ [last])) := by
  have inside : output stripStep .csi params = [] ∧ final stripStep .csi params = .csi := by
    induction params with
    | nil => exact ⟨rfl, rfl⟩
    | cons c params ih =>
      obtain ⟨first, later⟩ := forall_mem_cons.mp low
      have stays : ¬ (0x40 ≤ c ∧ c ≤ 0x7E) := fun both => UInt8.not_le.mpr first both.1
      simpa [stripStep, stays] using ih later
  constructor
  · simp [stripStep, output_append, inside]
  · simp [stripStep, final_append, inside, ends]

end Stripping

end SshChatter.DdialProtocol
