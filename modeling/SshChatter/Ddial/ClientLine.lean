import SshChatter.Ddial.Protocol

namespace SshChatter.Ddial
open CString DdialProtocol List

def messageLimit : Nat := 4096

section Sanitizing

/-- The rest of a text behind a control sequence. -/
def skipCsi : Bytes → Bytes
  | [] => []
  | c :: rest => if 0x40 ≤ c ∧ c ≤ 0x7E then rest else skipCsi rest

/-- The rest of a text behind an operating system command. -/
def skipOsc : Bytes → Bytes
  | [] => []
  | c :: rest =>
    if c = 0x07 then rest
    else if c = 0x1B ∧ rest.head? = some (byte '\\') then rest.tail
    else skipOsc rest

def skipString : Bytes → Bytes
  | [] => []
  | [c] => [c]
  | c :: next :: rest => if c = 0x1B ∧ next = byte '\\' then rest else skipString (next :: rest)

def skipEscape : Bytes → Bytes
  | [] => []
  | next :: rest =>
    if next = byte '[' then skipCsi rest
    else if next = byte ']' then skipOsc rest
    else if next = byte 'P' ∨ next = byte '_' ∨ next = byte '^' then skipString rest
    else rest

variable (src : Bytes)

theorem skipCsi_length : (skipCsi src).length ≤ src.length := by
  induction src with
  | nil => rfl
  | cons =>
    rw [skipCsi, length_cons]
    split_ifs <;> omega

theorem skipOsc_length : (skipOsc src).length ≤ src.length := by
  induction src with
  | nil => rfl
  | cons =>
    rw [skipOsc, length_cons]
    split_ifs
    · omega
    · rw [length_tail]
      omega
    · omega

theorem skipString_length : (skipString src).length ≤ src.length := by
  fun_induction skipString src with
  | case1 => rfl
  | case2 => rfl
  | case3 => simp only [length_cons]; omega
  | case4 c next rest _ ih => exact ih.trans (by simp)

theorem skipEscape_length : (skipEscape src).length ≤ src.length := by
  cases src with
  | nil => rfl
  | cons next rest =>
    have csi := skipCsi_length rest
    have osc := skipOsc_length rest
    have string := skipString_length rest
    rw [skipEscape, length_cons]
    split_ifs <;> omega

/-- A byte that the sanitizer drops. -/
def invisible (c : UInt8) : Bool := c = 0x7F ∨ (c < 0x20 ∧ c ≠ 9 ∧ c ≠ 13 ∧ c ≠ 10) ∨ c = 0xFF

/-- This is `ddial_client_sanitize_line` with room for so many bytes. -/
def sanitizeLine (room : Nat) (src : Bytes) : Bytes :=
  match src with
  | [] => []
  | c :: rest =>
    if room = 0 then []
    else if c = 0x1B then sanitizeLine room (skipEscape rest)
    else if invisible c then sanitizeLine room rest
    else c :: sanitizeLine (room - 1) rest
termination_by src.length
decreasing_by
  all_goals simp only [length_cons]
  all_goals first | omega | exact Nat.lt_succ_of_le (skipEscape_length _)

end Sanitizing

/-- The result of `ddial_parse_incoming_email`. -/
structure IncomingEmail where
  fromStation : Nat
  toId : Nat
  fromId : Nat
  handle : Bytes
  message : Bytes
  deriving DecidableEq

def threeDigits (a b c : UInt8) : Nat := (a.toNat - 48) * 100 + (b.toNat - 48) * 10 + (c.toNat - 48)

/-- The part of an e-mail line behind the two numbers of three digits. The account is cut to an `unsigned`. -/
def parseMailSender (handleCap fromStation toId : Nat) (p : Bytes) : Option IncomingEmail :=
  match p with
  | bracket :: digits =>
    if bracket ≠ byte '(' ∨ digits.head?.any isDigit = false then none
    else
      match (strtoul digits).2 with
      | colon :: p =>
        if colon ≠ byte ':' then none
        else match strchr (byte ')') p with
          | none => none
          | some (handle, rest) =>
            some ⟨fromStation, toId, (strtoul digits).1 % 2 ^ 32, handle.take (handleCap - 1), skipSpace rest⟩
      | [] => none
  | [] => none

def parseIncomingEmail (handleCap : Nat) (line : Bytes) : Option IncomingEmail :=
  match line with
  | slash :: letter :: tilde :: a :: b :: c :: d :: e :: f :: p =>
    if slash ≠ byte '/' ∨ (letter ≠ byte 'E' ∧ letter ≠ byte 'e') ∨ tilde ≠ byte '~' then none
    else if ¬ ([a, b, c, d, e, f].all isDigit) then none
    else parseMailSender handleCap (threeDigits a b c) (threeDigits d e f) p
  | _ => none

/-- This is `ddial_link_msg_t` for a line that starts with a brace. -/
inductive LinkMessage where
  | memberEvent
  | guestEvent
  | stationBroadcast
  deriving DecidableEq

def parseLinkPrefix : Bytes → Option (LinkMessage × Bytes)
  | 125 :: 125 :: 125 :: rest => some (.stationBroadcast, rest)
  | 125 :: 125 :: rest => some (.guestEvent, rest)
  | 125 :: rest => some (.memberEvent, rest)
  | _ => none

def dropPrompts (start : Bytes) : Bytes :=
  match start with
  | 45 :: 45 :: 62 :: rest =>
    let after := rest.dropWhile (· = 32)
    if after.head? = some (byte '#') ∨ after.head? = some (byte '~') ∨ after.head?.any isDigit then
      dropPrompts after
    else start
  | _ => start
termination_by start.length
decreasing_by
  have shorter := (dropWhile_sublist (l := rest) (· = (32 : UInt8))).length_le
  simp only [length_cons]
  omega

def linkPayload (rest : Bytes) : Bytes :=
  ((rest.map fun c => if c = byte '^' then byte ' ' else c).take (messageLimit - 1)).dropWhile isSpace

/-- The conversion `%03u`. -/
def decimalPadded (n : Nat) : Bytes := replicate (3 - (decimal n).length) (byte '0') ++ decimal n

def isNodeRow (start : Bytes) : Bool :=
  match strstr (str "-.") start with
  | some (before, _) => before ≠ [] ∧ before.all isDigit
  | none => false

def slashLine (start : Bytes) : Option Bytes :=
  match start with
  | 47 :: letter :: rest =>
    if letter = byte 'P' ∨ letter = byte 'p' then
      if rest.head? = some (byte 'S') ∨ rest.head? = some (byte 's') then
        some (str "[SYSOP] " ++ rest.tail.dropWhile (· = 32))
      else (parseIncomingPrivate maxHandleLen start).map fun pm =>
        str "P#" ++ decimal pm.fromSlot.toNat ++ str "[T" ++ decimal pm.channel.toNat ++ str ":" ++ pm.handle ++
          str ") " ++ pm.message
    else if (letter = byte 'E' ∨ letter = byte 'e') ∧ rest.head? = some (byte '~') then
      (parseIncomingEmail maxHandleLen start).map fun mail =>
        str "[E-MAIL #" ++ decimalPadded mail.fromId ++ str "@" ++ decimalPadded mail.fromStation ++ str " " ++
          mail.handle ++ str "] " ++ mail.message
    else none
  | _ => none

def displayLine (start : Bytes) : Bytes :=
  match parseLinkPrefix start with
  | some (.stationBroadcast, rest) => str "[SYSOP] " ++ linkPayload rest
  | some (_, rest) => str "[LINK] " ++ linkPayload rest
  | none =>
    if start.head? = some (byte '~') ∧ start.tail.head? = some (byte '#') then start.tail
    else match slashLine start with
      | some text => text
      | none => if isNodeRow start then byte '#' :: start else start

/-- The text that `ddial_client_normalize_line` looks at. -/
def lineStart (line : Bytes) : Bytes := dropPrompts (trimSpace (sanitizeLine (messageLimit - 1) line))

def normalizeLine (line : Bytes) : Bytes :=
  if trimSpace (sanitizeLine (messageLimit - 1) line) = [] then []
  else (displayLine (lineStart line)).take (messageLimit - 1)

def skipPrompts (p : Bytes) : Bytes :=
  match _prompt : p.dropWhile (· = 32) with
  | 45 :: 45 :: 62 :: rest => skipPrompts rest
  | p => p
termination_by p.length
decreasing_by
  have shorter := (dropWhile_sublist (l := p) (· = (32 : UInt8))).length_le
  rw [_prompt] at shorter
  simp only [length_cons] at shorter
  omega

def skipOptional (bytes p : Bytes) : Bytes :=
  match p with
  | c :: rest => if c ∈ bytes then rest else p
  | [] => []

def lineIsChatContent (line : Bytes) : Bool :=
  match skipOptional [byte 'P', byte 'p'] (skipOptional [byte '~'] ((skipPrompts line).dropWhile isDigit)) with
  | hash :: p =>
    hash = byte '#' ∧ p.head?.any isDigit ∧
      (p.dropWhile isDigit).head?.any (fun c => c = byte '[' ∨ c = byte '(' ∨ c = byte '<') ∧
      (strchr (byte ')') (p.dropWhile isDigit)).isSome
  | [] => false

def strcasestr (text needle : Bytes) : Bool := (strstr (needle.map toLower) (text.map toLower)).isSome

/-- The texts of `ddial_client_line_looks_like_lockout`. -/
def lockoutNeedles : List Bytes :=
  [str "already logged", str "already on line", str "already online", str "logged in twice", str "account disabled",
    str "account locked", str "account in use", str "is in use", str "duplicate login"]

/-- The texts of `ddial_client_line_looks_like_kick`. -/
def kickNeedles : List Bytes :=
  [str "kicked", str "disconnected", str "timeout", str "timed out", str "bye", str "goodbye", str "see ya",
    str "link down", str "booted", str "removed", str "offline", str "hangup", str "no carrier"]

def lineLooksLikeLockout (line : Bytes) : Bool := lockoutNeedles.any (strcasestr line)

def lineLooksLikeKick (line : Bytes) : Bool := kickNeedles.any (strcasestr line)

def hangsUp (normalized : Bytes) : Bool :=
  !lineIsChatContent normalized && (lineLooksLikeLockout normalized || lineLooksLikeKick normalized)

def handedOn (line : Bytes) : Bytes :=
  let rawStart := (sanitizeLine (messageLimit - 1) line).dropWhile (· = 32)
  if (parseIncomingPrivate 0 rawStart).isSome ∨ (parseIncomingEmail 0 rawStart).isSome then rawStart
  else normalizeLine line

end SshChatter.Ddial
