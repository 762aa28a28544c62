import SshChatter.Ddial.EchoGuard

namespace SshChatter.Ddial
open CString DdialProtocol List

inductive AuthState where
  | none
  | pending
  | approved
  | rejected
  | timeout
  deriving DecidableEq

/-- The fields of the client that the lock guards. -/
structure Connection where
  enabled : Bool
  connected : Bool
  upstreamFd : Int
  authState : AuthState

/-- A call of `host_ddial_client_send_channel`. The connection is read under the lock at the start and again before the
write. The slot of the client is absent when it is not known. -/
structure ChannelSend where
  first : Connection
  second : Connection
  clientSlot : Option UInt16
  userMode : Bool
  clientHandle : CText 31
  now : Nat
  fromSlot : UInt16
  handle : Option CStr
  channel : UInt8
  message : CStr

def wireRoom : Nat := messageLimit + 64

def linkFromSlot (clientSlot : Option UInt16) (fromSlot : UInt16) : UInt16 :=
  if 0 < fromSlot then fromSlot else (clientSlot.filter (0 < ·)).getD 1

namespace ChannelSend

variable (call : ChannelSend)

/-- The message as it may go out. -/
def cleanMsg : Bytes := normalizeOutboundText call.message.val

def speaker : Option Bytes :=
  call.handle.bind fun handle =>
    if handle.val ≠ [] ∧ handle.val.map toLower ≠ call.clientHandle.text.map toLower then some handle.val else none

def userText : Bytes :=
  match call.speaker with
  | some handle => (sanitizeHandle handle maxHandleLen ++ str ": " ++ call.cleanMsg).take (messageLimit - 1)
  | none => ((if call.cleanMsg.head? = some (byte '/') then str " " else []) ++ call.cleanMsg).take (messageLimit - 1)

def userBody : Bytes := cleanBody call.userText (maxBodyLen + 1)

def linkLine : Option Bytes :=
  match call.handle with
  | some ⟨c :: handle, _⟩ =>
    if clampChannel call.channel ≠ 1 then
      formatLinkDualChat wireRoom (linkFromSlot call.clientSlot call.fromSlot) (clampChannel call.channel) .password
        (c :: handle) call.cleanMsg
    else
      formatLinkChat wireRoom (linkFromSlot call.clientSlot call.fromSlot) (clampChannel call.channel) .password
        (c :: handle) call.cleanMsg
  | _ => snprintf wireRoom (cleanBody call.cleanMsg (maxBodyLen + 1) ++ crlf)

def Open : Prop :=
  call.first.enabled ∧ call.first.connected ∧ 0 ≤ call.first.upstreamFd ∧ call.first.authState = .approved

def StillOpen : Prop :=
  call.second.enabled ∧ call.second.connected ∧ call.second.upstreamFd = call.first.upstreamFd ∧
    call.second.authState = .approved

instance : Decidable call.Open := inferInstanceAs (Decidable (_ ∧ _ ∧ _ ∧ _))
instance : Decidable call.StillOpen := inferInstanceAs (Decidable (_ ∧ _ ∧ _ ∧ _))

end ChannelSend

/-- This is `host_ddial_client_send_channel`. It returns the line that is put on the wire. -/
def sendChannel (ring : EchoRing) (call : ChannelSend) : EchoRing × Option Bytes :=
  if ¬ call.Open then (ring, none)
  else if call.cleanMsg = [] then (ring, none)
  else
    let wired (ring : EchoRing) (line : Option Bytes) : EchoRing × Option Bytes :=
      (ring, line.filter fun _ => decide call.StillOpen)
    if call.userMode then
      if clampChannel call.channel ≠ 1 then (ring, none)
      else
        match snprintf wireRoom (call.userBody ++ crlf) with
        | some line => wired (ring.rememberSent call.now call.userBody) (some line)
        | none => (ring, none)
    else wired ring call.linkLine

/-- A line that no remote runs as a command. -/
structure SafeLine (line : Bytes) : Prop where
  wire : ∃ body, line = body ++ crlf ∧ body.length ≤ maxBodyLen ∧
    (∀ c ∈ body, c < 0x80 ∧ c ≠ 13 ∧ c ≠ 10) ∧ body.head? ≠ some (byte '/')

def NoCommand (ring : EchoRing) (call : ChannelSend) : Prop :=
  call.userMode → ∀ line, (sendChannel ring call).2 = some line → SafeLine line

/-- The message of a user goes out. -/
def ChannelSend.Speaks (call : ChannelSend) : Prop :=
  call.userMode ∧ call.Open ∧ call.StillOpen ∧ call.cleanMsg ≠ [] ∧ clampChannel call.channel = 1

/-- The handle that is named has only bytes of seven bits on the wire and does not begin with a slash. -/
def PlainSpeaker (call : ChannelSend) : Prop :=
  ∀ handle, call.speaker = some handle →
    (∀ c ∈ sanitizeHandle handle maxHandleLen, c < 0x80) ∧ (sanitizeHandle handle maxHandleLen).head? ≠ some (byte '/')

section Bodies

variable {text body : Bytes}

theorem cleanBody_line (text : Bytes) :
    (cleanBody text (maxBodyLen + 1)).length ≤ maxBodyLen ∧
      ∀ c ∈ cleanBody text (maxBodyLen + 1), c ∈ text ∧ c ≠ 13 ∧ c ≠ 10 := by
  constructor
  · exact (length_take_le _ _).trans (min_le_right _ _)
  · intro c member
    have front := mem_of_mem_take member
    have kept := mem_takeWhile_imp front
    exact ⟨(List.takeWhile_prefix _).subset front, by simpa using kept⟩

theorem cleanBody_head (text : Bytes) :
    (cleanBody text (maxBodyLen + 1)).head? = text.head? ∨ cleanBody text (maxBodyLen + 1) = [] := by
  cases text with
  | nil => exact .inl rfl
  | cons c =>
    by_cases ends : c ≠ 13 ∧ c ≠ 10
    · left
      simp [cleanBody, ends]
    · right
      simp [cleanBody, ends]

theorem cleanBody_front {front : Bytes} (plain : ∀ c ∈ front, c ≠ 13 ∧ c ≠ 10) (short : front.length ≤ maxBodyLen)
    (rest : Bytes) : front <+: cleanBody (front ++ rest) (maxBodyLen + 1) := by
  have kept : (front ++ rest).takeWhile (fun c => c ≠ 13 ∧ c ≠ 10) =
      front ++ rest.takeWhile (fun c => c ≠ 13 ∧ c ≠ 10) :=
    takeWhile_append_of_pos (by simpa using plain)
  have room : min (maxBodyLen + 1 - 1) maxBodyLen = maxBodyLen := by decide
  rw [cleanBody, kept, room, take_append, take_of_length_le short]
  exact prefix_append _ _

theorem safeLine_iff (plain : ∀ c ∈ body, c ≠ 13 ∧ c ≠ 10) (short : body.length ≤ maxBodyLen) :
    SafeLine (body ++ crlf) ↔ (∀ c ∈ body, c < 0x80) ∧ body.head? ≠ some (byte '/') := by
  constructor
  · rintro ⟨other, same, -, seven, head⟩
    obtain rfl := append_cancel_right same
    exact ⟨fun c member => (seven c member).1, head⟩
  · rintro ⟨seven, head⟩
    exact ⟨body, rfl, short, fun c member => ⟨seven c member, plain c member⟩, head⟩

theorem cleanMsg_seven (call : ChannelSend) : ∀ c ∈ call.cleanMsg, c < 0x80 := by
  intro c member
  have kept := mem_normalizeOutboundText member
  have bounds : (0x7E : UInt8).toNat = 126 ∧ (0x80 : UInt8).toNat = 128 := by decide
  rw [UInt8.lt_iff_toNat_lt]
  rcases kept with ⟨-, high⟩ | rfl | rfl | rfl
  · have number := UInt8.le_iff_toNat_le.mp high
    omega
  · decide
  · decide
  · decide

end Bodies

section Sending

variable (ring : EchoRing) (call : ChannelSend)

theorem sendChannel_user (user : call.userMode) (line : Bytes) :
    (sendChannel ring call).2 = some line ↔ call.Speaks ∧ line = call.userBody ++ crlf := by
  have short : (cleanBody call.userText (maxBodyLen + 1)).length ≤ 255 := (cleanBody_line call.userText).1
  have fits : snprintf wireRoom (call.userBody ++ crlf) = some (call.userBody ++ crlf) := by
    apply if_pos
    rw [length_append]
    show (cleanBody call.userText (maxBodyLen + 1)).length + 2 < 4160
    omega
  rw [sendChannel, ChannelSend.Speaks]
  by_cases open' : call.Open
  · by_cases silent : call.cleanMsg = []
    · simp [silent]
    · by_cases tuned : clampChannel call.channel = 1
      · by_cases still : call.StillOpen
        · simp [open', silent, user, tuned, fits, Option.filter, eq_comm]
        · simp [open', silent, user, tuned, fits, still]
      · simp [user, tuned]
  · simp [open']

theorem userBody_alone (alone : call.speaker = none) :
    (∀ c ∈ call.userBody, c < 0x80) ∧ call.userBody.head? ≠ some (byte '/') := by
  have text : call.userText =
      ((if call.cleanMsg.head? = some (byte '/') then str " " else []) ++ call.cleanMsg).take (messageLimit - 1) := by
    rw [ChannelSend.userText, alone]
  constructor
  · intro c member
    have inside := ((cleanBody_line call.userText).2 c member).1
    rw [text] at inside
    rcases mem_append.mp (mem_of_mem_take inside) with space | message
    · split_ifs at space
      · obtain rfl := mem_singleton.mp space
        decide
      · cases space
    · exact cleanMsg_seven call c message
  · rcases cleanBody_head call.userText with same | none
    · show (cleanBody call.userText (maxBodyLen + 1)).head? ≠ some (byte '/')
      rw [same, text]
      split_ifs with slash
      · simp [messageLimit, str, byte]
      · cases message : call.cleanMsg with
        | nil => simp
        | cons =>
          rw [message] at slash
          simpa [messageLimit] using slash
    · show (cleanBody call.userText (maxBodyLen + 1)).head? ≠ some (byte '/')
      rw [none]
      simp

theorem userBody_named {handle : Bytes} (named : call.speaker = some handle) :
    ((∀ c ∈ call.userBody, c < 0x80) ∧ call.userBody.head? ≠ some (byte '/')) ↔
      (∀ c ∈ sanitizeHandle handle maxHandleLen, c < 0x80) ∧
        (sanitizeHandle handle maxHandleLen).head? ≠ some (byte '/') := by
  have size := sanitizeHandle_length handle maxHandleLen
  have plain : ∀ c ∈ sanitizeHandle handle maxHandleLen ++ str ": ", c ≠ 13 ∧ c ≠ 10 := by
    intro c member
    rcases mem_append.mp member with inside | inside
    · have allowed := (sanitizeHandle_mem inside).2.2
      simp only [forbiddenInHandle, decide_eq_false_iff_not, not_or] at allowed
      exact allowed.2.2.2.2.2
    · rcases mem_cons.mp inside with rfl | inside
      · decide
      · obtain rfl := mem_singleton.mp inside
        decide
  have front : (sanitizeHandle handle maxHandleLen ++ str ": ").length ≤ 27 := by
    rw [length_append]
    exact add_le_add size le_rfl
  have text : call.userText = (sanitizeHandle handle maxHandleLen ++ str ": ") ++
      call.cleanMsg.take (messageLimit - 1 - (sanitizeHandle handle maxHandleLen ++ str ": ").length) := by
    rw [ChannelSend.userText, named]
    show ((sanitizeHandle handle maxHandleLen ++ str ": ") ++ call.cleanMsg).take (messageLimit - 1) = _
    rw [take_append, take_of_length_le (front.trans (by decide))]
  have starts : sanitizeHandle handle maxHandleLen ++ str ": " <+: call.userBody := by
    rw [ChannelSend.userBody, text]
    exact cleanBody_front plain (front.trans (by decide)) _
  obtain ⟨rest, whole⟩ := starts
  have head : call.userBody.head? = some (byte '/') ↔ (sanitizeHandle handle maxHandleLen).head? = some (byte '/') := by
    rw [← whole]
    cases sanitizeHandle handle maxHandleLen with
    | nil => simp [str, byte]
    | cons => simp
  rw [ne_eq, head, and_congr_left_iff]
  intro _
  constructor
  · intro seven c member
    apply seven c
    rw [← whole]
    exact mem_append_left _ (mem_append_left _ member)
  · intro seven c member
    have inside := ((cleanBody_line call.userText).2 c member).1
    rw [text] at inside
    rcases mem_append.mp inside with named | message
    · rcases mem_append.mp named with clean | mark
      · exact seven c clean
      · rcases mem_cons.mp mark with rfl | mark
        · decide
        · obtain rfl := mem_singleton.mp mark
          decide
    · exact cleanMsg_seven call c (mem_of_mem_take message)

/-- In user mode a line is safe exactly when the handle that it names is plain. -/
theorem sendChannel_safe_iff : NoCommand ring call ↔ (call.Speaks → PlainSpeaker call) := by
  have plain : ∀ c ∈ call.userBody, c ≠ 13 ∧ c ≠ 10 := fun c member => ((cleanBody_line call.userText).2 c member).2
  have short : call.userBody.length ≤ maxBodyLen := (cleanBody_line call.userText).1
  have body : SafeLine (call.userBody ++ crlf) ↔ PlainSpeaker call := by
    rw [safeLine_iff plain short]
    cases named : call.speaker with
    | none => exact iff_of_true (userBody_alone call named) fun handle known => (by rw [named] at known; cases known)
    | some handle =>
      rw [userBody_named call named]
      constructor
      · intro good other known
        rw [named] at known
        exact Option.some.inj known ▸ good
      · exact fun good => good handle named
  constructor
  · intro safe speaks
    exact body.mp (safe speaks.1 _ ((sendChannel_user ring call speaks.1 _).mpr ⟨speaks, rfl⟩))
  · intro condition user line sent
    obtain ⟨speaks, rfl⟩ := (sendChannel_user ring call user line).mp sent
    exact body.mpr (condition speaks)

end Sending

def slashCall : ChannelSend :=
  { first := ⟨true, true, 5, .approved⟩, second := ⟨true, true, 5, .approved⟩, clientSlot := some 3, userMode := true,
    clientHandle := .print (str "Chatter"), now := 0, fromSlot := 0, handle := some ⟨str "/q", by decide⟩, channel := 1,
    message := ⟨str "hi", by decide⟩ }

/-- The slash of a handle is the first byte of the line. -/
theorem sendChannel_slash_handle : ¬ NoCommand .empty slashCall := by
  intro safe
  obtain ⟨body, same, -, -, head⟩ := safe rfl (str "/q: hi" ++ crlf) (by decide)
  obtain rfl := append_cancel_right same
  exact head (by decide)

end SshChatter.Ddial
