import SshChatter.Ddial.UserLine

namespace SshChatter.Ddial
open CString DdialProtocol List

/-- This is `isalnum` in the C locale. -/
def isAlnum (c : UInt8) : Bool := isDigit c ∨ (65 ≤ c ∧ c ≤ 90) ∨ (97 ≤ c ∧ c ≤ 122)

def echoKey (text : Bytes) : Bytes := ((text.filter isAlnum).map toLower).take 255

def echoWindow : Nat := 90

/-- One remembered line with the second at which it was sent. An empty key stands for none. -/
structure RecentSent where
  key : Bytes
  sentAt : Nat
  deriving DecidableEq

structure EchoRing where
  slots : Fin 8 → RecentSent
  head : Fin 8

def EchoRing.empty : EchoRing := ⟨fun _ => ⟨[], 0⟩, 0⟩

def EchoRing.rememberSent (ring : EchoRing) (now : Nat) (text : Bytes) : EchoRing :=
  ⟨Function.update ring.slots ring.head ⟨echoKey text, now⟩, ring.head + 1⟩

def RecentSent.matches (slot : RecentSent) (now : Nat) (key : Bytes) : Bool :=
  slot.key ≠ [] ∧ ¬ (slot.sentAt + echoWindow < now) ∧ slot.key = key

/-- This is `ddial_client_is_recent_echo`. A match is consumed. -/
def EchoRing.isRecentEcho (ring : EchoRing) (now : Nat) (text : Bytes) : EchoRing × Bool :=
  if echoKey text = [] then (ring, false)
  else
    match (finRange 8).find? fun i => (ring.slots i).matches now (echoKey text) with
    | some i => (⟨Function.update ring.slots i ⟨[], (ring.slots i).sentAt⟩, ring.head⟩, true)
    | none => (ring, false)

structure PrivateClient where
  ring : EchoRing
  userMode : Bool

def normalizeOutboundText (src : Bytes) : Bytes :=
  let kept := (src.filter fun c => (0x20 ≤ c ∧ c ≤ 0x7E) ∨ c = 9 ∨ c = 10 ∨ c = 13).take (messageLimit - 1)
  if src.any (fun c => 0x80 ≤ c) then [] else if kept.any (fun c => 0x20 < c) then kept else []

/-- A call of `host_ddial_client_send_private` on a client that is connected and approved. -/
structure PrivateSend where
  now : Nat
  targetSlot : UInt16
  ourSlot : UInt16
  ourHandle : CStr
  message : CStr

def PrivateSend.wireText (send : PrivateSend) (userMode : Bool) : Bytes :=
  let cleanMsg := normalizeOutboundText send.message.val
  if userMode then
    byte '/' :: byte 'P' :: decimal send.targetSlot.toNat ++ byte ' ' :: cleanBody
      ((send.ourHandle.val ++ (if send.ourHandle.val = [] then [] else str ": ") ++ cleanMsg).take (messageLimit - 1))
      (maxBodyLen + 1)
  else
    byte '/' :: byte 'P' :: decimal send.targetSlot.toNat ++ byte ' ' ::
      linkIdentityBody send.ourSlot 1 .password send.ourHandle.val cleanMsg

def sendPrivate (client : PrivateClient) (send : PrivateSend) : PrivateClient × Option Bytes :=
  if send.targetSlot = 0 ∨ normalizeOutboundText send.message.val = [] then (client, none)
  else
    ({ client with ring := client.ring.rememberSent send.now (normalizeOutboundText send.message.val) },
      some (send.wireText client.userMode))

def handleIsLocal (locals : List Bytes) (handle : Bytes) : Bool :=
  handle ≠ [] ∧ locals.any fun known => known.map toLower = handle.map toLower

/-- A call of `ddial_client_broadcast_line` with the handles that are local at the time. -/
structure PrivateReceive where
  now : Nat
  locals : List Bytes
  line : Bytes

/-- What becomes of a line. A line that is no private message goes on to the room. -/
inductive PrivateOutcome where
  | delivered (pm : IncomingPrivate)
  | dropped
  | toRoom
  deriving DecidableEq

def broadcastPrivate (client : PrivateClient) (receive : PrivateReceive) : PrivateClient × PrivateOutcome :=
  match parseIncomingPrivate maxHandleLen receive.line with
  | none => (client, .toRoom)
  | some pm =>
    let echo := client.ring.isRecentEcho receive.now pm.message
    ({ client with ring := echo.1 },
      if echo.2 = false ∧ handleIsLocal receive.locals pm.handle = false then .delivered pm else .dropped)

structure SentLine where
  text : Bytes
  line : Bytes
  sentAt : Nat
  deriving DecidableEq

/-- The client with the lines that it has sent, the newest first. -/
structure PrivateState where
  client : PrivateClient
  sent : List SentLine

/-- One call that sends or receives a private message. -/
inductive PrivateEvent where
  | send (send : PrivateSend)
  | receive (receive : PrivateReceive)

def PrivateState.step (state : PrivateState) : PrivateEvent → PrivateState
  | .send send =>
    match sendPrivate state.client send with
    | (client, some line) => ⟨client, ⟨normalizeOutboundText send.message.val, line, send.now⟩ :: state.sent⟩
    | (client, none) => ⟨client, state.sent⟩
  | .receive receive => ⟨(broadcastPrivate state.client receive).1, state.sent⟩

def PrivateState.start (userMode : Bool) : PrivateState := ⟨⟨.empty, userMode⟩, []⟩

def EachEvent (condition : PrivateState → PrivateEvent → Prop) (state : PrivateState) : List PrivateEvent → Prop
  | [] => True
  | event :: events => condition state event ∧ EachEvent condition (state.step event) events

def PrivateState.IsReturn (state : PrivateState) (receive : PrivateReceive) (s : SentLine) : Prop :=
  s ∈ state.sent.take 8 ∧ ¬ (s.sentAt + echoWindow < receive.now) ∧ receive.line = handedOn s.line

def Handled (state : PrivateState) : PrivateEvent → Prop
  | .send _ => True
  | .receive receive =>
    ((∃ s, state.IsReturn receive s) → (broadcastPrivate state.client receive).2 = .dropped) ∧
      ((¬ ∃ s, state.IsReturn receive s) → ∀ pm, parseIncomingPrivate maxHandleLen receive.line = some pm →
        handleIsLocal receive.locals pm.handle = false → (broadcastPrivate state.client receive).2 = .delivered pm)

def EchoRing.slotOf (ring : EchoRing) (age : Nat) : Fin 8 := ring.head - 1 - Fin.ofNat 8 age

/-- The keys tell the received line from the lines of the station. A line from elsewhere that is not from a local handle
shares its key with no line that is remembered in the window. The return of a line has a sender that is still local, or
it came over a station link, the line is remembered still, and the wire has cut nothing from its key. -/
def KeysTell (state : PrivateState) : PrivateEvent → Prop
  | .send _ => True
  | .receive receive =>
    ((¬ ∃ s, state.IsReturn receive s) → ∀ pm, parseIncomingPrivate maxHandleLen receive.line = some pm →
        handleIsLocal receive.locals pm.handle = false →
        ∀ i, (state.client.ring.slots i).matches receive.now (echoKey pm.message) = false) ∧
      ((∃ s, state.IsReturn receive s) →
        (∃ pm, parseIncomingPrivate maxHandleLen receive.line = some pm ∧
            handleIsLocal receive.locals pm.handle) ∨
          state.client.userMode = false ∧
          ∃ age s, age < 8 ∧ state.sent[age]? = some s ∧ ¬ (s.sentAt + echoWindow < receive.now) ∧
            receive.line = handedOn s.line ∧ (state.client.ring.slots (state.client.ring.slotOf age)).key ≠ [] ∧
            echoKey (cleanBody s.text (maxBodyLen + 1)) = echoKey s.text)

section Ring

/-- Each of the last eight lines is in its slot with its second, and with its key unless that was consumed. The lines
were sent in the mode of the client. -/
structure RingHolds (state : PrivateState) : Prop where
  slot : ∀ age s, age < 8 → state.sent[age]? = some s →
    (state.client.ring.slots (state.client.ring.slotOf age)).sentAt = s.sentAt ∧
      ((state.client.ring.slots (state.client.ring.slotOf age)).key = [] ∨
        (state.client.ring.slots (state.client.ring.slotOf age)).key = echoKey s.text)
  line : ∀ s ∈ state.sent, ∃ send : PrivateSend, s.text = normalizeOutboundText send.message.val ∧
    s.line = send.wireText state.client.userMode

theorem ringHolds_start (userMode : Bool) : RingHolds (.start userMode) where
  slot := by
    intro age s _ listed
    cases listed
  line := by
    intro s listed
    cases listed

variable {state : PrivateState} (ring : EchoRing)

theorem slotOf_zero (now : Nat) (text : Bytes) : (ring.rememberSent now text).slotOf 0 = ring.head := by
  have each : ∀ head : Fin 8, head + 1 - 1 - Fin.ofNat 8 0 = head := by decide
  exact each ring.head

theorem slotOf_succ (now : Nat) (text : Bytes) {age : Nat} (old : age < 7) :
    (ring.rememberSent now text).slotOf (age + 1) = ring.slotOf age ∧ ring.slotOf age ≠ ring.head := by
  have each : ∀ (head : Fin 8) (age : Fin 7), head + 1 - 1 - Fin.ofNat 8 (age.val + 1) = head - 1 - Fin.ofNat 8
      age.val ∧ head - 1 - Fin.ofNat 8 age.val ≠ head := by decide
  exact each ring.head ⟨age, old⟩

/-- A line that is sent takes the slot of the oldest one. -/
theorem RingHolds.send (holds : RingHolds state) (send : PrivateSend) : RingHolds (state.step (.send send)) := by
  by_cases skipped : send.targetSlot = 0 ∨ normalizeOutboundText send.message.val = []
  · rw [PrivateState.step, sendPrivate, if_pos skipped]
    exact ⟨holds.slot, holds.line⟩
  · have sends : state.step (.send send) =
        ⟨⟨state.client.ring.rememberSent send.now (normalizeOutboundText send.message.val), state.client.userMode⟩,
          ⟨normalizeOutboundText send.message.val, send.wireText state.client.userMode, send.now⟩ :: state.sent⟩ := by
      rw [PrivateState.step, sendPrivate, if_neg skipped]
    rw [sends]
    constructor
    · intro age s recent listed
      cases age with
      | zero =>
        rw [getElem?_cons_zero, Option.some.injEq] at listed
        rw [slotOf_zero, ← listed]
        simp [EchoRing.rememberSent]
      | succ age =>
        obtain ⟨same, other⟩ := slotOf_succ state.client.ring send.now (normalizeOutboundText send.message.val)
          (Nat.lt_of_succ_lt_succ recent)
        rw [same]
        simp only [EchoRing.rememberSent, Function.update_of_ne other]
        exact holds.slot age s (Nat.lt_of_succ_lt recent) listed
    · intro s listed
      rcases mem_cons.mp listed with rfl | older
      · exact ⟨send, rfl, rfl⟩
      · exact holds.line s older

/-- A match is consumed and changes nothing else. -/
theorem isRecentEcho_slots (now : Nat) (text : Bytes) :
    (ring.isRecentEcho now text).1.head = ring.head ∧
      ∀ i, ((ring.isRecentEcho now text).1.slots i).sentAt = (ring.slots i).sentAt ∧
        (((ring.isRecentEcho now text).1.slots i).key = [] ∨
          ((ring.isRecentEcho now text).1.slots i).key = (ring.slots i).key) := by
  rw [EchoRing.isRecentEcho]
  split_ifs
  · exact ⟨rfl, fun i => ⟨rfl, Or.inr rfl⟩⟩
  · split
    next taken _ =>
      refine ⟨rfl, ?_⟩
      intro i
      by_cases same : i = taken
      · rw [same]
        simp
      · simp [Function.update_of_ne same]
    next => exact ⟨rfl, fun i => ⟨rfl, Or.inr rfl⟩⟩

theorem RingHolds.receive (holds : RingHolds state) (receive : PrivateReceive) :
    RingHolds (state.step (.receive receive)) := by
  rw [PrivateState.step, broadcastPrivate]
  split
  next => exact ⟨holds.slot, holds.line⟩
  next pm _ =>
    obtain ⟨head, slots⟩ := isRecentEcho_slots state.client.ring receive.now pm.message
    refine ⟨?_, holds.line⟩
    intro age s recent listed
    obtain ⟨second, key⟩ := holds.slot age s recent listed
    have same : (state.client.ring.isRecentEcho receive.now pm.message).1.slotOf age =
      state.client.ring.slotOf age := by
      rw [EchoRing.slotOf, EchoRing.slotOf, head]
    obtain ⟨second', key'⟩ := slots (state.client.ring.slotOf age)
    simp only [same]
    refine ⟨second'.trans second, ?_⟩
    rcases key' with consumed | kept
    · exact Or.inl consumed
    · rw [kept]
      exact key

theorem RingHolds.step (holds : RingHolds state) (event : PrivateEvent) : RingHolds (state.step event) := by
  cases event with
  | send send => exact holds.send send
  | receive receive => exact holds.receive receive

end Ring

theorem mem_normalizeOutboundText {src : Bytes} {c : UInt8} (listed : c ∈ normalizeOutboundText src) :
    (0x20 ≤ c ∧ c ≤ 0x7E) ∨ c = 9 ∨ c = 10 ∨ c = 13 := by
  simp only [normalizeOutboundText] at listed
  split_ifs at listed
  · cases listed
  · simpa using (mem_filter.mp (mem_of_mem_take listed)).2
  · cases listed

theorem visible_body (src : Bytes) :
    visible (cleanBody (normalizeOutboundText src) (maxBodyLen + 1)) =
      cleanBody (normalizeOutboundText src) (maxBodyLen + 1) := by
  apply visible_eq
  intro c listed
  have taken := mem_of_mem_take listed
  have kept := mem_normalizeOutboundText ((List.takeWhile_prefix _).subset taken)
  simp only [invisible, decide_eq_false_iff_not, UInt8.le_iff_toNat_le, UInt8.lt_iff_toNat_lt, ← UInt8.toNat_inj,
    ne_eq] at kept ⊢
  have sizes : (0x20 : UInt8).toNat = 32 ∧ (0x7E : UInt8).toNat = 126 ∧ (9 : UInt8).toNat = 9 ∧ (10 : UInt8).toNat =
      10 ∧ (13 : UInt8).toNat = 13 ∧ (0x7F : UInt8).toNat = 127 ∧ (0xFF : UInt8).toNat = 255 := by decide
  omega

/-- The return of a private line over a station link carries the body of the message. -/
theorem parse_return (send : PrivateSend) :
    ∃ pm, parseIncomingPrivate maxHandleLen (handedOn (send.wireText false)) = some pm ∧
      pm.message = cleanBody (normalizeOutboundText send.message.val) (maxBodyLen + 1) := by
  have body := visible_body send.message.val
  have bodySize : (cleanBody (normalizeOutboundText send.message.val) (maxBodyLen + 1)).length ≤ 255 :=
    (length_take_le _ _).trans (min_le_right _ _)
  have handleSize := sanitizeHandle_length send.ourHandle.val maxHandleLen
  have frontSize := privateFront_length send.targetSlot send.ourSlot 1 .password
  have front := privateFront_visible send.targetSlot send.ourSlot 1 .password
  have escape : invisible 0x1B := by decide
  have text : send.wireText false = privateFront send.targetSlot send.ourSlot 1 .password ++
      (sanitizeHandle send.ourHandle.val maxHandleLen ++ byte ')' :: byte ' ' ::
        cleanBody (normalizeOutboundText send.message.val) (maxBodyLen + 1)) := by
    rw [← privateLine_eq]
    rfl
  generalize cleanBody (normalizeOutboundText send.message.val) (maxBodyLen + 1) = message at *
  have kept : visible (send.wireText false) = privateFront send.targetSlot send.ourSlot 1 .password ++
      (visible (sanitizeHandle send.ourHandle.val maxHandleLen) ++ byte ')' :: byte ' ' :: message) := by
    rw [text, visible_append, visible_append, visible_eq front, show visible (byte ')' :: byte ' ' :: message) =
      byte ')' :: byte ' ' :: visible message from rfl, body]
  have noEscape : 0x1B ∉ send.wireText false := by
    rw [text, mem_append, mem_append, mem_cons, mem_cons, not_or, not_or, not_or, not_or]
    refine ⟨?_, fun inside => (sanitizeHandle_mem inside).2.1 rfl, by decide, by decide, ?_⟩
    · intro inside
      rw [front _ inside] at escape
      cases escape
    · intro inside
      rw [← body] at inside
      exact absurd (mem_filter.mp inside).2 (by decide)
  have fits : (visible (send.wireText false)).length ≤ messageLimit - 1 := by
    refine (visible_length _).trans ?_
    rw [text]
    simp only [length_append, length_cons, messageLimit, maxHandleWireLen] at *
    omega
  have parsed (handleCap : Nat) := parseIncomingPrivate_front handleCap send.targetSlot send.ourSlot 1 .password
    (visible_open send.ourHandle.val) (byte ' ' :: message)
  have raw : (sanitizeLine (messageLimit - 1) (send.wireText false)).dropWhile (· = 32) =
      privateFront send.targetSlot send.ourSlot 1 .password ++
        (visible (sanitizeHandle send.ourHandle.val maxHandleLen) ++ byte ')' :: byte ' ' :: message) := by
    rw [sanitizeLine_plain noEscape fits, kept]
    rfl
  have handed : handedOn (send.wireText false) = privateFront send.targetSlot send.ourSlot 1 .password ++
      (visible (sanitizeHandle send.ourHandle.val maxHandleLen) ++ byte ')' :: byte ' ' :: message) := by
    simp only [handedOn, raw, parsed]
    simp
  exact ⟨_, by rw [handed, parsed], rfl⟩

theorem isRecentEcho_match {ring : EchoRing} {now : Nat} {text : Bytes} {i : Fin 8}
    (live : (ring.slots i).matches now (echoKey text)) : (ring.isRecentEcho now text).2 := by
  have some' : echoKey text ≠ [] := by
    simp only [RecentSent.matches, decide_eq_true_eq] at live
    rw [← live.2.2]
    exact live.1
  have found : ((finRange 8).find? fun i => (ring.slots i).matches now (echoKey text)).isSome :=
    find?_isSome.mpr ⟨i, mem_finRange i, live⟩
  obtain ⟨taken, hit⟩ := Option.isSome_iff_exists.mp found
  rw [EchoRing.isRecentEcho, if_neg some', hit]

theorem isRecentEcho_none {ring : EchoRing} {now : Nat} {text : Bytes}
    (dead : ∀ i, (ring.slots i).matches now (echoKey text) = false) : (ring.isRecentEcho now text).2 = false := by
  have missing : ((finRange 8).find? fun i => (ring.slots i).matches now (echoKey text)) = none := by
    rw [find?_eq_none]
    intro i _
    rw [dead i]
    exact Bool.false_ne_true
  rw [EchoRing.isRecentEcho, missing]
  split_ifs <;> rfl

/-- One event whose keys tell the lines apart is handled. -/
theorem RingHolds.handled {state : PrivateState} (holds : RingHolds state) {event : PrivateEvent}
    (tell : KeysTell state event) : Handled state event := by
  cases event with
  | send => trivial
  | receive receive =>
    obtain ⟨elsewhere, returns⟩ := tell
    constructor
    · intro back
      rcases returns back with ⟨pm, parsed, here⟩ | ⟨link, age, s, recent, listed, window, line, kept, same⟩
      · simp [broadcastPrivate, parsed, here]
      · obtain ⟨send, text, wire⟩ := holds.line s (mem_of_getElem? listed)
        obtain ⟨second, key⟩ := holds.slot age s recent listed
        obtain ⟨pm, parsed, message⟩ := parse_return send
        rw [link] at wire
        rw [← wire, ← line] at parsed
        rw [← text] at message
        have live : (state.client.ring.slots (state.client.ring.slotOf age)).matches receive.now
            (echoKey pm.message) := by
          simp only [RecentSent.matches, decide_eq_true_eq]
          rw [message, same, second]
          exact ⟨kept, window, key.resolve_left kept⟩
        simp [broadcastPrivate, parsed, isRecentEcho_match live]
    · intro notBack pm parsed foreign
      have dead := isRecentEcho_none (elsewhere notBack pm parsed foreign)
      simp [broadcastPrivate, parsed, dead, foreign]

/-- In every run in which the keys tell the received lines from the lines of the station, private lines from elsewhere
are delivered and returns are dropped. -/
theorem private_messages_handled (userMode : Bool) (events : List PrivateEvent)
    (tell : EachEvent KeysTell (.start userMode) events) : EachEvent Handled (.start userMode) events := by
  have run : ∀ state : PrivateState, RingHolds state → EachEvent KeysTell state events →
    EachEvent Handled state events := by
    clear tell
    induction events with
    | nil => exact fun _ _ _ => trivial
    | cons event events ih =>
      intro state holds tell
      exact ⟨holds.handled tell.1, ih (state.step event) (holds.step event) tell.2⟩
  exact run _ (ringHolds_start userMode) tell

/-- A line that returns while its sender is not local any more is dropped by its key. -/
theorem private_messages_handled_return :
    EachEvent Handled (.start false)
      [.send ⟨100, 5, 2, ⟨str "Joe", by decide⟩, ⟨str "see you at 8", by decide⟩⟩,
        .receive ⟨150, [], str "/P5 #2[T1:Joe) see you at 8"⟩] := by
  apply private_messages_handled
  have sent : ((PrivateState.start false).step
      (.send ⟨100, 5, 2, ⟨str "Joe", by decide⟩, ⟨str "see you at 8", by decide⟩⟩)).sent =
        [⟨str "see you at 8", str "/P5 #2[T1:Joe) see you at 8", 100⟩] := by decide +kernel
  have back : ((PrivateState.start false).step
      (.send ⟨100, 5, 2, ⟨str "Joe", by decide⟩, ⟨str "see you at 8", by decide⟩⟩)).IsReturn
        ⟨150, [], str "/P5 #2[T1:Joe) see you at 8"⟩ ⟨str "see you at 8", str "/P5 #2[T1:Joe) see you at 8", 100⟩ := by
    refine ⟨by rw [sent]; exact mem_cons_self, by decide, by decide +kernel⟩
  refine ⟨trivial, ⟨fun none' => absurd ⟨_, back⟩ none', fun _ => Or.inr ⟨rfl, 0, _, by decide, by rw [sent]; rfl, ?_⟩⟩,
    trivial⟩
  exact ⟨by decide, by decide +kernel, by decide +kernel, by decide +kernel⟩

/-- A message of somebody else with the letters of our own message is lost. -/
theorem private_message_lost :
    parseIncomingPrivate maxHandleLen (str "/P2 #9[T1:Bob) Hello!") = some ⟨2, 9, 1, str "Bob", str "Hello!"⟩ ∧
      handleIsLocal [str "Joe"] (str "Bob") = false ∧
      (broadcastPrivate ((PrivateState.start false).step
        (.send ⟨100, 5, 2, ⟨str "Joe", by decide⟩, ⟨str "hello", by decide⟩⟩)).client
          ⟨110, [str "Joe"], str "/P2 #9[T1:Bob) Hello!"⟩).2 = .dropped ∧
      ¬ EachEvent Handled (.start false)
        [.send ⟨100, 5, 2, ⟨str "Joe", by decide⟩, ⟨str "hello", by decide⟩⟩,
          .receive ⟨110, [str "Joe"], str "/P2 #9[T1:Bob) Hello!"⟩] := by
  have parsed : parseIncomingPrivate maxHandleLen (str "/P2 #9[T1:Bob) Hello!") =
      some ⟨2, 9, 1, str "Bob", str "Hello!"⟩ := by decide +kernel
  have foreign : handleIsLocal [str "Joe"] (str "Bob") = false := by decide +kernel
  have lost : (broadcastPrivate ((PrivateState.start false).step
      (.send ⟨100, 5, 2, ⟨str "Joe", by decide⟩, ⟨str "hello", by decide⟩⟩)).client
        ⟨110, [str "Joe"], str "/P2 #9[T1:Bob) Hello!"⟩).2 = .dropped := by decide +kernel
  refine ⟨parsed, foreign, lost, ?_⟩
  rintro ⟨-, ⟨-, delivers⟩, -⟩
  have elsewhere : ¬ ∃ s, ((PrivateState.start false).step
      (.send ⟨100, 5, 2, ⟨str "Joe", by decide⟩, ⟨str "hello", by decide⟩⟩)).IsReturn
        ⟨110, [str "Joe"], str "/P2 #9[T1:Bob) Hello!"⟩ s := by
    rintro ⟨s, listed, -, line⟩
    rw [mem_singleton.mp listed] at line
    exact absurd line (by decide +kernel)
  have outcome := delivers elsewhere _ parsed foreign
  cases outcome

end SshChatter.Ddial
