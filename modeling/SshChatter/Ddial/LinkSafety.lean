import SshChatter.Ddial.HangUpNotice

namespace SshChatter.Ddial
open CString DdialProtocol FramedText List

section Parts

def eventParts (user : LinkUser) (front : Bytes) : List (Bytes × Bytes) :=
  if user.isLink then [(front ++ (user.identityHead ++ [byte '=']), visible user.wireHandle)]
  else if user.tier = .guest then [(front ++ (user.identityHead ++ [byte ':']) ++ [byte '?'], [])]
  else if 0 < user.account then
    [(front ++ (user.identityHead ++ [byte ':']), visible user.wireHandle),
      ([byte ':', byte '#'] ++ decimal user.account.toNat ++ [byte '*'], [])]
  else [(front ++ (user.identityHead ++ [byte ':']), visible user.wireHandle)]

def eventTexts (user : LinkUser) : List Bytes :=
  if user.isLink = false ∧ user.tier = .guest then [] else [visible user.wireHandle]

def entryParts (user : LinkUser) : List (Bytes × Bytes) :=
  if user.isLink then
    [(byte ' ' :: (user.identityHead ++ [byte '=']), visible user.wireHandle),
      (byte ':' :: decimal user.account.toNat, [])]
  else if user.tier = .guest then [(byte ' ' :: (user.identityHead ++ [byte ':']), visible user.wireHandle)]
  else
    [(byte ' ' :: (user.identityHead ++ [byte ':']), visible user.wireHandle),
      (byte ':' :: decimal user.account.toNat, [])]

def eventFront (stationLocked isLogin : Bool) : Bytes :=
  str "[LINK] -->" ++ [if stationLocked then byte ',' else byte '.'] ++ str " " ++
    [if isLogin then byte '+' else byte '-'] ++ str " "

def listFront (stationLocked : Bool) : Bytes := str "[SYSOP] -" ++ [if stationLocked then byte ',' else byte '.']

def listParts (station : Bytes) (stationLocked : Bool) (users : List LinkUser) : List (Bytes × Bytes) :=
  (listFront stationLocked, visible (sanitizeHandle station maxHandleLen)) :: users.flatMap entryParts

variable (user : LinkUser)

theorem identityHead_plain : ∀ c ∈ user.identityHead, invisible c = false ∧ c ≠ byte '^' := by
  intro c listed
  simp only [LinkUser.identityHead, mem_append, mem_cons] at listed
  have number (n : Nat) (digit : c ∈ decimal n) : invisible c = false ∧ c ≠ byte '^' := by
    refine ⟨visible_decimal n c digit, ?_⟩
    rintro rfl
    exact absurd (decimal_isDigit n _ digit) (by decide)
  rcases listed with (rfl | digit) | rfl | rfl | digit
  · decide
  · exact number _ digit
  · cases user.tier <;> decide
  · decide
  · exact number _ digit

theorem decimal_plain (n : Nat) : ∀ c ∈ decimal n, invisible c = false ∧ c ≠ byte '^' := by
  intro c digit
  refine ⟨visible_decimal n c digit, ?_⟩
  rintro rfl
  exact absurd (decimal_isDigit n _ digit) (by decide)

theorem shown_decimal (n : Nat) : shown (decimal n) = decimal n := shown_eq (decimal_plain n)

theorem shown_identityHead : shown user.identityHead = user.identityHead :=
  shown_eq (identityHead_plain user)

theorem shown_handle (handle : Bytes) :
    shown (sanitizeHandle handle maxHandleLen) = visible (sanitizeHandle handle maxHandleLen) := by
  have same : ∀ c ∈ visible (sanitizeHandle handle maxHandleLen), caret c = c := by
    intro c listed
    apply if_neg
    rintro rfl
    exact absurd (sanitizeHandle_mem (mem_of_mem_filter listed)).2.2 (by decide)
  rw [shown, map_congr_left same, map_id']

theorem shown_cons {c : UInt8} (plain : invisible c = false ∧ c ≠ byte '^') (text : Bytes) :
    shown (c :: text) = c :: shown text := by
  have first : shown [c] = [c] := shown_eq fun d listed => by rwa [mem_singleton.mp listed]
  exact (shown_append [c] text).trans (by rw [first]; rfl)

theorem framed_eventParts (front : Bytes) : framed (eventParts user front) = front ++ shown user.eventIdentity := by
  have handle : shown user.wireHandle = visible user.wireHandle := shown_handle _
  have equals (text : Bytes) : shown (byte '=' :: text) = byte '=' :: shown text := shown_cons (by decide) text
  have colon (text : Bytes) : shown (byte ':' :: text) = byte ':' :: shown text := shown_cons (by decide) text
  have question (text : Bytes) : shown (byte '?' :: text) = byte '?' :: shown text := shown_cons (by decide) text
  have hash (text : Bytes) : shown (byte '#' :: text) = byte '#' :: shown text := shown_cons (by decide) text
  have star (text : Bytes) : shown (byte '*' :: text) = byte '*' :: shown text := shown_cons (by decide) text
  have empty : shown [] = [] := rfl
  rw [eventParts, LinkUser.eventIdentity]
  split_ifs
  all_goals
    simp only [framed, map_cons, map_nil, flatten_cons, flatten_nil, append_nil, append_assoc,
      cons_append, nil_append, shown_append, shown_identityHead, shown_decimal, handle, equals, colon, question,
      hash, star, empty]

theorem framed_append (parts parts' : List (Bytes × Bytes)) :
    framed (parts ++ parts') = framed parts ++ framed parts' := by
  rw [framed, map_append, flatten_append]
  rfl

theorem framed_entryParts : framed (entryParts user) = shown user.entryText := by
  have handle : shown user.wireHandle = visible user.wireHandle := shown_handle _
  have blank (text : Bytes) : shown (byte '^' :: text) = byte ' ' :: shown text := shown_append [byte '^'] text
  have equals (text : Bytes) : shown (byte '=' :: text) = byte '=' :: shown text := shown_cons (by decide) text
  have colon (text : Bytes) : shown (byte ':' :: text) = byte ':' :: shown text := shown_cons (by decide) text
  rw [entryParts, LinkUser.entryText]
  split_ifs
  all_goals
    simp only [framed, map_cons, map_nil, flatten_cons, flatten_nil, append_nil, append_assoc,
      cons_append, nil_append, shown_append, shown_identityHead, shown_decimal, handle, blank, equals, colon]

theorem framed_entries (users : List LinkUser) :
    framed (users.flatMap entryParts) = shown (users.map LinkUser.entryText).flatten := by
  induction users with
  | nil => rfl
  | cons user users ih =>
    rw [flatMap_cons, framed_append, framed_entryParts, ih, map_cons, flatten_cons, shown_append]

theorem eventFront_frame (stationLocked isLogin : Bool) : NoticeFrame (eventFront stationLocked isLogin) := by
  have quiet : ¬ Notice (str "LINK] -->" ++ [if stationLocked then byte ',' else byte '.'] ++ str " ") := by
    cases stationLocked
    · exact stationWords_quiet (str "LINK] -->. ") (by simp)
    · exact stationWords_quiet (str "LINK] -->, ") (by simp)
  have sign : noticeByte (toLower (if isLogin then byte '+' else byte '-')) = false := by
    cases isLogin <;> decide
  exact ((noticeFrame_byte (by decide)).around quiet (noticeFrame_byte sign)).concat_blank

theorem listFront_frame (stationLocked : Bool) : NoticeFrame (listFront stationLocked) := by
  have quiet : ¬ Notice (str "SYSOP] -") := stationWords_quiet _ (by simp)
  have lock : noticeByte (toLower (if stationLocked then byte ',' else byte '.')) = false := by
    cases stationLocked <;> decide
  exact (noticeFrame_byte (by decide)).around quiet (noticeFrame_byte lock)

theorem eventText_shown (stationLocked isLogin : Bool) :
    str "[LINK] " ++ shown (user.eventText stationLocked isLogin) =
      framed (eventParts user (eventFront stationLocked isLogin)) := by
  rw [framed_eventParts]
  cases stationLocked <;> cases isLogin
  all_goals
    rfl

theorem eventParts_texts (front : Bytes) :
    (∀ field ∈ (eventParts user front).map Prod.snd, ¬ Notice field) ↔ ∀ text ∈ eventTexts user, ¬ Notice text := by
  rw [eventParts, eventTexts]
  split_ifs with link anonymous guest other
  all_goals simp_all [not_notice_nil]

theorem eventParts_frames (stationLocked isLogin : Bool) :
    ∀ part ∈ eventParts user (eventFront stationLocked isLogin), NoticeFrame part.1 := by
  have front (separator : UInt8) (foreign : noticeByte (toLower separator) = false) :
      NoticeFrame (eventFront stationLocked isLogin ++ (user.identityHead ++ [separator])) :=
    (eventFront_frame stationLocked isLogin).append (noticeFrame_identity user foreign)
  have account : NoticeFrame ([byte ':', byte '#'] ++ decimal user.account.toNat ++ [byte '*']) :=
    (((noticeFrame_byte (c := byte ':') (by decide)).append (noticeFrame_byte (c := byte '#') (by decide))).append
      (noticeFrame_decimal _)).append (noticeFrame_byte (by decide))
  have guest := (front (byte ':') (by decide)).append (noticeFrame_byte (c := byte '?') (by decide))
  intro part listed
  rw [eventParts] at listed
  split_ifs at listed
  all_goals simp only [mem_cons, not_mem_nil, or_false] at listed
  · rw [listed]
    exact front (byte '=') (by decide)
  · rw [listed]
    exact guest
  · rcases listed with rfl | rfl
    · exact front (byte ':') (by decide)
    · exact account
  · rw [listed]
    exact front (byte ':') (by decide)

theorem listParts_frames (station : Bytes) (stationLocked : Bool) (users : List LinkUser) :
    ∀ part ∈ listParts station stationLocked users, NoticeFrame part.1 := by
  intro part listed
  rcases mem_cons.mp listed with rfl | listed
  · exact listFront_frame stationLocked
  · obtain ⟨user, -, inside⟩ := mem_flatMap.mp listed
    have identity (separator : UInt8) (foreign : noticeByte (toLower separator) = false) :
        NoticeFrame (byte ' ' :: (user.identityHead ++ [separator])) := (noticeFrame_identity user foreign).blank
    have account : NoticeFrame (byte ':' :: decimal user.account.toNat) :=
      (noticeFrame_byte (c := byte ':') (by decide)).append (noticeFrame_decimal _)
    rw [entryParts] at inside
    split_ifs at inside
    all_goals simp only [mem_cons, not_mem_nil, or_false] at inside
    · rcases inside with rfl | rfl
      · exact identity _ (by decide)
      · exact account
    · rw [inside]
      exact identity _ (by decide)
    · rcases inside with rfl | rfl
      · exact identity _ (by decide)
      · exact account

end Parts

/-- An e-mail line that `ddial_parse_incoming_email` accepts. -/
structure MailLine where
  line : Bytes
  clean : CleanLine line
  accepted : (parseIncomingEmail maxHandleLen line).isSome

/-- The texts of an e-mail in which the client looks for a notice. A line that is no e-mail any more once it has been
sanitized is looked at as a whole. -/
def MailLine.texts (mail : MailLine) : List Bytes :=
  match parseIncomingEmail maxHandleLen (lineStart mail.line) with
  | some email =>
    visibleFields (messageLimit - 1)
      [(str "[E-MAIL #" ++ decimalPadded email.fromId ++ str "@" ++ decimalPadded email.fromStation ++ str " ",
        email.handle),
        (str "] ", email.message)]
  | none => [lineStart mail.line]

inductive UserLine where
  | chat (slot : UInt16) (channel : UInt8) (tier : UserTier) (handle message : CStr)
  | dualChat (slot : UInt16) (channel : UInt8) (tier : UserTier) (handle message : CStr)
  | priv (target slot : UInt16) (channel : UInt8) (tier : UserTier) (handle message : CStr)
  | email (mail : MailLine)
  | login (user : LinkUser) (stationLocked : Bool)
  | logout (user : LinkUser) (stationLocked : Bool)
  | stationList (station : CStr) (stationLocked : Bool) (users : List LinkUser)

/-- The formatters produce these bytes for the line. A station list is a header with entries that leave room for the
terminator. -/
def UserLine.Sent : UserLine → Bytes → Prop
  | .chat slot channel tier handle message, wire =>
    ∃ dstCap, formatLinkChat dstCap slot channel tier handle.val message.val = some wire
  | .dualChat slot channel tier handle message, wire =>
    ∃ dstCap, formatLinkDualChat dstCap slot channel tier handle.val message.val = some wire
  | .priv target slot channel tier handle message, wire =>
    ∃ dstCap, formatLinkPrivate dstCap target slot channel tier handle.val message.val = some wire
  | .email mail, wire => wire = mail.line ++ crlf
  | .login user stationLocked, wire => ∃ dstCap, formatLinkLogin user dstCap stationLocked = some wire
  | .logout user stationLocked, wire => ∃ dstCap, formatLinkLogout user dstCap stationLocked = some wire
  | .stationList station stationLocked users, wire =>
    ∃ dstCap header entries, formatBroadcastHeader dstCap station.val stationLocked = some header ∧
      List.Forall₂ (fun user entry => formatBroadcastEntry user dstCap = some entry) users entries ∧
      (header ++ entries.flatten).length + 3 ≤ messageLimit ∧ wire = header ++ entries.flatten ++ crlf

def UserLine.Harmless : UserLine → Prop
  | .chat .. => True
  | .dualChat .. => True
  | .priv .. => True
  | .email mail => ∀ text ∈ mail.texts, ¬ Notice text
  | .login user _ => ∀ text ∈ eventTexts user, ¬ Notice text
  | .logout user _ => ∀ text ∈ eventTexts user, ¬ Notice text
  | .stationList station stationLocked users =>
    ∀ text ∈ visibleFields (messageLimit - 1) (listParts station.val stationLocked users), ¬ Notice text

section Clean

def wireByte (c : UInt8) : Bool := cleanByte c ∧ c ≠ 0x1B

theorem wireByte_digit {c : UInt8} (digit : isDigit c) : wireByte c := by
  simp only [isDigit, wireByte, cleanByte, decide_eq_true_eq, UInt8.le_iff_toNat_le, ne_eq, ← UInt8.toNat_inj] at *
  have sizes : (48 : UInt8).toNat = 48 ∧ (13 : UInt8).toNat = 13 ∧ (10 : UInt8).toNat = 10 ∧ (0 : UInt8).toNat = 0 ∧
      (0x1B : UInt8).toNat = 27 := by decide
  omega

theorem wireByte_decimal (n : Nat) : ∀ c ∈ decimal n, wireByte c :=
  fun c digit => wireByte_digit (decimal_isDigit n c digit)

theorem wireByte_handle (handle : CStr) : ∀ c ∈ sanitizeHandle handle.val maxHandleLen, wireByte c := by
  intro c listed
  obtain ⟨inside, noEscape, allowed⟩ := sanitizeHandle_mem listed
  have noNul : c ≠ 0 := fun zero => handle.property (zero ▸ inside)
  simp only [forbiddenInHandle, decide_eq_false_iff_not, not_or] at allowed
  simp only [wireByte, cleanByte, decide_eq_true_eq]
  exact ⟨⟨noNul, allowed.2.2.2.2.2.1, allowed.2.2.2.2.2.2⟩, noEscape⟩

theorem cleanByte_body (message : CStr) : ∀ c ∈ cleanBody message.val (maxBodyLen + 1), cleanByte c := by
  intro c listed
  have taken := mem_of_mem_take listed
  have stop := mem_takeWhile_imp taken
  have noNul : c ≠ 0 := by
    rintro rfl
    exact message.property ((List.takeWhile_prefix _).subset taken)
  simp only [decide_eq_true_eq] at stop
  simp only [cleanByte, decide_eq_true_eq]
  exact ⟨noNul, stop⟩

theorem cleanByte_of_wireByte {c : UInt8} (wire : wireByte c) : cleanByte c := by
  simp only [wireByte, decide_eq_true_eq] at wire
  exact wire.1

variable (user : LinkUser)

theorem wireByte_identityHead : ∀ c ∈ user.identityHead, wireByte c := by
  intro c listed
  simp only [LinkUser.identityHead, mem_append, mem_cons] at listed
  rcases listed with (rfl | digit) | rfl | rfl | digit
  · decide
  · exact wireByte_decimal _ c digit
  · cases user.tier <;> decide
  · decide
  · exact wireByte_decimal _ c digit

theorem wireByte_entryText : ∀ c ∈ user.entryText, wireByte c := by
  have head := wireByte_identityHead user
  have handle : ∀ c ∈ user.wireHandle, wireByte c := wireByte_handle user.handle
  have account := wireByte_decimal user.account.toNat
  intro c listed
  rw [LinkUser.entryText] at listed
  split_ifs at listed
  all_goals
    simp only [mem_append, mem_cons] at listed
  · rcases listed with (((rfl | inside) | rfl | inside) | rfl | inside)
    all_goals first | decide | exact head _ inside | exact handle _ inside | exact account _ inside
  · rcases listed with ((rfl | inside) | rfl | inside)
    all_goals first | decide | exact head _ inside | exact handle _ inside
  · rcases listed with (((rfl | inside) | rfl | inside) | rfl | inside)
    all_goals first | decide | exact head _ inside | exact handle _ inside | exact account _ inside

theorem wireByte_eventText (stationLocked isLogin : Bool) :
    ∀ c ∈ user.eventText stationLocked isLogin, wireByte c := by
  have head := wireByte_identityHead user
  have handle : ∀ c ∈ user.wireHandle, wireByte c := wireByte_handle user.handle
  have account := wireByte_decimal user.account.toNat
  have identity : ∀ c ∈ user.eventIdentity, wireByte c := by
    intro c listed
    rw [LinkUser.eventIdentity] at listed
    split_ifs at listed
    all_goals
      simp only [mem_append, mem_cons, not_mem_nil, or_false] at listed
    · rcases listed with (inside | rfl | inside)
      all_goals first | decide | exact head _ inside | exact handle _ inside
    · rcases listed with (inside | rfl | rfl)
      all_goals first | decide | exact head _ inside
    · rcases listed with (((inside | rfl | inside) | rfl | rfl | inside) | rfl)
      all_goals first | decide | exact head _ inside | exact handle _ inside | exact account _ inside
    · rcases listed with (inside | rfl | inside)
      all_goals first | decide | exact head _ inside | exact handle _ inside
  intro c listed
  simp only [LinkUser.eventText, mem_cons] at listed
  rcases listed with rfl | rfl | rfl | rfl | rfl | rfl | rfl | inside
  · decide
  · decide
  · decide
  · cases stationLocked <;> decide
  · decide
  · cases isLogin <;> decide
  · decide
  · exact identity c inside

theorem eventText_length (stationLocked isLogin : Bool) : (user.eventText stationLocked isLogin).length ≤ 60 := by
  have slotSize := slot_length user.slot
  have channelSize := channel_length user.channel
  have handleSize := user.wireHandle_length
  have accountSize := slot_length user.account
  rw [LinkUser.eventText, LinkUser.eventIdentity]
  split_ifs
  all_goals
    simp only [LinkUser.identityHead, length_append, length_cons, length_nil, maxHandleWireLen] at *
    omega

theorem cleanLine_identity (slot : UInt16) (channel : UInt8) (tier : UserTier) (handle message : CStr) (front : Bytes)
    (clean : ∀ c ∈ front, cleanByte c) (short : front.length ≤ 64) :
    CleanLine (front ++ linkIdentityBody slot channel tier handle.val message.val) := by
  have slotSize := slot_length slot
  have channelSize := channel_length channel
  have handleSize := sanitizeHandle_length handle.val maxHandleLen
  have bodySize : (cleanBody message.val (maxBodyLen + 1)).length ≤ 255 :=
    (length_take_le _ _).trans (min_le_right _ _)
  constructor
  · intro c listed
    simp only [linkIdentityBody, mem_append, mem_cons] at listed
    rcases listed with inside | (((rfl | inside) | rfl | rfl | inside) | rfl | inside) | rfl | rfl | inside
    · exact clean c inside
    · decide
    · exact cleanByte_of_wireByte (wireByte_decimal _ c inside)
    · cases tier <;> decide
    · decide
    · exact cleanByte_of_wireByte (wireByte_decimal _ c inside)
    · decide
    · exact cleanByte_of_wireByte (wireByte_handle handle c inside)
    · decide
    · decide
    · exact cleanByte_body message c inside
  · simp only [linkIdentityBody, length_append, length_cons, messageLimit, maxHandleWireLen] at *
    omega

end Clean

section Kinds

variable {client : UpstreamClient} (connected : client.connected = true)

include connected

theorem keepsLink_parts {braces tag rest : Bytes} (kind : LinkTag braces tag) {parts : List (Bytes × Bytes)}
    (wire : ∀ c ∈ rest, wireByte c) (short : rest.length ≤ messageLimit - 5)
    (display : tag ++ shown (byte '-' :: rest) = framed parts) (frames : ∀ part ∈ parts, NoticeFrame part.1) :
    KeepsLink client (braces ++ byte '-' :: rest ++ crlf) ↔
      ∀ field ∈ visibleFields (messageLimit - 1) parts, ¬ Notice field := by
  have noEscape : 0x1B ∉ rest := fun inside => absurd (wire _ inside) (by decide)
  have clean : CleanLine (braces ++ byte '-' :: rest) := by
    constructor
    · intro c listed
      rcases mem_append.mp listed with brace | listed
      · cases kind <;> simp only [mem_cons, not_mem_nil, or_false, or_self] at brace <;> rw [brace] <;> decide
      · rcases mem_cons.mp listed with rfl | inside
        · decide
        · exact cleanByte_of_wireByte (wire c inside)
    · cases kind <;> simp only [length_append, length_cons, length_nil, messageLimit] at * <;> omega
  rw [keepsLink_line connected clean, hangsUp_link kind noEscape short, display, notice_framed frames]
  simp only [not_exists, not_and]

theorem keepsLink_event (user : LinkUser) (stationLocked isLogin : Bool) {dstCap : Nat} {wire : Bytes}
    (sent : formatLinkEvent user dstCap stationLocked isLogin = some wire) :
    KeepsLink client wire ↔ ∀ text ∈ eventTexts user, ¬ Notice text := by
  obtain ⟨rest, text⟩ : ∃ rest, user.eventText stationLocked isLogin = byte '-' :: rest := ⟨_, rfl⟩
  have bytes := wireByte_eventText user stationLocked isLogin
  have size := eventText_length user stationLocked isLogin
  rw [text] at bytes size
  have kind : LinkTag (if user.tier = .guest then [byte '}', byte '}'] else [byte '}']) (str "[LINK] ") := by
    split_ifs
    · exact .guest
    · exact .member
  have display := eventText_shown user stationLocked isLogin
  rw [text] at display
  have short : rest.length ≤ messageLimit - 5 := by
    simp only [length_cons, messageLimit] at *
    omega
  have fits : (framed (eventParts user (eventFront stationLocked isLogin))).length ≤ messageLimit - 1 := by
    rw [← display, length_append, shown, length_map]
    have visibleSize := visible_length (byte '-' :: rest)
    have tagSize : (str "[LINK] ").length = 7 := by decide
    simp only [messageLimit] at *
    omega
  have frames := eventParts_frames user stationLocked isLogin
  rw [snprintf_eq_some sent, text, keepsLink_parts connected kind (fun c inside => bytes c (mem_cons_of_mem _ inside))
    short display frames, visibleFields_of_le fits, eventParts_texts]

theorem keepsLink_list (station : CStr) (stationLocked : Bool) (users : List LinkUser) {wire : Bytes}
    (sent : UserLine.Sent (.stationList station stationLocked users) wire) :
    KeepsLink client wire ↔
      ∀ text ∈ visibleFields (messageLimit - 1) (listParts station.val stationLocked users), ¬ Notice text := by
  obtain ⟨dstCap, header, entries, headed, listed, fits, rfl⟩ := sent
  have named : sanitizeHandle station.val maxHandleLen ≠ [] := by
    intro unnamed
    rw [formatBroadcastHeader, if_pos unnamed] at headed
    cases headed
  rw [formatBroadcastHeader, if_neg named] at headed
  have texts : entries = users.map LinkUser.entryText := by
    clear fits
    induction listed with
    | nil => rfl
    | cons printed _ ih => rw [snprintf_eq_some printed, ih, map_cons]
  generalize lock : (if stationLocked then byte ',' else byte '.') = locks at headed
  rw [snprintf_eq_some headed, texts] at fits ⊢
  have wire : ∀ c ∈ locks :: (sanitizeHandle station.val maxHandleLen ++ (users.map LinkUser.entryText).flatten),
      wireByte c := by
    intro c inside
    simp only [mem_cons, mem_append, mem_flatten, mem_map] at inside
    rcases inside with rfl | inside | ⟨entry, ⟨user, -, rfl⟩, inside⟩
    · rw [← lock]
      cases stationLocked <;> decide
    · exact wireByte_handle station c inside
    · exact wireByte_entryText user c inside
  have display : str "[SYSOP] " ++ shown (byte '-' :: locks :: (sanitizeHandle station.val maxHandleLen ++
      (users.map LinkUser.entryText).flatten)) = framed (listParts station.val stationLocked users) := by
    have dash (text : Bytes) : shown (byte '-' :: text) = byte '-' :: shown text := shown_cons (by decide) text
    have locked (text : Bytes) : shown (locks :: text) = locks :: shown text := by
      rw [← lock]
      cases stationLocked <;> exact shown_cons (by decide) text
    have parts : framed (listParts station.val stationLocked users) =
        listFront stationLocked ++ visible (sanitizeHandle station.val maxHandleLen) ++
          framed (users.flatMap entryParts) := rfl
    rw [parts, framed_entries, dash, locked, shown_append, shown_handle, listFront, lock]
    simp [str]
  have short : (locks :: (sanitizeHandle station.val maxHandleLen ++ (users.map LinkUser.entryText).flatten)).length ≤
      messageLimit - 5 := by
    simp only [length_append, length_cons] at fits ⊢
    omega
  have kept := keepsLink_parts connected .station wire short display (listParts_frames _ _ _)
  simpa using kept

omit connected in
/-- An accepted e-mail starts with its mark, also once it has been sanitized. -/
theorem mail_start (mail : MailLine) :
    ∃ letter rest, (letter = byte 'E' ∨ letter = byte 'e') ∧ lineStart mail.line = byte '/' :: letter :: byte '~' ::
      rest ∧ (lineStart mail.line).length ≤ messageLimit - 1 := by
  obtain ⟨letter, rest, mark, line⟩ : ∃ letter rest, (letter = byte 'E' ∨ letter = byte 'e') ∧
      mail.line = [byte '/', letter, byte '~'] ++ rest := by
    have accepted := mail.accepted
    rw [parseIncomingEmail.eq_def] at accepted
    split at accepted
    next slash letter tilde a b c d e f p shape =>
      by_cases marks : slash ≠ byte '/' ∨ (letter ≠ byte 'E' ∧ letter ≠ byte 'e') ∨ tilde ≠ byte '~'
      · rw [if_pos marks] at accepted
        cases accepted
      · simp only [not_or, not_and_or, not_not] at marks
        obtain ⟨rfl, mark, rfl⟩ := marks
        exact ⟨letter, _, mark, shape⟩
    next => cases accepted
  have noEscape : 0x1B ∉ [byte '/', letter, byte '~'] := by
    rcases mark with rfl | rfl <;> decide
  have kept : visible [byte '/', letter, byte '~'] = [byte '/', letter, byte '~'] := by
    rcases mark with rfl | rfl <;> rfl
  have room : (visible [byte '/', letter, byte '~']).length ≤ messageLimit - 1 := by
    rw [kept]
    show 3 ≤ messageLimit - 1
    decide
  have tilde : isSpace (byte '~') = false := by decide
  have size := sanitizeLine_length (messageLimit - 1) mail.line
  rw [line, sanitizeLine_append noEscape room, kept] at size
  rw [lineStart, line, sanitizeLine_append noEscape room, kept]
  generalize sanitizeLine _ rest = cleaned at size ⊢
  have trimmed : dropPrompts (trimSpace ([byte '/', letter, byte '~'] ++ cleaned)) =
      byte '/' :: letter :: byte '~' :: cleaned.rdropWhile isSpace := by
    rw [cons_append, trimSpace_cons (by decide), dropPrompts_cons (by decide)]
    exact congrArg _ (rdropWhile_stop tilde [letter] cleaned)
  refine ⟨letter, cleaned.rdropWhile isSpace, mark, trimmed, ?_⟩
  have shorter := (List.rdropWhile_prefix isSpace cleaned).length_le
  rw [trimmed]
  simp only [length_append, length_cons] at size ⊢
  omega

omit connected in
theorem noticeFrame_padded (n : Nat) : NoticeFrame (decimalPadded n) := by
  apply noticeFrame_foreign
  · simp [decimalPadded, decimal_ne_nil]
  · intro c listed
    rcases mem_append.mp listed with zero | digit
    · rw [eq_of_mem_replicate zero]
      decide
    · exact toLower_digit (decimal_isDigit n c digit)

theorem keepsLink_email (mail : MailLine) :
    KeepsLink client (mail.line ++ crlf) ↔ ∀ text ∈ mail.texts, ¬ Notice text := by
  obtain ⟨letter, rest, mark, start, size⟩ := mail_start mail
  have some' : lineStart mail.line ≠ [] := by
    rw [start]
    simp
  have noPrivate : ¬ (letter = byte 'P' ∨ letter = byte 'p') := by
    rcases mark with rfl | rfl <;> decide
  have display : displayLine (lineStart mail.line) = ((parseIncomingEmail maxHandleLen (lineStart mail.line)).map
      fun email => str "[E-MAIL #" ++ decimalPadded email.fromId ++ str "@" ++ decimalPadded email.fromStation ++
        str " " ++ email.handle ++ str "] " ++ email.message).getD (lineStart mail.line) := by
    rw [start, displayLine_slash, slashLine_cons, if_neg noPrivate, if_pos ⟨mark, rfl⟩]
  rw [keepsLink_line connected mail.clean, normalizeLine_eq some', display, MailLine.texts]
  cases parsed : parseIncomingEmail maxHandleLen (lineStart mail.line) with
  | none =>
    have noChat : lineIsChatContent (lineStart mail.line) = false := by
      rw [start]
      exact lineIsChatContent_other (by decide) _
    rw [Option.map_none, Option.getD_none, take_of_length_le size, hangsUp_iff noChat]
    simp
  | some email =>
    have front : NoticeFrame (str "[E-MAIL #" ++ decimalPadded email.fromId ++ str "@" ++
        decimalPadded email.fromStation ++ str " ") := by
      have opening : NoticeFrame ([byte '['] ++ str "E-MAIL " ++ [byte '#']) :=
        (noticeFrame_byte (by decide)).around (stationWords_quiet _ (by simp)) (noticeFrame_byte (by decide))
      exact (((opening.append (noticeFrame_padded _)).append (noticeFrame_byte (c := byte '@') (by decide))).append
        (noticeFrame_padded _)).concat_blank
    have bracket : NoticeFrame (str "] ") := (noticeFrame_byte (c := byte ']') (by decide)).concat_blank
    have opens : ∃ back, str "[E-MAIL #" ++ decimalPadded email.fromId ++ str "@" ++
        decimalPadded email.fromStation ++ str " " = byte '[' :: back := ⟨_, rfl⟩
    simp only [Option.map_some, Option.getD_some]
    generalize str "[E-MAIL #" ++ decimalPadded email.fromId ++ str "@" ++ decimalPadded email.fromStation ++ str " " =
      frame at front opens ⊢
    have text : frame ++ email.handle ++ str "] " ++ email.message =
        framed [(frame, email.handle), (str "] ", email.message)] := by
      simp [framed]
    have frames : ∀ part ∈ [(frame, email.handle), (str "] ", email.message)], NoticeFrame part.1 := by
      intro part listed
      simp only [mem_cons, not_mem_nil, or_false] at listed
      rcases listed with rfl | rfl
      · exact front
      · exact bracket
    have noChat : lineIsChatContent ((frame ++ email.handle ++ str "] " ++ email.message).take (messageLimit - 1)) =
        false := by
      obtain ⟨back, rfl⟩ := opens
      exact lineIsChatContent_other (by decide) _
    rw [hangsUp_iff noChat, text, notice_framed frames]
    simp only [not_exists, not_and]

end Kinds

/-- A line with what users wrote or are called keeps the link exactly when it is chat or when no notice stands in what
it shows of their texts. -/
theorem user_line_keepsLink (client : UpstreamClient) (connected : client.connected) (line : UserLine) (wire : Bytes)
    (sent : line.Sent wire) : KeepsLink client wire ↔ line.Harmless := by
  have noChat (text : Bytes) (content : lineIsChatContent (normalizeLine text)) :
      ¬ hangsUp (normalizeLine text) := by
    rw [hangsUp, content]
    simp
  cases line with
  | chat slot channel tier handle message =>
    obtain ⟨dstCap, printed⟩ := sent
    have clean := cleanLine_identity slot channel tier handle message [] (by simp) (by decide)
    rw [snprintf_eq_some printed]
    refine (keepsLink_line connected clean).trans ?_
    exact iff_of_true (noChat _ (chatContent_chat slot channel tier _ _)) trivial
  | dualChat slot channel tier handle message =>
    obtain ⟨dstCap, printed⟩ := sent
    have tilde : ∀ c ∈ [byte '~'], cleanByte c := by
      rintro c listed
      rw [mem_singleton.mp listed]
      decide
    have clean := cleanLine_identity slot channel tier handle message [byte '~'] tilde (by decide)
    rw [snprintf_eq_some printed]
    refine (keepsLink_line connected clean).trans ?_
    exact iff_of_true (noChat _ (chatContent_dual slot channel tier _ _)) trivial
  | priv target slot channel tier handle message =>
    obtain ⟨dstCap, printed⟩ := sent
    have marked : ∀ c ∈ byte '/' :: byte 'P' :: decimal target.toNat ++ [byte ' '], cleanByte c := by
      intro c listed
      simp only [mem_append, mem_cons, not_mem_nil, or_false] at listed
      rcases listed with (rfl | rfl | digit) | rfl
      · decide
      · decide
      · exact cleanByte_of_wireByte (wireByte_decimal _ c digit)
      · decide
    have short : (byte '/' :: byte 'P' :: decimal target.toNat ++ [byte ' ']).length ≤ 64 := by
      have targetSize := slot_length target
      simp only [length_append, length_cons, length_nil]
      omega
    have clean := cleanLine_identity slot channel tier handle message _ marked short
    rw [append_assoc] at clean
    rw [snprintf_eq_some printed]
    refine (keepsLink_line connected clean).trans ?_
    exact iff_of_true (noChat _ (chatContent_private target slot channel tier _ _)) trivial
  | email mail =>
    rw [sent]
    exact keepsLink_email connected mail
  | login user stationLocked =>
    obtain ⟨dstCap, printed⟩ := sent
    exact keepsLink_event connected user stationLocked true printed
  | logout user stationLocked =>
    obtain ⟨dstCap, printed⟩ := sent
    exact keepsLink_event connected user stationLocked false printed
  | stationList station stationLocked users => exact keepsLink_list connected station stationLocked users sent

/-- A login of an ordinary user keeps the link. -/
theorem user_line_keepsLink_login :
    KeepsLink (freshClient true) (byte '}' :: str "-->. +^#5[T1:Freddy:#902*\r\n") := by
  have sent : (UserLine.login ⟨5, 1, .password, ⟨str "Freddy", by decide⟩, 902, false⟩ false).Sent
      (byte '}' :: str "-->. +^#5[T1:Freddy:#902*\r\n") := ⟨512, by decide +kernel⟩
  have harmless : (UserLine.login ⟨5, 1, .password, ⟨str "Freddy", by decide⟩, 902, false⟩ false).Harmless := by
    show ∀ text ∈ eventTexts ⟨5, 1, .password, ⟨str "Freddy", by decide⟩, 902, false⟩, ¬ Notice text
    decide +kernel
  exact (user_line_keepsLink (freshClient true) rfl _ _ sent).mpr harmless

/-- A user whose handle holds a notice closes the link by logging in. -/
theorem user_line_goodbye_login :
    formatLinkLogin ⟨5, 1, .password, ⟨str "Goodbye Joe", by decide⟩, 902, false⟩ 512 false =
        some (byte '}' :: str "-->. +^#5[T1:Goodbye Joe:#902*\r\n") ∧
      ¬ KeepsLink (freshClient true) (byte '}' :: str "-->. +^#5[T1:Goodbye Joe:#902*\r\n") := by
  refine ⟨by decide +kernel, ?_⟩
  have closed : (extractLines { freshClient true with
      buffer := byte '}' :: str "-->. +^#5[T1:Goodbye Joe:#902*\r\n" } maxExtractedLines).1.connected = false := by
    decide +kernel
  rintro ⟨connected, -⟩
  rw [closed] at connected
  cases connected

end SshChatter.Ddial
