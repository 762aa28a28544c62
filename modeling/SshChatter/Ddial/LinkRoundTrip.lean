import SshChatter.Ddial.Protocol

namespace SshChatter.DdialProtocol
open CString List

theorem clampChannel_cases (channel : UInt8) :
    clampChannel channel = 1 ∨ clampChannel channel = 2 ∨ clampChannel channel = 3 ∨
      clampChannel channel = 4 := by
  unfold clampChannel
  simp only [UInt8.lt_iff_toNat_lt, ← UInt8.toNat_inj]
  have one : (1 : UInt8).toNat = 1 := rfl
  have two : (2 : UInt8).toNat = 2 := rfl
  have three : (3 : UInt8).toNat = 3 := rfl
  have four : (4 : UInt8).toNat = 4 := rfl
  split_ifs <;> omega

theorem decimal_clampChannel (channel : UInt8) :
    ∃ digit, decimal (clampChannel channel).toNat = [digit] ∧ isDigit digit ∧
      digit - 48 = clampChannel channel := by
  obtain same | same | same | same := clampChannel_cases channel <;> rw [same]
  · exact ⟨49, by decide, by decide, by decide⟩
  · exact ⟨50, by decide, by decide, by decide⟩
  · exact ⟨51, by decide, by decide, by decide⟩
  · exact ⟨52, by decide, by decide, by decide⟩

theorem sanitizeHandle_open (src : Bytes) (dstCap : Nat) :
    ∀ c ∈ sanitizeHandle src dstCap, (!closesHandle c) := by
  intro c member
  have allowed := (mem_filter.mp (mem_of_mem_take member)).2
  simp only [forbiddenInHandle, closesHandle, Bool.not_eq_true', decide_eq_false_iff_not] at allowed ⊢
  tauto

theorem sanitizeHandle_length (src : Bytes) (dstCap : Nat) :
    (sanitizeHandle src dstCap).length ≤ maxHandleWireLen := by
  unfold sanitizeHandle
  rw [length_take]
  omega

theorem trimHandle_length (handle : Bytes) : (trimHandle handle).length ≤ handle.length := by
  have stripped := rdropWhile_prefix (fun c => c = byte '*' ∨ c = byte '$')
    (handle.takeWhile fun c => c ≠ byte ':')
  have cut := takeWhile_prefix (fun c => c ≠ byte ':') (l := handle)
  exact stripped.length_le.trans cut.length_le

/-- The parser leaves a handle alone exactly when it has no colon and no trailing tier symbol. -/
theorem trimHandle_eq_self_iff (handle : Bytes) :
    trimHandle handle = handle ↔ byte ':' ∉ handle ∧
      ∀ c, handle.getLast? = some c → c ≠ byte '*' ∧ c ≠ byte '$' := by
  have cut : handle.takeWhile (fun c => c ≠ byte ':') = handle ↔ byte ':' ∉ handle := by
    rw [takeWhile_eq_self_iff]
    constructor
    · intro clean member
      simpa using clean _ member
    · intro absent c member
      have different : c ≠ byte ':' := fun same => absent (same ▸ member)
      simpa using different
  constructor
  · intro same
    have stripped := rdropWhile_prefix (fun c => c = byte '*' ∨ c = byte '$')
      (handle.takeWhile fun c => c ≠ byte ':')
    have taken := takeWhile_prefix (fun c => c ≠ byte ':') (l := handle)
    -- Both steps shorten the handle, so both leave it alone.
    have whole : handle.takeWhile (fun c => c ≠ byte ':') = handle := by
      apply taken.eq_of_length_le
      calc handle.length = (trimHandle handle).length := by rw [same]
        _ ≤ _ := stripped.length_le
    refine ⟨cut.mp whole, ?_⟩
    intro c last
    have unchanged : handle.rdropWhile (fun c => c = byte '*' ∨ c = byte '$') = handle := by
      conv_rhs => rw [← same]
      rw [trimHandle, whole]
    have nonEmpty : handle ≠ [] := by
      intro empty
      simp [empty] at last
    have kept := rdropWhile_eq_self_iff.mp unchanged nonEmpty
    have lastEq : handle.getLast nonEmpty = c := by
      rw [getLast?_eq_some_getLast nonEmpty] at last
      exact Option.some.inj last
    rw [lastEq] at kept
    simpa using kept
  · intro intact
    rw [trimHandle, cut.mpr intact.1, rdropWhile_eq_self_iff]
    intro nonEmpty
    simpa using intact.2 _ (getLast?_eq_some_getLast nonEmpty)

theorem parseHandle_sanitized (src rest : Bytes) :
    parseHandle maxHandleLen (sanitizeHandle src maxHandleLen ++ byte ')' :: rest) =
      some (trimHandle (sanitizeHandle src maxHandleLen), rest) := by
  have clean := sanitizeHandle_open src maxHandleLen
  have short : (trimHandle (sanitizeHandle src maxHandleLen)).length ≤ maxHandleLen - 1 :=
    (trimHandle_length _).trans ((sanitizeHandle_length src maxHandleLen).trans (by decide))
  have stop : (!closesHandle (byte ')')) = false := by decide
  unfold parseHandle
  rw [dropWhile_append_of_pos clean, takeWhile_append_of_pos clean,
    dropWhile_cons, takeWhile_cons, stop]
  simp only [Bool.false_eq_true, if_false, append_nil]
  rw [take_of_length_le short]

theorem tierBracketOpen_isDigit (tier : UserTier) : isDigit (tierBracketOpen tier) = false := by
  cases tier <;> decide

theorem tierBracketOpen_cases (tier : UserTier) :
    ¬ (tierBracketOpen tier ≠ byte '(' ∧ tierBracketOpen tier ≠ byte '[' ∧
      tierBracketOpen tier ≠ byte '<') := by
  cases tier <;> decide

/-- A printed number starts with a digit. -/
theorem decimal_head (n : Nat) (rest : Bytes) : (decimal n ++ rest).head?.any isDigit = true := by
  cases digits : decimal n with
  | nil => exact absurd digits (decimal_ne_nil n)
  | cons c =>
    have digit := decimal_isDigit n c (by rw [digits]; exact mem_cons_self)
    simp [digit]

variable (slot : UInt16)

theorem strtoul_slot {c : UInt8} (stop : isDigit c = false) (rest : Bytes) :
    strtoul (decimal slot.toNat ++ c :: rest) = (slot.toNat, c :: rest) := by
  have bound := slot.toNat_lt
  apply strtoul_decimal (by omega)
  intro d head
  rw [head?_cons, Option.some.injEq] at head
  rw [← head, stop]

theorem parseIdentity_linkIdentityBody (channel : UInt8) (tier : UserTier) (handle message : Bytes) :
    parseIdentity maxHandleLen (linkIdentityBody slot channel tier handle message) =
      some (⟨slot, clampChannel channel, false, trimHandle (sanitizeHandle handle maxHandleLen)⟩,
        byte ' ' :: cleanBody message (maxBodyLen + 1)) := by
  obtain ⟨digit, printed, isDig, value⟩ := decimal_clampChannel channel
  have slotBound : ¬ 65535 < slot.toNat := by
    have bound := slot.toNat_lt
    omega
  unfold linkIdentityBody
  rw [printed]
  simp only [cons_append, append_assoc, nil_append]
  rw [parseIdentity, strtoul_slot slot (tierBracketOpen_isDigit tier), decimal_head]
  simp only [if_neg slotBound, if_neg (tierBracketOpen_cases tier), isDig, parseLineType]
  rw [if_pos (Or.inl trivial), parseHandle_sanitized]
  have user : decide (byte ':' = byte '=') = false := by decide
  simp [value, user]

theorem parseIncomingChat_linkIdentityBody (channel : UInt8) (tier : UserTier) (handle message : Bytes) :
    parseIncomingChat maxHandleLen (linkIdentityBody slot channel tier handle message) =
      some ⟨0, ⟨slot, clampChannel channel, false, trimHandle (sanitizeHandle handle maxHandleLen)⟩,
        false, cleanBody message (maxBodyLen + 1)⟩ := by
  have head : (linkIdentityBody slot channel tier handle message).head? = some (byte '#') := by
    simp [linkIdentityBody]
  have noLink : parseLinkSlot (linkIdentityBody slot channel tier handle message) =
      (0, linkIdentityBody slot channel tier handle message) := by
    rfl
  have notDual : decide (some (byte '#') = some (byte '~')) = false := by decide
  simp only [parseIncomingChat, head, notDual, Bool.false_eq_true, if_false, noLink]
  rw [parseIdentity_linkIdentityBody]
  rfl

theorem parseIncomingChat_dual (handleCap : Nat) (line : Bytes)
    (single : line.head? ≠ some (byte '~')) :
    parseIncomingChat handleCap (byte '~' :: line) =
      (parseIncomingChat handleCap line).map fun chat => { chat with dual := true } := by
  simp only [parseIncomingChat,
    decide_eq_false single, Option.map_map]
  rfl

theorem parseIncomingPrivate_linkIdentityBody (target slot : UInt16) (channel : UInt8) (tier : UserTier)
    (handle message : Bytes) :
    parseIncomingPrivate maxHandleLen (byte '/' :: byte 'P' :: decimal target.toNat ++ byte ' ' ::
        linkIdentityBody slot channel tier handle message) =
      some ⟨target, slot, clampChannel channel, trimHandle (sanitizeHandle handle maxHandleLen),
        cleanBody message (maxBodyLen + 1)⟩ := by
  have targetBound : ¬ 65535 < target.toNat := by
    have bound := target.toNat_lt
    omega
  have skipped : (byte ' ' :: linkIdentityBody slot channel tier handle message).dropWhile
      (fun c => c = byte ' ') = linkIdentityBody slot channel tier handle message := by
    have stop : byte '#' ≠ byte ' ' := by decide
    simp [linkIdentityBody, stop]
  rw [cons_append, cons_append, parseIncomingPrivate,
    strtoul_slot target (c := byte ' ') (by decide), decimal_head, skipped,
    parseIdentity_linkIdentityBody]
  simp only [if_neg targetBound]
  simp [skipSpace]

def ChatRoundTrip (dual : Bool) (wire : Bytes) (slot : UInt16) (channel : UInt8)
    (handle message : Bytes) : Prop :=
  ∃ line, wire = line ++ crlf ∧ parseIncomingChat maxHandleLen line =
    some ⟨0, ⟨slot, clampChannel channel, false, sanitizeHandle handle maxHandleLen⟩, dual,
      cleanBody message (maxBodyLen + 1)⟩

def PrivateRoundTrip (wire : Bytes) (target slot : UInt16) (channel : UInt8)
    (handle message : Bytes) : Prop :=
  ∃ line, wire = line ++ crlf ∧ parseIncomingPrivate maxHandleLen line =
    some ⟨target, slot, clampChannel channel, sanitizeHandle handle maxHandleLen,
      cleanBody message (maxBodyLen + 1)⟩

def HandleIntact (handle : Bytes) : Prop :=
  byte ':' ∉ sanitizeHandle handle maxHandleLen ∧
    ∀ c, (sanitizeHandle handle maxHandleLen).getLast? = some c → c ≠ byte '*' ∧ c ≠ byte '$'

theorem snprintf_eq_some {dstCap : Nat} {text wire : Bytes} (printed : snprintf dstCap text = some wire) :
    wire = text := by
  unfold snprintf at printed
  split at printed
  · exact (Option.some.inj printed).symm
  · cases printed

theorem exists_line_iff {text : Bytes} {parses : Bytes → Prop} :
    (∃ line, text ++ crlf = line ++ crlf ∧ parses line) ↔ parses text := by
  constructor
  · intro present
    obtain ⟨line, same, parsed⟩ := present
    rw [append_cancel_right same]
    exact parsed
  · intro parsed
    exact ⟨text, rfl, parsed⟩

section Forms

variable {dstCap : Nat} {slot : UInt16} {channel : UInt8} {tier : UserTier} {handle message wire : Bytes}

/-- A public line returns its sender exactly when the parser leaves the handle alone. -/
theorem formatLinkChat_roundTrip (sent : formatLinkChat dstCap slot channel tier handle message = some wire) :
    ChatRoundTrip false wire slot channel handle message ↔ HandleIntact handle := by
  rw [snprintf_eq_some sent, ChatRoundTrip, exists_line_iff, parseIncomingChat_linkIdentityBody,
    HandleIntact, ← trimHandle_eq_self_iff]
  simp

theorem formatLinkDualChat_roundTrip
    (sent : formatLinkDualChat dstCap slot channel tier handle message = some wire) :
    ChatRoundTrip true wire slot channel handle message ↔ HandleIntact handle := by
  have single : (linkIdentityBody slot channel tier handle message).head? ≠ some (byte '~') := by
    simp only [linkIdentityBody, cons_append, head?_cons]
    decide
  rw [snprintf_eq_some sent, ChatRoundTrip, exists_line_iff, parseIncomingChat_dual _ _ single,
    parseIncomingChat_linkIdentityBody, HandleIntact, ← trimHandle_eq_self_iff]
  simp

theorem formatLinkPrivate_roundTrip {target : UInt16}
    (sent : formatLinkPrivate dstCap target slot channel tier handle message = some wire) :
    PrivateRoundTrip wire target slot channel handle message ↔ HandleIntact handle := by
  rw [snprintf_eq_some sent, PrivateRoundTrip, exists_line_iff, parseIncomingPrivate_linkIdentityBody,
    HandleIntact, ← trimHandle_eq_self_iff]
  simp

end Forms

/-- Every link line that is sent returns its sender exactly when the handle is intact. -/
theorem link_round_trip_iff_handleIntact (dstCap : Nat) (target slot : UInt16) (channel : UInt8)
    (tier : UserTier) (handle message wire : Bytes) :
    (formatLinkChat dstCap slot channel tier handle message = some wire →
      (ChatRoundTrip false wire slot channel handle message ↔ HandleIntact handle)) ∧
    (formatLinkDualChat dstCap slot channel tier handle message = some wire →
      (ChatRoundTrip true wire slot channel handle message ↔ HandleIntact handle)) ∧
    (formatLinkPrivate dstCap target slot channel tier handle message = some wire →
      (PrivateRoundTrip wire target slot channel handle message ↔ HandleIntact handle)) :=
  ⟨formatLinkChat_roundTrip, formatLinkDualChat_roundTrip, formatLinkPrivate_roundTrip⟩

/-- A plain handle returns over the public form. -/
theorem link_round_trip_plain_handle :
    ChatRoundTrip false (str "#5[T1:Freddy) hi" ++ crlf) 5 1 (str "Freddy") (str "hi") :=
  ((link_round_trip_iff_handleIntact 512 7 5 1 .password (str "Freddy") (str "hi")
    (str "#5[T1:Freddy) hi" ++ crlf)).1 (by decide +kernel)).mpr
      ((trimHandle_eq_self_iff _).mp (by decide +kernel))

/-- A handle with a colon loses its tail over the link. -/
theorem link_round_trip_colon_handle :
    ¬ ∀ (dstCap : Nat) (slot : UInt16) (channel : UInt8) (tier : UserTier) (handle message wire : Bytes),
      formatLinkChat dstCap slot channel tier handle message = some wire →
      ChatRoundTrip false wire slot channel handle message := by
  intro claim
  have sent : formatLinkChat 512 5 1 .password (str "Ann:Bob") (str "hi") =
      some (str "#5[T1:Ann:Bob) hi" ++ crlf) := by decide +kernel
  have intact := (formatLinkChat_roundTrip sent).mp (claim _ _ _ _ _ _ _ sent)
  exact intact.1 (by decide +kernel)

end SshChatter.DdialProtocol
