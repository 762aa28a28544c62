import SshChatter.Ddial.ClientFraming
import SshChatter.Ddial.PresenceLine

namespace SshChatter.Ddial
open CString DdialProtocol LineScan List

section Sanitizing

def visible (text : Bytes) : Bytes := text.filter fun c => !invisible c

theorem visible_append (text text' : Bytes) : visible (text ++ text') = visible text ++ visible text' :=
  filter_append _ _

theorem visible_length (text : Bytes) : (visible text).length ≤ text.length := length_filter_le _ _

variable {text : Bytes}

theorem visible_eq (all : ∀ c ∈ text, invisible c = false) : visible text = text := by
  apply filter_eq_self.mpr
  intro c listed
  rw [all c listed]
  rfl

/-- A text without an escape byte is filtered. -/
theorem sanitizeLine_append (noEscape : 0x1B ∉ text) {room : Nat} (fits : (visible text).length ≤ room)
    (rest : Bytes) :
    sanitizeLine room (text ++ rest) = visible text ++ sanitizeLine (room - (visible text).length) rest := by
  induction text generalizing room with
  | nil => rfl
  | cons c text ih =>
    obtain ⟨plain, noEscape⟩ := not_or.mp (mt mem_cons.mpr noEscape)
    rw [cons_append, sanitizeLine]
    by_cases dropped : invisible c
    · have same : visible (c :: text) = visible text := by simp [visible, dropped]
      rw [same] at fits ⊢
      rw [if_neg (Ne.symm plain), ih noEscape fits]
      split_ifs with full
      · subst full
        have empty := eq_nil_of_length_eq_zero (Nat.le_zero.mp fits)
        rw [empty, nil_append]
        cases rest with
        | nil => rw [sanitizeLine]
        | cons => rw [length_nil, sanitizeLine, if_pos (Nat.sub_zero 0)]
      · rfl
    · have kept : visible (c :: text) = c :: visible text := by simp [visible, dropped]
      rw [kept, length_cons] at fits
      have some' : room ≠ 0 := by omega
      rw [if_neg some', if_neg (Ne.symm plain), if_neg dropped, ih noEscape (by omega), kept, length_cons,
        cons_append, Nat.sub_add_eq, Nat.sub_right_comm]

theorem sanitizeLine_plain (noEscape : 0x1B ∉ text) {room : Nat} (fits : (visible text).length ≤ room) :
    sanitizeLine room text = visible text := by
  have whole := sanitizeLine_append noEscape fits []
  rwa [append_nil, sanitizeLine, append_nil] at whole

theorem sanitizeLine_length (room : Nat) (src : Bytes) : (sanitizeLine room src).length ≤ room := by
  fun_induction sanitizeLine room src with
  | case1 => exact Nat.zero_le _
  | case2 => exact Nat.zero_le _
  | case3 => assumption
  | case4 => assumption
  | case5 => rw [length_cons]; omega

/-- The blanks behind a byte that is none are trimmed. -/
theorem rdropWhile_stop {p : UInt8 → Bool} {c : UInt8} (stop : p c = false) (front back : Bytes) :
    (front ++ c :: back).rdropWhile p = front ++ c :: back.rdropWhile p := by
  rw [rdropWhile, reverse_append, reverse_cons, append_assoc, singleton_append,
    dropWhile_stop stop, reverse_append, reverse_cons, reverse_reverse, append_assoc]
  rfl

/-- A text that starts with a byte that is no blank keeps it. -/
theorem trimSpace_cons {c : UInt8} (stop : isSpace c = false) (rest : Bytes) :
    trimSpace (c :: rest) = c :: rest.rdropWhile isSpace := by
  rw [trimSpace, dropWhile_cons_of_neg (by simp [stop])]
  exact rdropWhile_stop stop [] rest

end Sanitizing

section Chat

variable (slot : UInt16) {c : UInt8} {message : IncomingPrivate}

theorem slot_length : (decimal slot.toNat).length ≤ 5 :=
  decimal_length (slot.toNat_lt.trans (by decide)) (by decide)

theorem isNodeRow_cons (other : isDigit c = false) (rest : Bytes) : isNodeRow (c :: rest) = false := by
  rw [isNodeRow]
  split
  next before found hit =>
    cases before with
    | nil => simp
    | cons d =>
      have head : c = d := (cons.inj (strstr_some hit).1).1
      simp [← head, other]
  next => rfl

theorem skipPrompts_cons (blank : c ≠ 32) (dash : c ≠ 45) (rest : Bytes) : skipPrompts (c :: rest) = c :: rest := by
  have kept : (c :: rest).dropWhile (· = 32) = c :: rest := dropWhile_cons_of_neg (by simpa using blank)
  rw [skipPrompts]
  split
  next tail prompt =>
    rw [kept] at prompt
    exact absurd (cons.inj prompt).1 dash
  next => exact kept

/-- A hash with digits, an opening bracket and a closing parenthesis is chat content, also behind the mark of
a private message. -/
theorem lineIsChatContent_hash {marker : Bytes} (known : marker = [] ∨ marker = [byte 'P']) (n : Nat) {bracket : UInt8}
    (opens : bracket = byte '[' ∨ bracket = byte '(' ∨ bracket = byte '<') {rest : Bytes} (closes : byte ')' ∈ rest) :
    lineIsChatContent (marker ++ byte '#' :: (decimal n ++ bracket :: rest)) := by
  have stop : isDigit bracket = false := by
    rcases opens with rfl | rfl | rfl <;> decide
  have digits : (decimal n ++ bracket :: rest).dropWhile isDigit = bracket :: rest := by
    rw [dropWhile_append_of_pos (decimal_isDigit n), dropWhile_cons_of_neg (by simp [stop])]
  have found : (strchr (byte ')') (bracket :: rest)).isSome :=
    (strchr_isSome _ _).mpr (mem_cons_of_mem _ closes)
  have head := decimal_head n (bracket :: rest)
  have body : skipOptional [byte 'P', byte 'p'] (skipOptional [byte '~']
      ((skipPrompts (marker ++ byte '#' :: (decimal n ++ bracket :: rest))).dropWhile isDigit)) =
        byte '#' :: (decimal n ++ bracket :: rest) := by
    rcases known with rfl | rfl
    · rw [nil_append, skipPrompts_cons (by decide) (by decide)]
      rfl
    · rw [singleton_append, skipPrompts_cons (by decide) (by decide)]
      rfl
  rw [lineIsChatContent, body]
  simp only [head, digits, found, head?_cons, Option.any_some, and_true, decide_eq_true_eq]
  exact ⟨trivial, trivial, opens⟩

theorem dropPrompts_cons (dash : c ≠ 45) (rest : Bytes) : dropPrompts (c :: rest) = c :: rest := by
  rw [dropPrompts]
  intro tail prompt
  exact dash (cons.inj prompt).1

theorem normalizeLine_eq {line : Bytes} (some' : lineStart line ≠ []) :
    normalizeLine line = (displayLine (lineStart line)).take (messageLimit - 1) := by
  rw [normalizeLine, if_neg]
  intro empty
  apply some'
  rw [lineStart, empty, dropPrompts]
  rintro rest ⟨⟩

/-- A handle behind visible text loses its invisible bytes, and the closing parenthesis stays. -/
theorem lineStart_identity {first : UInt8} {front : Bytes} (shown : ∀ c ∈ first :: front, invisible c = false)
    (stop : isSpace first = false) (dash : first ≠ 45) (short : front.length ≤ 64) (handle tail : Bytes) :
    ∃ tail', lineStart (first :: front ++ (sanitizeHandle handle maxHandleLen ++ byte ')' :: tail)) =
      first :: front ++ (visible (sanitizeHandle handle maxHandleLen) ++ byte ')' :: tail') := by
  have escape : invisible 0x1B := by decide
  have noEscape : 0x1B ∉ first :: front ++ (sanitizeHandle handle maxHandleLen ++ [byte ')']) := by
    rw [mem_append, mem_append, not_or, not_or]
    refine ⟨?_, fun inside => (sanitizeHandle_mem inside).2.1 rfl, by decide⟩
    intro inside
    rw [shown _ inside] at escape
    cases escape
  have kept : visible (first :: front ++ (sanitizeHandle handle maxHandleLen ++ [byte ')'])) =
      first :: front ++ (visible (sanitizeHandle handle maxHandleLen) ++ [byte ')']) := by
    rw [visible_append, visible_eq shown, visible_append]
    rfl
  have size : (visible (first :: front ++ (sanitizeHandle handle maxHandleLen ++ [byte ')']))).length ≤
      messageLimit - 1 := by
    have handleSize := (visible_length (sanitizeHandle handle maxHandleLen)).trans
      (sanitizeHandle_length handle maxHandleLen)
    rw [kept]
    simp only [length_append, length_cons, length_nil, messageLimit, maxHandleWireLen] at *
    omega
  have split : first :: front ++ (sanitizeHandle handle maxHandleLen ++ byte ')' :: tail) =
      first :: front ++ (sanitizeHandle handle maxHandleLen ++ [byte ')']) ++ tail := by simp
  have close : isSpace (byte ')') = false := by decide
  rw [lineStart, split, sanitizeLine_append noEscape size, kept]
  generalize sanitizeLine _ tail = cleaned
  refine ⟨cleaned.rdropWhile isSpace, ?_⟩
  have joined : first :: front ++ (visible (sanitizeHandle handle maxHandleLen) ++ [byte ')']) ++ cleaned =
      first :: (front ++ visible (sanitizeHandle handle maxHandleLen) ++ byte ')' :: cleaned) := by simp
  rw [joined, trimSpace_cons stop, rdropWhile_stop close, dropPrompts_cons dash]
  simp

theorem invisible_digit (digit : isDigit c) : invisible c = false := by
  simp only [isDigit, invisible, decide_eq_true_eq, decide_eq_false_iff_not, UInt8.le_iff_toNat_le,
    UInt8.lt_iff_toNat_lt, ← UInt8.toNat_inj] at *
  have sizes : (48 : UInt8).toNat = 48 ∧ (57 : UInt8).toNat = 57 ∧ (0x7F : UInt8).toNat = 127 ∧
    (0x20 : UInt8).toNat = 32 ∧ (0xFF : UInt8).toNat = 255 := by decide
  omega

theorem visible_decimal (n : Nat) : ∀ c ∈ decimal n, invisible c = false :=
  fun c listed => invisible_digit (decimal_isDigit n c listed)

def identityFront (slot : UInt16) (channel : UInt8) (tier : UserTier) : Bytes :=
  decimal slot.toNat ++ tierBracketOpen tier :: byte 'T' :: decimal (clampChannel channel).toNat ++ [byte ':']

theorem channel_length (channel : UInt8) : (decimal (clampChannel channel).toNat).length = 1 := by
  obtain ⟨digit, printed, -⟩ := decimal_clampChannel channel
  rw [printed]
  rfl

theorem identityFront_length (channel : UInt8) (tier : UserTier) : (identityFront slot channel tier).length ≤ 9 := by
  have slotSize := slot_length slot
  have channelSize := channel_length channel
  simp only [identityFront, length_append, length_cons, length_nil]
  omega

theorem identityFront_visible (channel : UInt8) (tier : UserTier) :
    ∀ c ∈ identityFront slot channel tier, invisible c = false := by
  intro c listed
  simp only [identityFront, mem_append, mem_cons, not_mem_nil, or_false] at listed
  rcases listed with (digit | rfl | rfl | digit) | rfl
  · exact visible_decimal _ c digit
  · cases tier <;> decide
  · decide
  · exact visible_decimal _ c digit
  · decide

theorem linkIdentityBody_eq (channel : UInt8) (tier : UserTier) (handle message : Bytes) :
    linkIdentityBody slot channel tier handle message = byte '#' :: identityFront slot channel tier ++
      (sanitizeHandle handle maxHandleLen ++ byte ')' :: byte ' ' :: cleanBody message (maxBodyLen + 1)) := by
  simp [linkIdentityBody, identityFront]

theorem displayLine_hash (rest : Bytes) : displayLine (byte '#' :: rest) = byte '#' :: rest := by
  have noPrefix : parseLinkPrefix (byte '#' :: rest) = none := rfl
  have noSlash : slashLine (byte '#' :: rest) = none := rfl
  have noRow := isNodeRow_cons (c := byte '#') (by decide) rest
  have noTilde : ¬ (byte '#' = byte '~' ∧ rest.head? = some (byte '#')) := fun both => absurd both.1 (by decide)
  simp only [displayLine, noPrefix, noSlash, noRow, head?_cons, tail_cons, Option.some.injEq, if_neg noTilde,
    Bool.false_eq_true, if_false]

theorem displayLine_slash (rest : Bytes) :
    displayLine (byte '/' :: rest) = (slashLine (byte '/' :: rest)).getD (byte '/' :: rest) := by
  have noRow := isNodeRow_cons (c := byte '/') (by decide) rest
  rw [displayLine]
  simp only [noRow]
  cases slashLine (byte '/' :: rest) <;> rfl

theorem slashLine_cons (letter : UInt8) (rest : Bytes) :
    slashLine (byte '/' :: letter :: rest) =
      if letter = byte 'P' ∨ letter = byte 'p' then
        if rest.head? = some (byte 'S') ∨ rest.head? = some (byte 's') then
          some (str "[SYSOP] " ++ rest.tail.dropWhile (· = 32))
        else (parseIncomingPrivate maxHandleLen (byte '/' :: letter :: rest)).map fun pm =>
          str "P#" ++ decimal pm.fromSlot.toNat ++ str "[T" ++ decimal pm.channel.toNat ++ str ":" ++ pm.handle ++
            str ") " ++ pm.message
      else if (letter = byte 'E' ∨ letter = byte 'e') ∧ rest.head? = some (byte '~') then
        (parseIncomingEmail maxHandleLen (byte '/' :: letter :: rest)).map fun mail =>
          str "[E-MAIL #" ++ decimalPadded mail.fromId ++ str "@" ++ decimalPadded mail.fromStation ++ str " " ++
            mail.handle ++ str "] " ++ mail.message
      else none := rfl

theorem take_past {n : Nat} {front : Bytes} (fits : front.length < n) (c : UInt8) (back : Bytes) :
    ∃ back', (front ++ c :: back).take n = front ++ c :: back' := by
  obtain ⟨k, rfl⟩ := Nat.exists_eq_add_of_lt fits
  refine ⟨back.take k, ?_⟩
  rw [take_append, take_of_length_le (by omega), show front.length + k + 1 - front.length = k + 1 by omega]
  rfl

theorem chatContent_cut (channel : UInt8) (tier : UserTier) (handle tail : Bytes) :
    lineIsChatContent ((byte '#' :: identityFront slot channel tier ++
      (visible (sanitizeHandle handle maxHandleLen) ++ byte ')' :: tail)).take (messageLimit - 1)) := by
  have frontSize := identityFront_length slot channel tier
  have handleSize := (visible_length (sanitizeHandle handle maxHandleLen)).trans
    (sanitizeHandle_length handle maxHandleLen)
  have fits : (byte '#' :: identityFront slot channel tier ++ visible (sanitizeHandle handle maxHandleLen)).length <
      messageLimit - 1 := by
    simp only [length_append, length_cons, messageLimit, maxHandleWireLen] at *
    omega
  obtain ⟨tail', cut⟩ := take_past fits (byte ')') tail
  rw [← append_assoc, cut]
  have opens : tierBracketOpen tier = byte '[' ∨ tierBracketOpen tier = byte '(' ∨ tierBracketOpen tier = byte '<' := by
    cases tier <;> decide
  have closes : byte ')' ∈ byte 'T' :: decimal (clampChannel channel).toNat ++ byte ':' ::
      visible (sanitizeHandle handle maxHandleLen) ++ byte ')' :: tail' := by simp
  have content := lineIsChatContent_hash (Or.inl rfl) slot.toNat opens closes
  simpa [identityFront] using content

theorem chatContent_chat (channel : UInt8) (tier : UserTier) (handle message : Bytes) :
    lineIsChatContent (normalizeLine (linkIdentityBody slot channel tier handle message)) := by
  have shown : ∀ c ∈ byte '#' :: identityFront slot channel tier, invisible c = false := by
    intro c listed
    rcases mem_cons.mp listed with rfl | inside
    · decide
    · exact identityFront_visible slot channel tier c inside
  obtain ⟨tail, start⟩ := lineStart_identity shown (by decide) (by decide)
    ((identityFront_length slot channel tier).trans (by decide)) handle (byte ' ' :: cleanBody message (maxBodyLen + 1))
  rw [← linkIdentityBody_eq] at start
  rw [normalizeLine_eq (by rw [start]; simp), start, cons_append, displayLine_hash]
  exact chatContent_cut slot channel tier handle tail

theorem chatContent_dual (channel : UInt8) (tier : UserTier) (handle message : Bytes) :
    lineIsChatContent (normalizeLine (byte '~' :: linkIdentityBody slot channel tier handle message)) := by
  have shown : ∀ c ∈ byte '~' :: byte '#' :: identityFront slot channel tier, invisible c = false := by
    intro c listed
    rcases mem_cons.mp listed with rfl | listed
    · decide
    rcases mem_cons.mp listed with rfl | inside
    · decide
    · exact identityFront_visible slot channel tier c inside
  have short : (byte '#' :: identityFront slot channel tier).length ≤ 64 := by
    have frontSize := identityFront_length slot channel tier
    rw [length_cons]
    omega
  obtain ⟨tail, start⟩ := lineStart_identity shown (by decide) (by decide) short handle
    (byte ' ' :: cleanBody message (maxBodyLen + 1))
  rw [cons_append, ← linkIdentityBody_eq] at start
  rw [normalizeLine_eq (by rw [start]; simp), start]
  exact chatContent_cut slot channel tier handle tail

/-- The identity of a line is read whatever stands behind the handle. -/
theorem parseIdentity_front (handleCap : Nat) (slot : UInt16) (channel : UInt8) (tier : UserTier) {handle : Bytes}
    (clean : ∀ c ∈ handle, (!closesHandle c)) (tail : Bytes) :
    parseIdentity handleCap (byte '#' :: identityFront slot channel tier ++ (handle ++ byte ')' :: tail)) =
      some (⟨slot, clampChannel channel, false, (trimHandle handle).take (handleCap - 1)⟩, tail) := by
  obtain ⟨digit, printed, isDig, value⟩ := decimal_clampChannel channel
  have slotBound : ¬ 65535 < slot.toNat := by
    have bound := slot.toNat_lt
    omega
  have text : byte '#' :: identityFront slot channel tier ++ (handle ++ byte ')' :: tail) =
      byte '#' :: (decimal slot.toNat ++ tierBracketOpen tier :: byte 'T' :: digit :: byte ':' ::
        (handle ++ byte ')' :: tail)) := by
    simp [identityFront, printed]
  have stop : (!closesHandle (byte ')')) = false := by decide
  have user : decide (byte ':' = byte '=') = false := by decide
  have parsed : parseHandle handleCap (handle ++ byte ')' :: tail) =
    some ((trimHandle handle).take (handleCap - 1), tail) := by
    rw [parseHandle, dropWhile_append_of_pos clean, takeWhile_append_of_pos clean, dropWhile_cons,
      takeWhile_cons, stop]
    simp
  rw [text, parseIdentity, strtoul_slot slot (tierBracketOpen_isDigit tier), decimal_head]
  simp only [if_neg slotBound, if_neg (tierBracketOpen_cases tier), isDig, parseLineType]
  rw [if_pos (Or.inl trivial), parsed]
  simp [value, user]

theorem visible_open (handle : Bytes) :
    ∀ c ∈ visible (sanitizeHandle handle maxHandleLen), (!closesHandle c) :=
  fun c listed => sanitizeHandle_open handle maxHandleLen c (mem_of_mem_filter listed)

theorem parseIncomingPrivate_handle {handleCap : Nat} {line : Bytes}
    (parsed : parseIncomingPrivate handleCap line = some message) : message.handle.length ≤ handleCap - 1 := by
  rw [parseIncomingPrivate.eq_def] at parsed
  split at parsed
  next slash letter p =>
    split_ifs at parsed
    obtain ⟨⟨identity, rest⟩, inner, rfl⟩ := Option.map_eq_some_iff.mp parsed
    rw [parseIdentity.eq_def] at inner
    split at inner
    next => cases inner
    next hash digits =>
      simp only at inner
      split_ifs at inner
      split at inner
      next bracket letter' digit p' =>
        split_ifs at inner
        obtain ⟨⟨handle, rest'⟩, found, same⟩ := Option.map_eq_some_iff.mp inner
        obtain ⟨rfl, -⟩ := Prod.mk.inj same
        rw [parseHandle] at found
        split at found
        next => cases found
        next =>
          obtain ⟨rfl, -⟩ := Prod.mk.inj (Option.some.inj found)
          exact length_take_le _ _
      next => cases inner
  next => cases parsed

theorem chatContent_parsed {body : Bytes} (user : ¬ (body.head? = some (byte 'S') ∨ body.head? = some (byte 's')))
    (parsed : parseIncomingPrivate maxHandleLen (byte '/' :: byte 'P' :: body) = some message) :
    lineIsChatContent ((displayLine (byte '/' :: byte 'P' :: body)).take (messageLimit - 1)) := by
  have slashed : slashLine (byte '/' :: byte 'P' :: body) =
      some (str "P#" ++ decimal message.fromSlot.toNat ++ str "[T" ++ decimal message.channel.toNat ++ str ":" ++
        message.handle ++ str ") " ++ message.message) := by
    rw [slashLine_cons, if_neg user, parsed]
    rfl
  have display : displayLine (byte '/' :: byte 'P' :: body) =
      [byte 'P'] ++ byte '#' :: (decimal message.fromSlot.toNat ++ byte '[' :: (byte 'T' ::
        (decimal message.channel.toNat ++ byte ':' :: message.handle)) ++ byte ')' :: byte ' ' :: message.message) := by
    rw [displayLine_slash, slashed]
    simp [str]
  have slotSize := slot_length message.fromSlot
  have channelSize : (decimal message.channel.toNat).length ≤ 3 :=
    decimal_length (message.channel.toNat_lt.trans (by decide)) (by decide)
  have handleSize := parseIncomingPrivate_handle parsed
  have fits : ([byte 'P'] ++ byte '#' :: (decimal message.fromSlot.toNat ++ byte '[' :: (byte 'T' ::
      (decimal message.channel.toNat ++ byte ':' :: message.handle)))).length < messageLimit - 1 := by
    simp only [length_append, length_cons, length_nil, messageLimit, maxHandleLen] at *
    omega
  obtain ⟨tail, cut⟩ := take_past fits (byte ')') (byte ' ' :: message.message)
  rw [display, ← cons_append, ← append_assoc, cut]
  have closes : byte ')' ∈ byte 'T' :: (decimal message.channel.toNat ++ byte ':' :: message.handle) ++ byte ')' ::
    tail := by
    simp
  have content := lineIsChatContent_hash (Or.inr rfl) message.fromSlot.toNat (Or.inl rfl) closes
  simpa using content

def privateFront (target slot : UInt16) (channel : UInt8) (tier : UserTier) : Bytes :=
  byte '/' :: byte 'P' :: (decimal target.toNat ++ byte ' ' :: byte '#' :: identityFront slot channel tier)

theorem privateFront_visible (target slot : UInt16) (channel : UInt8) (tier : UserTier) :
    ∀ c ∈ privateFront target slot channel tier, invisible c = false := by
  intro c listed
  simp only [privateFront, mem_cons, mem_append] at listed
  rcases listed with rfl | rfl | digit | rfl | rfl | inside
  · decide
  · decide
  · exact visible_decimal _ c digit
  · decide
  · decide
  · exact identityFront_visible slot channel tier c inside

theorem privateFront_length (target slot : UInt16) (channel : UInt8) (tier : UserTier) :
    (privateFront target slot channel tier).length ≤ 18 := by
  have frontSize := identityFront_length slot channel tier
  have targetSize := slot_length target
  simp only [privateFront, length_append, length_cons]
  omega

theorem privateLine_eq (target slot : UInt16) (channel : UInt8) (tier : UserTier) (handle message : Bytes) :
    byte '/' :: byte 'P' :: decimal target.toNat ++ byte ' ' :: linkIdentityBody slot channel tier handle message =
      privateFront target slot channel tier ++
        (sanitizeHandle handle maxHandleLen ++ byte ')' :: byte ' ' :: cleanBody message (maxBodyLen + 1)) := by
  rw [linkIdentityBody_eq]
  simp [privateFront]

theorem parseIncomingPrivate_front (handleCap : Nat) (target slot : UInt16) (channel : UInt8) (tier : UserTier)
    {handle : Bytes} (clean : ∀ c ∈ handle, (!closesHandle c)) (tail : Bytes) :
    parseIncomingPrivate handleCap (privateFront target slot channel tier ++ (handle ++ byte ')' :: tail)) =
      some ⟨target, slot, clampChannel channel, (trimHandle handle).take (handleCap - 1), skipSpace tail⟩ := by
  have targetBound : ¬ 65535 < target.toNat := by
    have bound := target.toNat_lt
    omega
  have text : privateFront target slot channel tier ++ (handle ++ byte ')' :: tail) =
      byte '/' :: byte 'P' :: (decimal target.toNat ++ byte ' ' ::
        (byte '#' :: identityFront slot channel tier ++ (handle ++ byte ')' :: tail))) := by
    simp [privateFront]
  rw [text, parseIncomingPrivate, strtoul_slot target (c := byte ' ') (by decide), decimal_head]
  simp only [if_neg targetBound]
  rw [dropWhile_cons_of_pos (by simp), cons_append,
    dropWhile_cons_of_neg (by decide), ← cons_append, parseIdentity_front handleCap slot channel tier clean]
  simp

theorem chatContent_private (target slot : UInt16) (channel : UInt8) (tier : UserTier) (handle message : Bytes) :
    lineIsChatContent (normalizeLine (byte '/' :: byte 'P' :: decimal target.toNat ++ byte ' ' ::
      linkIdentityBody slot channel tier handle message)) := by
  have size := privateFront_length target slot channel tier
  obtain ⟨tail, start⟩ := lineStart_identity (privateFront_visible target slot channel tier) (by decide) (by decide)
    (by rw [privateFront, length_cons] at size; omega) handle (byte ' ' :: cleanBody message (maxBodyLen + 1))
  rw [privateLine_eq, normalizeLine_eq (by rw [privateFront, start]; simp)]
  rw [← privateFront] at start
  rw [start]
  have parsed := parseIncomingPrivate_front maxHandleLen target slot channel tier (visible_open handle) tail
  have digit := decimal_head target.toNat (byte ' ' :: byte '#' :: identityFront slot channel tier ++
    (visible (sanitizeHandle handle maxHandleLen) ++ byte ')' :: tail))
  have text : privateFront target slot channel tier ++ (visible (sanitizeHandle handle maxHandleLen) ++ byte ')' ::
    tail) =
      byte '/' :: byte 'P' :: (decimal target.toNat ++ (byte ' ' :: byte '#' :: identityFront slot channel tier ++
        (visible (sanitizeHandle handle maxHandleLen) ++ byte ')' :: tail))) := by
    simp [privateFront]
  rw [text] at parsed ⊢
  apply chatContent_parsed _ parsed
  rintro (same | same) <;> rw [same] at digit <;> exact absurd digit (by decide)

end Chat

end SshChatter.Ddial
