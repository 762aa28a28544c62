import SshChatter.Ddial.UserLine
import SshChatter.Lib.FramedText

namespace SshChatter.Ddial
open CString DdialProtocol LineScan FramedText List

/-- The texts by which the client recognises that the station hung up. -/
def notices : List Bytes := lockoutNeedles ++ kickNeedles

/-- A text holds a notice of the station. -/
def Notice (text : Bytes) : Prop := lineLooksLikeLockout text ∨ lineLooksLikeKick text

instance decidableNotice (text : Bytes) : Decidable (Notice text) := inferInstanceAs (Decidable (_ ∨ _))

/-- The bytes of the notices are small letters and blanks. -/
def noticeByte (c : UInt8) : Bool := (97 ≤ c ∧ c ≤ 122) ∨ c = 32

/-- The notices are small letters and blanks, with no blank at an end. -/
theorem notices_plain : ∀ needle ∈ notices, (needle.map toLower = needle ∧ ∀ c ∈ needle, noticeByte c) ∧
    (needle.head? ≠ some 32 ∧ needle ≠ []) ∧ needle.getLast?.all (fun c => !isSpace c) = true := by
  decide +kernel

theorem notices_start (needle : Bytes) (listed : needle ∈ notices) : needle.head? ≠ some 32 ∧ needle ≠ [] :=
  (notices_plain needle listed).2.1

theorem notices_end (needle : Bytes) (listed : needle ∈ notices) : needle.getLast?.all (fun c => !isSpace c) = true :=
  (notices_plain needle listed).2.2

theorem notice_iff (text : Bytes) : Notice text ↔ ∃ needle ∈ notices, needle <:+: text.map toLower := by
  have found (needle : Bytes) (listed : needle ∈ notices) :
      strcasestr text needle ↔ needle <:+: text.map toLower := by
    rw [strcasestr, strstr_isSome, (notices_plain needle listed).1.1]
  simp only [Notice, lineLooksLikeLockout, lineLooksLikeKick, any_eq_true]
  constructor
  · rintro (⟨needle, listed, hit⟩ | ⟨needle, listed, hit⟩)
    · exact ⟨needle, mem_append_left _ listed, (found _ (mem_append_left _ listed)).mp hit⟩
    · exact ⟨needle, mem_append_right _ listed, (found _ (mem_append_right _ listed)).mp hit⟩
  · rintro ⟨needle, listed, inside⟩
    have hit := (found needle listed).mpr inside
    rcases mem_append.mp listed with lockout | kick
    · exact Or.inl ⟨needle, lockout, hit⟩
    · exact Or.inr ⟨needle, kick, hit⟩

/-- No notice touches the frame. -/
def NoticeFrame (frame : Bytes) : Prop := ∀ needle ∈ notices, Separates needle (frame.map toLower)

/-- A cut text of frames and fields holds a notice exactly when one of its fields does. -/
theorem notice_framed {parts : List (Bytes × Bytes)} (frames : ∀ part ∈ parts, NoticeFrame part.1) (room : Nat) :
    Notice ((framed parts).take room) ↔ ∃ field ∈ visibleFields room parts, Notice field := by
  have each (needle : Bytes) (listed : needle ∈ notices) : needle <:+: ((framed parts).take room).map toLower ↔
      ∃ field ∈ visibleFields room parts, needle <:+: field.map toLower := by
    rw [map_take, framed_map, infix_framed (notices_start needle listed).2, visibleFields_map]
    · simp
    · intro part inside
      obtain ⟨part', listed', rfl⟩ := mem_map.mp inside
      exact frames part' listed' needle listed
  simp only [notice_iff]
  constructor
  · rintro ⟨needle, listed, inside⟩
    obtain ⟨field, shown, hit⟩ := (each needle listed).mp inside
    exact ⟨field, shown, needle, listed, hit⟩
  · rintro ⟨field, shown, needle, listed, hit⟩
    exact ⟨needle, listed, (each needle listed).mpr ⟨field, shown, hit⟩⟩

theorem toLower_space {c : UInt8} (space : isSpace c) : toLower c = c := by
  rw [toLower, if_neg]
  rintro ⟨low, -⟩
  simp only [isSpace, decide_eq_true_eq, UInt8.le_iff_toNat_le, ← UInt8.toNat_inj] at space low
  have sizes : (9 : UInt8).toNat = 9 ∧ (13 : UInt8).toNat = 13 ∧ (32 : UInt8).toNat = 32 ∧ (65 : UInt8).toNat = 65 := by
    decide
  omega

/-- Blanks behind a text hold nothing of a notice. -/
theorem notice_blanks {blanks : Bytes} (all : ∀ c ∈ blanks, isSpace c = true) (text : Bytes) (room : Nat) :
    Notice ((text ++ blanks).take room) ↔ Notice (text.take room) := by
  simp only [notice_iff]
  apply exists_congr
  intro needle
  apply and_congr_right
  intro listed
  have ends : ∀ c, needle.getLast? = some c → ¬ isSpace c := by
    intro c last space
    have stop := notices_end needle listed
    rw [last] at stop
    simp [space] at stop
  have small : (blanks.take (room - text.length)).map toLower = blanks.take (room - text.length) := by
    have same : ∀ c ∈ blanks.take (room - text.length), toLower c = c :=
      fun c inside => toLower_space (all c (mem_of_mem_take inside))
    rw [map_congr_left same, map_id']
  rw [take_append, map_append, small,
    infix_append_blanks ends fun c listed' => all c (mem_of_mem_take listed')]

theorem not_notice_nil : ¬ Notice [] := by
  rw [notice_iff]
  rintro ⟨needle, listed, inside⟩
  exact (notices_start needle listed).2 (eq_nil_of_infix_nil inside)

section Frames

theorem toLower_digit {c : UInt8} (digit : isDigit c) : noticeByte (toLower c) = false := by
  simp only [isDigit, decide_eq_true_eq, UInt8.le_iff_toNat_le] at digit
  have sizes : (48 : UInt8).toNat = 48 ∧ (57 : UInt8).toNat = 57 ∧ (65 : UInt8).toNat = 65 ∧ (97 : UInt8).toNat = 97 ∧
      (32 : UInt8).toNat = 32 := by decide
  have same : toLower c = c := by
    rw [toLower, if_neg]
    rintro ⟨low, -⟩
    rw [UInt8.le_iff_toNat_le] at low
    omega
  simp only [same, noticeByte, decide_eq_false_iff_not, UInt8.le_iff_toNat_le, ← UInt8.toNat_inj]
  omega

variable {frame : Bytes}

/-- A text without the bytes of notices is a frame. -/
theorem noticeFrame_foreign (some' : frame ≠ []) (foreign : ∀ c ∈ frame, noticeByte (toLower c) = false) :
    NoticeFrame frame := by
  intro needle listed
  apply separates_foreign (notices_start needle listed).2
  · simpa using some'
  · intro c inside both
    obtain ⟨d, listed', rfl⟩ := mem_map.mp inside
    have known := (notices_plain needle listed).1.2 _ both
    rw [foreign d listed'] at known
    cases known

theorem NoticeFrame.append {frame frame' : Bytes} (first : NoticeFrame frame) (second : NoticeFrame frame') :
    NoticeFrame (frame ++ frame') := by
  intro needle listed
  rw [map_append]
  exact (first needle listed).append (notices_start needle listed).2 (second needle listed)

/-- A frame stays one with a text between its parts that holds no notice. -/
theorem NoticeFrame.around {frame frame' middle : Bytes} (first : NoticeFrame frame) (quiet : ¬ Notice middle)
    (second : NoticeFrame frame') : NoticeFrame (frame ++ middle ++ frame') := by
  intro needle listed
  rw [map_append, map_append]
  apply (first needle listed).around _ (second needle listed)
  exact fun inside => quiet ((notice_iff middle).mpr ⟨needle, listed, inside⟩)

theorem NoticeFrame.blank (frames : NoticeFrame frame) : NoticeFrame (byte ' ' :: frame) := by
  intro needle listed
  apply Separates.cons _ (frames needle listed)
  intro last
  have stop := notices_end needle listed
  rw [last] at stop
  exact absurd stop (by decide)

theorem NoticeFrame.concat_blank (frames : NoticeFrame frame) : NoticeFrame (frame ++ [byte ' ']) := by
  intro needle listed
  rw [map_append]
  exact (frames needle listed).concat (notices_start needle listed).1

theorem noticeFrame_decimal (n : Nat) : NoticeFrame (decimal n) :=
  noticeFrame_foreign (decimal_ne_nil n) fun c listed => toLower_digit (decimal_isDigit n c listed)

theorem noticeFrame_byte {c : UInt8} (foreign : noticeByte (toLower c) = false) : NoticeFrame [c] := by
  apply noticeFrame_foreign (cons_ne_nil _ _)
  intro d listed
  rw [mem_singleton.mp listed]
  exact foreign

/-- The words that the station writes between foreign bytes are no notices. -/
def stationWords : { words : List Bytes // ∀ word ∈ words, ¬ Notice word } :=
  ⟨[[byte 'T'], str "LINK] -->, ", str "LINK] -->. ", str "SYSOP] -", str "E-MAIL "], by decide +kernel⟩

theorem stationWords_quiet : ∀ word ∈ [[byte 'T'], str "LINK] -->, ", str "LINK] -->. ", str "SYSOP] -", str "E-MAIL "],
    ¬ Notice word := stationWords.2

/-- The identity of a user is a frame in front of the handle. -/
theorem noticeFrame_identity (user : LinkUser) {separator : UInt8} (foreign : noticeByte (toLower separator) = false) :
    NoticeFrame (user.identityHead ++ [separator]) := by
  have bracket : noticeByte (toLower (tierBracketOpen user.tier)) = false := by
    cases user.tier <;> decide
  have first : NoticeFrame ([byte '#'] ++ decimal user.slot.toNat ++ [tierBracketOpen user.tier]) :=
    ((noticeFrame_byte (by decide)).append (noticeFrame_decimal _)).append (noticeFrame_byte bracket)
  have second : NoticeFrame (decimal (clampChannel user.channel).toNat ++ [separator]) :=
    (noticeFrame_decimal _).append (noticeFrame_byte foreign)
  have quiet : ¬ Notice [byte 'T'] := stationWords_quiet _ (by simp)
  have whole := first.around quiet second
  simpa [LinkUser.identityHead] using whole

end Frames

/-- A caret is displayed as a blank. -/
def caret (c : UInt8) : UInt8 := if c = byte '^' then byte ' ' else c

/-- The text of a link line as the client displays it. -/
def shown (text : Bytes) : Bytes := (visible text).map caret

theorem shown_append (text text' : Bytes) : shown (text ++ text') = shown text ++ shown text' := by
  rw [shown, visible_append, map_append]
  rfl

/-- Visible bytes other than the caret are displayed as they are. -/
theorem shown_eq {text : Bytes} (plain : ∀ c ∈ text, invisible c = false ∧ c ≠ byte '^') : shown text = text := by
  have same : ∀ c ∈ text, caret c = c := fun c listed => if_neg (plain c listed).2
  rw [shown, visible_eq fun c listed => (plain c listed).1, map_congr_left same, map_id']

theorem rdropWhile_split (p : UInt8 → Bool) (text : Bytes) :
    ∃ back, text = text.rdropWhile p ++ back ∧ ∀ c ∈ back, p c = true := by
  refine ⟨(text.reverse.takeWhile p).reverse, ?_, ?_⟩
  · rw [rdropWhile, ← reverse_append, takeWhile_append_dropWhile, reverse_reverse]
  · intro c listed
    exact mem_takeWhile_imp (mem_reverse.mp listed)

/-- A line that starts with another byte than a chat line is no chat content. -/
theorem lineIsChatContent_other {c : UInt8} (other : c ∈ [byte '[', byte '/']) (rest : Bytes) :
    lineIsChatContent (c :: rest) = false := by
  have kept : skipOptional [byte 'P', byte 'p']
      (skipOptional [byte '~'] ((skipPrompts (c :: rest)).dropWhile isDigit)) = c :: rest := by
    simp only [mem_cons, not_mem_nil, or_false] at other
    rcases other with rfl | rfl
    all_goals
      rw [skipPrompts_cons (by decide) (by decide)]
      rfl
  have hash : c ≠ byte '#' := by
    rintro rfl
    exact absurd other (by decide)
  rw [lineIsChatContent, kept]
  simp [hash]

theorem hangsUp_iff {line : Bytes} (noChat : lineIsChatContent line = false) : hangsUp line ↔ Notice line := by
  rw [hangsUp, noChat, Notice, Bool.not_false, Bool.true_and, Bool.or_eq_true]

/-- The braces of a link line and the tag that they are displayed as. -/
inductive LinkTag : Bytes → Bytes → Prop where
  | member : LinkTag [byte '}'] (str "[LINK] ")
  | guest : LinkTag [byte '}', byte '}'] (str "[LINK] ")
  | station : LinkTag [byte '}', byte '}', byte '}'] (str "[SYSOP] ")

/-- A link line hangs up exactly when its display form holds a notice. -/
theorem hangsUp_link {braces tag rest : Bytes} (kind : LinkTag braces tag) (noEscape : 0x1B ∉ rest)
    (short : rest.length ≤ messageLimit - 5) :
    hangsUp (normalizeLine (braces ++ byte '-' :: rest)) ↔
      Notice ((tag ++ shown (byte '-' :: rest)).take (messageLimit - 1)) := by
  obtain ⟨blanks, split, spaces⟩ := rdropWhile_split isSpace (visible rest)
  generalize trims : (visible rest).rdropWhile isSpace = trimmed at split
  have size : trimmed.length ≤ messageLimit - 5 := by
    have total := congrArg length split
    have visibleSize := visible_length rest
    rw [length_append] at total
    omega
  have start : lineStart (braces ++ byte '-' :: rest) = braces ++ byte '-' :: trimmed := by
    have plain : 0x1B ∉ braces ++ byte '-' :: rest := by
      rw [mem_append, mem_cons, not_or, not_or]
      refine ⟨?_, by decide, noEscape⟩
      cases kind <;> decide
    have kept : visible (braces ++ byte '-' :: rest) = braces ++ byte '-' :: visible rest := by
      cases kind <;> rfl
    have fits : (visible (braces ++ byte '-' :: rest)).length ≤ messageLimit - 1 := by
      have visibleSize := visible_length rest
      rw [kept]
      cases kind <;> simp only [length_append, length_cons, length_nil, messageLimit] at * <;> omega
    have dash : isSpace (byte '-') = false := by decide
    rw [lineStart, sanitizeLine_plain plain fits, kept, ← trims]
    cases kind <;> rw [cons_append, trimSpace_cons (by decide), rdropWhile_stop dash, dropPrompts_cons (by decide)] <;>
      rfl
  have payload : linkPayload (byte '-' :: trimmed) = byte '-' :: trimmed.map caret := by
    have fits : ((byte '-' :: trimmed).map caret).length ≤ messageLimit - 1 := by
      simp only [length_map, length_cons, messageLimit] at *
      omega
    rw [linkPayload, show (fun c => if c = byte '^' then byte ' ' else c) = caret from rfl, take_of_length_le fits]
    rfl
  have display : displayLine (braces ++ byte '-' :: trimmed) = tag ++ byte '-' :: trimmed.map caret := by
    rw [← payload]
    cases kind <;> rfl
  have some' : lineStart (braces ++ byte '-' :: rest) ≠ [] := by
    rw [start]
    simp
  have same : ∀ c ∈ blanks, caret c = c := by
    intro c listed
    apply if_neg
    intro isCaret
    exact absurd (isCaret ▸ spaces c listed) (by decide)
  have whole : tag ++ shown (byte '-' :: rest) = tag ++ byte '-' :: trimmed.map caret ++ blanks := by
    rw [shown, show visible (byte '-' :: rest) = byte '-' :: visible rest from rfl, split, map_cons, map_append,
      map_congr_left same, map_id', append_assoc]
    rfl
  have noChat : lineIsChatContent (normalizeLine (braces ++ byte '-' :: rest)) = false := by
    rw [normalizeLine_eq some', start]
    cases kind <;> exact lineIsChatContent_other (by decide) _
  rw [hangsUp_iff noChat, whole, notice_blanks spaces, normalizeLine_eq some', start, display]

/-- The client stays connected, and is not locked out, when it extracts the line. -/
def KeepsLink (client : UpstreamClient) (wire : Bytes) : Prop :=
  (extractLines { client with buffer := wire } maxExtractedLines).1.connected ∧
    (extractLines { client with buffer := wire } maxExtractedLines).1.lockedOut = client.lockedOut

def cleanByte (c : UInt8) : Bool := c ≠ 0 ∧ c ≠ 13 ∧ c ≠ 10

/-- A text that the client extracts as one line. -/
structure CleanLine (line : Bytes) : Prop where
  clean : ∀ c ∈ line, cleanByte c
  short : line.length < messageLimit

/-- The link is kept exactly when the line is no notice. -/
theorem keepsLink_line {client : UpstreamClient} (connected : client.connected) {line : Bytes}
    (clean : CleanLine line) : KeepsLink client (line ++ crlf) ↔ ¬ hangsUp (normalizeLine line) := by
  have noNul : 0 ∉ line := fun inside => absurd (clean.clean 0 inside) (by decide)
  have noReturn : 13 ∉ line := fun inside => absurd (clean.clean 13 inside) (by decide)
  have noFeed : 10 ∉ line := fun inside => absurd (clean.clean 10 inside) (by decide)
  have found : nextLine 13 10 (line ++ crlf) = some (line, .crlf, []) := nextLine_crlf (by decide) noReturn noFeed []
  have empty : nextLine (13 : UInt8) 10 [] = none := rfl
  have ordered : Ordered 13 10 (line ++ crlf) := by
    have ends : (line ++ crlf).getLast? = some 10 := by
      rw [getLast?_append_of_ne_nil _ (by decide)]
      rfl
    rw [Ordered, scan_some found, scan_none empty, ends]
    exact ⟨pairwise_singleton _ _, fun other => absurd other (by decide)⟩
  have pass := extractLoop_line (by decide : maxExtractedLines ≠ 0) found ordered clean.short noNul
  have rest (left : Nat) : extractLoop left [] = .lines [] [] := extractLoop_none (findEol_none empty) left
  have noChat : lineIsChatContent [] = false := by simp [lineIsChatContent, skipPrompts, skipOptional]
  have silent : hangsUp [] = false := Bool.eq_false_iff.mpr fun up => not_notice_nil ((hangsUp_iff noChat).mp up)
  rw [rest, rest] at pass
  rw [KeepsLink, extractLines]
  by_cases blank : normalizeLine line = []
  · rw [if_pos blank] at pass
    simp only [pass, connected, blank, silent]
    simp
  · rw [if_neg blank] at pass
    by_cases notice : hangsUp (normalizeLine line)
    · rw [if_pos notice] at pass
      simp [pass, notice]
    · rw [if_neg notice] at pass
      simp only [pass, connected, notice, Extraction.push]
      simp

end SshChatter.Ddial
