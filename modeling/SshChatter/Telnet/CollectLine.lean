import SshChatter.Codepage.SinglePages
import SshChatter.Lib.EventRun
import SshChatter.Telnet.InputDecoder

namespace SshChatter.TelnetInput
open CString Codepage EventRun List

def inputPollMs : Nat := 1000

def idleTimeoutMs : Nat := 180 * 1000

def endOfText : UInt8 := 3

def endOfTransmission : UInt8 := 4

def backspace : UInt8 := 8

def delete : UInt8 := 0x7F

/-- The fields of a session that `session_telnet_collect_line` uses. -/
structure Session where
  cp437InputEnabled : Bool
  activeCodepage : Page
  codepageCtx : Context
  consumeNextLf : Bool

/-- The variables of the loop. The text is what is written of the buffer, and the size of the last glyph comes first. -/
structure Line where
  session : Session
  text : Bytes
  glyphSizes : List Nat
  rawBuf : Bytes
  ignoreNextNewline : Bool
  idleTimeMs : Nat

/-- What `session_telnet_read_byte` gives. -/
inductive Read where
  | again
  | failed
  | byte (value : UInt8)

/-- What has become of the loop: it goes on, the session exits, or a line is returned. -/
inductive Outcome where
  | reading (line : Line)
  | exit
  | returned (session : Session) (text : Bytes)

def Session.detect (detectAuto : Bytes → Page) (session : Session) (rawBuf : Bytes) (byte : UInt8) : Session :=
  if session.cp437InputEnabled ∧ session.activeCodepage = .auto ∧ 0x80 ≤ byte then
    if detectAuto rawBuf = .auto then session
    else { session with activeCodepage := detectAuto rawBuf, cp437InputEnabled := detectAuto rawBuf ≠ .utf8 }
  else session

def Session.encode (iconv : Iconv) (session : Session) (byte : UInt8) : Option (Session × Bytes) :=
  if session.cp437InputEnabled then
    (pageByteToUtf8 iconv session.activeCodepage session.codepageCtx byte 8).map fun result =>
      ({ session with codepageCtx := result.1 }, if result.2 = [] then [CString.byte '?'] else result.2)
  else some (session, [byte])

/-- The encoded bytes are written as a glyph while there is room for them. -/
def Line.store (length : Nat) (line : Line) (encoded : Bytes) : Line :=
  if length ≤ line.text.length + encoded.length then line
  else { line with
    text := line.text ++ encoded
    glyphSizes := if line.glyphSizes.length < messageLimit then encoded.length :: line.glyphSizes else line.glyphSizes }

def Line.typeByte (iconv : Iconv) (detectAuto : Bytes → Page) (length : Nat) (line : Line) (byte : UInt8) :
    Option Line :=
  let rawBuf := if line.rawBuf.length + 1 < messageLimit then line.rawBuf ++ [byte] else line.rawBuf
  ((line.session.detect detectAuto rawBuf byte).encode iconv byte).map fun result =>
    { line with session := result.1, rawBuf := rawBuf }.store length result.2

def Line.erase (line : Line) : Line where
  session := { line.session with codepageCtx := .new }
  text := line.text.take (line.text.length - line.glyphSizes.headD 0)
  glyphSizes := line.glyphSizes.tail
  rawBuf := line.rawBuf.dropLast
  ignoreNextNewline := line.ignoreNextNewline
  idleTimeMs := line.idleTimeMs

def Line.takeByte (iconv : Iconv) (detectAuto : Bytes → Page) (length : Nat) (line : Line) (byte : UInt8) :
    Option Outcome :=
  if line.ignoreNextNewline ∧ (byte = lineFeed ∨ byte = 0) then some (.reading { line with ignoreNextNewline := false })
  else
    let line := { line with ignoreNextNewline := false }
    if byte = 0 then some (.reading line)
    else if byte = carriageReturn ∨ byte = lineFeed then
      some (.returned { line.session with codepageCtx := .new, consumeNextLf := byte = carriageReturn } line.text)
    else if byte = delete ∨ byte = backspace then some (.reading line.erase)
    else if byte = endOfText ∨ byte = endOfTransmission then some .exit
    else if byte < 0x20 then some (.reading line)
    else (line.typeByte iconv detectAuto length byte).map .reading

/-- The loop over what is read. -/
def collect (iconv : Iconv) (detectAuto : Bytes → Page) (length : Nat) : Line → List Read → Option Outcome
  | line, [] => some (.reading line)
  | line, .again :: rest =>
    if idleTimeoutMs ≤ line.idleTimeMs + inputPollMs then some .exit
    else collect iconv detectAuto length { line with idleTimeMs := line.idleTimeMs + inputPollMs } rest
  | _, .failed :: _ => some .exit
  | line, .byte value :: rest =>
    (Line.takeByte iconv detectAuto length { line with idleTimeMs := 0 } value).bind fun
      | .reading line => collect iconv detectAuto length line rest
      | outcome => some outcome

/-- The variables before the loop. -/
def Line.start (session : Session) : Line := ⟨session, [], [], [], session.consumeNextLf, 0⟩

/-- This is `session_telnet_collect_line` for a session that nothing else ends, with the line in the buffer. It has no
result when a conversion nests too deep. -/
def collectLine (iconv : Iconv) (detectAuto : Bytes → Page) (length : Nat) (session : Session) (reads : List Read) :
    Option Outcome :=
  if length = 0 then some .exit else collect iconv detectAuto length (.start session) reads

/-- How a session reads characters: in UTF-8, in a page with a table, or in a page with two bytes. -/
inductive Mode where
  | utf8
  | single (page : SinglePage)
  | double (page : MultibytePage)

def Session.Has (session : Session) : Mode → Prop
  | .utf8 => session.cp437InputEnabled = false ∨ session.activeCodepage = .utf8
  | .single page => session.cp437InputEnabled ∧ session.activeCodepage = .single page
  | .double page => session.cp437InputEnabled ∧ session.activeCodepage = .multibyte page

def Printable (byte : UInt8) : Prop := 0x20 ≤ byte.toNat ∧ byte ≠ delete

/-- The bytes that a character is typed with, and its text in UTF-8. -/
inductive Types (iconv : Iconv) : Mode → Bytes → Bytes → Prop
  | utf8 {codepoint : Nat} : Scalar codepoint → 0x20 ≤ codepoint → codepoint ≠ 0x7F →
      Types iconv .utf8 (encodeUtf8Codepoint codepoint 4) (encodeUtf8Codepoint codepoint 4)
  | single {page : SinglePage} {byte : UInt8} : Printable byte →
      Types iconv (.single page) [byte] (encodeUtf8Codepoint (page.codepoint byte) 4)
  | one {page : MultibytePage} {byte : UInt8} {codepoint : Nat} : Printable byte → Scalar codepoint →
      startByte iconv page byte = .char (encodeUtf8Codepoint codepoint 4) →
      Types iconv (.double page) [byte] (encodeUtf8Codepoint codepoint 4)
  | two {page : MultibytePage} {lead trail : UInt8} {codepoint : Nat} : Printable trail → Scalar codepoint →
      0x80 ≤ codepoint → startByte iconv page lead = .lead →
      pairBytes iconv page lead trail = some (encodeUtf8Codepoint codepoint 4) →
      Types iconv (.double page) [lead, trail] (encodeUtf8Codepoint codepoint 4)

inductive Key where
  | char (bytes text : Bytes)
  | erase (byte : UInt8)

def Key.bytes : Key → Bytes
  | .char bytes _ => bytes
  | .erase byte => [byte]

def Key.Valid (iconv : Iconv) (mode : Mode) : Key → Prop
  | .char bytes text => Types iconv mode bytes text
  | .erase byte => byte = delete ∨ byte = backspace

/-- What a key does to the characters of a line. A character that does not fit is refused, and a backspace removes the
last character. -/
def edit (length : Nat) (line : List Bytes) : Key → List Bytes
  | .char _ text => if line.flatten.length + text.length < length then line ++ [text] else line
  | .erase _ => line.dropLast

def behindLineEnd (consumeNextLf : Bool) (stream : Bytes) : Bytes :=
  if consumeNextLf ∧ (stream.head? = some lineFeed ∨ stream.head? = some 0) then stream.tail else stream

/-- The reads of some bytes, with the polls that time out in front of each. -/
def arriving (polls : List (Nat × UInt8)) : List Read :=
  polls.flatMap fun poll => replicate poll.1 .again ++ [.byte poll.2]

def InTime (polls : List (Nat × UInt8)) : Prop := ∀ poll ∈ polls, poll.1 * inputPollMs < idleTimeoutMs

def EditsLine (iconv : Iconv) (detectAuto : Bytes → Page) (length : Nat) (session : Session) (keys : List Key) : Prop :=
  ∀ polls last, InTime polls → last = carriageReturn ∨ last = lineFeed →
    behindLineEnd session.consumeNextLf (polls.map Prod.snd) = keys.flatMap Key.bytes ++ [last] →
    ∃ after, collectLine iconv detectAuto length session (arriving polls) =
      some (.returned after (run (edit length) [] keys).flatten)

/-- A key is sound on a line. In a page with two bytes a character of two bytes is typed on a full line only. In UTF-8 a
character of several bytes fits or the line is full, and a backspace removes a character of one byte. -/
def Sound (length : Nat) (mode : Mode) (line : List Bytes) (key : Key) : Prop :=
  match mode, key with
  | .utf8, .char bytes _ =>
    bytes.length = 1 ∨ line.flatten.length + bytes.length < length ∨ length ≤ line.flatten.length + 1
  | .utf8, .erase _ => ∀ last ∈ line.getLast?, last.length = 1
  | .double _, .char bytes _ => bytes.length = 1 ∨ length ≤ line.flatten.length + 1
  | _, _ => True

section Rounds

variable {iconv : Iconv} {detectAuto : Bytes → Page} {length : Nat} {line : Line} {byte : UInt8}
  {waiting : Option UInt8}

theorem takeByte_printable (printable : Printable byte) : line.takeByte iconv detectAuto length byte =
    (Line.typeByte iconv detectAuto length { line with ignoreNextNewline := false } byte).map .reading := by
  obtain ⟨large, other⟩ := printable
  have apart {control : UInt8} (small : control.toNat < 0x20) : byte ≠ control := by
    rintro rfl
    omega
  have lf : byte ≠ lineFeed := apart (by decide)
  have cr : byte ≠ carriageReturn := apart (by decide)
  have zero : byte ≠ 0 := apart (by decide)
  have bs : byte ≠ backspace := apart (by decide)
  have etx : byte ≠ endOfText := apart (by decide)
  have eot : byte ≠ endOfTransmission := apart (by decide)
  have high : ¬ byte < 0x20 := by
    exact not_lt.mpr large
  simp only [Line.takeByte, lf, cr, zero, other, bs, etx, eot, high, or_self, and_false, if_false]

theorem takeByte_erase (key : byte = delete ∨ byte = backspace) : line.takeByte iconv detectAuto length byte =
    some (.reading (Line.erase { line with ignoreNextNewline := false })) := by
  rcases key with rfl | rfl <;>
    simp [Line.takeByte, delete, backspace, lineFeed, carriageReturn]

theorem takeByte_carriageReturn (iconv : Iconv) (detectAuto : Bytes → Page) (length : Nat) (line : Line) :
    ∃ after, line.takeByte iconv detectAuto length carriageReturn = some (.returned after line.text) := by
  simp [Line.takeByte, lineFeed, carriageReturn]

theorem takeByte_end (iconv : Iconv) (detectAuto : Bytes → Page) (length : Nat)
    (begun : line.ignoreNextNewline = false) (key : byte = carriageReturn ∨ byte = lineFeed) :
    ∃ after, line.takeByte iconv detectAuto length byte = some (.returned after line.text) := by
  rcases key with rfl | rfl
  · exact takeByte_carriageReturn iconv detectAuto length line
  · simp [Line.takeByte, begun, lineFeed]

@[simp] theorem store_session (encoded : Bytes) : (line.store length encoded).session = line.session := by
  rw [Line.store]
  split_ifs <;> rfl

theorem store_text (encoded : Bytes) : (line.store length encoded).text =
    if line.text.length + encoded.length < length then line.text ++ encoded else line.text := by
  rw [Line.store]
  by_cases fits : line.text.length + encoded.length < length
  · rw [if_neg (by omega), if_pos fits]
  · rw [if_pos (by omega), if_neg fits]

variable {session : Session}

theorem detect_eq {mode : Mode} (has : session.Has mode) (rawBuf : Bytes) :
    session.detect detectAuto rawBuf byte = session := by
  rw [Session.detect, if_neg]
  rintro ⟨enabled, page, -⟩
  cases mode with
  | utf8 => rcases has with off | other <;> simp_all
  | single => simp [has.2] at page
  | double => simp [has.2] at page

/-- The loop in front of a byte that is typed, with what the byte changes apart from the text. -/
def Line.ready (line : Line) (session : Session) (rawBuf : Bytes) : Line :=
  { line with ignoreNextNewline := false, idleTimeMs := 0, session := session, rawBuf := rawBuf }

theorem takeByte_stores (detectAuto : Bytes → Page) (length : Nat) {mode : Mode} (printable : Printable byte)
    (has : line.session.Has mode) {encoded : Bytes}
    (found : line.session.encode iconv byte = some (session, encoded)) : ∃ rawBuf,
      Line.takeByte iconv detectAuto length { line with idleTimeMs := 0 } byte =
        some (.reading ((line.ready session rawBuf).store length encoded)) := by
  rw [takeByte_printable printable, Line.typeByte]
  simp only [detect_eq has, found]
  exact ⟨_, rfl⟩

theorem encode_utf8 (iconv : Iconv) (has : session.Has .utf8) (fresh : session.codepageCtx.state = 0) :
    ∃ after : Session, session.encode iconv byte = some (after, [byte]) ∧ after.Has .utf8 ∧ after.codepageCtx.state =
      0 := by
  rw [Session.encode]
  split_ifs with enabled
  · obtain page : session.activeCodepage = .utf8 := has.resolve_left (by simp [enabled])
    refine ⟨{ session with codepageCtx := .new }, ?_, .inr page, rfl⟩
    simp [page, pageByteToUtf8]
  · exact ⟨session, rfl, has, fresh⟩

theorem encode_single (iconv : Iconv) {page : SinglePage} (has : session.Has (.single page)) :
    ∃ after : Session, session.encode iconv byte = some (after, encodeUtf8Codepoint (page.codepoint byte) 4) ∧
      after.Has (.single page) ∧ after.codepageCtx.state = 0 := by
  refine ⟨{ session with codepageCtx := .new }, ?_, has, rfl⟩
  rw [Session.encode, if_pos has.1, has.2, pageByteToUtf8_single iconv page _ byte (by decide)]
  simp [encode_nonempty (codepoint_scalar page byte)]

theorem encode_double (iconv : Iconv) (byte : UInt8) {page : MultibytePage} (has : session.Has (.double page))
    (keeps : session.codepageCtx.Keeps waiting) : ∃ after : Session,
      session.encode iconv byte = some (after, if (turn iconv page waiting byte).1 = [] then [CString.byte '?']
        else (turn iconv page waiting byte).1) ∧
      after.Has (.double page) ∧ after.codepageCtx.Keeps (turn iconv page waiting byte).2 := by
  obtain ⟨context, result, keeps', -⟩ := byteToUtf8_turn iconv page keeps byte (le_refl 8)
  refine ⟨{ session with codepageCtx := context }, ?_, has, keeps'⟩
  rw [Session.encode, if_pos has.1, has.2, pageByteToUtf8, result]
  rfl

end Rounds

section Steps

def Mode.glyphSizes (mode : Mode) (chars : List Bytes) : List Nat :=
  match mode with
  | .utf8 => replicate chars.flatten.length 1
  | _ => (chars.map length).reverse

structure Holds (mode : Mode) (length : Nat) (line : Line) (chars : List Bytes) : Prop where
  has : line.session.Has mode
  fresh : line.session.codepageCtx.state = 0
  begun : line.ignoreNextNewline = false
  text_eq : line.text = chars.flatten
  glyphs_eq : line.glyphSizes = mode.glyphSizes chars
  written : ∀ char ∈ chars, char ≠ []
  short : chars.flatten.length < length

/-- The bytes are read and the loop goes on. -/
def Takes (iconv : Iconv) (detectAuto : Bytes → Page) (length : Nat) (line : Line) (bytes : Bytes) (after : Line) :
    Prop :=
  collect iconv detectAuto length line (bytes.map .byte) = some (.reading after)

variable {iconv : Iconv} {detectAuto : Bytes → Page} {length : Nat} {line after : Line} {mode : Mode}
  {chars : List Bytes} {byte : UInt8} {bytes : Bytes}

theorem Takes.nil : Takes iconv detectAuto length line [] line := rfl

theorem Takes.cons {mid : Line} (first : Line.takeByte iconv detectAuto length { line with idleTimeMs := 0 } byte =
    some (.reading mid))
    (rest : Takes iconv detectAuto length mid bytes after) :
      Takes iconv detectAuto length line (byte :: bytes) after := by
  rw [Takes, map_cons, collect, first]
  exact rest

theorem Takes.append {mid : Line} (first : Takes iconv detectAuto length line bytes mid) (rest : List Read) :
    collect iconv detectAuto length line (bytes.map .byte ++ rest) = collect iconv detectAuto length mid rest := by
  induction bytes generalizing line with
  | nil =>
    obtain rfl : line = mid := by simpa [Takes, collect] using first
    rfl
  | cons byte bytes ih =>
    obtain ⟨outcome, taken, later⟩ := Option.bind_eq_some_iff.mp first
    rw [map_cons, cons_append, collect, taken]
    cases outcome with
    | reading => exact ih later
    | exit => cases later
    | returned => cases later

theorem Holds.awake (holds : Holds mode length line chars) :
    Holds mode length { line with ignoreNextNewline := false, idleTimeMs := 0 } chars :=
  ⟨holds.has, holds.fresh, rfl, holds.text_eq, holds.glyphs_eq, holds.written, holds.short⟩

theorem Holds.glyphs_length (holds : Holds mode length line chars) : line.glyphSizes.length ≤ line.text.length := by
  have each : chars.length ≤ chars.flatten.length := by
    rw [length_flatten, ← length_map (f := List.length)]
    apply length_le_sum_of_one_le
    intro size inside
    obtain ⟨char, member, rfl⟩ := mem_map.mp inside
    exact length_pos_of_ne_nil (holds.written char member)
  rw [holds.glyphs_eq, holds.text_eq]
  cases mode with
  | utf8 => simp [Mode.glyphSizes]
  | single => simpa [Mode.glyphSizes] using each
  | double => simpa [Mode.glyphSizes] using each

theorem store_eq (counted : line.glyphSizes.length ≤ line.text.length) (short : line.text.length < length)
    (limit : length ≤ messageLimit) (encoded : Bytes) : line.store length encoded =
      if line.text.length + encoded.length < length then
        { line with text := line.text ++ encoded, glyphSizes := encoded.length :: line.glyphSizes }
      else line := by
  rw [Line.store]
  by_cases fits : line.text.length + encoded.length < length
  · rw [if_neg (by omega), if_pos fits, if_pos (lt_of_le_of_lt counted (lt_of_lt_of_le short limit))]
  · rw [if_pos (by omega), if_neg fits]

theorem glyphSizes_concat {last : Bytes} (single : mode = .utf8 → last.length = 1) :
    mode.glyphSizes (chars ++ [last]) = last.length :: mode.glyphSizes chars := by
  cases mode with
  | utf8 => simp [Mode.glyphSizes, single rfl, replicate_succ]
  | single => simp [Mode.glyphSizes]
  | double => simp [Mode.glyphSizes]

variable {codepoint : Nat} {text : Bytes}

theorem Holds.store (holds : Holds mode length line chars) (limit : length ≤ messageLimit) {session : Session}
    (has : session.Has mode) (fresh : session.codepageCtx.state = 0) (rawBuf : Bytes) (some' : text ≠ [])
    (single : mode = .utf8 → text.length = 1) :
    Holds mode length ((line.ready session rawBuf).store length text) (edit length chars (.char bytes text)) := by
  have short : line.text.length < length := holds.text_eq ▸ holds.short
  have counted := holds.glyphs_length
  rw [Line.ready, store_eq (by exact counted) (by exact short) limit, edit, ← holds.text_eq]
  split_ifs with fits
  · have whole : (chars ++ [text]).flatten = line.text ++ text := by
      rw [flatten_concat, holds.text_eq]
    refine ⟨has, fresh, rfl, whole.symm, ?_, ?_, ?_⟩
    · rw [glyphSizes_concat single, ← holds.glyphs_eq]
    · intro char inside
      rcases mem_append.mp inside with before | here
      · exact holds.written char before
      · obtain rfl := mem_singleton.mp here
        exact some'
    · rw [whole, length_append]
      exact fits
  · exact ⟨has, fresh, rfl, holds.text_eq, holds.glyphs_eq, holds.written, holds.short⟩

/-- A backspace that removes the last glyph removes the last character. -/
theorem Holds.erase (holds : Holds mode length line chars)
    (single : mode = .utf8 → ∀ last ∈ chars.getLast?, last.length = 1) :
    Holds mode length line.erase chars.dropLast := by
  have has : line.erase.session.Has mode := by
    cases mode with
    | utf8 => exact holds.has
    | single => exact holds.has
    | double => exact holds.has
  rcases eq_nil_or_concat' chars with rfl | ⟨front, last, rfl⟩
  · have empty : line.text = [] := holds.text_eq
    have none : line.glyphSizes = mode.glyphSizes [] := holds.glyphs_eq
    have noSizes : mode.glyphSizes [] = [] := by cases mode <;> rfl
    refine ⟨has, rfl, holds.begun, ?_, ?_, by simp, holds.short⟩
    · simp [Line.erase, empty]
    · simp [Line.erase, none, noSizes]
  · have sizes := holds.glyphs_eq
    have whole := holds.text_eq
    have short := holds.short
    rw [glyphSizes_concat fun utf8 => single utf8 last (by simp)] at sizes
    rw [flatten_concat] at whole short
    rw [dropLast_concat]
    refine ⟨has, rfl, holds.begun, ?_, ?_, ?_, ?_⟩
    · simp [Line.erase, sizes, whole]
    · simp [Line.erase, sizes]
    · exact fun char inside => holds.written char (mem_append_left _ inside)
    · rw [length_append] at short
      omega

theorem Holds.type (detectAuto : Bytes → Page) (bytes : Bytes) (holds : Holds mode length line chars)
    (limit : length ≤ messageLimit) (printable : Printable byte)
    (encoded : ∃ session : Session, line.session.encode iconv byte = some (session, text) ∧ session.Has mode ∧
      session.codepageCtx.state = 0)
    (some' : text ≠ []) (single : mode = .utf8 → text.length = 1) :
    ∃ after, Takes iconv detectAuto length line [byte] after ∧
      Holds mode length after (edit length chars (.char bytes text)) := by
  obtain ⟨session, found, has, fresh⟩ := encoded
  obtain ⟨rawBuf, taken⟩ := takeByte_stores detectAuto length printable holds.has found
  exact ⟨_, .cons taken .nil, holds.store limit has fresh rawBuf some' single⟩

/-- In UTF-8 the loop knows the bytes only. -/
theorem Holds.regroup (holds : Holds .utf8 length line chars) {others : List Bytes}
    (same : others.flatten = chars.flatten)
    (written : ∀ char ∈ others, char ≠ []) : Holds .utf8 length line others where
  has := holds.has
  fresh := holds.fresh
  begun := holds.begun
  text_eq := holds.text_eq.trans same.symm
  glyphs_eq := by rw [holds.glyphs_eq, Mode.glyphSizes, Mode.glyphSizes, same]
  written := written
  short := same ▸ holds.short

/-- In UTF-8 the bytes of a character are typed one by one, as far as there is room. -/
theorem Holds.type_utf8 (iconv : Iconv) (detectAuto : Bytes → Page) (holds : Holds .utf8 length line chars)
    (limit : length ≤ messageLimit)
    (printable : ∀ byte ∈ bytes, Printable byte) : ∃ after grown, Takes iconv detectAuto length line bytes after ∧
      Holds .utf8 length after grown ∧ grown.flatten = (chars.flatten ++ bytes).take (length - 1) := by
  induction bytes generalizing line chars with
  | nil =>
    have short := holds.short
    exact ⟨line, chars, .nil, holds, by rw [append_nil, take_of_length_le (by omega)]⟩
  | cons byte rest ih =>
    obtain ⟨first, later⟩ := forall_mem_cons.mp printable
    have short := holds.short
    obtain ⟨mid, one, held⟩ := holds.type detectAuto [byte] limit first
      (encode_utf8 iconv holds.has holds.fresh) (cons_ne_nil _ _) (fun _ => rfl)
    obtain ⟨after, grown, more, held', content⟩ := ih held later
    have both := (Takes.append one (rest.map .byte)).trans more
    refine ⟨after, grown, both, held', content.trans ?_⟩
    rw [edit]
    split_ifs with fits
    · rw [flatten_concat, append_assoc, singleton_append]
    · have full : chars.flatten.length = length - 1 := by
        rw [length_singleton] at fits
        omega
      rw [← full, take_left, take_left]

theorem encode_printable (scalar : Scalar codepoint) (large : 0x20 ≤ codepoint) (other : codepoint ≠ 0x7F) :
    ∀ byte ∈ encodeUtf8Codepoint codepoint 4, Printable byte := by
  by_cases ascii : codepoint ≤ 0x7F
  · rw [encode_one ascii, forall_mem_singleton, Printable, Ne, ← UInt8.toNat_inj, UInt8.toNat_ofNat_of_lt'
      (lt_of_le_of_lt ascii (by decide))]
    exact ⟨large, other⟩
  · intro byte inside
    have high := (encode_high scalar (by omega)).2 byte inside
    refine ⟨by omega, ?_⟩
    rintro rfl
    exact absurd high (by decide)

/-- In UTF-8 a character of several bytes is typed whole where it fits, and is refused whole on a full line only. -/
theorem Holds.char_utf8 (holds : Holds .utf8 length line chars) (limit : length ≤ messageLimit)
    (scalar : Scalar codepoint) (large : 0x20 ≤ codepoint) (other : codepoint ≠ 0x7F)
    (coded : bytes = encodeUtf8Codepoint codepoint 4) :
    ∃ after, Takes iconv detectAuto length line bytes after ∧
      (Sound length .utf8 chars (.char bytes bytes) →
        Holds .utf8 length after (edit length chars (.char bytes bytes))) ∧
      (¬ Sound length .utf8 chars (.char bytes bytes) →
        after.text ≠ (edit length chars (.char bytes bytes)).flatten) := by
  have some' : bytes ≠ [] := coded ▸ encode_nonempty scalar
  have short := holds.short
  obtain ⟨after, grown, taken, held, content⟩ := holds.type_utf8 iconv detectAuto limit
    (coded ▸ encode_printable scalar large other)
  refine ⟨after, taken, fun sound => held.regroup ?_ ?_, fun unsound => ?_⟩
  · rw [content, edit]
    split_ifs with fits
    · rw [flatten_concat, take_of_length_le (by rw [length_append]; omega)]
    · have full : chars.flatten.length = length - 1 := by
        rcases sound with one | fits' | full <;> omega
      rw [← full, take_left]
  · intro char inside
    rw [edit] at inside
    split_ifs at inside
    · rcases mem_append.mp inside with before | here
      · exact holds.written char before
      · exact (mem_singleton.mp here) ▸ some'
    · exact holds.written char inside
  · rw [Sound] at unsound
    rw [held.text_eq, content, edit, if_neg (by omega)]
    intro same
    have sizes := congrArg List.length same
    rw [length_take, length_append] at sizes
    omega

theorem Holds.erase_utf8 (holds : Holds .utf8 length line chars) (key : byte = delete ∨ byte = backspace) :
    ∃ after, Takes iconv detectAuto length line [byte] after ∧
      (Sound length .utf8 chars (.erase byte) → Holds .utf8 length after (edit length chars (.erase byte))) ∧
      (¬ Sound length .utf8 chars (.erase byte) → after.text ≠ (edit length chars (.erase byte)).flatten) := by
  refine ⟨_, .cons (takeByte_erase key) .nil, fun sound => holds.awake.erase fun _ => sound, fun unsound => ?_⟩
  rw [Sound] at unsound
  push Not at unsound
  obtain ⟨last, ends, size⟩ := unsound
  obtain ⟨front, rfl⟩ := getLast?_eq_some_iff.mp ends
  have some' := length_pos_of_ne_nil (holds.written last (by simp))
  have content := holds.text_eq
  have sizes := holds.glyphs_eq
  rw [edit, dropLast_concat]
  intro same
  have lengths := congrArg List.length same
  rw [flatten_concat] at content
  rw [Mode.glyphSizes, flatten_concat, length_append, show front.flatten.length + last.length =
    front.flatten.length + last.length - 1 + 1 by omega, replicate_succ] at sizes
  simp only [Line.erase, sizes, content, headD_cons, length_take, length_append] at lengths
  omega

/-- A byte stands for a question mark while the byte behind it is missing, so a character of two bytes is typed as it
should be on a full line only. -/
theorem Holds.char_two {page : MultibytePage} (holds : Holds (.double page) length line chars) {lead trail : UInt8}
    (printable : Printable trail) (scalar : Scalar codepoint) (high : 0x80 ≤ codepoint)
    (leads : startByte iconv page lead = .lead) (pair : pairBytes iconv page lead trail = some text)
    (coded : text = encodeUtf8Codepoint codepoint 4) :
    ∃ after, Takes iconv detectAuto length line [lead, trail] after ∧
      (Sound length (.double page) chars (.char [lead, trail] text) →
        Holds (.double page) length after (edit length chars (.char [lead, trail] text))) ∧
      (¬ Sound length (.double page) chars (.char [lead, trail] text) →
        after.text ≠ (edit length chars (.char [lead, trail] text)).flatten) := by
  have several : 2 ≤ text.length := coded ▸ (encode_high scalar high).1
  have leadPrintable : Printable lead := by
    rw [startByte] at leads
    split_ifs at leads with ascii isLead
    · rw [UInt8.lt_iff_toNat_lt] at ascii
      refine ⟨by have := not_lt.mp ascii; exact le_trans (by decide) this, ?_⟩
      rintro rfl
      exact ascii (by decide)
    · split at leads <;> cases leads
  have fresh : line.session.codepageCtx.Keeps none := ⟨holds.fresh, by simp⟩
  -- The lead byte gives nothing yet, and a question mark is stored for it.
  obtain ⟨session, encoded, has, keeps⟩ := encode_double iconv lead holds.has fresh
  have opens : turn iconv page none lead = ([], some lead) := by
    rw [turn, DoubleByte.shift, DoubleByte.opening, leads]
  rw [opens] at encoded
  rw [opens] at keeps
  obtain ⟨rawBuf, first⟩ := takeByte_stores detectAuto length leadPrintable holds.has encoded
  -- The byte behind it gives the character.
  obtain ⟨session', encoded', has', keeps'⟩ := encode_double iconv trail has keeps
  have closes : turn iconv page (some lead) trail = (text, none) := by
    rw [turn, DoubleByte.shift, pair]
  have some' : text ≠ [] := ne_nil_of_length_pos (by omega)
  rw [closes, if_neg some'] at encoded'
  rw [closes] at keeps'
  have known : ((line.ready session rawBuf).store length [byte '?']).session = session := store_session _
  rw [← known] at has encoded'
  obtain ⟨rawBuf', second⟩ := takeByte_stores detectAuto length printable has encoded'
  refine ⟨_, .cons first (.cons second .nil), fun sound => ?_, fun unsound => ?_⟩
  · have full : length ≤ line.text.length + 1 := by
      rw [holds.text_eq]
      exact sound.resolve_left (by simp)
    have refused : (line.ready session rawBuf).store length [byte '?'] = line.ready session rawBuf := if_pos full
    have refused' : ((line.ready session rawBuf).ready session' rawBuf').store length text =
        (line.ready session rawBuf).ready session' rawBuf' := if_pos (by change length ≤ line.text.length + _; omega)
    rw [refused, refused', edit, if_neg (by rw [← holds.text_eq]; omega)]
    exact ⟨has', keeps'.state, rfl, holds.text_eq, holds.glyphs_eq, holds.written, holds.short⟩
  · have free : line.text.length + 1 < length := by
      rw [Sound] at unsound
      rw [holds.text_eq]
      omega
    have content : ((line.ready session rawBuf).store length [byte '?']).text = line.text ++ [byte '?'] :=
      (store_text _).trans (if_pos free)
    rw [store_text]
    rw [Line.ready, content, holds.text_eq, edit]
    intro same
    have lengths := congrArg List.length same
    split_ifs at lengths <;> simp only [flatten_concat, length_append, length_singleton] at lengths <;> omega

/-- A key does to the line what it should where it is sound, and nowhere else. -/
theorem Holds.step (detectAuto : Bytes → Page) (holds : Holds mode length line chars) (limit : length ≤ messageLimit)
    {key : Key} (valid : key.Valid iconv mode) : ∃ after, Takes iconv detectAuto length line key.bytes after ∧
      (Sound length mode chars key → Holds mode length after (edit length chars key)) ∧
      (¬ Sound length mode chars key → after.text ≠ (edit length chars key).flatten) := by
  cases key with
  | erase =>
    cases mode with
    | utf8 => exact holds.erase_utf8 valid
    | single => exact ⟨_, .cons (takeByte_erase valid) .nil, fun _ => holds.awake.erase fun same =>
        Mode.noConfusion same, fun unsound => absurd trivial unsound⟩
    | double => exact ⟨_, .cons (takeByte_erase valid) .nil, fun _ => holds.awake.erase fun same =>
        Mode.noConfusion same, fun unsound => absurd trivial unsound⟩
  | char =>
    cases valid with
    | utf8 scalar large other => exact holds.char_utf8 limit scalar large other rfl
    | @single page byte printable =>
      obtain ⟨after, taken, held⟩ := holds.type detectAuto [byte] limit printable
        (encode_single iconv holds.has) (encode_nonempty (codepoint_scalar page byte)) fun same => Mode.noConfusion same
      exact ⟨after, taken, fun _ => held, fun unsound => absurd trivial unsound⟩
    | @one page byte codepoint printable scalar starts =>
      have fresh : line.session.codepageCtx.Keeps none := ⟨holds.fresh, by simp⟩
      have some' := encode_nonempty scalar
      have alone : turn iconv page none byte = (encodeUtf8Codepoint codepoint 4, none) := by
        rw [turn, DoubleByte.shift, DoubleByte.opening, starts]
      obtain ⟨session, encoded, has, keeps⟩ := encode_double iconv byte holds.has fresh
      rw [alone, if_neg some'] at encoded
      rw [alone] at keeps
      obtain ⟨after, taken, held⟩ := holds.type detectAuto [byte] limit printable
        ⟨session, encoded, has, keeps.state⟩ some' fun same => Mode.noConfusion same
      exact ⟨after, taken, fun _ => held, fun unsound => absurd (.inl rfl) unsound⟩
    | two printable scalar high leads pair => exact holds.char_two printable scalar high leads pair rfl

end Steps

section Runs

variable {iconv : Iconv} {detectAuto : Bytes → Page} {length : Nat} {line : Line} {mode : Mode} {chars : List Bytes}
  {keys : List Key}

theorem Holds.run (detectAuto : Bytes → Page) (holds : Holds mode length line chars) (limit : length ≤ messageLimit)
    (valid : ∀ key ∈ keys, key.Valid iconv mode) (along : Along (edit length) (Sound length mode) chars keys) :
    ∃ after, Takes iconv detectAuto length line (keys.flatMap Key.bytes) after ∧
      Holds mode length after (run (edit length) chars keys) := by
  induction keys generalizing line chars with
  | nil => exact ⟨line, .nil, holds⟩
  | cons key rest ih =>
    obtain ⟨now, later⟩ := forall_mem_cons.mp valid
    obtain ⟨mid, taken, sound, -⟩ := holds.step detectAuto limit now
    obtain ⟨after, taken', holds'⟩ := ih (sound along.1) later along.2
    refine ⟨after, ?_, holds'⟩
    rw [flatMap_cons, Takes, map_append, taken.append]
    exact taken'

theorem Holds.along (holds : Holds mode length line chars) (limit : length ≤ messageLimit)
    (valid : ∀ key ∈ keys, key.Valid iconv mode) (agrees : ∀ front, front <+: keys → ∀ after,
      Takes iconv detectAuto length line (front.flatMap Key.bytes) after →
        after.text = (EventRun.run (edit length) chars front).flatten) :
    Along (edit length) (Sound length mode) chars keys := by
  induction keys generalizing line chars with
  | nil => trivial
  | cons key rest ih =>
    obtain ⟨now, later⟩ := forall_mem_cons.mp valid
    obtain ⟨mid, taken, sound, unsound⟩ := holds.step detectAuto limit now
    have first := agrees [key] (by simp) mid (by simpa using taken)
    have here : Sound length mode chars key := by
      by_contra other
      exact unsound other first
    refine ⟨here, ih (sound here) later fun front inside after taken' => ?_⟩
    apply agrees (key :: front) ((prefix_cons_inj key).mpr inside)
    rw [flatMap_cons, Takes, map_append, taken.append]
    exact taken'

theorem Types.text_coded {bytes text : Bytes} (types : Types iconv mode bytes text) :
    ∃ codepoint, Scalar codepoint ∧ text = encodeUtf8Codepoint codepoint 4 := by
  cases types with
  | utf8 scalar => exact ⟨_, scalar, rfl⟩
  | @single page byte => exact ⟨_, codepoint_scalar page byte, rfl⟩
  | one _ scalar => exact ⟨_, scalar, rfl⟩
  | two _ scalar => exact ⟨_, scalar, rfl⟩

def Proper (length : Nat) (line : List Bytes) : Prop :=
  (∀ char ∈ line, ∃ codepoint, Scalar codepoint ∧ char = encodeUtf8Codepoint codepoint 4) ∧ line.flatten.length < length

theorem Proper.edit (proper : Proper length chars) {key : Key} (valid : key.Valid iconv mode) :
    Proper length (edit length chars key) := by
  obtain ⟨coded, short⟩ := proper
  cases key with
  | char =>
    rw [TelnetInput.edit]
    split_ifs with fits
    · refine ⟨forall_mem_append.mpr ⟨coded, by simpa using valid.text_coded⟩, ?_⟩
      rw [flatten_concat, length_append]
      exact fits
    · exact ⟨coded, short⟩
  | erase =>
    refine ⟨fun char inside => coded char (mem_of_mem_dropLast inside), lt_of_le_of_lt ?_ short⟩
    exact (List.Sublist.flatten (dropLast_sublist chars)).length_le

/-- What keys edit is a text in UTF-8 that fits. -/
theorem run_edit (room : 0 < length) (valid : ∀ key ∈ keys, key.Valid iconv mode) :
    Encoded (run (edit length) [] keys).flatten ∧ (run (edit length) [] keys).flatten.length < length := by
  have proper : ∀ keys' : List Key, (∀ key ∈ keys', key.Valid iconv mode) → ∀ chars, Proper length chars →
      Proper length (run (edit length) chars keys') := by
    intro keys'
    induction keys' with
    | nil => exact fun _ chars proper => proper
    | cons key rest ih =>
      intro valid chars proper
      obtain ⟨now, later⟩ := forall_mem_cons.mp valid
      exact ih later _ (proper.edit now)
  obtain ⟨coded, short⟩ := proper keys valid [] ⟨by simp, room⟩
  refine ⟨?_, short⟩
  choose codepoint scalar same using coded
  refine ⟨(run (edit length) [] keys).attach.map fun char => codepoint char.1 char.2, ?_, ?_⟩
  · intro value inside
    obtain ⟨char, -, rfl⟩ := mem_map.mp inside
    exact scalar char.1 char.2
  · rw [flatMap_map]
    conv_lhs => rw [← attach_map_subtype_val (run (edit length) [] keys)]
    congr 1
    exact map_congr_left fun char _ => same char.1 char.2

end Runs

section Arrivals

variable {iconv : Iconv} {detectAuto : Bytes → Page} {length : Nat} {line after : Line} {polls : List (Nat × UInt8)}
  {byte : UInt8}

theorem takeByte_idle (taken : line.takeByte iconv detectAuto length byte = some (.reading after)) :
    after.idleTimeMs = line.idleTimeMs := by
  rw [Line.takeByte] at taken
  split_ifs at taken
  case pos => cases taken; rfl
  case pos => cases taken; rfl
  case pos => cases taken
  case pos => cases taken; rfl
  case pos => cases taken
  case pos => cases taken; rfl
  case neg =>
    obtain ⟨typed, found, same⟩ := Option.map_eq_some_iff.mp taken
    cases same
    obtain ⟨result, -, stored⟩ := Option.map_eq_some_iff.mp found
    rw [← stored, Line.store]
    split_ifs <;> rfl

/-- Polls that time out before the session does change nothing. -/
theorem collect_again {late : Nat} (inTime : line.idleTimeMs + late * inputPollMs < idleTimeoutMs) (rest : List Read) :
    collect iconv detectAuto length line (replicate late .again ++ .byte byte :: rest) =
      collect iconv detectAuto length line (.byte byte :: rest) := by
  induction late generalizing line with
  | zero => rfl
  | succ late ih =>
    rw [Nat.succ_mul] at inTime
    rw [replicate_succ, cons_append, collect, if_neg (by omega), ih (by dsimp only; omega)]
    rfl

theorem collect_arriving (start : line.idleTimeMs = 0) (inTime : InTime polls) :
    collect iconv detectAuto length line (arriving polls) =
      collect iconv detectAuto length line ((polls.map Prod.snd).map .byte) := by
  induction polls generalizing line with
  | nil => rfl
  | cons poll polls ih =>
    obtain ⟨now, later⟩ := forall_mem_cons.mp inTime
    rw [arriving, flatMap_cons, append_assoc, singleton_append, collect_again (by rw [start]; omega)]
    refine Option.bind_congr fun outcome taken => ?_
    cases outcome with
    | reading => exact ih (takeByte_idle taken) later
    | exit => rfl
    | returned => rfl

theorem collect_behindLineEnd (session : Session) (stream : Bytes)
    (ended : behindLineEnd session.consumeNextLf stream ≠ []) :
    collect iconv detectAuto length (.start session) (stream.map .byte) =
      collect iconv detectAuto length { Line.start session with ignoreNextNewline := false }
        ((behindLineEnd session.consumeNextLf stream).map .byte) := by
  cases stream with
  | nil => simp [behindLineEnd] at ended
  | cons byte =>
    simp only [behindLineEnd, head?_cons, Option.some.injEq]
    split_ifs with rest
    · have skips : Line.takeByte iconv detectAuto length { Line.start session with idleTimeMs := 0 } byte =
          some (.reading { Line.start session with ignoreNextNewline := false }) := if_pos rest
      rw [map_cons, collect, skips]
      rfl
    · have same : Line.takeByte iconv detectAuto length { Line.start session with idleTimeMs := 0 } byte =
          Line.takeByte iconv detectAuto length { Line.start session with ignoreNextNewline := false, idleTimeMs := 0 }
            byte :=
        (if_neg rest).trans (if_neg (by simp)).symm
      rw [map_cons, collect, collect, same]

end Arrivals

section Bounds

variable {iconv : Iconv} {detectAuto : Bytes → Page} {length : Nat} {line after : Line} {byte : UInt8}

theorem store_short (short : line.text.length < length) (encoded : Bytes) :
    (line.store length encoded).text.length < length := by
  rw [store_text]
  split_ifs with fits
  · rw [length_append]
    exact fits
  · exact short

/-- Whatever is read, the text stays shorter than the buffer, and nothing is pending when it is returned. -/
theorem collect_returned {session : Session} {text : Bytes} (reads : List Read) (short : line.text.length < length)
    (returns : collect iconv detectAuto length line reads = some (.returned session text)) :
    text.length < length ∧ session.codepageCtx = .new := by
  induction reads generalizing line with
  | nil => cases returns
  | cons read rest ih =>
    cases read with
    | again =>
      rw [collect] at returns
      split_ifs at returns
      · cases returns
      · exact ih (by exact short) returns
    | failed => cases returns
    | byte =>
      obtain ⟨outcome, taken, later⟩ := Option.bind_eq_some_iff.mp returns
      rw [Line.takeByte] at taken
      split_ifs at taken
      case pos => cases taken; exact ih (by exact short) later
      case pos => cases taken; exact ih (by exact short) later
      case pos => cases taken; cases later; exact ⟨short, rfl⟩
      case pos =>
        cases taken
        exact ih (lt_of_le_of_lt (length_take_le' _ _) short) later
      case pos => cases taken; cases later
      case pos => cases taken; exact ih (by exact short) later
      case neg =>
        obtain ⟨typed, found, rfl⟩ := Option.map_eq_some_iff.mp taken
        obtain ⟨result, -, rfl⟩ := Option.map_eq_some_iff.mp found
        exact ih (store_short (by exact short) _) later

end Bounds

section Exact

variable {iconv : Iconv} {detectAuto : Bytes → Page} {length : Nat} {session : Session} {mode : Mode} {keys : List Key}

/-- The loop in front of the first key. -/
def Line.fresh (session : Session) : Line := { Line.start session with ignoreNextNewline := false }

theorem collectLine_eq (room : 0 < length) {polls : List (Nat × UInt8)} (inTime : InTime polls) {stream : Bytes}
    (typed : behindLineEnd session.consumeNextLf (polls.map Prod.snd) = stream) (some' : stream ≠ []) :
    collectLine iconv detectAuto length session (arriving polls) =
      collect iconv detectAuto length (.fresh session) (stream.map .byte) := by
  subst typed
  rw [collectLine, if_neg room.ne', collect_arriving rfl inTime, collect_behindLineEnd session _ some']
  rfl

theorem editsLine_of_takes (room : 0 < length) {after : Line}
    (taken : Takes iconv detectAuto length (.fresh session) (keys.flatMap Key.bytes) after)
    (begun : after.ignoreNextNewline = false) (content : after.text = (run (edit length) [] keys).flatten) :
    EditsLine iconv detectAuto length session keys := by
  intro polls last inTime ends typed
  obtain ⟨final, returned⟩ := takeByte_end iconv detectAuto length
    (show ({ after with idleTimeMs := 0 } : Line).ignoreNextNewline = false from begun) ends
  refine ⟨final, ?_⟩
  rw [collectLine_eq room inTime typed (by simp), map_append, taken.append, map_singleton, collect, returned,
    ← content]
  rfl

theorem inTime_now (bytes : Bytes) : InTime (bytes.map fun byte => (0, byte)) := by
  intro poll inside
  obtain ⟨byte, -, rfl⟩ := mem_map.mp inside
  change 0 * inputPollMs < idleTimeoutMs
  decide

/-- Where a line is returned whenever it is ended, the loop holds it before. -/
theorem takes_of_editsLine (room : 0 < length) (edits : EditsLine iconv detectAuto length session keys) {after : Line}
    (taken : Takes iconv detectAuto length (.fresh session) (keys.flatMap Key.bytes) after) :
    after.text = (run (edit length) [] keys).flatten := by
  -- The line is ended at once, behind the rest of the line end before.
  let stream := keys.flatMap Key.bytes ++ [carriageReturn]
  let polls := ((if session.consumeNextLf then [lineFeed] else []) ++ stream).map fun byte => (0, byte)
  have bytes : polls.map Prod.snd = (if session.consumeNextLf then [lineFeed] else []) ++ stream := by
    simp [polls]
  have inTime : InTime polls := inTime_now _
  have typed : behindLineEnd session.consumeNextLf (polls.map Prod.snd) = stream := by
    rw [bytes, behindLineEnd]
    cases session.consumeNextLf <;> simp
  obtain ⟨final, ended⟩ := edits polls carriageReturn inTime (.inl rfl) typed
  obtain ⟨final', returned⟩ := takeByte_carriageReturn iconv detectAuto length { after with idleTimeMs := 0 }
  rw [collectLine_eq room inTime typed (by simp [stream]), map_append, taken.append, map_singleton, collect,
    returned] at ended
  simp only [Option.bind_some, Option.some.injEq, Outcome.returned.injEq] at ended
  exact ended.2

/-- A line that is returned is shorter than the buffer, and nothing is pending behind it. What keys edit is a text in
UTF-8, and the line that the keys up to any of them edit is returned, in time, exactly when each key is sound on the
line that it meets. -/
theorem collectLine_exact (iconv : Iconv) (detectAuto : Bytes → Page) (room : 0 < length)
    (limit : length ≤ messageLimit)
    (has : session.Has mode) (fresh : session.codepageCtx.state = 0) (valid : ∀ key ∈ keys, key.Valid iconv mode) :
    (∀ reads after text, collectLine iconv detectAuto length session reads = some (.returned after text) →
      text.length < length ∧ after.codepageCtx = .new) ∧
    Encoded (run (edit length) [] keys).flatten ∧
    ((∀ front, front <+: keys → EditsLine iconv detectAuto length session front) ↔
      Along (edit length) (Sound length mode) [] keys) := by
  have start : TelnetInput.Holds mode length (.fresh session) [] := by
    refine ⟨has, fresh, rfl, rfl, ?_, by simp, room⟩
    cases mode <;> rfl
  refine ⟨fun reads after text returned => ?_, (run_edit room valid).1, fun edits => ?_, fun along front inside => ?_⟩
  · rw [collectLine, if_neg room.ne'] at returned
    have short : (Line.start session).text.length < length := room
    exact collect_returned reads short returned
  · exact start.along limit valid fun front inside after taken => takes_of_editsLine room (edits front inside) taken
  · obtain ⟨later, rfl⟩ := inside
    obtain ⟨after, taken, holds⟩ := start.run detectAuto limit
      (fun key here => valid key (mem_append_left _ here)) along.left
    exact editsLine_of_takes room taken holds.begun holds.text_eq

def cp437Session : Session := ⟨true, .single .cp437, .new, false⟩

def cp949Session : Session := ⟨true, .multibyte .cp949, .new, false⟩

def utf8Session : Session := ⟨false, .utf8, .new, false⟩

/-- A page with a table edits every line: two characters are typed and one is removed. -/
theorem collectLine_exact_table : EditsLine syllable (fun _ => .utf8) 64 cp437Session
    [Key.char [0x82] [0xC3, 0xA9], .char [0x61] [0x61], .erase 8] := by
  have has : cp437Session.Has (.single .cp437) := ⟨rfl, rfl⟩
  have types : ∀ key ∈ [Key.char [0x82] [0xC3, 0xA9], .char [0x61] [0x61], .erase 8],
      key.Valid syllable (.single .cp437) := by
    intro key inside
    rcases mem_cons.mp inside with rfl | inside
    · exact @Types.single syllable .cp437 0x82 ⟨by decide, by decide⟩
    rcases mem_cons.mp inside with rfl | inside
    · exact @Types.single syllable .cp437 0x61 ⟨by decide, by decide⟩
    · obtain rfl := mem_singleton.mp inside
      exact .inr rfl
  have sound : Along (edit 64) (Sound 64 (.single .cp437)) []
      [Key.char [0x82] [0xC3, 0xA9], .char [0x61] [0x61], .erase 8] := ⟨trivial, trivial, trivial, trivial⟩
  exact (collectLine_exact syllable (fun _ => .utf8) (by decide) (by decide) has rfl types).2.2.mpr sound _
    (prefix_refl _)

/-- A syllable of two bytes is collected with a question mark in front of it. In UTF-8 a backspace leaves the first
byte of a character. -/
theorem collectLine_marks :
    ¬ EditsLine syllable (fun _ => .utf8) 64 cp949Session [.char [0xB0, 0xA1] [0xEA, 0xB0, 0x80]] ∧
    ¬ EditsLine syllable (fun _ => .utf8) 64 utf8Session [.char [0xC3, 0xA9] [0xC3, 0xA9], .erase 8] := by
  constructor
  · intro edits
    obtain ⟨after, ended⟩ := edits _ 13 (inTime_now [0xB0, 0xA1, 13]) (.inl rfl) rfl
    have marked : collectLine syllable (fun _ => .utf8) 64 cp949Session
      (arriving ([0xB0, 0xA1, 13].map fun byte => (0, byte))) =
        some (.returned { cp949Session with consumeNextLf := true } [0x3F, 0xEA, 0xB0, 0x80]) := rfl
    rw [marked] at ended
    simp only [Option.some.injEq, Outcome.returned.injEq] at ended
    exact absurd ended.2 (by decide)
  · intro edits
    obtain ⟨after, ended⟩ := edits _ 13 (inTime_now [0xC3, 0xA9, 8, 13]) (.inl rfl) rfl
    have left : collectLine syllable (fun _ => .utf8) 64 utf8Session
      (arriving ([0xC3, 0xA9, 8, 13].map fun byte => (0, byte))) =
        some (.returned { utf8Session with consumeNextLf := true } [0xC3]) := rfl
    rw [left] at ended
    simp only [Option.some.injEq, Outcome.returned.injEq] at ended
    exact absurd ended.2 (by decide)

end Exact

end SshChatter.TelnetInput
