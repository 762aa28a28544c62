import SshChatter.Translation.Placeholder

namespace SshChatter.Translation
open CString List

/-- What `mbrtowc` and `wcwidth` report at a text: an error, or the bytes and the columns of its first character. -/
structure Terminal where
  decode : Bytes → Option (Nat × Int)
  inside : ∀ text, text ≠ [] → ∀ found ∈ decode text, 1 ≤ found.1 ∧ found.1 ≤ text.length
  narrow : ∀ text, ∀ found ∈ decode text, found.2 ≤ 2

def getUtf8CharDisplayWidth (terminal : Terminal) (text : Bytes) : Nat × Int :=
  match terminal.decode text with
  | none => (1, 1)
  | some (0, _) => (0, 0)
  | some (bytes + 1, columns) => (bytes + 1, if columns < 0 then 0 else columns)

def lineBufferLen : Nat := 4096

def activeAnsiLen : Nat := 256

/-- The bytes that are copied from `ansi_seq_buffer` for a sequence. The buffer has 64 bytes, and what a longer copy
reads behind it is a parameter. -/
def sequenceCopy (behind : Bytes → Bytes) (sequence : Bytes) : Bytes :=
  if sequence.length < 64 then sequence else (sequence.take 63 ++ 0 :: behind sequence).take sequence.length

def appendRoom (capacity : Nat) (buffer bytes : Bytes) : Bytes :=
  if buffer.length + bytes.length < capacity then buffer ++ bytes else buffer

/-- The variables of the loop over one line. A place in the text is the text from there on. -/
structure LineScan where
  currentPos : Bytes
  buffer : Bytes
  width : Int
  lastWordBreak : Bytes
  lastWordLen : Nat
  lastWordWidth : Int
  activeAnsi : Bytes

theorem getUtf8CharDisplayWidth_spec (terminal : Terminal) {text : Bytes} (some' : text ≠ []) :
    1 ≤ (getUtf8CharDisplayWidth terminal text).1 ∧ 0 ≤ (getUtf8CharDisplayWidth terminal text).2 ∧
      (getUtf8CharDisplayWidth terminal text).2 ≤ 2 := by
  rw [getUtf8CharDisplayWidth]
  cases found : terminal.decode text with
  | none => simp
  | some character =>
    have present := (terminal.inside text some' character (by rw [found]; rfl)).1
    have narrow := terminal.narrow text character (by rw [found]; rfl)
    obtain ⟨_ | bytes, columns⟩ := character
    · omega
    · dsimp only at narrow ⊢
      split_ifs <;> omega

def LineScan.appendSequence (state : LineScan) (copy rest : Bytes) : LineScan :=
  { state with
    currentPos := rest
    buffer := appendRoom lineBufferLen state.buffer copy
    activeAnsi := appendRoom activeAnsiLen state.activeAnsi copy }

def LineScan.appendChar (state : LineScan) (space : Bool) (char : Bytes) (columns : Int) (rest : Bytes) : LineScan :=
  let buffer := appendRoom lineBufferLen state.buffer char
  let width := state.width + columns
  { state with
    currentPos := rest
    buffer := buffer
    width := width
    lastWordBreak := if space then rest else state.lastWordBreak
    lastWordLen := if space then buffer.length else state.lastWordLen
    lastWordWidth := if space then width else state.lastWordWidth }

def LineScan.breakLine (state : LineScan) (lineStart : Bytes) : LineScan :=
  if state.lastWordBreak.length < lineStart.length then
    { state with
      currentPos := state.lastWordBreak
      buffer := state.buffer.take state.lastWordLen
      width := state.lastWordWidth }
  else state

/-- The loop over one line. It ends behind a newline, at the end of the text, or in front of the character that does not
fit. -/
def scanLine (terminal : Terminal) (behind : Bytes → Bytes) (maxWidth : Int) (lineStart : Bytes) (state : LineScan) :
    LineScan :=
  match _place : state.currentPos with
  | [] => state
  | c :: rest =>
    if c = esc then
      scanLine terminal behind maxWidth lineStart
        (state.appendSequence (sequenceCopy behind (escapeSequence rest).1) (escapeSequence rest).2)
    else if c = byte '\n' then { state with currentPos := rest }
    else
      let character := getUtf8CharDisplayWidth terminal (c :: rest)
      if maxWidth < state.width + character.2 then state.breakLine lineStart
      else
        scanLine terminal behind maxWidth lineStart
          (state.appendChar (isSpace c) ((c :: rest).take character.1) character.2 ((c :: rest).drop character.1))
  termination_by state.currentPos.length
  decreasing_by
    · rw [_place]
      exact Nat.lt_succ_of_le (escapeSequence_shorter rest)
    · have present := (getUtf8CharDisplayWidth_spec terminal (cons_ne_nil c rest)).1
      rw [_place, LineScan.appendChar, length_drop, length_cons]
      omega

def LineScan.start (currentPos activeAnsi : Bytes) : LineScan where
  currentPos := currentPos
  buffer :=
    if 0 < activeAnsi.length ∧ 4 + activeAnsi.length < lineBufferLen then esc :: str "[0m" ++ activeAnsi else []
  width := 0
  lastWordBreak := currentPos
  lastWordLen := 0
  lastWordWidth := 0
  activeAnsi := activeAnsi

/-- One turn of the loop over the text. -/
def wrapLine (terminal : Terminal) (behind : Bytes → Bytes) (maxWidth : Int) (currentPos activeAnsi : Bytes) :
    LineScan :=
  scanLine terminal behind maxWidth currentPos (.start currentPos activeAnsi)

def LineScan.line (state : LineScan) : Bytes := (state.buffer.rdropWhile isSpace).takeWhile (· ≠ 0)

def wrapLoop (terminal : Terminal) (behind : Bytes → Bytes) (maxWidth : Int) :
    Nat → Bytes → Bytes → List Bytes → Option (List Bytes)
  | _, [], _, lines => some lines
  | 0, _ :: _, _, _ => none
  | turns + 1, c :: rest, activeAnsi, lines =>
    let state := wrapLine terminal behind maxWidth (c :: rest) activeAnsi
    wrapLoop terminal behind maxWidth turns state.currentPos state.activeAnsi (lines ++ [state.line])

def wrapTextToWidth (terminal : Terminal) (behind : Bytes → Bytes) (turns : Nat) (text : Bytes) (maxWidth : Int) :
    Option (Option (List Bytes)) :=
  if maxWidth ≤ 0 then some none else (wrapLoop terminal behind maxWidth turns text [] []).map some

def charColumns (terminal : Terminal) (text : Bytes) : List Int :=
  match text with
  | [] => []
  | c :: rest =>
    if c = esc then charColumns terminal (escapeSequence rest).2
    else if c = byte '\n' then charColumns terminal rest
    else
      (getUtf8CharDisplayWidth terminal (c :: rest)).2 ::
        charColumns terminal ((c :: rest).drop (getUtf8CharDisplayWidth terminal (c :: rest)).1)
  termination_by text.length
  decreasing_by
    · exact Nat.lt_succ_of_le (escapeSequence_shorter rest)
    · exact Nat.lt_succ_self _
    · have present := (getUtf8CharDisplayWidth_spec terminal (cons_ne_nil c rest)).1
      rw [length_drop, length_cons]
      omega

def FitsWidth (terminal : Terminal) (maxWidth : Int) (text : Bytes) : Prop :=
  ∀ columns ∈ charColumns terminal text, columns ≤ maxWidth

/-- The places and active codes at which the loop over a text starts a turn. -/
inductive Reached (terminal : Terminal) (behind : Bytes → Bytes) (maxWidth : Int) (text : Bytes) : Bytes → Bytes → Prop
  | start : Reached terminal behind maxWidth text text []
  | turn {currentPos activeAnsi : Bytes} : Reached terminal behind maxWidth text currentPos activeAnsi → currentPos ≠
      [] → Reached terminal behind maxWidth text (wrapLine terminal behind maxWidth currentPos activeAnsi).currentPos
        (wrapLine terminal behind maxWidth currentPos activeAnsi).activeAnsi

/-- Each turn of the loop moves on in the text, and the loop ends. -/
structure Terminates (terminal : Terminal) (behind : Bytes → Bytes) (text : Bytes) (maxWidth : Int) : Prop where
  advances : ∀ currentPos activeAnsi, Reached terminal behind maxWidth text currentPos activeAnsi → currentPos ≠ [] →
    (wrapLine terminal behind maxWidth currentPos activeAnsi).currentPos.length < currentPos.length
  ends : ∃ turns, (wrapTextToWidth terminal behind turns text maxWidth).isSome

section Line

variable {terminal : Terminal} {behind : Bytes → Bytes} {maxWidth : Int} {lineStart text : Bytes} {c : UInt8}
  {rest : Bytes}

theorem charColumns_esc (rest : Bytes) :
    charColumns terminal (esc :: rest) = charColumns terminal (escapeSequence rest).2 := by
  rw [charColumns, if_pos rfl]

theorem charColumns_newline (rest : Bytes) :
    charColumns terminal (byte '\n' :: rest) = charColumns terminal rest := by
  rw [charColumns, if_neg (by decide), if_pos rfl]

theorem charColumns_char (plain : c ≠ esc) (inLine : c ≠ byte '\n') : charColumns terminal (c :: rest) =
    (getUtf8CharDisplayWidth terminal (c :: rest)).2 ::
      charColumns terminal ((c :: rest).drop (getUtf8CharDisplayWidth terminal (c :: rest)).1) := by
  rw [charColumns, if_neg plain, if_neg inLine]

/-- Whether the rest of a text fits is the same at both places that the loop over a line keeps, and a line that has not
moved on has no width. -/
structure Keeps (terminal : Terminal) (maxWidth : Int) (fits : Prop) (lineStart : Bytes) (state : LineScan) : Prop where
  place : FitsWidth terminal maxWidth state.currentPos ↔ fits
  wordBreak : FitsWidth terminal maxWidth state.lastWordBreak ↔ fits
  width : 0 ≤ state.width
  moved : state.currentPos.length < lineStart.length ∨ state.currentPos = lineStart ∧ state.width = 0

variable {fits : Prop} {state : LineScan}

theorem scanLine_end (place : state.currentPos = []) : scanLine terminal behind maxWidth lineStart state = state := by
  rw [scanLine]
  split
  · rfl
  · rename_i place'
    rw [place] at place'
    cases place'

theorem scanLine_cons (place : state.currentPos = c :: rest) : scanLine terminal behind maxWidth lineStart state =
    if c = esc then
      scanLine terminal behind maxWidth lineStart
        (state.appendSequence (sequenceCopy behind (escapeSequence rest).1) (escapeSequence rest).2)
    else if c = byte '\n' then { state with currentPos := rest }
    else
      let character := getUtf8CharDisplayWidth terminal (c :: rest)
      if maxWidth < state.width + character.2 then state.breakLine lineStart
      else
        scanLine terminal behind maxWidth lineStart
          (state.appendChar (isSpace c) ((c :: rest).take character.1) character.2 ((c :: rest).drop character.1)) := by
  rw [scanLine]
  split
  · rename_i place'
    rw [place] at place'
    cases place'
  · rename_i c' rest' place'
    rw [place] at place'
    obtain ⟨rfl, rfl⟩ := cons.inj place'
    rfl

theorem Keeps.le (keeps : Keeps terminal maxWidth fits lineStart state) :
    state.currentPos.length ≤ lineStart.length := by
  rcases keeps.moved with moved | ⟨same, -⟩
  · exact moved.le
  · rw [same]

theorem Keeps.appendSequence (keeps : Keeps terminal maxWidth fits lineStart state)
    (place : state.currentPos = esc :: rest)
    (copy : Bytes) : Keeps terminal maxWidth fits lineStart (state.appendSequence copy (escapeSequence rest).2) where
  place := by
    rw [← keeps.place, FitsWidth, FitsWidth, place, charColumns_esc]
    rfl
  wordBreak := keeps.wordBreak
  width := keeps.width
  moved := by
    have shorter := escapeSequence_shorter rest
    have here := keeps.le
    rw [place, length_cons] at here
    left
    change (escapeSequence rest).2.length < lineStart.length
    omega

theorem Keeps.behindChar (keeps : Keeps terminal maxWidth fits lineStart state) (place : state.currentPos = c :: rest)
    (plain : c ≠ esc) (inLine : c ≠ byte '\n')
    (room : ¬ maxWidth < state.width + (getUtf8CharDisplayWidth terminal (c :: rest)).2) :
    FitsWidth terminal maxWidth ((c :: rest).drop (getUtf8CharDisplayWidth terminal (c :: rest)).1) ↔ fits := by
  have narrow : (getUtf8CharDisplayWidth terminal (c :: rest)).2 ≤ maxWidth := by
    have width := keeps.width
    omega
  rw [← keeps.place, place, FitsWidth, FitsWidth, charColumns_char plain inLine, forall_mem_cons]
  exact (and_iff_right narrow).symm

theorem Keeps.appendChar (keeps : Keeps terminal maxWidth fits lineStart state) (place : state.currentPos = c :: rest)
    (plain : c ≠ esc) (inLine : c ≠ byte '\n')
    (room : ¬ maxWidth < state.width + (getUtf8CharDisplayWidth terminal (c :: rest)).2) (space : Bool) (char : Bytes) :
    Keeps terminal maxWidth fits lineStart (state.appendChar space char (getUtf8CharDisplayWidth terminal (c :: rest)).2
      ((c :: rest).drop (getUtf8CharDisplayWidth terminal (c :: rest)).1)) where
  place := keeps.behindChar place plain inLine room
  wordBreak := by
    cases space with
    | false => exact keeps.wordBreak
    | true => exact keeps.behindChar place plain inLine room
  width := add_nonneg keeps.width (getUtf8CharDisplayWidth_spec terminal (cons_ne_nil c rest)).2.1
  moved := by
    have present := (getUtf8CharDisplayWidth_spec terminal (cons_ne_nil c rest)).1
    have here := keeps.le
    rw [place] at here
    left
    change ((c :: rest).drop _).length < lineStart.length
    rw [length_drop]
    rw [length_cons] at here ⊢
    omega

theorem Keeps.breakLine (keeps : Keeps terminal maxWidth fits lineStart state) (place : state.currentPos = c :: rest)
    (plain : c ≠ esc) (inLine : c ≠ byte '\n')
    (full : maxWidth < state.width + (getUtf8CharDisplayWidth terminal (c :: rest)).2) :
    (FitsWidth terminal maxWidth (state.breakLine lineStart).currentPos ↔ fits) ∧
      (fits → (state.breakLine lineStart).currentPos.length < lineStart.length) := by
  rw [LineScan.breakLine]
  split_ifs with isBreak
  · exact ⟨keeps.wordBreak, fun _ => isBreak⟩
  · refine ⟨keeps.place, fun good => ?_⟩
    -- Otherwise the character that is too wide is the first of the line, and it alone does not fit.
    rcases keeps.moved with moved | ⟨-, width⟩
    · exact moved
    · have narrow := keeps.place.mpr good
      rw [place, FitsWidth, charColumns_char plain inLine, forall_mem_cons] at narrow
      omega

/-- The loop over a line ends where the rest of the text fits exactly when it did before, and it has moved on when it
does. -/
theorem Keeps.scanLine (keeps : Keeps terminal maxWidth fits lineStart state) (behind : Bytes → Bytes)
    (some' : lineStart ≠ []) :
    (FitsWidth terminal maxWidth (scanLine terminal behind maxWidth lineStart state).currentPos ↔ fits) ∧
      (fits → (scanLine terminal behind maxWidth lineStart state).currentPos.length < lineStart.length) := by
  induction size : state.currentPos.length using Nat.strong_induction_on generalizing state with
  | _ size inductionHypothesis =>
    subst size
    cases place : state.currentPos with
    | nil =>
      rw [scanLine_end place]
      refine ⟨keeps.place, fun _ => ?_⟩
      rw [place]
      exact length_pos_iff.mpr some'
    | cons c rest =>
      rw [scanLine_cons place]
      split_ifs with isEsc isNewline
      · subst isEsc
        have shorter := escapeSequence_shorter rest
        exact inductionHypothesis _ (by rw [place]; exact Nat.lt_succ_of_le shorter)
          (keeps.appendSequence place _) rfl
      · subst isNewline
        have here := keeps.le
        rw [place] at here
        refine ⟨?_, fun _ => here⟩
        rw [← keeps.place, place, FitsWidth, FitsWidth, charColumns_newline]
      · dsimp only
        split_ifs with full
        · exact keeps.breakLine place isEsc isNewline full
        · have present := (getUtf8CharDisplayWidth_spec terminal (cons_ne_nil c rest)).1
          refine inductionHypothesis _ ?_ (keeps.appendChar place isEsc isNewline full _ _) rfl
          rw [place]
          change ((c :: rest).drop _).length < _
          rw [length_drop, length_cons]
          omega

/-- One turn of the loop over the text. -/
theorem wrapLine_spec (terminal : Terminal) (behind : Bytes → Bytes) (maxWidth : Int) {currentPos : Bytes}
    (some' : currentPos ≠ []) (activeAnsi : Bytes) :
    (FitsWidth terminal maxWidth (wrapLine terminal behind maxWidth currentPos activeAnsi).currentPos ↔
        FitsWidth terminal maxWidth currentPos) ∧
      (FitsWidth terminal maxWidth currentPos →
        (wrapLine terminal behind maxWidth currentPos activeAnsi).currentPos.length < currentPos.length) := by
  have keeps : Keeps terminal maxWidth (FitsWidth terminal maxWidth currentPos) currentPos
    (.start currentPos activeAnsi) :=
    ⟨Iff.rfl, Iff.rfl, le_rfl, .inr ⟨rfl, rfl⟩⟩
  exact keeps.scanLine behind some'

end Line

section Text

variable {terminal : Terminal} {behind : Bytes → Bytes} {maxWidth : Int} {text : Bytes}

/-- Where the text does not fit, no number of turns is enough. -/
theorem wrapLoop_none (turns : Nat) {currentPos : Bytes} (wide : ¬ FitsWidth terminal maxWidth currentPos)
    (activeAnsi : Bytes) (lines : List Bytes) :
    wrapLoop terminal behind maxWidth turns currentPos activeAnsi lines = none := by
  induction turns generalizing currentPos activeAnsi lines with
  | zero =>
    cases currentPos with
    | nil => exact absurd (by simp [FitsWidth, charColumns]) wide
    | cons => rfl
  | succ turns inductionHypothesis =>
    cases currentPos with
    | nil => exact absurd (by simp [FitsWidth, charColumns]) wide
    | cons c rest =>
      exact inductionHypothesis
        (mt (wrapLine_spec terminal behind maxWidth (cons_ne_nil c rest) activeAnsi).1.mp wide) _ _

theorem wrapLoop_some (turns : Nat) {currentPos : Bytes} (fits : FitsWidth terminal maxWidth currentPos)
    (enough : currentPos.length ≤ turns) (activeAnsi : Bytes) (lines : List Bytes) :
    (wrapLoop terminal behind maxWidth turns currentPos activeAnsi lines).isSome := by
  induction turns generalizing currentPos activeAnsi lines with
  | zero =>
    obtain rfl := length_eq_zero_iff.mp (Nat.le_zero.mp enough)
    rfl
  | succ turns inductionHypothesis =>
    cases currentPos with
    | nil => rfl
    | cons c rest =>
      have turn := wrapLine_spec terminal behind maxWidth (cons_ne_nil c rest) activeAnsi
      exact inductionHypothesis (turn.1.mpr fits) (Nat.le_of_lt_succ ((turn.2 fits).trans_le enough)) _ _

theorem Reached.fits {currentPos activeAnsi : Bytes} (reached : Reached terminal behind maxWidth text currentPos
    activeAnsi) :
    FitsWidth terminal maxWidth currentPos ↔ FitsWidth terminal maxWidth text := by
  induction reached with
  | start => rfl
  | turn _ some' inductionHypothesis =>
    exact (wrapLine_spec terminal behind maxWidth some' _).1.trans inductionHypothesis

/-- A line of two columns has room for every character. -/
theorem fitsWidth_two (terminal : Terminal) (text : Bytes) (wide : 2 ≤ maxWidth) :
    FitsWidth terminal maxWidth text := by
  intro columns listed
  have narrow : columns ≤ 2 := by
    induction text using charColumns.induct terminal with
    | case1 => simp [charColumns] at listed
    | case2 rest inductionHypothesis =>
      rw [charColumns_esc] at listed
      exact inductionHypothesis listed
    | case3 rest _ inductionHypothesis =>
      rw [charColumns_newline] at listed
      exact inductionHypothesis listed
    | case4 c rest plain inLine inductionHypothesis =>
      rw [charColumns_char plain inLine, mem_cons] at listed
      rcases listed with rfl | listed
      · exact (getUtf8CharDisplayWidth_spec terminal (cons_ne_nil c rest)).2.2
      · exact inductionHypothesis listed
  omega

end Text

/-- The loop over a text moves on with each turn and ends exactly when no character is wider than a line. Lines of two
columns or more are always wide enough. -/
theorem wrapTextToWidth_terminates_iff (terminal : Terminal) (behind : Bytes → Bytes) (text : Bytes) {maxWidth : Int}
    (positive : 1 ≤ maxWidth) :
    (Terminates terminal behind text maxWidth ↔ FitsWidth terminal maxWidth text) ∧
      (2 ≤ maxWidth → FitsWidth terminal maxWidth text) := by
  refine ⟨⟨?_, ?_⟩, fitsWidth_two terminal text⟩
  · rintro ⟨-, turns, ends⟩
    by_contra wide
    rw [wrapTextToWidth, if_neg (by omega), wrapLoop_none turns wide] at ends
    cases ends
  · intro fits
    constructor
    case advances =>
      intro currentPos activeAnsi reached some'
      exact (wrapLine_spec terminal behind maxWidth some' activeAnsi).2 (reached.fits.mpr fits)
    case ends =>
      refine ⟨text.length, ?_⟩
      rw [wrapTextToWidth, if_neg (by omega), Option.isSome_map]
      exact wrapLoop_some text.length fits le_rfl [] []

/-- One Korean syllable of three bytes takes two columns, and every other byte takes one. -/
def syllableTerminal : Terminal where
  decode text := if [0xEA, 0xB0, 0x80] <+: text then some (3, 2) else some (1, 1)
  inside text some' found member := by
    have present := length_pos_iff.mpr some'
    split_ifs at member with syllable
    · cases member
      exact ⟨by decide, syllable.length_le⟩
    · cases member
      exact ⟨le_rfl, present⟩
  narrow text found member := by
    split_ifs at member <;> obtain rfl := Option.some.inj member <;> decide

/-- The syllable fits a line of two columns. -/
theorem wrap_syllable_two :
    (Terminates syllableTerminal id [0xEA, 0xB0, 0x80] 2 ↔ FitsWidth syllableTerminal 2 [0xEA, 0xB0, 0x80]) ∧
      ((2 : Int) ≤ 2 → FitsWidth syllableTerminal 2 [0xEA, 0xB0, 0x80]) :=
  wrapTextToWidth_terminates_iff syllableTerminal id [0xEA, 0xB0, 0x80] (by decide)

/-- In a line of one column the loop stays in front of the syllable. -/
theorem wrap_syllable_one :
    (wrapLine syllableTerminal id 1 [0xEA, 0xB0, 0x80] []).currentPos = [0xEA, 0xB0, 0x80] ∧
      ∀ turns, wrapTextToWidth syllableTerminal id turns [0xEA, 0xB0, 0x80] 1 = none := by
  have columns : charColumns syllableTerminal [0xEA, 0xB0, 0x80] = [2] := by decide +kernel
  have wide : ¬ FitsWidth syllableTerminal 1 [0xEA, 0xB0, 0x80] := by
    rw [FitsWidth, columns]
    decide
  refine ⟨by decide +kernel, fun turns => ?_⟩
  rw [wrapTextToWidth, wrapLoop_none turns wide]
  rfl

end SshChatter.Translation
