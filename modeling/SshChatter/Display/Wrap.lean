import SshChatter.Lib.CString

namespace SshChatter.DisplayModel
open CString

abbrev displayLineTextMax : Nat := 4096

abbrev LineText := CBuffer displayLineTextMax

/-- A rendered line carries the identifier and the subline of its source message. -/
structure DisplayLine where
  messageId : UInt64
  sublineIndex : UInt16
  text : LineText
  deriving DecidableEq

instance : Inhabited DisplayLine := ⟨0, 0, .zero⟩

/-- A read past the tracked memory returns NUL. -/
def byteAt (cursor : Bytes) (index : Nat) : UInt8 := cursor.getD index 0

def startsCsi (cursor : Bytes) : Bool := byteAt cursor 0 = 0x1B ∧ byteAt cursor 1 = byte '['

/-- A control sequence ends after its first byte outside the parameter range. -/
def csiLength (cursor : Bytes) : Nat :=
  let parameters := ((cursor.drop 2).takeWhile fun c => c ≠ 0 ∧ 0x20 ≤ c ∧ c < 0x40).length
  if byteAt cursor (2 + parameters) ≠ 0 then 3 + parameters else 2 + parameters

def codePoint3 (cursor : Bytes) : UInt32 :=
  ((byteAt cursor 0).toUInt32 &&& 0x0F) <<< 12 ||| ((byteAt cursor 1).toUInt32 &&& 0x3F) <<< 6 |||
    ((byteAt cursor 2).toUInt32 &&& 0x3F)

def codePoint4 (cursor : Bytes) : UInt32 :=
  ((byteAt cursor 0).toUInt32 &&& 0x07) <<< 18 ||| ((byteAt cursor 1).toUInt32 &&& 0x3F) <<< 12 |||
    ((byteAt cursor 2).toUInt32 &&& 0x3F) <<< 6 ||| ((byteAt cursor 3).toUInt32 &&& 0x3F)

/-- These three-byte code points take two columns. -/
def isWide (cp : UInt32) : Bool :=
  (0x1100 ≤ cp ∧ cp ≤ 0x115F) ∨ cp = 0x2329 ∨ cp = 0x232A ∨ (0x2E80 ≤ cp ∧ cp ≤ 0x303E) ∨
    (0x3040 ≤ cp ∧ cp ≤ 0xA4CF) ∨ (0xAC00 ≤ cp ∧ cp ≤ 0xD7A3) ∨ (0xF900 ≤ cp ∧ cp ≤ 0xFAFF) ∨
    (0xFE10 ≤ cp ∧ cp ≤ 0xFE6F) ∨ (0xFF01 ≤ cp ∧ cp ≤ 0xFF60) ∨ (0xFFE0 ≤ cp ∧ cp ≤ 0xFFE6)

def leadWidth (cursor : Bytes) : Nat × UInt32 :=
  let lead := byteAt cursor 0
  if lead &&& 0xE0 = 0xC0 then (2, 1)
  else if lead &&& 0xF0 = 0xE0 then (3, if isWide (codePoint3 cursor) then 2 else 1)
  else if lead &&& 0xF8 = 0xF0 then
    (4, if 0x20000 ≤ codePoint4 cursor ∧ codePoint4 cursor ≤ 0x2FFFD then 2 else 1)
  else (1, 1)

def continuationLength (cursor : Bytes) (announced : Nat) : Nat → Nat → Nat
  | 0, _ => announced
  | fuel + 1, i =>
    if i < announced ∧ byteAt cursor i ≠ 0 then
      if byteAt cursor i &&& 0xC0 ≠ 0x80 then i else continuationLength cursor announced fuel (i + 1)
    else announced

def utf8CharWidth (cursor : Bytes) : Nat × UInt32 :=
  if startsCsi cursor then (csiLength cursor, 0)
  else if byteAt cursor 0 < 0x80 then (1, if 0x20 ≤ byteAt cursor 0 then 1 else 0)
  else (continuationLength cursor (leadWidth cursor).1 4 1, (leadWidth cursor).2)

variable (cursor : Bytes)

theorem leadWidth_pos : 0 < (leadWidth cursor).1 := by
  unfold leadWidth
  dsimp only
  split_ifs <;> decide

theorem continuationLength_pos {announced : Nat} (positive : 0 < announced) (fuel i : Nat) (inside : 0 < i) :
    0 < continuationLength cursor announced fuel i := by
  induction fuel generalizing i with
  | zero => exact positive
  | succ fuel ih =>
    rw [continuationLength]
    split_ifs
    · exact inside
    · exact ih (i + 1) (Nat.succ_pos i)
    · exact positive

theorem utf8CharWidth_pos : 0 < (utf8CharWidth cursor).1 := by
  unfold utf8CharWidth
  split_ifs
  · dsimp only [csiLength]
    split_ifs <;> omega
  · exact Nat.one_pos
  · exact Nat.one_pos
  · exact continuationLength_pos cursor (leadWidth_pos cursor) 4 1 Nat.one_pos

def LineText.copy (text : LineText) (cursor : Bytes) (byteLen : Nat) : LineText :=
  if room : text.text.length + byteLen < displayLineTextMax - 1 then
    ⟨text.text ++ cursor.take byteLen, by
      rw [List.length_append, List.length_take]
      omega⟩
  else text

/-- This is the inner loop of `display_model_wrap_line`: it fills one line and returns the cursor. -/
def fillLine (width : UInt32) (cursor : Bytes) (col : UInt32) (text : LineText) : LineText × Bytes :=
  if _stop : byteAt cursor 0 = 0 ∨ byteAt cursor 0 = 10 then (text, cursor)
  else
    let cw := (utf8CharWidth cursor).2
    -- The character wraps to the next line.
    if width < col + cw ∧ 0 < col then (text, cursor)
    else
      let copied := LineText.copy text cursor (utf8CharWidth cursor).1
      let rest := cursor.drop (utf8CharWidth cursor).1
      -- A character wider than the line stands alone.
      if width < cw ∧ col = 0 then (copied, rest)
      else fillLine width rest (col + cw) copied
termination_by cursor.length
decreasing_by
  have moved := utf8CharWidth_pos cursor
  have present : cursor ≠ [] := by
    intro empty
    exact _stop (Or.inl (by simp [byteAt, empty]))
  have positive := List.length_pos_iff.mpr present
  rw [List.length_drop]
  omega

def skipNewline (cursor : Bytes) : Bytes := if byteAt cursor 0 = 10 then cursor.drop 1 else cursor

/-- This is the outer loop of `display_model_wrap_line` with the lines that the output still accepts. -/
def wrapLoop (width : UInt32) (messageId : UInt64) : Nat → Bytes → UInt16 → List DisplayLine
  | 0, _, _ => []
  | capacity + 1, cursor, subline =>
    if byteAt cursor 0 = 0 then []
    else
      let filled := fillLine width cursor 0 .zero
      ⟨messageId, subline, filled.1⟩ ::
        wrapLoop width messageId capacity (skipNewline filled.2) (subline + 1)

/-- This is `display_model_wrap_line`. The text is the memory at its pointer, absent for a null one. -/
def wrapLine (text : Option Bytes) (width : UInt32) (messageId : UInt64) (outCapacity : Nat) :
    List DisplayLine :=
  match text with
  | none => []
  | some text =>
    if width = 0 ∨ outCapacity = 0 then []
    else match wrapLoop width messageId outCapacity text 0 with
      | [] => [⟨messageId, 0, .zero⟩]
      | lines => lines

/-- Each produced line is numbered after the one before it. -/
theorem wrapLoop_getElem (width : UInt32) (messageId : UInt64) (capacity : Nat) (cursor : Bytes)
    (subline : UInt16) (index : Nat) (line : DisplayLine)
    (present : (wrapLoop width messageId capacity cursor subline)[index]? = some line) :
    line.messageId = messageId ∧ line.sublineIndex = subline + UInt16.ofNat index := by
  induction capacity generalizing cursor subline index with
  | zero => simp [wrapLoop] at present
  | succ capacity ih =>
    rw [wrapLoop] at present
    split at present
    · simp at present
    · cases index with
      | zero =>
        simp only [List.getElem?_cons_zero, Option.some.injEq] at present
        rw [← present]
        simp
      | succ =>
        have facts := ih _ _ _ present
        refine ⟨facts.1, ?_⟩
        rw [facts.2, UInt16.ofNat_add]
        ac_rfl

/-- A wrapped message numbers its sublines from zero and tags them with its identifier. -/
theorem wrapLine_getElem (text : Option Bytes) (width : UInt32) (messageId : UInt64)
    (outCapacity : Nat) (index : Nat) (line : DisplayLine)
    (present : (wrapLine text width messageId outCapacity)[index]? = some line) :
    line.messageId = messageId ∧ line.sublineIndex = UInt16.ofNat index := by
  unfold wrapLine at present
  split at present
  · simp at present
  next memory =>
    split at present
    · simp at present
    · split at present
      · cases index with
        | zero =>
          simp only [List.getElem?_cons_zero, Option.some.injEq] at present
          rw [← present]
          exact ⟨rfl, rfl⟩
        | succ => simp at present
      · have facts := wrapLoop_getElem _ _ _ _ _ _ _ present
        simpa using facts

end SshChatter.DisplayModel
