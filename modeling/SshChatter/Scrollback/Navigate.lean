import SshChatter.Lib.CString
import SshChatter.Lib.PrefixFit

namespace SshChatter.Scrollback
open CString PrefixFit

/-- What a session sees its history on. Each entry is the list of the writes that `session_send_history_entry` makes
for it, and a hidden entry makes none. The columns of a character are those of `mbrtowc` and `wcwidth`. -/
structure Terminal where
  width : Nat
  height : Nat
  columns : Bytes → Option Int
  entries : List (List Bytes)

def utf8CharWidth (columns : Bytes → Option Int) (bytes : Bytes) : Nat :=
  match columns bytes with
  | none => 1
  | some width => if width < 0 then 1 else width.toNat

/-- The last number, the final byte and the rest of a control sequence. -/
def csiEnd : Bytes → Nat → Option (Nat × UInt8 × Bytes)
  | [], _ => none
  | c :: rest, param =>
    if c < 0x40 ∨ 0x7E < c then csiEnd rest (if isDigit c then (param * 10 + (c.toNat - 48)) % 2 ^ 64 else 0)
    else some (param, c, rest)

def sequenceLength (lead : UInt8) : Nat :=
  if 0xF0 ≤ lead then 4 else if 0xE0 ≤ lead then 3 else if 0xC0 ≤ lead then 2 else 1

/-- The loop of `session_scrollback_count_rows`. Each round passes a byte, so that the length bounds the rounds. -/
def countRowsFrom (columns : Bytes → Option Int) (width : Nat) : Nat → Bytes → Nat → Nat → Nat
  | 0, _, rows, col => if 0 < col then rows + 1 else rows
  | _ + 1, [], rows, col => if 0 < col then rows + 1 else rows
  | rounds + 1, ch :: rest, rows, col =>
    if ch = 0x1B then
      if rest.head? = some (byte '[') then
        match csiEnd rest.tail 0 with
        | none => countRowsFrom columns width rounds [] rows col
        | some (param, last, rest) =>
          countRowsFrom columns width rounds rest rows (if last = byte 'G' then min (param - 1) width else col)
      else countRowsFrom columns width rounds rest.tail rows col
    else if ch = 13 then countRowsFrom columns width rounds rest rows 0
    else if ch = 10 then countRowsFrom columns width rounds rest (rows + 1) 0
    else if ch < 0x20 ∨ ch = 0x7F then countRowsFrom columns width rounds rest rows col
    else
      let sequence := (ch :: rest).take (sequenceLength ch)
      let rest := (ch :: rest).drop (sequenceLength ch)
      let charWidth := if ch < 0x80 then 1 else utf8CharWidth columns sequence
      if charWidth = 0 then countRowsFrom columns width rounds rest rows col
      else if width < col + charWidth then countRowsFrom columns width rounds rest (rows + 1) charWidth
      else countRowsFrom columns width rounds rest rows (col + charWidth)

def countRows (terminal : Terminal) (data : Bytes) : Nat :=
  countRowsFrom terminal.columns (if 0 < terminal.width then terminal.width else 80) data.length data 0 0

def maxChunk : Nat := 64

def lineCapacity (terminal : Terminal) : Nat :=
  let height := if 0 < terminal.height then terminal.height else 24
  min (if 2 < height then height - 2 else 1) maxChunk

/-- This is `SSH_CHATTER_OUTPUT_BUFFER_SIZE`, the first capacity of a capture. -/
def outputBufferSize : Nat := 32768

def captureMax : Nat := 256 * 1024

def captureAppend (capacity length : Nat) (data : Bytes) : Option (Nat × Nat) :=
  let needed := length + data.length
  if capacity < needed then
    let grown := max (capacity * 2) needed
    if grown ≤ captureMax then some (grown, needed) else none
  else some (capacity, needed)

def captured : List Bytes → Nat → Nat → Bool
  | [], _, _ => true
  | data :: rest, capacity, length =>
    match captureAppend capacity length data with
    | none => false
    | some (capacity, length) => captured rest capacity length

def windowRows (terminal : Terminal) (oldest count : Nat) : List Nat :=
  ((terminal.entries.drop oldest).take count).map fun entry => countRows terminal entry.flatten

def outgrows (terminal : Terminal) (oldest count : Nat) : Bool :=
  !captured ((terminal.entries.drop oldest).take count).flatten outputBufferSize 0

/-- The number of messages that `session_scrollback_render_window` shows: the newest ones that fit. -/
def shownCount (terminal : Terminal) (oldest count : Nat) : Nat :=
  if outgrows terminal oldest count then count
  else fit (lineCapacity terminal) (windowRows terminal oldest count).reverse

/-- The fields of a session that the navigation uses. -/
structure Scroll where
  position : Nat
  renderedEntries : Nat
  latestNotified : Bool
  oldestNotified : Bool
  deriving DecidableEq

/-- This is what `session_scrollback_reset_position` leaves. -/
def Scroll.live : Scroll := ⟨0, 0, false, false⟩

/-- A page up goes to older messages and a page down to newer ones. -/
inductive Direction where
  | up
  | down
  deriving DecidableEq

/-- The messages of a frame, by their places in the history. -/
structure Frame where
  oldest : Nat
  newest : Nat
  deriving DecidableEq

def pageOf (terminal : Terminal) (scroll : Scroll) : Nat :=
  if scroll.position = 0 ∨ scroll.renderedEntries = 0 ∨ lineCapacity terminal < scroll.renderedEntries then
    lineCapacity terminal
  else scroll.renderedEntries

def newPosition (terminal : Terminal) (scroll : Scroll) (direction : Direction) : Nat :=
  let maxPosition := terminal.entries.length - 1
  let position := min scroll.position maxPosition
  match direction with
  | .up => position + min (pageOf terminal scroll) (maxPosition - position)
  | .down => position - min (pageOf terminal scroll) position

def newestVisible (terminal : Terminal) (position : Nat) : Nat := terminal.entries.length - 1 - position

/-- The number of messages that are copied at a position. -/
def chunkAt (terminal : Terminal) (position : Nat) : Nat :=
  min (lineCapacity terminal) (newestVisible terminal position + 1)

def oldestVisible (terminal : Terminal) (position : Nat) : Nat :=
  newestVisible terminal position + 1 - chunkAt terminal position

/-- The part of `session_scrollback_navigate` that renders a frame at a position. -/
def showAt (terminal : Terminal) (direction : Direction) (position : Nat) : Scroll × Frame :=
  let shown := shownCount terminal (oldestVisible terminal position) (chunkAt terminal position)
  let first := oldestVisible terminal position + (chunkAt terminal position - shown)
  (⟨position, shown, decide (direction = .down ∧ position = 0), decide (first = 0)⟩,
    ⟨first, newestVisible terminal position⟩)

/-- This is `session_scrollback_navigate` for the page keys. -/
def navigate (terminal : Terminal) (scroll : Scroll) (direction : Direction) : Scroll × Option Frame :=
  if (direction = .down ∧ scroll.latestNotified) ∨ (direction = .up ∧ scroll.oldestNotified) then
    (scroll, none)
  else if terminal.entries = [] then (scroll, none)
  else if direction = .down ∧ min scroll.position (terminal.entries.length - 1) = 0 then (.live, none)
  else
    let (next, frame) := showAt terminal direction (newPosition terminal scroll direction)
    (next, some frame)

end SshChatter.Scrollback
