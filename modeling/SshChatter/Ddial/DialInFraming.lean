import SshChatter.Lib.LineStream
import SshChatter.Ddial.ClientFraming

namespace SshChatter.Ddial
open CString DdialProtocol LineStream List

/-- This is `DDIAL_SESSION_INPUT_BUF`. -/
def inputBufSize : Nat := 4096

def maxLineLen : Nat := 1024

/-- The end of the first line as its position and its length. Both bytes together are looked for before a feed. -/
def inputEol (buf : Bytes) : Option (Nat × Nat) :=
  match strstr crlf buf with
  | some (before, _) => some (before.length, 2)
  | none => (strchr 10 buf).map fun found => (found.1.length, 1)

/-- The end of a line stands inside the buffer. -/
theorem inputEol_pos {buf : Bytes} {position size : Nat} (found : inputEol buf = some (position, size)) :
    0 < size ∧ buf ≠ [] := by
  constructor
  · rw [inputEol] at found
    split at found
    · simp only [Option.some.injEq, Prod.mk.injEq] at found
      omega
    · obtain ⟨_, _, same⟩ := Option.map_eq_some_iff.mp found
      simp only [Prod.mk.injEq] at same
      omega
  · rintro rfl
    cases found

/-- This is the loop of `ddial_session_process_input`: the lines that are processed, and what is left of the buffer. -/
def processInput (buf : Bytes) : List Bytes × Bytes :=
  match _found : inputEol buf with
  | none => ([], buf)
  | some (position, size) =>
    let lineLen := min position (maxLineLen - 1)
    let later := processInput (buf.drop (lineLen + size))
    (lineText (buf.take lineLen) :: later.1, later.2)
termination_by buf.length
decreasing_by
  obtain ⟨positive, nonEmpty⟩ := inputEol_pos _found
  have someBytes := length_pos_of_ne_nil nonEmpty
  rw [length_drop]
  omega

/-- The input of a session, and the lines that it has processed. -/
structure DialIn where
  inputBuf : Bytes
  processed : List Bytes
  deriving DecidableEq

def DialIn.receive (session : DialIn) (piece : Bytes) : DialIn :=
  let buf := session.inputBuf ++ piece.take (inputBufSize - session.inputBuf.length)
  ⟨(processInput buf).2, session.processed ++ (processInput buf).1⟩

def DialIn.receiveAll (session : DialIn) (pieces : List Bytes) : DialIn := pieces.foldl DialIn.receive session

/-- A session before its first input. -/
def DialIn.fresh : DialIn := ⟨[], []⟩

def lineOf (segment : Bytes) : Bytes := if segment.getLast? = some 13 then segment.dropLast else segment

def streamLines (stream : Bytes) : List Bytes := (splitLines 10 stream).1.map lineOf

/-- Each line of the stream was processed once and in order. What was processed is the beginning of the line, and the
whole line if it is not too long. The open line is in the buffer, which has room for more or a line to process. -/
structure FramesLines (stream : Bytes) (session : DialIn) : Prop where
  lines : List.Forall₂ (fun text line => text <+: line ∧ text.length < maxLineLen ∧
    (line.length < maxLineLen → text = lineText line)) session.processed (streamLines stream)
  openLine : session.inputBuf = (splitLines 10 stream).2
  alive : 10 ∈ session.inputBuf ∨ session.inputBuf.length < inputBufSize

/-- What a piece meets: it fits with room left for an open line, no line is too long, and in the buffer no line that
ends with LF alone stands in front of a line that ends with CR LF. -/
structure Tame (session : DialIn) (piece : Bytes) : Prop where
  fits : (session.inputBuf ++ piece).length ≤ inputBufSize
  room : 10 ∉ session.inputBuf ++ piece → (session.inputBuf ++ piece).length < inputBufSize
  short : ∀ line ∈ streamLines (session.inputBuf ++ piece), line.length < maxLineLen
  ordered : (splitLines 10 (session.inputBuf ++ piece)).1.Pairwise fun first second =>
    second.getLast? = some 13 → first.getLast? = some 13

/-- Each piece of a run meets the condition. -/
def EachTame (session : DialIn) : List Bytes → Prop
  | [] => True
  | piece :: pieces => Tame session piece ∧ EachTame (session.receive piece) pieces

/-- Behind a text without a feed both bytes are found where they stand. -/
theorem strstr_crlf {text : Bytes} (free : 10 ∉ text) (rest : Bytes) :
    strstr crlf (text ++ 13 :: 10 :: rest) = some (text, 13 :: 10 :: rest) := by
  induction text with
  | nil => exact strstr_self (by decide) rest
  | cons c text ih =>
    obtain ⟨-, free⟩ := not_or.mp (mt mem_cons.mpr free)
    have later : ¬ crlf <+: c :: (text ++ 13 :: 10 :: rest) := by
      rw [crlf, cons_prefix_cons]
      rintro ⟨-, starts⟩
      cases text with
      | nil => simp at starts
      | cons =>
        rw [cons_append, cons_prefix_cons] at starts
        exact free (starts.1 ▸ mem_cons_self)
    rw [cons_append, strstr_cons later, ih free]
    rfl

theorem strstr_none {buf : Bytes} (plain : ∀ segment ∈ (splitLines 10 buf).1, segment.getLast? ≠ some 13) :
    strstr crlf buf = none := by
  rw [← Option.not_isSome_iff_eq_none, strstr_isSome]
  rintro ⟨before, after, rfl⟩
  obtain ⟨segment, listed, ends⟩ := splitLines_last_mem 10 before (by decide : (13 : UInt8) ≠ 10) after
  rw [append_assoc] at plain
  exact plain segment listed ends

/-- The number of bytes that end a line. -/
def eolSize (segment : Bytes) : Nat := if segment.getLast? = some 13 then 2 else 1

theorem lineOf_length (segment : Bytes) : (lineOf segment).length + eolSize segment = segment.length + 1 := by
  rw [lineOf, eolSize]
  split_ifs with ends
  · have nonEmpty : segment ≠ [] := by
      rintro rfl
      cases ends
    have positive := length_pos_of_ne_nil nonEmpty
    rw [length_dropLast]
    omega
  · rfl

theorem lineOf_starts (segment : Bytes) : lineOf segment <+: segment := by
  rw [lineOf]
  split_ifs
  · exact dropLast_prefix segment
  · exact prefix_rfl

/-- The end of the first line is found when no line that ends with LF alone stands in front of a CR LF. -/
theorem inputEol_first {segment rest : Bytes} (free : 10 ∉ segment)
    (ordered : ∀ later ∈ (splitLines 10 rest).1, later.getLast? = some 13 → segment.getLast? = some 13) :
    inputEol (segment ++ 10 :: rest) = some ((lineOf segment).length, eolSize segment) := by
  rw [inputEol, lineOf, eolSize]
  by_cases ends : segment.getLast? = some 13
  · obtain ⟨text, rfl⟩ : ∃ text, segment = text ++ [13] := by
      obtain ⟨text, last⟩ := getLast?_eq_some_iff.mp ends
      exact ⟨text, last⟩
    have free' : 10 ∉ text := fun inside => free (mem_append_left _ inside)
    rw [append_assoc, singleton_append, strstr_crlf free', if_pos ends, if_pos ends, dropLast_concat]
  · have plain : ∀ s ∈ (splitLines 10 (segment ++ 10 :: rest)).1, s.getLast? ≠ some 13 := by
      intro s listed returns
      rw [splitLines_first 10 free] at listed
      rcases mem_cons.mp listed with rfl | later
      · exact ends returns
      · exact ends (ordered s later returns)
    rw [strstr_none plain, strchr_append free, if_neg ends, if_neg ends]
    rfl

/-- A buffer without a feed has no line. -/
theorem inputEol_open {buf : Bytes} (free : 10 ∉ buf) : inputEol buf = none := by
  have plain : ∀ segment ∈ (splitLines 10 buf).1, segment.getLast? ≠ some 13 := by
    rw [splitLines_open 10 free]
    simp
  have noFeed : strchr 10 buf = none := by
    rw [← Option.not_isSome_iff_eq_none, strchr_isSome]
    exact free
  rw [inputEol, strstr_none plain, noFeed]
  rfl

theorem processInput_open {buf : Bytes} (free : 10 ∉ buf) : processInput buf = ([], buf) := by
  rw [processInput]
  split
  next => rfl
  next position size found =>
    rw [inputEol_open free] at found
    cases found

theorem processInput_first {segment rest : Bytes} (free : 10 ∉ segment) (short : (lineOf segment).length < maxLineLen)
    (ordered : ∀ later ∈ (splitLines 10 rest).1, later.getLast? = some 13 → segment.getLast? = some 13) :
    processInput (segment ++ 10 :: rest) =
      (lineText (lineOf segment) :: (processInput rest).1, (processInput rest).2) := by
  have eol := inputEol_first free ordered
  have whole : min (lineOf segment).length (maxLineLen - 1) = (lineOf segment).length := by omega
  have text : (segment ++ 10 :: rest).take (lineOf segment).length = lineOf segment :=
    (prefix_iff_eq_take.mp ((lineOf_starts segment).trans (prefix_append segment _))).symm
  have behind : (segment ++ 10 :: rest).drop ((lineOf segment).length + eolSize segment) = rest := by
    rw [lineOf_length]
    simp
  rw [processInput]
  split
  next none' =>
    rw [eol] at none'
    cases none'
  next position size found =>
    rw [eol] at found
    obtain ⟨rfl, rfl⟩ := Prod.mk.inj (Option.some.inj found)
    simp only [whole, text, behind]

theorem processInput_lines {buf : Bytes} (short : ∀ line ∈ streamLines buf, line.length < maxLineLen)
    (ordered : (splitLines 10 buf).1.Pairwise fun first second =>
      second.getLast? = some 13 → first.getLast? = some 13) :
    processInput buf = ((streamLines buf).map lineText, (splitLines 10 buf).2) := by
  induction length : buf.length using Nat.strong_induction_on generalizing buf with
  | _ size ih =>
    by_cases feed : 10 ∈ buf
    · obtain ⟨segment, rest, rfl, free⟩ := eq_append_cons_of_mem feed
      have split := splitLines_first 10 free rest
      have lines : streamLines (segment ++ 10 :: rest) = lineOf segment :: streamLines rest := by
        rw [streamLines, split]
        rfl
      rw [lines] at short
      rw [split, pairwise_cons] at ordered
      have shorter : rest.length < size := by
        rw [← length, length_append, length_cons]
        omega
      have later := ih rest.length shorter (fun line listed => short line (mem_cons_of_mem _ listed)) ordered.2 rfl
      rw [processInput_first free (short _ mem_cons_self) ordered.1, later, lines, split]
      rfl
    · rw [processInput_open feed, streamLines, splitLines_open 10 feed]
      rfl

theorem lineText_starts (line : Bytes) : lineText line <+: line := by
  apply (List.takeWhile_prefix _).trans
  split_ifs
  · exact dropLast_prefix line
  · exact prefix_rfl

/-- A piece that meets the condition keeps the lines in step with the stream. -/
theorem FramesLines.receive {stream piece : Bytes} {session : DialIn} (frames : FramesLines stream session)
    (tame : Tame session piece) : FramesLines (stream ++ piece) (session.receive piece) := by
  have whole : session.inputBuf ++ piece.take (inputBufSize - session.inputBuf.length) = session.inputBuf ++ piece := by
    have fits := tame.fits
    rw [length_append] at fits
    rw [take_of_length_le (by omega)]
  have passed := processInput_lines tame.short tame.ordered
  have split := splitLines_continue 10 stream piece
  rw [← frames.openLine] at split
  have lines : streamLines (stream ++ piece) = streamLines stream ++ streamLines (session.inputBuf ++ piece) := by
    rw [streamLines, split, map_append]
    rfl
  have left : (session.receive piece).inputBuf = (splitLines 10 (session.inputBuf ++ piece)).2 := by
    rw [DialIn.receive, whole, passed]
  constructor
  · have done : (session.receive piece).processed =
        session.processed ++ (streamLines (session.inputBuf ++ piece)).map lineText := by
      rw [DialIn.receive, whole, passed]
    rw [done, lines]
    apply rel_append frames.lines
    rw [forall₂_map_left_iff, forall₂_same]
    intro line listed
    have short := tame.short line listed
    exact ⟨lineText_starts line, (lineText_starts line).length_le.trans_lt short, fun _ => rfl⟩
  · rw [left, split]
  · right
    rw [left]
    by_cases feed : 10 ∈ session.inputBuf ++ piece
    · obtain ⟨segment, rest, parts, free⟩ := eq_append_cons_of_mem feed
      have fits := tame.fits
      have behind := splitLines_open_length 10 rest
      rw [parts, length_append, length_cons] at fits
      rw [parts, splitLines_first 10 free]
      dsimp only
      omega
    · rw [splitLines_open 10 feed]
      exact tame.room feed

theorem framesLines_fresh : FramesLines [] .fresh where
  lines := .nil
  openLine := rfl
  alive := .inr (by decide)

theorem FramesLines.receiveAll {stream : Bytes} {session : DialIn} (frames : FramesLines stream session)
    {pieces : List Bytes} (tame : EachTame session pieces) :
    FramesLines (stream ++ pieces.flatten) (session.receiveAll pieces) := by
  induction pieces generalizing stream session with
  | nil =>
    rw [flatten_nil, append_nil]
    exact frames
  | cons piece pieces ih =>
    rw [flatten_cons, ← append_assoc]
    exact ih (frames.receive tame.1) tame.2

/-- In every run in which each piece fits, completes no line that is too long, and brings no CR LF behind a line that
ends with LF alone, each line is processed once and in order, and the session goes on reading. -/
theorem dial_in_lines (pieces : List Bytes) (tame : EachTame .fresh pieces) :
    FramesLines pieces.flatten (DialIn.fresh.receiveAll pieces) :=
  framesLines_fresh.receiveAll tame

instance decidableTame (session : DialIn) (piece : Bytes) : Decidable (Tame session piece) :=
  decidable_of_iff ((session.inputBuf ++ piece).length ≤ inputBufSize ∧
      (10 ∉ session.inputBuf ++ piece → (session.inputBuf ++ piece).length < inputBufSize) ∧
      (∀ line ∈ streamLines (session.inputBuf ++ piece), line.length < maxLineLen) ∧
      (splitLines 10 (session.inputBuf ++ piece)).1.Pairwise fun first second =>
        second.getLast? = some 13 → first.getLast? = some 13)
    ⟨fun ⟨fits, room, short, ordered⟩ => ⟨fits, room, short, ordered⟩,
      fun ⟨fits, room, short, ordered⟩ => ⟨fits, room, short, ordered⟩⟩

instance decidableEachTame : (session : DialIn) → (pieces : List Bytes) → Decidable (EachTame session pieces)
  | _, [] => isTrue trivial
  | session, piece :: pieces =>
    @instDecidableAnd _ _ (decidableTame session piece) (decidableEachTame (session.receive piece) pieces)

/-- A name and the beginning of a command, and the rest of the command. -/
theorem dial_in_lines_command :
    FramesLines [str "bob\r\n/w", str "ho\r\n"].flatten (DialIn.fresh.receiveAll [str "bob\r\n/w", str "ho\r\n"]) ∧
      (DialIn.fresh.receiveAll [str "bob\r\n/w", str "ho\r\n"]).processed = [str "bob", str "/who"] :=
  ⟨dial_in_lines _ (by decide +kernel), by decide +kernel⟩

/-- A line that is too long and ends with a command is executed as two lines, and two lines in one piece are executed as
one line. -/
theorem dial_in_lines_lost :
    ¬ FramesLines (replicate 1023 (byte 'a') ++ str "/q\r\n")
        (DialIn.fresh.receiveAll [replicate 1023 (byte 'a') ++ str "/q\r\n"]) ∧
      ¬ FramesLines (str "hi\n/q\r\n") (DialIn.fresh.receiveAll [str "hi\n/q\r\n"]) := by
  constructor
  · intro frames
    have count := frames.lines.length_eq
    revert count
    decide +kernel
  · intro frames
    have count := frames.lines.length_eq
    revert count
    decide +kernel

end SshChatter.Ddial
