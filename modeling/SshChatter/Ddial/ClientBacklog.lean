import SshChatter.Ddial.ClientFraming

namespace SshChatter.Ddial
open CString DdialProtocol LineScan List

/-- Every line of the text that arrived was taken by the extractor, in order and as a whole, or is still in the
buffer. A line that was taken was handed on once unless it is blank. -/
def LinesKept (userMode : Bool) (pieces : List Bytes) : Prop :=
  ∃ done, (readAll (freshClient userMode) pieces).2 = done.filterMap handedText ∧
    (wireLines (telnetText .data pieces.flatten)).1 =
      done ++ (wireLines (readAll (freshClient userMode) pieces).1.buffer).1 ∧
    (wireLines (telnetText .data pieces.flatten)).2 = (wireLines (readAll (freshClient userMode) pieces).1.buffer).2

/-- No line is lost in a run whose reads keep the buffer below its mark and its terminators in order, when no line
is a hang-up notice. -/
theorem lines_kept {pieces : List Bytes} (userMode : Bool) (noNul : 0 ∉ telnetText .data pieces.flatten)
    (short : ∀ line ∈ (wireLines (telnetText .data pieces.flatten)).1, line.1.length < messageLimit)
    (quiet : ∀ line ∈ (wireLines (telnetText .data pieces.flatten)).1, hangsUp (normalizeLine line.1) = false)
    (fits : EachRead BufferFits (freshClient userMode) pieces)
    (ordered : EachRead InOrder (freshClient userMode) pieces) : LinesKept userMode pieces := by
  have plain : ∀ line ∈ (wireLines (telnetText .data pieces.flatten)).1, PlainLine line.1 := by
    intro line listed
    exact ⟨short line listed, fun zero => noNul (scan_subset listed zero), quiet line listed⟩
  obtain ⟨done, handed, lines, last, -⟩ := readAll_fresh userMode plain fits ordered
  exact ⟨done, handed, lines, last⟩

def optionReads : { pieces : List Bytes // EachRead BufferFits (freshClient false) pieces ∧
    EachRead InOrder (freshClient false) pieces ∧
    ∀ line ∈ (wireLines (telnetText .data pieces.flatten)).1, hangsUp (normalizeLine line.1) = false } :=
  ⟨[str "hi\r\ny", [0xFF, 0xFB], 1 :: str "o\r\n"], by decide +kernel⟩

theorem lines_kept_option : LinesKept false [str "hi\r\ny", [0xFF, 0xFB], 1 :: str "o\r\n"] :=
  lines_kept false (by decide +kernel) (by decide +kernel) optionReads.2.2.2 optionReads.2.1 optionReads.2.2.1

section Loss

/-- One call hands on no more lines than it may and never makes the buffer longer. -/
theorem extractLoop_bounds (left : Nat) (buf : Bytes) {handed : List Bytes} {rest : Bytes}
    (extracted : extractLoop left buf = .lines handed rest) : handed.length ≤ left ∧ rest.length ≤ buf.length := by
  induction size : buf.length using Nat.strong_induction_on generalizing left buf handed with
  | _ size ih =>
    rw [extractLoop] at extracted
    split_ifs at extracted with stop
    · cases extracted
      exact ⟨Nat.zero_le _, size.le⟩
    · split at extracted
      next =>
        cases extracted
        exact ⟨Nat.zero_le _, size.le⟩
      next position size' found =>
        have shorter := drop_shorter found (min position (messageLimit - 1))
        simp only at extracted
        split_ifs at extracted
        · obtain ⟨few, smaller⟩ := ih _ (size ▸ shorter) _ _ extracted rfl
          exact ⟨few, by omega⟩
        · cases deeper : extractLoop (left - 1) (buf.drop (min position (messageLimit - 1) + size')) with
          | hungUp => rw [deeper] at extracted; cases extracted
          | lines =>
            rw [deeper] at extracted
            cases extracted
            obtain ⟨few, smaller⟩ := ih _ (size ▸ shorter) _ _ deeper rfl
            exact ⟨by rw [length_cons]; omega, by omega⟩

variable {client : UpstreamClient}

theorem processTelnet_length (src : Bytes) (fits : client.buffer.length ≤ recvBufferSize) :
    (processTelnet client src).buffer.length ≤ recvBufferSize := by
  induction src generalizing client with
  | nil => exact fits
  | cons c src ih =>
    apply ih
    simp only [UpstreamClient.telnetByte]
    split_ifs with room
    · have one : (telnetStep client.telnet c).2.toList.length ≤ 1 := by
        cases (telnetStep client.telnet c).2 <;> simp
      rw [length_append]
      omega
    · exact fits

/-- One read hands on at most as many lines as one call may, and leaves the buffer below its mark. -/
theorem readChunk_bounds (piece : Bytes) (below : client.buffer.length ≤ recvBufferSize - recvChunkSize) :
    (readChunk client piece).2.length ≤ maxExtractedLines ∧
      (readChunk client piece).1.buffer.length ≤ recvBufferSize - recvChunkSize := by
  rw [readChunk]
  split_ifs with idle
  · exact ⟨Nat.zero_le _, below⟩
  · have full := processTelnet_length piece (below.trans (Nat.sub_le _ _))
    have trimmed : (dropOldest (processTelnet client piece).buffer).length ≤ recvBufferSize - recvChunkSize := by
      rw [dropOldest]
      split_ifs with nearly
      · rw [length_drop]
        simp only [recvBufferSize, recvChunkSize, messageLimit] at *
        omega
      · exact Nat.le_of_not_lt nearly
    simp only [extractLines]
    split
    next handed rest extracted =>
      obtain ⟨few, smaller⟩ := extractLoop_bounds _ _ extracted
      exact ⟨few, smaller.trans trimmed⟩
    next lockout extracted => exact ⟨Nat.zero_le _, Nat.zero_le _⟩

/-- A run hands on at most as many lines as its calls may. -/
theorem readAll_bounds (pieces : List Bytes) (below : client.buffer.length ≤ recvBufferSize - recvChunkSize) :
    (readAll client pieces).2.length ≤ maxExtractedLines * pieces.length ∧
      (readAll client pieces).1.buffer.length ≤ recvBufferSize - recvChunkSize := by
  induction pieces generalizing client with
  | nil => exact ⟨Nat.zero_le _, below⟩
  | cons piece pieces ih =>
    obtain ⟨few, below'⟩ := readChunk_bounds piece below
    obtain ⟨fewMore, below''⟩ := ih below'
    refine ⟨?_, below''⟩
    rw [readAll, length_append, length_cons, Nat.mul_succ]
    omega

def letters (count : Nat) : Bytes := (replicate count (str "a\n")).flatten

theorem letters_succ (count : Nat) : letters (count + 1) = str "a\n" ++ letters count := by
  rfl

theorem letters_flatten (pieces count : Nat) :
    (replicate pieces (letters count)).flatten = letters (pieces * count) := by
  induction pieces with
  | zero => rw [zero_mul]; rfl
  | succ pieces ih =>
    rw [replicate_succ, flatten_cons, ih, letters, letters, letters, ← flatten_append,
      replicate_append_replicate, Nat.succ_mul, add_comm]

theorem mem_letters {c : UInt8} {count : Nat} (listed : c ∈ letters count) : c ∈ str "a\n" := by
  obtain ⟨line, repeated, inside⟩ := mem_flatten.mp listed
  rwa [eq_of_mem_replicate repeated] at inside

theorem wireLines_letters (count : Nat) : (wireLines (letters count)).1 = replicate count (str "a", .lf) := by
  induction count with
  | zero => exact congrArg Prod.fst (scan_none rfl)
  | succ count ih =>
    have found : nextLine 13 10 (letters (count + 1)) = some (str "a", .lf, letters count) := by
      rfl
    rw [wireLines, scan_some found, replicate_succ, ← ih]

/-- More short lines than the buffer has room for are lost. -/
theorem not_linesKept_letters {pieces count : Nat}
    (many : maxExtractedLines * pieces + (recvBufferSize - recvChunkSize) < pieces * count) (userMode : Bool) :
    ¬ LinesKept userMode (replicate pieces (letters count)) := by
  rintro ⟨done, handed, lines, -⟩
  have text : telnetText .data (replicate pieces (letters count)).flatten = letters (pieces * count) := by
    rw [letters_flatten]
    exact (telnetText_plain fun command => absurd (mem_letters command) (by decide)).1
  rw [text, wireLines_letters] at lines
  have repeated : done = replicate done.length (str "a", .lf) := by
    apply eq_replicate_of_mem
    intro line listed
    exact eq_of_mem_replicate (lines ▸ mem_append_left _ listed)
  have sent : handedText (str "a", .lf) = some (str "a") := by decide +kernel
  have below : (freshClient userMode).buffer.length ≤ recvBufferSize - recvChunkSize := Nat.zero_le _
  obtain ⟨few, left⟩ := readAll_bounds (replicate pieces (letters count)) below
  rw [handed, repeated, filterMap_replicate_of_some sent, length_replicate, length_replicate] at few
  have stored := scan_length (13 : UInt8) 10
    (readAll (freshClient userMode) (replicate pieces (letters count))).1.buffer
  have total := congrArg length lines
  rw [length_replicate, length_append, wireLines] at total
  omega

/-- Eight full reads of lines of one letter lose lines. -/
theorem letters_lost :
    (∀ piece ∈ replicate 8 (letters 2048), piece.length ≤ recvChunkSize) ∧
      0 ∉ telnetText .data (replicate 8 (letters 2048)).flatten ∧
      (∀ line ∈ (wireLines (telnetText .data (replicate 8 (letters 2048)).flatten)).1,
        line.1.length < messageLimit ∧ hangsUp (normalizeLine line.1) = false) ∧
      ¬ LinesKept false (replicate 8 (letters 2048)) := by
  have text : telnetText .data (replicate 8 (letters 2048)).flatten = letters (8 * 2048) := by
    rw [letters_flatten]
    exact (telnetText_plain fun command => absurd (mem_letters command) (by decide)).1
  rw [text, wireLines_letters]
  refine ⟨?_, ?_, ?_, not_linesKept_letters (by decide) false⟩
  · intro piece listed
    rw [eq_of_mem_replicate listed, letters, length_flatten, map_replicate, sum_replicate]
    decide
  · exact fun zero => absurd (mem_letters zero) (by decide)
  · intro line listed
    rw [eq_of_mem_replicate listed]
    decide +kernel

end Loss

end SshChatter.Ddial
