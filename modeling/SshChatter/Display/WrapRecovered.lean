import SshChatter.Display.WrapTrace
import SshChatter.Display.CursorSafety

namespace SshChatter.DisplayModel
open CString List

section Recovered

variable {width : UInt32} {cursor beyond : Bytes} {col : UInt32} {capacity : Nat}

/-- The terminator does not cut off the character at a cursor. -/
def WholeHere (cursor : Bytes) : Prop := ¬ Truncated cursor

def LineTrace.taken (line : LineTrace) : Bytes := line.chars.flatMap charBytes ++ if line.newline then [10] else []

theorem drop_memory (clean : 0 ∉ cursor) (present : cursor ≠ []) (whole : WholeHere cursor) :
    (cursor ++ 0 :: beyond).drop (utf8CharWidth (cursor ++ 0 :: beyond)).1 =
      cursor.drop (characterLength cursor) ++ 0 :: beyond := by
  have inside := (advance_le clean present).mpr whole
  rw [advance_memory present, drop_append_of_le_length inside, advance_eq clean present whole]

theorem lineTrace_memory (width : UInt32) (beyond : Bytes) (col : UInt32) (clean : 0 ∉ cursor)
    (along : Along WholeHere cursor) : ∃ stop, Along WholeHere stop ∧ stop <:+ cursor ∧
      (lineTrace width (cursor ++ 0 :: beyond) col).stop = stop ++ 0 :: beyond := by
  induction along generalizing col with
  | ended =>
    refine ⟨[], .ended, suffix_refl _, ?_⟩
    rw [lineTrace_stop (Or.inl rfl)]
  | @char cursor present holds rest ih =>
    rw [lineTrace]
    split_ifs with stop wraps wide
    · exact ⟨cursor, .char present holds rest, suffix_refl _, rfl⟩
    · exact ⟨cursor, .char present holds rest, suffix_refl _, rfl⟩
    · exact ⟨_, rest, drop_suffix _ _, drop_memory clean present holds⟩
    · obtain ⟨last, later, inside, same⟩ := ih _ (fun zero => clean (drop_subset _ _ zero))
      rw [drop_memory clean present holds, same]
      exact ⟨last, later, inside.trans (drop_suffix _ _), rfl⟩

/-- The lines and their newlines are the text. -/
theorem wrapTrace_taken (clean : 0 ∉ cursor) (along : Along WholeHere cursor)
    (finished : byteAt (wrapStop width capacity (cursor ++ 0 :: beyond)) 0 = 0) :
    (wrapTrace width capacity (cursor ++ 0 :: beyond)).flatMap LineTrace.taken = cursor := by
  induction capacity generalizing cursor with
  | zero =>
    rw [wrapStop, byteAt_first] at finished
    exact ((ended_iff clean).mp finished).symm
  | succ capacity ih =>
    rw [wrapStop, byteAt_first] at finished
    rw [wrapTrace, byteAt_first]
    split_ifs at finished ⊢ with ended
    · exact ((ended_iff clean).mp ended).symm
    · obtain ⟨stop, later, inside, same⟩ := lineTrace_memory width beyond 0 clean along
      have bytes := lineTrace_bytes width (cursor ++ 0 :: beyond) 0
      rw [same, ← append_assoc, append_left_inj] at bytes
      have newline : stop = (if (lineTrace width (cursor ++ 0 :: beyond) 0).newline then [10] else []) ++
        skipNewline stop := by
        unfold LineTrace.newline skipNewline
        rw [same, byteAt_first]
        by_cases ten : byteAt stop 0 = 10
        · cases stop with
          | nil => exact absurd ten (by decide)
          | cons c =>
            obtain rfl : c = 10 := ten
            rfl
        · rw [decide_eq_false ten, if_neg ten]
          rfl
      rw [same, skipNewline_memory] at finished
      rw [flatMap_cons, same, skipNewline_memory,
        ih (fun zero => clean (inside.subset ((skipNewline_suffix stop).subset zero))) later.skipNewline finished,
        LineTrace.taken, append_assoc, ← newline, bytes]

end Recovered

section Rejoin

variable {width : UInt32} {capacity : Nat} {text : Bytes}

def newlines (width : UInt32) (capacity : Nat) (memory : Bytes) : List Bool :=
  if byteAt memory 0 = 0 then [false] else (wrapTrace width capacity memory).map (·.newline)

def rejoin (lines : List Bytes) (newlines : List Bool) : Bytes :=
  (zipWith (fun line newline => line ++ if newline then [10] else []) lines newlines).flatten

/-- Wrapping loses nothing of a text of whole characters when no line fills up. -/
theorem wrap_recovered (clean : 0 ∉ text) (along : Along WholeHere text) (beyond : Bytes) (messageId : UInt64)
    (positive : 0 < width) (room : 0 < capacity)
      (finished : byteAt (wrapStop width capacity (text ++ 0 :: beyond)) 0 = 0)
    (short : ∀ line ∈ wrapTrace width capacity (text ++ 0 :: beyond),
      (line.chars.map fun c => (utf8CharWidth c).1).sum < displayLineTextMax - 1) :
    let lines := wrapLine (some (text ++ 0 :: beyond)) width messageId capacity
    lines.length = (newlines width capacity (text ++ 0 :: beyond)).length ∧
      rejoin (lines.map (·.text.text)) (newlines width capacity (text ++ 0 :: beyond)) = text ∧
      ∀ place line, lines[place]? = some line → line.messageId = messageId ∧
        line.sublineIndex = UInt16.ofNat place := by
  intro lines
  have texts := wrapLine_texts (text ++ 0 :: beyond) positive messageId room
  have count := congrArg length texts
  rw [length_map] at count
  refine ⟨?_, ?_, fun place line present => wrapLine_getElem _ _ _ _ place line present⟩
  · rw [count]
    unfold newlines
    split_ifs
    · rfl
    · rw [length_map, length_map]
  · change rejoin ((wrapLine _ _ _ _).map _) _ = _
    rw [texts, newlines, byteAt_first]
    split_ifs with ended
    · rw [(ended_iff clean).mp ended]
      rfl
    · have whole : ∀ line ∈ wrapTrace width capacity (text ++ 0 :: beyond), line.copied = line.chars := by
        intro line inside
        have fits := short line inside
        apply copiedChars_all
        change 0 + _ < _
        omega
      rw [rejoin, zipWith_map, zipWith_self]
      refine (flatMap_congr fun line inside => ?_).trans (wrapTrace_taken clean along finished)
      rw [whole line inside, LineTrace.taken]

end Rejoin

section Newlines

variable {width : UInt32} {beyond : Bytes}

theorem lineTrace_newline (rest : Bytes) (col : UInt32) : lineTrace width (10 :: rest) col = ⟨[], 10 :: rest⟩ :=
  lineTrace_stop (Or.inr rfl)

theorem byteAt_newline (rest : Bytes) : ¬ byteAt (10 :: rest) 0 = 0 :=
    fun ended => absurd (show (10 : UInt8) = 0 from ended) (by decide)

variable (count : Nat)

theorem wrapTrace_newlines :
    (wrapTrace width count (replicate count 10 ++ 0 :: beyond)).length = count ∧
      (∀ line ∈ wrapTrace width count (replicate count 10 ++ 0 :: beyond), line.chars = []) ∧
      wrapStop width count (replicate count 10 ++ 0 :: beyond) = 0 :: beyond := by
  induction count with
  | zero => exact ⟨rfl, fun _ inside => absurd inside not_mem_nil, rfl⟩
  | succ count ih =>
    obtain ⟨length, empty, stop⟩ := ih
    rw [replicate_succ, cons_append, wrapTrace, wrapStop]
    rw [lineTrace_newline]
    exact ⟨congrArg (· + 1) length, forall_mem_cons.mpr ⟨rfl, empty⟩, stop⟩

theorem newlines_clean : (0 : UInt8) ∉ replicate count (10 : UInt8) := by
  intro zero
  exact absurd (eq_of_mem_replicate zero) (by decide)

theorem newlines_short : ∀ line ∈ wrapTrace width count (replicate count 10 ++ 0 :: beyond),
    (line.chars.map fun c => (utf8CharWidth c).1).sum < displayLineTextMax - 1 := by
  intro line inside
  rw [(wrapTrace_newlines count).2.1 line inside]
  decide

/-- Two newlines are recovered from two empty lines. -/
theorem two_newlines_recovered :
    rejoin ((wrapLine (some [10, 10, 0]) 80 7 2).map (·.text.text)) (newlines 80 2 [10, 10, 0]) = [10, 10] := by
  have clean : (0 : UInt8) ∉ ([10, 10] : Bytes) := newlines_clean 2
  have along : Along WholeHere [10, 10] :=
    .char (by decide) (show ¬ Truncated [10, 10] by decide)
      (show Along WholeHere [10] from .char (by decide) (show ¬ Truncated [10] by decide) .ended)
  have finished : byteAt (wrapStop 80 2 [10, 10, 0]) 0 = 0 := congrArg (byteAt · 0) (wrapTrace_newlines 2).2.2
  have positive : (0 : UInt32) < 80 := by decide
  exact (wrap_recovered clean along [] 7 positive (by decide : 0 < 2) finished (newlines_short 2)).2.1

/-- The position of a line is a number of sixteen bits: the line behind 65536 newlines has the number zero. -/
theorem line_number_wraps : ¬ ∀ (text : Bytes) (width : UInt32) (messageId : UInt64) (capacity : Nat),
    0 ∉ text → 0 < width → 0 < capacity → byteAt (wrapStop width capacity (text ++ [0])) 0 = 0 →
    (∀ line ∈ wrapTrace width capacity (text ++ [0]),
      (line.chars.map fun c => (utf8CharWidth c).1).sum < displayLineTextMax - 1) →
    ∀ (place : Nat) (line : DisplayLine), (wrapLine (some (text ++ [0])) width messageId capacity)[place]? = some line →
      line.sublineIndex.toNat = place := by
  intro numbered
  have positive : (0 : UInt32) < 80 := by decide
  have room : 0 < 65537 := by decide
  have finished : byteAt (wrapStop 80 65537 (replicate 65537 10 ++ [0])) 0 = 0 :=
    congrArg (byteAt · 0) (wrapTrace_newlines 65537).2.2
  have texts := congrArg length (wrapLine_texts (replicate 65537 10 ++ [0]) positive 7 room)
  have inside : ¬ byteAt (replicate 65537 10 ++ [0]) 0 = 0 := byteAt_newline _
  rw [if_neg inside, length_map, length_map, (wrapTrace_newlines 65537).1] at texts
  have less : 65536 < (wrapLine (some (replicate 65537 10 ++ [0])) 80 7 65537).length := by omega
  have present := getElem?_eq_getElem less
  have index := (wrapLine_getElem _ _ _ _ _ _ present).2
  have place := numbered _ 80 7 65537 (newlines_clean 65537) positive room finished (newlines_short 65537) _ _ present
  rw [index] at place
  exact absurd place (by decide)

end Newlines

end SshChatter.DisplayModel
