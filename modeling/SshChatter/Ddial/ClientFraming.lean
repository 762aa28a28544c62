import SshChatter.Ddial.ClientBuffer

namespace SshChatter.Ddial
open CString DdialProtocol LineScan List

abbrev wireLines (text : Bytes) : List (Bytes × Terminator) × Bytes := scan 13 10 text

def handedText (line : Bytes × Terminator) : Option Bytes :=
  if normalizeLine line.1 = [] then none else some (handedOn line.1)

/-- A complete line that the extractor can take as a whole: it fits, it is a C text, and it is no hang-up notice. -/
structure PlainLine (line : Bytes) : Prop where
  short : line.length < messageLimit
  noNul : 0 ∉ line
  quiet : hangsUp (normalizeLine line) = false

theorem normalizeLine_nil : normalizeLine [] = [] := by
  rw [normalizeLine, sanitizeLine]
  exact if_pos rfl

/-- The extractor finds the first line of an ordered buffer. -/
theorem findEol_some {buf line rest : Bytes} {ending : Terminator}
    (found : nextLine 13 10 buf = some (line, ending, rest)) (ordered : Ordered 13 10 buf) :
    findEol buf = some (line.length, (ending.bytes (13 : UInt8) 10).length) := by
  obtain ⟨parts, noReturn, noFeed, -⟩ := nextLine_some found
  have distinct : (13 : UInt8) ≠ 10 := by decide
  cases ending with
  | crlf =>
    have hit : strstr crlf buf = some (line, crlf ++ rest) := by
      rw [parts]
      exact (strstr_skip noReturn _).trans (by rw [Terminator.bytes]; simp [crlf, strstr])
    rw [findEol, hit]
    rfl
  | lf =>
    have miss : strstr crlf buf = none := by
      rw [← Option.not_isSome_iff_eq_none, strstr_isSome]
      exact ordered.no_pair distinct found (by simp)
    have hit : strchr 10 buf = some (line, rest) := by
      rw [parts]
      exact strchr_append noFeed rest
    rw [findEol, miss, hit]
    rfl
  | cr =>
    have miss : strstr crlf buf = none := by
      rw [← Option.not_isSome_iff_eq_none, strstr_isSome]
      exact ordered.no_pair distinct found (by simp)
    have noFeeds : strchr 10 buf = none := by
      rw [← Option.not_isSome_iff_eq_none, strchr_isSome]
      exact ordered.no_feed distinct found
    have hit : strchr 13 buf = some (line, rest) := by
      rw [parts]
      exact strchr_append noReturn rest
    have open' : ¬ buf.getLast? = some 13 := by
      intro ends
      apply ordered.2 ends (line, .cr) _ rfl
      rw [scan_some found]
      exact mem_cons_self
    rw [findEol, miss, noFeeds]
    simp only [if_neg open', hit]
    rfl

/-- The extractor finds nothing in a buffer without a line. -/
theorem findEol_none {buf : Bytes} (absent : nextLine 13 10 buf = none) : findEol buf = none := by
  obtain ⟨noFeed, noReturn⟩ := nextLine_none absent
  have miss : strstr crlf buf = none := by
    rw [← Option.not_isSome_iff_eq_none, strstr_isSome]
    intro pair
    exact noFeed (pair.subset (by decide))
  have noFeeds : strchr 10 buf = none := by
    rw [← Option.not_isSome_iff_eq_none, strchr_isSome]
    exact noFeed
  rw [findEol, miss, noFeeds]
  by_cases ends : buf.getLast? = some 13
  · exact if_pos ends
  · have noReturns : strchr 13 buf = none := by
      rw [← Option.not_isSome_iff_eq_none, strchr_isSome]
      exact noReturn ends
    simp only [if_neg ends, noReturns]
    rfl

theorem lineText_plain {line : Bytes} (noReturn : 13 ∉ line) (noNul : 0 ∉ line) : lineText line = line := by
  have open' : ¬ line.getLast? = some 13 := fun ends => noReturn (mem_of_getLast? ends)
  rw [lineText, if_neg open', takeWhile_eq_self_iff]
  intro c listed
  exact decide_eq_true fun zero => noNul (zero ▸ listed)

section Step

theorem extractLoop_zero (buf : Bytes) : extractLoop 0 buf = .lines [] buf := by
  rw [extractLoop, if_pos rfl]

theorem extractLoop_none {buf : Bytes} (absent : findEol buf = none) (left : Nat) :
    extractLoop left buf = .lines [] buf := by
  rw [extractLoop]
  split_ifs
  · rfl
  · split
    next => rfl
    next position size found => rw [absent] at found; cases found

theorem extractLoop_line {buf line rest : Bytes} {ending : Terminator} {left : Nat} (some' : left ≠ 0)
    (found : nextLine 13 10 buf = some (line, ending, rest)) (ordered : Ordered 13 10 buf)
    (short : line.length < messageLimit) (noNul : 0 ∉ line) :
    extractLoop left buf =
      if normalizeLine line = [] then extractLoop left rest
      else if hangsUp (normalizeLine line) then .hungUp (lineLooksLikeLockout (normalizeLine line))
      else (extractLoop (left - 1) rest).push (handedOn line) := by
  obtain ⟨parts, noReturn, -⟩ := nextLine_some found
  have position : min line.length (messageLimit - 1) = line.length := min_eq_left (Nat.le_pred_of_lt short)
  have taken : lineText (buf.take line.length) = line := by
    rw [parts, take_left]
    exact lineText_plain noReturn noNul
  have left' : buf.drop (line.length + (ending.bytes (13 : UInt8) 10).length) = rest := by
    rw [parts, ← append_assoc, ← length_append, drop_left]
  have blank : (line = [] ∨ normalizeLine line = []) ↔ normalizeLine line = [] := by
    constructor
    · rintro (rfl | empty)
      · exact normalizeLine_nil
      · exact empty
    · exact Or.inr
  rw [extractLoop, if_neg some']
  split
  next absent => rw [findEol_some found ordered] at absent; cases absent
  next place size hit =>
    rw [findEol_some found ordered] at hit
    obtain ⟨rfl, rfl⟩ := hit
    simp only [position, taken, left', blank]

/-- The extractor takes the first lines of an ordered buffer, and all of them when there are no more than it may
take. -/
theorem extractLoop_plain {buf : Bytes} (ordered : Ordered 13 10 buf)
    (plain : ∀ line ∈ (wireLines buf).1, PlainLine line.1) (left : Nat) :
    ∃ done rest, extractLoop left buf = .lines (done.filterMap handedText) rest ∧
      (wireLines buf).1 = done ++ (wireLines rest).1 ∧ (wireLines buf).2 = (wireLines rest).2 ∧
      ((wireLines buf).1.length ≤ left → (wireLines rest).1 = []) := by
  induction buf using lineInduction (13 : UInt8) 10 generalizing left with
  | last buf absent =>
    refine ⟨[], buf, extractLoop_none (findEol_none absent) left, rfl, rfl, ?_⟩
    intro
    rw [wireLines, scan_none absent]
  | line buf line ending rest found ih =>
    have first : wireLines buf = ((line, ending) :: (wireLines rest).1, (wireLines rest).2) := scan_some found
    rw [first] at plain ⊢
    by_cases stop : left = 0
    · refine ⟨[], buf, stop ▸ extractLoop_zero buf, (congrArg Prod.fst first).symm, (congrArg Prod.snd first).symm, ?_⟩
      intro few
      rw [stop] at few
      exact absurd few (Nat.not_succ_le_zero _)
    · have rest_ordered := ordered.rest found
      have rest_plain := fun other listed => plain other (mem_cons_of_mem _ listed)
      have first_plain := plain _ mem_cons_self
      have pass := extractLoop_line stop found ordered first_plain.short first_plain.noNul
      rw [first_plain.quiet] at pass
      by_cases blank : normalizeLine line = []
      · obtain ⟨done, after, extracted, lines, last, all⟩ := ih rest_ordered rest_plain left
        have unsent : handedText (line, ending) = none := if_pos blank
        refine ⟨(line, ending) :: done, after, ?_, congrArg _ lines, last, fun few => all (Nat.le_of_succ_le few)⟩
        rw [pass, if_pos blank, extracted, filterMap_cons_none unsent]
      · obtain ⟨done, after, extracted, lines, last, all⟩ := ih rest_ordered rest_plain (left - 1)
        have sent : handedText (line, ending) = some (handedOn line) := if_neg blank
        refine ⟨(line, ending) :: done, after, ?_, congrArg _ lines, last, fun few => all (Nat.le_pred_of_lt few)⟩
        rw [pass, if_neg blank, extracted, filterMap_cons_some sent]
        rfl

def bufferAfter (client : UpstreamClient) (piece : Bytes) : Bytes := client.buffer ++ telnetText client.telnet piece

variable {client : UpstreamClient}

/-- The parser keeps all text while the buffer has room. -/
theorem processTelnet_fits {src : Bytes} (fits : (bufferAfter client src).length ≤ recvBufferSize) :
    processTelnet client src =
      { client with telnet := telnetState client.telnet src, buffer := bufferAfter client src } := by
  induction src generalizing client with
  | nil => rw [bufferAfter, telnetText, append_nil]; rfl
  | cons c src ih =>
    rw [bufferAfter, telnetText, ← append_assoc] at fits
    have step : client.telnetByte c =
        { client with
          telnet := (telnetStep client.telnet c).1
          buffer := client.buffer ++ (telnetStep client.telnet c).2.toList } := by
      rw [UpstreamClient.telnetByte]
      split_ifs with room
      · rfl
      · have none' : (telnetStep client.telnet c).2.toList = [] := by
          apply eq_nil_of_length_eq_zero
          simp only [length_append] at fits
          omega
        rw [none', append_nil]
    rw [processTelnet, foldl_cons, step]
    refine (ih ?_).trans ?_
    · exact fits
    · rw [bufferAfter, append_assoc]
      rfl

/-- A read keeps the buffer below the mark where its oldest half is dropped. -/
def BufferFits (client : UpstreamClient) (piece : Bytes) : Prop :=
  (bufferAfter client piece).length ≤ recvBufferSize - recvChunkSize

def InOrder (client : UpstreamClient) (piece : Bytes) : Prop := Ordered 13 10 (bufferAfter client piece)

def FewLines (client : UpstreamClient) (piece : Bytes) : Prop :=
  (wireLines (bufferAfter client piece)).1.length ≤ maxExtractedLines

instance decidableBufferFits (client : UpstreamClient) (piece : Bytes) : Decidable (BufferFits client piece) :=
  inferInstanceAs (Decidable (_ ≤ _))

instance decidableInOrder (client : UpstreamClient) (piece : Bytes) : Decidable (InOrder client piece) :=
  inferInstanceAs (Decidable (Ordered _ _ _))

instance decidableFewLines (client : UpstreamClient) (piece : Bytes) : Decidable (FewLines client piece) :=
  inferInstanceAs (Decidable (_ ≤ _))

theorem readChunk_plain {piece : Bytes} (connected : client.connected) (fits : BufferFits client piece)
    (ordered : InOrder client piece) (plain : ∀ line ∈ (wireLines (bufferAfter client piece)).1, PlainLine line.1) :
    ∃ done rest, readChunk client piece =
        ({ client with telnet := telnetState client.telnet piece, buffer := rest }, done.filterMap handedText) ∧
      (wireLines (bufferAfter client piece)).1 = done ++ (wireLines rest).1 ∧
      (wireLines (bufferAfter client piece)).2 = (wireLines rest).2 ∧
      (FewLines client piece → (wireLines client.buffer).1 = [] → (wireLines rest).1 = []) := by
  by_cases empty : piece = []
  · subst empty
    have same : bufferAfter client [] = client.buffer := append_nil _
    refine ⟨[], client.buffer, ?_, congrArg _ (congrArg _ same), congrArg _ (congrArg _ same), fun _ none' => none'⟩
    rw [readChunk, if_pos (Or.inr rfl)]
    rfl
  · obtain ⟨done, rest, extracted, lines, last, all⟩ := extractLoop_plain ordered plain maxExtractedLines
    refine ⟨done, rest, ?_, lines, last, fun few _ => all few⟩
    have room : (bufferAfter client piece).length ≤ recvBufferSize := fits.trans (Nat.sub_le _ _)
    have kept : dropOldest (bufferAfter client piece) = bufferAfter client piece := if_neg (Nat.not_lt_of_le fits)
    have reads : ¬ (client.connected = false ∨ piece = []) := by simp [connected, empty]
    rw [readChunk, if_neg reads, processTelnet_fits room]
    simp only [kept, extractLines, extracted]

end Step

section Run

variable {pieces : List Bytes} {client : UpstreamClient}

/-- In a run that fits and keeps the order, the lines of the whole text are those that were handed on before, those
that the run hands on, and those in the buffer. -/
theorem readAll_plain {seen : Bytes} {done : List (Bytes × Terminator)} (connected : client.connected)
    (lines : (wireLines seen).1 = done ++ (wireLines client.buffer).1)
    (last : (wireLines seen).2 = (wireLines client.buffer).2)
    (plain : ∀ line ∈ (wireLines (seen ++ telnetText client.telnet pieces.flatten)).1, PlainLine line.1)
    (fits : EachRead BufferFits client pieces) (ordered : EachRead InOrder client pieces) :
    ∃ more, (readAll client pieces).2 = more.filterMap handedText ∧
      (wireLines (seen ++ telnetText client.telnet pieces.flatten)).1 =
        done ++ more ++ (wireLines (readAll client pieces).1.buffer).1 ∧
      (wireLines (seen ++ telnetText client.telnet pieces.flatten)).2 =
        (wireLines (readAll client pieces).1.buffer).2 ∧
      (EachRead FewLines client pieces → (wireLines client.buffer).1 = [] →
        (wireLines (readAll client pieces).1.buffer).1 = []) := by
  induction pieces generalizing client seen done with
  | nil =>
    refine ⟨[], rfl, ?_, ?_, fun _ none' => none'⟩
    · rw [flatten_nil, telnetText, append_nil, append_nil, lines]
      rfl
    · rw [flatten_nil, telnetText, append_nil, last]
      rfl
  | cons piece pieces ih =>
    -- The lines of what was seen, with the new text, are those handed on and those of the buffer with the new text.
    have joined : wireLines (seen ++ telnetText client.telnet piece) =
        (done ++ (wireLines (bufferAfter client piece)).1, (wireLines (bufferAfter client piece)).2) := by
      rw [wireLines, scan_append, bufferAfter, wireLines, scan_append client.buffer]
      rw [lines, last, append_assoc]
    have whole : seen ++ telnetText client.telnet (piece :: pieces).flatten =
        seen ++ telnetText client.telnet piece ++ telnetText (telnetState client.telnet piece) pieces.flatten := by
      rw [flatten_cons, telnetText_append, append_assoc]
    have piece_plain : ∀ line ∈ (wireLines (bufferAfter client piece)).1, PlainLine line.1 := by
      intro line listed
      apply plain line
      rw [whole, wireLines, scan_append]
      apply mem_append_left
      rw [show (scan 13 10 (seen ++ telnetText client.telnet piece)).1 = _ from congrArg Prod.fst joined]
      exact mem_append_right _ listed
    obtain ⟨taken, rest, read, split, behind, drained⟩ := readChunk_plain connected fits.1 ordered.1 piece_plain
    have fits' := fits.2
    have ordered' := ordered.2
    rw [read] at fits' ordered'
    have seen_lines : (wireLines (seen ++ telnetText client.telnet piece)).1 = done ++ taken ++ (wireLines rest).1 := by
      rw [joined, split, append_assoc]
    have seen_last : (wireLines (seen ++ telnetText client.telnet piece)).2 = (wireLines rest).2 := by
      rw [joined, behind]
    rw [whole] at plain ⊢
    have connected' : ({ client with telnet := telnetState client.telnet piece, buffer := rest } :
        UpstreamClient).connected := connected
    obtain ⟨more, handed, all, unfinished, empty⟩ :=
      ih connected' seen_lines seen_last plain fits' ordered'
    refine ⟨taken ++ more, ?_, ?_, ?_, ?_⟩
    · rw [readAll, read, handed, filterMap_append]
    · rw [readAll, read, all, append_assoc, append_assoc, append_assoc, append_assoc]
    · rw [readAll, read, unfinished]
    · intro few none'
      have few' := few.2
      rw [read] at few'
      rw [readAll, read]
      exact empty few' (drained few.1 none')

/-- The reads of a connection from its start. -/
theorem readAll_fresh (userMode : Bool)
    (plain : ∀ line ∈ (wireLines (telnetText .data pieces.flatten)).1, PlainLine line.1)
    (fits : EachRead BufferFits (freshClient userMode) pieces)
    (ordered : EachRead InOrder (freshClient userMode) pieces) :
    ∃ done, (readAll (freshClient userMode) pieces).2 = done.filterMap handedText ∧
      (wireLines (telnetText .data pieces.flatten)).1 =
        done ++ (wireLines (readAll (freshClient userMode) pieces).1.buffer).1 ∧
      (wireLines (telnetText .data pieces.flatten)).2 =
        (wireLines (readAll (freshClient userMode) pieces).1.buffer).2 ∧
      (EachRead FewLines (freshClient userMode) pieces →
        (wireLines (readAll (freshClient userMode) pieces).1.buffer).1 = []) := by
  have start : (wireLines []).1 = [] := congrArg Prod.fst (scan_none rfl)
  have begin : (wireLines []).1 = [] ++ (wireLines (freshClient userMode).buffer).1 := rfl
  obtain ⟨done, handed, lines, last, drained⟩ := readAll_plain rfl begin rfl plain fits ordered
  exact ⟨done, handed, lines, last, fun few => drained few start⟩

theorem EachRead.mono {condition condition' : UpstreamClient → Bytes → Prop}
    (weaker : ∀ client piece, condition client piece → condition' client piece)
    (met : EachRead condition client pieces) : EachRead condition' client pieces := by
  induction pieces generalizing client with
  | nil => trivial
  | cons piece pieces ih => exact ⟨weaker _ _ met.1, ih met.2⟩

def WithinLimits (client : UpstreamClient) (piece : Bytes) : Prop :=
  piece.length ≤ recvChunkSize ∧ BufferFits client piece ∧ FewLines client piece

instance decidableWithinLimits (client : UpstreamClient) (piece : Bytes) : Decidable (WithinLimits client piece) :=
  inferInstanceAs (Decidable (_ ∧ _))

theorem readAll_lines {stream : Bytes} (cut : pieces.flatten = stream) (userMode : Bool) (noCommand : 0xFF ∉ stream)
    (plain : ∀ line ∈ (wireLines stream).1, PlainLine line.1)
    (limits : EachRead WithinLimits (freshClient userMode) pieces)
    (ordered : EachRead InOrder (freshClient userMode) pieces) :
    (readAll (freshClient userMode) pieces).2 = (wireLines stream).1.filterMap handedText := by
  have text : telnetText .data pieces.flatten = stream := by
    rw [cut]
    exact (telnetText_plain noCommand).1
  rw [← text] at plain ⊢
  obtain ⟨done, handed, lines, -, drained⟩ :=
    readAll_fresh userMode plain (limits.mono fun _ _ limit => limit.2.1) ordered
  rw [handed, lines, drained (limits.mono fun _ _ limit => limit.2.2), append_nil]

/-- Two cuttings of a stream hand on the same lines, one for each line that is not blank, when both are within the
limits and at each read the terminators in the buffer come in the order in which the extractor looks for them. -/
theorem framing_of_cuttings {stream : Bytes} {pieces pieces' : List Bytes} (cut : pieces.flatten = stream)
    (cut' : pieces'.flatten = stream) (userMode : Bool) (noNul : 0 ∉ stream) (noCommand : 0xFF ∉ stream)
    (short : ∀ line ∈ (wireLines stream).1, line.1.length < messageLimit)
    (quiet : ∀ line ∈ (wireLines stream).1, hangsUp (normalizeLine line.1) = false)
    (limits : EachRead WithinLimits (freshClient userMode) pieces)
    (limits' : EachRead WithinLimits (freshClient userMode) pieces')
    (ordered : EachRead InOrder (freshClient userMode) pieces)
    (ordered' : EachRead InOrder (freshClient userMode) pieces') :
    (readAll (freshClient userMode) pieces).2 = (wireLines stream).1.filterMap handedText ∧
      (readAll (freshClient userMode) pieces').2 = (readAll (freshClient userMode) pieces).2 := by
  have plain : ∀ line ∈ (wireLines stream).1, PlainLine line.1 := by
    intro line listed
    exact ⟨short line listed, fun zero => noNul (scan_subset listed zero), quiet line listed⟩
  have lines := readAll_lines cut userMode noCommand plain limits ordered
  have lines' := readAll_lines cut' userMode noCommand plain limits' ordered'
  exact ⟨lines, lines'.trans lines.symm⟩

/-- A stream with two lines, and it in one read and in three. -/
def greeting : { cuttings : List Bytes × List Bytes // EachRead WithinLimits (freshClient false) cuttings.1 ∧
    EachRead WithinLimits (freshClient false) cuttings.2 ∧ EachRead InOrder (freshClient false) cuttings.1 ∧
    EachRead InOrder (freshClient false) cuttings.2 } :=
  ⟨([str "hi\r\nyo\n"], [str "hi\r", str "\ny", str "o\n"]), by decide +kernel⟩

theorem framing_of_cuttings_greeting :
    (readAll (freshClient false) [str "hi\r\nyo\n"]).2 = [str "hi", str "yo"] ∧
      (readAll (freshClient false) [str "hi\r", str "\ny", str "o\n"]).2 =
        (readAll (freshClient false) [str "hi\r\nyo\n"]).2 := by
  have lines : (wireLines (str "hi\r\nyo\n")).1.filterMap handedText = [str "hi", str "yo"] ∧
      ∀ line ∈ (wireLines (str "hi\r\nyo\n")).1, hangsUp (normalizeLine line.1) = false := by decide +kernel
  rw [← lines.1]
  exact framing_of_cuttings rfl (by decide) false (by decide) (by decide) (by decide +kernel) lines.2
    greeting.2.1 greeting.2.2.1 greeting.2.2.2.1 greeting.2.2.2.2

/-- A line that ends with a feed joins the next one when a CR LF is already in the buffer. -/
theorem framing_later_crlf :
    [str "a\nb\r\n"].flatten = [str "a\n", str "b\r\n"].flatten ∧ 0 ∉ str "a\nb\r\n" ∧ 0xFF ∉ str "a\nb\r\n" ∧
      (∀ line ∈ (wireLines (str "a\nb\r\n")).1, line.1.length < messageLimit) ∧
      (∀ line ∈ (wireLines (str "a\nb\r\n")).1, hangsUp (normalizeLine line.1) = false) ∧
      EachRead WithinLimits (freshClient false) [str "a\nb\r\n"] ∧
      EachRead WithinLimits (freshClient false) [str "a\n", str "b\r\n"] ∧
      (readAll (freshClient false) [str "a\nb\r\n"]).2 = [str "a\nb"] ∧
      (readAll (freshClient false) [str "a\n", str "b\r\n"]).2 = [str "a", str "b"] := by
  refine ⟨by decide, by decide, by decide, ?_, ?_, ?_, ?_, ?_, ?_⟩
  all_goals decide +kernel

end Run

end SshChatter.Ddial
