import SshChatter.Lib.LineStream
import SshChatter.Sync.History

namespace SshChatter.SyncReader
open CString LineStream SyncHistory List

def isBlank (c : UInt8) : Bool := c = byte ' ' ∨ c = byte '\t' ∨ c = byte '\r'

/-- The blanks at the start go first, then those at the end. -/
def trim (line : Bytes) : Bytes := (line.dropWhile isBlank).rdropWhile isBlank

def lineMessage (line : Bytes) : Option (Bytes × Bytes) :=
  if trim line = [] then none
  else (strstr (str ": ") (trim line)).map fun found => (found.1, found.2.drop 2)

/-- The settings that the reader consults, and the times that `time` returns for the messages. -/
structure Environment where
  callbackSet : Bool
  syncInEnabled : Bool
  clock : Nat → Int

/-- The reader writes to the history and hands the messages to the callback. -/
structure Reader where
  history : History
  delivered : List ChatMessage

inductive ReadResult where
  | failed
  | endOfFile
  | data (bytes : Bytes)

/-- A message enters the history before the callback sees it. -/
def deliver (env : Environment) (reader : Reader) (text : Bytes × Bytes) : Reader :=
  let msg : ChatMessage := ⟨text.1, text.2, env.clock reader.delivered.length⟩
  ⟨addMessageToHistory reader.history msg, reader.delivered ++ [msg]⟩

def readLine (env : Environment) (reader : Reader) (line : Bytes) : Reader :=
  match lineMessage line with
  | some text => if env.callbackSet ∧ env.syncInEnabled then deliver env reader text else reader
  | none => reader

/-- The buffer is a C string, so it ends at the first NUL. What follows its last newline is dropped. -/
def readBuffer (env : Environment) (reader : Reader) (buffer : Bytes) : Reader :=
  (splitLines (byte '\n') (buffer.takeWhile (· ≠ 0))).1.foldl (readLine env) reader

/-- This is the loop of `read_channel_thread`. It also tells whether to reconnect. -/
def readChannelThread (env : Environment) : Reader → List ReadResult → Reader × Bool
  | reader, [] => (reader, false)
  | reader, .failed :: _ => (reader, true)
  | reader, .endOfFile :: _ => (reader, true)
  | reader, .data bytes :: reads => readChannelThread env (readBuffer env reader bytes) reads

def messagePair (msg : ChatMessage) : Bytes × Bytes := (msg.username, msg.messageBody)

/-- A stream arrives in non-empty reads that fit in the buffer. -/
structure Reads (stream : Bytes) where
  chunks : List Bytes
  sized : ∀ chunk ∈ chunks, chunk ≠ [] ∧ chunk.length ≤ 255
  joined : chunks.flatten = stream

def callbackPairs (env : Environment) (history : History) {stream : Bytes} (reads : Reads stream) :
    List (Bytes × Bytes) :=
  (readChannelThread env ⟨history, []⟩ (reads.chunks.map .data)).1.delivered.map messagePair

def streamPairs (stream : Bytes) : List (Bytes × Bytes) :=
  (splitLines (byte '\n') stream).1.filterMap lineMessage

/-- No read ends inside a line that carries a message, except in its leading blanks. -/
def Unbroken {stream : Bytes} (reads : Reads stream) : Prop :=
  ∀ piece ∈ linePieces (byte '\n') [] reads.chunks,
    str ": " <:+: trim (piece.1 ++ piece.2) → ∀ c ∈ piece.1, isBlank c

theorem trim_append_blank {early : Bytes} (blank : ∀ c ∈ early, isBlank c) (last : Bytes) :
    trim (early ++ last) = trim last := by
  rw [trim, dropWhile_append_of_pos blank, trim]

/-- The trimmed end of a text keeps what is in front of it. -/
theorem rdropWhile_append {last : Bytes} (visible : last.rdropWhile isBlank ≠ []) (early : Bytes) :
    (early ++ last).rdropWhile isBlank = early ++ last.rdropWhile isBlank := by
  rw [rdropWhile, reverse_append, dropWhile_append, if_neg, reverse_append,
    reverse_reverse, rdropWhile]
  rw [rdropWhile, ne_eq, reverse_eq_nil_iff] at visible
  rw [List.isEmpty_iff]
  exact visible

theorem trim_append_visible {early last : Bytes} (before : early.dropWhile isBlank ≠ [])
    (visible : trim last ≠ []) :
    trim (early ++ last) = early.dropWhile isBlank ++ last.takeWhile isBlank ++ trim last := by
  have inner : last.rdropWhile isBlank = last.takeWhile isBlank ++ trim last := by
    conv_lhs => rw [← takeWhile_append_dropWhile (p := isBlank) (l := last)]
    exact rdropWhile_append visible _
  have front : (early ++ last).dropWhile isBlank = early.dropWhile isBlank ++ last := by
    rw [dropWhile_append, if_neg]
    rw [List.isEmpty_iff]
    exact before
  rw [trim, front, rdropWhile_append, inner, append_assoc]
  rw [inner]
  exact append_ne_nil_of_right_ne_nil _ visible

theorem trim_suffix (early last : Bytes) : trim last <:+ trim (early ++ last) := by
  by_cases visible : trim last = []
  · rw [visible]
    exact nil_suffix
  · by_cases before : early.dropWhile isBlank = []
    · rw [trim_append_blank (dropWhile_eq_nil_iff.mp before)]
    · rw [trim_append_visible before visible]
      exact suffix_append _ _

theorem lineMessage_isSome (line : Bytes) : (lineMessage line).isSome ↔ str ": " <:+: trim line := by
  unfold lineMessage
  split
  next blank =>
    rw [blank]
    simp [str]
  next => rw [Option.isSome_map, strstr_isSome]

theorem trim_of_lineMessage {line username body : Bytes} (carries : lineMessage line = some (username, body)) :
    trim line = username ++ (str ": " ++ body) := by
  unfold lineMessage at carries
  split at carries
  next => exact absurd carries (by simp)
  next =>
    obtain ⟨⟨before, found⟩, hit, same⟩ := Option.map_eq_some_iff.mp carries
    obtain ⟨rfl, rfl⟩ := Prod.mk.inj same
    obtain ⟨cut, rest, rfl⟩ := strstr_some hit
    rw [cut]
    rfl

theorem lineMessage_of_last (early last : Bytes) (carries : (lineMessage last).isSome) :
    (lineMessage (early ++ last)).isSome := by
  rw [lineMessage_isSome] at carries ⊢
  exact carries.trans (trim_suffix early last).isInfix

/-- The end of a line carries the message of the line exactly when it holds all of its visible text. -/
theorem lineMessage_last_iff (early last : Bytes) :
    lineMessage last = lineMessage (early ++ last) ↔
      (str ": " <:+: trim (early ++ last) → ∀ c ∈ early, isBlank c) := by
  constructor
  · intro same carries
    obtain ⟨⟨username, body⟩, message⟩ :=
      Option.isSome_iff_exists.mp ((lineMessage_isSome _).mpr carries)
    have text := trim_of_lineMessage message
    have text' := trim_of_lineMessage (same.trans message)
    have visible : trim last ≠ [] := by
      rw [text']
      simp [str]
    rw [← dropWhile_eq_nil_iff]
    by_contra before
    have longer := congrArg length (trim_append_visible before visible)
    have positive := length_pos_iff.mpr before
    rw [text, ← text', length_append, length_append] at longer
    omega
  · intro whole
    by_cases carries : str ": " <:+: trim (early ++ last)
    · unfold lineMessage
      rw [trim_append_blank (whole carries)]
    · have none : lineMessage (early ++ last) = none := by
        rw [← Option.not_isSome_iff_eq_none, lineMessage_isSome]
        exact carries
      have noneLast : lineMessage last = Option.none := by
        rw [← Option.not_isSome_iff_eq_none]
        intro carriesLast
        have carried := lineMessage_of_last early last carriesLast
        rw [none] at carried
        exact absurd carried (by simp)
      rw [none, noneLast]

section Thread

variable {env : Environment}

theorem readLine_pairs (callbackSet : env.callbackSet) (enabled : env.syncInEnabled)
    (reader : Reader) (line : Bytes) :
    (readLine env reader line).delivered.map messagePair =
      reader.delivered.map messagePair ++ (lineMessage line).toList := by
  unfold readLine
  split
  next text carries =>
    rw [if_pos ⟨callbackSet, enabled⟩, carries]
    simp [deliver, messagePair]
  next carries => simp [carries]

theorem readLines_pairs (callbackSet : env.callbackSet) (enabled : env.syncInEnabled)
    (reader : Reader) (lines : List Bytes) :
    (lines.foldl (readLine env) reader).delivered.map messagePair =
      reader.delivered.map messagePair ++ lines.filterMap lineMessage := by
  induction lines generalizing reader with
  | nil => simp
  | cons line lines ih =>
    rw [foldl_cons, ih, readLine_pairs callbackSet enabled]
    cases carries : lineMessage line <;> simp [carries]

theorem readChannelThread_pairs (callbackSet : env.callbackSet) (enabled : env.syncInEnabled)
    (reader : Reader) {chunks : List Bytes} (nulFree : 0 ∉ chunks.flatten) :
    (readChannelThread env reader (chunks.map .data)).1.delivered.map messagePair =
      reader.delivered.map messagePair ++
        (chunks.flatMap fun chunk => (splitLines (byte '\n') chunk).1).filterMap lineMessage := by
  induction chunks generalizing reader with
  | nil => simp [readChannelThread]
  | cons chunk chunks ih =>
    rw [flatten_cons, mem_append, not_or] at nulFree
    have text : chunk.takeWhile (· ≠ 0) = chunk := by
      rw [takeWhile_eq_self_iff]
      intro c member
      have different : c ≠ 0 := fun zero => nulFree.1 (zero ▸ member)
      simp [different]
    rw [map_cons, readChannelThread, ih _ nulFree.2, readBuffer, text,
      readLines_pairs callbackSet enabled, flatMap_cons, filterMap_append, append_assoc]

variable {stream : Bytes}

theorem callbackPairs_eq_iff (callbackSet : env.callbackSet) (enabled : env.syncInEnabled)
    (history : History) (nulFree : 0 ∉ stream) (reads : Reads stream) :
    callbackPairs env history reads = streamPairs stream ↔ Unbroken reads := by
  have lasts := linePieces_last (byte '\n') [] reads.chunks
  have lines := linePieces_joined (byte '\n') [] reads.chunks
  rw [reads.joined, glue_nil] at lines
  rw [callbackPairs, readChannelThread_pairs callbackSet enabled _ (by rw [reads.joined]; exact nulFree), ← lasts,
    streamPairs, ← lines, filterMap_map, filterMap_map, map_nil, nil_append,
    filterMap_eq_iff _ fun piece _ => lineMessage_of_last piece.1 piece.2]
  exact forall₂_congr fun piece _ => lineMessage_last_iff piece.1 piece.2

end Thread

/-- Two splits of a stream deliver the same pairs, one for each line that carries a message, exactly when
neither breaks such a line. -/
theorem reader_chunking_iff_unbroken {env : Environment} (callbackSet : env.callbackSet)
    (enabled : env.syncInEnabled) (history : History) {stream : Bytes} (nulFree : 0 ∉ stream)
    (reads reads' : Reads stream) :
    (callbackPairs env history reads = callbackPairs env history reads' ∧
        callbackPairs env history reads = streamPairs stream) ↔
      Unbroken reads ∧ Unbroken reads' := by
  rw [← callbackPairs_eq_iff callbackSet enabled history nulFree reads,
    ← callbackPairs_eq_iff callbackSet enabled history nulFree reads']
  refine ⟨fun ⟨same, whole⟩ => ⟨whole, same.symm.trans whole⟩, fun ⟨first, second⟩ => ?_⟩
  exact ⟨first.trans second.symm, first⟩

/-- The callback is set, the incoming sync is enabled and the time stands still. -/
def listening : Environment := ⟨true, true, fun _ => 0⟩

def wholeRead : Reads (str "alice: hi\n") := ⟨[str "alice: hi\n"], by decide, by decide⟩

/-- The same line arrives in two reads, and the first one ends inside the username. -/
def brokenReads : Reads (str "alice: hi\n") := ⟨[str "ali", str "ce: hi\n"], by decide, by decide⟩

theorem reader_chunking_iff_unbroken_whole :
    callbackPairs listening .empty wholeRead = streamPairs (str "alice: hi\n") :=
  ((reader_chunking_iff_unbroken rfl rfl .empty (by decide) wholeRead wholeRead).mpr
    ⟨by unfold Unbroken; decide +kernel, by unfold Unbroken; decide +kernel⟩).2

/-- A read that ends inside a line changes who the message comes from. -/
theorem reader_broken_line :
    ¬ ∀ (env : Environment) (history : History) (stream : Bytes) (reads reads' : Reads stream),
      env.callbackSet → env.syncInEnabled → 0 ∉ stream →
      callbackPairs env history reads = callbackPairs env history reads' ∧
        callbackPairs env history reads = streamPairs stream := by
  intro claim
  have same := (claim listening .empty _ brokenReads wholeRead rfl rfl (by decide)).2
  exact absurd same (by decide +kernel)

end SshChatter.SyncReader
