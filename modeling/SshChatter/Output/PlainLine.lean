import SshChatter.Lib.CString
import SshChatter.Lib.LineStream
import SshChatter.Lib.Transducer

namespace SshChatter.Output
open CString LineStream Suppress List

def realtimeRecentLimit : Nat := 8

def realtimeClearInterval : Nat := 100

/-- The fields of `session_ctx_t` that the output of a line reads or writes. -/
structure OutputSession where
  transportActive : Bool
  disableOutputDedup : Bool
  lastOutputLine : Option (CBuffer 4096)
  captureRealtimeOutput : Bool
  displayModelInitialized : Bool
  historyScrollPosition : Nat
  bracketPasteActive : Bool
  realtimeRecentLines : List Bytes
  realtimeLineCount : Nat

/-- A line as it is handed on: as a caption, or as a line of its own. -/
inductive Shown where
  | caption (line : Bytes)
  | rendered (line : Bytes)
  deriving DecidableEq

/-- What the output of a line writes. A redraw clears the screen, shows recent lines again, and may paint the input
line. -/
inductive Written where
  | shown (line : Shown)
  | redraw (lines : List Shown) (inputLine : Bool)
  deriving DecidableEq

/-- A line as an array of `SSH_CHATTER_MESSAGE_LIMIT` bytes holds it. -/
def storedLine (line : Bytes) : Bytes := line.take 4095

/-- This is `kCaptionPrefix`. -/
def captionMark : Bytes := str "    ->"

def OutputSession.realtimeRecordLine (ctx : OutputSession) (line : Bytes) : OutputSession :=
  if ctx.captureRealtimeOutput = false ∨ 0 < ctx.historyScrollPosition then ctx
  else
    let recent := if ctx.realtimeRecentLines.length < realtimeRecentLimit then ctx.realtimeRecentLines
      else ctx.realtimeRecentLines.drop 1
    { ctx with
      realtimeRecentLines := recent ++ [storedLine line]
      realtimeLineCount := if ctx.realtimeLineCount < 2 ^ 64 - 1 then ctx.realtimeLineCount + 1 else
        ctx.realtimeLineCount }

def OutputSession.holdsBack (ctx : OutputSession) (message : Bytes) : Prop :=
  ctx.disableOutputDedup = false ∧ ctx.lastOutputLine.map CBuffer.text = some message

instance (ctx : OutputSession) (message : Bytes) : Decidable (ctx.holdsBack message) :=
    inferInstanceAs (Decidable (_ ∧ _))

def OutputSession.remember (ctx : OutputSession) (message : Bytes) : OutputSession :=
  { ctx with lastOutputLine := some (@CBuffer.print 4096 room4096 message) }

def redrawLine (drawn : OutputSession × List Shown) (message : Bytes) : OutputSession × List Shown :=
  if drawn.1.holdsBack message then drawn
  else
    (drawn.1.remember message,
      drawn.2 ++ [if captionMark <+: message then .caption message else .rendered message])

def OutputSession.realtimeRefresh (ctx : OutputSession) : OutputSession × List Written :=
  if ctx.displayModelInitialized then ({ ctx with realtimeLineCount := 0 }, [])
  else
    let drawn := ctx.realtimeRecentLines.foldl redrawLine (ctx, [])
    ({ drawn.1 with realtimeLineCount := 0 },
      [.redraw drawn.2 (decide (ctx.historyScrollPosition = 0 ∧ ctx.bracketPasteActive = false))])

def OutputSession.sendPlainLine (ctx : OutputSession) (message : Bytes) : OutputSession × List Written :=
  if ctx.transportActive = false then (ctx, [])
  else if ctx.holdsBack message then (ctx, [])
  else if captionMark <+: message then (ctx.remember message, [.shown (.caption message)])
  else
    let recorded := ctx.realtimeRecordLine message
    if recorded.captureRealtimeOutput ∧ realtimeClearInterval ≤ recorded.realtimeLineCount then
      let refreshed := recorded.realtimeRefresh
      (refreshed.1.remember message, .shown (.rendered message) :: refreshed.2)
    else (recorded.remember message, [.shown (.rendered message)])

def OutputSession.sendLines : OutputSession → List Bytes → OutputSession × List Written
  | ctx, [] => (ctx, [])
  | ctx, line :: rest =>
    let sent := ctx.sendPlainLine line
    let later := sent.1.sendLines rest
    (later.1, sent.2 ++ later.2)

def skipReturn : Bytes → Bytes
  | [] => []
  | c :: text => if c = byte '\r' then text else c :: text

/-- The text behind a newline is shorter. -/
theorem strchr_length {c : UInt8} {text line after : Bytes} (found : strchr c text = some (line, after)) :
    after.length < text.length := by
  rw [(strchr_some found).1, length_append, length_cons]
  omega

theorem skipReturn_length (text : Bytes) : (skipReturn text).length ≤ text.length := by
  cases text with
  | nil => exact le_refl _
  | cons =>
    rw [skipReturn]
    split_ifs
    · exact Nat.le_succ _
    · exact le_refl _

/-- The lines that `session_send_raw_text` hands on. -/
def rawTextLines (cursor : Bytes) : List Bytes :=
  if cursor = [] then []
  else match _found : strchr (byte '\n') cursor with
    | none => [storedLine cursor]
    | some (line, after) =>
      if skipReturn after = [] then [storedLine line, []] else storedLine line :: rawTextLines (skipReturn after)
termination_by cursor.length
decreasing_by
  have shorter := strchr_length _found
  have skipped := skipReturn_length after
  omega

/-- The lines that `session_send_multiline_message` hands on. Without a copy of the message the lines in front of a
newline are cut to the size of an array. -/
def multilineLines (copied : Bool) (lineStart : Bytes) : List Bytes :=
  match _found : strchr (byte '\n') lineStart with
  | none => if lineStart = [] then [] else [lineStart]
  | some (line, after) => (if copied then line else storedLine line) :: multilineLines copied after
termination_by lineStart.length
decreasing_by exact strchr_length _found

def OutputSession.sendRawText (ctx : OutputSession) (text : Bytes) : OutputSession × List Written :=
  ctx.sendLines (rawTextLines text)

def OutputSession.sendMultilineMessage (copied : Bool) (ctx : OutputSession) (message : Bytes) :
    OutputSession × List Written :=
  ctx.sendLines (multilineLines copied message)

/-- What is sent to a session. A game switches the check for repeated lines off and on again. -/
inductive SendEvent where
  | plainLine (message : Bytes)
  | rawText (text : Bytes)
  | multilineMessage (copied : Bool) (message : Bytes)
  | setDedup (disabled : Bool)

/-- One call. -/
def OutputSession.send (ctx : OutputSession) : SendEvent → OutputSession × List Written
  | .plainLine message => ctx.sendPlainLine message
  | .rawText text => ctx.sendRawText text
  | .multilineMessage copied message => ctx.sendMultilineMessage copied message
  | .setDedup disabled => ({ ctx with disableOutputDedup := disabled }, [])

/-- A run of calls, with everything that it writes. -/
def OutputSession.sendAll : OutputSession → List SendEvent → OutputSession × List Written
  | ctx, [] => (ctx, [])
  | ctx, event :: rest =>
    let sent := ctx.send event
    let later := sent.1.sendAll rest
    (later.1, sent.2 ++ later.2)

def Shown.line : Shown → Bytes
  | .caption line => line
  | .rendered line => line

def handed (written : List Written) : List Bytes :=
  written.filterMap fun
    | .shown line => some line.line
    | .redraw _ _ => none

def textLines (text : Bytes) : List Bytes :=
  (splitLines (byte '\n') text).1 ++ [(splitLines (byte '\n') text).2]

/-- The lines that a call hands on, less those that are held back. -/
def SendEvent.lines : SendEvent → List Bytes
  | .plainLine message => [message]
  | .rawText text =>
    if text = [] then []
    else match textLines text with
      | [] => []
      | first :: rest => storedLine first :: rest.map fun line => storedLine (skipReturn line)
  | .multilineMessage copied message =>
    let split := splitLines (byte '\n') message
    split.1.map (fun line => if copied then line else storedLine line) ++ (if split.2 = [] then [] else [split.2])
  | .setDedup _ => []

/-- The lines of a run, each with the check that was in force for it. -/
def issued : Bool → List SendEvent → List (Bool × Bytes)
  | _, [] => []
  | _, .setDedup disabled :: rest => issued disabled rest
  | disabled, event :: rest => (event.lines.map fun line => (!disabled, line)) ++ issued disabled rest

section Lines

variable {ctx : OutputSession}

/-- What a call leaves alone, and what it remembers. -/
structure Sent (ctx : OutputSession) (last : Option Bytes) (next : OutputSession) : Prop where
  transportActive : next.transportActive = ctx.transportActive
  disableOutputDedup : next.disableOutputDedup = ctx.disableOutputDedup
  lastOutputLine : next.lastOutputLine.map CBuffer.text = last

theorem realtimeRecordLine_sent (ctx : OutputSession) (message : Bytes) :
    Sent ctx (ctx.lastOutputLine.map CBuffer.text) (ctx.realtimeRecordLine message) := by
  rw [OutputSession.realtimeRecordLine]
  by_cases off : ctx.captureRealtimeOutput = false ∨ 0 < ctx.historyScrollPosition
  · rw [if_pos off]
    exact ⟨rfl, rfl, rfl⟩
  · rw [if_neg off]
    exact ⟨rfl, rfl, rfl⟩

/-- A redraw leaves the settings alone, and it hands on no line for the first time. -/
theorem realtimeRefresh_settings (ctx : OutputSession) : ctx.realtimeRefresh.1.transportActive = ctx.transportActive ∧
    ctx.realtimeRefresh.1.disableOutputDedup = ctx.disableOutputDedup ∧ handed ctx.realtimeRefresh.2 = [] := by
  have drawn (lines : List Bytes) (start : OutputSession × List Shown) :
      (lines.foldl redrawLine start).1.transportActive = start.1.transportActive ∧
        (lines.foldl redrawLine start).1.disableOutputDedup = start.1.disableOutputDedup := by
    induction lines generalizing start with
    | nil => exact ⟨rfl, rfl⟩
    | cons line lines ih =>
      rw [foldl_cons, (ih _).1, (ih _).2, redrawLine]
      by_cases held : start.1.holdsBack line
      · rw [if_pos held]
        exact ⟨rfl, rfl⟩
      · rw [if_neg held]
        exact ⟨rfl, rfl⟩
  rw [OutputSession.realtimeRefresh]
  split_ifs
  · exact ⟨rfl, rfl, rfl⟩
  · exact ⟨(drawn _ _).1, (drawn _ _).2, rfl⟩

/-- A line is handed on unless it is held back, and it is the last line after the call in both cases. -/
theorem sendPlainLine_spec (active : ctx.transportActive) (message : Bytes) :
    Sent ctx (some (storedLine message)) (ctx.sendPlainLine message).1 ∧
      handed (ctx.sendPlainLine message).2 = if ctx.holdsBack message then [] else [message] := by
  rw [OutputSession.sendPlainLine, if_neg (by simp [active])]
  by_cases held : ctx.holdsBack message
  · -- The line is the one that is remembered, so it fits in the array.
    rw [if_pos held, if_pos held]
    obtain ⟨buffer, present, same⟩ := Option.map_eq_some_iff.mp held.2
    refine ⟨⟨rfl, rfl, ?_⟩, rfl⟩
    have fits := buffer.fits
    rw [present, Option.map_some, storedLine, ← same, take_of_length_le (by omega)]
  · rw [if_neg held]
    split_ifs with caption
    · exact ⟨⟨rfl, rfl, rfl⟩, rfl⟩
    · dsimp only
      have recorded := realtimeRecordLine_sent ctx message
      by_cases full : (ctx.realtimeRecordLine message).captureRealtimeOutput ∧
          realtimeClearInterval ≤ (ctx.realtimeRecordLine message).realtimeLineCount
      · obtain ⟨active', dedup', nothing⟩ := realtimeRefresh_settings (ctx.realtimeRecordLine message)
        rw [if_pos full]
        refine ⟨⟨active'.trans recorded.transportActive, dedup'.trans recorded.disableOutputDedup, rfl⟩, ?_⟩
        exact congrArg (message :: ·) nothing
      · rw [if_neg full]
        exact ⟨⟨recorded.transportActive, recorded.disableOutputDedup, rfl⟩, rfl⟩

theorem handed_append (written written' : List Written) :
    handed (written ++ written') = handed written ++ handed written' :=
  filterMap_append

theorem sendLines_spec (active : ctx.transportActive) (lines : List Bytes) :
    Sent ctx (memory storedLine (ctx.lastOutputLine.map CBuffer.text)
      (lines.map fun line => (!ctx.disableOutputDedup, line)))
        (ctx.sendLines lines).1 ∧
      handed (ctx.sendLines lines).2 = passed storedLine (ctx.lastOutputLine.map CBuffer.text)
        (lines.map fun line => (!ctx.disableOutputDedup, line)) := by
  induction lines generalizing ctx with
  | nil => exact ⟨⟨rfl, rfl, rfl⟩, rfl⟩
  | cons line lines ih =>
    obtain ⟨first, shown⟩ := sendPlainLine_spec active line
    obtain ⟨later, passes⟩ := ih (first.transportActive.trans active)
    rw [first.lastOutputLine, first.disableOutputDedup] at later passes
    refine ⟨⟨later.transportActive.trans first.transportActive,
      later.disableOutputDedup.trans first.disableOutputDedup, later.lastOutputLine⟩, ?_⟩
    rw [OutputSession.sendLines, handed_append, shown, passes, map_cons, passed]
    by_cases held : ctx.holdsBack line
    · rw [if_pos held, if_pos (by simpa [OutputSession.holdsBack] using held), nil_append]
    · rw [if_neg held, if_neg (by simpa [OutputSession.holdsBack] using held), singleton_append]

end Lines

theorem textLines_open {text : Bytes} (none' : strchr (byte '\n') text = none) : textLines text = [text] := by
  have free : byte '\n' ∉ text := by
    intro member
    rw [← strchr_isSome, none'] at member
    cases member
  rw [textLines, splitLines_open _ free, nil_append]

theorem textLines_first {text line after : Bytes} (found : strchr (byte '\n') text = some (line, after)) :
    textLines text = line :: textLines after := by
  obtain ⟨rfl, free⟩ := strchr_some found
  rw [textLines, splitLines_first _ free]
  rfl

theorem textLines_cons {c : UInt8} (other : c ≠ byte '\n') (text : Bytes) :
    ∃ first rest, textLines text = first :: rest ∧ textLines (c :: text) = (c :: first) :: rest := by
  rw [textLines, textLines, splitLines, if_neg other]
  obtain ⟨lines, last⟩ := splitLines (byte '\n') text
  cases lines with
  | nil => exact ⟨last, [], rfl, rfl⟩
  | cons first lines => exact ⟨first, lines ++ [last], rfl, rfl⟩

theorem textLines_skipReturn (text : Bytes) :
    ∃ first rest, textLines text = first :: rest ∧ textLines (skipReturn text) = skipReturn first :: rest := by
  cases text with
  | nil => exact ⟨[], [], rfl, rfl⟩
  | cons c text =>
    by_cases newline : c = byte '\n'
    · have whole : textLines (c :: text) = [] :: textLines text := by
        rw [textLines, splitLines, if_pos newline]
        rfl
      have kept : skipReturn (c :: text) = c :: text := if_neg (by rw [newline]; decide)
      exact ⟨[], textLines text, whole, by rw [kept, whole, skipReturn]⟩
    · obtain ⟨first, rest, lines, whole⟩ := textLines_cons newline text
      refine ⟨c :: first, rest, whole, ?_⟩
      rw [skipReturn, skipReturn]
      split_ifs
      · exact lines
      · exact whole

theorem rawText_lines {text first : Bytes} {rest : List Bytes} (some' : text ≠ [])
    (lines : textLines text = first :: rest) :
    (SendEvent.rawText text).lines = storedLine first :: rest.map fun line => storedLine (skipReturn line) := by
  rw [SendEvent.lines, if_neg some', lines]

theorem rawTextLines_eq (text : Bytes) : rawTextLines text = (SendEvent.rawText text).lines := by
  fun_induction rawTextLines text with
  | case1 => rfl
  | case2 text some' none' => rw [rawText_lines some' (textLines_open none'), map_nil]
  | case3 text some' line after found ends =>
    obtain ⟨first, rest, lines, skipped⟩ := textLines_skipReturn after
    rw [rawText_lines some' (textLines_first found), lines]
    rw [ends] at skipped
    obtain ⟨empty, rfl⟩ := cons.inj (show [[]] = skipReturn first :: rest from skipped)
    rw [map_singleton, ← empty]
    rfl
  | case4 text some' line after found goesOn ih =>
    obtain ⟨first, rest, lines, skipped⟩ := textLines_skipReturn after
    rw [rawText_lines some' (textLines_first found), lines, ih, rawText_lines goesOn skipped, map_cons]

theorem multilineLines_eq (copied : Bool) (message : Bytes) :
    multilineLines copied message = (SendEvent.multilineMessage copied message).lines := by
  fun_induction multilineLines copied message with
  | case1 => rfl
  | case2 message none' some' =>
    have free : byte '\n' ∉ message := by
      intro member
      rw [← strchr_isSome, none'] at member
      cases member
    rw [SendEvent.lines, splitLines_open _ free]
    simp [some']
  | case3 message line after found ih =>
    obtain ⟨rfl, free⟩ := strchr_some found
    rw [ih, SendEvent.lines, SendEvent.lines, splitLines_first _ free]
    rfl

section Runs

variable {ctx : OutputSession}

/-- One call passes its lines through the filter, with the check as it is set. -/
theorem send_spec (active : ctx.transportActive) (event : SendEvent) (plain : ∀ disabled, event ≠ .setDedup disabled) :
    Sent ctx (memory storedLine (ctx.lastOutputLine.map CBuffer.text)
      (event.lines.map fun line => (!ctx.disableOutputDedup, line)))
        (ctx.send event).1 ∧
      handed (ctx.send event).2 = passed storedLine (ctx.lastOutputLine.map CBuffer.text)
        (event.lines.map fun line => (!ctx.disableOutputDedup, line)) := by
  cases event with
  | plainLine message =>
    have sent := sendLines_spec active [message]
    rw [OutputSession.sendLines, OutputSession.sendLines] at sent
    rwa [append_nil] at sent
  | rawText =>
    rw [← rawTextLines_eq]
    exact sendLines_spec active _
  | multilineMessage =>
    rw [← multilineLines_eq]
    exact sendLines_spec active _
  | setDedup disabled => exact absurd rfl (plain disabled)

/-- A run of calls passes its lines through the filter. -/
theorem sendAll_spec (active : ctx.transportActive) (events : List SendEvent) :
    handed (ctx.sendAll events).2 =
      passed storedLine (ctx.lastOutputLine.map CBuffer.text) (issued ctx.disableOutputDedup events) := by
  induction events generalizing ctx with
  | nil => rfl
  | cons event events ih =>
    rw [OutputSession.sendAll, handed_append]
    by_cases plain : ∀ disabled, event ≠ .setDedup disabled
    · obtain ⟨sent, shown⟩ := send_spec active event plain
      have first : issued ctx.disableOutputDedup (event :: events) =
          (event.lines.map fun line => (!ctx.disableOutputDedup, line)) ++ issued ctx.disableOutputDedup events := by
        cases event with
        | setDedup disabled => exact absurd rfl (plain disabled)
        | _ => rfl
      rw [shown, ih (sent.transportActive.trans active), sent.lastOutputLine, sent.disableOutputDedup, first,
        passed_append]
    · push Not at plain
      obtain ⟨disabled, rfl⟩ := plain
      have switched : ({ ctx with disableOutputDedup := disabled } : OutputSession).transportActive := active
      exact ih switched

/-- In every run of calls on an open session, the lines that are handed on are those of the texts, in their order,
less each line that is checked and equals the line directly in front of it. Without the check, and wherever
neighbouring lines differ, all of them are handed on. -/
theorem output_complete (ctx : OutputSession) (active : ctx.transportActive) (events : List SendEvent) :
    handed (ctx.sendAll events).2 =
        passed storedLine (ctx.lastOutputLine.map CBuffer.text) (issued ctx.disableOutputDedup events) ∧
      ((∀ line ∈ issued ctx.disableOutputDedup events, line.1 = false) →
        handed (ctx.sendAll events).2 = (issued ctx.disableOutputDedup events).map Prod.snd) ∧
      (List.IsChain (fun before line => storedLine before.2 ≠ line.2) (issued ctx.disableOutputDedup events) →
        (∀ line ∈ (issued ctx.disableOutputDedup events).head?, ctx.lastOutputLine.map CBuffer.text ≠ some line.2) →
        handed (ctx.sendAll events).2 = (issued ctx.disableOutputDedup events).map Prod.snd) := by
  have filtered := sendAll_spec active events
  refine ⟨filtered, fun free => ?_, fun chain fresh => ?_⟩
  · rw [filtered, passed_unchecked free]
  · rw [filtered, passed_chain chain fresh]

def OutputSession.fresh : OutputSession where
  transportActive := true
  disableOutputDedup := false
  lastOutputLine := none
  captureRealtimeOutput := false
  displayModelInitialized := false
  historyScrollPosition := 0
  bracketPasteActive := false
  realtimeRecentLines := []
  realtimeLineCount := 0

/-- An empty line in the middle and one at the end are handed on. -/
theorem output_complete_blank : handed (OutputSession.fresh.sendAll [.rawText (str "a\n\nb\n")]).2 =
    [str "a", [], str "b", []] := by
  have law := output_complete .fresh rfl [.rawText (str "a\n\nb\n")]
  rw [law.2.2 (by decide) (by decide)]
  decide

/-- A line that repeats the one in front of it is not handed on. -/
theorem output_repeats : handed (OutputSession.fresh.sendRawText (str "a\na")).2 ≠ [str "a", str "a"] := by
  have lines : rawTextLines (str "a\na") = [str "a", str "a"] := by
    rw [rawTextLines_eq]
    decide
  rw [OutputSession.sendRawText, lines]
  decide

end Runs

end SshChatter.Output
