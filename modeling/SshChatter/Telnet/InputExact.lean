import SshChatter.Telnet.InputDecoder

namespace SshChatter.TelnetInput
open CString Telnet List

inductive LineEnd where
  | crLf
  | crNul
  | bare
  deriving DecidableEq

/-- What a client sends: a byte of data, an end of a line, an option, a block with any payload, or a command without
an option. -/
inductive Token where
  | data (value : UInt8) (plain : value ≠ carriageReturn)
  | line (ending : LineEnd)
  | option (command choice : UInt8) (negotiates : command ∈ negotiating)
  | block (choice : UInt8) (payload : Bytes)
  | short (command : UInt8) (other : command ∉ iac :: cmdSb :: negotiating)

def LineEnd.bytes : LineEnd → Bytes
  | crLf => [carriageReturn, lineFeed]
  | crNul => [carriageReturn, 0]
  | bare => [carriageReturn]

/-- A byte of data and the payload of a block are sent with `IAC` doubled. -/
def Token.bytes : Token → Bytes
  | data value _ => binaryWrite [value]
  | line ending => ending.bytes
  | option command choice _ => [iac, command, choice]
  | block choice payload => iac :: cmdSb :: choice :: (binaryWrite payload ++ [iac, cmdSe])
  | short command _ => [iac, command]

def Token.data? : Token → Bytes
  | data value _ => [value]
  | line _ => [carriageReturn]
  | _ => []

structure Piece where
  token : Token
  arrivals : List Arrival
  whole : arrivals.map Arrival.value = token.bytes

def streamOf (pieces : List Piece) : List Arrival := pieces.flatMap Piece.arrivals

def dataOf (pieces : List Piece) : Bytes := pieces.flatMap fun piece => piece.token.data?

/-- The first byte is there when the byte in front of it is taken. -/
def Pushed (stream : List Arrival) : Prop := ∃ next later, stream = next :: later ∧ next.prompt

def Token.Single (token : Token) (value : UInt8) : Prop := token.bytes = [value] ∧ token.data? = [value]

/-- The reader finds the end of a block where it is. A terminal type has a qualifier that is not escaped, or what is
behind the escaped one does not look like the end. A block of another kind has no `IAC` and `SE` in its payload. -/
def Whole (choice : UInt8) (payload : Bytes) : Prop :=
  if choice = optTerminalType then
    ∃ qualifier rest, payload = qualifier :: rest ∧
      (qualifier = iac → ∃ next, (rest.dropWhile (· = iac)).head? = some next ∧ next ≠ cmdSe)
  else if choice = optNaws then True
  else ∀ before after, payload ≠ before ++ iac :: cmdSe :: after

/-- When a line ends, its second byte is there together with the carriage return. What is there behind a bare carriage
return is one byte that can be pushed back. `held` says that the first piece has been pushed back. -/
def Fit (held : Prop) : List Piece → Prop
  | [] => True
  | piece :: rest =>
    match piece.token with
    | .line .bare =>
      (¬ held → Pushed (streamOf rest) →
        ∃ next later value, rest = next :: later ∧ next.token.Single value ∧ value ≠ lineFeed ∧ value ≠ 0) ∧
      Fit (¬ held ∧ Pushed (streamOf rest)) rest
    | .line _ => Pushed piece.arrivals.tail ∧ Fit False rest
    | .block choice payload => Whole choice payload ∧ Fit False rest
    | _ => Fit False rest

def typeOf (typed : Bytes) : Bytes := trimSpace ((typed.foldl storeType []).takeWhile (· ≠ 0))

def Token.Names : Token → Prop
  | block choice payload => choice = optTerminalType ∧ ∃ typed, payload = 0 :: typed ∧ typeOf typed ≠ []
  | _ => False

def Piece.late (piece : Piece) : Nat := (piece.arrivals.head?.map Arrival.late).getD 0

def DrainFit (rounds : Nat) (named : Prop) : List Piece → Prop
  | [] => True
  | piece :: rest =>
    (piece.late = 0 ∨ ¬ named) → piece.late < rounds →
      match piece.token with
      | .data _ _ => True
      | .line ending => ending = .bare → ¬ Pushed (streamOf rest)
      | token => DrainFit (rounds - piece.late) (named ∨ token.Names) rest

section Blocks

variable {arrivals : List Arrival}

def storeSize (data : Bytes) (chunk : UInt8) : Bytes := if data.length < 4 then data ++ [chunk] else data

theorem payload_cons {byte : UInt8} {payload closing : Bytes}
    (whole : arrivals.map Arrival.value = binaryWrite (byte :: payload) ++ closing) :
    ∃ first rest, first.value = byte ∧ rest.map Arrival.value = binaryWrite payload ++ closing ∧
      ((byte ≠ iac ∧ arrivals = first :: rest) ∨ ∃ again, again.value = iac ∧ byte = iac ∧
        arrivals = first :: again :: rest) := by
  rw [binaryWrite_cons] at whole
  by_cases escaped : byte = iac
  · have unit : binaryWrite [byte] = [iac, iac] := by simp [binaryWrite, escaped]
    rw [unit] at whole
    obtain ⟨first, more, rfl, firstValue, whole⟩ := map_eq_cons_iff.mp whole
    obtain ⟨again, rest, rfl, againValue, whole⟩ := map_eq_cons_iff.mp whole
    exact ⟨first, rest, firstValue.trans escaped.symm, whole, .inr ⟨again, againValue, escaped, rfl⟩⟩
  · have unit : binaryWrite [byte] = [byte] := by simp [binaryWrite, escaped]
    rw [unit] at whole
    obtain ⟨first, rest, rfl, firstValue, whole⟩ := map_eq_cons_iff.mp whole
    exact ⟨first, rest, firstValue, whole, .inl ⟨escaped, rfl⟩⟩

/-- The end of a block is an `IAC` and an `SE`. -/
theorem payload_nil (whole : arrivals.map Arrival.value = binaryWrite [] ++ [iac, cmdSe]) :
    ∃ first last, first.value = iac ∧ last.value = cmdSe ∧ arrivals = [first, last] := by
  obtain ⟨first, more, rfl, firstValue, whole⟩ := map_eq_cons_iff.mp whole
  obtain ⟨last, rest, rfl, lastValue, whole⟩ := map_eq_cons_iff.mp whole
  rw [map_eq_nil_iff.mp whole]
  exact ⟨first, last, firstValue, lastValue, rfl⟩

theorem readType_plain (typed : Bytes) (chunk : Arrival) (rest : List Arrival) (plain : chunk.value ≠ iac) :
    readType typed (chunk :: rest) = readType (storeType typed chunk.value) rest := by
  cases rest with
  | nil => simp [readType]
  | cons => rw [readType, if_neg plain]

variable (decoder : Decoder) (typed payload : Bytes)

theorem readType_payload (more : List Arrival)
    (whole : arrivals.map Arrival.value = binaryWrite payload ++ [iac, cmdSe]) :
    readType typed (arrivals ++ more) = some (payload.foldl storeType typed, more) := by
  induction payload generalizing arrivals typed with
  | nil =>
    obtain ⟨first, last, firstValue, lastValue, rfl⟩ := payload_nil whole
    simp only [cons_append, nil_append, readType, firstValue, lastValue, if_true, foldl_nil]
  | cons byte payload ih =>
    obtain ⟨first, rest, firstValue, restWhole, ⟨plain, rfl⟩ | ⟨again, againValue, escaped, rfl⟩⟩ := payload_cons whole
    · rw [cons_append, readType_plain _ _ _ (firstValue.symm ▸ plain), firstValue]
      exact ih (storeType typed byte) restWhole
    · have notEnd : iac ≠ cmdSe := by decide
      rw [cons_append, cons_append, readType, if_pos (firstValue.trans escaped), againValue, escaped]
      exact ih (storeType typed iac) restWhole

theorem readType_half (half : Arrival) (more : List Arrival) (halfValue : half.value = iac)
    (whole : arrivals.map Arrival.value = binaryWrite payload ++ [iac, cmdSe]) {next : UInt8}
    (behind : (payload.dropWhile (· = iac)).head? = some next) (goes : next ≠ cmdSe) :
    ∃ found, readType typed (half :: (arrivals ++ more)) = some (found, more) := by
  induction payload generalizing arrivals typed half with
  | nil => cases behind
  | cons byte payload ih =>
    have notEnd : iac ≠ cmdSe := by decide
    obtain ⟨first, rest, firstValue, restWhole, ⟨plain, rfl⟩ | ⟨again, againValue, escaped, rfl⟩⟩ := payload_cons whole
    · rw [dropWhile_cons_of_neg (by simpa using plain)] at behind
      cases behind
      rw [cons_append, readType, if_pos halfValue, firstValue, if_neg goes, if_neg plain]
      exact ⟨_, readType_payload typed payload more restWhole⟩
    · rw [dropWhile_cons_of_pos (by simpa using escaped)] at behind
      rw [cons_append, readType, if_pos halfValue, firstValue, if_neg (escaped ▸ notEnd), if_pos escaped]
      exact ih (storeType typed iac) again againValue restWhole behind

theorem readSize_payload (data payload : Bytes) (more : List Arrival)
    (whole : arrivals.map Arrival.value = binaryWrite payload ++ [iac, cmdSe]) :
    readSize false data (arrivals ++ more) = some (payload.foldl storeSize data, more) := by
  induction payload generalizing arrivals data with
  | nil =>
    obtain ⟨first, last, firstValue, lastValue, rfl⟩ := payload_nil whole
    simp [readSize, firstValue, lastValue]
  | cons byte payload ih =>
    obtain ⟨first, rest, firstValue, restWhole, ⟨plain, rfl⟩ | ⟨again, againValue, escaped, rfl⟩⟩ := payload_cons whole
    · rw [cons_append, readSize, if_neg Bool.false_ne_true, if_neg (firstValue.symm ▸ plain), firstValue]
      exact ih (storeSize data byte) restWhole
    · have notEnd : iac ≠ cmdSe := by decide
      have kept : (if iac = iac ∧ data.length < 4 then data ++ [iac] else data) = storeSize data iac := by
        simp [storeSize]
      rw [cons_append, cons_append, readSize, if_neg Bool.false_ne_true, if_pos (firstValue.trans escaped),
        readSize, againValue, kept, escaped]
      exact ih (storeSize data iac) restWhole

theorem skipOther_payload (prev : UInt8) (payload : Bytes) (more : List Arrival)
    (whole : arrivals.map Arrival.value = binaryWrite payload ++ [iac, cmdSe]) (goes : endsEarly prev payload = none) :
    skipOther prev (arrivals ++ more) = some more := by
  induction payload generalizing arrivals prev with
  | nil =>
    obtain ⟨first, last, firstValue, lastValue, rfl⟩ := payload_nil whole
    have closes : skipOther iac (last :: more) = some more := by
      rw [skipOther, if_pos ⟨rfl, lastValue⟩]
    rw [cons_append, cons_append, nil_append, skipOther, firstValue, if_neg iac_not_end, if_pos rfl, closes]
  | cons byte payload ih =>
    rw [endsEarly] at goes
    split_ifs at goes with ends escaped
    · obtain ⟨first, rest, firstValue, restWhole, ⟨plain, rfl⟩ | ⟨again, againValue, _, rfl⟩⟩ := payload_cons whole
      · exact absurd escaped plain
      · rw [cons_append, cons_append, skipOther, firstValue, if_neg ends, if_pos escaped, skipOther, againValue]
        exact ih iac restWhole goes
    · obtain ⟨first, rest, firstValue, restWhole, ⟨plain, rfl⟩ | ⟨again, againValue, doubled, rfl⟩⟩ :=
        payload_cons whole
      · rw [cons_append, skipOther, firstValue, if_neg ends, if_neg plain]
        exact ih 0 restWhole goes
      · exact absurd doubled escaped

theorem typed_named (qualifier : UInt8) (typed : Bytes) :
    (decoder.typed qualifier typed).terminalType ≠ [] ↔
      decoder.terminalType ≠ [] ∨ (qualifier = 0 ∧ trimSpace (typed.takeWhile (· ≠ 0)) ≠ []) := by
  unfold Decoder.typed
  dsimp only
  split_ifs with known
  · have text : (trimSpace (typed.takeWhile (· ≠ 0))).map toUpper ≠ [] := fun none => known.2 (map_eq_nil_iff.mp none)
    exact ⟨fun _ => .inr known, fun _ => text⟩
  · exact ⟨.inl, fun either => either.elim id fun both => absurd both known⟩

theorem resized_rest (data : Bytes) :
    (decoder.resized data).terminalType = decoder.terminalType ∧ (decoder.resized data).pending = decoder.pending := by
  unfold Decoder.resized
  split <;> exact ⟨rfl, rfl⟩

theorem typed_pending (qualifier : UInt8) (typed : Bytes) :
    (decoder.typed qualifier typed).pending = decoder.pending := by
  unfold Decoder.typed
  dsimp only
  split_ifs <;> rfl

theorem readBlock_whole (choice : UInt8) (payload : Bytes) (decoder : Decoder) (more : List Arrival)
    (whole : arrivals.map Arrival.value = binaryWrite payload ++ [iac, cmdSe]) (fits : Whole choice payload) :
    ∃ after, readBlock choice { decoder with stream := arrivals ++ more } = some after ∧ after.stream = more ∧
      after.pending = decoder.pending ∧
      (after.terminalType ≠ [] ↔ decoder.terminalType ≠ [] ∨ (Token.block choice payload).Names) := by
  unfold Whole at fits
  unfold readBlock
  by_cases isType : choice = optTerminalType
  · rw [if_pos isType] at fits ⊢
    obtain ⟨qualifier, rest, rfl, behind⟩ := fits
    obtain ⟨first, arrivals, firstValue, restWhole, ⟨plain, rfl⟩ | ⟨again, againValue, escaped, rfl⟩⟩ :=
      payload_cons whole
    · rw [cons_append]
      dsimp only
      rw [readType_payload [] rest more restWhole, firstValue]
      refine ⟨_, rfl, rfl, typed_pending _ _ _, ?_⟩
      refine (typed_named _ _ _).trans (or_congr_right ?_)
      constructor
      · rintro ⟨rfl, text⟩
        exact ⟨isType, rest, rfl, text⟩
      · rintro ⟨_, typed, same, text⟩
        cases same
        exact ⟨rfl, text⟩
    · obtain ⟨next, nextBehind, goes⟩ := behind escaped
      obtain ⟨found, read⟩ := readType_half [] rest again more againValue restWhole nextBehind goes
      rw [cons_append, cons_append]
      dsimp only
      rw [read, firstValue, escaped]
      refine ⟨_, rfl, rfl, typed_pending _ _ _, ?_⟩
      refine (typed_named _ _ _).trans (or_congr_right ?_)
      constructor
      · rintro ⟨zero, _⟩
        exact absurd zero (by decide)
      · rintro ⟨_, typed, same, _⟩
        cases same
  · have unnamed : ¬ (Token.block choice payload).Names := fun names => isType names.1
    rw [if_neg isType] at fits ⊢
    by_cases isSize : choice = optNaws
    · rw [if_pos isSize]
      rw [readSize_payload [] payload more whole]
      refine ⟨_, rfl, rfl, (resized_rest _ _).2, ?_⟩
      rw [or_iff_left unnamed]
      exact not_congr (Eq.congr_left (resized_rest _ _).1)
    · rw [if_neg isSize] at fits ⊢
      have goes : endsEarly 0 payload = none := by
        cases early : endsEarly 0 payload with
        | none => rfl
        | some more =>
          rcases endsEarly_some early with ⟨zero, _⟩ | ⟨before, same⟩
          · exact absurd zero (by decide)
          · exact absurd same (fits before more)
      rw [skipOther_payload 0 payload more whole goes]
      exact ⟨_, rfl, rfl, rfl, (or_iff_left unnamed).symm⟩

end Blocks

section Pieces

variable {decoder : Decoder} {piece : Piece} {rest : List Piece} {held : Prop}

theorem streamOf_cons (piece : Piece) (rest : List Piece) :
    streamOf (piece :: rest) = piece.arrivals ++ streamOf rest :=
  flatMap_cons

theorem dataOf_cons (piece : Piece) (rest : List Piece) : dataOf (piece :: rest) = piece.token.data? ++ dataOf rest :=
  flatMap_cons

/-- The polls and the bytes that a stream still takes. -/
def waits (stream : List Arrival) : Nat := (stream.map fun arrival => arrival.late + 1).sum

theorem waits_append (stream more : List Arrival) : waits (stream ++ more) = waits stream + waits more := by
  simp [waits]

theorem waits_cons (first : Arrival) (more : List Arrival) : waits (first :: more) = first.late + 1 + waits more := by
  simp [waits]

theorem Token.bytes_ne (token : Token) : token.bytes ≠ [] := by
  cases token with
  | data value =>
    by_cases escaped : value = iac
    · simp [Token.bytes, binaryWrite, escaped]
    · simp [Token.bytes, binaryWrite, escaped]
  | line ending => cases ending <;> simp [Token.bytes, LineEnd.bytes]
  | option => simp [Token.bytes]
  | block => simp [Token.bytes]
  | short => simp [Token.bytes]

theorem Piece.arrivals_cons (piece : Piece) : ∃ first more, piece.arrivals = first :: more := by
  cases known : piece.arrivals with
  | nil =>
    have none : piece.token.bytes = [] := by rw [← piece.whole, known, map_nil]
    exact absurd none piece.token.bytes_ne
  | cons first more => exact ⟨first, more, rfl⟩

theorem Piece.late_cons {first : Arrival} {more : List Arrival} (known : piece.arrivals = first :: more) :
    piece.late = first.late := by
  rw [Piece.late, known]
  rfl

def Piece.polled (piece : Piece) (first : Arrival) (more : List Arrival) (known : piece.arrivals = first :: more) :
    Piece where
  token := piece.token
  arrivals := { first with late := first.late - 1 } :: more
  whole := by
    rw [← piece.whole, known]
    rfl

/-- Only the bytes behind the first one count for the condition. -/
theorem Fit.congr {later : Piece} (token : later.token = piece.token) (tail : later.arrivals.tail = piece.arrivals.tail)
    (fit : Fit held (piece :: rest)) : Fit held (later :: rest) := by
  rw [Fit] at fit ⊢
  rw [token, tail]
  exact fit

/-- A piece that is held back has one byte, and what is behind it is met as usual. -/
theorem Fit.released {value : UInt8} (single : piece.token.Single value) (fit : Fit True (piece :: rest)) :
    Fit False rest := by
  rw [Fit] at fit
  cases known : piece.token with
  | data =>
    rw [known] at fit
    exact fit
  | line ending =>
    rw [known] at fit single
    cases ending with
    | bare =>
      have unheld : (¬ True ∧ Pushed (streamOf rest)) = False := by simp
      rw [← unheld]
      exact fit.2
    | crLf => exact absurd single.1 (by simp [Token.bytes, LineEnd.bytes])
    | crNul => exact absurd single.1 (by simp [Token.bytes, LineEnd.bytes])
  | option =>
    rw [known] at single
    exact absurd single.2 (by simp [Token.data?])
  | block =>
    rw [known] at single
    exact absurd single.2 (by simp [Token.data?])
  | short =>
    rw [known] at single
    exact absurd single.2 (by simp [Token.data?])

/-- The states between two calls. Either no byte is held back, or the byte of the first piece is. -/
inductive Ready (decoder : Decoder) : List Piece → Prop
  | free {pieces : List Piece} (fit : Fit False pieces) (none : decoder.pending = none)
      (stream : decoder.stream = streamOf pieces) : Ready decoder pieces
  | back {piece : Piece} {rest : List Piece} {value : UInt8} (fit : Fit True (piece :: rest))
      (single : piece.token.Single value) (some : decoder.pending = some value)
      (stream : decoder.stream = streamOf rest) : Ready decoder (piece :: rest)

/-- A call that returns no byte leaves the data as it was. -/
structure Polled (decoder : Decoder) (pieces : List Piece) (after : Decoder) (later : List Piece) : Prop where
  fit : Fit False later
  none : after.pending = none
  stream : after.stream = streamOf later
  same : dataOf later = dataOf pieces
  fewer : later = [] ∨ waits (streamOf later) < waits (streamOf pieces)
  drains : ∀ rounds, DrainFit (rounds + 1) (decoder.terminalType ≠ []) pieces → after.terminalType = [] →
    DrainFit rounds False later

/-- A call that returns a byte takes it off the data. -/
structure Taken (decoder : Decoder) (pieces : List Piece) (value : UInt8) (after : Decoder) (later : List Piece) :
    Prop where
  ready : Ready after later
  first : dataOf pieces = value :: dataOf later
  fewer : waits (streamOf later) < waits (streamOf pieces)
  drains : ∀ rounds, DrainFit (rounds + 1) (decoder.terminalType ≠ []) pieces → after.pending = none

/-- What a call does when no byte is held back. -/
def Exact (decoder : Decoder) (pieces : List Piece) (result : Returned × Decoder) : Prop :=
  ∃ later, (result.1 = .again ∧ Polled decoder pieces result.2 later) ∨
    ∃ value, result.1 = .byte value ∧ Taken decoder pieces value result.2 later

/-- A piece without data that is read whole leaves the rest to the loop. -/
theorem Exact.skipped {after : Decoder} {result : Returned × Decoder} (goes : Exact after rest result)
    (silent : piece.token.data? = []) (prompt : piece.late = 0)
    (notData : ∀ value plain, piece.token ≠ .data value plain) (notLine : ∀ ending, piece.token ≠ .line ending)
    (named : after.terminalType ≠ [] ↔ decoder.terminalType ≠ [] ∨ piece.token.Names) :
    Exact decoder (piece :: rest) result := by
  have same : dataOf (piece :: rest) = dataOf rest := by rw [dataOf_cons, silent, nil_append]
  have fewer : waits (streamOf rest) ≤ waits (streamOf (piece :: rest)) := by
    rw [streamOf_cons, waits_append]
    exact Nat.le_add_left _ _
  have drains : ∀ rounds, DrainFit (rounds + 1) (decoder.terminalType ≠ []) (piece :: rest) →
      DrainFit (rounds + 1) (after.terminalType ≠ []) rest := by
    intro rounds drain
    have inner := drain (.inl prompt) (by rw [prompt]; exact Nat.succ_pos rounds)
    rw [prompt] at inner
    rw [propext named]
    cases known : piece.token with
    | data value plain => exact absurd known (notData value plain)
    | line ending => exact absurd known (notLine ending)
    | option => rwa [known] at inner
    | block => rwa [known] at inner
    | short => rwa [known] at inner
  obtain ⟨later, ⟨again, polled⟩ | ⟨value, returned, taken⟩⟩ := goes
  · refine ⟨later, .inl ⟨again, polled.fit, polled.none, polled.stream, polled.same.trans same.symm, ?_, ?_⟩⟩
    · exact polled.fewer.imp_right fun less => less.trans_le fewer
    · exact fun rounds drain => polled.drains rounds (drains rounds drain)
  · refine ⟨later, .inr ⟨value, returned, taken.ready, same.trans taken.first, taken.fewer.trans_le fewer, ?_⟩⟩
    exact fun rounds drain => taken.drains rounds (drains rounds drain)

end Pieces

section Turn

variable {decoder : Decoder} {first second third : Arrival} {more : List Arrival} {turns : Nat}

theorem readLoop_nil (stream : decoder.stream = []) : readLoop (turns + 1) decoder = (.again, decoder) := by
  rw [readLoop, stream]

theorem readLoop_late (stream : decoder.stream = first :: more) (late : 0 < first.late) :
    readLoop (turns + 1) decoder =
      (.again, { decoder with stream := { first with late := first.late - 1 } :: more }) := by
  rw [readLoop, stream]
  dsimp only
  rw [if_pos late]

theorem readLoop_data (stream : decoder.stream = first :: more) (prompt : first.late = 0) (plain : first.value ≠ iac)
    (other : first.value ≠ carriageReturn) :
    readLoop (turns + 1) decoder = (.byte first.value, { decoder with stream := more }) := by
  rw [readLoop, stream]
  dsimp only
  rw [if_neg (by omega), if_neg plain, if_neg other]

theorem readLoop_line (stream : decoder.stream = first :: more) (prompt : first.late = 0)
    (line : first.value = carriageReturn) :
    readLoop (turns + 1) decoder = (.byte carriageReturn, decoder.returned more) := by
  have plain : carriageReturn ≠ iac := by decide
  rw [readLoop, stream]
  dsimp only
  rw [if_neg (by omega), line, if_neg plain, if_pos rfl]

theorem readLoop_doubled (stream : decoder.stream = first :: second :: more) (prompt : first.late = 0)
    (escape : first.value = iac) (doubled : second.value = iac) :
    readLoop (turns + 1) decoder = (.byte iac, { decoder with stream := more }) := by
  rw [readLoop, stream]
  dsimp only
  rw [if_neg (by omega), if_pos escape, if_pos doubled]

theorem readLoop_option (stream : decoder.stream = first :: second :: third :: more) (prompt : first.late = 0)
    (escape : first.value = iac) (negotiates : second.value ∈ negotiating) :
    readLoop (turns + 1) decoder = readLoop turns { decoder with stream := more } := by
  have plain : second.value ≠ iac := by
    intro same
    rw [same] at negotiates
    exact absurd negotiates (by decide)
  rw [readLoop, stream]
  dsimp only
  rw [if_neg (by omega), if_pos escape, if_neg plain, if_pos negotiates]

theorem readLoop_short (stream : decoder.stream = first :: second :: more) (prompt : first.late = 0)
    (escape : first.value = iac) (other : second.value ∉ iac :: cmdSb :: negotiating) :
    readLoop (turns + 1) decoder = readLoop turns { decoder with stream := more } := by
  have plain : second.value ≠ iac := fun same => other (same ▸ mem_cons_self)
  have noBlock : second.value ≠ cmdSb := fun same => other (same ▸ mem_cons_of_mem _ mem_cons_self)
  have noOption : second.value ∉ negotiating := fun mem => other (mem_cons_of_mem _ (mem_cons_of_mem _ mem))
  rw [readLoop, stream]
  dsimp only
  rw [if_neg (by omega), if_pos escape, if_neg plain, if_neg noOption, if_neg noBlock]

theorem readLoop_block {after : Decoder} (stream : decoder.stream = first :: second :: third :: more)
    (prompt : first.late = 0) (escape : first.value = iac) (opens : second.value = cmdSb)
    (read : readBlock third.value { decoder with stream := more } = some after) :
    readLoop (turns + 1) decoder = readLoop turns after := by
  have plain : cmdSb ≠ iac := by decide
  have noOption : cmdSb ∉ negotiating := by decide
  rw [readLoop, stream]
  dsimp only
  rw [if_neg (by omega), if_pos escape, opens, if_neg plain, if_neg noOption, if_pos rfl, read]

theorem returned_goes (there : first.prompt) (ends : first.value = lineFeed ∨ first.value = 0) :
    decoder.returned (first :: more) = { decoder with stream := more, consumeNextLf := true } := by
  rw [Decoder.returned]
  rw [if_neg (by simp [there]), if_pos ends]

theorem returned_back (there : first.prompt) (other : ¬ (first.value = lineFeed ∨ first.value = 0)) :
    decoder.returned (first :: more) =
      { decoder with stream := more, consumeNextLf := true, pending := some first.value } := by
  rw [Decoder.returned]
  rw [if_neg (by simp [there]), if_neg other]

theorem returned_alone (alone : ¬ Pushed more) :
    decoder.returned more = { decoder with stream := more, consumeNextLf := true } := by
  unfold Decoder.returned
  split
  · rfl
  next next later =>
    have away : next.prompt = false := by
      by_contra there
      exact alone ⟨next, later, rfl, Bool.eq_true_of_not_eq_false there⟩
    rw [if_pos away]

end Turn

section Loop

variable {decoder : Decoder} {piece : Piece} {rest : List Piece}

theorem Exact.given {value : UInt8} {after : Decoder} (data : piece.token.data? = [value]) (fit : Fit False rest)
    (none : after.pending = none) (stream : after.stream = streamOf rest) :
    Exact decoder (piece :: rest) (.byte value, after) := by
  obtain ⟨first, more, known⟩ := piece.arrivals_cons
  refine ⟨rest, .inr ⟨value, rfl, .free fit none stream, ?_, ?_, fun _ _ => none⟩⟩
  · rw [dataOf_cons, data]
    rfl
  · rw [streamOf_cons, waits_append, known, waits_cons]
    omega

/-- A poll for the first byte of a piece times out. -/
theorem Exact.late {first : Arrival} {more : List Arrival} (known : piece.arrivals = first :: more)
    (fit : Fit False (piece :: rest)) (none : decoder.pending = none) (late : 0 < first.late) :
    Exact decoder (piece :: rest)
      (.again, { decoder with stream := { first with late := first.late - 1 } :: (more ++ streamOf rest) }) := by
  have tail : (piece.polled first more known).arrivals.tail = piece.arrivals.tail := by
    rw [known]
    rfl
  have token : (piece.polled first more known).token = piece.token := rfl
  refine ⟨piece.polled first more known :: rest, .inl ⟨rfl, fit.congr token tail, none, ?_, ?_, .inr ?_, ?_⟩⟩
  · rw [streamOf_cons]
    rfl
  · rw [dataOf_cons]
    rfl
  · rw [streamOf_cons, streamOf_cons, waits_append, waits_append, known, waits_cons]
    change waits ({ first with late := first.late - 1 } :: more) + _ < _
    rw [waits_cons]
    dsimp only
    omega
  · intro rounds drain unnamed
    rw [DrainFit] at drain ⊢
    have named : (decoder.terminalType ≠ []) = False := by simpa using unnamed
    rw [Piece.late_cons known, named] at drain
    intro _ within
    have shorter : (piece.polled first more known).late = first.late - 1 := rfl
    have inner := drain (.inr not_false) (by omega)
    have sameRounds : rounds + 1 - first.late = rounds - (first.late - 1) := by omega
    rw [sameRounds] at inner
    exact inner

theorem Exact.line {first : Arrival} {more : List Arrival} {ending : LineEnd} (token : piece.token = .line ending)
    (known : piece.arrivals = first :: more) (prompt : first.late = 0) (fit : Fit False (piece :: rest))
    (none : decoder.pending = none) :
    Exact decoder (piece :: rest) (.byte carriageReturn, decoder.returned (more ++ streamOf rest)) := by
  have whole := piece.whole
  have data : piece.token.data? = [carriageReturn] := by rw [token]; rfl
  rw [Fit, known] at fit
  rw [token] at whole fit
  rw [known, Token.bytes] at whole
  have ended (second : UInt8) (ends : second = lineFeed ∨ second = 0) (bytes : ending.bytes = [carriageReturn, second])
      (there : Pushed more) (behind : Fit False rest) :
      Exact decoder (piece :: rest) (.byte carriageReturn, decoder.returned (more ++ streamOf rest)) := by
    obtain ⟨next, later, rfl, nextPrompt⟩ := there
    rw [bytes] at whole
    obtain ⟨_, whole⟩ := cons_eq_cons.mp whole
    obtain ⟨nextValue, whole⟩ := cons_eq_cons.mp whole
    rw [map_eq_nil_iff.mp whole, cons_append, returned_goes nextPrompt (nextValue.symm ▸ ends)]
    exact .given data behind none rfl
  cases ending with
  | crLf => exact ended lineFeed (.inl rfl) rfl fit.1 fit.2
  | crNul => exact ended 0 (.inr rfl) rfl fit.1 fit.2
  | bare =>
    obtain ⟨_, whole⟩ := cons_eq_cons.mp whole
    rw [map_eq_nil_iff.mp whole, nil_append]
    obtain ⟨held, behind⟩ := fit
    by_cases there : Pushed (streamOf rest)
    · obtain ⟨next, later, value, rfl, single, notFeed, notNul⟩ := held not_false there
      have nextWhole := next.whole
      rw [single.1] at nextWhole
      obtain ⟨arrival, others, nextKnown, arrivalValue, noMore⟩ := map_eq_cons_iff.mp nextWhole
      rw [map_eq_nil_iff] at noMore
      rw [noMore] at nextKnown
      have stream : streamOf (next :: later) = arrival :: streamOf later := by
        rw [streamOf_cons, nextKnown]
        rfl
      have arrivalPrompt : arrival.prompt := by
        obtain ⟨head, tail, same, headPrompt⟩ := there
        rw [stream] at same
        cases same
        exact headPrompt
      have other : ¬ (arrival.value = lineFeed ∨ arrival.value = 0) := by
        rw [arrivalValue]
        exact fun either => either.elim notFeed notNul
      have isHeld : (¬ False ∧ Pushed (streamOf (next :: later))) = True := by simpa using there
      rw [isHeld] at behind
      rw [stream, returned_back arrivalPrompt other, arrivalValue]
      refine ⟨next :: later, .inr ⟨carriageReturn, rfl, .back behind single rfl rfl, ?_, ?_, ?_⟩⟩
      · rw [dataOf_cons, data]
        rfl
      · rw [streamOf_cons piece, waits_append, known, waits_cons]
        omega
      · intro rounds drain
        rw [DrainFit, Piece.late_cons known, prompt] at drain
        have alone := drain (.inl rfl) (Nat.succ_pos rounds)
        rw [token] at alone
        exact absurd there (alone rfl)
    · have unheld : (¬ False ∧ Pushed (streamOf rest)) = False := by simpa using there
      rw [unheld] at behind
      rw [returned_alone there]
      exact .given data behind none rfl

/-- The loop gives out the first byte of data, or it waits for a piece. -/
theorem readLoop_exact {pieces : List Piece} {turns : Nat} (fit : Fit False pieces) (none : decoder.pending = none)
    (stream : decoder.stream = streamOf pieces) (enough : decoder.stream.length < turns) :
    Exact decoder pieces (readLoop turns decoder) := by
  induction pieces generalizing decoder turns with
  | nil =>
    obtain ⟨turns, rfl⟩ := Nat.exists_eq_succ_of_ne_zero (by omega : turns ≠ 0)
    rw [readLoop_nil stream]
    exact ⟨[], .inl ⟨rfl, fit, none, stream, rfl, .inl rfl, fun _ _ _ => trivial⟩⟩
  | cons piece rest ih =>
    obtain ⟨turns, rfl⟩ := Nat.exists_eq_succ_of_ne_zero (by omega : turns ≠ 0)
    obtain ⟨first, more, known⟩ := piece.arrivals_cons
    rw [streamOf_cons, known] at stream
    rw [stream] at enough
    by_cases late : 0 < first.late
    · rw [readLoop_late stream late]
      exact .late known fit none late
    have prompt : first.late = 0 := by omega
    have piecePrompt : piece.late = 0 := (Piece.late_cons known).trans prompt
    have whole := piece.whole
    have behind := fit
    rw [known] at whole
    rw [Fit] at behind
    cases token : piece.token with
    | data value plain =>
      rw [token] at whole behind
      by_cases escaped : value = iac
      · have bytes : (Token.data value plain).bytes = [iac, iac] := by simp [Token.bytes, binaryWrite, escaped]
        rw [bytes] at whole
        obtain ⟨firstValue, whole⟩ := cons_eq_cons.mp whole
        obtain ⟨second, others, rfl, secondValue, whole⟩ := map_eq_cons_iff.mp whole
        rw [map_eq_nil_iff.mp whole] at stream
        rw [readLoop_doubled stream prompt firstValue secondValue, ← escaped]
        exact .given (by rw [token]; rfl) behind none rfl
      · have bytes : (Token.data value plain).bytes = [value] := by simp [Token.bytes, binaryWrite, escaped]
        rw [bytes] at whole
        obtain ⟨firstValue, whole⟩ := cons_eq_cons.mp whole
        rw [map_eq_nil_iff.mp whole] at stream
        rw [readLoop_data stream prompt (firstValue ▸ escaped) (firstValue ▸ plain), firstValue]
        exact .given (by rw [token]; rfl) behind none rfl
    | line ending =>
      have firstValue : first.value = carriageReturn := by
        rw [token] at whole
        cases ending <;> exact (cons_eq_cons.mp whole).1
      rw [readLoop_line stream prompt firstValue]
      exact .line token known prompt fit none
    | option command choice negotiates =>
      rw [token] at whole behind
      obtain ⟨firstValue, whole⟩ := cons_eq_cons.mp whole
      obtain ⟨second, others, rfl, secondValue, whole⟩ := map_eq_cons_iff.mp whole
      obtain ⟨third, others, rfl, thirdValue, whole⟩ := map_eq_cons_iff.mp whole
      rw [map_eq_nil_iff.mp whole] at stream enough
      rw [readLoop_option stream prompt firstValue (secondValue ▸ negotiates)]
      simp only [cons_append, nil_append, length_cons] at enough
      have next : Exact { decoder with stream := streamOf rest } rest
          (readLoop turns { decoder with stream := streamOf rest }) :=
        ih behind none rfl (by dsimp only; omega)
      exact next.skipped (by rw [token]; rfl) piecePrompt (by simp [token]) (by simp [token])
        (by simp [token, Token.Names])
    | block choice payload =>
      rw [token] at whole behind
      obtain ⟨firstValue, whole⟩ := cons_eq_cons.mp whole
      obtain ⟨second, others, rfl, secondValue, whole⟩ := map_eq_cons_iff.mp whole
      obtain ⟨third, others, rfl, thirdValue, whole⟩ := map_eq_cons_iff.mp whole
      obtain ⟨after, read, afterStream, afterPending, named⟩ :=
        readBlock_whole choice payload decoder (streamOf rest) whole behind.1
      rw [← thirdValue] at read
      rw [readLoop_block stream prompt firstValue secondValue read]
      simp only [length_cons, length_append] at enough
      have next : Exact after rest (readLoop turns after) :=
        ih behind.2 (afterPending.trans none) afterStream (by rw [afterStream]; omega)
      exact next.skipped (by rw [token]; rfl) piecePrompt (by simp [token]) (by simp [token])
        (by rw [token]; exact named)
    | short command other =>
      rw [token] at whole behind
      obtain ⟨firstValue, whole⟩ := cons_eq_cons.mp whole
      obtain ⟨second, others, rfl, secondValue, whole⟩ := map_eq_cons_iff.mp whole
      rw [map_eq_nil_iff.mp whole] at stream enough
      rw [readLoop_short stream prompt firstValue (secondValue ▸ other)]
      simp only [cons_append, nil_append, length_cons] at enough
      have next : Exact { decoder with stream := streamOf rest } rest
          (readLoop turns { decoder with stream := streamOf rest }) :=
        ih behind none rfl (by dsimp only; omega)
      exact next.skipped (by rw [token]; rfl) piecePrompt (by simp [token]) (by simp [token])
        (by simp [token, Token.Names])

end Loop

section Calls

variable {decoder : Decoder} {pieces : List Piece}

def Returns (decoder : Decoder) (data : Bytes) : Prop := ∃ count, ∀ more, calls (count + more) decoder = data

theorem Returns.again {after : Decoder} {data : Bytes} (result : readByte decoder = (.again, after))
    (returns : Returns after data) : Returns decoder data := by
  obtain ⟨count, later⟩ := returns
  refine ⟨count + 1, fun more => ?_⟩
  rw [Nat.succ_add, calls, result]
  exact later more

theorem Returns.byte {value : UInt8} {after : Decoder} {data : Bytes} (result : readByte decoder = (.byte value, after))
    (returns : Returns after data) : Returns decoder (value :: data) := by
  obtain ⟨count, later⟩ := returns
  refine ⟨count + 1, fun more => ?_⟩
  rw [Nat.succ_add, calls, result]
  exact congrArg (value :: ·) (later more)

theorem Returns.ended (none : decoder.pending = none) (stream : decoder.stream = []) : Returns decoder [] := by
  have result : readByte decoder = (.again, decoder) := by rw [readByte, none]; exact readLoop_nil stream
  refine ⟨0, fun more => ?_⟩
  rw [zero_add]
  induction more with
  | zero => rfl
  | succ more ih =>
    rw [calls, result]
    exact ih

theorem readByte_exact (fit : Fit False pieces) (none : decoder.pending = none)
    (stream : decoder.stream = streamOf pieces) : Exact decoder pieces (readByte decoder) := by
  rw [readByte, none]
  exact readLoop_exact fit none stream (Nat.lt_succ_self _)

theorem readByte_back {value : UInt8} (some : decoder.pending = some value) :
    readByte decoder = (.byte value, { decoder with pending := none }) := by
  rw [readByte, some]

/-- Calls from any state between two calls. -/
theorem returns_of_ready {size : Nat} (bound : waits (streamOf pieces) ≤ size) (ready : Ready decoder pieces) :
    Returns decoder (dataOf pieces) := by
  induction size using Nat.strong_induction_on generalizing decoder pieces with
  | h size ih =>
    cases ready with
    | free fit none stream =>
      obtain ⟨later, ⟨again, polled⟩ | ⟨value, returned, taken⟩⟩ := readByte_exact fit none stream
      · refine Returns.again (Prod.ext again rfl) ?_
        rw [← polled.same]
        rcases polled.fewer with rfl | fewer
        · exact Returns.ended polled.none polled.stream
        · exact ih _ (fewer.trans_le bound) le_rfl (.free polled.fit polled.none polled.stream)
      · refine taken.first ▸ Returns.byte (Prod.ext returned rfl) ?_
        exact ih _ (taken.fewer.trans_le bound) le_rfl taken.ready
    | @back piece rest value fit single some stream =>
      rw [dataOf_cons, single.2]
      refine Returns.byte (readByte_back some) ?_
      obtain ⟨first, more, known⟩ := piece.arrivals_cons
      rw [streamOf_cons, waits_append, known, waits_cons] at bound
      exact ih _ (by omega) le_rfl (.free (fit.released single) rfl stream)

/-- Calls behind the drain. -/
theorem returns_of_drain {rounds : Nat} (fit : Fit False pieces) (none : decoder.pending = none)
    (stream : decoder.stream = streamOf pieces) (drain : decoder.terminalType = [] → DrainFit rounds False pieces) :
    Returns (drainRounds rounds decoder) (dataOf pieces) := by
  induction rounds generalizing decoder pieces with
  | zero => exact returns_of_ready le_rfl (.free fit none stream)
  | succ rounds ih =>
    rw [drainRounds]
    split_ifs with named
    · exact returns_of_ready le_rfl (.free fit none stream)
    have unnamed : (decoder.terminalType ≠ []) = False := by simpa using named
    have fits := drain (not_not.mp named)
    rw [← unnamed] at fits
    obtain ⟨later, ⟨again, polled⟩ | ⟨value, returned, taken⟩⟩ := readByte_exact fit none stream
    · have result : readByte decoder = (.again, (readByte decoder).2) := Prod.ext again rfl
      rw [result, ← polled.same]
      exact ih polled.fit polled.none polled.stream (polled.drains rounds fits)
    · have result : readByte decoder = (.byte value, (readByte decoder).2) := Prod.ext returned rfl
      have empty := taken.drains rounds fits
      rw [result, taken.first]
      refine Returns.byte (readByte_back rfl) ?_
      have same : { (readByte decoder).2 with pending := Option.none } = (readByte decoder).2 := by
        rw [← empty]
      rw [same]
      exact returns_of_ready le_rfl taken.ready

/-- The calls return the data of the pieces when every piece fits to what is there behind it. -/
theorem input_exact (drained : Bool) (fit : Fit False pieces) (none : decoder.pending = none)
    (stream : decoder.stream = streamOf pieces)
    (drain : drained → decoder.terminalType = [] → DrainFit 6 False pieces) :
    Returns (if drained then drainNegotiation decoder else decoder) (dataOf pieces) := by
  cases drained with
  | false => exact returns_of_ready le_rfl (.free fit none stream)
  | true => exact returns_of_drain fit none stream (drain rfl)

/-- A session whose bytes are still to be read. -/
def opened (stream : List Arrival) : Decoder := ⟨stream, none, false, [], 0, 0⟩

def sizeThenLine : List Piece :=
  [⟨.block optNaws [0, 80, 0, 255],
      [⟨255, 0, true⟩, ⟨250, 0, true⟩, ⟨31, 0, true⟩, ⟨0, 0, true⟩, ⟨80, 0, false⟩, ⟨0, 0, true⟩, ⟨255, 0, true⟩,
        ⟨255, 0, true⟩, ⟨255, 0, true⟩, ⟨240, 0, true⟩], by decide +kernel⟩,
    ⟨.data 97 (by decide), [⟨97, 2, false⟩], by decide +kernel⟩,
      ⟨.line .crLf, [⟨13, 0, true⟩, ⟨10, 0, true⟩], by decide +kernel⟩]

theorem size_then_line_exact :
    Returns (drainNegotiation (opened (streamOf sizeThenLine))) [97, carriageReturn] := by
  have whole : Whole optNaws [0, 80, 0, 255] := by
    trivial
  have fit : Fit False sizeThenLine := ⟨whole, ⟨_, _, rfl, rfl⟩, trivial⟩
  exact input_exact true fit rfl rfl fun _ _ _ _ _ _ => trivial

def returnThenCommand : List Piece :=
  [⟨.line .bare, [⟨13, 0, true⟩], by decide +kernel⟩,
    ⟨.short 241 (by decide), [⟨255, 0, true⟩, ⟨241, 0, true⟩], by decide +kernel⟩]

/-- The command is given out as two bytes of data. -/
theorem command_given_out : ¬ Returns (opened (streamOf returnThenCommand)) (dataOf returnThenCommand) := by
  rintro ⟨count, returns⟩
  have lengths := congrArg length (returns 3)
  have three : calls (count + 3) (opened (streamOf returnThenCommand)) =
      13 :: 255 :: 241 :: calls count ⟨[], none, true, [], 0, 0⟩ := rfl
  rw [three] at lengths
  have data : (dataOf returnThenCommand).length = 1 := rfl
  simp only [length_cons] at lengths
  omega

end Calls

end SshChatter.TelnetInput
