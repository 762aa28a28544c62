import SshChatter.FileTransfer.TelnetTransparency

namespace SshChatter.TelnetInput
open CString Telnet

def optTerminalType : UInt8 := 24

def optNaws : UInt8 := 31

abbrev terminalTypeLen : Nat := 64

abbrev messageLimit : Nat := 4096

def carriageReturn : UInt8 := 13

def lineFeed : UInt8 := 10

/-- A byte that arrives: how many polls for it time out, and whether it is there when the byte in front of it is
taken. -/
structure Arrival where
  value : UInt8
  late : Nat
  prompt : Bool

/-- The fields of a session that `session_telnet_read_byte` uses, with the bytes that are still to be read. -/
structure Decoder where
  stream : List Arrival
  pending : Option UInt8
  consumeNextLf : Bool
  terminalType : Bytes
  terminalWidth : Nat
  terminalHeight : Nat

/-- What a call returns. A call waits when the stream ends inside of a command. -/
inductive Returned where
  | byte (value : UInt8)
  | again
  | waiting
  deriving DecidableEq

def storeType (typed : Bytes) (chunk : UInt8) : Bytes := if typed.length + 1 < terminalTypeLen then typed ++
    [chunk] else typed

/-- The loop over the terminal type behind the qualifier. -/
def readType (typed : Bytes) : List Arrival → Option (Bytes × List Arrival)
  | [] => none
  | chunk :: rest =>
    if chunk.value = iac then
      match rest with
      | [] => none
      | next :: rest =>
        if next.value = cmdSe then some (typed, rest)
        else if next.value = iac then readType (storeType typed iac) rest
        else readType typed rest
    else readType (storeType typed chunk.value) rest

def readSize (escaped : Bool) (data : Bytes) : List Arrival → Option (Bytes × List Arrival)
  | [] => none
  | chunk :: rest =>
    if escaped then
      if chunk.value = cmdSe then some (data, rest)
      else readSize false (if chunk.value = iac ∧ data.length < 4 then data ++ [iac] else data) rest
    else if chunk.value = iac then readSize true data rest
    else readSize false (if data.length < 4 then data ++ [chunk.value] else data) rest

/-- The loop over every other block. -/
def skipOther (prev : UInt8) : List Arrival → Option (List Arrival)
  | [] => none
  | chunk :: rest =>
    if prev = iac ∧ chunk.value = cmdSe then some rest else skipOther (if chunk.value = iac then iac else 0) rest

def toUpper (c : UInt8) : UInt8 := if 97 ≤ c ∧ c ≤ 122 then c - 32 else c

def Decoder.typed (decoder : Decoder) (qualifier : UInt8) (typed : Bytes) : Decoder :=
  let text := trimSpace (typed.takeWhile (· ≠ 0))
  if qualifier = 0 ∧ text ≠ [] then { decoder with terminalType := text.map toUpper } else decoder

/-- A window size of four bytes is kept. -/
def Decoder.resized (decoder : Decoder) (data : Bytes) : Decoder :=
  match data with
  | [w, w', h, h'] =>
    let width := w.toNat * 256 + w'.toNat
    let height := h.toNat * 256 + h'.toNat
    { decoder with
      terminalWidth := if 0 < width ∧ width ≤ messageLimit then width else decoder.terminalWidth
      terminalHeight := if 0 < height then height else decoder.terminalHeight }
  | _ => decoder

def readBlock (choice : UInt8) (decoder : Decoder) : Option Decoder :=
  if choice = optTerminalType then
    match decoder.stream with
    | [] => none
    | qualifier :: rest =>
      (readType [] rest).map fun found => { decoder.typed qualifier.value found.1 with stream := found.2 }
  else if choice = optNaws then
    (readSize false [] decoder.stream).map fun found => { decoder.resized found.1 with stream := found.2 }
  else (skipOther 0 decoder.stream).map fun rest => { decoder with stream := rest }

/-- The commands with an option. -/
def negotiating : List UInt8 := [cmdDo, cmdDont, cmdWill, cmdWont]

/-- The carriage return is given out. What is there behind it is looked at: a line feed or a NUL goes, another byte is
pushed back. -/
def Decoder.returned (decoder : Decoder) (rest : List Arrival) : Decoder :=
  let taken := { decoder with stream := rest, consumeNextLf := true }
  match rest with
  | [] => taken
  | next :: later =>
    if next.prompt = false then taken
    else if next.value = lineFeed ∨ next.value = 0 then { taken with stream := later }
    else { taken with stream := later, pending := some next.value }

/-- The loop of `session_telnet_read_byte`, with a bound on its turns. -/
def readLoop : Nat → Decoder → Returned × Decoder
  | 0, decoder => (.waiting, decoder)
  | turns + 1, decoder =>
    match decoder.stream with
    | [] => (.again, decoder)
    | first :: rest =>
      if 0 < first.late then (.again, { decoder with stream := { first with late := first.late - 1 } :: rest })
      else if first.value = iac then
        match rest with
        | [] => (.waiting, { decoder with stream := [] })
        | command :: rest =>
          if command.value = iac then (.byte iac, { decoder with stream := rest })
          else if command.value ∈ negotiating then
            match rest with
            | [] => (.waiting, { decoder with stream := [] })
            | _ :: rest => readLoop turns { decoder with stream := rest }
          else if command.value = cmdSb then
            match rest with
            | [] => (.waiting, { decoder with stream := [] })
            | choice :: rest =>
              match readBlock choice.value { decoder with stream := rest } with
              | none => (.waiting, { decoder with stream := [] })
              | some after => readLoop turns after
          else readLoop turns { decoder with stream := rest }
      else if first.value = carriageReturn then (.byte carriageReturn, decoder.returned rest)
      else (.byte first.value, { decoder with stream := rest })

def readByte (decoder : Decoder) : Returned × Decoder :=
  match decoder.pending with
  | some value => (.byte value, { decoder with pending := none })
  | none => readLoop (decoder.stream.length + 1) decoder

def calls : Nat → Decoder → Bytes
  | 0, _ => []
  | count + 1, decoder =>
    match readByte decoder with
    | (.byte value, after) => value :: calls count after
    | (_, after) => calls count after

/-- The loop of `session_telnet_drain_negotiation`. -/
def drainRounds : Nat → Decoder → Decoder
  | 0, decoder => decoder
  | rounds + 1, decoder =>
    if decoder.terminalType ≠ [] then decoder
    else
      match readByte decoder with
      | (.byte value, after) => { after with pending := some value }
      | (_, after) => drainRounds rounds after

def drainNegotiation (decoder : Decoder) : Decoder := drainRounds 6 decoder

end SshChatter.TelnetInput
