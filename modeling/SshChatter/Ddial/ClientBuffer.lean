import SshChatter.Ddial.ClientLine
import SshChatter.Lib.LineScan

namespace SshChatter.Ddial
open CString DdialProtocol List

def recvChunkSize : Nat := 4096

/-- This is the size of `recv_buffer`. -/
def recvBufferSize : Nat := messageLimit * 4

def maxExtractedLines : Nat := 64

/-- This is `ddial_telnet_state_t`. -/
inductive ClientTelnet where
  | data
  | iac
  | opt
  | sbOpt
  | sb
  | sbIac
  deriving DecidableEq

/-- One byte moves the parser of `ddial_client_process_telnet` and may be text. The answers are left out. -/
def telnetStep (state : ClientTelnet) (c : UInt8) : ClientTelnet × Option UInt8 :=
  match state with
  | .data => if c = 0xFF then (.iac, none) else (.data, some c)
  | .iac =>
    if c = 0xFF then (.data, some 0xFF)
    else if 0xF0 ≤ c ∧ c ≤ 0xFA then (if c = 0xFA then .sbOpt else .data, none)
    else if 0xFB ≤ c ∧ c ≤ 0xFE then (.opt, none)
    else (.data, none)
  | .opt => (.data, none)
  | .sbOpt => (.sb, none)
  | .sb => (if c = 0xFF then .sbIac else .sb, none)
  | .sbIac => (if c = 0xFF then .sb else .data, none)

def telnetState (state : ClientTelnet) (src : Bytes) : ClientTelnet := src.foldl (fun s c => (telnetStep s c).1) state

def telnetText (state : ClientTelnet) : Bytes → Bytes
  | [] => []
  | c :: src => (telnetStep state c).2.toList ++ telnetText (telnetStep state c).1 src

theorem telnetText_append (state : ClientTelnet) (src more : Bytes) :
    telnetText state (src ++ more) = telnetText state src ++ telnetText (telnetState state src) more := by
  induction src generalizing state with
  | nil => rfl
  | cons c src ih =>
    rw [cons_append, telnetText, telnetText, ih, append_assoc]
    rfl

theorem telnetText_plain {src : Bytes} (plain : 0xFF ∉ src) :
    telnetText .data src = src ∧ telnetState .data src = .data := by
  induction src with
  | nil => exact ⟨rfl, rfl⟩
  | cons c src ih =>
    obtain ⟨other, plain⟩ := not_or.mp (mt mem_cons.mpr plain)
    have step : telnetStep .data c = (.data, some c) := if_neg (Ne.symm other)
    obtain ⟨text, state⟩ := ih plain
    constructor
    · rw [telnetText, step, text]
      rfl
    · rw [telnetState, foldl_cons, step]
      exact state

/-- The end of the first line as its position and its length. Both bytes together are looked for first, then a feed,
then a return unless the buffer ends with one. -/
def findEol (buf : Bytes) : Option (Nat × Nat) :=
  match strstr crlf buf with
  | some (before, _) => some (before.length, 2)
  | none =>
    match strchr 10 buf with
    | some (before, _) => some (before.length, 1)
    | none =>
      if buf.getLast? = some 13 then none
      else (strchr 13 buf).map fun found => (found.1.length, 1)

def lineText (line : Bytes) : Bytes :=
  (if line.getLast? = some 13 then line.dropLast else line).takeWhile (· ≠ 0)

/-- What `ddial_client_extract_lines` comes to. -/
inductive Extraction where
  | lines (handed : List Bytes) (rest : Bytes)
  | hungUp (lockout : Bool)
  deriving DecidableEq

/-- One more line is handed on in front. -/
def Extraction.push (text : Bytes) : Extraction → Extraction
  | .lines handed rest => .lines (text :: handed) rest
  | .hungUp lockout => .hungUp lockout

/-- The end of a line stands inside the buffer. -/
theorem findEol_pos {buf : Bytes} {position size : Nat} (found : findEol buf = some (position, size)) :
    0 < size ∧ buf ≠ [] := by
  constructor
  · rw [findEol] at found
    split at found
    · simp only [Option.some.injEq, Prod.mk.injEq] at found
      omega
    · split at found
      · simp only [Option.some.injEq, Prod.mk.injEq] at found
        omega
      · split_ifs at found
        obtain ⟨_, _, same⟩ := Option.map_eq_some_iff.mp found
        simp only [Prod.mk.injEq] at same
        omega
  · rintro rfl
    cases found

theorem drop_shorter {buf : Bytes} {position size : Nat} (found : findEol buf = some (position, size)) (k : Nat) :
    (buf.drop (k + size)).length < buf.length := by
  obtain ⟨positive, nonEmpty⟩ := findEol_pos found
  have someBytes := length_pos_of_ne_nil nonEmpty
  rw [length_drop]
  omega

/-- This is the loop of `ddial_client_extract_lines` with the lines that may still be handed on. -/
def extractLoop (left : Nat) (buf : Bytes) : Extraction :=
  if left = 0 then .lines [] buf
  else
    match _found : findEol buf with
    | none => .lines [] buf
    | some (position, size) =>
      let lineLen := min position (messageLimit - 1)
      let line := lineText (buf.take lineLen)
      let rest := buf.drop (lineLen + size)
      let normalized := normalizeLine line
      if line = [] ∨ normalized = [] then extractLoop left rest
      else if hangsUp normalized then .hungUp (lineLooksLikeLockout normalized)
      else (extractLoop (left - 1) rest).push (handedOn line)
termination_by buf.length
decreasing_by all_goals exact drop_shorter _found _

/-- The part of `ddial_client_t` that receiving works on. -/
structure UpstreamClient where
  buffer : Bytes
  telnet : ClientTelnet
  connected : Bool
  lockedOut : Bool
  userMode : Bool
  deriving DecidableEq

def UpstreamClient.telnetByte (client : UpstreamClient) (c : UInt8) : UpstreamClient :=
  let step := telnetStep client.telnet c
  { client with
    telnet := step.1
    buffer := if client.buffer.length < recvBufferSize then client.buffer ++ step.2.toList else client.buffer }

def processTelnet (client : UpstreamClient) (src : Bytes) : UpstreamClient := src.foldl UpstreamClient.telnetByte client

def dropOldest (buffer : Bytes) : Bytes :=
  if recvBufferSize - recvChunkSize < buffer.length then buffer.drop (buffer.length / 2) else buffer

def extractLines (client : UpstreamClient) (maxLines : Nat) : UpstreamClient × List Bytes :=
  match extractLoop maxLines client.buffer with
  | .lines handed rest => ({ client with buffer := rest }, handed)
  | .hungUp lockout =>
    ({ client with buffer := [], connected := false, lockedOut := client.lockedOut || (lockout && client.userMode) },
      [])

/-- This is `ddial_client_read_chunk` for the bytes that `recv` returned, with the lines that are broadcast. -/
def readChunk (client : UpstreamClient) (piece : Bytes) : UpstreamClient × List Bytes :=
  if client.connected = false ∨ piece = [] then (client, [])
  else
    let received := processTelnet client piece
    extractLines { received with buffer := dropOldest received.buffer } maxExtractedLines

/-- The reads of a connection one after another. -/
def readAll (client : UpstreamClient) : List Bytes → UpstreamClient × List Bytes
  | [] => (client, [])
  | piece :: pieces =>
    ((readAll (readChunk client piece).1 pieces).1,
      (readChunk client piece).2 ++ (readAll (readChunk client piece).1 pieces).2)

def EachRead (condition : UpstreamClient → Bytes → Prop) (client : UpstreamClient) : List Bytes → Prop
  | [] => True
  | piece :: pieces => condition client piece ∧ EachRead condition (readChunk client piece).1 pieces

instance decidableEachRead (condition : UpstreamClient → Bytes → Prop)
    [∀ client piece, Decidable (condition client piece)] :
    ∀ client pieces, Decidable (EachRead condition client pieces)
  | _, [] => .isTrue trivial
  | client, piece :: pieces =>
    @instDecidableAnd _ _ inferInstance (decidableEachRead condition (readChunk client piece).1 pieces)

def freshClient (userMode : Bool) : UpstreamClient := ⟨[], .data, true, false, userMode⟩

end SshChatter.Ddial
