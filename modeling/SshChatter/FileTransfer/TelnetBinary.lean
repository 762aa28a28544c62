import SshChatter.Lib.CString

namespace SshChatter.Telnet
open CString List

def iac : UInt8 := 255

def cmdSe : UInt8 := 240

def cmdSb : UInt8 := 250

def cmdWill : UInt8 := 251

def cmdWont : UInt8 := 252

def cmdDo : UInt8 := 253

def cmdDont : UInt8 := 254

/-- The options that the file transfer agrees to are `TELNET_OPT_BINARY` and `TELNET_OPT_SUPPRESS_GO_AHEAD`. -/
def agreed (option : UInt8) : Bool := option = 0 ∨ option = 3

def binaryWrite (data : Bytes) : Bytes := data.flatMap fun byte => if byte = iac then [byte, byte] else [byte]

/-- The loop that consumes a subnegotiation until `IAC SE`. -/
def skipSubnegotiation (prev : UInt8) : Bytes → Bytes
  | [] => []
  | chunk :: rest =>
    if prev = iac ∧ chunk = cmdSe then rest else skipSubnegotiation (if chunk = iac then iac else 0) rest

theorem skipSubnegotiation_length (prev : UInt8) (stream : Bytes) :
    (skipSubnegotiation prev stream).length ≤ stream.length := by
  induction stream generalizing prev with
  | nil => rfl
  | cons chunk rest ih =>
    rw [skipSubnegotiation, length_cons]
    by_cases ends : prev = iac ∧ chunk = cmdSe
    · rw [if_pos ends]
      omega
    · rw [if_neg ends]
      exact (ih _).trans (Nat.le_succ _)

/-- What one call returns, what it leaves of the stream and what it sends. There is no value when the stream ends. -/
structure ReadResult where
  value : Option UInt8
  rest : Bytes
  sent : Bytes

def ReadResult.answering (answer : Bytes) (result : ReadResult) : ReadResult :=
  { result with sent := answer ++ result.sent }

/-- This is `telnet_binary_read` on the bytes that arrive. Each call returns one byte. -/
def binaryRead (stream : Bytes) : ReadResult :=
  match stream with
  | [] => ⟨none, [], []⟩
  | byte :: rest =>
    if byte = iac then
      match rest with
      | [] => ⟨none, [], []⟩
      | command :: rest =>
        if command = iac then ⟨some iac, rest, []⟩
        else if command = cmdDo then
          match rest with
          | [] => ⟨none, [], []⟩
          | option :: rest =>
            (binaryRead rest).answering [iac, if agreed option then cmdWill else cmdWont, option]
        else if command = cmdDont then
          match rest with
          | [] => ⟨none, [], []⟩
          | option :: rest => (binaryRead rest).answering [iac, cmdWont, option]
        else if command = cmdWill then
          match rest with
          | [] => ⟨none, [], []⟩
          | option :: rest =>
            (binaryRead rest).answering [iac, if agreed option then cmdDo else cmdDont, option]
        else if command = cmdSb then binaryRead (skipSubnegotiation 0 rest)
        else binaryRead rest
    else ⟨some byte, rest, []⟩
termination_by stream.length
decreasing_by
  all_goals simp only [length_cons]
  all_goals first | omega | exact Nat.lt_of_le_of_lt (skipSubnegotiation_length 0 _) (by omega)

/-- The complete commands of the protocol. The content of a subnegotiation is sent with its `IAC` bytes doubled. -/
inductive Command where
  | doOption (option : UInt8)
  | dontOption (option : UInt8)
  | willOption (option : UInt8)
  | wontOption (option : UInt8)
  | subnegotiation (content : Bytes)
  | other (code : UInt8) (known : code ∉ [iac, cmdDo, cmdDont, cmdWill, cmdWont, cmdSb])

def Command.bytes : Command → Bytes
  | .doOption option => [iac, cmdDo, option]
  | .dontOption option => [iac, cmdDont, option]
  | .willOption option => [iac, cmdWill, option]
  | .wontOption option => [iac, cmdWont, option]
  | .subnegotiation content => iac :: cmdSb :: (binaryWrite content ++ [iac, cmdSe])
  | .other code _ => [iac, code]

/-- The stream of the peer is made of data bytes and of commands between them. -/
inductive Item where
  | data (byte : UInt8)
  | command (inserted : Command)

def Item.bytes : Item → Bytes
  | .data byte => binaryWrite [byte]
  | .command inserted => inserted.bytes

def streamOf (items : List Item) : Bytes := items.flatMap Item.bytes

/-- What each call should return, and what it should leave of the stream. -/
def expected : List Item → List (UInt8 × Bytes)
  | [] => []
  | .data byte :: rest => (byte, streamOf rest) :: expected rest
  | .command _ :: rest => expected rest

def dataOf : List Item → Bytes
  | [] => []
  | .data byte :: rest => byte :: dataOf rest
  | .command _ :: rest => dataOf rest

section Reader

variable {rest : Bytes}

theorem binaryRead_data {byte : UInt8} (plain : byte ≠ iac) (rest : Bytes) :
    binaryRead (byte :: rest) = ⟨some byte, rest, []⟩ := by
  rw [binaryRead.eq_def]
  simp only [if_neg plain]

theorem binaryRead_iac (rest : Bytes) : binaryRead (iac :: iac :: rest) = ⟨some iac, rest, []⟩ := by
  rw [binaryRead.eq_def]
  simp only [if_true]

variable {command : UInt8}

theorem binaryRead_option (negotiates : command ∈ [cmdDo, cmdDont, cmdWill]) (option : UInt8) (rest : Bytes) :
    ∃ answer, binaryRead (iac :: command :: option :: rest) = (binaryRead rest).answering answer := by
  simp only [mem_cons, not_mem_nil, or_false] at negotiates
  rcases negotiates with rfl | rfl | rfl
  · refine ⟨[iac, if agreed option then cmdWill else cmdWont, option], ?_⟩
    rw [binaryRead.eq_def]
    simp only [show ¬ cmdDo = iac by decide, if_false, if_true]
  · refine ⟨[iac, cmdWont, option], ?_⟩
    rw [binaryRead.eq_def]
    simp only [show ¬ cmdDont = iac by decide, show ¬ cmdDont = cmdDo by decide, if_false, if_true]
  · refine ⟨[iac, if agreed option then cmdDo else cmdDont, option], ?_⟩
    rw [binaryRead.eq_def]
    simp only [show ¬ cmdWill = iac by decide, show ¬ cmdWill = cmdDo by decide, show ¬ cmdWill = cmdDont by decide,
      if_false, if_true]

theorem binaryRead_subnegotiation (rest : Bytes) :
    binaryRead (iac :: cmdSb :: rest) = binaryRead (skipSubnegotiation 0 rest) := by
  rw [binaryRead.eq_def]
  simp only [show ¬ cmdSb = iac by decide, show ¬ cmdSb = cmdDo by decide, show ¬ cmdSb = cmdDont by decide,
    show ¬ cmdSb = cmdWill by decide, if_false, if_true]

theorem binaryRead_other (other : command ∉ [iac, cmdDo, cmdDont, cmdWill, cmdSb]) (rest : Bytes) :
    binaryRead (iac :: command :: rest) = binaryRead rest := by
  simp only [mem_cons, not_or] at other
  rw [binaryRead.eq_def]
  simp only [other, if_false, if_true]

/-- A command is passed over, and the call goes on behind it unless the stream ends. -/
theorem binaryRead_command (escaped : command ≠ iac) (rest : Bytes) :
    (binaryRead (iac :: command :: rest)).value = none ∨
      ∃ later : Bytes, later.length ≤ rest.length ∧
        (binaryRead (iac :: command :: rest)).value = (binaryRead later).value ∧
        (binaryRead (iac :: command :: rest)).rest = (binaryRead later).rest := by
  by_cases negotiates : command ∈ [cmdDo, cmdDont, cmdWill]
  · cases rest with
    | nil =>
      left
      simp only [mem_cons, not_mem_nil, or_false] at negotiates
      rcases negotiates with rfl | rfl | rfl <;> rw [binaryRead.eq_def] <;> rfl
    | cons option rest =>
      obtain ⟨answer, result⟩ := binaryRead_option negotiates option rest
      rw [result]
      exact .inr ⟨rest, Nat.le_succ _, rfl, rfl⟩
  by_cases sub : command = cmdSb
  · rw [sub, binaryRead_subnegotiation]
    exact .inr ⟨_, skipSubnegotiation_length 0 rest, rfl, rfl⟩
  · have other : command ∉ [iac, cmdDo, cmdDont, cmdWill, cmdSb] := by
      simp only [mem_cons, not_mem_nil, or_false, not_or] at negotiates ⊢
      exact ⟨escaped, negotiates.1, negotiates.2.1, negotiates.2.2, sub⟩
    rw [binaryRead_other other]
    exact .inr ⟨rest, le_rfl, rfl, rfl⟩

/-- A call that returns a byte has consumed some of the stream. -/
theorem binaryRead_length (stream : Bytes) {byte : UInt8} (returned : (binaryRead stream).value = some byte) :
    (binaryRead stream).rest.length < stream.length := by
  induction length : stream.length using Nat.strongRecOn generalizing stream with
  | ind size ih =>
    cases stream with
    | nil => cases binaryRead.eq_def [] ▸ returned
    | cons first rest =>
      rw [length_cons] at length
      by_cases plain : first = iac
      · subst plain
        cases rest with
        | nil => cases binaryRead.eq_def [iac] ▸ returned
        | cons command rest =>
          rw [length_cons] at length
          by_cases escaped : command = iac
          · rw [escaped, binaryRead_iac]
            show rest.length < size
            omega
          obtain missing | ⟨later, shorter, sameValue, sameRest⟩ := binaryRead_command escaped rest
          · rw [missing] at returned
            cases returned
          · rw [sameRest]
            have inner := ih later.length (by omega) later (sameValue ▸ returned) rfl
            omega
      · rw [binaryRead_data plain]
        show rest.length < size
        omega

end Reader

end SshChatter.Telnet
