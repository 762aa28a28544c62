import SshChatter.Lib.CString
import SshChatter.Lib.DoubleByte

namespace SshChatter.Codepage
open CString DoubleByte List

/-- The pages that go through the stateful conversion. -/
inductive MultibytePage where
  | cp949
  | cp932
  | cp936
  deriving DecidableEq

/-- What `iconv` makes of an input: no descriptor, or a flag for an error and the bytes that it wrote. One or two bytes
become four at most. -/
structure Iconv where
  convert : MultibytePage → Bytes → Option (Bool × Bytes)
  small : ∀ page bytes, bytes.length ≤ 2 → ∀ result ∈ convert page bytes, result.2.length ≤ 4

/-- This is `session_codepage_context_t`. -/
structure Context where
  leadByte : UInt8
  state : Int
  deriving DecidableEq

def Context.new : Context := ⟨0, 0⟩

/-- This is `session_codepage_to_utf8` for these pages. What was written in front of an error is kept. -/
def codepageToUtf8 (iconv : Iconv) (page : MultibytePage) (input : Bytes) : Bytes :=
  if input = [] then []
  else
    match iconv.convert page input with
    | none => []
    | some (true, produced) => if 0 < produced.length then produced else []
    | some (false, produced) => produced

def iconvChunk (iconv : Iconv) (page : MultibytePage) (bytes : Bytes) (capacity : Nat) : Bytes :=
  if bytes = [] ∨ capacity = 0 then []
  else
    let written := codepageToUtf8 iconv page bytes
    if written.length = 0 then [] else if capacity < written.length then [byte '?'] else written

def isLead : MultibytePage → UInt8 → Bool
  | .cp932, byte => (0x81 ≤ byte && byte ≤ 0x9F) || (0xE0 ≤ byte && byte ≤ 0xFC)
  | .cp949, byte | .cp936, byte => 0x81 ≤ byte && byte ≤ 0xFE

/-- This is `session_codepage_dbcs_to_utf8` with the number of nested calls that are allowed. It has no result when it
nests deeper. -/
def dbcsToUtf8 (iconv : Iconv) (page : MultibytePage) : Nat → Context → UInt8 → Nat → Option (Context × Bytes)
  | 0, _, _, _ => none
  | depth + 1, context, byte, capacity =>
    if capacity = 0 then some (context, [])
    else if context.state = 0 then
      if byte < 0x80 then some (context, [byte])
      else if isLead page byte then some (⟨byte, 1⟩, [])
      else
        let produced := iconvChunk iconv page [byte] capacity
        some (context, if produced.length = 0 then [CString.byte '?'] else produced)
    else
      let used := iconvChunk iconv page [context.leadByte, byte] capacity
      if 0 < used.length then some (⟨0, 0⟩, used)
      else
        let used := if used.length < capacity then used ++ [CString.byte '?'] else used
        (dbcsToUtf8 iconv page depth ⟨0, 0⟩ byte (capacity - used.length)).map fun rest => (rest.1, used ++ rest.2)

def byteToUtf8 (iconv : Iconv) (page : MultibytePage) (depth : Nat) (context : Context) (byte : UInt8)
    (capacity : Nat) : Option (Context × Bytes) :=
  if capacity = 0 then some (context, []) else dbcsToUtf8 iconv page depth context byte capacity

/-- A stream is fed byte by byte. This gives what each call writes and the last context. -/
def feed (iconv : Iconv) (page : MultibytePage) (depth capacity : Nat) :
    Context → Bytes → Option (List Bytes × Context)
  | context, [] => some ([], context)
  | context, byte :: rest =>
    (byteToUtf8 iconv page depth context byte capacity).bind fun result =>
      (feed iconv page depth capacity result.1 rest).map fun later => (result.2 :: later.1, later.2)

def conversion (iconv : Iconv) (page : MultibytePage) (bytes : Bytes) : Option Bytes :=
  let written := codepageToUtf8 iconv page bytes
  if written = [] then none else some written

def startByte (iconv : Iconv) (page : MultibytePage) (byte : UInt8) : First UInt8 :=
  if byte < 0x80 then .char [byte]
  else if isLead page byte then .lead
  else
    match conversion iconv page [byte] with
    | some out => .char out
    | none => .illegal

def pairBytes (iconv : Iconv) (page : MultibytePage) (lead second : UInt8) : Option Bytes :=
  conversion iconv page [lead, second]

def reference (iconv : Iconv) (page : MultibytePage) : Bytes → Bytes × Option UInt8 :=
  decode (startByte iconv page) (pairBytes iconv page) [byte '?']

/-- One byte of the reference decoding behind what waits. -/
def turn (iconv : Iconv) (page : MultibytePage) : Option UInt8 → UInt8 → Bytes × Option UInt8 :=
  shift (startByte iconv page) (pairBytes iconv page) [byte '?']

structure Context.Keeps (context : Context) (waiting : Option UInt8) : Prop where
  state : context.state = if waiting.isSome then 1 else 0
  lead : ∀ lead ∈ waiting, context.leadByte = lead

variable {iconv : Iconv} {page : MultibytePage} {context : Context} {capacity : Nat} {waiting : Option UInt8}

/-- What is converted is short and not empty. -/
theorem codepageToUtf8_length {bytes : Bytes} (short : bytes.length ≤ 2) :
    (codepageToUtf8 iconv page bytes).length ≤ 4 := by
  rw [codepageToUtf8]
  split_ifs
  · exact Nat.zero_le 4
  · cases converted : iconv.convert page bytes with
    | none => exact Nat.zero_le 4
    | some result =>
      have small := iconv.small page bytes short result (by rw [converted]; rfl)
      obtain ⟨_ | _, produced⟩ := result
      · exact small
      · dsimp only
        split_ifs
        · exact small
        · exact Nat.zero_le 4

theorem iconvChunk_eq {bytes : Bytes} (some' : bytes ≠ []) (short : bytes.length ≤ 2) (room : 4 ≤ capacity) :
    iconvChunk iconv page bytes capacity = (conversion iconv page bytes).getD [] := by
  have small : (codepageToUtf8 iconv page bytes).length ≤ 4 := codepageToUtf8_length short
  rw [iconvChunk, if_neg (by simp [some']; omega), conversion]
  by_cases empty : codepageToUtf8 iconv page bytes = []
  · simp [empty]
  · have enough : ¬ capacity < (codepageToUtf8 iconv page bytes).length := by omega
    simp only [length_eq_zero_iff, empty, if_false, if_neg enough, Option.getD_some]

theorem conversion_length {bytes out : Bytes} (short : bytes.length ≤ 2)
    (found : conversion iconv page bytes = some out) :
    0 < out.length ∧ out.length ≤ 4 := by
  have small : (codepageToUtf8 iconv page bytes).length ≤ 4 := codepageToUtf8_length short
  rw [conversion] at found
  split_ifs at found with empty
  cases found
  exact ⟨length_pos_iff.mpr empty, small⟩

/-- A byte at the start of a character is converted by one call. -/
theorem dbcsToUtf8_opening (depth : Nat) (byte : UInt8) (room : 4 ≤ capacity) (single : context.state = 0) :
    ∃ context', dbcsToUtf8 iconv page (depth + 1) context byte capacity =
        some (context', (opening (startByte iconv page) [CString.byte '?'] byte).1) ∧
      context'.Keeps (opening (startByte iconv page) [CString.byte '?'] byte).2 ∧
      (opening (startByte iconv page) [CString.byte '?'] byte).1.length ≤ 4 := by
  rw [dbcsToUtf8, if_neg (by omega), if_pos single, opening, startByte]
  by_cases ascii : byte < 0x80
  · rw [if_pos ascii, if_pos ascii]
    exact ⟨_, rfl, ⟨single, by simp⟩, by simp⟩
  by_cases lead : isLead page byte
  · rw [if_neg ascii, if_neg ascii, if_pos lead, if_pos lead]
    exact ⟨_, rfl, ⟨rfl, by simp⟩, by simp⟩
  · rw [if_neg ascii, if_neg ascii, if_neg lead, if_neg lead, iconvChunk_eq (by simp) (by simp) room]
    cases found : conversion iconv page [byte] with
    | none => exact ⟨_, rfl, ⟨single, by simp⟩, by simp⟩
    | some =>
      obtain ⟨positive, small⟩ := conversion_length (by simp) found
      refine ⟨context, ?_, ⟨single, by simp⟩, small⟩
      simp only [Option.getD_some, if_neg positive.ne']

/-- One call writes what the stream gives, eight bytes at most, and nests once. -/
theorem byteToUtf8_turn (iconv : Iconv) (page : MultibytePage) (keeps : context.Keeps waiting) (byte : UInt8)
    (room : 8 ≤ capacity) :
    ∃ context', byteToUtf8 iconv page 2 context byte capacity = some (context', (turn iconv page waiting byte).1) ∧
      context'.Keeps (turn iconv page waiting byte).2 ∧ (turn iconv page waiting byte).1.length ≤ 8 := by
  rw [byteToUtf8, if_neg (by omega)]
  cases waiting with
  | none =>
    obtain ⟨context', result, keeps', small⟩ := dbcsToUtf8_opening 1 byte (by omega : 4 ≤ capacity) keeps.state
    exact ⟨context', result, keeps', by rw [turn, shift]; omega⟩
  | some lead =>
    have state : context.state ≠ 0 := by simp [keeps.state]
    rw [dbcsToUtf8, if_neg (by omega), if_neg state, keeps.lead lead rfl, iconvChunk_eq (by simp) (by simp) (by omega),
      turn, shift, pairBytes]
    cases found : conversion iconv page [lead, byte] with
    | some =>
      obtain ⟨positive, small⟩ := conversion_length (by simp) found
      exact ⟨⟨0, 0⟩, if_pos positive, ⟨rfl, by simp⟩, by dsimp only; omega⟩
    | none =>
      obtain ⟨context', result, keeps', small⟩ :=
        dbcsToUtf8_opening 0 byte (by omega : 4 ≤ capacity - 1) (rfl : Context.state ⟨0, 0⟩ = 0)
      have space : 0 < capacity := by omega
      refine ⟨context', ?_, keeps', by simp; omega⟩
      simp only [Option.getD_none, length_nil, space, if_true, nil_append,
        length_singleton, result]
      rfl

/-- The calls on a stream write what it decodes to behind the byte that waits. -/
theorem feed_eq (iconv : Iconv) (page : MultibytePage) (room : 8 ≤ capacity) (stream : Bytes)
    (keeps : context.Keeps waiting) (lead : ∀ lead ∈ waiting, startByte iconv page lead = .lead) :
    ∃ outputs context', feed iconv page 2 capacity context stream = some (outputs, context') ∧
      outputs.flatten = (reference iconv page (waiting.toList ++ stream)).1 ∧
      context'.Keeps (reference iconv page (waiting.toList ++ stream)).2 ∧ ∀ output ∈ outputs, output.length ≤ 8 := by
  induction stream generalizing context waiting with
  | nil =>
    refine ⟨[], context, rfl, ?_, ?_, by simp⟩
    all_goals
      cases waiting with
      | none => first | rfl | exact keeps
      | some before =>
        rw [reference, append_nil, Option.toList_some, decode.eq_def]
        simp only [lead before rfl]
        first | rfl | exact keeps
  | cons byte rest inductionHypothesis =>
    obtain ⟨next, result, keeps', small⟩ := byteToUtf8_turn iconv page keeps byte room
    obtain ⟨outputs, last, fed, decoded, kept, all⟩ := inductionHypothesis keeps' fun lead waits => shift_lead waits
    rw [reference, decode_shift lead byte rest]
    refine ⟨_, last, by rw [feed, result, Option.bind_some, fed]; rfl, ?_, kept, forall_mem_cons.mpr ⟨small, all⟩⟩
    rw [flatten_cons, decoded]
    rfl

/-- A stream that is fed byte by byte through `session_codepage_byte_to_utf8` is written as the reference decoding of
the whole stream. The context waits exactly when the reference has a lead byte left, each call writes eight bytes at
most, and no call nests more than once. -/
theorem feed_reference (iconv : Iconv) (page : MultibytePage) {capacity : Nat} (room : 8 ≤ capacity) (stream : Bytes) :
    ∃ outputs context, feed iconv page 2 capacity .new stream = some (outputs, context) ∧
      outputs.flatten = (reference iconv page stream).1 ∧
      (context.state = 1 ↔ (reference iconv page stream).2.isSome) ∧ (context.state = 0 ∨ context.state = 1) ∧
      (∀ lead ∈ (reference iconv page stream).2, context.leadByte = lead) ∧ ∀ output ∈ outputs, output.length ≤ 8 := by
  have fresh : Context.new.Keeps none := ⟨rfl, by simp⟩
  obtain ⟨outputs, context, fed, decoded, keeps, small⟩ := feed_eq iconv page room stream fresh (by simp)
  rw [Option.toList_none, nil_append] at decoded keeps
  refine ⟨outputs, context, fed, decoded, ?_, ?_, keeps.lead, small⟩
  all_goals
    rw [keeps.state]
    cases (reference iconv page stream).2 <;> simp

def syllable : Iconv where
  convert _ bytes := some (bytes != [0xB0, 0xA1], if bytes = [0xB0, 0xA1] then [0xEA, 0xB0, 0x80] else [])
  small _ bytes _ result found := by
    cases found
    dsimp only
    split_ifs <;> decide

/-- The byte behind a failed pair begins the next one. -/
theorem feed_reference_syllable :
    ∃ outputs context, feed syllable .cp949 2 8 .new [0xC9, 0xB0, 0xA1, 0xB0] = some (outputs, context) ∧
      outputs.flatten = [byte '?', 0xEA, 0xB0, 0x80] ∧ context.state = 1 ∧ context.leadByte = 0xB0 := by
  obtain ⟨outputs, context, fed, written, waits, _, lead, _⟩ :=
    feed_reference syllable .cp949 (le_refl 8) [0xC9, 0xB0, 0xA1, 0xB0]
  exact ⟨outputs, context, fed, written.trans (by decide +kernel), waits.mpr (by decide +kernel),
    lead 0xB0 (by decide +kernel)⟩

end SshChatter.Codepage
