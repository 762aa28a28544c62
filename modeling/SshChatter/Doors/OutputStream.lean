import SshChatter.Lib.CString
import SshChatter.Lib.DoubleByte

namespace SshChatter.Doors
open CString DoubleByte List

inductive Encoding where
  | unknown
  | passthrough
  | utf8
  | cp949
  | johab
  | cp437
  deriving DecidableEq

/-- A byte outside of ASCII. -/
def isHigh (c : UInt8) : Bool := 0x80 ≤ c

/-- The number of bytes that follow the first byte of a sequence. -/
def continuationCount (c : UInt8) : Option Nat :=
  if c &&& 0xE0 = 0xC0 then some 1
  else if c &&& 0xF0 = 0xE0 then some 2
  else if c &&& 0xF8 = 0xF0 then some 3
  else none

/-- This is `door_enc_score_utf8` with the flag for a text that is all ASCII. A malformed text has no score. -/
def scoreUtf8 : Nat → Bytes → Option (Nat × Bool)
  | 0, _ => some (0, true)
  | _ + 1, [] => some (0, true)
  | turns + 1, c :: rest =>
    if isHigh c = false then scoreUtf8 turns rest
    else
      match continuationCount c with
      | none => none
      | some need =>
        if rest.length < need then some (0, false)
        else if (rest.take need).all fun c => c &&& 0xC0 = 0x80 then
          (scoreUtf8 turns (rest.drop need)).map fun found => (found.1 + need + 1, false)
        else none

def scorePairs (lead trail : UInt8 → Bool) : Bytes → Int
  | [] => 0
  | [_] => 0
  | c :: next :: rest =>
    if isHigh c = false then scorePairs lead trail (next :: rest)
    else if lead c && trail next then 2 + scorePairs lead trail rest
    else scorePairs lead trail (next :: rest) - 1

def scoreCp949 : Bytes → Int :=
  scorePairs (fun c => 0x81 ≤ c && c ≤ 0xFE) fun c =>
    (0x41 ≤ c && c ≤ 0x5A) || (0x61 ≤ c && c ≤ 0x7A) || (0x81 ≤ c && c ≤ 0xFE)

def scoreJohab : Bytes → Int :=
  scorePairs (fun c => 0x84 ≤ c && c ≤ 0xD3) fun c => (0x41 ≤ c && c ≤ 0x7E) || (0x81 ≤ c && c ≤ 0xFE)

def charsetEncoding (charset : Bytes) : Option Encoding :=
  let name := charset.map toLower
  if name = str "utf-8" then some .utf8
  else if name.take 6 = str "euc-kr" ∨ name.take 5 = str "cp949" ∨ name.take 11 = str "iso-2022-kr" then some .cp949
  else if name.take 5 = str "johab" then some .johab
  else if name.take 5 = str "cp437" ∨ name.take 6 = str "ibm437" then some .cp437
  else if name.take 5 = str "ascii" then some .passthrough
  else none

/-- What the converter writes in place of a byte that starts no character. -/
abbrev replacement : Bytes := [0xEF, 0xBF, 0xBD]

/-- A converter to UTF-8. It takes an ASCII byte for a character, which is written with that byte only if it is that
byte. -/
structure Converter where
  page : CodePage UInt8 UInt8 replacement
  ascii : ∀ c, isHigh c = false → ∃ out, page.first c = .char out ∧ out ≠ [] ∧ (out.head? = some c → out = [c])

/-- The two libraries: a detector that may be missing, and the converters that can be opened. -/
structure Libraries where
  charset : Bytes → Option Bytes
  iconv : Encoding → Option Converter

/-- This is `door_enc_decide`. -/
def decideEncoding (libraries : Libraries) (data : Bytes) : Encoding :=
  if data = [] then .unknown
  else
    match scoreUtf8 data.length data with
    | some (_, true) => .passthrough
    | some (_ + 1, false) => .utf8
    | _ =>
      match (libraries.charset data).bind charsetEncoding with
      | some encoding => encoding
      | none =>
        let highCount : Int := data.countP isHigh
        if 0 < scoreCp949 data ∧ highCount / 2 < scoreCp949 data ∧ scoreJohab data ≤ scoreCp949 data then .cp949
        else if 0 < scoreJohab data ∧ highCount / 2 < scoreJohab data ∧ scoreCp949 data < scoreJohab data then .johab
        else .cp437

def openConverter (libraries : Libraries) : Encoding → Option Converter
  | .cp949 => libraries.iconv .cp949
  | .johab => libraries.iconv .johab
  | .cp437 => libraries.iconv .cp437
  | _ => none

/-- The bytes that `door_emit_converted` hands to `write_all`. -/
def converted (libraries : Libraries) (encoding : Encoding) (source : Bytes) : Bytes :=
  match openConverter libraries encoding with
  | none => source
  | some converter => convert converter.page source

abbrev bufferSize : Nat := 4096

/-- What one read from the child returns. -/
structure Chunk where
  bytes : Bytes
  present : bytes ≠ []
  fits : bytes.length ≤ bufferSize

/-- This is `host_door_runner_t`, with the calls of the converter and the encoding at each of them. -/
structure Runner where
  detectBuffer : Bytes
  encodingDecided : Bool
  detectedEncoding : Encoding
  calls : List (Encoding × Bytes)

/-- A call of `door_emit_converted`, which does nothing without bytes. -/
def Runner.emit (runner : Runner) (source : Bytes) : Runner :=
  if source = [] then runner else { runner with calls := runner.calls ++ [(runner.detectedEncoding, source)] }

/-- What all calls hand to `write_all`. -/
def Runner.sent (libraries : Libraries) (runner : Runner) : Bytes :=
  runner.calls.flatMap fun call => converted libraries call.1 call.2

def Runner.decide (libraries : Libraries) (runner : Runner) : Runner :=
  let decided := { runner with
    detectedEncoding := decideEncoding libraries runner.detectBuffer, encodingDecided := true }
  { decided.emit runner.detectBuffer with detectBuffer := [] }

def Runner.flush (libraries : Libraries) (runner : Runner) : Runner :=
  if runner.detectBuffer = [] then runner else runner.decide libraries

def readChunk (libraries : Libraries) (runner : Runner) (got : Bytes) : Runner :=
  if runner.encodingDecided then runner.emit got
  else
    let buffered := runner.detectBuffer ++ got.take (bufferSize - runner.detectBuffer.length)
    if got.any isHigh = false ∧ runner.detectBuffer = [] then runner.emit got
    else if buffered.length = bufferSize ∨ 256 ≤ buffered.length ∧ got.any isHigh = true then
      Runner.decide libraries { runner with detectBuffer := buffered }
    else { runner with detectBuffer := buffered }

/-- The treatment of a read behind the exit of the child. -/
def drainChunk (libraries : Libraries) (runner : Runner) (residual : Bytes) : Runner :=
  (if runner.encodingDecided then runner else runner.decide libraries).emit residual

/-- How the loop sees that the child has exited. -/
inductive Ending where
  | closed
  | hungUp
  | reaped (residual : List Chunk)
  | readFailed

/-- What is read behind the exit. -/
def Ending.residual : Ending → List Chunk
  | .reaped residual => residual
  | _ => []

def ioLoop (libraries : Libraries) (reads : List Chunk) (ending : Ending) : Runner :=
  let runner := (reads.map Chunk.bytes).foldl (readChunk libraries) ⟨[], false, .unknown, []⟩
  match ending with
  | .closed => runner.flush libraries
  | .hungUp => runner.flush libraries
  | .reaped residual => ((residual.map Chunk.bytes).foldl (drainChunk libraries) runner).flush libraries
  -- This exit does not flush.
  | .readFailed => runner

def childOutput (reads : List Chunk) (ending : Ending) : Bytes :=
  ((reads ++ ending.residual).map Chunk.bytes).flatten

/-- All bytes are handed on once and in order, and what is shown is the conversion of all of them. -/
structure Complete (libraries : Libraries) (reads : List Chunk) (ending : Ending) : Prop where
  once : (ioLoop libraries reads ending).calls.flatMap Prod.snd = childOutput reads ending
  shown : (ioLoop libraries reads ending).sent libraries =
    converted libraries (ioLoop libraries reads ending).detectedEncoding (childOutput reads ending)

/-- How the reads of a stream fall around the decision: the reads before the first high byte, the block that the
encoding is decided on, and the reads behind it. -/
structure Cutting where
  direct : List Bytes
  block : Bytes
  decided : Bool
  later : List Bytes

def Cutting.read (cutting : Cutting) (got : Bytes) : Cutting :=
  if cutting.decided then { cutting with later := cutting.later ++ [got] }
  else if got.any isHigh = false ∧ cutting.block = [] then { cutting with direct := cutting.direct ++ [got] }
  else
    { cutting with
      block := cutting.block ++ got
      decided := bufferSize ≤ (cutting.block ++ got).length ∨ 256 ≤ (cutting.block ++ got).length ∧
        got.any isHigh = true }

def cutReads (reads : List Chunk) : Cutting := (reads.map Chunk.bytes).foldl Cutting.read ⟨[], [], false, []⟩

def pieces (reads : List Chunk) (ending : Ending) : List Bytes :=
  (if (cutReads reads).block = [] then [] else [(cutReads reads).block]) ++ (cutReads reads).later ++
    ending.residual.map Chunk.bytes

/-- The block fits in the detection buffer, no read fails in front of the decision, the bytes before the block are
their own conversion, and no cut between the pieces is inside a character. -/
structure Kept (libraries : Libraries) (reads : List Chunk) (ending : Ending) : Prop where
  fits : (cutReads reads).block.length ≤ bufferSize
  flushed : ending = .readFailed → (cutReads reads).decided ∨ (cutReads reads).block = []
  between : ∀ converter, openConverter libraries (decideEncoding libraries (cutReads reads).block) = some converter →
    (∀ c ∈ (cutReads reads).direct.flatten, converter.page.first c = .char [c]) ∧
      (pieces reads ending).IsChain fun before behind => ¬ Splits converter.page before behind

section Simulation

variable {libraries : Libraries} {cutting : Cutting} {got : Bytes}

def Cutting.encoding (libraries : Libraries) (cutting : Cutting) : Encoding :=
  decideEncoding libraries (cutting.block.take bufferSize)

def Cutting.directCalls (cutting : Cutting) : List (Encoding × Bytes) := cutting.direct.map fun got => (.unknown, got)

def Cutting.calls (libraries : Libraries) (cutting : Cutting) : List (Encoding × Bytes) :=
  cutting.directCalls ++
    (if cutting.block = [] then [] else [(cutting.encoding libraries, cutting.block.take bufferSize)]) ++
    cutting.later.map fun got => (cutting.encoding libraries, got)

def Cutting.runner (libraries : Libraries) (cutting : Cutting) : Runner :=
  if cutting.decided then ⟨[], true, cutting.encoding libraries, cutting.calls libraries⟩
  else ⟨cutting.block, false, .unknown, cutting.directCalls⟩

structure Cutting.Formed (cutting : Cutting) : Prop where
  plain : ∀ c ∈ cutting.direct.flatten, isHigh c = false
  room : cutting.decided = false → cutting.block.length < bufferSize
  early : cutting.decided = false → cutting.later = []
  some : ∀ got ∈ cutting.later, got ≠ []

def Cutting.content (cutting : Cutting) : Bytes := cutting.direct.flatten ++ cutting.block ++ cutting.later.flatten

theorem read_content (formed : cutting.Formed) : (cutting.read got).content = cutting.content ++ got := by
  unfold Cutting.read
  split_ifs with decided fresh
  · simp [Cutting.content]
  · simp [Cutting.content, fresh.2, formed.early (Bool.eq_false_iff.mpr decided)]
  · simp [Cutting.content, formed.early (Bool.eq_false_iff.mpr decided)]

theorem read_formed (formed : cutting.Formed) (present : got ≠ []) : (cutting.read got).Formed := by
  obtain ⟨plain, room, early, some⟩ := formed
  unfold Cutting.read
  split_ifs with decided fresh
  · refine ⟨plain, fun open_ => absurd decided (Bool.eq_false_iff.mp open_), fun open_ =>
      absurd decided (Bool.eq_false_iff.mp open_), ?_⟩
    intro other member
    rcases mem_append.mp member with before | last
    · exact some other before
    · rw [mem_singleton.mp last]
      exact present
  · refine ⟨?_, room, early, some⟩
    intro c member
    rw [flatten_append, mem_append] at member
    rcases member with before | last
    · exact plain c before
    · rw [flatten_singleton] at last
      exact Bool.eq_false_iff.mpr fun high => absurd (any_eq_true.mpr ⟨c, last, high⟩) (Bool.eq_false_iff.mp fresh.1)
  · have open_ := Bool.eq_false_iff.mpr decided
    refine ⟨plain, ?_, fun _ => early open_, some⟩
    intro undecided
    rw [decide_eq_false_iff_not, not_or] at undecided
    exact not_le.mp undecided.1

theorem buffered_eq (got : Bytes) (formed : cutting.Formed) (undecided : cutting.decided = false) :
    cutting.block ++ got.take (bufferSize - cutting.block.length) = (cutting.block ++ got).take bufferSize := by
  rw [take_append, take_of_length_le (formed.room undecided).le]

theorem readChunk_runner (formed : cutting.Formed) (present : got ≠ []) :
    readChunk libraries (cutting.runner libraries) got = (cutting.read got).runner libraries := by
  cases decided : cutting.decided with
  | true =>
    simp [readChunk, Cutting.runner, Cutting.read, decided, Runner.emit, present, Cutting.calls, Cutting.encoding,
      Cutting.directCalls]
  | false =>
    have buffered := buffered_eq got formed decided
    by_cases fresh : got.any isHigh = false ∧ cutting.block = []
    · simp [readChunk, Cutting.runner, Cutting.read, decided, fresh, Runner.emit, present, Cutting.directCalls]
    · have deciding : (((cutting.block ++ got).take bufferSize).length = bufferSize ∨
          256 ≤ ((cutting.block ++ got).take bufferSize).length ∧ got.any isHigh = true) ↔
        (bufferSize ≤ (cutting.block ++ got).length ∨ 256 ≤ (cutting.block ++ got).length ∧ got.any isHigh = true) := by
        rw [length_take]
        by_cases full : bufferSize ≤ (cutting.block ++ got).length
        · exact iff_of_true (Or.inl (min_eq_left full)) (Or.inl full)
        · rw [min_eq_right (Nat.le_of_not_le full)]
          exact or_congr_left (iff_of_false (fun same => full same.ge) full)
      have more : cutting.block ++ got ≠ [] := fun none => present (append_eq_nil_iff.mp none).2
      have start : cutting.runner libraries = ⟨cutting.block, false, .unknown, cutting.directCalls⟩ := by
        rw [Cutting.runner, decided]
        rfl
      have late := formed.early decided
      rw [start, readChunk]
      simp only [buffered, deciding]
      rw [Cutting.read, decided]
      simp only [Bool.false_eq_true, if_false]
      split_ifs with now
      · simp only [Cutting.runner, decide_eq_true now]
        simp [Runner.decide, Runner.emit, Cutting.calls, more, late, Cutting.encoding, Cutting.directCalls]
      · have whole : (cutting.block ++ got).take bufferSize = cutting.block ++ got :=
          take_of_length_le (Nat.le_of_not_le (not_or.mp now).1)
        simp only [decide_eq_false now, whole]
        rfl

theorem reads_runner (libraries : Libraries) (reads : List Chunk) :
    (reads.map Chunk.bytes).foldl (readChunk libraries) ⟨[], false, .unknown, []⟩ = (cutReads reads).runner libraries ∧
      (cutReads reads).Formed ∧ (cutReads reads).content = (reads.map Chunk.bytes).flatten := by
  unfold cutReads
  induction reads using reverseRecOn with
  | nil => exact ⟨rfl, ⟨by simp, fun _ => by decide, fun _ => rfl, by simp⟩, rfl⟩
  | append_singleton reads got ih =>
    obtain ⟨same, formed, content⟩ := ih
    rw [map_append, map_singleton, foldl_append, foldl_append, foldl_cons, foldl_cons,
      foldl_nil, foldl_nil, same, readChunk_runner formed got.present, read_content formed, content,
      flatten_append, flatten_singleton]
    exact ⟨rfl, read_formed formed got.present, rfl⟩

def Cutting.closed (cutting : Cutting) (residual : List Bytes) : Cutting :=
  { cutting with decided := true, later := cutting.later ++ residual }

theorem decide_runner (libraries : Libraries) (formed : cutting.Formed) :
    (if (cutting.runner libraries).encodingDecided then cutting.runner libraries
      else (cutting.runner libraries).decide libraries) = (cutting.closed []).runner libraries := by
  cases decided : cutting.decided with
  | true =>
    simp [Cutting.runner, Cutting.closed, decided, Cutting.calls, Cutting.encoding, Cutting.directCalls]
  | false =>
    have whole := take_of_length_le (formed.room decided).le
    have late := formed.early decided
    by_cases empty : cutting.block = []
    · simp [Cutting.runner, Cutting.closed, decided, Runner.decide, Runner.emit, empty, Cutting.calls, Cutting.encoding,
        Cutting.directCalls, late]
    · simp [Cutting.runner, Cutting.closed, decided, Runner.decide, Runner.emit, empty, Cutting.calls, Cutting.encoding,
        Cutting.directCalls, late, whole]

theorem drainChunk_closed {residual : List Bytes} (present : got ≠ []) :
    drainChunk libraries ((cutting.closed residual).runner libraries) got =
      (cutting.closed (residual ++ [got])).runner libraries := by
  simp [drainChunk, Cutting.runner, Cutting.closed, Runner.emit, present, Cutting.calls, Cutting.encoding]
  rfl

/-- What is read behind the exit comes behind a decision. -/
theorem drain_runner (formed : cutting.Formed) {residual : List Chunk} (some : residual ≠ []) :
    (residual.map Chunk.bytes).foldl (drainChunk libraries) (cutting.runner libraries) =
      (cutting.closed (residual.map Chunk.bytes)).runner libraries := by
  induction residual using reverseRecOn with
  | nil => exact absurd rfl some
  | append_singleton residual got ih =>
    rw [map_append, map_singleton, foldl_append, foldl_cons, foldl_nil]
    by_cases first : residual = []
    · rw [first, map_nil, foldl_nil, drainChunk, decide_runner libraries formed, ← drainChunk_closed got.present]
      rfl
    · rw [ih first, drainChunk_closed got.present]

/-- The encoding and the calls of a runner are those of a cutting with a decision. -/
structure Settled (libraries : Libraries) (runner : Runner) (cutting : Cutting) : Prop where
  encoding : runner.detectedEncoding = cutting.encoding libraries
  calls : runner.calls = cutting.calls libraries

theorem settled_runner (formed : cutting.Formed) (through : cutting.decided ∨ cutting.block = []) :
    Settled libraries (cutting.runner libraries) cutting := by
  unfold Cutting.runner
  split_ifs with decided
  · exact ⟨rfl, rfl⟩
  · have empty := through.resolve_left decided
    have late := formed.early (Bool.eq_false_iff.mpr decided)
    exact ⟨by simp [Cutting.encoding, empty, decideEncoding], by simp [Cutting.calls, empty, late]⟩

theorem settled_flush (formed : cutting.Formed) :
    Settled libraries ((cutting.runner libraries).flush libraries) cutting := by
  unfold Runner.flush
  by_cases through : cutting.decided ∨ cutting.block = []
  · have nothing : (cutting.runner libraries).detectBuffer = [] := by
      unfold Cutting.runner
      split_ifs with decided
      · rfl
      · exact through.resolve_left decided
    rw [if_pos nothing]
    exact settled_runner formed through
  · obtain ⟨undecided, block⟩ := not_or.mp through
    have start : cutting.runner libraries = ⟨cutting.block, false, .unknown, cutting.directCalls⟩ := if_neg undecided
    have early := decide_runner libraries formed
    rw [start] at early ⊢
    simp only [Bool.false_eq_true, if_false] at early
    rw [if_neg block, early]
    exact ⟨rfl, by simp [Cutting.runner, Cutting.calls, Cutting.closed, Cutting.encoding, Cutting.directCalls]⟩

def Cutting.behind (cutting : Cutting) (residual : List Bytes) :
    Cutting := { cutting with later := cutting.later ++ residual }

theorem ioLoop_settled (libraries : Libraries) {reads : List Chunk} {ending : Ending}
    (flushed : ending = .readFailed → (cutReads reads).decided ∨ (cutReads reads).block = []) :
    Settled libraries (ioLoop libraries reads ending) ((cutReads reads).behind (ending.residual.map Chunk.bytes)) := by
  obtain ⟨same, formed, _⟩ := reads_runner libraries reads
  have none : (cutReads reads).behind [] = cutReads reads := by
    rw [Cutting.behind, append_nil]
  unfold ioLoop
  rw [same]
  cases ending with
  | closed =>
    change Settled _ _ ((cutReads reads).behind [])
    rw [none]
    exact settled_flush formed
  | hungUp =>
    change Settled _ _ ((cutReads reads).behind [])
    rw [none]
    exact settled_flush formed
  | reaped residual =>
    by_cases nothing : residual = []
    · rw [nothing]
      change Settled _ _ ((cutReads reads).behind [])
      rw [none]
      exact settled_flush formed
    · simp only [drain_runner formed nothing]
      exact ⟨rfl, rfl⟩
  | readFailed =>
    change Settled _ _ ((cutReads reads).behind [])
    rw [none]
    exact settled_runner formed (flushed rfl)

end Simulation

section Output

variable {libraries : Libraries} {cutting : Cutting} {text tail rest : Bytes}

/-- ASCII bytes in front of a conversion are part of it if and only if each of them is its own conversion. -/
theorem plain_convert_iff (converter : Converter) (plain : ∀ c ∈ text, isHigh c = false) :
    text ++ tail = convert converter.page (text ++ rest) ↔
      (∀ c ∈ text, converter.page.first c = .char [c]) ∧ tail = convert converter.page rest := by
  induction text with
  | nil => simp
  | cons c text ih =>
    obtain ⟨low, others⟩ := forall_mem_cons.mp plain
    obtain ⟨out, first, present, own⟩ := converter.ascii c low
    rw [cons_append, cons_append, convert_char first, forall_mem_cons, first]
    by_cases itself : out = [c]
    · rw [itself, singleton_append, cons.injEq, ih others, and_assoc, eq_self, eq_self]
    · have different : c :: (text ++ tail) ≠ out ++ convert converter.page (text ++ rest) := by
        intro same
        apply itself
        obtain ⟨byte, more, rfl⟩ := exists_cons_of_ne_nil present
        rw [cons_append, cons.injEq] at same
        exact own (by rw [head?_cons, same.1])
      exact iff_of_false different fun kept => itself (First.char.inj kept.1.1)

theorem calls_bytes (libraries : Libraries) (cutting : Cutting) :
    (cutting.calls libraries).flatMap Prod.snd =
      cutting.direct.flatten ++ cutting.block.take bufferSize ++ cutting.later.flatten := by
  unfold Cutting.calls Cutting.directCalls
  by_cases empty : cutting.block = [] <;> simp [empty, flatMap_def]

def Cutting.pieces (cutting : Cutting) : List Bytes := (if cutting.block = [] then [] else [cutting.block]) ++
    cutting.later

theorem content_pieces (cutting : Cutting) : cutting.content = cutting.direct.flatten ++ cutting.pieces.flatten := by
  unfold Cutting.content Cutting.pieces
  split_ifs with empty <;> simp [empty]

theorem calls_shown (fits : cutting.block.length ≤ bufferSize) :
    (cutting.calls libraries).flatMap (fun call => converted libraries call.1 call.2) =
      cutting.direct.flatten ++ cutting.pieces.flatMap (converted libraries (cutting.encoding libraries)) := by
  have raw (got : Bytes) : converted libraries .unknown got = got := rfl
  unfold Cutting.calls Cutting.directCalls Cutting.pieces
  split_ifs with empty <;>
    simp [flatMap_map, raw, take_of_length_le fits]

/-- What is shown is the conversion of everything if and only if each cut of it is harmless. -/
theorem shown_iff (cutting : Cutting) (fits : cutting.block.length ≤ bufferSize)
    (plain : ∀ c ∈ cutting.direct.flatten, isHigh c = false) (present : ∀ piece ∈ cutting.pieces, piece ≠ []) :
    (cutting.calls libraries).flatMap (fun call => converted libraries call.1 call.2) =
        converted libraries (cutting.encoding libraries) cutting.content ↔
      ∀ converter, openConverter libraries (cutting.encoding libraries) = some converter →
        (∀ c ∈ cutting.direct.flatten, converter.page.first c = .char [c]) ∧
          cutting.pieces.IsChain fun before behind => ¬ Splits converter.page before behind := by
  rw [calls_shown fits, content_pieces]
  cases opened : openConverter libraries (cutting.encoding libraries) with
  | none =>
    have raw (source : Bytes) : converted libraries (cutting.encoding libraries) source = source := by
      rw [converted, opened]
    rw [raw]
    have whole : cutting.pieces.flatMap (converted libraries (cutting.encoding libraries)) =
      cutting.pieces.flatten := by
      rw [flatMap_def, map_congr_left fun piece _ => raw piece, map_id']
    exact iff_of_true (by rw [whole]) (fun _ impossible => absurd impossible (by simp))
  | some converter =>
    have conversion : converted libraries (cutting.encoding libraries) = convert converter.page := by
      funext source
      rw [converted, opened]
    rw [conversion, plain_convert_iff converter plain, convert_flatten_iff present]
    constructor
    · rintro kept other same
      cases Option.some.inj same
      exact kept
    · intro kept
      exact kept converter rfl

section Readings

variable {reads : List Chunk} {ending : Ending}

def cutAll (reads : List Chunk) (ending : Ending) : Cutting := (cutReads reads).behind (ending.residual.map Chunk.bytes)

theorem childOutput_content (reads : List Chunk) (ending : Ending) :
    childOutput reads ending = (cutAll reads ending).content := by
  obtain ⟨_, _, content⟩ := reads_runner ⟨fun _ => none, fun _ => none⟩ reads
  rw [childOutput, map_append, flatten_append, ← content, Cutting.content, Cutting.content, cutAll, Cutting.behind,
    flatten_append, append_assoc _ _ ((ending.residual.map Chunk.bytes).flatten)]

theorem pieces_eq (reads : List Chunk) (ending : Ending) : pieces reads ending = (cutAll reads ending).pieces := by
  rw [pieces, append_assoc]
  rfl

theorem pieces_present (formed : (cutReads reads).Formed) : ∀ piece ∈ (cutAll reads ending).pieces, piece ≠ [] := by
  intro piece member
  rw [← pieces_eq] at member
  rcases mem_append.mp member with early | late
  · rcases mem_append.mp early with block | later
    · split_ifs at block with empty
      · cases block
      · rw [mem_singleton.mp block]
        exact empty
    · exact formed.some piece later
  · obtain ⟨chunk, _, rfl⟩ := mem_map.mp late
    exact chunk.present

theorem flushed_of_once (once : (ioLoop libraries reads ending).calls.flatMap Prod.snd = childOutput reads ending) :
    ending = .readFailed → (cutReads reads).decided ∨ (cutReads reads).block = [] := by
  rintro rfl
  obtain ⟨same, formed, _⟩ := reads_runner libraries reads
  by_contra waiting
  obtain ⟨undecided, block⟩ := not_or.mp waiting
  have runner : ioLoop libraries reads .readFailed = (cutReads reads).runner libraries := same
  have calls : (ioLoop libraries reads .readFailed).calls.flatMap Prod.snd = (cutReads reads).direct.flatten := by
    rw [runner, Cutting.runner, if_neg undecided, Cutting.directCalls, flatMap_map]
    exact congrArg flatten (map_id _)
  have length := congrArg length once
  rw [calls, childOutput_content, Cutting.content, cutAll, Cutting.behind, length_append, length_append] at length
  have some := length_pos_iff.mpr block
  simp only at length
  omega

/-- Behind a decision the output is complete if and only if the block fits and no cut changes the conversion. -/
theorem settled_complete_iff (flushed : ending = .readFailed → (cutReads reads).decided ∨ (cutReads reads).block = []) :
    Complete libraries reads ending ↔ (cutReads reads).block.length ≤ bufferSize ∧
      ∀ converter, openConverter libraries ((cutAll reads ending).encoding libraries) = some converter →
        (∀ c ∈ (cutAll reads ending).direct.flatten, converter.page.first c = .char [c]) ∧
          (cutAll reads ending).pieces.IsChain fun before behind => ¬ Splits converter.page before behind := by
  obtain ⟨_, formed, _⟩ := reads_runner libraries reads
  obtain ⟨encoding, calls⟩ := ioLoop_settled libraries flushed
  change (ioLoop libraries reads ending).calls = (cutAll reads ending).calls libraries at calls
  have present : ∀ piece ∈ (cutAll reads ending).pieces, piece ≠ [] := pieces_present formed
  have plain : ∀ c ∈ (cutAll reads ending).direct.flatten, isHigh c = false := formed.plain
  have once_iff : (ioLoop libraries reads ending).calls.flatMap Prod.snd = childOutput reads ending ↔
      (cutReads reads).block.length ≤ bufferSize := by
    rw [calls, calls_bytes, childOutput_content, Cutting.content, append_cancel_right_eq, append_cancel_left_eq,
      take_eq_self_iff]
    rfl
  constructor
  · rintro ⟨once, shown⟩
    have fits := once_iff.mp once
    rw [Runner.sent, calls, encoding, childOutput_content] at shown
    exact ⟨fits, (shown_iff (cutAll reads ending) fits plain present).mp shown⟩
  · rintro ⟨fits, between⟩
    refine ⟨once_iff.mpr fits, ?_⟩
    rw [Runner.sent, calls, encoding, childOutput_content]
    exact (shown_iff (cutAll reads ending) fits plain present).mpr between

theorem complete_iff_kept (libraries : Libraries) (reads : List Chunk) (ending : Ending) :
    Complete libraries reads ending ↔ Kept libraries reads ending := by
  have decision (fits : (cutReads reads).block.length ≤ bufferSize) :
      (cutAll reads ending).encoding libraries = decideEncoding libraries (cutReads reads).block := by
    change decideEncoding libraries ((cutReads reads).block.take bufferSize) = _
    rw [take_of_length_le fits]
  constructor
  · intro complete
    have flushed := flushed_of_once complete.once
    obtain ⟨fits, between⟩ := (settled_complete_iff flushed).mp complete
    rw [decision fits, ← pieces_eq] at between
    exact ⟨fits, flushed, between⟩
  · rintro ⟨fits, flushed, between⟩
    rw [← decision fits, pieces_eq] at between
    exact (settled_complete_iff flushed).mpr ⟨fits, between⟩

/-- The output of a door is complete if and only if the block fits in the detection buffer, nothing waits for the
decision when a read fails, and no cut of the reads changes the conversion. Two readings of one stream that keep to
this and decide on the same encoding show the same. -/
theorem output_complete_iff (libraries : Libraries) (reads : List Chunk) (ending : Ending) :
    (Complete libraries reads ending ↔ Kept libraries reads ending) ∧
      ∀ reads' ending', childOutput reads' ending' = childOutput reads ending →
        (ioLoop libraries reads' ending').detectedEncoding = (ioLoop libraries reads ending).detectedEncoding →
        Kept libraries reads ending → Kept libraries reads' ending' →
        (ioLoop libraries reads' ending').sent libraries = (ioLoop libraries reads ending).sent libraries := by
  refine ⟨complete_iff_kept libraries reads ending, ?_⟩
  intro reads' ending' stream encoding kept kept'
  rw [((complete_iff_kept _ _ _).mpr kept).shown, ((complete_iff_kept _ _ _).mpr kept').shown, stream, encoding]

/-- One Korean syllable and ASCII in CP949. -/
def syllablePage : CodePage UInt8 UInt8 replacement where
  first c := if isHigh c then .lead else .char [c]
  pair lead second := if lead = 0xB0 ∧ second = 0xA1 then some [0xEA, 0xB0, 0x80] else none
  distinct lead second out rest paired := by
    split_ifs at paired
    cases paired
    rintro ⟨more, same⟩
    cases same

def syllableConverter : Converter where
  page := syllablePage
  ascii c low := ⟨[c], if_neg (Bool.eq_false_iff.mp low), cons_ne_nil _ _, fun _ => rfl⟩

/-- A host without a detector. -/
def syllableLibraries : Libraries := ⟨fun _ => none, fun _ => some syllableConverter⟩

def oneSyllable : Chunk := ⟨[0xB0, 0xA1], by decide, by decide⟩

def twoSyllables : Chunk := ⟨[0xB0, 0xA1, 0xB0, 0xA1], by decide, by decide⟩

/-- A cut between two syllables shows what one read shows. -/
theorem syllable_readings_agree :
    Kept syllableLibraries [twoSyllables] .hungUp ∧
      (ioLoop syllableLibraries [oneSyllable] (.reaped [oneSyllable])).sent syllableLibraries =
        (ioLoop syllableLibraries [twoSyllables] .hungUp).sent syllableLibraries := by
  have whole := output_complete_iff syllableLibraries [twoSyllables] .hungUp
  have kept := whole.1.mp ⟨by decide +kernel, by decide +kernel⟩
  have kept' : Kept syllableLibraries [oneSyllable] (.reaped [oneSyllable]) :=
    (complete_iff_kept _ _ _).mp ⟨by decide +kernel, by decide +kernel⟩
  exact ⟨kept, whole.2 _ _ rfl (by decide +kernel) kept kept'⟩

/-- A syllable that two reads behind the decision cut in two is not shown. A block of 4098 bytes loses two of them. -/
theorem syllable_lost :
    ¬ Complete syllableLibraries [⟨[0xB0, 0xA1], by decide, by decide⟩]
        (.reaped [⟨[0xB0], by decide, by decide⟩, ⟨[0xA1], by decide, by decide⟩]) ∧
      ¬ Complete syllableLibraries [⟨[0xB0, 0xA1], by decide, by decide⟩,
        ⟨replicate 4096 0x61, by decide +kernel, by decide +kernel⟩] .hungUp := by
  constructor
  · rintro ⟨_, shown⟩
    revert shown
    decide +kernel
  · intro complete
    have flushed := flushed_of_once complete.once
    have fits := ((settled_complete_iff flushed).mp complete).1
    revert fits
    decide +kernel

end Readings

end Output

end SshChatter.Doors
