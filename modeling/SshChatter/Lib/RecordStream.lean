import Mathlib.Tactic

namespace BytePipe
open List

section Pipe

variable {Byte : Type}

/-- A read of at most so many bytes by a reader that still needs some: what it then has and what is left. -/
def collect (need : Nat) (got pipe : List Byte) (count : Nat) : List Byte × List Byte :=
  let room := min count (need - got.length)
  (got ++ pipe.take room, pipe.drop room)

def deliver (rest pipe : List Byte) (count : Nat) : List Byte × List Byte := (rest.drop count, pipe ++ rest.take count)

theorem collect_append (need : Nat) (got pipe : List Byte) (count : Nat) :
    (collect need got pipe count).1 ++ (collect need got pipe count).2 = got ++ pipe := by
  simp only [collect, append_assoc, take_append_drop]

theorem collect_length {need : Nat} {got : List Byte} (within : got.length ≤ need) (pipe : List Byte) (count : Nat) :
    (collect need got pipe count).1.length ≤ need := by
  simp only [collect, length_append, length_take]
  omega

theorem deliver_append (rest pipe : List Byte) (count : Nat) :
    (deliver rest pipe count).2 ++ (deliver rest pipe count).1 = pipe ++ rest := by
  simp only [deliver, append_assoc, take_append_drop]

theorem collected {got message rest tail : List Byte} (whole : got ++ rest = message ++ tail)
    (full : got.length = message.length) : got = message ∧ rest = tail := append_inj whole full

end Pipe

end BytePipe

namespace RecordStream
open List

section Streams

variable {Symbol Record State : Type} (read : List Symbol → Option (Record × List Symbol))

def readUpTo : Nat → List Symbol → List Record × Option (List Symbol)
  | 0, file => ([], some file)
  | count + 1, file =>
    match read file with
    | none => ([], none)
    | some (record, rest) => (record :: (readUpTo count rest).1, (readUpTo count rest).2)

def readLoop (handle : Nat → Record → State → State) : Nat → Nat → List Symbol → State → State × Option (List Symbol)
  | 0, _, file, state => (state, some file)
  | count + 1, index, file, state =>
    match read file with
    | none => (state, none)
    | some (record, rest) => readLoop handle count (index + 1) rest (handle index record state)

def handleAll (handle : Nat → Record → State → State) : Nat → List Record → State → State
  | _, [], state => state
  | index, record :: records, state => handleAll handle (index + 1) records (handle index record state)

variable {read}

theorem readLoop_eq (handle : Nat → Record → State → State) (count index : Nat) (file : List Symbol) (state : State) :
    readLoop read handle count index file state =
      (handleAll handle index (readUpTo read count file).1 state, (readUpTo read count file).2) := by
  induction count generalizing index file state with
  | zero => rfl
  | succ count ih =>
    rw [readLoop, readUpTo]
    cases read file with
    | none => rfl
    | some found => exact ih (index + 1) found.2 (handle index found.1 state)

theorem readUpTo_length (count : Nat) (file : List Symbol) :
    (readUpTo read count file).1.length ≤ count ∧
      ((readUpTo read count file).2.isSome → (readUpTo read count file).1.length = count) := by
  induction count generalizing file with
  | zero => exact ⟨le_refl 0, fun _ => rfl⟩
  | succ count ih =>
    rw [readUpTo]
    cases read file with
    | none => exact ⟨Nat.zero_le _, by simp⟩
    | some found =>
      obtain ⟨short, whole⟩ := ih found.2
      exact ⟨Nat.succ_le_succ short, fun complete => congrArg Nat.succ (whole complete)⟩

/-- Each read takes a fixed number of symbols and fails only when they are missing. -/
structure Sized (read : List Symbol → Option (Record × List Symbol)) (size : Nat) : Prop where
  short : ∀ file, file.length < size → read file = none
  long : ∀ file, size ≤ file.length → ∃ record, read file = some (record, file.drop size)

variable {size : Nat}

/-- All records are read exactly when the file is long enough. -/
theorem Sized.readUpTo_complete (sized : Sized read size) (count : Nat) (file : List Symbol) :
    (count * size ≤ file.length → (readUpTo read count file).2 = some (file.drop (count * size))) ∧
      (file.length < count * size → (readUpTo read count file).2 = none) := by
  induction count generalizing file with
  | zero =>
    rw [zero_mul]
    exact ⟨fun _ => rfl, fun short => absurd short (Nat.not_lt_zero _)⟩
  | succ count ih =>
    rw [readUpTo, Nat.succ_mul]
    by_cases enough : size ≤ file.length
    · obtain ⟨record, found⟩ := sized.long file enough
      obtain ⟨long, short⟩ := ih (file.drop size)
      rw [length_drop] at long short
      rw [found]
      constructor
      · intro room
        rw [long (by omega), drop_drop, add_comm]
      · intro cut
        exact short (by omega)
    · rw [sized.short file (by omega)]
      exact ⟨fun room => absurd room (by omega), fun _ => rfl⟩

/-- A longer run of reads begins with the shorter one. -/
theorem readUpTo_take (count more : Nat) (file : List Symbol) :
    (readUpTo read (count + more) file).1.take count = (readUpTo read count file).1 := by
  induction count generalizing file with
  | zero => rw [take_zero]; rfl
  | succ count ih =>
    rw [Nat.succ_add, readUpTo, readUpTo]
    cases read file with
    | none => rfl
    | some found => exact congrArg (found.1 :: ·) (ih found.2)

theorem readUpTo_whole {count : Nat} {file : List Symbol} (enough : count ≤ (readUpTo read count file).1.length) :
    (readUpTo read count file).2.isSome := by
  induction count generalizing file with
  | zero => rfl
  | succ count ih =>
    rw [readUpTo] at enough ⊢
    cases found : read file with
    | none =>
      rw [found] at enough
      exact absurd enough (Nat.not_succ_le_zero count)
    | some =>
      rw [found] at enough
      exact ih (Nat.le_of_succ_le_succ enough)

end Streams

section Frames

variable {Symbol Record : Type} {read : List Symbol → Option (Record × List Symbol)} {size : Nat}
  {decode : List Symbol → Record}

/-- Each read takes a front of a fixed size and decodes nothing else. -/
structure Decodes (read : List Symbol → Option (Record × List Symbol)) (size : Nat) (decode : List Symbol → Record) :
    Prop where
  short : ∀ file, file.length < size → read file = none
  front : ∀ front back, front.length = size → read (front ++ back) = some (decode front, back)

variable {file : List Symbol}

theorem Decodes.long (decodes : Decodes read size decode) (enough : size ≤ file.length) :
    read file = some (decode (file.take size), file.drop size) := by
  have whole : (file.take size).length = size := length_take_of_le enough
  have first := decodes.front (file.take size) (file.drop size) whole
  rw [take_append_drop] at first
  exact first

theorem Decodes.sized (decodes : Decodes read size decode) : Sized read size where
  short := decodes.short
  long _ enough := ⟨_, decodes.long enough⟩

theorem Sized.readUpTo_room (sized : Sized read size) {place count : Nat}
    (inside : place < (readUpTo read count file).1.length) : (place + 1) * size ≤ file.length := by
  by_contra cut
  have most : (readUpTo read count file).1.length ≤ count := (readUpTo_length count file).1
  have front := @readUpTo_take _ _ read (place + 1) (count - (place + 1)) file
  rw [Nat.add_sub_cancel' (by omega)] at front
  have enough : place + 1 ≤ (readUpTo read (place + 1) file).1.length := by
    rw [← front, length_take]
    omega
  have whole := readUpTo_whole enough
  rw [(sized.readUpTo_complete (place + 1) file).2 (not_le.mp cut)] at whole
  cases whole

/-- A record that is written over another one takes its place. -/
theorem Decodes.readUpTo_overwrite (decodes : Decodes read size decode) {record : List Symbol}
    (whole : record.length = size) {place count : Nat} (inside : place < (readUpTo read count file).1.length) :
    (readUpTo read count (file.take (size * place) ++ (record ++ file.drop (size * place + record.length)))).1 =
      (readUpTo read count file).1.set place (decode record) := by
  induction place generalizing count file with
  | zero =>
    cases count with
    | zero => exact absurd inside (Nat.not_lt_zero 0)
    | succ =>
      rw [readUpTo] at inside
      by_cases enough : size ≤ file.length
      · rw [mul_zero, take_zero, nil_append, zero_add, whole, readUpTo, readUpTo,
          decodes.front record _ whole, decodes.long enough]
        rfl
      · rw [decodes.short file (Nat.lt_of_not_le enough)] at inside
        exact absurd inside (Nat.not_lt_zero 0)
  | succ place ih =>
    cases count with
    | zero => exact absurd inside (Nat.not_lt_zero _)
    | succ =>
      rw [readUpTo] at inside
      by_cases enough : size ≤ file.length
      · rw [decodes.long enough] at inside
        have later := ih (Nat.lt_of_succ_lt_succ inside)
        have front : (file.take size).length = size := length_take_of_le enough
        have split : file.take (size * (place + 1)) = file.take size ++ (file.drop size).take (size * place) := by
          rw [Nat.mul_succ, add_comm, take_add]
        have behind : file.drop (size * (place + 1) + record.length) =
            (file.drop size).drop (size * place + record.length) := by
          rw [drop_drop, Nat.mul_succ]
          congr 1
          omega
        rw [split, behind, append_assoc, readUpTo, readUpTo, decodes.front _ _ front, decodes.long enough]
        exact congrArg (decode (file.take size) :: ·) later
      · rw [decodes.short file (Nat.lt_of_not_le enough)] at inside
        exact absurd inside (Nat.not_lt_zero _)

end Frames

end RecordStream
