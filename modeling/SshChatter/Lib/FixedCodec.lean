import SshChatter.Lib.RecordLayout
import SshChatter.Lib.RecordStream

namespace FixedCodec
open CString RecordLayout RecordStream List

section Codecs

/-- How the values of a type are laid out in a fixed number of bytes. -/
structure Codec (Value : Type) where
  size : Nat
  encode : Value → Bytes
  decode : Bytes → Value
  whole : ∀ value, (encode value).length = size

variable {Value Other : Type}

/-- The value is read back as it was written. -/
def Codec.Keeps (codec : Codec Value) (value : Value) : Prop := codec.decode (codec.encode value) = value

/-- Bytes that no one reads. -/
def padding (width : Nat) : Codec Unit := ⟨width, fun _ => replicate width 0, fun _ => (), fun _ => length_replicate⟩

def number (width : Nat) : Codec Nat := ⟨width, fixed width, unsigned, fixed_length width⟩

def signed (width : Nat) : Codec Int where
  size := width
  encode value := fixed width (value % 256 ^ width).toNat
  decode bytes := if 2 * unsigned bytes < 256 ^ width then unsigned bytes else unsigned bytes - 256 ^ width
  whole _ := fixed_length width _

/-- A string in a cleared array. -/
def text (last : Nat) : Codec Bytes where
  size := last + 1
  encode shown := shown.take last ++ replicate (last + 1 - (shown.take last).length) 0
  decode := textOf
  whole shown := by
    rw [length_append, length_replicate, length_take]
    omega

/-- Two values one after the other. -/
def Codec.pair (first : Codec Value) (second : Codec Other) : Codec (Value × Other) where
  size := first.size + second.size
  encode value := first.encode value.1 ++ second.encode value.2
  decode bytes := (first.decode (bytes.take first.size), second.decode (bytes.drop first.size))
  whole value := by rw [length_append, first.whole, second.whole]

/-- The same bytes for another type. -/
def Codec.iso (codec : Codec Value) (pack : Value → Other) (unpack : Other → Value) : Codec Other where
  size := codec.size
  encode value := codec.encode (unpack value)
  decode bytes := pack (codec.decode bytes)
  whole value := codec.whole (unpack value)

def encodeArray (codec : Codec Value) (blank : Value) : Nat → List Value → Bytes
  | 0, _ => []
  | count + 1, values => codec.encode (values.headD blank) ++ encodeArray codec blank count values.tail

def decodeArray (codec : Codec Value) : Nat → Bytes → List Value
  | 0, _ => []
  | count + 1, bytes => codec.decode (bytes.take codec.size) :: decodeArray codec count (bytes.drop codec.size)

theorem encodeArray_length (codec : Codec Value) (blank : Value) (count : Nat) (values : List Value) :
    (encodeArray codec blank count values).length = count * codec.size := by
  induction count generalizing values with
  | zero => rw [zero_mul]; rfl
  | succ count ih => rw [encodeArray, length_append, codec.whole, ih, Nat.succ_mul, add_comm]

def Codec.array (codec : Codec Value) (count : Nat) (blank : Value) : Codec (List Value) where
  size := count * codec.size
  encode := encodeArray codec blank count
  decode := decodeArray codec count
  whole := encodeArray_length codec blank count

end Codecs

section Laws

variable {Value Other : Type} {codec : Codec Value}

theorem padding_keeps (width : Nat) : (padding width).Keeps () := rfl

theorem number_keeps {width value : Nat} (small : value < 256 ^ width) : (number width).Keeps value :=
    unsigned_fixed small

theorem signed_keeps {width : Nat} {value : Int} (low : -256 ^ width ≤ 2 * value) (high : 2 * value < 256 ^ width) :
    (signed width).Keeps value := by
  have positive : (0 : Int) < 256 ^ width := by positivity
  have cast : ((256 ^ width : Nat) : Int) = 256 ^ width := by push_cast; rfl
  have reduced : 0 ≤ value % 256 ^ width := Int.emod_nonneg _ positive.ne'
  have below : value % 256 ^ width < 256 ^ width := Int.emod_lt_of_pos _ positive
  have read : unsigned (fixed width (value % 256 ^ width).toNat) = (value % 256 ^ width).toNat :=
    unsigned_fixed (by rw [← Int.ofNat_lt, Int.toNat_of_nonneg reduced]; exact below)
  have back : ((value % 256 ^ width).toNat : Int) = value % 256 ^ width := Int.toNat_of_nonneg reduced
  change (if 2 * unsigned (fixed width (value % 256 ^ width).toNat) < 256 ^ width then
    (unsigned (fixed width (value % 256 ^ width).toNat) : Int)
    else (unsigned (fixed width (value % 256 ^ width).toNat) : Int) - 256 ^ width) = value
  rw [read, back]
  by_cases negative : value < 0
  · have wrapped : value % 256 ^ width = value + 256 ^ width := by
      rw [← Int.add_emod_right, Int.emod_eq_of_lt (by omega) (by omega)]
    omega
  · have same : value % 256 ^ width = value := Int.emod_eq_of_lt (by omega) (by omega)
    rw [if_pos (by rw [← Int.ofNat_lt]; push_cast; rw [back]; omega)]
    exact same

/-- A string that fits is kept. -/
theorem text_keeps {last : Nat} {shown : Bytes} (short : shown.length ≤ last) (plain : 0 ∉ shown) :
    (text last).Keeps shown := by
  have fits : shown.take last = shown := take_of_length_le short
  have blank : replicate (last + 1 - shown.length) (0 : UInt8) = 0 :: replicate (last - shown.length) 0 := by
    rw [← replicate_succ]
    congr 1
    omega
  change textOf (shown.take last ++ replicate (last + 1 - (shown.take last).length) 0) = shown
  rw [fits, blank, textOf_append plain]

theorem Codec.Keeps.pair {other : Codec Other} {value : Value} {second : Other} (keeps : codec.Keeps value)
    (keeps' : other.Keeps second) : (codec.pair other).Keeps (value, second) := by
  change (codec.decode ((codec.encode value ++ other.encode second).take codec.size),
    other.decode ((codec.encode value ++ other.encode second).drop codec.size)) = (value, second)
  rw [take_left' (codec.whole value), drop_left' (codec.whole value), keeps, keeps']

theorem Codec.Keeps.iso {pack : Value → Other} {unpack : Other → Value} {value : Other} (keeps : codec.Keeps
    (unpack value))
    (inverse : pack (unpack value) = value) : (codec.iso pack unpack).Keeps value := by
  change pack (codec.decode (codec.encode (unpack value))) = value
  rw [keeps, inverse]

theorem array_keeps (blank : Value) {count : Nat} {values : List Value} (full : values.length = count)
    (keeps : ∀ value ∈ values, codec.Keeps value) : (codec.array count blank).Keeps values := by
  subst full
  change decodeArray codec values.length (encodeArray codec blank values.length values) = values
  induction values with
  | nil => rfl
  | cons value values ih =>
    have first := keeps value mem_cons_self
    rw [length_cons, encodeArray, decodeArray, take_left' (codec.whole _), drop_left' (codec.whole _)]
    exact congrArg₂ cons first (ih fun other inside => keeps other (mem_cons_of_mem _ inside))

theorem take_filled (blank : Value) {count : Nat} {values : List Value} (fits : values.length ≤ count) :
    ((range count).map fun idx => values.getD idx blank).take values.length = values := by
  apply ext_getElem
  · rw [length_take, length_map, length_range, min_eq_left fits]
  · intro idx inside inside'
    rw [getElem_take, getElem_map, getElem_range, getD_eq_getElem?_getD, getElem?_eq_getElem inside',
      Option.getD_some]

end Laws

section Files

variable {Value : Type} {codec : Codec Value}

/-- This is `fread` of one record. -/
def readFrame (codec : Codec Value) (file : Bytes) : Option (Value × Bytes) :=
  if file.length < codec.size then none else some (codec.decode (file.take codec.size), file.drop codec.size)

theorem readFrame_short {file : Bytes} (short : file.length < codec.size) : readFrame codec file = none := if_pos short

theorem readFrame_sized (codec : Codec Value) : Sized (readFrame codec) codec.size where
  short := fun _ short => readFrame_short short
  long := fun _ enough => ⟨_, if_neg (Nat.not_lt_of_le enough)⟩

/-- A record at the front of a file. -/
theorem readFrame_encode {value : Value} (keeps : codec.Keeps value) (rest : Bytes) :
    readFrame codec (codec.encode value ++ rest) = some (value, rest) := by
  rw [readFrame, if_neg (by rw [length_append, codec.whole]; omega), take_left' (codec.whole value),
    drop_left' (codec.whole value), keeps]

/-- Records at the front of a file. -/
theorem readUpTo_encode {values : List Value} (keeps : ∀ value ∈ values, codec.Keeps value) (rest : Bytes) :
    readUpTo (readFrame codec) values.length (values.flatMap codec.encode ++ rest) = (values, some rest) := by
  induction values with
  | nil => rfl
  | cons value values ih =>
    rw [flatMap_cons, append_assoc, length_cons, readUpTo,
      readFrame_encode (keeps value mem_cons_self)]
    dsimp only
    rw [ih fun other inside => keeps other (mem_cons_of_mem _ inside)]

theorem flatMap_encode_length (codec : Codec Value) (values : List Value) :
    (values.flatMap codec.encode).length = values.length * codec.size := by
  induction values with
  | nil => rw [length_nil, zero_mul]; rfl
  | cons value values ih => rw [flatMap_cons, length_append, codec.whole, ih, length_cons, Nat.succ_mul, add_comm]

end Files

end FixedCodec
