import SshChatter.Lib.CString
import SshChatter.Lib.Segments

namespace SshChatter.Onion
open CString List

def layerLevels : Nat := 3

def ivLen : Nat := 12

def tagLen : Nat := 16

def intMax : Nat := 2147483647

def onionPrefix : Bytes := str "TorOnion/v1:"

def dot : UInt8 := byte '.'

/-- The length of a text that `EVP_EncodeBlock` writes. -/
def blockLength (length : Nat) : Nat := 4 * ((length + 2) / 3)

/-- The functions of the cryptographic library, and what a buffer holds after it was released. The block coding
writes groups of four characters, fills the last one with `=`, and reads the filling as zero bytes. It is known
only as long as its result is an `int`. -/
structure Library where
  encrypt : Bytes → Bytes → Bytes → Bytes × Bytes
  decrypt : Bytes → Bytes → Bytes → Bytes → Option Bytes
  encodeBlock : Bytes → Option Bytes
  decodeBlock : Bytes → Option Bytes
  released : Bytes → Bytes

/-- What the documentation of the library says. -/
structure Library.Lawful (library : Library) : Prop where
  cipherLength : ∀ key iv plain, (library.encrypt key iv plain).1.length = plain.length
  tagLength : ∀ key iv plain, (library.encrypt key iv plain).2.length = tagLen
  inverse : ∀ key iv plain, library.decrypt key iv (library.encrypt key iv plain).1 (library.encrypt key iv plain).2 =
    some plain
  coding : ∀ block, block ≠ [] → blockLength block.length ≤ intMax → ∃ text, library.encodeBlock block = some text ∧
    text.length = blockLength block.length ∧ (∀ c ∈ text, c ≠ dot ∧ c ≠ 0) ∧
    (text[text.length - 1]? = some (byte '=') ↔ block.length % 3 ≠ 0) ∧
    (text[text.length - 2]? = some (byte '=') ↔ block.length % 3 = 1) ∧
    library.decodeBlock text = some (block ++ replicate ((3 - block.length % 3) % 3) 0)
  releasedLength : ∀ buffer, (library.released buffer).length = buffer.length

/-- The fields of `security_layer_t` that the messages use. -/
structure Layer where
  ready : Bool
  subkeys : List Bytes
  levels : subkeys.length = layerLevels

/-- The random initialization vectors of one message. -/
structure Draws where
  ivs : List Bytes
  levels : ivs.length = layerLevels
  sized : ∀ iv ∈ ivs, iv.length = ivLen

/-- This is `security_layer_component_t`. -/
structure Component where
  iv : Bytes
  tag : Bytes
  ciphertext : Bytes
  cipherLen : Nat

/-- The loop over the levels. A ciphertext is released when the next level has read it. -/
def sealLayers (library : Library) : List (Bytes × Bytes) → Bytes → Option (List Component)
  | [], _ => some []
  | (subkey, iv) :: rest, working =>
    let sealed := library.encrypt subkey iv working
    if 0 < working.length ∧ sealed.1.length ≠ working.length then none else
    (sealLayers library rest sealed.1).map fun later =>
      ⟨iv, sealed.2, if rest = [] then sealed.1 else library.released sealed.1, working.length⟩ :: later

def encodeComponent (library : Library) (component : Component) : Option Bytes :=
  library.encodeBlock (component.iv ++ component.tag ++ component.ciphertext.take component.cipherLen)

def encryptMessage (library : Library) (layer : Layer) (draws : Draws) (plaintext : Bytes) (outLen : Nat) :
    Option Bytes :=
  if layer.ready = false ∨ outLen = 0 then none
  else if intMax < plaintext.length then none
  else match sealLayers library (layer.subkeys.zip draws.ivs) plaintext with
    | none => none
    | some layers =>
      match layers.reverse.mapM (encodeComponent library) with
      | none => none
      | some encodedLayers =>
        let requiredLen := onionPrefix.length + (encodedLayers.map length).sum + (layerLevels - 1)
        if outLen ≤ requiredLen then none else some (onionPrefix ++ Segments.join dot encodedLayers)

def decodeSegment (library : Library) (segment : Bytes) : Option Bytes :=
  match library.decodeBlock segment with
  | none => none
  | some decoded =>
    let pad := (if 1 ≤ segment.length ∧ segment[segment.length - 1]? = some (byte '=') then 1 else 0) +
      (if 2 ≤ segment.length ∧ segment[segment.length - 2]? = some (byte '=') then 1 else 0)
    let usableLen := decoded.length - pad
    if usableLen < ivLen + tagLen then none else some (decoded.take usableLen)

def currentCipher (current : Option Bytes) (cipherSegment : Bytes) : Option Bytes :=
  match current with
  | none => if intMax < cipherSegment.length then none else some cipherSegment
  | some cipher => if cipherSegment.length ≠ cipher.length then none else some cipher

/-- The loop over the segments. -/
def openLayers (library : Library) : List (Bytes × Bytes) → Option Bytes → Option Bytes
  | [], current => current
  | (subkey, segment) :: rest, current =>
    match decodeSegment library segment with
    | none => none
    | some decoded =>
      match currentCipher current (decoded.drop (ivLen + tagLen)) with
      | none => none
      | some cipher =>
        match library.decrypt subkey (decoded.take ivLen) cipher ((decoded.drop ivLen).take tagLen) with
        | none => none
        | some plain => if plain.length ≠ cipher.length then none else openLayers library rest (some plain)

/-- This is `security_layer_decrypt_message`. The caller sees the buffer as a C string. -/
def decryptMessage (library : Library) (layer : Layer) (envelope : Bytes) (plaintextLen : Nat) : Option Bytes :=
  if layer.ready = false ∨ plaintextLen = 0 then none
  else if envelope.take onionPrefix.length ≠ onionPrefix then none
  else if envelope.drop onionPrefix.length = [] then none
  else
    let segments := Segments.segments dot (envelope.drop onionPrefix.length)
    if segments.length ≠ layerLevels then none
    else match openLayers library (layer.subkeys.reverse.zip segments) none with
      | none => none
      | some current => if plaintextLen ≤ current.length then none else some (current.takeWhile (· ≠ 0))

section Sealing

variable {library : Library}

def layersOf (library : Library) : List (Bytes × Bytes) → Bytes → List Component
  | [], _ => []
  | (subkey, iv) :: rest, working =>
    let sealed := library.encrypt subkey iv working
    ⟨iv, sealed.2, if rest = [] then sealed.1 else library.released sealed.1, working.length⟩ ::
      layersOf library rest sealed.1

/-- The loop fails at no level. -/
theorem sealLayers_eq (lawful : library.Lawful) (levels : List (Bytes × Bytes)) (working : Bytes) :
    sealLayers library levels working = some (layersOf library levels working) := by
  induction levels generalizing working with
  | nil => rfl
  | cons level rest ih =>
    have kept := lawful.cipherLength level.1 level.2 working
    rw [sealLayers, if_neg fun changed => changed.2 kept, ih]
    rfl

def Component.block (component : Component) : Bytes :=
  component.iv ++ component.tag ++ component.ciphertext.take component.cipherLen

theorem block_length (lawful : library.Lawful) {levels : List (Bytes × Bytes)}
    (sized : ∀ level ∈ levels, level.2.length = ivLen)
    (working : Bytes) : ∀ component ∈ layersOf library levels working,
      component.block.length = ivLen + tagLen + working.length := by
  induction levels generalizing working with
  | nil => exact forall_mem_nil _
  | cons level rest ih =>
    have kept := lawful.cipherLength level.1 level.2 working
    have tag := lawful.tagLength level.1 level.2 working
    have iv := sized level mem_cons_self
    rw [layersOf, forall_mem_cons]
    constructor
    · have cipher : (if rest = [] then (library.encrypt level.1 level.2 working).1
          else library.released (library.encrypt level.1 level.2 working).1).length = working.length := by
        split_ifs
        · exact kept
        · rw [lawful.releasedLength, kept]
      simp only [Component.block, length_append, length_take, iv, tag, cipher, min_self]
    · rw [← kept]
      exact ih (fun level member => sized level (mem_cons_of_mem _ member)) _

end Sealing

end SshChatter.Onion
