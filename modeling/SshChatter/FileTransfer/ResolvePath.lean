import SshChatter.Lib.CString
import SshChatter.Lib.Segments

namespace SshChatter.FileTransfer
open CString

abbrev pathMax : Nat := 4096

abbrev nameMax : Nat := 255

instance pathRoom : NeZero pathMax := ⟨by decide⟩

/-- The separator of paths. -/
def slash : UInt8 := byte '/'

structure FileStorage where
  ready : Bool
  root : CBuffer pathMax

/-- The code refuses a path by returning false. A write outside a buffer would be an overrun. -/
inductive Fault where
  | refused
  | overrun
  deriving DecidableEq

def putByte (capacity : Nat) (buffer : Bytes) (c : UInt8) : Except Fault Bytes :=
  if buffer.length < capacity then .ok (buffer ++ [c]) else .error .overrun

def putBytes (capacity : Nat) (buffer text : Bytes) : Except Fault Bytes :=
  if buffer.length + text.length ≤ capacity then .ok (buffer ++ text) else .error .overrun

def terminate (capacity : Nat) (buffer : Bytes) : Except Fault Bytes :=
  if buffer.length < capacity then .ok buffer else .error .overrun

def pathBufferCopy (destLen : Nat) (src : Bytes) : Except Fault Bytes :=
  if destLen = 0 then .error .refused else
  let len := min src.length destLen
  if destLen ≤ len then .error .refused else do
    let dest ← putBytes destLen [] (src.take len)
    terminate destLen dest

def pathBufferJoin (destLen : Nat) (base suffix : Bytes) : Except Fault Bytes :=
  if destLen = 0 then .error .refused else
  let baseLen := min base.length destLen
  let suffixLen := min suffix.length destLen
  if destLen ≤ baseLen ∨ destLen ≤ suffixLen then .error .refused
  else if destLen < baseLen + 1 + suffixLen + 1 then .error .refused
  else do
    let dest ← putBytes destLen [] (base.take baseLen)
    let dest ← putByte destLen dest slash
    let dest ← putBytes destLen dest (suffix.take suffixLen)
    terminate destLen dest

def rootReferenceLoop (path : Bytes) : Nat → Bytes → Bool → Bool
  | 0, _, sawComponent => sawComponent
  | fuel + 1, cursor, sawComponent =>
    if cursor = [] then sawComponent else
    let start := cursor.dropWhile (· = slash)
    if start = [] then sawComponent || (strchr slash path).isSome else
    let component := start.takeWhile (· ≠ slash)
    if component.length ≠ 1 ∨ component.head? ≠ some (byte '.') then false
    else rootReferenceLoop path fuel (start.dropWhile (· ≠ slash)) true

def isRootReference (path : Bytes) : Bool := rootReferenceLoop path path.length path false

/-- The inner loop of `file_transfer_resolve_path` copies one component. It returns the rest of the path. -/
def readComponent (component : Bytes) : Bytes → Except Fault (Bytes × Bytes)
  | [] => (terminate (nameMax + 1) component).map fun component => (component, [])
  | c :: cursor =>
    if c = slash then (terminate (nameMax + 1) component).map fun component => (component, c :: cursor)
    else if nameMax + 1 ≤ component.length + 1 then .error .refused
    else match putByte (nameMax + 1) component c with
      | .error fault => .error fault
      | .ok component => readComponent component cursor

def appendComponent (sanitized component : Bytes) : Except Fault Bytes := do
  let sanitized ← if 0 < sanitized.length then putByte pathMax sanitized slash else .ok sanitized
  let sanitized ← putBytes pathMax sanitized component
  terminate pathMax sanitized

/-- The outer loop of `file_transfer_resolve_path`. The fuel is the length of the path. -/
def sanitize : Nat → Bytes → Bytes → Except Fault Bytes
  | 0, sanitized, _ => .ok sanitized
  | fuel + 1, sanitized, cursor =>
    if cursor = [] then .ok sanitized else
    let start := cursor.dropWhile (· = slash)
    if start = [] then .ok sanitized else
    match readComponent [] start with
    | .error fault => .error fault
    | .ok (component, cursor) =>
      if component = [] ∨ component = str "." then sanitize fuel sanitized cursor
      else if component = str ".." then .error .refused
      else if pathMax ≤ sanitized.length + component.length + 2 then .error .refused
      else match appendComponent sanitized component with
        | .error fault => .error fault
        | .ok sanitized => sanitize fuel sanitized cursor

def workingCopy (virtualPath : Bytes) : Bytes :=
  let working : CBuffer pathMax := .print (virtualPath.dropWhile fun c => c = byte ' ' ∨ c = 9)
  trimSpace working.text

/-- The conversion of a `size_t` to `int`. -/
def toInt (value : Nat) : Int := (value : Int).bmod (2 ^ 32)

def writeDisplay (display : Option Nat) (text : Bytes) : Except Fault (Option Bytes) :=
  match display with
  | none => .ok none
  | some displayLen =>
    if displayLen = 0 then .ok none
    else if toInt displayLen ≤ text.length then .error .refused
    else .ok (some (text.take (displayLen - 1)))

def placePath (storage : FileStorage) (resolvedLen : Nat) (display : Option Nat) (working sanitized : Bytes) :
    Except Fault (Bytes × Option Bytes) :=
  if sanitized.length = 0 then
    if isRootReference working = false then .error .refused
    else do
      let resolved ← pathBufferCopy resolvedLen storage.root.text
      let shown ← writeDisplay display [slash]
      .ok (resolved, shown)
  else do
    let resolved ← pathBufferJoin resolvedLen storage.root.text sanitized
    let shown ← writeDisplay display (slash :: sanitized)
    .ok (resolved, shown)

def resolvePath (storage : FileStorage) (virtualPath : Bytes) (resolvedLen : Nat) (display : Option Nat) :
    Except Fault (Bytes × Option Bytes) :=
  if resolvedLen = 0 then .error .refused
  else if storage.ready = false ∨ storage.root.text = [] then .error .refused
  else if workingCopy virtualPath = [] then .error .refused
  else do
    let working := workingCopy virtualPath
    let sanitized ← sanitize working.length [] working
    placePath storage resolvedLen display working sanitized

end SshChatter.FileTransfer
