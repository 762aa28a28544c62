import SshChatter.Display.Wrap
import SshChatter.Lib.AbstractMem

namespace SshChatter.DisplayModel
open CString

inductive ViewMode where
  | followTail
  | manualScroll
  deriving DecidableEq, Repr

/-- The anchor names the top line by its message and its subline. -/
structure ViewAnchor where
  messageId : UInt64
  sublineIndex : UInt16
  deriving DecidableEq

structure ViewState where
  mode : ViewMode
  anchor : ViewAnchor
  deriving DecidableEq

/-- This is `display_model_t` over a store of lines. -/
structure Model (Mem : Type) where
  lineStorage : Mem
  lineCount : Nat
  lineCapacity : Nat
  layoutWidth : UInt32
  dirty : Bool
  view : ViewState
  lastVisibleStart : Nat
  lastViewportHeight : Nat
  hasLastVisibleFrame : Bool
  deriving DecidableEq

/-- This is `display_visible_frame_t` without its borrowed map. -/
structure VisibleFrame where
  lines : List DisplayLine
  count : Nat
  firstGlobalIndex : Nat
  atTail : Bool
  atHead : Bool
  deriving DecidableEq

/-- A log entry is a message identifier and its text, absent for a null pointer. -/
abbrev Message := UInt64 × Option Bytes

abbrev wrapCapacity : Nat := 256

section Operations

variable {Mem : Type} (mem : AbstractMem Mem DisplayLine)

def effectiveViewport (model : Model Mem) (fallbackLines : Nat) : Nat :=
  let vp := if 0 < model.lastViewportHeight then model.lastViewportHeight else fallbackLines
  if vp = 0 then 1 else vp

/-- The capacity doubles until it suffices. The result is absent when the next double overflows. -/
def growCapacity (needed newCap : Nat) (positive : 0 < newCap) : Option Nat :=
  if needed ≤ newCap then some newCap
  else if (2 ^ 64 - 1) / 2 < newCap then none
  else growCapacity needed (newCap * 2) (by omega)
termination_by needed - newCap

def grownCapacity (lineCapacity needed : Nat) : Option Nat :=
  if empty : lineCapacity = 0 then growCapacity needed 64 (by decide)
  else growCapacity needed lineCapacity (Nat.pos_of_ne_zero empty)

def ensureCapacity (model : Model Mem) (neededCapacity : Nat) : Bool × Model Mem :=
  if neededCapacity ≤ model.lineCapacity then (true, model)
  else match grownCapacity model.lineCapacity neededCapacity with
    | none => (false, model)
    | some newCap =>
      match mem.resize model.lineStorage newCap with
      | none => (false, model)
      | some storage => (true, { model with lineStorage := storage, lineCapacity := newCap })

def init (initialCapacity : Nat) : Option (Model Mem) :=
  let capacity := if initialCapacity = 0 then 64 else initialCapacity
  (mem.alloc capacity).map fun storage =>
    { lineStorage := storage
      lineCount := 0
      lineCapacity := capacity
      layoutWidth := 0
      dirty := false
      view := ⟨.followTail, ⟨0, 0⟩⟩
      lastVisibleStart := 0
      lastViewportHeight := 0
      hasLastVisibleFrame := false }

def storeWrapped (model : Model Mem) (wrapped : List DisplayLine) : Bool × Model Mem :=
  let grown := ensureCapacity mem model (model.lineCount + wrapped.length)
  if grown.1 = false then grown
  else match mem.mapWrite grown.2.lineStorage model.lineCount wrapped with
    | none => (false, grown.2)
    | some storage =>
      (true, { grown.2 with lineStorage := storage, lineCount := model.lineCount + wrapped.length })

def layoutLoop (width : UInt32) : Model Mem → List Message → Bool × Model Mem
  | model, [] => (true, model)
  | model, message :: log =>
    let stored := storeWrapped mem model (wrapLine message.2 width message.1 wrapCapacity)
    if stored.1 = false then stored else layoutLoop width stored.2 log

def recomputeLayout (model : Model Mem) (log : List Message) (width : UInt32) : Bool × Model Mem :=
  let cleared := { model with lineCount := 0, layoutWidth := width }
  if log = [] ∨ width = 0 then (true, { cleared with dirty := false })
  else
    let laidOut := layoutLoop mem width cleared log
    if laidOut.1 = false then laidOut else (true, { laidOut.2 with dirty := false })

def appendMessage (model : Model Mem) (messageId : UInt64) (text : Option Bytes) (width : UInt32) :
    Bool × Model Mem :=
  if text = none ∨ width = 0 then (false, model)
  else
    let stored := storeWrapped mem model (wrapLine text width messageId wrapCapacity)
    if stored.1 = false then stored else (true, { stored.2 with layoutWidth := width })

def ViewAnchor.names (anchor : ViewAnchor) (line : DisplayLine) : Bool :=
  line.messageId = anchor.messageId ∧ line.sublineIndex = anchor.sublineIndex

/-- The search finds the exact subline, then the message, then a newer one, then the last line. -/
def resolveIn (lines : List DisplayLine) (anchor : ViewAnchor) : Nat :=
  match lines.findIdx? anchor.names with
  | some i => i
  | none =>
    match lines.findIdx? fun line => line.messageId = anchor.messageId with
    | some i => i
    | none =>
      match lines.findIdx? fun line => anchor.messageId ≤ line.messageId with
      | some i => i
      | none => lines.length - 1

/-- This is `display_model_resolve_anchor`. The absent result stands for `SIZE_MAX`. -/
def resolveAnchor (model : Model Mem) (anchor : ViewAnchor) : Option Nat :=
  if model.lineCount = 0 then none
  else (mem.mapRead model.lineStorage 0 model.lineCount).map fun lines => resolveIn lines anchor

/-- The first line of the last full page. -/
def maxTop (total vp : Nat) : Nat := if vp < total then total - vp else 0

def manualTop (model : Model Mem) (vp : Nat) : Nat :=
  let anchorIdx := (resolveAnchor mem model model.view.anchor).getD (maxTop model.lineCount vp)
  if model.lineCount < anchorIdx + vp then maxTop model.lineCount vp else anchorIdx

def emptyFrame : VisibleFrame := ⟨[], 0, 0, true, true⟩

def computeVisible (model : Model Mem) (vp : Nat) : VisibleFrame × Model Mem :=
  if model.lineCount = 0 ∨ vp = 0 then
    (emptyFrame,
      { model with hasLastVisibleFrame := false, lastVisibleStart := 0, lastViewportHeight := vp })
  else
    let total := model.lineCount
    let start := match model.view.mode with
      | .followTail => maxTop total vp
      | .manualScroll => manualTop mem model vp
    let count := match model.view.mode with
      | .followTail => total - start
      | .manualScroll => min (total - start) vp
    let atTail : Bool := match model.view.mode with
      | .followTail => true
      | .manualScroll => total ≤ start + count
    match mem.mapRead model.lineStorage start count with
    | none => (emptyFrame, model)
    | some lines =>
      (⟨lines, count, start, atTail, start = 0⟩,
        { model with lastViewportHeight := vp, lastVisibleStart := start, hasLastVisibleFrame := true })

def followTail (model : Model Mem) : Model Mem :=
  { model with
    view := ⟨.followTail, ⟨0, 0⟩⟩
    hasLastVisibleFrame := false
    lastVisibleStart := 0 }

def anchorAt (model : Model Mem) (line : DisplayLine) : Model Mem :=
  { model with view := ⟨.manualScroll, ⟨line.messageId, line.sublineIndex⟩⟩ }

def scrollOrigin (model : Model Mem) (lines : Nat) : Nat :=
  let viewport := min (effectiveViewport model lines) model.lineCount
  match model.view.mode with
  | .followTail =>
    if model.hasLastVisibleFrame then model.lastVisibleStart else maxTop model.lineCount viewport
  | .manualScroll =>
    (resolveAnchor mem model model.view.anchor).getD (maxTop model.lineCount viewport)

def scrollUp (model : Model Mem) (lines : Nat) : Model Mem :=
  if model.lineCount = 0 ∨ lines = 0 then model
  else
    -- The mode changes before the line is read, so a failed read leaves a manual view.
    let manual := { model with view := { model.view with mode := .manualScroll } }
    match mem.mapRead model.lineStorage (scrollOrigin mem model lines - lines) 1 with
    | some (line :: _) => anchorAt model line
    | _ => manual

/-- This is `display_model_scroll_down`. The new index wraps like `size_t`. -/
def scrollDown (model : Model Mem) (lines : Nat) : Model Mem :=
  if model.lineCount = 0 ∨ lines = 0 then model
  else match model.view.mode with
    | .followTail => model
    | .manualScroll =>
      let viewport := min (effectiveViewport model lines) model.lineCount
      let last := maxTop model.lineCount viewport
      match resolveAnchor mem model model.view.anchor with
      | none => followTail model
      | some currentIdx =>
        let newIdx := (currentIdx + lines) % 2 ^ 64
        if last = 0 ∨ last ≤ newIdx then followTail model
        else match mem.mapRead model.lineStorage newIdx 1 with
          | some (line :: _) => anchorAt model line
          | _ => followTail model

end Operations

end SshChatter.DisplayModel
