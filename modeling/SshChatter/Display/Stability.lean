import SshChatter.Display.Anchor

namespace SshChatter.DisplayModel
open CString List

section Run

variable {Mem : Type} (mem : AbstractMem Mem DisplayLine)

/-- A run starts from one layout of messages with distinct identifiers and uses one viewport height. It
scrolls only in the states that the guard admits, and it tracks the identifiers. -/
inductive ScrollRun (vp : Nat) (mayScroll : Model Mem → Prop) : List UInt64 → Model Mem → Prop
  | start {capacity : Nat} {model : Model Mem} (log : List Message) (width : UInt32) :
      init mem capacity = some model → (log.map Prod.fst).Nodup →
      ScrollRun vp mayScroll (log.map Prod.fst) (recomputeLayout mem model log width).2
  | append {ids : List UInt64} {model : Model Mem} (messageId : UInt64) (text : Option Bytes)
      (width : UInt32) : ScrollRun vp mayScroll ids model → messageId ∉ ids →
      ScrollRun vp mayScroll (ids ++ [messageId]) (appendMessage mem model messageId text width).2
  | computeVisible {ids : List UInt64} {model : Model Mem} :
      ScrollRun vp mayScroll ids model → ScrollRun vp mayScroll ids (computeVisible mem model vp).2
  | scrollUp {ids : List UInt64} {model : Model Mem} (lines : Nat) :
      ScrollRun vp mayScroll ids model → mayScroll model →
      ScrollRun vp mayScroll ids (scrollUp mem model lines)
  | scrollDown {ids : List UInt64} {model : Model Mem} (lines : Nat) :
      ScrollRun vp mayScroll ids model → mayScroll model →
      ScrollRun vp mayScroll ids (scrollDown mem model lines)

/-- Further messages arrive one by one, each with its identifier, text and width. -/
def appendAll (model : Model Mem) (messages : List (UInt64 × Option Bytes × UInt32)) : Model Mem :=
  messages.foldl (fun model message => (appendMessage mem model message.1 message.2.1 message.2.2).2) model

/-- A null text and a width of zero give no line, as the append refuses them. -/
def newLines (messages : List (UInt64 × Option Bytes × UInt32)) : List DisplayLine :=
  messages.flatMap fun message => wrapLine message.2.1 message.2.2 message.1 wrapCapacity

end Run

section Invariant

variable {Mem : Type} {mem : AbstractMem Mem DisplayLine} {contents : Mem → List DisplayLine}

def Anchored (vp : Nat) (lines : List DisplayLine) (anchor : ViewAnchor) : Prop :=
  (∃ (index : Nat) (line : DisplayLine), lines[index]? = some line ∧ anchor.names line) ∧
    (resolveIn lines anchor + vp ≤ lines.length ∨ resolveIn lines anchor = 0)

/-- The cached top lies on a full page, and a manual view is anchored. -/
structure Settled (contents : Mem → List DisplayLine) (vp : Nat) (model : Model Mem)
    (lines : List DisplayLine) : Prop where
  stored : Stored contents model lines
  cached : model.hasLastVisibleFrame → model.lastVisibleStart ≤ maxTop model.lineCount vp
  anchored : model.view.mode = .manualScroll → Anchored vp lines model.view.anchor

variable {vp : Nat} {model : Model Mem} {lines : List DisplayLine}

theorem anchored_of_line {index : Nat} {line : DisplayLine} (present : lines[index]? = some line)
    (page : index + vp ≤ lines.length ∨ index = 0) :
    Anchored vp lines ⟨line.messageId, line.sublineIndex⟩ := by
  have early := resolveIn_le present (names_self line)
  refine ⟨⟨index, line, present, names_self line⟩, ?_⟩
  rcases page with full | head
  · left; omega
  · right; omega

theorem Anchored.append {anchor : ViewAnchor} (anchored : Anchored vp lines anchor)
    (more : List DisplayLine) : Anchored vp (lines ++ more) anchor := by
  obtain ⟨⟨index, line, present, names⟩, page⟩ := anchored
  have inside := (List.getElem?_eq_some_iff.mp present).1
  refine ⟨⟨index, line, ?_, names⟩, ?_⟩
  · rw [getElem?_append_left inside]
    exact present
  · rw [resolveIn_append present names, length_append]
    rcases page with full | head
    · left; omega
    · right; exact head

/-- An append that the doubling of the capacity reaches adds exactly the wrapped lines. -/
theorem appendMessage_grown (lawful : mem.Lawful contents) (stored : Stored contents model lines)
    (messageId : UInt64) (text : Option Bytes) (width : UInt32) :
    ∃ more, Stored contents (appendMessage mem model messageId text width).2 (lines ++ more) ∧
      ((lines ++ wrapLine text width messageId wrapCapacity).length ≤ 2 ^ 63 →
        more = wrapLine text width messageId wrapCapacity) := by
  have stored' := appendMessage_stored lawful stored messageId text width
  split at stored'
  next succeeded => exact ⟨_, stored', fun _ => rfl⟩
  next failed =>
    refine ⟨[], by rw [append_nil]; exact stored', fun small => ?_⟩
    cases text with
    | none => rfl
    | some =>
      by_cases noWidth : width = 0
      · simp [wrapLine, noWidth]
      · exact absurd (appendMessage_succeeds lawful stored noWidth small) failed

theorem Settled.append (lawful : mem.Lawful contents) (settled : Settled contents vp model lines)
    (messageId : UInt64) (text : Option Bytes) (width : UInt32) :
    ∃ more, Settled contents vp (appendMessage mem model messageId text width).2 (lines ++ more) ∧
      ((lines ++ wrapLine text width messageId wrapCapacity).length ≤ 2 ^ 63 →
        more = wrapLine text width messageId wrapCapacity) := by
  have view := appendMessage_viewFields mem model messageId text width
  simp only [viewFields, Prod.mk.injEq] at view
  obtain ⟨more, grown, exactly⟩ := appendMessage_grown lawful settled.stored messageId text width
  have grows : model.lineCount ≤ (appendMessage mem model messageId text width).2.lineCount := by
    rw [← grown.length_eq, ← settled.stored.length_eq, length_append]
    omega
  refine ⟨more, ⟨grown, ?_, ?_⟩, exactly⟩
  · rw [view.2.2.2, view.2.1]
    intro cached
    exact (settled.cached cached).trans (maxTop_mono grows vp)
  · rw [view.1]
    intro manual
    exact (settled.anchored manual).append more

theorem Settled.computeVisible (lawful : mem.Lawful contents) (settled : Settled contents vp model lines) :
    Settled contents vp (computeVisible mem model vp).2 lines := by
  by_cases shown : model.lineCount ≠ 0 ∧ vp ≠ 0
  · obtain ⟨atTail, frame⟩ := computeVisible_eq lawful settled.stored shown.1 shown.2
    rw [frame]
    exact ⟨settled.stored.of_lineFields rfl, fun _ => visibleTop_le mem model vp, settled.anchored⟩
  · have hidden : model.lineCount = 0 ∨ vp = 0 := by tauto
    rw [DisplayModel.computeVisible, if_pos hidden]
    exact ⟨settled.stored.of_lineFields rfl, by simp, settled.anchored⟩

theorem Settled.scrollOrigin_page (lawful : mem.Lawful contents) (settled : Settled contents vp model lines)
    (nonEmpty : model.lineCount ≠ 0) (known : model.lastViewportHeight = vp) (positive : vp ≠ 0)
    (count : Nat) :
    scrollOrigin mem model count < model.lineCount ∧
      (scrollOrigin mem model count + vp ≤ model.lineCount ∨ scrollOrigin mem model count = 0) := by
  have last := maxTop_lt nonEmpty positive
  have page : maxTop model.lineCount (min (effectiveViewport model count) model.lineCount) =
      maxTop model.lineCount vp := by
    rw [maxTop_min, effectiveViewport_of_known (by omega), known]
  cases mode : model.view.mode with
  | followTail =>
    simp only [scrollOrigin, mode, page]
    split
    next cached =>
      have early := settled.cached cached
      exact ⟨by omega, maxTop_add_le early⟩
    next => exact ⟨last, maxTop_add_le (le_refl _)⟩
  | manualScroll =>
    obtain ⟨resolved, inside⟩ := settled.stored.resolve lawful nonEmpty model.view.anchor
    simp only [scrollOrigin, mode, resolved]
    rw [← settled.stored.length_eq] at inside ⊢
    exact ⟨inside, (settled.anchored mode).2⟩

theorem Settled.scrollUp (lawful : mem.Lawful contents) (settled : Settled contents vp model lines)
    (known : model.lastViewportHeight = vp) (positive : vp ≠ 0) (count : Nat) :
    Settled contents vp (scrollUp mem model count) lines := by
  by_cases idle : model.lineCount = 0 ∨ count = 0
  · rw [DisplayModel.scrollUp, if_pos idle]
    exact settled
  · rw [not_or] at idle
    obtain ⟨inside, page⟩ := settled.scrollOrigin_page lawful idle.1 known positive count
    obtain ⟨line, present, moved⟩ :=
      scrollUp_eq lawful settled.stored idle.1 idle.2 (by omega)
    rw [moved]
    refine ⟨settled.stored.of_lineFields rfl, settled.cached, fun _ => ?_⟩
    apply anchored_of_line present
    rw [settled.stored.length_eq]
    rcases page with full | head
    · left; omega
    · right; omega

theorem Settled.scrollDown (lawful : mem.Lawful contents) (settled : Settled contents vp model lines)
    (known : model.lastViewportHeight = vp) (positive : vp ≠ 0) (count : Nat) :
    Settled contents vp (scrollDown mem model count) lines := by
  have released : Settled contents vp (followTail model) lines :=
    ⟨settled.stored.of_lineFields rfl, by simp [followTail], by simp [followTail]⟩
  have page : maxTop model.lineCount (min (effectiveViewport model count) model.lineCount) =
      maxTop model.lineCount vp := by
    rw [maxTop_min, effectiveViewport_of_known (by omega), known]
  unfold DisplayModel.scrollDown
  dsimp only
  split
  next => exact settled
  next busy =>
    rw [not_or] at busy
    split
    next => exact settled
    next =>
      split
      next => exact released
      next currentIdx _ =>
        split
        next => exact released
        next inside =>
          have last := maxTop_lt busy.1 positive
          obtain ⟨line, present, read⟩ := settled.stored.read_line lawful
            (show (currentIdx + count) % 2 ^ 64 < model.lineCount by omega)
          rw [read]
          refine ⟨settled.stored.of_lineFields rfl, settled.cached, fun _ => ?_⟩
          apply anchored_of_line present
          rw [settled.stored.length_eq]
          exact maxTop_add_le (by omega)

theorem ScrollRun.settled (lawful : mem.Lawful contents) {mayScroll : Model Mem → Prop}
    (known : ∀ model, mayScroll model → model.lastViewportHeight = vp) (positive : vp ≠ 0)
    {ids : List UInt64} (run : ScrollRun mem vp mayScroll ids model) :
    ∃ lines, Settled contents vp model lines := by
  induction run with
  | @start capacity initial log width started _ =>
    obtain ⟨lines, stored, _⟩ :=
      recomputeLayout_stored lawful (init_stored lawful started) log width
    have view := recomputeLayout_viewFields mem initial log width
    simp only [DisplayModel.init, Option.map_eq_some_iff] at started
    obtain ⟨storage, _, rfl⟩ := started
    simp only [viewFields, Prod.mk.injEq] at view
    exact ⟨lines, stored, by simp [view.2.2.2], by simp [view.1]⟩
  | append messageId text width _ _ ih =>
    obtain ⟨lines, settled⟩ := ih
    obtain ⟨more, settled', -⟩ := settled.append lawful messageId text width
    exact ⟨_, settled'⟩
  | computeVisible _ ih =>
    obtain ⟨lines, settled⟩ := ih
    exact ⟨lines, settled.computeVisible lawful⟩
  | scrollUp count _ admitted ih =>
    obtain ⟨lines, settled⟩ := ih
    exact ⟨lines, settled.scrollUp lawful (known _ admitted) positive count⟩
  | scrollDown count _ admitted ih =>
    obtain ⟨lines, settled⟩ := ih
    exact ⟨lines, settled.scrollDown lawful (known _ admitted) positive count⟩

theorem appendAll_viewFields (model : Model Mem) (messages : List (UInt64 × Option Bytes × UInt32)) :
    viewFields (appendAll mem model messages) = viewFields model := by
  induction messages generalizing model with
  | nil => rfl
  | cons message messages ih =>
    exact (ih _).trans (appendMessage_viewFields mem model message.1 message.2.1 message.2.2)

theorem Settled.appendAll (lawful : mem.Lawful contents) (settled : Settled contents vp model lines)
    (messages : List (UInt64 × Option Bytes × UInt32)) :
    ∃ more, Settled contents vp (appendAll mem model messages) (lines ++ more) ∧
      ((lines ++ newLines messages).length ≤ 2 ^ 63 → more = newLines messages) := by
  induction messages generalizing model lines with
  | nil => exact ⟨[], by rw [append_nil]; exact settled, fun _ => rfl⟩
  | cons message messages ih =>
    obtain ⟨first, step, firstExact⟩ := settled.append lawful message.1 message.2.1 message.2.2
    obtain ⟨rest, done, restExact⟩ := ih step
    refine ⟨first ++ rest, by rw [← append_assoc]; exact done, fun small => ?_⟩
    rw [newLines, flatMap_cons, ← append_assoc] at small
    have firstEq : first = wrapLine message.2.1 message.2.2 message.1 wrapCapacity := by
      apply firstExact
      rw [length_append] at small
      exact (Nat.le_add_right _ _).trans small
    rw [firstEq] at restExact ⊢
    rw [restExact small, newLines, newLines, flatMap_cons]

theorem Settled.manual_frame (lawful : mem.Lawful contents) (settled : Settled contents vp model lines)
    (manual : model.view.mode = .manualScroll) (positive : vp ≠ 0) :
    (DisplayModel.computeVisible mem model vp).1.firstGlobalIndex = resolveIn lines model.view.anchor ∧
      (DisplayModel.computeVisible mem model vp).1.count =
        min (lines.length - resolveIn lines model.view.anchor) vp ∧
      (DisplayModel.computeVisible mem model vp).1.lines =
        (lines.drop (resolveIn lines model.view.anchor)).take vp := by
  obtain ⟨⟨index, line, present, _⟩, page⟩ := settled.anchored manual
  have inside := (List.getElem?_eq_some_iff.mp present).1
  have length := settled.stored.length_eq
  have nonEmpty : model.lineCount ≠ 0 := by omega
  obtain ⟨resolved, bound⟩ := settled.stored.resolve lawful nonEmpty model.view.anchor
  have top : visibleTop mem model vp = resolveIn lines model.view.anchor := by
    simp only [visibleTop, manual, manualTop, resolved, Option.getD_some, maxTop]
    split
    · split <;> omega
    · rfl
  obtain ⟨atTail, frame⟩ := computeVisible_eq lawful settled.stored nonEmpty positive
  rw [frame, top, ← length]
  refine ⟨rfl, rfl, ?_⟩
  rw [Nat.min_comm, ← take_take, take_of_length_le (l := lines.drop _)]
  rw [length_drop]

end Invariant

/-- New messages never move a manual view. When every scroll followed a frame of this height, the top line
stays, the shown lines stay in front, a full page stays as it is and the new lines fill up a short page. -/
theorem manual_view_stable {Mem : Type} {mem : AbstractMem Mem DisplayLine}
    {contents : Mem → List DisplayLine} (lawful : mem.Lawful contents) {vp : Nat} (positive : vp ≠ 0)
    {mayScroll : Model Mem → Prop} {ids : List UInt64} {model : Model Mem}
    (run : ScrollRun mem vp mayScroll ids model) (manual : model.view.mode = .manualScroll)
    (messages : List (UInt64 × Option Bytes × UInt32)) :
    (appendAll mem model messages).view = model.view ∧
    ((∀ earlier, mayScroll earlier → earlier.lastViewportHeight = vp) →
      (computeVisible mem (appendAll mem model messages) vp).1.firstGlobalIndex =
        (computeVisible mem model vp).1.firstGlobalIndex ∧
      (computeVisible mem model vp).1.lines <+:
        (computeVisible mem (appendAll mem model messages) vp).1.lines ∧
      ((computeVisible mem model vp).1.count = vp →
        (computeVisible mem (appendAll mem model messages) vp).1.lines =
          (computeVisible mem model vp).1.lines) ∧
      (∃ more, storedLines mem (appendAll mem model messages) = (storedLines mem model).map (· ++ more) ∧
        (computeVisible mem (appendAll mem model messages) vp).1.lines =
          (computeVisible mem model vp).1.lines ++ more.take (vp - (computeVisible mem model vp).1.count) ∧
        (model.lineCount + (newLines messages).length ≤ 2 ^ 63 → more = newLines messages))) := by
  have view : viewFields (appendAll mem model messages) = viewFields model :=
    appendAll_viewFields model messages
  simp only [viewFields, Prod.mk.injEq] at view
  refine ⟨view.1, fun known => ?_⟩
  obtain ⟨lines, settled⟩ := run.settled lawful known positive
  obtain ⟨more, settled', exactly⟩ := settled.appendAll lawful messages
  obtain ⟨⟨index, line, present, names⟩, _⟩ := settled.anchored manual
  obtain ⟨top, count, shown⟩ := settled.manual_frame lawful manual positive
  obtain ⟨top', _, shown'⟩ := settled'.manual_frame lawful (by rw [view.1]; exact manual) positive
  rw [view.1, resolveIn_append present names] at top' shown'
  rw [drop_append_of_le_length (by omega), take_append, length_drop] at shown'
  -- A page shorter than the viewport reaches the last line, so the rest of the viewport is free.
  have free : vp - (lines.length - resolveIn lines model.view.anchor) =
      vp - (computeVisible mem model vp).1.count := by
    omega
  rw [← shown, free] at shown'
  refine ⟨top'.trans top.symm, ?_, fun full => ?_, more, ?_, shown', fun small => exactly ?_⟩
  · rw [shown']
    exact prefix_append _ _
  · rw [shown', full, Nat.sub_self, take_zero, append_nil]
  · rw [storedLines, storedLines, settled'.stored.read lawful, settled.stored.read lawful, Option.map_some]
  · rw [length_append, settled.stored.length_eq]
    exact small

def oneMore : List (UInt64 × Option Bytes × UInt32) := [(4, some (str "d"), 80)]

theorem laidOutModel_run (vp : Nat) (mayScroll : Model (List DisplayLine) → Prop) :
    ScrollRun (.list DisplayLine) vp mayScroll [1, 2, 3] laidOutModel := by
  have distinct : ([(1, some (str "a")), (2, some (str "b")), (3, some (str "c"))].map Prod.fst :
      List UInt64).Nodup := by decide
  exact .start _ 80 (Option.some_get _).symm distinct

def scrolledModel (vp : Nat) : Model (List DisplayLine) :=
  scrollUp (.list DisplayLine) (computeVisible (.list DisplayLine) laidOutModel vp).2 1

theorem scrolledModel_run {vp : Nat}
    (shown : (computeVisible (.list DisplayLine) laidOutModel vp).2.lastViewportHeight = vp) :
    ScrollRun (.list DisplayLine) vp (fun model => model.lastViewportHeight = vp) [1, 2, 3]
      (scrolledModel vp) :=
  .scrollUp 1 (.computeVisible (laidOutModel_run vp _)) shown

/-- A page of one line stays as it is, and the new line fills up a page of ten. -/
theorem manual_view_stable_one_line :
    (computeVisible (.list DisplayLine) (appendAll (.list DisplayLine) (scrolledModel 1) oneMore) 1).1.lines =
      (computeVisible (.list DisplayLine) (scrolledModel 1) 1).1.lines ∧
    (computeVisible (.list DisplayLine) (appendAll (.list DisplayLine) (scrolledModel 10) oneMore) 10).1.lines =
      (computeVisible (.list DisplayLine) (scrolledModel 10) 10).1.lines ++ newLines oneMore := by
  have stable (vp : Nat) (positive : vp ≠ 0)
      (shown : (computeVisible (.list DisplayLine) laidOutModel vp).2.lastViewportHeight = vp)
      (manual : (scrolledModel vp).view.mode = .manualScroll) :=
    (manual_view_stable (AbstractMem.list_lawful DisplayLine) positive (scrolledModel_run shown) manual
      oneMore).2 fun _ known => known
  refine ⟨(stable 1 (by decide) (by decide +kernel) (by decide +kernel)).2.2.1 (by decide +kernel), ?_⟩
  decide +kernel

/-- New messages fill up a short page, and they move the top of a view that was scrolled before its first
frame. -/
theorem manual_view_moves :
    (¬ ∀ (vp : Nat) (ids : List UInt64) (model : Model (List DisplayLine))
      (messages : List (UInt64 × Option Bytes × UInt32)), vp ≠ 0 →
      ScrollRun (.list DisplayLine) vp (fun model => model.lastViewportHeight = vp) ids model →
      model.view.mode = .manualScroll → (ids ++ messages.map Prod.fst).Nodup →
      (computeVisible (.list DisplayLine) (appendAll (.list DisplayLine) model messages) vp).1.lines =
        (computeVisible (.list DisplayLine) model vp).1.lines) ∧
    (¬ ∀ (vp : Nat) (ids : List UInt64) (model : Model (List DisplayLine))
      (messages : List (UInt64 × Option Bytes × UInt32)), vp ≠ 0 →
      ScrollRun (.list DisplayLine) vp (fun _ => True) ids model →
      model.view.mode = .manualScroll → (ids ++ messages.map Prod.fst).Nodup →
      (computeVisible (.list DisplayLine) (appendAll (.list DisplayLine) model messages)
          vp).1.firstGlobalIndex =
        (computeVisible (.list DisplayLine) model vp).1.firstGlobalIndex) := by
  constructor
  · intro claim
    have same := claim 10 [1, 2, 3] (scrolledModel 10) oneMore (by decide)
      (scrolledModel_run (by decide +kernel)) (by decide +kernel) (by decide)
    exact absurd same (by decide +kernel)
  · intro claim
    have same := claim 3 [1, 2, 3] (scrollUp (.list DisplayLine) laidOutModel 1) oneMore (by decide)
      (.scrollUp 1 (laidOutModel_run 3 _) trivial) (by decide +kernel) (by decide)
    exact absurd same (by decide +kernel)

end SshChatter.DisplayModel
