import SshChatter.Display.Layout

namespace SshChatter.DisplayModel
open CString List

section Resolution

variable {lines : List DisplayLine} {anchor : ViewAnchor}

theorem resolveIn_lt (nonEmpty : lines ≠ []) (anchor : ViewAnchor) :
    resolveIn lines anchor < lines.length := by
  have positive := length_pos_iff.mpr nonEmpty
  unfold resolveIn
  split
  next i found => exact (findIdx?_eq_some_iff_findIdx_eq.mp found).1
  next =>
    split
    next i found => exact (findIdx?_eq_some_iff_findIdx_eq.mp found).1
    next =>
      split
      next i found => exact (findIdx?_eq_some_iff_findIdx_eq.mp found).1
      next => omega

variable {line : DisplayLine} {index : Nat}

theorem findIdx_names (present : lines[index]? = some line) (names : anchor.names line = true) :
    ∃ first ≤ index, lines.findIdx? anchor.names = some first := by
  have member : line ∈ lines := mem_of_getElem? present
  obtain ⟨inside, value⟩ := List.getElem?_eq_some_iff.mp present
  have found := findIdx?_eq_some_of_exists ⟨line, member, names⟩
  refine ⟨lines.findIdx anchor.names, ?_, found⟩
  obtain ⟨_, _, earlier⟩ := findIdx?_eq_some_iff_getElem.mp found
  by_contra late
  have missed := earlier index (Nat.lt_of_not_le late)
  rw [value] at missed
  exact missed names

theorem resolveIn_eq_of_findIdx {first : Nat} (found : lines.findIdx? anchor.names = some first) :
    resolveIn lines anchor = first := by
  rw [resolveIn, found]

theorem resolveIn_le (present : lines[index]? = some line) (names : anchor.names line) :
    resolveIn lines anchor ≤ index := by
  obtain ⟨first, early, found⟩ := findIdx_names present names
  rw [resolveIn_eq_of_findIdx found]
  exact early

theorem resolveIn_append (present : lines[index]? = some line) (names : anchor.names line)
    (more : List DisplayLine) :
    resolveIn (lines ++ more) anchor = resolveIn lines anchor := by
  obtain ⟨first, _, found⟩ := findIdx_names present names
  have foundMore : (lines ++ more).findIdx? anchor.names = some first := by
    rw [findIdx?_append, found]
    rfl
  rw [resolveIn_eq_of_findIdx found, resolveIn_eq_of_findIdx foundMore]

theorem names_self (line : DisplayLine) :
    (ViewAnchor.mk line.messageId line.sublineIndex).names line := by
  simp [ViewAnchor.names]

end Resolution

theorem maxTop_lt {total vp : Nat} (nonEmpty : total ≠ 0) (positive : vp ≠ 0) : maxTop total vp < total := by
  unfold maxTop
  split <;> omega

theorem maxTop_min (total vp : Nat) : maxTop total (min vp total) = maxTop total vp := by
  unfold maxTop
  split <;> split <;> omega

theorem maxTop_add_le {total vp index : Nat} (early : index ≤ maxTop total vp) :
    index + vp ≤ total ∨ index = 0 := by
  unfold maxTop at early
  split at early <;> omega

theorem maxTop_mono {total total' : Nat} (grows : total ≤ total') (vp : Nat) :
    maxTop total vp ≤ maxTop total' vp := by
  unfold maxTop
  split <;> split <;> omega

section Read

variable {Mem : Type} {mem : AbstractMem Mem DisplayLine} {contents : Mem → List DisplayLine}
variable {model : Model Mem} {lines : List DisplayLine}

theorem Stored.read_range (lawful : mem.Lawful contents) (stored : Stored contents model lines)
    {offset count : Nat} (inside : offset + count ≤ model.lineCount) :
    mem.mapRead model.lineStorage offset count = some ((lines.drop offset).take count) := by
  have bound := stored.inside
  have length := stored.capacity
  rw [lawful.read _ _ _ (by omega), ← stored.window, drop_take, take_take,
    min_eq_left (by omega)]

theorem Stored.read_line (lawful : mem.Lawful contents) (stored : Stored contents model lines)
    {index : Nat} (inside : index < model.lineCount) :
    ∃ line, lines[index]? = some line ∧ mem.mapRead model.lineStorage index 1 = some [line] := by
  have length := stored.length_eq
  have present : lines[index]? = some lines[index] := getElem?_eq_getElem (by omega)
  refine ⟨_, present, ?_⟩
  rw [stored.read_range lawful (by omega), take_one, head?_drop, present]
  rfl

theorem Stored.resolve (lawful : mem.Lawful contents) (stored : Stored contents model lines)
    (nonEmpty : model.lineCount ≠ 0) (anchor : ViewAnchor) :
    resolveAnchor mem model anchor = some (resolveIn lines anchor) ∧
      resolveIn lines anchor < model.lineCount := by
  have length := stored.length_eq
  have present : lines ≠ [] := by
    intro empty
    rw [empty] at length
    exact nonEmpty length.symm
  refine ⟨?_, ?_⟩
  · rw [resolveAnchor, if_neg nonEmpty, stored.read lawful, Option.map_some]
  · rw [← length]
    exact resolveIn_lt present anchor

def visibleTop (mem : AbstractMem Mem DisplayLine) (model : Model Mem) (vp : Nat) : Nat :=
  match model.view.mode with
  | .followTail => maxTop model.lineCount vp
  | .manualScroll => manualTop mem model vp

theorem manualTop_le (mem : AbstractMem Mem DisplayLine) (model : Model Mem) (vp : Nat) :
    manualTop mem model vp ≤ maxTop model.lineCount vp := by
  unfold manualTop maxTop
  dsimp only
  split <;> split <;> omega

theorem visibleTop_le (mem : AbstractMem Mem DisplayLine) (model : Model Mem) (vp : Nat) :
    visibleTop mem model vp ≤ maxTop model.lineCount vp := by
  unfold visibleTop
  split
  · exact le_refl _
  · exact manualTop_le mem model vp

theorem computeVisible_eq (lawful : mem.Lawful contents) (stored : Stored contents model lines)
    (nonEmpty : model.lineCount ≠ 0) {vp : Nat} (positive : vp ≠ 0) :
    ∃ atTail, computeVisible mem model vp =
      (⟨(lines.drop (visibleTop mem model vp)).take (min (model.lineCount - visibleTop mem model vp) vp),
          min (model.lineCount - visibleTop mem model vp) vp, visibleTop mem model vp, atTail,
          visibleTop mem model vp = 0⟩,
        { model with
          lastViewportHeight := vp
          lastVisibleStart := visibleTop mem model vp
          hasLastVisibleFrame := true }) := by
  have bound := visibleTop_le mem model vp
  have last := maxTop_lt nonEmpty positive
  have read := stored.read_range lawful
    (show visibleTop mem model vp + min (model.lineCount - visibleTop mem model vp) vp ≤ model.lineCount by
      omega)
  unfold computeVisible
  rw [if_neg (by simp [nonEmpty, positive])]
  cases mode : model.view.mode with
  | followTail =>
    -- The tail page never exceeds the viewport, so both counts agree.
    have count : model.lineCount - maxTop model.lineCount vp =
        min (model.lineCount - maxTop model.lineCount vp) vp := by
      unfold maxTop
      split <;> omega
    simp only [visibleTop, mode] at read ⊢
    rw [← count] at read ⊢
    rw [read]
    exact ⟨_, rfl⟩
  | manualScroll =>
    simp only [visibleTop, mode] at read ⊢
    rw [read]
    exact ⟨_, rfl⟩

end Read

section Reachable

variable {Mem : Type} (mem : AbstractMem Mem DisplayLine)

/-- A run applies any layout and view operations in any order, whether they succeed or fail. -/
inductive Reachable : Model Mem → Prop
  | init {capacity : Nat} {model : Model Mem} : init mem capacity = some model → Reachable model
  | recompute {model : Model Mem} (log : List Message) (width : UInt32) :
      Reachable model → Reachable (recomputeLayout mem model log width).2
  | append {model : Model Mem} (messageId : UInt64) (text : Option Bytes) (width : UInt32) :
      Reachable model → Reachable (appendMessage mem model messageId text width).2
  | computeVisible {model : Model Mem} (vp : Nat) :
      Reachable model → Reachable (computeVisible mem model vp).2
  | scrollUp {model : Model Mem} (lines : Nat) : Reachable model → Reachable (scrollUp mem model lines)
  | scrollDown {model : Model Mem} (lines : Nat) :
      Reachable model → Reachable (scrollDown mem model lines)
  | followTail {model : Model Mem} : Reachable model → Reachable (followTail model)

structure Sound (contents : Mem → List DisplayLine) (model : Model Mem) : Prop where
  stored : ∃ lines, Stored contents model lines
  cached : model.hasLastVisibleFrame → model.lastViewportHeight ≠ 0

variable {mem} {contents : Mem → List DisplayLine}

theorem cached_of_viewFields {model model' : Model Mem}
    (cached : model.hasLastVisibleFrame → model.lastViewportHeight ≠ 0)
    (same : viewFields model' = viewFields model) :
    model'.hasLastVisibleFrame → model'.lastViewportHeight ≠ 0 := by
  simp only [viewFields, Prod.mk.injEq] at same
  rw [same.2.2.1, same.2.2.2]
  exact cached

theorem scrollUp_cache (model : Model Mem) (lines : Nat) :
    (scrollUp mem model lines).hasLastVisibleFrame = model.hasLastVisibleFrame ∧
      (scrollUp mem model lines).lastVisibleStart = model.lastVisibleStart ∧
      (scrollUp mem model lines).lastViewportHeight = model.lastViewportHeight := by
  unfold scrollUp
  split
  · exact ⟨rfl, rfl, rfl⟩
  · split <;> exact ⟨rfl, rfl, rfl⟩

theorem scrollDown_cache (model : Model Mem) (lines : Nat) :
    ((scrollDown mem model lines).hasLastVisibleFrame →
        model.hasLastVisibleFrame ∧
          (scrollDown mem model lines).lastVisibleStart = model.lastVisibleStart) ∧
      (scrollDown mem model lines).lastViewportHeight = model.lastViewportHeight := by
  unfold scrollDown
  dsimp only
  repeat' split
  all_goals exact ⟨by simp [followTail, anchorAt], rfl⟩

theorem Reachable.sound (lawful : mem.Lawful contents) {model : Model Mem}
    (reachable : Reachable mem model) : Sound contents model := by
  induction reachable with
  | init started =>
    refine ⟨⟨[], init_stored lawful started⟩, ?_⟩
    simp only [DisplayModel.init, Option.map_eq_some_iff] at started
    obtain ⟨storage, _, rfl⟩ := started
    simp
  | recompute log width _ ih =>
    obtain ⟨lines, stored⟩ := ih.stored
    obtain ⟨lines', stored', _⟩ := recomputeLayout_stored lawful stored log width
    exact ⟨⟨lines', stored'⟩, cached_of_viewFields ih.cached (recomputeLayout_viewFields mem _ log width)⟩
  | append messageId text width _ ih =>
    obtain ⟨lines, stored⟩ := ih.stored
    exact ⟨⟨_, appendMessage_stored lawful stored messageId text width⟩,
      cached_of_viewFields ih.cached (appendMessage_viewFields mem _ messageId text width)⟩
  | @computeVisible model vp _ ih =>
    obtain ⟨lines, stored⟩ := ih.stored
    refine ⟨⟨lines, stored.of_lineFields (computeVisible_lineFields mem _ vp)⟩, ?_⟩
    by_cases shown : model.lineCount ≠ 0 ∧ vp ≠ 0
    · obtain ⟨atTail, frame⟩ := computeVisible_eq lawful stored shown.1 shown.2
      rw [frame]
      exact fun _ => shown.2
    · have hidden : model.lineCount = 0 ∨ vp = 0 := by tauto
      rw [DisplayModel.computeVisible, if_pos hidden]
      simp
  | scrollUp lines _ ih =>
    obtain ⟨stored, stored'⟩ := ih.stored
    refine ⟨⟨stored, stored'.of_lineFields (scrollUp_lineFields mem _ lines)⟩, ?_⟩
    rw [(scrollUp_cache _ lines).1, (scrollUp_cache _ lines).2.2]
    exact ih.cached
  | scrollDown lines _ ih =>
    obtain ⟨stored, stored'⟩ := ih.stored
    refine ⟨⟨stored, stored'.of_lineFields (scrollDown_lineFields mem _ lines)⟩, ?_⟩
    intro cached
    rw [(scrollDown_cache _ lines).2]
    exact ih.cached ((scrollDown_cache _ lines).1 cached).1
  | followTail _ ih =>
    obtain ⟨lines, stored⟩ := ih.stored
    exact ⟨⟨lines, stored.of_lineFields (followTail_lineFields _)⟩, by simp [DisplayModel.followTail]⟩

end Reachable

section ScrollUp

variable {Mem : Type} {mem : AbstractMem Mem DisplayLine} {contents : Mem → List DisplayLine}
variable {model : Model Mem} {lines : List DisplayLine}

theorem effectiveViewport_ne_zero (model : Model Mem) (fallback : Nat) :
    effectiveViewport model fallback ≠ 0 := by
  unfold effectiveViewport
  dsimp only
  split_ifs <;> omega

theorem effectiveViewport_of_known (known : model.lastViewportHeight ≠ 0) (fallback : Nat) :
    effectiveViewport model fallback = model.lastViewportHeight := by
  unfold effectiveViewport
  rw [if_pos (pos_of_ne_zero known), if_neg known]

theorem scrollUp_eq (lawful : mem.Lawful contents) (stored : Stored contents model lines)
    (nonEmpty : model.lineCount ≠ 0) {count : Nat} (moves : count ≠ 0)
    (inside : scrollOrigin mem model count - count < model.lineCount) :
    ∃ line, lines[scrollOrigin mem model count - count]? = some line ∧
      scrollUp mem model count = anchorAt model line := by
  obtain ⟨line, present, read⟩ := stored.read_line lawful inside
  refine ⟨line, present, ?_⟩
  rw [scrollUp, if_neg (by simp [nonEmpty, moves]), read]

def TopInReach (mem : AbstractMem Mem DisplayLine) (model : Model Mem) (count : Nat) : Prop :=
  match model.view.mode with
  | .followTail => model.hasLastVisibleFrame →
      model.lastVisibleStart ≤ maxTop model.lineCount model.lastViewportHeight + count
  | .manualScroll => model.lastViewportHeight ≠ 0 → ∀ index,
      resolveAnchor mem model model.view.anchor = some index →
      index ≤ maxTop model.lineCount model.lastViewportHeight + count

/-- A scroll that starts in reach lands on a stored line, not below the visible top. -/
theorem scrollOrigin_bounds (lawful : mem.Lawful contents) (sound : Sound contents model)
    (nonEmpty : model.lineCount ≠ 0) {count : Nat} (inReach : TopInReach mem model count) :
    scrollOrigin mem model count - count < model.lineCount ∧
      (model.lastViewportHeight ≠ 0 →
        scrollOrigin mem model count - count ≤ visibleTop mem model model.lastViewportHeight) := by
  obtain ⟨lines, stored⟩ := sound.stored
  have viewportPositive : min (effectiveViewport model count) model.lineCount ≠ 0 := by
    have effective := effectiveViewport_ne_zero model count
    omega
  have page := maxTop_lt nonEmpty viewportPositive
  have knownPage (known : model.lastViewportHeight ≠ 0) :
      maxTop model.lineCount (min (effectiveViewport model count) model.lineCount) =
        maxTop model.lineCount model.lastViewportHeight := by
    rw [maxTop_min, effectiveViewport_of_known known]
  cases mode : model.view.mode with
  | followTail =>
    simp only [TopInReach, scrollOrigin, visibleTop, mode] at inReach ⊢
    cases cache : model.hasLastVisibleFrame with
    | true =>
      have last := maxTop_lt nonEmpty (sound.cached cache)
      have start := inReach cache
      rw [if_pos rfl]
      exact ⟨by omega, fun _ => by omega⟩
    | false =>
      rw [if_neg (by simp)]
      refine ⟨by omega, fun known => ?_⟩
      omega
  | manualScroll =>
    obtain ⟨resolved, inside⟩ := stored.resolve lawful nonEmpty model.view.anchor
    simp only [TopInReach, scrollOrigin, visibleTop, manualTop, mode, resolved, Option.getD_some]
      at inReach ⊢
    refine ⟨by omega, fun known => ?_⟩
    have start := inReach known _ rfl
    split <;> omega

end ScrollUp

/-- A scroll that starts in reach leaves a manual view whose anchor names a stored line, not below the
top line that was visible. -/
theorem scrollUp_anchor_valid {Mem : Type} {mem : AbstractMem Mem DisplayLine}
    {contents : Mem → List DisplayLine} (lawful : mem.Lawful contents) {model : Model Mem}
    (reachable : Reachable mem model) (nonEmpty : model.lineCount ≠ 0) {count : Nat} (moves : count ≠ 0)
    (inReach : TopInReach mem model count) :
    (scrollUp mem model count).view.mode = .manualScroll ∧
    (∃ lines line, storedLines mem model = some lines ∧ line ∈ lines ∧
      (scrollUp mem model count).view.anchor = ⟨line.messageId, line.sublineIndex⟩) ∧
    (∃ index, resolveAnchor mem (scrollUp mem model count) (scrollUp mem model count).view.anchor =
        some index ∧ (model.lastViewportHeight ≠ 0 →
          index ≤ (computeVisible mem model model.lastViewportHeight).1.firstGlobalIndex)) := by
  have sound := reachable.sound lawful
  obtain ⟨lines, stored⟩ := sound.stored
  obtain ⟨inside, top⟩ := scrollOrigin_bounds lawful sound nonEmpty inReach
  obtain ⟨line, present, moved⟩ := scrollUp_eq lawful stored nonEmpty moves inside
  rw [moved]
  refine ⟨rfl, ⟨lines, line, stored.read lawful, mem_of_getElem? present, rfl⟩, ?_⟩
  have stored' : Stored contents (anchorAt model line) lines := stored.of_lineFields rfl
  refine ⟨_, (stored'.resolve lawful nonEmpty _).1, fun known => ?_⟩
  obtain ⟨atTail, frame⟩ := computeVisible_eq lawful stored nonEmpty known
  rw [frame]
  exact (resolveIn_le present (names_self line)).trans (top known)

def laidOutModel : Model (List DisplayLine) :=
  (recomputeLayout (.list DisplayLine) ((init (.list DisplayLine) 4).get rfl)
    [(1, some (str "a")), (2, some (str "b")), (3, some (str "c"))] 80).2

def shownModel : Model (List DisplayLine) := (computeVisible (.list DisplayLine) laidOutModel 1).2

def shrunkModel : Model (List DisplayLine) :=
  (recomputeLayout (.list DisplayLine) shownModel [(1, some (str "a"))] 80).2

theorem shownModel_reachable : Reachable (.list DisplayLine) shownModel :=
  .computeVisible 1 (.recompute _ 80 (.init (Option.some_get _).symm))

/-- The scroll of the shown model starts in reach. -/
theorem scrollUp_anchor_valid_shown :
    (scrollUp (.list DisplayLine) shownModel 1).view.mode = .manualScroll := by
  have following : shownModel.view.mode = .followTail := by decide +kernel
  have inReach : TopInReach (.list DisplayLine) shownModel 1 := by
    simp only [TopInReach, following]
    intro _
    decide +kernel
  exact (scrollUp_anchor_valid (AbstractMem.list_lawful DisplayLine) shownModel_reachable
    (by decide +kernel) Nat.one_ne_zero inReach).1

/-- After a layout that drops lines, the scroll anchors the view at a line that is no longer stored. -/
theorem scrollUp_anchor_stale :
    ¬ ∀ (model : Model (List DisplayLine)) (count : Nat), Reachable (.list DisplayLine) model →
      model.lineCount ≠ 0 → count ≠ 0 →
      ∃ lines line, storedLines (.list DisplayLine) model = some lines ∧ line ∈ lines ∧
        (scrollUp (.list DisplayLine) model count).view.anchor = ⟨line.messageId, line.sublineIndex⟩ := by
  intro claim
  obtain ⟨lines, line, read, member, anchored⟩ := claim shrunkModel 1
    (.recompute _ 80 shownModel_reachable) (by decide +kernel) Nat.one_ne_zero
  have stale : ∀ line ∈ (storedLines (.list DisplayLine) shrunkModel).getD [],
      (scrollUp (.list DisplayLine) shrunkModel 1).view.anchor ≠ ⟨line.messageId, line.sublineIndex⟩ := by
    decide +kernel
  rw [read] at stale
  exact stale line member anchored

end SshChatter.DisplayModel
