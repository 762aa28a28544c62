import SshChatter.Display.Model

namespace SshChatter.DisplayModel
open CString List

section Frame

variable {Mem : Type} (mem : AbstractMem Mem DisplayLine)

def viewFields (model : Model Mem) : ViewState × Nat × Nat × Bool :=
  (model.view, model.lastVisibleStart, model.lastViewportHeight, model.hasLastVisibleFrame)

def lineFields (model : Model Mem) : Mem × Nat × Nat :=
  (model.lineStorage, model.lineCount, model.lineCapacity)

theorem ensureCapacity_viewFields (model : Model Mem) (needed : Nat) :
    viewFields (ensureCapacity mem model needed).2 = viewFields model := by
  unfold ensureCapacity
  repeat' split
  all_goals rfl

theorem storeWrapped_viewFields (model : Model Mem) (wrapped : List DisplayLine) :
    viewFields (storeWrapped mem model wrapped).2 = viewFields model := by
  have grown := ensureCapacity_viewFields mem model (model.lineCount + wrapped.length)
  unfold storeWrapped
  dsimp only
  split
  · exact grown
  · split
    · exact grown
    · exact grown

theorem layoutLoop_viewFields (width : UInt32) (model : Model Mem) (log : List Message) :
    viewFields (layoutLoop mem width model log).2 = viewFields model := by
  induction log generalizing model with
  | nil => rfl
  | cons message log ih =>
    have stored := storeWrapped_viewFields mem model
      (wrapLine message.2 width message.1 wrapCapacity)
    rw [layoutLoop]
    split
    · exact stored
    · rw [ih, stored]

theorem recomputeLayout_viewFields (model : Model Mem) (log : List Message) (width : UInt32) :
    viewFields (recomputeLayout mem model log width).2 = viewFields model := by
  have laidOut := layoutLoop_viewFields mem width
    { model with lineCount := 0, layoutWidth := width } log
  unfold recomputeLayout
  dsimp only
  split
  · rfl
  · split
    · exact laidOut
    · exact laidOut

theorem appendMessage_viewFields (model : Model Mem) (messageId : UInt64) (text : Option Bytes)
    (width : UInt32) : viewFields (appendMessage mem model messageId text width).2 = viewFields model := by
  have stored := storeWrapped_viewFields mem model (wrapLine text width messageId wrapCapacity)
  unfold appendMessage
  dsimp only
  split
  · rfl
  · split
    · exact stored
    · exact stored

@[simp] theorem followTail_lineFields (model : Model Mem) :
    lineFields (followTail model) = lineFields model := rfl

@[simp] theorem computeVisible_lineFields (model : Model Mem) (vp : Nat) :
    lineFields (computeVisible mem model vp).2 = lineFields model := by
  unfold computeVisible
  dsimp only
  split
  · rfl
  · split <;> rfl

@[simp] theorem scrollUp_lineFields (model : Model Mem) (lines : Nat) :
    lineFields (scrollUp mem model lines) = lineFields model := by
  unfold scrollUp
  split
  · rfl
  · split <;> rfl

@[simp] theorem scrollDown_lineFields (model : Model Mem) (lines : Nat) :
    lineFields (scrollDown mem model lines) = lineFields model := by
  unfold scrollDown
  dsimp only
  repeat' split
  all_goals rfl

end Frame

/-- The lines of a log are the wrapped lines of its messages in order. -/
def wrappedLog (width : UInt32) (log : List Message) : List DisplayLine :=
  log.flatMap fun message => wrapLine message.2 width message.1 wrapCapacity

section Store

variable {Mem : Type} {mem : AbstractMem Mem DisplayLine} {contents : Mem → List DisplayLine}

structure Stored (contents : Mem → List DisplayLine) (model : Model Mem) (lines : List DisplayLine) :
    Prop where
  capacity : (contents model.lineStorage).length = model.lineCapacity
  inside : model.lineCount ≤ model.lineCapacity
  window : (contents model.lineStorage).take model.lineCount = lines

variable {lines : List DisplayLine} {model : Model Mem}

theorem Stored.of_lineFields {model model' : Model Mem} (stored : Stored contents model lines)
    (same : lineFields model' = lineFields model) :
    Stored contents model' lines := by
  obtain ⟨storageEq, rest⟩ := Prod.mk.inj same
  obtain ⟨countEq, capacityEq⟩ := Prod.mk.inj rest
  exact ⟨by rw [storageEq, capacityEq]; exact stored.capacity,
    by rw [countEq, capacityEq]; exact stored.inside,
    by rw [storageEq, countEq]; exact stored.window⟩

theorem Stored.length_eq (stored : Stored contents model lines) : lines.length = model.lineCount := by
  rw [← stored.window, length_take_of_le]
  rw [stored.capacity]
  exact stored.inside

theorem Stored.read (lawful : mem.Lawful contents) (stored : Stored contents model lines) :
    mem.mapRead model.lineStorage 0 model.lineCount = some lines := by
  rw [lawful.read_window (by rw [stored.capacity]; exact stored.inside), stored.window]

theorem growCapacity_bounds (needed newCap : Nat) (positive : 0 < newCap) (capacity : Nat)
    (grown : growCapacity needed newCap positive = some capacity) :
    needed ≤ capacity ∧ newCap ≤ capacity := by
  fun_induction growCapacity needed newCap positive with
  | case1 newCap positive enough =>
    cases grown
    exact ⟨enough, le_refl _⟩
  | case2 => cases grown
  | case3 newCap positive short small ih =>
    have bounds := ih grown
    omega

theorem grownCapacity_bounds {lineCapacity needed capacity : Nat}
    (grown : grownCapacity lineCapacity needed = some capacity) :
    needed ≤ capacity ∧ lineCapacity ≤ capacity := by
  unfold grownCapacity at grown
  split at grown
  · have bounds := growCapacity_bounds _ _ _ _ grown
    omega
  · exact growCapacity_bounds _ _ _ _ grown

theorem ensureCapacity_stored (lawful : mem.Lawful contents) (stored : Stored contents model lines) (needed : Nat) :
    Stored contents (ensureCapacity mem model needed).2 lines ∧
      (ensureCapacity mem model needed).2.lineCount = model.lineCount ∧
      ((ensureCapacity mem model needed).1 →
        needed ≤ (ensureCapacity mem model needed).2.lineCapacity) := by
  unfold ensureCapacity
  split
  next enough => exact ⟨stored, rfl, fun _ => enough⟩
  next =>
    split
    next => exact ⟨stored, rfl, by simp⟩
    next newCap grown =>
      have bounds := grownCapacity_bounds grown
      have insideStore : model.lineCount ≤ (contents model.lineStorage).length := by
        rw [stored.capacity]
        exact stored.inside
      obtain ⟨storage, resized, length, kept⟩ := lawful.resize_take
        (show (contents model.lineStorage).length ≤ newCap by rw [stored.capacity]; exact bounds.2)
        insideStore
      rw [resized]
      refine ⟨⟨length, stored.inside.trans bounds.2, ?_⟩, rfl, fun _ => bounds.1⟩
      rw [kept, stored.window]

/-- The doubling overflows only for a capacity above the greatest power of two of the word. -/
theorem growCapacity_some {needed : Nat} (small : needed ≤ 2 ^ 63) (newCap : Nat) (positive : 0 < newCap) :
    ∃ capacity, growCapacity needed newCap positive = some capacity := by
  fun_induction growCapacity needed newCap positive with
  | case1 newCap => exact ⟨newCap, rfl⟩
  | case2 => omega
  | case3 newCap positive short small ih => exact ih

theorem ensureCapacity_succeeds (lawful : mem.Lawful contents) (stored : Stored contents model lines)
    {needed : Nat} (small : needed ≤ 2 ^ 63) : (ensureCapacity mem model needed).1 := by
  unfold ensureCapacity
  split
  next => rfl
  next =>
    obtain ⟨newCap, grown⟩ : ∃ newCap, grownCapacity model.lineCapacity needed = some newCap := by
      unfold grownCapacity
      split
      · exact growCapacity_some small _ _
      · exact growCapacity_some small _ _
    have room : (contents model.lineStorage).length ≤ newCap := by
      rw [stored.capacity]
      exact (grownCapacity_bounds grown).2
    obtain ⟨storage, resized, -⟩ := lawful.resize _ _ room
    rw [grown]
    dsimp only
    rw [resized]

/-- A successful copy appends the wrapped lines. A failed one keeps the stored lines. -/
theorem storeWrapped_stored (lawful : mem.Lawful contents) (stored : Stored contents model lines)
    (wrapped : List DisplayLine) :
    Stored contents (storeWrapped mem model wrapped).2
      (if (storeWrapped mem model wrapped).1 then lines ++ wrapped else lines) := by
  obtain ⟨kept, countEq, enough⟩ :=
    ensureCapacity_stored lawful stored (model.lineCount + wrapped.length)
  unfold storeWrapped
  dsimp only
  split
  next failed =>
    rw [failed]
    exact kept
  next succeeded =>
    have room := enough (by simpa using succeeded)
    have insideStore : model.lineCount + wrapped.length ≤
        (contents (ensureCapacity mem model (model.lineCount + wrapped.length)).2.lineStorage).length := by
      rw [kept.capacity]
      exact room
    obtain ⟨storage, written, length, extended⟩ := lawful.write_take insideStore
    rw [written]
    refine ⟨?_, room, ?_⟩
    · dsimp only
      rw [length, kept.capacity]
    · have window := kept.window
      rw [countEq] at window
      rw [extended, if_pos rfl, window]

theorem storeWrapped_succeeds (lawful : mem.Lawful contents) (stored : Stored contents model lines)
    {wrapped : List DisplayLine} (small : (lines ++ wrapped).length ≤ 2 ^ 63) :
    (storeWrapped mem model wrapped).1 := by
  rw [length_append, stored.length_eq] at small
  have succeeded := ensureCapacity_succeeds lawful stored small
  obtain ⟨kept, -, enough⟩ := ensureCapacity_stored lawful stored (model.lineCount + wrapped.length)
  obtain ⟨storage, written, -⟩ := lawful.write _ model.lineCount wrapped
    (by rw [kept.capacity]; exact enough succeeded)
  rw [storeWrapped, if_neg (by simp [succeeded]), written]

theorem layoutLoop_stored (lawful : mem.Lawful contents) (width : UInt32) (log : List Message) :
    ∀ (model : Model Mem) (lines : List DisplayLine), Stored contents model lines →
      ∃ lines', Stored contents (layoutLoop mem width model log).2 lines' ∧
        ((layoutLoop mem width model log).1 →
          lines' = lines ++ log.flatMap fun message => wrapLine message.2 width message.1 wrapCapacity) := by
  induction log with
  | nil =>
    intro model lines stored
    exact ⟨lines, stored, by simp⟩
  | cons message log ih =>
    intro model lines stored
    have step := storeWrapped_stored lawful stored (wrapLine message.2 width message.1 wrapCapacity)
    rw [layoutLoop]
    split
    next failed =>
      rw [failed] at step
      exact ⟨lines, step, by simp [failed]⟩
    next succeeded =>
      have done : (storeWrapped mem model (wrapLine message.2 width message.1 wrapCapacity)).1 := by
        simpa using succeeded
      rw [if_pos done] at step
      obtain ⟨lines', stored', exact'⟩ := ih _ _ step
      refine ⟨lines', stored', fun finished => ?_⟩
      rw [exact' finished, flatMap_cons, append_assoc]

theorem layoutLoop_succeeds (lawful : mem.Lawful contents) (width : UInt32) {log : List Message}
    (stored : Stored contents model lines)
    (small : (lines ++ wrappedLog width log).length ≤ 2 ^ 63) : (layoutLoop mem width model log).1 := by
  induction log generalizing model lines with
  | nil => rfl
  | cons message log ih =>
    rw [wrappedLog, flatMap_cons, ← append_assoc] at small
    have first : (lines ++ wrapLine message.2 width message.1 wrapCapacity).length ≤ 2 ^ 63 := by
      rw [length_append] at small
      exact (Nat.le_add_right _ _).trans small
    have succeeded := storeWrapped_succeeds lawful stored first
    have step := storeWrapped_stored lawful stored (wrapLine message.2 width message.1 wrapCapacity)
    rw [if_pos succeeded] at step
    rw [layoutLoop, if_neg (by simp [succeeded])]
    exact ih step small

theorem recomputeLayout_stored (lawful : mem.Lawful contents) (stored : Stored contents model lines)
    (log : List Message) (width : UInt32) :
    ∃ lines', Stored contents (recomputeLayout mem model log width).2 lines' ∧
      ((recomputeLayout mem model log width).1 → width ≠ 0 →
        lines' = log.flatMap fun message => wrapLine message.2 width message.1 wrapCapacity) := by
  have cleared : Stored contents { model with lineCount := 0, layoutWidth := width } [] :=
    ⟨stored.capacity, Nat.zero_le _, take_zero⟩
  unfold recomputeLayout
  dsimp only
  split
  next trivialLog =>
    refine ⟨[], ⟨cleared.capacity, cleared.inside, cleared.window⟩, fun _ positive => ?_⟩
    have noLog : log = [] := by
      rcases trivialLog with noLog | noWidth
      · exact noLog
      · exact absurd noWidth positive
    rw [noLog, flatMap_nil]
  next =>
    obtain ⟨lines', stored', exact'⟩ := layoutLoop_stored lawful width log _ _ cleared
    split
    next failed => exact ⟨lines', stored', by simp [failed]⟩
    next succeeded =>
      refine ⟨lines', ⟨stored'.capacity, stored'.inside, stored'.window⟩, fun _ _ => ?_⟩
      rw [exact' (by simpa using succeeded), nil_append]

theorem appendMessage_stored (lawful : mem.Lawful contents) (stored : Stored contents model lines)
    (messageId : UInt64) (text : Option Bytes) (width : UInt32) :
    Stored contents (appendMessage mem model messageId text width).2
      (if (appendMessage mem model messageId text width).1 then
        lines ++ wrapLine text width messageId wrapCapacity else lines) := by
  have step := storeWrapped_stored lawful stored (wrapLine text width messageId wrapCapacity)
  unfold appendMessage
  dsimp only
  split
  next => simpa using stored
  next =>
    split
    next failed =>
      exact step
    next succeeded =>
      rw [if_pos (by simpa using succeeded)] at step
      exact ⟨step.capacity, step.inside, step.window⟩

theorem recomputeLayout_succeeds (lawful : mem.Lawful contents) (stored : Stored contents model lines)
    {log : List Message} {width : UInt32} (small : (wrappedLog width log).length ≤ 2 ^ 63) :
    (recomputeLayout mem model log width).1 := by
  have cleared : Stored contents { model with lineCount := 0, layoutWidth := width } [] :=
    ⟨stored.capacity, Nat.zero_le _, take_zero⟩
  have laidOut := layoutLoop_succeeds lawful width cleared small
  unfold recomputeLayout
  split
  · rfl
  · rw [if_neg (by simp [laidOut])]

theorem appendMessage_succeeds (lawful : mem.Lawful contents) (stored : Stored contents model lines)
    {messageId : UInt64} {text : Bytes} {width : UInt32} (positive : width ≠ 0)
    (small : (lines ++ wrapLine (some text) width messageId wrapCapacity).length ≤ 2 ^ 63) :
    (appendMessage mem model messageId (some text) width).1 := by
  have succeeded := storeWrapped_succeeds lawful stored small
  unfold appendMessage
  rw [if_neg (by simp [positive]), if_neg (by simp [succeeded])]

theorem init_stored (lawful : mem.Lawful contents) {initialCapacity : Nat}
    (started : init mem initialCapacity = some model) : Stored contents model [] := by
  obtain ⟨storage, allocated, length⟩ :=
    lawful.alloc (if initialCapacity = 0 then 64 else initialCapacity)
  simp only [init, allocated, Option.map_some, Option.some.injEq] at started
  rw [← started]
  exact ⟨length, Nat.zero_le _, take_zero⟩

end Store

section Run

variable {Mem : Type} (mem : AbstractMem Mem DisplayLine)

/-- The doubling of the capacity reaches the lines of the log without an overflow. -/
def Storable (width : UInt32) (log : List Message) : Prop := (wrappedLog width log).length ≤ 2 ^ 63

instance (width : UInt32) (log : List Message) : Decidable (Storable width log) :=
  inferInstanceAs (Decidable (_ ≤ _))

/-- A run at one width lays out logs, appends messages and moves the view. It tracks the log. -/
inductive LayoutRun (width : UInt32) : List Message → Model Mem → Prop
  | init {capacity : Nat} {model : Model Mem} :
      init mem capacity = some model → LayoutRun width [] model
  | recompute {log : List Message} {model : Model Mem} (log' : List Message) :
      LayoutRun width log model → Storable width log' →
      LayoutRun width log' (recomputeLayout mem model log' width).2
  | append {log : List Message} {model : Model Mem} (messageId : UInt64) (text : Bytes) :
      LayoutRun width log model → Storable width (log ++ [(messageId, some text)]) →
      LayoutRun width (log ++ [(messageId, some text)])
        (appendMessage mem model messageId (some text) width).2
  | scrollUp {log : List Message} {model : Model Mem} (lines : Nat) :
      LayoutRun width log model → LayoutRun width log (scrollUp mem model lines)
  | scrollDown {log : List Message} {model : Model Mem} (lines : Nat) :
      LayoutRun width log model → LayoutRun width log (scrollDown mem model lines)
  | followTail {log : List Message} {model : Model Mem} :
      LayoutRun width log model → LayoutRun width log (followTail model)
  | computeVisible {log : List Message} {model : Model Mem} (vp : Nat) :
      LayoutRun width log model → LayoutRun width log (computeVisible mem model vp).2

def storedLines (model : Model Mem) : Option (List DisplayLine) :=
  mem.mapRead model.lineStorage 0 model.lineCount

theorem storedLines_of_lineFields {model model' : Model Mem}
    (same : lineFields model' = lineFields model) : storedLines mem model' = storedLines mem model := by
  obtain ⟨storageEq, rest⟩ := Prod.mk.inj same
  obtain ⟨countEq, -⟩ := Prod.mk.inj rest
  rw [storedLines, storedLines, storageEq, countEq]

theorem wrappedLog_append (width : UInt32) (log : List Message) (messageId : UInt64) (text : Option Bytes) :
    wrappedLog width (log ++ [(messageId, text)]) =
      wrappedLog width log ++ wrapLine text width messageId wrapCapacity := by
  rw [wrappedLog, wrappedLog, flatMap_append, flatMap_singleton]

theorem LayoutRun.stored {contents : Mem → List DisplayLine} (lawful : mem.Lawful contents)
    {width : UInt32} (positive : width ≠ 0) {log : List Message} {model : Model Mem}
    (run : LayoutRun mem width log model) : Stored contents model (wrappedLog width log) := by
  induction run with
  | init started => exact init_stored lawful started
  | recompute log' _ storable ih =>
    obtain ⟨lines', stored', exact'⟩ := recomputeLayout_stored lawful ih log' width
    rw [wrappedLog, ← exact' (recomputeLayout_succeeds lawful ih storable) positive]
    exact stored'
  | @append log model messageId text _ storable ih =>
    rw [Storable, wrappedLog_append] at storable
    have stored' := appendMessage_stored lawful ih messageId (some text) width
    rw [if_pos (appendMessage_succeeds lawful ih positive storable)] at stored'
    rw [wrappedLog_append]
    exact stored'
  | scrollUp lines _ ih => exact ih.of_lineFields (scrollUp_lineFields mem _ lines)
  | scrollDown lines _ ih => exact ih.of_lineFields (scrollDown_lineFields mem _ lines)
  | followTail _ ih => exact ih.of_lineFields (followTail_lineFields _)
  | computeVisible vp _ ih => exact ih.of_lineFields (computeVisible_lineFields mem _ vp)

/-- Both layout calls succeed, the stored lines are the wrapped log on either path, and no view operation
changes them. -/
theorem layout_lines_exact {contents : Mem → List DisplayLine} (lawful : mem.Lawful contents)
    {width : UInt32} (positive : width ≠ 0) {log : List Message} {model : Model Mem}
    (run : LayoutRun mem width log model) :
    storedLines mem model = some (wrappedLog width log) ∧
    (∀ other, LayoutRun mem width log other → storedLines mem other = storedLines mem model) ∧
    (∀ log', Storable width log' → (recomputeLayout mem model log' width).1) ∧
    (∀ messageId text, Storable width (log ++ [(messageId, some text)]) →
      (appendMessage mem model messageId (some text) width).1) ∧
    (∀ lines, storedLines mem (scrollUp mem model lines) = storedLines mem model) ∧
    (∀ lines, storedLines mem (scrollDown mem model lines) = storedLines mem model) ∧
    storedLines mem (followTail model) = storedLines mem model ∧
    (∀ vp, storedLines mem (computeVisible mem model vp).2 = storedLines mem model) := by
  have held := run.stored mem lawful positive
  have stored := held.read lawful
  refine ⟨stored, ?_, ?_, ?_, ?_, ?_, ?_, ?_⟩
  · intro other otherRun
    have otherStored := (otherRun.stored mem lawful positive).read lawful
    rw [storedLines, storedLines, otherStored, stored]
  · intro log' storable
    exact recomputeLayout_succeeds lawful held storable
  · intro messageId text storable
    rw [Storable, wrappedLog_append] at storable
    exact appendMessage_succeeds lawful held positive storable
  · intro lines
    exact storedLines_of_lineFields mem (scrollUp_lineFields mem model lines)
  · intro lines
    exact storedLines_of_lineFields mem (scrollDown_lineFields mem model lines)
  · exact storedLines_of_lineFields mem (followTail_lineFields model)
  · intro vp
    exact storedLines_of_lineFields mem (computeVisible_lineFields mem model vp)

/-- A layout, a scroll and an append that wraps give a run of the list store with three lines. -/
theorem layout_lines_exact_one_append :
    ∃ model, LayoutRun (.list DisplayLine) 2 [(6, some (str "a")), (7, some (str "abc"))] model ∧
      storedLines (.list DisplayLine) model =
        some (wrappedLog 2 [(6, some (str "a")), (7, some (str "abc"))]) ∧
      (wrappedLog 2 [(6, some (str "a")), (7, some (str "abc"))]).length = 3 := by
  have started : init (.list DisplayLine) 1 = some _ := rfl
  have run : LayoutRun (.list DisplayLine) 2 [(6, some (str "a")), (7, some (str "abc"))] _ :=
    .append 7 (str "abc") (.scrollUp 1 (.recompute [(6, some (str "a"))] (.init started) (by decide +kernel)))
      (by decide +kernel)
  exact ⟨_, run, (layout_lines_exact _ (AbstractMem.list_lawful DisplayLine) (by decide) run).1,
    by decide +kernel⟩

end Run

end SshChatter.DisplayModel
