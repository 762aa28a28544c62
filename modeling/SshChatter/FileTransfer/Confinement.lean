import SshChatter.FileTransfer.ResolvePath

namespace SshChatter.FileTransfer
open CString List

def components (path : Bytes) : List Bytes := Segments.segments slash path

def named (path : Bytes) : List Bytes := (components path).filter (· ≠ str ".")

/-- The code refuses a component that is too long or leads upwards. -/
def Proper (component : Bytes) : Prop := component.length ≤ nameMax ∧ component ≠ str ".."

section Loops

variable {cursor : Bytes} {parts : List Bytes}

/-- The inner loop reads up to the next slash and never leaves its buffer. -/
theorem readComponent_eq (component cursor : Bytes) (room : component.length ≤ nameMax) :
    readComponent component cursor =
      if component.length + (cursor.takeWhile (· ≠ slash)).length ≤ nameMax then
        .ok (component ++ cursor.takeWhile (· ≠ slash), cursor.dropWhile (· ≠ slash))
      else .error .refused := by
  induction cursor generalizing component with
  | nil =>
    rw [readComponent, terminate, if_pos (by omega), if_pos (by simpa using room)]
    simp [Except.map]
  | cons c cursor ih =>
    by_cases ends : c = slash
    · rw [readComponent, terminate]
      simp [ends, room, Except.map]
    · rw [readComponent, if_neg ends, takeWhile_cons_of_pos (by simpa using ends),
        dropWhile_cons_of_pos (by simpa using ends), length_cons]
      by_cases full : nameMax + 1 ≤ component.length + 1
      · rw [if_pos full, if_neg (by omega)]
      · have next := ih (component ++ [c]) (by rw [length_append, length_singleton]; omega)
        rw [length_append, length_singleton, append_assoc, add_assoc,
          add_comm 1] at next
        rw [if_neg full, putByte, if_pos (by omega)]
        exact next

theorem appendComponent_eq (present : ∀ part ∈ parts, part ≠ []) (component : Bytes)
    (room : (Segments.join slash parts).length + component.length + 2 < pathMax) :
    appendComponent (Segments.join slash parts) component = .ok (Segments.join slash (parts ++ [component])) := by
  cases parts with
  | nil =>
    have short : component.length < pathMax := by omega
    simp [appendComponent, putBytes, terminate, bind, Except.bind, Segments.join, short, short.le]
  | cons first rest =>
    have some : 0 < (Segments.join slash (first :: rest)).length := by
      have nonEmpty := length_pos_iff.mpr (present first mem_cons_self)
      rw [Segments.join, length_append]
      omega
    rw [Segments.join_concat (cons_ne_nil _ _)]
    simp only [appendComponent, some, if_true, putByte, putBytes, terminate, bind, Except.bind]
    rw [if_pos (by omega)]
    simp only [length_append, length_singleton]
    rw [if_pos (by omega)]
    simp only [length_append, length_singleton]
    rw [if_pos (by omega), append_assoc, singleton_append]

instance (component : Bytes) : Decidable (Proper component) := inferInstanceAs (Decidable (_ ∧ _))

theorem components_start (cursor : Bytes) : components (cursor.dropWhile (· = slash)) = components cursor :=
  Segments.segments_dropWhile

theorem components_step (present : cursor.dropWhile (· = slash) ≠ []) :
    components cursor = (cursor.dropWhile (· = slash)).takeWhile (· ≠ slash) ::
      components ((cursor.dropWhile (· = slash)).dropWhile (· ≠ slash)) := by
  rw [← components_start]
  apply Segments.segments_step present
  intro c front
  have stops := head?_dropWhile_not (· = slash) cursor
  rw [front] at stops
  simpa using stops

theorem rest_shorter (component : (cursor.dropWhile (· = slash)).takeWhile (· ≠ slash) ≠ []) :
    ((cursor.dropWhile (· = slash)).dropWhile (· ≠ slash)).length < cursor.length := by
  have start := (dropWhile_suffix (· = slash) (l := cursor)).length_le
  have cut := congrArg length
    (takeWhile_append_dropWhile (p := (· ≠ slash)) (l := cursor.dropWhile (· = slash)))
  have positive := length_pos_iff.mpr component
  rw [length_append] at cut
  omega

/-- What the outer loop makes of the components that follow some parts. -/
def outcome (parts following : List Bytes) : Except Fault Bytes :=
  if (∀ component ∈ following, Proper component) ∧
      (Segments.join slash (parts ++ following.filter (· ≠ str "."))).length + 1 < pathMax then
    .ok (Segments.join slash (parts ++ following.filter (· ≠ str ".")))
  else .error .refused

section Outcome

variable {component : Bytes} {following : List Bytes}

theorem outcome_nil (room : (Segments.join slash parts).length + 1 < pathMax) :
    outcome parts [] = .ok (Segments.join slash parts) := by
  simp only [outcome, filter_nil, append_nil, room, and_true]
  rw [if_pos (forall_mem_nil _)]

theorem outcome_dot : outcome parts (str "." :: following) = outcome parts following := by
  have proper : Proper (str ".") := by decide
  simp only [outcome, forall_mem_cons, proper, true_and, filter_cons_of_neg, ne_eq, not_true_eq_false,
    decide_false, Bool.false_eq_true, not_false_eq_true]

theorem outcome_improper (improper : ¬ Proper component) :
    outcome parts (component :: following) = .error .refused := by
  rw [outcome, if_neg]
  intro both
  exact improper (both.1 component mem_cons_self)

/-- The joined text is at least as long as with the first of the components. -/
theorem outcome_full (dot : component ≠ str ".")
    (full : pathMax ≤ (Segments.join slash (parts ++ [component])).length + 1) :
    outcome parts (component :: following) = .error .refused := by
  rw [outcome, if_neg]
  intro both
  have longer := Segments.join_length_le slash (parts ++ [component]) (following.filter (· ≠ str "."))
  rw [filter_cons_of_pos (by simpa using dot)] at both
  rw [append_assoc] at longer
  exact Nat.not_lt_of_le (full.trans (Nat.add_le_add_right longer 1)) both.2

theorem outcome_named (proper : Proper component) (dot : component ≠ str ".") :
    outcome parts (component :: following) = outcome (parts ++ [component]) following := by
  have kept : (component :: following).filter (· ≠ str ".") = component :: following.filter (· ≠ str ".") :=
    filter_cons_of_pos (by simpa using dot)
  simp only [outcome, forall_mem_cons, proper, true_and, kept, append_assoc, singleton_append]

end Outcome

/-- The outer loop joins the named components, or it refuses the path. -/
theorem sanitize_eq (fuel : Nat) (parts : List Bytes) (cursor : Bytes) (enough : cursor.length ≤ fuel)
    (present : ∀ part ∈ parts, part ≠ []) (room : (Segments.join slash parts).length + 1 < pathMax) :
    sanitize fuel (Segments.join slash parts) cursor = outcome parts (components cursor) := by
  induction fuel generalizing parts cursor with
  | zero =>
    obtain rfl := length_eq_zero_iff.mp (Nat.le_zero.mp enough)
    exact (outcome_nil room).symm
  | succ fuel ih =>
    rw [sanitize]
    by_cases empty : cursor = []
    · rw [empty]
      exact (outcome_nil room).symm
    by_cases bare : cursor.dropWhile (· = slash) = []
    · rw [if_neg empty, ← components_start, bare]
      exact (outcome_nil room).symm
    have split := components_step bare
    have valid := Segments.mem_segments (split ▸ mem_cons_self)
    have shorter := rest_shorter valid.1
    have read := readComponent_eq [] (cursor.dropWhile (· = slash)) (Nat.zero_le _)
    rw [if_neg empty, if_neg bare, read, split]
    generalize (cursor.dropWhile (· = slash)).takeWhile (· ≠ slash) = component at valid ⊢
    generalize (cursor.dropWhile (· = slash)).dropWhile (· ≠ slash) = rest at shorter ⊢
    rw [length_nil, zero_add, nil_append]
    by_cases long : component.length ≤ nameMax
    · rw [if_pos long]
      have limits : nameMax + 2 < pathMax := by decide
      by_cases dot : component = str "."
      · rw [dot, outcome_dot]
        exact ih parts rest (by omega) present room
      have counted : ¬ (component = [] ∨ component = str ".") := by simp [valid.1, dot]
      by_cases up : component = str ".."
      · rw [outcome_improper fun proper => proper.2 up]
        simp only [if_neg counted, if_pos up]
      by_cases full : pathMax ≤ (Segments.join slash parts).length + component.length + 2
      · have some : parts ≠ [] := by
          rintro rfl
          have none : (Segments.join slash ([] : List Bytes)).length = 0 := rfl
          omega
        rw [outcome_full dot (by rw [Segments.join_concat_length some]; exact full)]
        simp only [if_neg counted, if_neg up, if_pos full]
      · have appended := appendComponent_eq present component (by omega)
        rw [outcome_named ⟨long, up⟩ dot, ← ih (parts ++ [component]) rest (by omega)]
        · simp only [if_neg counted, if_neg up, if_neg full, appended]
        · intro part member
          rcases mem_append.mp member with old | new
          · exact present part old
          · rw [mem_singleton.mp new]
            exact valid.1
        · have longer := Segments.join_concat_length_le slash parts component
          omega
    · rw [outcome_improper fun proper => long proper.1, if_neg long]

end Loops

theorem rootReferenceLoop_dots (path : Bytes) (fuel : Nat) (cursor : Bytes) (saw : Bool) (enough : cursor.length ≤ fuel)
    (dots : ∀ component ∈ components cursor, component = str ".")
    (seen : saw ∨ (cursor ≠ [] ∧ ∀ c ∈ cursor, c ∈ path)) : rootReferenceLoop path fuel cursor saw := by
  induction fuel generalizing cursor saw with
  | zero =>
    obtain rfl := length_eq_zero_iff.mp (Nat.le_zero.mp enough)
    exact seen.resolve_right fun both => both.1 rfl
  | succ fuel ih =>
    rw [rootReferenceLoop]
    by_cases empty : cursor = []
    · rw [if_pos empty]
      exact seen.resolve_right fun both => both.1 empty
    by_cases bare : cursor.dropWhile (· = slash) = []
    · simp only [if_neg empty, if_pos bare, Bool.or_eq_true]
      apply seen.imp_right
      intro both
      rw [strchr_isSome]
      obtain ⟨c, rest, rfl⟩ := exists_cons_of_ne_nil empty
      have first : c = slash := by simpa using dropWhile_eq_nil_iff.mp bare c mem_cons_self
      exact first ▸ both.2 c mem_cons_self
    have split := components_step bare
    have valid := Segments.mem_segments (split ▸ mem_cons_self)
    have shorter := rest_shorter valid.1
    rw [split, forall_mem_cons] at dots
    have single : ¬ (((cursor.dropWhile (· = slash)).takeWhile (· ≠ slash)).length ≠ 1 ∨
        ((cursor.dropWhile (· = slash)).takeWhile (· ≠ slash)).head? ≠ some (byte '.')) := by
      rw [dots.1]
      decide
    simp only [if_neg empty, if_neg bare, if_neg single]
    exact ih _ true (by omega) dots.2 (.inl rfl)

theorem isRootReference_dots {path : Bytes} (present : path ≠ [])
    (dots : ∀ component ∈ components path, component = str ".") : isRootReference path :=
  rootReferenceLoop_dots path path.length path false le_rfl dots (.inr ⟨present, fun _ member => member⟩)

theorem pathBufferCopy_eq (destLen : Nat) (src : Bytes) :
    pathBufferCopy destLen src = if src.length < destLen then .ok src else .error .refused := by
  by_cases fits : src.length < destLen
  · have positive : destLen ≠ 0 := by omega
    simp only [pathBufferCopy, if_neg positive, min_eq_left fits.le, if_neg (Nat.not_le_of_lt fits),
      take_length, putBytes, length_nil, zero_add, fits.le, if_true, bind, Except.bind,
      nil_append, terminate, fits]
  · rw [if_neg fits]
    by_cases positive : destLen = 0
    · rw [pathBufferCopy, if_pos positive]
    · have taken : destLen ≤ min src.length destLen := by omega
      simp only [pathBufferCopy, if_neg positive, if_pos taken]

/-- The join of two texts that fit. -/
theorem pathBufferJoin_eq (destLen : Nat) (base suffix : Bytes) :
    pathBufferJoin destLen base suffix =
      if (base ++ slash :: suffix).length < destLen then .ok (base ++ slash :: suffix) else .error .refused := by
  by_cases fits : (base ++ slash :: suffix).length < destLen
  · have lengths := fits
    rw [length_append, length_cons] at lengths
    have baseShort : min base.length destLen = base.length := by omega
    have suffixShort : min suffix.length destLen = suffix.length := by omega
    have inRange : ¬ (destLen ≤ base.length ∨ destLen ≤ suffix.length) := by omega
    have needed : ¬ destLen < base.length + 1 + suffix.length + 1 := by omega
    have positive : destLen ≠ 0 := by omega
    have baseRoom : base.length ≤ destLen := by omega
    have slashRoom : base.length < destLen := by omega
    have suffixRoom : base.length + 1 + suffix.length ≤ destLen := by omega
    have joined : base ++ [slash] ++ suffix = base ++ slash :: suffix := by simp
    rw [if_pos fits]
    simp only [pathBufferJoin, if_neg positive, baseShort, suffixShort, if_neg inRange, if_neg needed,
      take_length, putBytes, putByte, length_nil, zero_add, nil_append, length_append,
      length_singleton, baseRoom, slashRoom, suffixRoom, if_true, bind, Except.bind]
    rw [joined, terminate, if_pos fits]
  · have lengths := fits
    rw [length_append, length_cons] at lengths
    rw [if_neg fits]
    by_cases positive : destLen = 0
    · rw [pathBufferJoin, if_pos positive]
    · simp only [pathBufferJoin, if_neg positive]
      by_cases inRange : destLen ≤ min base.length destLen ∨ destLen ≤ min suffix.length destLen
      · rw [if_pos inRange]
      · have needed : destLen < min base.length destLen + 1 + min suffix.length destLen + 1 := by omega
        rw [if_neg inRange, if_pos needed]

def DisplayFits (display : Option Nat) (text : Bytes) : Prop :=
  ∀ displayLen, display = some displayLen → displayLen = 0 ∨ (text.length : Int) < toInt displayLen

theorem writeDisplay_cases (display : Option Nat) (text : Bytes) :
    (DisplayFits display text ∧ ∃ shown, writeDisplay display text = .ok shown) ∨
      (¬ DisplayFits display text ∧ writeDisplay display text = .error .refused) := by
  cases display with
  | none => exact .inl ⟨fun displayLen known => (by cases known), none, rfl⟩
  | some displayLen =>
    rw [writeDisplay]
    by_cases zero : displayLen = 0
    · exact .inl ⟨fun _ known => .inl (Option.some.inj known ▸ zero), none, if_pos zero⟩
    by_cases small : toInt displayLen ≤ text.length
    · refine .inr ⟨fun fits => ?_, by rw [if_neg zero, if_pos small]⟩
      rcases fits displayLen rfl with none | fits
      · exact zero none
      · omega
    · refine .inl ⟨?_, _, by rw [if_neg zero, if_neg small]⟩
      rintro _ ⟨rfl⟩
      exact .inr (by omega)

def below (storage : FileStorage) (parts : List Bytes) : Bytes := storage.root.text ++ parts.flatMap (slash :: ·)

/-- The checks that the code makes on the cut and trimmed copy of a path. -/
structure Served (storage : FileStorage) (virtualPath : Bytes) (resolvedLen : Nat) (display : Option Nat) : Prop where
  ready : storage.ready ∧ storage.root.text ≠ []
  present : workingCopy virtualPath ≠ []
  proper : ∀ component ∈ components (workingCopy virtualPath), Proper component
  joins : (Segments.join slash (named (workingCopy virtualPath))).length + 1 < pathMax
  fits : (below storage (named (workingCopy virtualPath))).length < resolvedLen
  shows : DisplayFits display (slash :: Segments.join slash (named (workingCopy virtualPath)))

section Resolve

variable {storage : FileStorage} {virtualPath : Bytes} {resolvedLen : Nat} {display : Option Nat}

theorem placePath_cases (storage : FileStorage) (resolvedLen : Nat) (display : Option Nat) {parts : List Bytes}
    (valid : ∀ part ∈ parts, part ≠ []) {working : Bytes}
    (root : parts = [] → isRootReference working) :
    ((below storage parts).length < resolvedLen ∧ DisplayFits display (slash :: Segments.join slash parts) ∧
      ∃ shown, placePath storage resolvedLen display working (Segments.join slash parts) =
        .ok (below storage parts, shown)) ∨
    (¬ ((below storage parts).length < resolvedLen ∧ DisplayFits display (slash :: Segments.join slash parts)) ∧
      placePath storage resolvedLen display working (Segments.join slash parts) = .error .refused) := by
  have empty : (Segments.join slash parts).length = 0 ↔ parts = [] := by
    cases parts with
    | nil => exact iff_of_true rfl rfl
    | cons first =>
      have nonEmpty := length_pos_iff.mpr (valid first mem_cons_self)
      simp only [Segments.join, length_append, reduceCtorEq, iff_false]
      omega
  -- Both branches copy the same text below the root and print the same display text.
  have same : placePath storage resolvedLen display working (Segments.join slash parts) =
      (if (below storage parts).length < resolvedLen then Except.ok (below storage parts) else .error .refused) >>=
        fun resolved => writeDisplay display (slash :: Segments.join slash parts) >>= fun shown =>
          .ok (resolved, shown) := by
    by_cases none : parts = []
    · have zero : (Segments.join slash parts).length = 0 := empty.mpr none
      have text : below storage parts = storage.root.text := by simp [below, none]
      rw [placePath, root none, pathBufferCopy_eq, text, none]
      rfl
    · have some : ¬ (Segments.join slash parts).length = 0 := fun zero => none (empty.mp zero)
      have text : below storage parts = storage.root.text ++ slash :: Segments.join slash parts := by
        obtain ⟨first, rest, rfl⟩ := exists_cons_of_ne_nil none
        simp [below, Segments.join]
      rw [placePath, if_neg some, pathBufferJoin_eq, text]
  rw [same]
  split_ifs with fits
  · obtain ⟨shows, shown, written⟩ | ⟨hidden, written⟩ :=
      writeDisplay_cases display (slash :: Segments.join slash parts)
    · exact .inl ⟨fits, shows, shown, by rw [written]; rfl⟩
    · exact .inr ⟨fun both => hidden both.2, by rw [written]; rfl⟩
  · exact .inr ⟨fun both => fits both.1, rfl⟩

/-- A path is resolved below the root exactly when its copy passes the checks. No write leaves its buffer. -/
theorem resolvePath_cases (storage : FileStorage) (virtualPath : Bytes) (resolvedLen : Nat) (display : Option Nat) :
    (Served storage virtualPath resolvedLen display ∧ ∃ shown,
      resolvePath storage virtualPath resolvedLen display =
        .ok (below storage (named (workingCopy virtualPath)), shown)) ∨
    (¬ Served storage virtualPath resolvedLen display ∧
      resolvePath storage virtualPath resolvedLen display = .error .refused) := by
  rw [resolvePath]
  by_cases zero : resolvedLen = 0
  · refine .inr ⟨fun served => ?_, if_pos zero⟩
    have fits := served.fits
    omega
  by_cases unready : storage.ready = false ∨ storage.root.text = []
  · refine .inr ⟨fun served => ?_, by rw [if_neg zero, if_pos unready]⟩
    rcases unready with unready | unset
    · rw [served.ready.1] at unready
      cases unready
    · exact served.ready.2 unset
  by_cases blank : workingCopy virtualPath = []
  · exact .inr ⟨fun served => served.present blank, by rw [if_neg zero, if_neg unready, if_pos blank]⟩
  have loop := sanitize_eq (workingCopy virtualPath).length [] (workingCopy virtualPath) le_rfl
    (forall_mem_nil _) (by decide)
  simp only [if_neg zero, if_neg unready, if_neg blank]
  have start : Segments.join slash ([] : List Bytes) = [] := rfl
  rw [start] at loop
  rw [loop, outcome]
  by_cases passed : (∀ component ∈ components (workingCopy virtualPath), Proper component) ∧
      (Segments.join slash ([] ++ named (workingCopy virtualPath))).length + 1 < pathMax
  · rw [nil_append] at passed
    have valid : ∀ part ∈ named (workingCopy virtualPath), part ≠ [] := fun part member =>
      (Segments.mem_segments (mem_of_mem_filter member)).1
    have root : named (workingCopy virtualPath) = [] → isRootReference (workingCopy virtualPath) := by
      intro none
      apply isRootReference_dots blank
      intro component member
      simpa using filter_eq_nil_iff.mp none component member
    have ready : storage.ready ∧ storage.root.text ≠ [] := by
      rw [not_or, Bool.not_eq_false] at unready
      exact unready
    obtain ⟨fits, shows, shown, placed⟩ | ⟨small, placed⟩ := placePath_cases storage resolvedLen display valid root
    · refine .inl ⟨⟨ready, blank, passed.1, passed.2, fits, shows⟩, shown, ?_⟩
      rw [named] at passed placed ⊢
      rw [nil_append, if_pos passed]
      exact placed
    · refine .inr ⟨fun served => small ⟨served.fits, served.shows⟩, ?_⟩
      rw [named] at passed placed
      rw [nil_append, if_pos passed]
      exact placed
  · refine .inr ⟨fun served => passed ⟨served.proper, served.joins⟩, ?_⟩
    rw [named] at passed
    rw [if_neg passed]
    rfl

end Resolve

/-- A resolved path is the root or lies below it along the named components of the trimmed virtual path. -/
structure Confined (storage : FileStorage) (virtualPath : Bytes) (resolvedLen : Nat) (display : Option Nat) : Prop where
  inBounds : resolvePath storage virtualPath resolvedLen display ≠ .error .overrun
  placed : ∀ resolved shown, resolvePath storage virtualPath resolvedLen display = .ok (resolved, shown) →
    resolved = below storage (named (trimSpace virtualPath)) ∧
      ∀ part ∈ named (trimSpace virtualPath),
        part ≠ [] ∧ part ≠ str "." ∧ part ≠ str ".." ∧ slash ∉ part ∧ part.length ≤ nameMax
  upRefused : str ".." ∈ components (trimSpace virtualPath) →
    resolvePath storage virtualPath resolvedLen display = .error .refused

section Confinement

variable {storage : FileStorage}

/-- The components can be read off the resolved path. -/
theorem below_inj {path path' : Bytes} (same : below storage (named path) = below storage (named path')) :
    named path = named path' := by
  have valid : ∀ path, ∀ part ∈ named path, part ≠ [] ∧ slash ∉ part := fun path part member =>
    Segments.mem_segments (mem_of_mem_filter member)
  have tails := append_cancel_left same
  rw [← Segments.segments_flatMap (valid path), tails, Segments.segments_flatMap (valid path')]

/-- The copy that passes the checks decides, so a path is confined when it has the same components. -/
theorem confined_of_agree {virtualPath : Bytes} {resolvedLen : Nat} {display : Option Nat}
    (agree : Served storage virtualPath resolvedLen display →
      named (workingCopy virtualPath) = named (trimSpace virtualPath)) :
    Confined storage virtualPath resolvedLen display := by
  obtain ⟨served, shown, result⟩ | ⟨_, result⟩ := resolvePath_cases storage virtualPath resolvedLen display
  · have parts := agree served
    -- Every component that is not a dot is one of the copy and passed the checks.
    have passed : ∀ part ∈ named (trimSpace virtualPath), Proper part := fun part member =>
      served.proper part (mem_of_mem_filter (parts ▸ member))
    refine ⟨by simp [result], ?_, ?_⟩
    · intro resolved shown' again
      rw [result] at again
      cases again
      refine ⟨by rw [parts], fun part member => ?_⟩
      obtain ⟨present, plain⟩ := Segments.mem_segments (mem_of_mem_filter member)
      have dot : part ≠ str "." := of_decide_eq_true (mem_filter.mp member).2
      exact ⟨present, dot, (passed part member).2, plain, (passed part member).1⟩
    · intro up
      have kept : str ".." ∈ named (trimSpace virtualPath) := mem_filter.mpr ⟨up, by decide⟩
      exact absurd rfl (passed _ kept).2
  · refine ⟨by simp [result], ?_, fun _ => result⟩
    intro resolved shown again
    rw [result] at again
    cases again

/-- A path is confined exactly when a copy that passes the checks has the components of the whole path. -/
theorem resolvePath_confined_iff (storage : FileStorage) (virtualPath : Bytes) (resolvedLen : Nat)
    (display : Option Nat) :
    Confined storage virtualPath resolvedLen display ↔
      (Served storage virtualPath resolvedLen display → named (workingCopy virtualPath) =
        named (trimSpace virtualPath)) := by
  constructor
  · intro confined served
    obtain ⟨_, shown, result⟩ | ⟨refused, _⟩ := resolvePath_cases storage virtualPath resolvedLen display
    · exact below_inj (confined.placed _ shown result).1
    · exact absurd served refused
  · exact confined_of_agree

theorem workingCopy_short {virtualPath : Bytes} (short : virtualPath.length < pathMax) :
    workingCopy virtualPath = trimSpace virtualPath := by
  have start := (dropWhile_suffix (fun c => decide (c = byte ' ' ∨ c = 9)) (l := virtualPath)).length_le
  have whole : (CBuffer.print (virtualPath.dropWhile fun c => c = byte ' ' ∨ c = 9) : CBuffer pathMax).text =
      virtualPath.dropWhile fun c => c = byte ' ' ∨ c = 9 := take_of_length_le (by omega)
  have blanks : (virtualPath.dropWhile fun c => c = byte ' ' ∨ c = 9).dropWhile isSpace =
      virtualPath.dropWhile isSpace := by
    clear short start whole
    induction virtualPath with
    | nil => rfl
    | cons c path ih =>
      by_cases blank : c = byte ' ' ∨ c = 9
      · have space : isSpace c := by rcases blank with rfl | rfl <;> decide
        rw [dropWhile_cons_of_pos (by simpa using blank), dropWhile_cons_of_pos space, ih]
      · rw [dropWhile_cons_of_neg (by simpa using blank)]
  simp only [workingCopy]
  rw [whole, trimSpace, blanks, trimSpace]

/-- A component behind the end of the buffer that leads upwards is not seen, and the path is resolved. -/
theorem resolvePath_cut_path :
    ¬ Confined ⟨true, .print (str "/srv")⟩ (str "a" ++ replicate 4096 slash ++ str "..") 4096 none := by
  intro confined
  have up : str ".." ∈ components (trimSpace (str "a" ++ replicate 4096 slash ++ str "..")) := by
    decide +kernel
  have resolved : (resolvePath ⟨true, .print (str "/srv")⟩ (str "a" ++ replicate 4096 slash ++ str "..") 4096
      none).isOk := by
    decide +kernel
  rw [confined.upRefused up] at resolved
  cases resolved

end Confinement

end SshChatter.FileTransfer
