import SshChatter.Ddial.HandleOwnership
import SshChatter.Ddial.Render
import SshChatter.Ddial.SavedHandles

namespace SshChatter.Ddial
open CString DdialProtocol Transducer List

structure ShownHandle where
  handle : CText 31
  display : CText 255

def mvHandle (sess : ShownHandle) : Bytes := if sess.display.text ≠ [] then sess.display.text else sess.handle.text

def renderHandle (spec : Bytes) (displayCap plainCap : Nat) : Bytes × Bytes :=
  mvRender spec .none ⟨0, 0, 0⟩ (fun _ => 0) displayCap plainCap

/-- This is `mv_handle_set_cb` for the session that takes a handle. -/
def handleSet (clean text : Bytes) : ShownHandle :=
  ⟨.print clean, .print (if text.head? = some (byte '#') then (renderHandle text 256 64).1 else [])⟩

/-- The part of `mv_apply_member` that sets the handles. -/
def applyHandle (m : Member) : ShownHandle :=
  ⟨.print m.handle.text,
    .print (if m.handleColor.text ≠ [] then (renderHandle m.handleColor.text 256 32).1 else [])⟩

def takenText (members : List Member) (sess : MvSession) : Nat → Bytes → Bytes
  | 0, arg => arg
  | depth + 1, arg =>
    match reference arg, findNo members sess.memberNo with
    | some slot, some m => takenText members sess depth (m.savedHandles slot).text
    | _, _ => skipWs arg

def ShowsItself (sess : ShownHandle) : Prop := stripAnsi (mvHandle sess) 256 = sess.handle.text

def seenOfCode (room : Nat) (mode : Mode) (params : Bytes) : Bytes :=
  match mode with
  | .text => []
  | .escape => (byte '[' :: (params ++ [byte 'm'])).take (room - 1)
  | .csi => (params ++ [byte 'm']).take (room - 2)

def seenText : Nat → Mode → List Stroke → Bytes
  | _, _, [] => []
  | room, mode, .code params :: rest =>
    seenOfCode room mode params ++ seenText (room - (sgrCode params).length) .text rest
  | 0, _, .char _ :: _ => []
  | room + 1, mode, .char c :: rest => (stripStep mode c).2 ++ seenText room (stripStep mode c).1 rest

def handleStrokes (text : Bytes) : List Stroke := strokes .none (fun _ => 0) 0 text .start ++ [.code (str "0")]

def seenName (text : Bytes) : Bytes := seenText 255 .text (handleStrokes text)

def checkedName (text : Bytes) : Bytes := (strip ((renderPlain 0 text).take plainRoom)).take 31

structure SeenAsChecked (text : Bytes) : Prop where
  front : seenName text <+: checkedName text
  short : (seenName text).length ≤ maxHandleWireLen
  allowed : ∀ c ∈ seenName text, forbiddenInHandle c = false
  rest : (seenName text).length = maxHandleWireLen ∨
    ∀ c ∈ (checkedName text).drop (seenName text).length, forbiddenInHandle c

/-- No code stands inside an escape sequence. -/
def Apart : Mode → List Stroke → Prop
  | _, [] => True
  | mode, .code _ :: rest => mode = .text ∧ Apart .text rest
  | mode, .char c :: rest => Apart (stripStep mode c).1 rest

/-- Every escape sequence in a name ends before the next marker and before the end of the name. -/
def EscapesApart (text : Bytes) : Prop := Apart .text (handleStrokes text)

def ColorsAlike (members : List Member) (sess : MvSession) (text : Bytes) : Prop :=
  text.head? = some (byte '#') → SeenAsChecked text ∧
    ((findNo members sess.memberNo).isSome → seenName (text.take 159) = seenName text)

/-- The command takes a handle. -/
def Accepts (derive : Derive) (members : List Member) (sess : MvSession) (inUse : Bytes → Bool) (depth : Nat)
    (arg clean : Bytes) : Prop :=
  ((cmdHandle sess inUse depth arg).run (memberExec derive) members).2.effect = .rename clean

/-- What others see after the command, and after the member has logged in again, is the handle. -/
structure HandleShown (derive : Derive) (members : List Member) (sess : MvSession) (inUse : Bytes → Bool) (depth : Nat)
    (arg clean : Bytes) : Prop where
  now : ShowsItself (handleSet clean (takenText members sess depth arg))
  later : ∀ m, sess.memberNo ≠ 0 →
    findNo ((cmdHandle sess inUse depth arg).run (memberExec derive) members).1 sess.memberNo = some m →
      ShowsItself (applyHandle m)

section Seen

variable {params text : Bytes} {room : Nat} {mode : Mode} {drawn : List Stroke}

theorem seenText_zero (mode : Mode) (drawn : List Stroke) : seenText 0 mode drawn = [] := by
  induction drawn generalizing mode with
  | nil => rfl
  | cons stroke drawn ih =>
    cases stroke with
    | char => rfl
    | code => cases mode <;> simp [seenText, seenOfCode, ih]

theorem isParam_printed {c : UInt8} (digit : IsParam c) : Printed c := by
  refine ⟨?_, ?_, ?_⟩ <;> rintro rfl <;> exact absurd digit.1 (by decide)

theorem printed_codeTail (digits : ∀ c ∈ params, IsParam c) : ∀ c ∈ params ++ [byte 'm'], Printed c := by
  simpa [or_imp, forall_and, show Printed (byte 'm') by decide] using fun c member => isParam_printed (digits c member)

theorem final_sgrCode (digits : ∀ c ∈ params, IsParam c) (mode : Mode) :
    final stripStep mode (sgrCode params) = .text := by
  have tail := (strip_printed (printed_codeTail digits)).2
  cases mode with
  | text => exact (silent_sgrCode digits).returns
  | escape =>
    exact tail
  | csi =>
    exact tail

theorem output_sgrCode (digits : ∀ c ∈ params, IsParam c) (mode : Mode) (room : Nat) :
    output stripStep mode ((sgrCode params).take room) = seenOfCode room mode params := by
  have printed := printed_codeTail digits
  have stays (s : Bytes) (all : ∀ c ∈ s, Printed c) (count : Nat) :
    output stripStep .text (s.take count) = s.take count :=
    (strip_printed fun c member => all c (mem_of_mem_take member)).1
  cases mode with
  | text => exact (silent_sgrCode digits).output_take room
  | escape =>
    cases room with
    | zero => rfl
    | succ room =>
      exact stays _ (forall_mem_cons.mpr ⟨by decide, printed⟩) room
  | csi =>
    match room with
    | 0 => rfl
    | 1 => rfl
    | room + 2 => exact stays _ printed room

/-- The stripper leaves what is seen of strokes. -/
theorem output_inked (codes : ∀ params, .code params ∈ drawn → ∀ c ∈ params, IsParam c) (room : Nat) (mode : Mode) :
    output stripStep mode ((inked drawn).take room) = seenText room mode drawn := by
  induction drawn generalizing room mode with
  | nil => simp [inked, seenText]
  | cons stroke drawn ih =>
    have later := ih fun params member => codes params (mem_cons_of_mem _ member)
    cases stroke with
    | char c =>
      cases room with
      | zero => rw [seenText_zero, take_zero, output_nil]
      | succ room =>
        show (stripStep mode c).2 ++ output stripStep (stripStep mode c).1 ((inked drawn).take room) = _
        rw [later, seenText]
    | code params =>
      have digits := codes params mem_cons_self
      have split : (inked (.code params :: drawn)).take room =
          (sgrCode params).take room ++ (inked drawn).take (room - (sgrCode params).length) := by
        rw [inked, flatMap_cons, take_append]
        rfl
      rw [split, output_append, output_sgrCode digits]
      congr 1
      by_cases whole : (sgrCode params).length ≤ room
      · rw [take_of_length_le whole, final_sgrCode digits, later]
      · rw [Nat.sub_eq_zero_of_le (by omega), take_zero, output_nil, seenText_zero]

theorem seenText_front (room : Nat) {mode : Mode} (apart : Apart mode drawn) :
    seenText room mode drawn <+: output stripStep mode (drawn.filterMap Stroke.letter) := by
  induction drawn generalizing room mode with
  | nil => exact nil_prefix
  | cons stroke drawn ih =>
    cases stroke with
    | code =>
      obtain ⟨rfl, later⟩ := apart
      exact ih _ later
    | char =>
      cases room with
      | zero => exact nil_prefix
      | succ room => exact prefix_append_right_inj _ |>.mpr (ih room apart)

/-- No code stands inside an escape sequence of printed characters. -/
theorem apart_printed (printed : ∀ c ∈ drawn.filterMap Stroke.letter, Printed c) : Apart .text drawn := by
  induction drawn with
  | nil => trivial
  | cons stroke drawn ih =>
    cases stroke with
    | code => exact ⟨rfl, ih printed⟩
    | char c =>
      obtain ⟨first, others⟩ := forall_mem_cons.mp printed
      rw [Apart, stripStep_printed first]
      exact ih others

end Seen

section Display

variable {text : Bytes} {displayCap : Nat}

theorem inked_ne_nil {stroke : Stroke} {drawn : List Stroke} : inked (stroke :: drawn) ≠ [] := by
  cases stroke <;> simp [inked, Stroke.ink, sgrCode]

theorem handleStrokes_isParam (text params : Bytes) (member : .code params ∈ handleStrokes text) :
    ∀ c ∈ params, IsParam c := by
  rcases mem_append.mp member with drawn | last
  · exact strokes_isParam 0 text .start params drawn
  · obtain rfl := Stroke.code.inj (mem_singleton.mp last)
    exact reset_isParam

theorem handleStrokes_letters (text : Bytes) : (handleStrokes text).filterMap Stroke.letter = renderPlain 0 text := by
  rw [handleStrokes, filterMap_append, strokes_letters]
  exact append_nil _

/-- A name without escape characters has no escape sequence that a marker could stand in. -/
theorem escapesApart_printed (printed : ∀ c ∈ renderPlain 0 text, Printed c) : EscapesApart text :=
  apart_printed (by rwa [handleStrokes_letters])

theorem styledText_none (nonempty : text ≠ []) :
    styledText .none ⟨0, 0, 0⟩ (fun _ => 0) text = inked (handleStrokes text) := by
  have drawn : inked (strokes .none (fun _ => 0) 0 text .start) ≠ [] := by
    cases text with
    | nil => exact absurd rfl nonempty
    | cons c rest =>
      rw [strokes]
      cases isMarker (c :: rest) with
      | some => exact inked_ne_nil
      | none => simp [inked, Stroke.ink]
  have front : opening .none ⟨0, 0, 0⟩ = [] := rfl
  rw [styledText, front, nil_append, if_neg drawn, handleStrokes, inked, inked]
  simp [Stroke.ink]

theorem mem_inked {drawn : List Stroke} {c : UInt8} (codes : ∀ params, .code params ∈ drawn → ∀ c ∈ params, IsParam c)
    (member : c ∈ inked drawn) : c ≠ 0 ∨ c ∈ drawn.filterMap Stroke.letter := by
  obtain ⟨stroke, inside, here⟩ := mem_flatMap.mp member
  cases stroke with
  | code params =>
    left
    rintro rfl
    rcases mem_cons.mp here with escape | bracket
    · exact absurd escape (by decide)
    · rcases mem_cons.mp bracket with open' | tail
      · exact absurd open' (by decide)
      · rcases mem_append.mp tail with param | last
        · exact absurd (codes params inside 0 param).1 (by decide)
        · exact absurd (mem_singleton.mp last) (by decide)
  | char d =>
    right
    rw [mem_singleton.mp here]
    exact mem_filterMap.mpr ⟨.char d, inside, rfl⟩

theorem display_text (noNul : 0 ∉ text) (nonempty : text ≠ []) (plainCap : Nat) (positive : 0 < plainCap) :
    (CText.print (renderHandle text 256 plainCap).1 : CText 255).text = (inked (handleStrokes text)).take 255 := by
  have rendered : (renderHandle text 256 plainCap).1 = (inked (handleStrokes text)).take 255 := by
    rw [renderHandle, mvRender_eq text _ (by decide) positive, styledText_none nonempty]
  have clean : 0 ∉ (inked (handleStrokes text)).take 255 := by
    intro zero
    rcases mem_inked (handleStrokes_isParam text) (mem_of_mem_take zero) with other | letter
    · exact other rfl
    · rw [handleStrokes_letters] at letter
      exact noNul (renderPlain_mem letter)
  rw [rendered]
  exact congrArg CText.text (CText.print_text ⟨_, length_take_le 255 _, clean⟩)

theorem showsItself_colored (noNul : 0 ∉ text) (nonempty : text ≠ []) (plainCap : Nat) (positive : 0 < plainCap)
    (handle : CText 31) :
    ShowsItself ⟨handle, .print (renderHandle text 256 plainCap).1⟩ ↔ seenName text = handle.text := by
  have display := display_text noNul nonempty plainCap positive
  have drawn : (inked (handleStrokes text)).take 255 ≠ [] := by
    rw [Ne, take_eq_nil_iff, not_or]
    refine ⟨by decide, ?_⟩
    rw [← styledText_none nonempty, styledText_none nonempty, handleStrokes]
    cases strokes .none (fun _ => 0) 0 text .start <;> exact inked_ne_nil
  have seen : stripAnsi ((inked (handleStrokes text)).take 255) 256 = seenName text := by
    rw [stripAnsi_eq, take_of_length_le, strip, output_inked (handleStrokes_isParam text), seenName]
    exact (strip_length_le _).trans (length_take_le _ _)
  rw [ShowsItself, mvHandle, display, if_pos drawn, seen]

theorem showsItself_plain {clean : Bytes} (noNul : 0 ∉ clean) :
    ShowsItself ⟨.print (sanitizeHandle clean maxHandleLen), .print []⟩ := by
  have fits := print_clean noNul
  have printed : ∀ c ∈ sanitizeHandle clean maxHandleLen, Printed c := by
    intro c member
    have left := mem_of_mem_filter (mem_of_mem_take member)
    rw [stripAnsi_eq] at left
    exact mem_output .text (mem_of_mem_take left)
  have empty : (CText.print [] : CText 255).text = [] := rfl
  have short : (sanitizeHandle clean maxHandleLen).length ≤ 255 :=
    (sanitizeHandle_length clean maxHandleLen).trans (by decide)
  rw [ShowsItself, mvHandle, empty, if_neg (by simp), fits, stripAnsi_eq, (strip_printed printed).1]
  exact take_of_length_le short

end Display

section Names

variable {text : Bytes}

theorem askedHandle_colored (colored : text.head? = some (byte '#')) :
    askedHandle text = ((checkedName text).filter fun c => !forbiddenInHandle c).take maxHandleWireLen := by
  rw [askedHandle, if_pos colored, sanitizeHandle, stripAnsi_eq]
  rfl

theorem filter_allowed {name : Bytes} (allowed : ∀ c ∈ name, forbiddenInHandle c = false) :
    name.filter (fun c => !forbiddenInHandle c) = name := by
  rw [filter_eq_self]
  intro c member
  rw [allowed c member]
  rfl

theorem SeenAsChecked.eq_askedHandle (alike : SeenAsChecked text) (colored : text.head? = some (byte '#')) :
    seenName text = askedHandle text := by
  obtain ⟨rest, whole⟩ := alike.front
  have kept := filter_allowed alike.allowed
  have behind := alike.rest
  rw [← whole, drop_left] at behind
  rw [askedHandle_colored colored, ← whole, filter_append, kept, take_append,
    take_of_length_le alike.short]
  rcases behind with full | dropped
  · rw [full, Nat.sub_self, take_zero, append_nil]
  · have none' : rest.filter (fun c => !forbiddenInHandle c) = [] := by
      rw [filter_eq_nil_iff]
      intro c member
      simp [dropped c member]
    rw [none', take_nil, append_nil]

theorem seenAsChecked_of_eq (apart : EscapesApart text) (colored : text.head? = some (byte '#'))
    (same : seenName text = askedHandle text) : SeenAsChecked text := by
  rw [askedHandle_colored colored] at same
  have seen : seenName text <+: strip (renderPlain 0 text) := by
    have front := seenText_front 255 apart
    rwa [handleStrokes_letters] at front
  have checked : checkedName text <+: strip (renderPlain 0 text) :=
    (List.take_prefix _ _).trans (output_front (List.take_prefix _ _))
  have shorter : (seenName text).length ≤ (checkedName text).length := by
    rw [same]
    exact (length_take_le' _ _).trans (length_filter_le _ _)
  have front : seenName text <+: checkedName text := prefix_of_prefix_length_le seen checked shorter
  have short : (seenName text).length ≤ maxHandleWireLen := by
    rw [same]
    exact length_take_le _ _
  have allowed : ∀ c ∈ seenName text, forbiddenInHandle c = false := by
    intro c member
    rw [same] at member
    simpa using of_mem_filter (mem_of_mem_take member)
  refine ⟨front, short, allowed, ?_⟩
  obtain ⟨rest, whole⟩ := front
  rw [← whole, drop_left]
  by_contra more
  push Not at more
  obtain ⟨shorter', c, member, keeps⟩ := more
  have kept := filter_allowed allowed
  rw [← whole, filter_append, kept, take_append, take_of_length_le short] at same
  have none' := append_cancel_left (same.symm.trans (append_nil _).symm)
  rcases take_eq_nil_iff.mp none' with full | empty
  · exact shorter' (by omega)
  · rw [filter_eq_nil_iff] at empty
    exact empty c member (by simpa using keeps)

end Names

section Command

variable {derive : Derive} {members : List Member} {sess : MvSession} {inUse : Bytes → Bool} {depth : Nat}
  {arg text clean : Bytes}

structure Taken (members after : List Member) (sess : MvSession) (text clean : Bytes) : Prop where
  cleaned : clean = askedHandle text
  member : text.head? = some (byte '#') → sess.memberNo ≠ 0
  stored : sess.memberNo ≠ 0 → findNo after sess.memberNo = (findNo members sess.memberNo).map fun m =>
    { m with handle := .print clean, handleColor := .print (if text.head? = some (byte '#') then text else []) }

theorem takeHandle_taken
    (accepted : ((takeHandle sess inUse text).run (memberExec derive) members).2.effect = .rename clean) :
    Taken members ((takeHandle sess inUse text).run (memberExec derive) members).1 sess text clean := by
  have step := takeHandle_step derive members sess inUse text
  generalize (takeHandle sess inUse text).run (memberExec derive) members = outcome at step accepted ⊢
  cases step with
  | refused => cases accepted
  | taken takable unkept =>
    obtain rfl := SessionEffect.rename.inj accepted
    refine ⟨rfl, takable.member, fun member => ?_⟩
    have missing : findNo members sess.memberNo = none := (unkept.resolve_left member).2
    rw [missing]
    rfl
  | kept takable member old found =>
    obtain rfl := SessionEffect.rename.inj accepted
    refine ⟨rfl, takable.member, fun _ => ?_⟩
    rw [findNo_put, if_pos ⟨(findNo_mem found).1.symm, by rw [found]; rfl⟩, found]
    rfl

/-- A handle that the command takes stands behind the saved handles that it activates. -/
theorem cmdHandle_taken (noNul : 0 ∉ arg)
    (accepted : ((cmdHandle sess inUse depth arg).run (memberExec derive) members).2.effect = .rename clean) :
    0 ∉ takenText members sess depth arg ∧
      Taken members ((cmdHandle sess inUse depth arg).run (memberExec derive) members).1 sess
        (takenText members sess depth arg) clean := by
  induction depth generalizing arg with
  | zero => cases accepted
  | succ depth ih =>
    have step := cmdHandle_step derive members sess inUse depth arg
    rw [takenText]
    generalize (cmdHandle sess inUse (depth + 1) arg).run (memberExec derive) members = outcome at step accepted ⊢
    cases step with
    | answered => cases accepted
    | saved => cases accepted
    | again m slot member found asked =>
      rw [asked, found]
      exact ih (m.savedHandles slot).clean accepted
    | taking other =>
      rw [other]
      exact ⟨fun inside => noNul (skipWs_mem inside), takeHandle_taken accepted⟩

theorem handleSet_shown (noNul : 0 ∉ text) (colored : text.head? = some (byte '#')) :
    ShowsItself (handleSet (askedHandle text) text) ↔ seenName text = askedHandle text := by
  have nonempty : text ≠ [] := by
    rintro rfl
    cases colored
  rw [handleSet, if_pos colored, showsItself_colored noNul nonempty 64 (by decide), print_asked noNul]

/-- The record keeps the front of a coloured text, and the login renders that. -/
theorem applyHandle_shown (noNul : 0 ∉ text) (colored : text.head? = some (byte '#')) (m : Member) :
    ShowsItself (applyHandle (m.renamed text)) ↔ seenName (text.take 159) = askedHandle text := by
  have cut : (CText.print text : CText 159).text = text.take 159 := by
    have whole : text.takeWhile (· ≠ 0) = text := by
      rw [takeWhile_eq_self_iff]
      intro c inside
      exact decide_eq_true fun zero => noNul (zero ▸ inside)
    show (text.takeWhile (· ≠ 0)).take 159 = text.take 159
    rw [whole]
  have cutSome : text.take 159 ≠ [] := by
    intro empty
    rcases take_eq_nil_iff.mp empty with none' | rfl
    · cases none'
    · cases colored
  have cutClean : 0 ∉ text.take 159 := fun inside => noNul (mem_of_mem_take inside)
  rw [applyHandle, Member.renamed]
  rw [if_pos colored, cut, if_pos cutSome, showsItself_colored cutClean cutSome 32 (by decide), CText.print_text,
    print_asked noNul]

/-- A text without colours is taken as what it is seen as. -/
theorem handleSet_plain (noNul : 0 ∉ text) (plain : text.head? ≠ some (byte '#')) :
    ShowsItself (handleSet (askedHandle text) text) := by
  have cutClean : 0 ∉ text.take plainRoom := fun inside => noNul (mem_of_mem_take inside)
  rw [handleSet, askedHandle, if_neg plain, if_neg plain]
  exact showsItself_plain cutClean

/-- The login renders nothing for a text without colours. -/
theorem applyHandle_plain (noNul : 0 ∉ text) (plain : text.head? ≠ some (byte '#')) (m : Member) :
    ShowsItself (applyHandle (m.renamed text)) := by
  have same : applyHandle (m.renamed text) = handleSet (askedHandle text) text := by
    rw [applyHandle, Member.renamed, handleSet]
    rw [if_neg plain, if_neg plain, CText.print_text]
    rfl
  rw [same]
  exact handleSet_plain noNul plain

theorem handleShown_iff (noNul : 0 ∉ arg)
    (accepted : Accepts derive members sess inUse depth arg clean) :
    HandleShown derive members sess inUse depth arg clean ↔
      ((takenText members sess depth arg).head? = some (byte '#') →
        seenName (takenText members sess depth arg) = askedHandle (takenText members sess depth arg) ∧
          ((findNo members sess.memberNo).isSome → seenName ((takenText members sess depth arg).take 159) =
            askedHandle (takenText members sess depth arg))) := by
  obtain ⟨noNul', taken⟩ := cmdHandle_taken noNul accepted
  have shown : HandleShown derive members sess inUse depth arg clean ↔
      ShowsItself (handleSet clean (takenText members sess depth arg)) ∧
        ∀ m, sess.memberNo ≠ 0 →
          findNo ((cmdHandle sess inUse depth arg).run (memberExec derive) members).1 sess.memberNo = some m →
            ShowsItself (applyHandle m) := ⟨fun both => ⟨both.now, both.later⟩, fun both => ⟨both.1, both.2⟩⟩
  rw [shown]
  generalize takenText members sess depth arg = text at noNul' taken ⊢
  obtain ⟨rfl, member, stored⟩ := taken
  have record (some' : sess.memberNo ≠ 0) :
      findNo ((cmdHandle sess inUse depth arg).run (memberExec derive) members).1 sess.memberNo =
        (findNo members sess.memberNo).map fun m => m.renamed text := stored some'
  by_cases colored : text.head? = some (byte '#')
  · rw [handleSet_shown noNul' colored, record (member colored), forall_prop_of_true colored]
    apply and_congr_right
    intro _
    constructor
    · intro later some'
      obtain ⟨m, found⟩ := Option.isSome_iff_exists.mp some'
      exact (applyHandle_shown noNul' colored m).mp (later _ (member colored) (by rw [found]; rfl))
    · intro same m _ kept
      obtain ⟨old, found, rfl⟩ := Option.map_eq_some_iff.mp kept
      exact (applyHandle_shown noNul' colored old).mpr (same (Option.isSome_iff_exists.mpr ⟨old, found⟩))
  · refine iff_of_true ⟨handleSet_plain noNul' colored, ?_⟩ fun marked => absurd marked colored
    intro m some' kept
    rw [record some'] at kept
    obtain ⟨old, -, rfl⟩ := Option.map_eq_some_iff.mp kept
    exact applyHandle_plain noNul' colored old

/-- A handle whose colours show it as it is checked is seen as what it is. Where every escape sequence ends before the
next marker no other handle is. -/
theorem cmdHandle_shown_iff (derive : Derive) (members : List Member) (sess : MvSession) (inUse : Bytes → Bool)
    (depth : Nat) (arg clean : Bytes) (noNul : 0 ∉ arg)
    (accepted : Accepts derive members sess inUse depth arg clean) :
    (ColorsAlike members sess (takenText members sess depth arg) →
        HandleShown derive members sess inUse depth arg clean) ∧
      (EscapesApart (takenText members sess depth arg) →
        HandleShown derive members sess inUse depth arg clean →
          ColorsAlike members sess (takenText members sess depth arg)) := by
  rw [handleShown_iff noNul accepted]
  constructor
  · intro alike colored
    obtain ⟨seen, cut⟩ := alike colored
    have same := seen.eq_askedHandle colored
    exact ⟨same, fun some' => (cut some').trans same⟩
  · intro apart shown colored
    obtain ⟨same, cut⟩ := shown colored
    exact ⟨seenAsChecked_of_eq apart colored same, fun some' => (cut some').trans same.symm⟩

theorem cmdHandle_accepts (member : sess.memberNo ≠ 0) (colored : text.head? = some (byte '#'))
    (asked : askedHandle text = clean) (some' : clean ≠ []) (unowned : memberOwnerOf members clean = 0)
    (free : inUse clean = false) :
    Accepts derive members sess inUse (depth + 1) text clean := by
  obtain ⟨rest, rfl⟩ := head?_eq_some_iff.mp colored
  have words : skipWs (byte '#' :: rest) = byte '#' :: rest := rfl
  have unsaved : ¬ (49 ≤ byte '#' ∧ byte '#' ≤ 57 ∧ (rest = [] ∨ rest.head? = some (byte '='))) := fun saved =>
    absurd saved.1 (by decide)
  rw [Accepts, cmdHandle, words]
  dsimp only
  rw [if_neg (by decide), if_neg unsaved, takeHandle]
  rw [asked, if_neg (by simp [member]), if_neg some', run_ownerOf, unowned, if_neg (by simp), if_neg (by simp [free]),
    if_neg member, run_get]
  cases findNo members sess.memberNo <;> rfl

def coloredRoll : List Member := [{ Member.zero with number := 7 }]

/-- A coloured handle with markers is seen as it is checked. -/
theorem cmdHandle_shown_marked :
    EscapesApart (takenText coloredRoll savedSession 1 (str "#FF0000Na\\ime")) ∧
      HandleShown (fun _ _ => none) coloredRoll savedSession (fun _ => false) 1 (str "#FF0000Na\\ime")
        (str "Name") := by
  have law := cmdHandle_shown_iff (fun _ _ => none) coloredRoll savedSession (fun _ => false) 1 (str "#FF0000Na\\ime")
    (str "Name") (by decide +kernel)
    (cmdHandle_accepts (by decide) (by decide +kernel) (by decide +kernel) (by decide) (by decide) rfl)
  refine ⟨escapesApart_printed (by decide +kernel), law.1 fun _ => ⟨?_, fun _ => by decide +kernel⟩⟩
  exact ⟨by decide +kernel, by decide +kernel, by decide +kernel, .inr (by decide +kernel)⟩

/-- A circumflex in a coloured handle is seen and is not checked. -/
theorem cmdHandle_circumflex :
    Accepts (fun _ _ => none) coloredRoll savedSession (fun _ => false) 1 (str "#FF0000Na^me") (str "Name") ∧
      ¬ HandleShown (fun _ _ => none) coloredRoll savedSession (fun _ => false) 1 (str "#FF0000Na^me")
        (str "Name") := by
  have colored : (str "#FF0000Na^me").head? = some (byte '#') := by decide +kernel
  have accepted : Accepts (fun _ _ => none) coloredRoll savedSession (fun _ => false) 1 (str "#FF0000Na^me")
      (str "Name") :=
    cmdHandle_accepts (by decide) colored (by decide +kernel) (by decide) (by decide) rfl
  have other : seenName (str "#FF0000Na^me") ≠ askedHandle (str "#FF0000Na^me") := by decide +kernel
  refine ⟨accepted, fun shown => ?_⟩
  rw [handleShown_iff (by decide +kernel) accepted] at shown
  exact other (shown colored).1

end Command

end SshChatter.Ddial
