import SshChatter.Ddial.MemberCommand

namespace SshChatter.Ddial
open CString DdialProtocol Transducer List

/-- This is `mv_rgb_t`. -/
structure Rgb where
  r : UInt8
  g : UInt8
  b : UInt8

/-- This is `mv_hex6` on a text of six characters or more. -/
def hex6 (s : Bytes) : Option Rgb :=
  match s with
  | r :: r' :: g :: g' :: b :: b' :: _ =>
    match hexValue r, hexValue r', hexValue g, hexValue g', hexValue b, hexValue b' with
    | some r, some r', some g, some g', some b, some b' =>
      some ⟨.ofNat (r * 16 + r'), .ofNat (g * 16 + g'), .ofNat (b * 16 + b')⟩
    | _, _, _, _, _, _ => none
  | _ => none

/-- This is `mv_ansi256`. -/
def ansi256 (c : Rgb) : Nat :=
  let max := max c.r.toNat (max c.g.toNat c.b.toNat)
  let min := min c.r.toNat (min c.g.toNat c.b.toNat)
  if max - min < 12 then
    if max < 8 then 16 else if 238 < max then 231 else 232 + (max - 8) / 10
  else
    16 + 36 * ((c.r.toNat * 5 + 127) / 255) + 6 * ((c.g.toNat * 5 + 127) / 255) + (c.b.toNat * 5 + 127) / 255

/-- This is `mv_color_mode_t`. -/
inductive ColorMode where
  | none
  | solid
  | gradient
  | rainbow
  | sparkle
  | wave
  deriving DecidableEq

/-- The kinds of `mv_is_marker`. -/
inductive Marker where
  | italic
  | bold
  | underline
  | color (rgb : Rgb)

/-- This is `mv_is_marker`: the marker in front of a text, and how much of the text is skipped. -/
def isMarker (p : Bytes) : Option (Nat × Marker) :=
  match p with
  | c :: rest =>
    if c = byte '\\' ∧ rest.head? = some (byte 'i') then some (2, .italic)
    else if c = byte '\\' ∧ rest.head? = some (byte 'b') then some (2, .bold)
    else if c = byte '\\' ∧ rest.head? = some (byte 'u') then some (2, .underline)
    else if c = byte '#' ∧ 7 ≤ p.length then (hex6 rest).map fun rgb => (7, .color rgb)
    else none
  | [] => none

/-- This is `mv_out_put`, and `mv_out_putn` for one character. -/
def outPut (cap : Nat) (buf s : Bytes) : Bytes :=
  let n :=
    if cap < buf.length + s.length + 1 then (if buf.length + 1 < cap then cap - buf.length - 1 else 0) else s.length
  buf ++ s.take n

/-- A control sequence for the style of text. -/
def sgrCode (params : Bytes) : Bytes := 0x1B :: byte '[' :: (params ++ [byte 'm'])

def colorParams (idx : Nat) : Bytes := str "38;5;" ++ decimal idx

/-- The variables of the loop of `mv_render` besides its buffers. -/
structure Pen where
  italic : Bool
  bold : Bool
  underline : Bool
  manual : Bool
  index : Nat
  lastColor : Nat

/-- The values before the loop. -/
def Pen.start : Pen := ⟨false, false, false, false, 0, 9999⟩

def Pen.mark (pen : Pen) : Marker → Pen × Bytes
  | .italic => ({ pen with italic := !pen.italic }, if pen.italic then str "23" else str "3")
  | .bold => ({ pen with bold := !pen.bold }, if pen.bold then str "22" else str "1")
  | .underline => ({ pen with underline := !pen.underline }, if pen.underline then str "24" else str "4")
  | .color rgb => ({ pen with manual := true }, colorParams (ansi256 rgb))

/-- A character in front of which a colour may be selected. The colour of a visible character is taken from the
palette by its index. -/
def Pen.draw (mode : ColorMode) (palette : Nat → UInt8) (pen : Pen) (c : UInt8) : Pen × Option Bytes :=
  let lead := c &&& 0xC0 ≠ 0x80
  if lead ∧ c ≠ 32 ∧ pen.manual = false ∧ mode ≠ .none ∧ mode ≠ .solid then
    let idx := (palette pen.index).toNat
    if idx ≠ pen.lastColor then ({ pen with index := pen.index + 1, lastColor := idx }, some (colorParams idx))
    else ({ pen with index := pen.index + 1 }, none)
  else if lead ∧ c ≠ 32 then ({ pen with index := pen.index + 1 }, none)
  else (pen, none)

/-- The pen and the buffers of the loop. -/
structure RenderState where
  pen : Pen
  styled : Bytes
  plain : Bytes

/-- The loop of `mv_render`, with so many characters of a marker left. -/
def renderLoop (mode : ColorMode) (palette : Nat → UInt8) (styledCap plainCap : Nat) :
    Nat → Bytes → RenderState → RenderState
  | _, [], state => state
  | skip + 1, _ :: rest, state => renderLoop mode palette styledCap plainCap skip rest state
  | 0, c :: rest, state =>
    match isMarker (c :: rest) with
    | some (skip, marker) =>
      renderLoop mode palette styledCap plainCap (skip - 1) rest
        { state with
          pen := (state.pen.mark marker).1
          styled := outPut styledCap state.styled (sgrCode (state.pen.mark marker).2) }
    | none =>
      let styled := match (state.pen.draw mode palette c).2 with
        | some params => outPut styledCap state.styled (sgrCode params)
        | none => state.styled
      renderLoop mode palette styledCap plainCap 0 rest
        { pen := (state.pen.draw mode palette c).1
          styled := outPut styledCap styled [c]
          plain := outPut plainCap state.plain [c] }

def opening (mode : ColorMode) (a : Rgb) : Bytes := if mode = .solid then sgrCode (colorParams (ansi256 a)) else []

/-- This is `mv_render`. It returns the styled text and the plain text. The palette gives the colours of the modes that
compute one for each character. -/
def mvRender (text : Bytes) (mode : ColorMode) (a : Rgb) (palette : Nat → UInt8) (styledCap plainCap : Nat) :
    Bytes × Bytes :=
  let start := if mode = .solid then outPut styledCap [] (sgrCode (colorParams (ansi256 a))) else []
  let state := renderLoop mode palette styledCap plainCap 0 text ⟨.start, start, []⟩
  (if 0 < state.styled.length then outPut styledCap state.styled (sgrCode (str "0")) else state.styled, state.plain)

/-- What is put into the styled text: a code or a character. -/
inductive Stroke where
  | code (params : Bytes)
  | char (c : UInt8)

def Stroke.ink : Stroke → Bytes
  | code params => sgrCode params
  | char c => [c]

def Stroke.letter : Stroke → Option UInt8
  | code _ => none
  | char c => some c

def strokes (mode : ColorMode) (palette : Nat → UInt8) : Nat → Bytes → Pen → List Stroke
  | _, [], _ => []
  | skip + 1, _ :: rest, pen => strokes mode palette skip rest pen
  | 0, c :: rest, pen =>
    match isMarker (c :: rest) with
    | some (skip, marker) => .code (pen.mark marker).2 :: strokes mode palette (skip - 1) rest (pen.mark marker).1
    | none => (pen.draw mode palette c).2.toList.map .code ++
        .char c :: strokes mode palette 0 rest (pen.draw mode palette c).1

def inked (drawn : List Stroke) : Bytes := drawn.flatMap Stroke.ink

def styledText (mode : ColorMode) (a : Rgb) (palette : Nat → UInt8) (text : Bytes) : Bytes :=
  let body := opening mode a ++ inked (strokes mode palette 0 text .start)
  if body = [] then [] else body ++ sgrCode (str "0")

inductive IsMarker : Bytes → Prop
  | italic : IsMarker (str "\\i")
  | bold : IsMarker (str "\\b")
  | underline : IsMarker (str "\\u")
  | color (digits : Bytes) : digits.length = 6 → (∀ c ∈ digits, (hexValue c).isSome) → IsMarker (byte '#' :: digits)

/-- The second text is the first one without its leftmost markers that do not overlap. -/
inductive WithoutMarkers : Bytes → Bytes → Prop
  | nil : WithoutMarkers [] []
  | marker {marker rest plain : Bytes} : IsMarker marker → WithoutMarkers rest plain →
      WithoutMarkers (marker ++ rest) plain
  | keep {c : UInt8} {rest plain : Bytes} : (∀ marker, IsMarker marker → ¬ marker <+: c :: rest) →
      WithoutMarkers rest plain → WithoutMarkers (c :: rest) (c :: plain)

section Buffers

variable {cap : Nat} {full buf s : Bytes}

theorem outPut_take (positive : 0 < cap) (full s : Bytes) :
    outPut cap (full.take (cap - 1)) s = (full ++ s).take (cap - 1) := by
  rw [outPut, take_append, length_take]
  congr 1
  split_ifs with full' more
  · congr 1
    omega
  · rw [take_zero, Eq.comm, take_eq_nil_iff]
    omega
  · rw [take_length, Eq.comm]
    exact take_of_length_le (by omega)

end Buffers

section Drawing

variable {mode : ColorMode} {palette : Nat → UInt8} {styledCap plainCap : Nat}

/-- The loop puts the strokes into the styled buffer and their characters into the plain one. -/
theorem renderLoop_eq (mode : ColorMode) (palette : Nat → UInt8) (styledSome : 0 < styledCap)
    (plainSome : 0 < plainCap) (skip : Nat) (text : Bytes) (pen : Pen) (styled plain : Bytes) :
    let state := renderLoop mode palette styledCap plainCap skip text
      ⟨pen, styled.take (styledCap - 1), plain.take (plainCap - 1)⟩
    state.styled = (styled ++ inked (strokes mode palette skip text pen)).take (styledCap - 1) ∧
      state.plain = (plain ++ (strokes mode palette skip text pen).filterMap Stroke.letter).take (plainCap - 1) := by
  induction text generalizing skip pen styled plain with
  | nil => cases skip <;> simp [renderLoop, strokes, inked]
  | cons c rest ih =>
    cases skip with
    | succ skip => exact ih skip pen styled plain
    | zero =>
      rw [renderLoop, strokes]
      cases isMarker (c :: rest) with
      | some found =>
        obtain ⟨skip, marker⟩ := found
        have later := ih (skip - 1) (pen.mark marker).1 (styled ++ sgrCode (pen.mark marker).2) plain
        rw [← outPut_take styledSome] at later
        rw [filterMap_cons_none rfl]
        simpa [inked, Stroke.ink] using later
      | none =>
        have drawn : (match (pen.draw mode palette c).2 with
            | some params => outPut styledCap (styled.take (styledCap - 1)) (sgrCode params)
            | none => styled.take (styledCap - 1)) =
            (styled ++ inked ((pen.draw mode palette c).2.toList.map .code)).take (styledCap - 1) := by
          cases (pen.draw mode palette c).2 with
          | none => simp [inked]
          | some => simp [outPut_take styledSome, inked, Stroke.ink]
        have later := ih 0 (pen.draw mode palette c).1
          (styled ++ inked ((pen.draw mode palette c).2.toList.map .code) ++ [c]) (plain ++ [c])
        rw [← outPut_take styledSome, ← outPut_take plainSome] at later
        rw [drawn]
        have silent : ((pen.draw mode palette c).2.toList.map Stroke.code).filterMap Stroke.letter = [] := by
          cases (pen.draw mode palette c).2 <;> rfl
        simpa [inked, Stroke.ink, Stroke.letter, silent] using later

/-- The buffers hold the front of the styled text and of its characters. -/
theorem mvRender_eq (text : Bytes) (a : Rgb) (styledSome : 0 < styledCap) (plainSome : 0 < plainCap) :
    mvRender text mode a palette styledCap plainCap =
      ((styledText mode a palette text).take (styledCap - 1),
        ((strokes mode palette 0 text .start).filterMap Stroke.letter).take (plainCap - 1)) := by
  have start : (if mode = .solid then outPut styledCap [] (sgrCode (colorParams (ansi256 a))) else []) =
      (opening mode a).take (styledCap - 1) := by
    have empty := outPut_take styledSome [] (sgrCode (colorParams (ansi256 a)))
    rw [take_nil] at empty
    rw [opening]
    split_ifs
    · exact empty
    · simp
  have loop := renderLoop_eq mode palette styledSome plainSome 0 text .start (opening mode a) []
  rw [take_nil, ← start] at loop
  rw [mvRender]
  simp only [loop]
  rw [styledText]
  congr 1
  by_cases nothing : opening mode a ++ inked (strokes mode palette 0 text .start) = []
  · simp [nothing]
  · rw [if_neg nothing]
    split_ifs with some'
    · exact outPut_take styledSome _ _
    · -- A buffer of one byte holds nothing but its terminator.
      have full : (opening mode a ++ inked (strokes mode palette 0 text .start)).take (styledCap - 1) = [] :=
        length_eq_zero_iff.mp (Nat.eq_zero_of_not_pos some')
      have one : styledCap - 1 = 0 := (take_eq_nil_iff.mp full).resolve_right nothing
      rw [one, take_zero, take_zero]

end Drawing

section Markers

variable {p text rest : Bytes} {skip : Nat} {found : Nat × Marker}

theorem hex6_isSome (rest : Bytes) :
    (hex6 rest).isSome ↔ 6 ≤ rest.length ∧ ∀ c ∈ rest.take 6, (hexValue c).isSome := by
  match rest with
  | [] | [_] | [_, _] | [_, _, _] | [_, _, _, _] | [_, _, _, _, _] => simp [hex6]
  | r :: r' :: g :: g' :: b :: b' :: rest =>
    simp only [hex6]
    split
    · simp_all
    · rename_i wrong
      simp only [Option.isSome_none, Bool.false_eq_true, take_succ_cons, take_zero,
        forall_mem_cons, not_mem_nil, false_implies, implies_true, and_true, false_iff, not_and]
      intro _ one two three four five six
      simp only [Option.isSome_iff_exists] at one two three four five six
      obtain ⟨⟨v1, h1⟩, ⟨v2, h2⟩, ⟨v3, h3⟩, ⟨v4, h4⟩, ⟨v5, h5⟩, v6, h6⟩ :=
        And.intro one (And.intro two (And.intro three (And.intro four (And.intro five six))))
      exact wrong v1 v2 v3 v4 v5 v6 h1 h2 h3 h4 h5 h6

theorem isMarker_some (marked : isMarker p = some found) :
    ∃ marker rest, IsMarker marker ∧ p = marker ++ rest ∧ marker.length = found.1 := by
  cases p with
  | nil => cases marked
  | cons c rest =>
    rw [isMarker] at marked
    split_ifs at marked with italic bold underline color
    · obtain ⟨rest, rfl⟩ := head?_eq_some_iff.mp italic.2
      exact ⟨str "\\i", rest, .italic, by rw [italic.1]; rfl, by rw [← Option.some.inj marked]; rfl⟩
    · obtain ⟨rest, rfl⟩ := head?_eq_some_iff.mp bold.2
      exact ⟨str "\\b", rest, .bold, by rw [bold.1]; rfl, by rw [← Option.some.inj marked]; rfl⟩
    · obtain ⟨rest, rfl⟩ := head?_eq_some_iff.mp underline.2
      exact ⟨str "\\u", rest, .underline, by rw [underline.1]; rfl, by rw [← Option.some.inj marked]; rfl⟩
    · obtain ⟨rgb, read, rfl⟩ := Option.map_eq_some_iff.mp marked
      obtain ⟨long, digits⟩ := (hex6_isSome rest).mp (Option.isSome_iff_exists.mpr ⟨rgb, read⟩)
      have six : (rest.take 6).length = 6 := length_take_of_le long
      refine ⟨byte '#' :: rest.take 6, rest.drop 6, .color _ six digits, ?_, by simp [six]⟩
      rw [color.1, cons_append, take_append_drop]

theorem isMarker_none (unmarked : isMarker p = none) : ∀ marker, IsMarker marker → ¬ marker <+: p := by
  rintro marker isMarker' ⟨rest, rfl⟩
  cases isMarker' with
  | italic | bold | underline => simp [isMarker, str, byte] at unmarked
  | color digits six =>
    have found : (hex6 (digits ++ rest)).isSome := by
      rw [hex6_isSome]
      refine ⟨by rw [length_append]; omega, ?_⟩
      rwa [← six, take_left]
    obtain ⟨rgb, read⟩ := Option.isSome_iff_exists.mp found
    have long : 7 ≤ (byte '#' :: (digits ++ rest)).length := by simp [six]
    rw [cons_append, isMarker, if_neg (by simp [byte]), if_neg (by simp [byte]), if_neg (by simp [byte]),
      if_pos ⟨rfl, long⟩, read] at unmarked
    cases unmarked

theorem markerLength_eq (p : Bytes) : markerLength p = ((isMarker p).map Prod.fst).getD 0 := by
  cases p with
  | nil => rfl
  | cons c rest =>
    have color : c = byte '#' ∧ 7 ≤ (c :: rest).length ∧ ((rest.take 6).all fun c => (hexValue c).isSome) = true ↔
        c = byte '#' ∧ 7 ≤ (c :: rest).length ∧ (hex6 rest).isSome := by
      rw [hex6_isSome]
      simp only [length_cons, and_congr_right_iff]
      intro _ long
      simp [show 6 ≤ rest.length by omega]
    rw [markerLength, isMarker]
    by_cases slash : c = byte '\\'
    · have ib : byte 'b' ≠ byte 'i' := by decide
      have iu : byte 'u' ≠ byte 'i' := by decide
      have bu : byte 'u' ≠ byte 'b' := by decide
      by_cases italic : rest.head? = some (byte 'i')
      · simp [slash, italic]
      · by_cases bold : rest.head? = some (byte 'b')
        · simp [slash, bold, ib]
        · by_cases underline : rest.head? = some (byte 'u')
          · simp [slash, underline, iu, bu]
          · simp [slash, italic, bold, underline, show byte '\\' ≠ byte '#' by decide]
    · simp only [slash, false_and, if_false]
      simp only [color]
      by_cases hash : c = byte '#' ∧ 7 ≤ (c :: rest).length
      · rw [if_pos hash]
        cases read : hex6 rest with
        | none => simp
        | some => rw [if_pos ⟨hash.1, hash.2, rfl⟩]; rfl
      · rw [if_neg hash, if_neg fun all => hash ⟨all.1, all.2.1⟩]
        rfl

end Markers

section Plain

variable {mode : ColorMode} {palette : Nat → UInt8}

theorem strokes_letters (skip : Nat) (text : Bytes) (pen : Pen) :
    (strokes mode palette skip text pen).filterMap Stroke.letter = renderPlain skip text := by
  induction text generalizing skip pen with
  | nil => cases skip <;> rfl
  | cons c rest ih =>
    cases skip with
    | succ skip => exact ih skip pen
    | zero =>
      rw [strokes, renderPlain]
      have length := markerLength_eq (c :: rest)
      cases marked : isMarker (c :: rest) with
      | some found =>
        obtain ⟨marker, behind, isMarker', split, size⟩ := isMarker_some marked
        have positive : found.1 ≠ 0 := by
          rw [← size]
          cases isMarker' <;> simp [str]
        rw [marked] at length
        have same : markerLength (c :: rest) = found.1 := length
        rw [if_neg (same ▸ positive), same]
        exact ih _ _
      | none =>
        rw [marked] at length
        have zero : markerLength (c :: rest) = 0 := length
        rw [if_pos zero]
        simp [Stroke.letter, ih]

theorem renderPlain_drop (skip : Nat) (text : Bytes) : renderPlain skip text = renderPlain 0 (text.drop skip) := by
  induction text generalizing skip with
  | nil => cases skip <;> rfl
  | cons c rest ih =>
    cases skip with
    | zero => rfl
    | succ skip => exact ih skip

theorem withoutMarkers_renderPlain (text : Bytes) : WithoutMarkers text (renderPlain 0 text) := by
  induction size : text.length using Nat.strong_induction_on generalizing text with
  | _ size ih =>
    cases text with
    | nil => exact .nil
    | cons c rest =>
      rw [length_cons] at size
      rw [renderPlain]
      have length := markerLength_eq (c :: rest)
      cases marked : isMarker (c :: rest) with
      | none =>
        rw [marked] at length
        rw [if_pos (show markerLength (c :: rest) = 0 from length)]
        exact .keep (isMarker_none marked) (ih rest.length (by omega) rest rfl)
      | some =>
        rw [marked] at length
        obtain ⟨marker, behind, isMarker', split, same⟩ := isMarker_some marked
        have positive : marker.length ≠ 0 := by cases isMarker' <;> simp [str]
        have lengths := congrArg List.length split
        rw [length_cons, length_append] at lengths
        have equal : markerLength (c :: rest) = marker.length := length.trans same.symm
        have drop : rest.drop (marker.length - 1) = behind := by
          rw [show rest.drop (marker.length - 1) = (c :: rest).drop marker.length by
            cases count : marker.length with
            | zero => exact absurd count positive
            | succ => rfl, split, drop_left]
        rw [if_neg (equal ▸ positive), equal, renderPlain_drop, drop, split]
        exact .marker isMarker' (ih behind.length (by omega) behind rfl)

end Plain

section Stripping

variable {mode : ColorMode} {palette : Nat → UInt8}

def IsParam (c : UInt8) : Prop := 0x30 ≤ c ∧ c < 0x40

theorem colorParams_isParam (idx : Nat) : ∀ c ∈ colorParams idx, IsParam c := by
  intro c member
  rcases mem_append.mp member with front | digit
  · have all : ((str "38;5;").all fun c => decide (0x30 ≤ c ∧ c < 0x40)) = true := by decide
    simpa [IsParam] using all_eq_true.mp all c front
  · have digits := decimal_isDigit idx c digit
    simp only [isDigit, decide_eq_true_eq, UInt8.le_iff_toNat_le] at digits
    have bounds : (48 : UInt8).toNat = 48 ∧ (57 : UInt8).toNat = 57 ∧ (0x40 : UInt8).toNat = 64 := by decide
    rw [IsParam, UInt8.lt_iff_toNat_lt, UInt8.le_iff_toNat_le]
    omega

theorem mark_isParam (pen : Pen) (marker : Marker) : ∀ c ∈ (pen.mark marker).2, IsParam c := by
  have digits : ∀ params ∈ [str "23", str "3", str "22", str "1", str "24", str "4"], ∀ c ∈ params, IsParam c := by
    simp [str, IsParam, show byte '1' < 64 ∧ byte '2' < 64 ∧ byte '3' < 64 ∧ byte '4' < 64 by decide,
      show 48 ≤ byte '1' ∧ 48 ≤ byte '2' ∧ 48 ≤ byte '3' ∧ 48 ≤ byte '4' by decide]
  cases marker with
  | color => exact colorParams_isParam _
  | italic => cases on : pen.italic <;> exact digits _ (by simp [Pen.mark, on])
  | bold => cases on : pen.bold <;> exact digits _ (by simp [Pen.mark, on])
  | underline => cases on : pen.underline <;> exact digits _ (by simp [Pen.mark, on])

theorem strokes_isParam (skip : Nat) (text : Bytes) (pen : Pen) (params : Bytes)
    (member : .code params ∈ strokes mode palette skip text pen) : ∀ c ∈ params, IsParam c := by
  induction text generalizing skip pen with
  | nil => cases skip <;> cases member
  | cons c rest ih =>
    cases skip with
    | succ skip => exact ih skip pen member
    | zero =>
      rw [strokes] at member
      cases marked : isMarker (c :: rest) with
      | some =>
        rw [marked] at member
        rcases mem_cons.mp member with same | later
        · obtain rfl := Stroke.code.inj same
          exact mark_isParam pen _
        · exact ih _ _ later
      | none =>
        rw [marked] at member
        rcases mem_append.mp member with here | there
        · obtain ⟨params', drawn, same⟩ := mem_map.mp here
          obtain rfl := Stroke.code.inj same
          have isSome := Option.mem_toList.mp drawn
          simp only [Pen.draw] at isSome
          split_ifs at isSome with colored fresh
          · cases isSome
            exact colorParams_isParam _
        · rcases mem_cons.mp there with same | later
          · cases same
          · exact ih _ _ later

theorem reset_isParam : ∀ c ∈ str "0", IsParam c := by
  simp [str, IsParam, show byte '0' < 64 by decide, show 48 ≤ byte '0' by decide]

theorem silent_sgrCode {params : Bytes} (digits : ∀ c ∈ params, IsParam c) : Silent stripStep .text (sgrCode params) :=
  silent_csi (fun c member => (digits c member).2) (by decide)

theorem strip_inked (drawn : List Stroke) (codes : ∀ params, .code params ∈ drawn → ∀ c ∈ params, IsParam c)
    (chars : ∀ c ∈ drawn.filterMap Stroke.letter, Printed c) :
    output stripStep .text (inked drawn) = drawn.filterMap Stroke.letter ∧
      final stripStep .text (inked drawn) = .text := by
  induction drawn with
  | nil => exact ⟨rfl, rfl⟩
  | cons stroke drawn ih =>
    have later := ih fun params member => codes params (mem_cons_of_mem _ member)
    rw [inked]
    cases stroke with
    | code params =>
      have silent := silent_sgrCode (codes params mem_cons_self)
      have rest := later chars
      constructor
      · exact (silent.output_append).trans rest.1
      · show final stripStep .text (sgrCode params ++ inked drawn) = .text
        rw [final_append, silent.returns, rest.2]
    | char c =>
      have letters : (Stroke.char c :: drawn).filterMap Stroke.letter = c :: drawn.filterMap Stroke.letter := rfl
      rw [letters] at chars ⊢
      obtain ⟨printed, others⟩ := forall_mem_cons.mp chars
      have rest := later others
      rw [inked] at rest
      simp [Stroke.ink, stripStep_printed printed, rest]

theorem strip_styledText {text : Bytes} (a : Rgb) (printed : ∀ c ∈ renderPlain 0 text, Printed c) :
    strip (styledText mode a palette text) = renderPlain 0 text := by
  have body := strip_inked (strokes mode palette 0 text .start)
    (fun params member => strokes_isParam 0 text .start params member)
    (by simpa only [strokes_letters] using printed)
  rw [strokes_letters] at body
  have first : Silent stripStep .text (opening mode a) := by
    rw [opening]
    split_ifs
    · exact silent_sgrCode (colorParams_isParam _)
    · exact ⟨rfl, rfl⟩
  have last : Silent stripStep .text (sgrCode (str "0")) := silent_sgrCode reset_isParam
  rw [styledText]
  split_ifs with nothing
  · rw [← body.1, (append_eq_nil_iff.mp nothing).2]
    rfl
  · rw [strip, append_assoc, first.output_append, output_append, body.1, body.2, last.writes, append_nil]

/-- Where the buffers are large enough, the styled text is stripped to the plain text, and the plain text is the text
without its markers. -/
theorem mvRender_agree (text : Bytes) (mode : ColorMode) (a : Rgb) (palette : Nat → UInt8)
    (styledCap plainCap stripCap : Nat) (printed : ∀ c ∈ text, Printed c)
    (styledRoom : (styledText mode a palette text).length < styledCap)
    (plainRoom : (renderPlain 0 text).length < plainCap) (stripRoom : (renderPlain 0 text).length < stripCap) :
    stripAnsi (mvRender text mode a palette styledCap plainCap).1 stripCap =
        (mvRender text mode a palette styledCap plainCap).2 ∧
      WithoutMarkers text (mvRender text mode a palette styledCap plainCap).2 := by
  have whole : mvRender text mode a palette styledCap plainCap = (styledText mode a palette text,
    renderPlain 0 text) := by
    rw [mvRender_eq text a (by omega) (by omega), strokes_letters, take_of_length_le (by omega),
      take_of_length_le (by omega)]
  have plain : strip (styledText mode a palette text) = renderPlain 0 text :=
    strip_styledText a fun c member => printed c (renderPlain_mem member)
  rw [whole, stripAnsi_eq, plain]
  exact ⟨take_of_length_le (by omega), withoutMarkers_renderPlain text⟩

theorem mvRender_agree_rainbow :
    let text := str "\\ia #102030[" ++ [0xED, 0x95, 0x9C]
    let rendered := mvRender text .rainbow ⟨0, 0, 0⟩ (fun index => .ofNat (index * 7)) 256 256
    stripAnsi rendered.1 256 = rendered.2 ∧ WithoutMarkers text rendered.2 :=
  mvRender_agree _ _ _ _ _ _ _ (forall_mem_iff_forall_getElem.mpr (by decide)) (by decide) (by decide) (by decide)

end Stripping

end SshChatter.Ddial
