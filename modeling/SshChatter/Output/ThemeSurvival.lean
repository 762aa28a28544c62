import SshChatter.Output.ThemedOutput

namespace SshChatter.Output
open CString Segments Sgr List

section Array

structure Holds (room : Nat) (dest : Dest) (text : Bytes) : Prop where
  cells_length : dest.cells.length = room
  offset_eq : dest.offset = text.length
  ends : ∃ behind, dest.cells = text ++ 0 :: behind

def themed (theme : Theme) (token : Token) : Bytes := token.bytes ++ (theme.reapplied token.bytes).flatMap theme.code

def themedBytes (theme : Theme) (line : Bytes) : Bytes :=
  (theme.parts true true true).flatMap theme.code ++ (tokens line).flatMap (themed theme)

variable {theme : Theme} {room : Nat} {dest : Dest} {text written fragment : Bytes} {token : Token}

theorem Holds.fits (holds : Holds room dest text) : text.length < room := by
  obtain ⟨behind, content⟩ := holds.ends
  rw [← holds.cells_length, content, length_append, length_cons]
  omega

theorem Holds.write (written : Bytes) (holds : Holds room dest text) (fits : text.length + written.length < room) :
    Holds room (dest.write written).terminate (text ++ written) := by
  obtain ⟨length, offset, behind, content⟩ := holds
  have front : dest.cells.take dest.offset = text := by
    rw [content, offset, take_left]
  have behindLength : (dest.cells.drop (dest.offset + written.length)).length =
    room - (text.length + written.length) := by
    rw [length_drop, length, offset]
  obtain ⟨last, rest, cut⟩ : ∃ last rest, dest.cells.drop (dest.offset + written.length) = last :: rest := by
    apply exists_cons_of_length_pos
    omega
  have result : (dest.write written).terminate.cells = text ++ written ++ 0 :: rest := by
    rw [Dest.terminate, Dest.write, front, cut, offset]
    simp
  constructor
  · rw [result, length_append, length_append, length_cons]
    rw [cut, length_cons] at behindLength
    omega
  · rw [Dest.terminate, Dest.write, offset, length_append]
  · exact ⟨rest, result⟩

theorem take_append_take (text rest : Bytes) (count : Nat) :
    (text.take count ++ rest).take count = (text ++ rest).take count := by
  simp [take_append, take_take]
  omega

/-- A fragment is cut where the array ends. -/
theorem Holds.appendFragment (fragment : Bytes) (holds : Holds room dest text) :
    Holds room (appendFragment room dest fragment) ((text ++ fragment).take (room - 1)) := by
  have fits := holds.fits
  have same := holds.offset_eq
  rw [Output.appendFragment, if_neg (by omega)]
  by_cases empty : fragment = []
  · rw [if_pos empty, empty, append_nil, take_of_length_le (by omega)]
    exact holds
  · rw [if_neg empty]
    by_cases full : room - 1 ≤ dest.offset
    · have last : room - 1 = text.length := by omega
      have again := holds.write [] (by simpa using fits)
      rw [last, take_left, ← same]
      simpa [Dest.write] using again
    · have left : room - dest.offset - 1 = room - 1 - text.length := by omega
      rw [if_neg full, take_append, take_of_length_le (l := text) (by omega), left]
      apply holds.write _
      rw [length_take]
      omega

theorem Holds.append (theme : Theme) (holds : Holds room dest text) (parts : List ThemePart) :
    Holds room (theme.append room dest parts) ((text ++ parts.flatMap theme.code).take (room - 1)) := by
  induction parts generalizing dest text with
  | nil =>
    have fits := holds.fits
    rw [flatMap_nil, append_nil, take_of_length_le (by omega)]
    exact holds
  | cons part parts ih =>
    have later := ih (holds.appendFragment (theme.code part))
    rw [take_append_take] at later
    rw [flatMap_cons, ← append_assoc]
    exact later

/-- A round writes the token with the theme behind it, as far as there is room. A cut sequence fills the array. -/
theorem Holds.emit (theme : Theme) (holds : Holds room dest text) (free : dest.offset < room - 1) (token : Token) :
    Holds room (emit theme room dest token) ((text ++ themed theme token).take (room - 1)) := by
  have same := holds.offset_eq
  cases token with
  | plain c =>
    have short : (text ++ [c]).length < room := by
      rw [length_append, length_singleton]
      omega
    have bare : themed theme (.plain c) = [c] := by
      rw [themed, Theme.reapplied, resets_plain]
      simp [Token.bytes, Theme.parts, Resets.nothing]
    rw [bare, take_of_length_le (by omega)]
    exact holds.write _ (by simpa using short)
  | sequence body final =>
    have left : room - dest.offset - 1 = room - 1 - text.length := by omega
    have cut : text.length + ((Token.sequence body final).bytes.take (room - 1 - text.length)).length < room := by
      rw [length_take]
      omega
    have copied := (holds.write _ cut).append theme
      (theme.reapplied ((Token.sequence body final).bytes.take (room - 1 - text.length)))
    rw [Output.emit, left]
    by_cases whole : (Token.sequence body final).bytes.length ≤ room - 1 - text.length
    · rw [take_of_length_le whole] at copied ⊢
      rw [themed, ← append_assoc]
      exact copied
    · have full : (text ++ (Token.sequence body final).bytes.take (room - 1 - text.length)).length = room - 1 := by
        rw [length_append, length_take]
        omega
      rw [take_append_of_le_length full.ge, take_of_length_le full.le] at copied
      rw [themed, take_append, take_of_length_le (l := text) (by omega),
        take_append_of_le_length (by omega)]
      exact copied

theorem Holds.emitAll (theme : Theme) (holds : Holds room dest text) (line : List Token) :
    Holds room (emitAll theme room dest line) ((text ++ line.flatMap (themed theme)).take (room - 1)) := by
  induction line generalizing dest text with
  | nil =>
    have fits := holds.fits
    rw [flatMap_nil, append_nil, take_of_length_le (by omega)]
    exact holds
  | cons token rest ih =>
    rw [Output.emitAll]
    split_ifs with full
    · have fits := holds.fits
      have same := holds.offset_eq
      rw [show room - 1 = text.length by omega, take_left]
      exact holds
    · have later := ih (holds.emit theme (by omega) token)
      rw [take_append_take] at later
      rw [flatMap_cons, ← append_assoc]
      exact later

theorem prepareThemedOutput_holds (theme : Theme) (line : Bytes) {cells : Bytes} (room : cells ≠ []) :
    Holds cells.length (prepareThemedOutput theme line cells) ((themedBytes theme line).take (cells.length - 1)) := by
  have start : Holds cells.length (Dest.terminate ⟨cells, 0⟩) [] := by
    obtain ⟨first, rest, rfl⟩ := exists_cons_of_ne_nil room
    exact ⟨rfl, rfl, rest, rfl⟩
  have whole := (start.append theme (theme.parts true true true)).emitAll theme (tokens line)
  rw [take_append_take] at whole
  rw [prepareThemedOutput, if_neg room]
  exact whole

end Array

section Tokens

variable {line rest body : Bytes} {token : Token}

def Token.Readable (rest : Bytes) : Token → Prop
  | .plain c => ¬ (c = escape ∧ rest.head? = some (byte '['))
  | .sequence body final => body.all inSequence = true ∧ inSequence final = false

/-- The text that a token is read from is the token in front of what is left. -/
theorem nextToken_iff : nextToken line = some (token, rest) ↔ line = token.bytes ++ rest ∧ token.Readable rest := by
  constructor
  · intro read
    cases line with
    | nil => cases read
    | cons c text =>
      rw [nextToken] at read
      split_ifs at read with opens
      · obtain ⟨rfl, bracket⟩ := opens
        obtain ⟨text, rfl⟩ := head?_eq_some_iff.mp bracket
        rw [drop_succ_cons, drop_zero] at read
        have whole := takeWhile_append_dropWhile (p := inSequence) (l := text)
        have stops := head?_dropWhile_not inSequence text
        split at read
        · cases read
        next final behind found =>
          obtain ⟨rfl, rfl⟩ := Prod.mk.inj (Option.some_inj.mp read)
          rw [found] at whole stops
          refine ⟨?_, all_takeWhile, by simpa using stops⟩
          rw [Token.bytes, append_assoc, singleton_append, cons_append, cons_append, whole]
      · obtain ⟨rfl, rfl⟩ := Prod.mk.inj (Option.some_inj.mp read)
        exact ⟨rfl, opens⟩
  · rintro ⟨rfl, readable⟩
    cases token with
    | plain => rw [Token.bytes, singleton_append, nextToken, if_neg readable]
    | sequence body final =>
      have inside : ∀ c ∈ body, inSequence c = true := all_eq_true.mp readable.1
      have stops : ¬ inSequence final = true := by simp [readable.2]
      have front : (body ++ final :: rest).takeWhile inSequence = body := by
        rw [takeWhile_append_of_pos inside, takeWhile_cons_of_neg stops, append_nil]
      have behind : (body ++ final :: rest).dropWhile inSequence = final :: rest := by
        rw [dropWhile_append_of_pos inside, dropWhile_cons_of_neg stops]
      simp [Token.bytes, nextToken, front, behind]

theorem tokens_readable (token : Token) (readable : token.Readable rest) :
    tokens (token.bytes ++ rest) = token :: tokens rest := by
  have read := nextToken_iff.mpr ⟨rfl, readable⟩
  rw [tokens]
  split
  next none => rw [read] at none; cases none
  next again =>
    rw [read] at again
    cases again
    rfl

@[simp] theorem tokens_nil : tokens [] = [] := by
  rw [tokens, nextToken]

/-- All of a line is read up to a sequence that does not end. -/
theorem tokens_cover (line : Bytes) : ∃ tail, line = (tokens line).flatMap Token.bytes ++ tail ∧
    (tail = [] ∨ ∃ body, tail = escape :: byte '[' :: body ∧ body.all inSequence = true) := by
  fun_induction tokens line with
  | case1 line none =>
    refine ⟨line, rfl, ?_⟩
    cases line with
    | nil => exact .inl rfl
    | cons =>
      rw [nextToken] at none
      split_ifs at none with opens
      obtain ⟨rfl, bracket⟩ := opens
      obtain ⟨body, rfl⟩ := head?_eq_some_iff.mp bracket
      refine .inr ⟨body, rfl, ?_⟩
      split at none
      next open' => simpa using open'
      · cases none
  | case2 line token rest read ih =>
    obtain ⟨tail, cover, left⟩ := ih
    obtain ⟨rfl, -⟩ := nextToken_iff.mp read
    refine ⟨tail, ?_, left⟩
    rw [flatMap_cons, append_assoc, ← cover]

def IsCode (code : Bytes) : Prop := code = [] ∨ ∃ body, code = (Token.sequence body (byte 'm')).bytes ∧
    body.all isParameter = true

theorem inSequence_parameters (parameters : body.all isParameter = true) : body.all inSequence = true := by
  rw [all_eq_true] at parameters ⊢
  intro c inside
  have plain := parameters c inside
  have below : c.toNat < 64 := by
    simp only [isParameter, isDigit, decide_eq_true_eq] at plain
    rcases plain with digit | rfl
    · exact lt_of_le_of_lt digit.2 (by decide)
    · decide
  rw [inSequence, decide_eq_true_eq]
  exact .inl (UInt8.lt_iff_toNat_lt.mpr below)

theorem IsCode.tokens_append {code : Bytes} (isCode : IsCode code) (rest : Bytes) :
    tokens (code ++ rest) = tokens code ++ tokens rest := by
  rcases isCode with rfl | ⟨body, rfl, parameters⟩
  · simp
  · have readable (rest : Bytes) : (Token.sequence body (byte 'm')).Readable rest :=
      ⟨inSequence_parameters parameters, by decide⟩
    have alone := tokens_readable _ (readable [])
    rw [append_nil] at alone
    rw [tokens_readable _ (readable rest), alone, tokens_nil, singleton_append]

theorem tokens_codes {theme : Theme} (codes : ∀ part, IsCode (theme.code part)) (parts : List ThemePart)
    (rest : Bytes) : tokens (parts.flatMap theme.code ++ rest) = (parts.flatMap fun part => tokens (theme.code part)) ++
      tokens rest := by
  induction parts with
  | nil => rfl
  | cons part parts ih =>
    rw [flatMap_cons, append_assoc, (codes part).tokens_append, ih, flatMap_cons, append_assoc]

theorem head_themed {theme : Theme} (opens : ((tokens line).flatMap (themed theme)).head? = some (byte '[')) :
    line.head? = some (byte '[') := by
  rw [tokens] at opens
  split at opens
  · cases opens
  next token rest read =>
    obtain ⟨rfl, -⟩ := nextToken_iff.mp read
    cases token with
    | plain => simpa [themed, Token.bytes] using opens
    | sequence => simpa [themed, Token.bytes] using opens

theorem tokens_themed {theme : Theme} (codes : ∀ part, IsCode (theme.code part)) (line : Bytes) :
    tokens ((tokens line).flatMap (themed theme)) =
      (tokens line).flatMap fun token => token :: (theme.reapplied token.bytes).flatMap fun part =>
        tokens (theme.code part) := by
  fun_induction tokens line with
  | case1 => simp
  | case2 line token rest read ih =>
    obtain ⟨rfl, readable⟩ := nextToken_iff.mp read
    rw [flatMap_cons, flatMap_cons, themed, append_assoc, tokens_readable, tokens_codes codes, ih,
      cons_append]
    cases token with
    | sequence => exact readable
    | plain =>
      rintro ⟨rfl, bracket⟩
      refine readable ⟨rfl, ?_⟩
      rw [Theme.reapplied, resets_plain] at bracket
      exact head_themed (by simpa [Theme.parts, Resets.nothing] using bracket)

end Tokens

section Rendering

variable {Colour : Type} (select : List Nat → Colour) (twice : Bool)

/-- The characters that a terminal writes for tokens, with their attributes. -/
def paint (base : Attributes Colour) : Attributes Colour → List Token → List (UInt8 × Attributes Colour)
  | _, [] => []
  | attributes, .plain c :: rest => (c, attributes) :: paint base attributes rest
  | attributes, .sequence body final :: rest =>
    paint base (run select base attributes (standardEffects twice (.sequence body final))) rest

/-- The characters that a terminal with some default attributes writes for a text. -/
def render (base : Attributes Colour) (text : Bytes) : List (UInt8 × Attributes Colour) :=
  paint select twice base base (tokens text)

def HasEffect (code : Bytes) (effect : Effect) : Prop :=
  ∃ body, code = (Token.sequence body (byte 'm')).bytes ∧ body.all isParameter = true ∧
    effects twice (parameters body) = [effect]

structure Theme.Selects (theme : Theme) (bg fg : Option (List Nat)) : Prop where
  bg_code : theme.bg = [] ∧ bg = none ∨ HasEffect twice theme.bg (.background bg)
  fg_code : theme.fg = [] ∧ fg = none ∨ HasEffect twice theme.fg (.foreground fg)

def Theme.attributes (theme : Theme) (bg fg : Option (List Nat)) (base : Attributes Colour) : Attributes Colour where
  foreground := (fg.map select).getD base.foreground
  background := (bg.map select).getD base.background
  bold := theme.isBold || base.bold

def Theme.effect (theme : Theme) (bg fg : Option (List Nat)) : ThemePart → List Effect
  | .bg => if theme.bg = [] then [] else [.background bg]
  | .fg => if theme.fg = [] then [] else [.foreground fg]
  | .bold => [.bold true]

variable {select twice} {theme : Theme} {bg fg : Option (List Nat)} {base attributes : Attributes Colour}

theorem HasEffect.paint_append {code : Bytes} {effect : Effect} (has : HasEffect twice code effect)
    (rest : List Token) : paint select twice base attributes (tokens code ++ rest) =
      paint select twice base (run select base attributes [effect]) rest := by
  obtain ⟨body, rfl, standard, same⟩ := has
  have alone := tokens_readable (.sequence body (byte 'm'))
    (show Token.Readable [] _ from ⟨inSequence_parameters standard, by decide⟩)
  rw [append_nil, tokens_nil] at alone
  rw [alone, singleton_append, paint, standardEffects, if_pos ⟨rfl, standard⟩, same]

theorem bold_hasEffect : HasEffect twice ansiBold (.bold true) := by
  refine ⟨str "1", rfl, by decide, ?_⟩
  cases twice <;> decide +kernel

theorem paint_code (selects : theme.Selects twice bg fg) (part : ThemePart) (rest : List Token) :
    paint select twice base attributes (tokens (theme.code part) ++ rest) =
      paint select twice base (run select base attributes (theme.effect bg fg part)) rest := by
  cases part with
  | bg =>
    rw [Theme.code, Theme.effect]
    rcases selects.bg_code with ⟨empty, -⟩ | has
    · simp [empty, run]
    · obtain ⟨body, same, -⟩ := id has
      rw [has.paint_append, if_neg (by simp [same, Token.bytes])]
  | fg =>
    rw [Theme.code, Theme.effect]
    rcases selects.fg_code with ⟨empty, -⟩ | has
    · simp [empty, run]
    · obtain ⟨body, same, -⟩ := id has
      rw [has.paint_append, if_neg (by simp [same, Token.bytes])]
  | bold => exact bold_hasEffect.paint_append rest

theorem paint_codes (selects : theme.Selects twice bg fg) (parts : List ThemePart) (rest : List Token) :
    paint select twice base attributes ((parts.flatMap fun part => tokens (theme.code part)) ++ rest) =
      paint select twice base (run select base attributes (parts.flatMap (theme.effect bg fg))) rest := by
  induction parts generalizing attributes with
  | nil => rfl
  | cons part parts ih =>
    rw [flatMap_cons, append_assoc, paint_code selects, ih, flatMap_cons, run_append]

theorem effect_parts (bgChosen fgChosen boldChosen : Bool) :
    (theme.parts bgChosen fgChosen boldChosen).flatMap (theme.effect bg fg) =
      (if bgChosen = true ∧ theme.bg ≠ [] then [.background bg] else []) ++
      (if fgChosen = true ∧ theme.fg ≠ [] then [.foreground fg] else []) ++
      if theme.isBold && boldChosen then [.bold true] else [] := by
  rw [Theme.parts, flatMap_append, flatMap_append]
  congr 1
  · congr 1
    · by_cases bgSet : theme.bg = [] <;> cases bgChosen <;> simp [Theme.effect]
    · by_cases fgSet : theme.fg = [] <;> cases fgChosen <;> simp [Theme.effect]
  · cases theme.isBold && boldChosen <;> simp [Theme.effect]

theorem effect_foreground (bgChosen fgChosen boldChosen : Bool) :
    ((theme.parts bgChosen fgChosen boldChosen).flatMap (theme.effect bg fg)).filterMap Effect.onForeground =
      if fgChosen = true ∧ theme.fg ≠ [] then [fg] else [] := by
  rw [effect_parts]
  split_ifs <;> simp [Effect.onForeground, filterMap_cons]

theorem effect_background (bgChosen fgChosen boldChosen : Bool) :
    ((theme.parts bgChosen fgChosen boldChosen).flatMap (theme.effect bg fg)).filterMap Effect.onBackground =
      if bgChosen = true ∧ theme.bg ≠ [] then [bg] else [] := by
  rw [effect_parts]
  split_ifs <;> simp [Effect.onBackground]

theorem effect_bold (bgChosen fgChosen boldChosen : Bool) :
    ((theme.parts bgChosen fgChosen boldChosen).flatMap (theme.effect bg fg)).filterMap Effect.onBold =
      if theme.isBold && boldChosen then [true] else [] := by
  rw [effect_parts]
  split_ifs <;> simp [Effect.onBold, filterMap_cons]

theorem run_defaults (select : List Nat → Colour) (base attributes : Attributes Colour)
    (selects : theme.Selects twice bg fg) (done : List Effect) :
    run select base attributes (done ++ (theme.parts (leavesBackground done) (leavesForeground done)
      (leavesBold done)).flatMap (theme.effect bg fg)) =
        run select (theme.attributes select bg fg base) attributes done := by
  apply Attributes.ext
  · rw [run_foreground, run_foreground, filterMap_append, effect_foreground, getLast?_append, leavesForeground]
    rcases last : (done.filterMap Effect.onForeground).getLast? with _ | _ | colour
    · simp
    · rcases selects.fg_code with ⟨empty, rfl⟩ | ⟨body, same, -⟩
      · simp [empty, Theme.attributes]
      · simp [same, Token.bytes, Theme.attributes]
    · simp
  · rw [run_background, run_background, filterMap_append, effect_background, getLast?_append, leavesBackground]
    rcases last : (done.filterMap Effect.onBackground).getLast? with _ | _ | colour
    · simp
    · rcases selects.bg_code with ⟨empty, rfl⟩ | ⟨body, same, -⟩
      · simp [empty, Theme.attributes]
      · simp [same, Token.bytes, Theme.attributes]
    · simp
  · rw [run_bold, run_bold, filterMap_append, effect_bold, getLast?_append, leavesBold]
    rcases last : (done.filterMap Effect.onBold).getLast? with _ | _ | _ <;> cases bold : theme.isBold <;>
      simp [Theme.attributes, bold]

theorem set_effect (parts : List ThemePart) :
    (theme.set parts).flatMap (theme.effect bg fg) = parts.flatMap (theme.effect bg fg) := by
  induction parts with
  | nil => rfl
  | cons part parts ih =>
    rw [Theme.set] at ih ⊢
    by_cases written : theme.code part = []
    · rw [filter_cons_of_neg (by simp [written]), ih]
      cases part with
      | bg => simp [Theme.effect, show theme.bg = [] from written]
      | fg => simp [Theme.effect, show theme.fg = [] from written]
      | bold => cases written
    · rw [filter_cons_of_pos (by simp [written]), flatMap_cons, flatMap_cons, ih]

theorem paint_themed (selects : theme.Selects twice bg fg) {line : List Token}
    (survives : ∀ token ∈ line, theme.set (theme.reapplied token.bytes) = theme.set (theme.defaults twice token)) :
    paint select twice base attributes (line.flatMap fun token =>
      token :: (theme.reapplied token.bytes).flatMap fun part => tokens (theme.code part)) =
        paint select twice (theme.attributes select bg fg base) attributes line := by
  induction line generalizing attributes with
  | nil => rfl
  | cons token line ih =>
    obtain ⟨now, later⟩ := forall_mem_cons.mp survives
    have codes : (theme.reapplied token.bytes).flatMap (theme.effect bg fg) =
        (theme.defaults twice token).flatMap (theme.effect bg fg) := by
      rw [← set_effect, now, set_effect]
    have settled := run_defaults select base attributes selects (standardEffects twice token)
    rw [flatMap_cons, cons_append]
    cases token with
    | plain c =>
      have kept : run select base attributes ((theme.defaults twice (.plain c)).flatMap (theme.effect bg fg)) =
        attributes :=
        settled
      rw [paint, paint, paint_codes selects, codes, kept, ih later]
    | sequence =>
      rw [paint, paint, paint_codes selects, codes, ← ih later, ← run_append, ← settled]
      rfl

theorem render_themed (selects : theme.Selects twice bg fg) {line : Bytes} (survives : Survives theme twice line) :
    render select twice base (themedBytes theme line) =
      render select twice (theme.attributes select bg fg base) line := by
  have codes (part : ThemePart) : IsCode (theme.code part) := by
    cases part with
    | bg => exact selects.bg_code.imp And.left fun has => ⟨_, has.choose_spec.1, has.choose_spec.2.1⟩
    | fg => exact selects.fg_code.imp And.left fun has => ⟨_, has.choose_spec.1, has.choose_spec.2.1⟩
    | bold => exact .inr ⟨str "1", rfl, by decide⟩
  have start := run_defaults select base base selects [.reset]
  rw [render, themedBytes, tokens_codes codes, tokens_themed codes, paint_codes selects, paint_themed selects survives]
  exact congrArg (fun attributes => paint select twice _ attributes (tokens line)) start

end Rendering

/-- The themed output is the line with the theme in front of it and applied again, all of it up to a sequence that
does not end, cut where the array ends and ended by a zero. The theme survives exactly on the lines whose tokens are
all clear, and these look as on a terminal with the theme as its default. -/
theorem themedOutput_exact (theme : Theme) (twice : Bool) (line : Bytes) :
    prepareThemedOutput theme line [] = ⟨[], 0⟩ ∧
    (∀ cells, cells ≠ [] →
      Holds cells.length (prepareThemedOutput theme line cells) ((themedBytes theme line).take (cells.length - 1))) ∧
    (∃ tail, line = (tokens line).flatMap Token.bytes ++ tail ∧
      (tail = [] ∨ ∃ body, tail = escape :: byte '[' :: body ∧ body.all inSequence = true)) ∧
    (Survives theme twice line ↔ ∀ token ∈ tokens line, ClearToken theme twice token) ∧
    ((∀ token ∈ tokens line, ClearToken theme twice token) →
      ∀ (Colour : Type) (select : List Nat → Colour) (base : Attributes Colour) (bg fg : Option (List Nat)),
        theme.Selects twice bg fg →
          render select twice base (themedBytes theme line) =
            render select twice (theme.attributes select bg fg base) line) := by
  have exact : Survives theme twice line ↔ ∀ token ∈ tokens line, ClearToken theme twice token :=
    forall₂_congr fun token _ => reapplied_iff theme twice token
  refine ⟨rfl, fun cells room => prepareThemedOutput_holds theme line room, tokens_cover line, exact, ?_⟩
  intro clear Colour select base bg fg selects
  exact render_themed selects (exact.mpr clear)

/-- A theme with white characters on blue. -/
def whiteOnBlue : Theme := ⟨escape :: str "[44m", escape :: str "[37m", false⟩

theorem reset_covered (twice : Bool) : ¬ Survives whiteOnBlue twice (escape :: str "[0;41mhi") := by
  have read : tokens (escape :: str "[0;41mhi") = .sequence (str "0;41") (byte 'm') :: tokens (str "hi") :=
    tokens_readable (.sequence (str "0;41") (byte 'm')) ⟨by decide, by decide⟩
  intro survives
  have clear := ((reapplied_iff whiteOnBlue twice _).mp (survives (.sequence (str "0;41") (byte 'm')) (by simp [read])))
    rfl
  have background := clear.1 (by decide)
  rw [Clear] at background
  revert background
  cases twice <;> decide +kernel

/-- A red background that follows a reset in its sequence is covered by the background of the theme. -/
theorem themedOutput_covers : ¬ Survives whiteOnBlue false (escape :: str "[0;41mhi") ∧
    ¬ Survives whiteOnBlue true (escape :: str "[0;41mhi") :=
  ⟨reset_covered false, reset_covered true⟩

end SshChatter.Output
