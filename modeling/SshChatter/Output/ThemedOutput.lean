import SshChatter.Lib.CString
import SshChatter.Lib.Segments
import SshChatter.Lib.Sgr

namespace SshChatter.Output
open CString Segments Sgr List

/-- The codes of the theme of a session. A code that is not set is empty. -/
structure Theme where
  bg : Bytes
  fg : Bytes
  isBold : Bool

/-- The character ESC. -/
def escape : UInt8 := 27

def ansiBold : Bytes := escape :: str "[1m"

inductive ThemePart where
  | bg
  | fg
  | bold
  deriving DecidableEq

def Theme.code (theme : Theme) : ThemePart → Bytes
  | .bg => theme.bg
  | .fg => theme.fg
  | .bold => ansiBold

def Theme.parts (theme : Theme) (bg fg bold : Bool) : List ThemePart :=
  (if bg then [.bg] else []) ++ (if fg then [.fg] else []) ++ if theme.isBold && bold then [.bold] else []

/-- The array `dest` with the offset that the text in it has grown to. -/
structure Dest where
  cells : Bytes
  offset : Nat
  deriving DecidableEq

/-- This is `memcpy` to the offset. -/
def Dest.write (dest : Dest) (written : Bytes) : Dest where
  cells := dest.cells.take dest.offset ++ written ++ dest.cells.drop (dest.offset + written.length)
  offset := dest.offset + written.length

/-- A zero is written behind the text. -/
def Dest.terminate (dest : Dest) : Dest := { dest with cells := dest.cells.set dest.offset 0 }

def appendFragment (room : Nat) (dest : Dest) (fragment : Bytes) : Dest :=
  if room ≤ dest.offset then { dest with offset := room - 1 }
  else if fragment = [] then dest
  else if room - 1 ≤ dest.offset then { dest with offset := room - 1 }.terminate
  else (dest.write (fragment.take (room - dest.offset - 1))).terminate

/-- What the parameters of a sequence reset. -/
structure Resets where
  fg : Bool
  bg : Bool
  bold : Bool
  deriving DecidableEq

def Resets.nothing : Resets := ⟨false, false, false⟩

def Resets.all : Resets := ⟨true, true, true⟩

/-- The tests of a value that is not zero. -/
def Resets.note (resets : Resets) (value : Int) : Resets where
  fg := resets.fg || value = 39
  bg := resets.bg || value = 49
  bold := resets.bold || value = 21 || value = 22

def behindNumber (text : Bytes) : Bytes :=
  match text.dropWhile isSpace with
  | [] => []
  | c :: rest => (if c = byte '-' ∨ c = byte '+' then rest else c :: rest).dropWhile isDigit

def readNumber (text : Bytes) : Option (Int × Bytes) := (strtol text).map fun value => (value, behindNumber text)

theorem behindNumber_length {c : UInt8} {text : Bytes} {value : Int} {rest : Bytes}
    (read : readNumber (c :: text) = some (value, rest)) : rest.length < (c :: text).length := by
  obtain ⟨read, found, same⟩ := Option.map_eq_some_iff.mp read
  obtain ⟨-, rfl⟩ := Prod.mk.inj same
  rw [strtol] at found
  rw [behindNumber]
  have blanks := length_dropWhile_le isSpace (c :: text)
  cases front : (c :: text).dropWhile isSpace with
  | nil => exact Nat.zero_lt_succ _
  | cons d digits =>
    rw [front] at found
    rw [front, length_cons] at blanks
    have fewer := length_dropWhile_le isDigit digits
    by_cases sign : d = byte '-' ∨ d = byte '+'
    · simp only [if_pos sign]
      omega
    · simp only [if_neg sign] at found ⊢
      have digit : isDigit d := by
        by_contra other
        rw [if_pos (takeWhile_cons_of_neg other)] at found
        cases found
      rw [dropWhile_cons_of_pos digit]
      omega

/-- The loop of `session_sequence_resets_theme` over the parameters. -/
def scanParameters (resets : Resets) (parameters : Bytes) : Resets :=
  match parameters with
  | [] => resets
  | c :: rest =>
    if c = byte ';' then scanParameters resets rest
    else
      match _read : readNumber (c :: rest) with
      | none => .all
      | some (value, behind) => if value = 0 then .all else scanParameters (resets.note value) behind
  termination_by parameters.length
  decreasing_by
    · exact Nat.lt_succ_self _
    · exact behindNumber_length _read

def sequenceResetsTheme (sequence : Bytes) : Resets :=
  if sequence.head? ≠ some escape ∨ sequence.length < 2 ∨ sequence.getLast? ≠ some (byte 'm') then .nothing
  else
    let parameters := (sequence.drop 2).dropLast
    if parameters = [] then .all else scanParameters .nothing parameters

def inSequence (c : UInt8) : Bool := c < byte '@' ∨ byte '~' < c

/-- A character of a line, or a sequence with what stands between its brackets and its last character. -/
inductive Token where
  | plain (c : UInt8)
  | sequence (body : Bytes) (final : UInt8)
  deriving DecidableEq

def Token.bytes : Token → Bytes
  | .plain c => [c]
  | .sequence body final => escape :: byte '[' :: body ++ [final]

/-- What the loop of `session_prepare_themed_output` reads in a round. It stops in front of a sequence that does
not end. -/
def nextToken : Bytes → Option (Token × Bytes)
  | [] => none
  | c :: rest =>
    if c = escape ∧ rest.head? = some (byte '[') then
      match (rest.drop 1).dropWhile inSequence with
      | [] => none
      | final :: behind => some (.sequence ((rest.drop 1).takeWhile inSequence) final, behind)
    else some (.plain c, rest)

theorem nextToken_length {line rest : Bytes} {token : Token} (read : nextToken line = some (token, rest)) :
    rest.length < line.length := by
  cases line with
  | nil => cases read
  | cons c text =>
    rw [nextToken] at read
    split_ifs at read with opens
    · have fewer := length_dropWhile_le inSequence (text.drop 1)
      split at read
      · cases read
      next final behind found =>
        obtain ⟨-, rfl⟩ := Prod.mk.inj (Option.some_inj.mp read)
        rw [found, length_cons, length_drop] at fewer
        rw [length_cons]
        omega
    · obtain ⟨-, rfl⟩ := Prod.mk.inj (Option.some_inj.mp read)
      exact Nat.lt_succ_self _

/-- What the loop reads of a line. -/
def tokens (line : Bytes) : List Token :=
  match _read : nextToken line with
  | none => []
  | some (token, rest) => token :: tokens rest
  termination_by line.length
  decreasing_by exact nextToken_length _read

def Theme.reapplied (theme : Theme) (written : Bytes) : List ThemePart :=
  theme.parts (sequenceResetsTheme written).bg (sequenceResetsTheme written).fg (sequenceResetsTheme written).bold

def Theme.append (theme : Theme) (room : Nat) (dest : Dest) (parts : List ThemePart) : Dest :=
  parts.foldl (fun dest part => appendFragment room dest (theme.code part)) dest

/-- A round of the loop. A sequence is cut where the array ends. -/
def emit (theme : Theme) (room : Nat) (dest : Dest) : Token → Dest
  | .plain c => (dest.write [c]).terminate
  | .sequence body final =>
    let written := (Token.sequence body final).bytes.take (room - dest.offset - 1)
    theme.append room (dest.write written).terminate (theme.reapplied written)

/-- The rounds of the loop while the array is not full. -/
def emitAll (theme : Theme) (room : Nat) : Dest → List Token → Dest
  | dest, [] => dest
  | dest, token :: rest => if room - 1 ≤ dest.offset then dest else emitAll theme room (emit theme room dest token) rest

/-- This is `session_prepare_themed_output` in an array with some content. -/
def prepareThemedOutput (theme : Theme) (line cells : Bytes) : Dest :=
  if cells = [] then ⟨cells, 0⟩
  else emitAll theme cells.length (theme.append cells.length (Dest.terminate ⟨cells, 0⟩) (theme.parts true true true))
    (tokens line)

def isParameter (c : UInt8) : Bool := isDigit c ∨ c = byte ';'

def parameters (body : Bytes) : List Nat := (body.splitOnP (· = byte ';')).map digitsValue

def standardEffects (twice : Bool) : Token → List Effect
  | .plain _ => []
  | .sequence body final =>
    if final = byte 'm' ∧ body.all isParameter = true then effects twice (parameters body) else []

def Theme.defaults (theme : Theme) (twice : Bool) (token : Token) : List ThemePart :=
  theme.parts (leavesBackground (standardEffects twice token)) (leavesForeground (standardEffects twice token))
    (leavesBold (standardEffects twice token))

def Theme.set (theme : Theme) (parts : List ThemePart) : List ThemePart := parts.filter (theme.code · ≠ [])

def Survives (theme : Theme) (twice : Bool) (line : Bytes) : Prop :=
  ∀ token ∈ tokens line, theme.set (theme.reapplied token.bytes) = theme.set (theme.defaults twice token)

/-- The numbers of a body as `strtol` reads them, if it is made of these and of semicolons. -/
def numbers (body : Bytes) : Option (List Int) :=
  match body with
  | [] => some []
  | c :: rest =>
    if c = byte ';' then numbers rest
    else
      match _read : readNumber (c :: rest) with
      | none => none
      | some (value, behind) => (numbers behind).map (value :: ·)
  termination_by body.length
  decreasing_by
    · exact Nat.lt_succ_self _
    · exact behindNumber_length _read

/-- A body tells what it resets. In an SGR sequence a number that resets a part is written, or nothing is, exactly
when the sequence leaves the part at its default. Anything else is made of numbers that reset nothing. -/
def Clear (twice : Bool) (resets : List Nat) (leaves : List Effect → Bool) (body : Bytes) : Prop :=
  if body.all isParameter = true then
    (body = [] ∨ ∃ digits ∈ segments (byte ';') body, digitsValue digits ∈ resets) ↔
      leaves (effects twice (parameters body))
  else ∃ values, numbers body = some values ∧ ∀ value ∈ values, ∀ reset ∈ resets, value ≠ (reset : Int)

def ClearToken (theme : Theme) (twice : Bool) : Token → Prop
  | .plain _ => True
  | .sequence body final => final = byte 'm' →
      (theme.bg ≠ [] → Clear twice [0, 49] leavesBackground body) ∧
      (theme.fg ≠ [] → Clear twice [0, 39] leavesForeground body) ∧
      (theme.isBold → Clear twice [0, 21, 22] leavesBold body)

section Scan

variable {resets : Resets} {body rest behind : Bytes} {values : List Int} {value : Int} {c : UInt8}

@[simp] theorem numbers_nil : numbers [] = some [] := by
  rw [numbers]

@[simp] theorem numbers_semicolon : numbers (byte ';' :: rest) = numbers rest := by
  rw [numbers, if_pos rfl]

theorem numbers_junk (other : c ≠ byte ';') (junk : readNumber (c :: rest) = none) : numbers (c :: rest) = none := by
  rw [numbers, if_neg other]
  split
  · rfl
  next read => rw [junk] at read; cases read

theorem numbers_number (other : c ≠ byte ';') (read : readNumber (c :: rest) = some (value, behind)) :
    numbers (c :: rest) = (numbers behind).map (value :: ·) := by
  rw [numbers, if_neg other]
  split
  next junk => rw [junk] at read; cases read
  next again =>
    rw [read] at again
    cases again
    rfl

/-- The loop stops with everything at a zero and at what is no number, and notes the other numbers. -/
theorem scanParameters_eq (resets : Resets) (body : Bytes) : scanParameters resets body =
    match numbers body with
    | none => .all
    | some values => if 0 ∈ values then .all else values.foldl Resets.note resets := by
  fun_induction scanParameters resets body with
  | case1 => simp
  | case2 resets rest ih => simp [ih]
  | case3 resets c rest other junk => simp [numbers_junk other junk]
  | case4 resets c rest other behind read =>
    rw [numbers_number other read]
    cases numbers behind <;> simp
  | case5 resets c rest other value behind read nonzero ih =>
    rw [ih, numbers_number other read]
    cases numbers behind with
    | none => rfl
    | some => simp [Ne.symm nonzero]

theorem noted_fg : (values.foldl Resets.note resets).fg = (resets.fg || decide (39 ∈ values)) := by
  induction values generalizing resets with
  | nil => simp
  | cons value values ih => simp [ih, Resets.note, Bool.or_assoc, eq_comm]

theorem noted_bg : (values.foldl Resets.note resets).bg = (resets.bg || decide (49 ∈ values)) := by
  induction values generalizing resets with
  | nil => simp
  | cons value values ih => simp [ih, Resets.note, Bool.or_assoc, eq_comm]

theorem noted_bold : (values.foldl Resets.note resets).bold = (resets.bold || decide (21 ∈ values ∨ 22 ∈ values)) := by
  induction values generalizing resets with
  | nil => simp
  | cons value values ih =>
    rw [foldl_cons]
    simp only [Resets.note]
    grind

/-- The text behind digits that `strtol` reads. -/
theorem readNumber_digits {digits : Bytes} (all : ∀ c ∈ digits, isDigit c = true) (nonEmpty : digits ≠ [])
    (stops : ∀ c, rest.head? = some c → isDigit c = false) :
    readNumber (digits ++ rest) = some (min (digitsValue digits : Int) (2 ^ 63 - 1), rest) := by
  have run := takeWhile_isDigit all stops
  obtain ⟨d, digits, rfl⟩ := exists_cons_of_ne_nil nonEmpty
  obtain ⟨notSpace, notMinus, notPlus⟩ := isDigit_plain (all d mem_cons_self)
  have front : ((d :: digits) ++ rest).dropWhile isSpace = d :: (digits ++ rest) := by
    rw [cons_append, dropWhile_cons_of_neg (by simp [notSpace])]
  have ends : (d :: (digits ++ rest)).dropWhile isDigit = rest := by
    rw [← cons_append, dropWhile_append_of_pos all]
    cases rest with
    | nil => rfl
    | cons c => rw [dropWhile_cons_of_neg (by simp [stops c rfl])]
  rw [cons_append] at run
  simp only [readNumber, strtol, behindNumber, front, notMinus, notPlus, or_self, if_false, run, ends]
  simp

/-- Parameters that do not begin with a semicolon begin with a number that runs to a semicolon or to the end. -/
theorem parameters_cut (standard : (c :: rest).all isParameter = true) (other : c ≠ byte ';') :
    ∃ digits behind, c :: rest = digits ++ behind ∧ digits ≠ [] ∧ (∀ c ∈ digits, isDigit c) ∧
      behind.all isParameter = true ∧ ∀ c, behind.head? = some c → c = byte ';' := by
  have whole := takeWhile_append_dropWhile (p := isDigit) (l := c :: rest)
  rw [all_eq_true] at standard
  have later : ∀ d ∈ (c :: rest).dropWhile isDigit, isParameter d = true := fun d inside =>
    standard d ((dropWhile_suffix isDigit).subset inside)
  refine ⟨_, _, whole.symm, ?_, fun d inside => mem_takeWhile_imp inside, all_eq_true.mpr later, ?_⟩
  · have first := standard c mem_cons_self
    rw [isParameter, decide_eq_true_eq] at first
    rw [takeWhile_cons_of_pos (first.resolve_right other)]
    exact cons_ne_nil _ _
  · intro d front
    have stops := head?_dropWhile_not isDigit (c :: rest)
    have first := later d (mem_of_head? front)
    rw [front] at stops
    rw [isParameter, decide_eq_true_eq] at first
    exact first.resolve_left (by simpa using stops)

theorem numbers_parameters (standard : body.all isParameter = true) :
    numbers body = some ((segments (byte ';') body).map fun digits => min (digitsValue digits : Int) (2 ^ 63 - 1)) := by
  induction length : body.length using Nat.strong_induction_on generalizing body with
  | _ n ih =>
    subst length
    cases body with
    | nil => simp
    | cons c =>
      by_cases other : c = byte ';'
      · subst other
        rw [numbers_semicolon]
        exact ih _ (Nat.lt_succ_self _) (by simpa [isParameter] using standard) rfl
      · obtain ⟨digits, behind, cut, nonEmpty, all, later, ends⟩ := parameters_cut standard other
        have plain : byte ';' ∉ digits := fun inside => absurd (all _ inside) (by decide)
        have stops : ∀ d, behind.head? = some d → isDigit d = false := by
          intro d front
          rw [ends d front]
          rfl
        have read := readNumber_digits all nonEmpty stops
        have shorter := congrArg length cut
        have some := length_pos_of_ne_nil nonEmpty
        rw [length_append] at shorter
        rw [← cut] at read
        rw [numbers_number other read, ih behind.length (by omega) later rfl, cut,
          segments_part nonEmpty plain ends]
        simp

theorem mem_saturated {parts : List Bytes} {small : Nat} (bound : small < 2 ^ 63 - 1) :
    (small : Int) ∈ parts.map (fun digits => min (digitsValue digits : Int) (2 ^ 63 - 1)) ↔
      ∃ digits ∈ parts, digitsValue digits = small := by
  rw [mem_map]
  constructor
  · rintro ⟨digits, inside, same⟩
    exact ⟨digits, inside, by omega⟩
  · rintro ⟨digits, inside, same⟩
    exact ⟨digits, inside, by omega⟩

def bodyResets (body : Bytes) : Resets := if body = [] then .all else scanParameters .nothing body

theorem resets_plain (c : UInt8) : sequenceResetsTheme (Token.plain c).bytes = .nothing := by
  simp [sequenceResetsTheme, Token.bytes]

theorem resets_sequence (body : Bytes) (final : UInt8) : sequenceResetsTheme (Token.sequence body final).bytes =
    if final = byte 'm' then bodyResets body else .nothing := by
  have last : (Token.sequence body final).bytes.getLast? = some final := by
    rw [Token.bytes, getLast?_concat]
  rw [sequenceResetsTheme, last]
  by_cases ends : final = byte 'm'
  · simp [Token.bytes, bodyResets]
  · simp [ends]

def Chooses (resets : List Nat) (body : Bytes) : Prop :=
  body = [] ∨ ∀ values, numbers body = some values → ∃ reset ∈ resets, (reset : Int) ∈ values

theorem bodyResets_fg : (bodyResets body).fg ↔ Chooses [0, 39] body := by
  rw [bodyResets, Chooses, scanParameters_eq]
  by_cases empty : body = []
  · simp [empty, Resets.all]
  · cases read : numbers body with
    | none => simp [Resets.all]
    | some values => by_cases zero : (0 : Int) ∈ values <;> simp [empty, Resets.all, Resets.nothing, zero, noted_fg]

theorem bodyResets_bg : (bodyResets body).bg ↔ Chooses [0, 49] body := by
  rw [bodyResets, Chooses, scanParameters_eq]
  by_cases empty : body = []
  · simp [empty, Resets.all]
  · cases read : numbers body with
    | none => simp [Resets.all]
    | some values => by_cases zero : (0 : Int) ∈ values <;> simp [empty, Resets.all, Resets.nothing, zero, noted_bg]

theorem bodyResets_bold : (bodyResets body).bold ↔ Chooses [0, 21, 22] body := by
  rw [bodyResets, Chooses, scanParameters_eq]
  by_cases empty : body = []
  · simp [empty, Resets.all]
  · cases read : numbers body with
    | none => simp [Resets.all]
    | some values => by_cases zero : (0 : Int) ∈ values <;> simp [empty, Resets.all, Resets.nothing, zero, noted_bold]

end Scan

section Agreement

variable {theme : Theme} {body : Bytes} {resets : List Nat} {leaves : List Effect → Bool} {chosen twice : Bool}

/-- In an SGR sequence the numbers are those of the parameters that are not empty. -/
theorem chooses_parameters (standard : body.all isParameter = true) (small : ∀ reset ∈ resets, reset < 2 ^ 63 - 1) :
    Chooses resets body ↔ body = [] ∨ ∃ digits ∈ segments (byte ';') body, digitsValue digits ∈ resets := by
  rw [Chooses, numbers_parameters standard]
  refine or_congr_right ?_
  constructor
  · intro chooses
    obtain ⟨reset, inside, read⟩ := chooses _ rfl
    obtain ⟨digits, part, rfl⟩ := (mem_saturated (small reset inside)).mp read
    exact ⟨digits, part, inside⟩
  · rintro ⟨digits, part, inside⟩ values read
    obtain rfl := Option.some_inj.mp read
    exact ⟨_, inside, (mem_saturated (small _ inside)).mpr ⟨digits, part, rfl⟩⟩

theorem agrees_iff (small : ∀ reset ∈ resets, reset < 2 ^ 63 - 1) (none : leaves [] = false)
    (chooses : chosen ↔ Chooses resets body) :
    chosen = leaves (standardEffects twice (.sequence body (byte 'm'))) ↔ Clear twice resets leaves body := by
  rw [Bool.eq_iff_iff, chooses, Clear, standardEffects]
  by_cases standard : body.all isParameter = true
  · rw [if_pos ⟨rfl, standard⟩, if_pos standard, chooses_parameters standard small]
  · have present : body ≠ [] := fun empty => standard (empty ▸ rfl)
    rw [Chooses]
    grind

theorem set_parts_inj {bg fg bold bg' fg' bold' : Bool} :
    theme.set (theme.parts bg fg bold) = theme.set (theme.parts bg' fg' bold') ↔
      (theme.bg ≠ [] → bg = bg') ∧ (theme.fg ≠ [] → fg = fg') ∧ (theme.isBold → bold = bold') := by
  have written : ansiBold ≠ [] := cons_ne_nil _ _
  cases isBold : theme.isBold <;> by_cases bgSet : theme.bg = [] <;> by_cases fgSet : theme.fg = [] <;>
    revert bg fg bold bg' fg' bold' <;> simp [Theme.set, Theme.parts, Theme.code, isBold, bgSet, fgSet, written]

/-- The theme is applied again where it should be after a token that is clear, and after no other. -/
theorem reapplied_iff (theme : Theme) (twice : Bool) (token : Token) :
    theme.set (theme.reapplied token.bytes) = theme.set (theme.defaults twice token) ↔
      ClearToken theme twice token := by
  rw [Theme.reapplied, Theme.defaults, set_parts_inj]
  cases token with
  | plain =>
    rw [resets_plain, ClearToken]
    simp [standardEffects, Resets.nothing, leavesBackground, leavesForeground, leavesBold]
  | sequence body final =>
    rw [resets_sequence, ClearToken]
    by_cases ends : final = byte 'm'
    · subst ends
      rw [if_pos rfl, agrees_iff (by decide) rfl bodyResets_bg, agrees_iff (by decide) rfl bodyResets_fg,
        agrees_iff (by decide) rfl bodyResets_bold]
      simp
    · rw [standardEffects]
      simp [ends, Resets.nothing, leavesBackground, leavesForeground, leavesBold]

end Agreement

end SshChatter.Output
