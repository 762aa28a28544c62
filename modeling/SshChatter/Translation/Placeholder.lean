import SshChatter.Lib.CString
import SshChatter.Lib.TokenText

namespace SshChatter.Translation
open CString TokenText

/-- The escape character. -/
def esc : UInt8 := 0x1B

def maxTranslationPlaceholders : Nat := 32

def placeholderTokenLen : Nat := 16

def placeholderSequenceLen : Nat := 64

structure Placeholder where
  placeholder : Bytes
  sequence : Bytes
  deriving DecidableEq

/-- The parameters and the final byte of a control sequence, and what follows. An unterminated one reaches to
the end. -/
def controlTail : Bytes → Bytes × Bytes
  | [] => ([], [])
  | c :: rest =>
    if byte '@' ≤ c ∧ c ≤ byte '~' then ([c], rest)
    else (c :: (controlTail rest).1, (controlTail rest).2)

def escapeSequence : Bytes → Bytes × Bytes
  | [] => ([esc], [])
  | c :: rest =>
    if c = byte '[' then (esc :: c :: (controlTail rest).1, (controlTail rest).2) else ([esc, c], rest)

def token (number : Nat) : Bytes := str "[[ANSI" ++ decimal number ++ str "]]"

variable (text : Bytes)

theorem controlTail_append : (controlTail text).1 ++ (controlTail text).2 = text := by
  induction text with
  | nil => rfl
  | cons c rest inductionHypothesis =>
    rw [controlTail]
    split_ifs
    · rfl
    · rw [List.cons_append, inductionHypothesis]

theorem escapeSequence_append : (escapeSequence text).1 ++ (escapeSequence text).2 = esc :: text := by
  cases text with
  | nil => rfl
  | cons =>
    rw [escapeSequence]
    split_ifs
    · rw [List.cons_append, List.cons_append, controlTail_append]
    · rfl

theorem escapeSequence_cons : ∃ tail, (escapeSequence text).1 = esc :: tail := by
  cases text with
  | nil => exact ⟨[], rfl⟩
  | cons =>
    rw [escapeSequence]
    split_ifs <;> exact ⟨_, rfl⟩

theorem escapeSequence_shorter : (escapeSequence text).2.length ≤ text.length := by
  obtain ⟨tail, shape⟩ := escapeSequence_cons text
  have whole := congrArg List.length (escapeSequence_append text)
  rw [shape] at whole
  simp only [List.length_append, List.length_cons] at whole
  omega

/-- The loop of `translation_prepare_text`: what it has written, and the placeholders that it has stored. It has no
result when the function returns false. -/
def prepareLoop (sanitizedLen : Nat) (message sanitized : Bytes) (stored : List Placeholder) :
    Option (Bytes × List Placeholder) :=
  match message with
  | [] => if sanitizedLen ≤ sanitized.length then none else some (sanitized, stored)
  | ch :: rest =>
    if ch = esc then
      if maxTranslationPlaceholders ≤ stored.length then none
      else
        let sequence := (escapeSequence rest).1
        let placeholder := token stored.length
        if placeholderSequenceLen ≤ sequence.length then none
        else if placeholderTokenLen ≤ placeholder.length then none
        else if sanitizedLen ≤ sanitized.length + placeholder.length then none
        else prepareLoop sanitizedLen (escapeSequence rest).2 (sanitized ++ placeholder)
          (stored ++ [⟨placeholder, sequence⟩])
    else if sanitizedLen ≤ sanitized.length + 1 then none
    else prepareLoop sanitizedLen rest (sanitized ++ [ch]) stored
  termination_by message.length
  decreasing_by
    · exact Nat.lt_succ_of_le (escapeSequence_shorter rest)
    · exact Nat.lt_succ_self _

def prepareText (message : Bytes) (sanitizedLen : Nat) : Option (Bytes × List Placeholder) :=
  if sanitizedLen = 0 then none else prepareLoop sanitizedLen message [] []

def placeholderAt (placeholders : List Placeholder) (translated : Bytes) : Option Placeholder :=
  placeholders.find? fun entry => entry.placeholder ≠ [] ∧ entry.placeholder <+: translated

/-- The loop of `translation_restore_text`. It has no result when the function returns false. -/
def restoreLoop (outputLen : Nat) (placeholders : List Placeholder) (translated output : Bytes) : Option Bytes :=
  match translated with
  | [] => some output
  | c :: rest =>
    match _found : placeholderAt placeholders (c :: rest) with
    | some entry =>
      if outputLen ≤ output.length + entry.sequence.length then none
      else restoreLoop outputLen placeholders ((c :: rest).drop entry.placeholder.length) (output ++ entry.sequence)
    | none => if outputLen ≤ output.length + 1 then none else restoreLoop outputLen placeholders rest (output ++ [c])
  termination_by translated.length
  decreasing_by
    · have passed := List.find?_some _found
      rw [decide_eq_true_eq] at passed
      have positive := List.length_pos_iff.mpr passed.1
      rw [List.length_drop, List.length_cons]
      omega
    · exact Nat.lt_succ_self _

def restoreText (translated : Bytes) (outputLen : Nat) (placeholders : List Placeholder) : Option Bytes :=
  if outputLen = 0 then none else restoreLoop outputLen placeholders translated []

/-- The plain text in front of the first escape sequence, and each sequence with the plain text behind it. -/
def splitMessage (message : Bytes) : Bytes × List (Bytes × Bytes) :=
  match message with
  | [] => ([], [])
  | ch :: rest =>
    if ch = esc then
      let later := splitMessage (escapeSequence rest).2
      ([], ((escapeSequence rest).1, later.1) :: later.2)
    else
      let later := splitMessage rest
      (ch :: later.1, later.2)
  termination_by message.length
  decreasing_by
    · exact Nat.lt_succ_of_le (escapeSequence_shorter rest)
    · exact Nat.lt_succ_self _

def TokenFree (message : Bytes) : Prop :=
  ∀ number < (splitMessage message).2.length,
    ¬ token number <:+: (splitMessage message).1 ∧ ∀ part ∈ (splitMessage message).2, ¬ token number <:+: part.2

def Placeholder.entry (placeholder : Placeholder) : Bytes × Bytes := (placeholder.placeholder, placeholder.sequence)

/-- The sequences of a message with their tokens, from a number on, and the plain text behind each. -/
def partsFrom (number : Nat) (parts : List (Bytes × Bytes)) : List ((Bytes × Bytes) × Bytes) :=
  parts.mapIdx fun index part => ((token (number + index), part.1), part.2)

section Prepare

variable {sanitizedLen : Nat}

theorem partsFrom_cons (number : Nat) (part : Bytes × Bytes) (parts : List (Bytes × Bytes)) :
    partsFrom number (part :: parts) = ((token number, part.1), part.2) :: partsFrom (number + 1) parts := by
  rw [partsFrom, List.mapIdx_cons]
  congr 2
  funext index part
  rw [add_right_comm, add_assoc]

theorem splitMessage_esc (rest : Bytes) : splitMessage (esc :: rest) =
    ([], ((escapeSequence rest).1, (splitMessage (escapeSequence rest).2).1) ::
      (splitMessage (escapeSequence rest).2).2) := by
  rw [splitMessage, if_pos rfl]

theorem splitMessage_plain {ch : UInt8} (plain : ch ≠ esc) (rest : Bytes) :
    splitMessage (ch :: rest) = (ch :: (splitMessage rest).1, (splitMessage rest).2) := by
  rw [splitMessage, if_neg plain]

theorem messageInduction {motive : Bytes → Prop} (nil : motive [])
    (sequence : ∀ rest, motive (escapeSequence rest).2 → motive (esc :: rest))
    (plain : ∀ ch rest, ch ≠ esc → motive rest → motive (ch :: rest)) (message : Bytes) : motive message := by
  induction message using splitMessage.induct with
  | case1 => exact nil
  | case2 rest later => exact sequence rest later
  | case3 ch rest other later => exact plain ch rest other later

/-- The plain text and the sequences make up the message. -/
theorem weave_splitMessage (number : Nat) (message : Bytes) :
    weave Prod.snd (splitMessage message).1 (partsFrom number (splitMessage message).2) = message := by
  induction message using messageInduction generalizing number with
  | nil => rw [splitMessage]; rfl
  | sequence rest inductionHypothesis =>
    have later := inductionHypothesis (number + 1)
    rw [weave] at later
    rw [splitMessage_esc, weave, partsFrom_cons, List.flatMap_cons, List.append_assoc, later, escapeSequence_append,
      List.nil_append]
  | plain ch rest other inductionHypothesis =>
    have later := inductionHypothesis number
    rw [weave] at later
    rw [splitMessage_plain other, weave, List.cons_append, later]

/-- What is prepared is the message with tokens in place of its sequences, and the sequences are stored in order. -/
theorem prepareLoop_eq {message sanitized : Bytes} {stored : List Placeholder} {result : Bytes × List Placeholder}
    (prepared : prepareLoop sanitizedLen message sanitized stored = some result) :
    result.1 = sanitized ++ weave Prod.fst (splitMessage message).1 (partsFrom stored.length (splitMessage message).2) ∧
      result.2.map Placeholder.entry =
        stored.map Placeholder.entry ++ (partsFrom stored.length (splitMessage message).2).map Prod.fst := by
  induction message using messageInduction generalizing sanitized stored with
  | nil =>
    rw [prepareLoop] at prepared
    split_ifs at prepared
    cases prepared
    rw [splitMessage]
    exact ⟨(List.append_nil _).symm, (List.append_nil _).symm⟩
  | sequence rest inductionHypothesis =>
    rw [prepareLoop, if_pos rfl] at prepared
    dsimp only at prepared
    split_ifs at prepared
    obtain ⟨text, entries⟩ := inductionHypothesis prepared
    rw [List.length_append, List.length_singleton] at text entries
    rw [splitMessage_esc, partsFrom_cons]
    constructor
    · rw [text, weave, weave, List.flatMap_cons, List.append_assoc, List.append_assoc, List.nil_append]
    · rw [entries, List.map_append, List.append_assoc]
      rfl
  | plain ch rest other inductionHypothesis =>
    rw [prepareLoop, if_neg other] at prepared
    split_ifs at prepared
    obtain ⟨text, entries⟩ := inductionHypothesis prepared
    rw [splitMessage_plain other]
    refine ⟨?_, entries⟩
    rw [text, List.append_assoc]
    rfl

end Prepare

section Restore

variable {outputLen : Nat} {placeholders : List Placeholder}

theorem lookup_entries (placeholders : List Placeholder) (text : Bytes) :
    lookup (placeholders.map Placeholder.entry) text = (placeholderAt placeholders text).map Placeholder.entry := by
  rw [lookup, List.find?_map]
  rfl

theorem restoreLoop_found {c : UInt8} {rest output : Bytes} {entry : Placeholder}
    (found : placeholderAt placeholders (c :: rest) = some entry) :
    restoreLoop outputLen placeholders (c :: rest) output =
      if outputLen ≤ output.length + entry.sequence.length then none
      else restoreLoop outputLen placeholders ((c :: rest).drop entry.placeholder.length)
        (output ++ entry.sequence) := by
  rw [restoreLoop]
  split
  · rename_i entry' found'
    rw [found] at found'
    rw [Option.some.inj found']
  · rename_i found'
    rw [found] at found'
    cases found'

theorem restoreLoop_plain {c : UInt8} {rest output : Bytes} (found : placeholderAt placeholders (c :: rest) = none) :
    restoreLoop outputLen placeholders (c :: rest) output =
      if outputLen ≤ output.length + 1 then none else restoreLoop outputLen placeholders rest (output ++ [c]) := by
  rw [restoreLoop]
  split
  · rename_i entry' found'
    rw [found] at found'
    cases found'
  · rfl

/-- The loop replaces the tokens by their sequences as long as the output has room. -/
theorem restoreLoop_eq (translated output : Bytes) (room : output.length < outputLen) :
    restoreLoop outputLen placeholders translated output =
      if (output ++ replace (placeholders.map Placeholder.entry) translated).length < outputLen
      then some (output ++ replace (placeholders.map Placeholder.entry) translated) else none := by
  induction size : translated.length using Nat.strong_induction_on generalizing translated output with
  | _ size inductionHypothesis =>
    subst size
    cases translated with
    | nil => rw [restoreLoop, replace, List.append_nil, if_pos room]
    | cons c rest =>
      have same := lookup_entries placeholders (c :: rest)
      cases found : placeholderAt placeholders (c :: rest) with
      | some entry =>
        rw [found] at same
        have present := List.length_pos_iff.mpr (lookup_some same).2.1
        have shorter : ((c :: rest).drop entry.placeholder.length).length < (c :: rest).length := by
          rw [List.length_drop]
          change 0 < entry.placeholder.length at present
          rw [List.length_cons]
          omega
        rw [restoreLoop_found found, replace_found same, ← List.append_assoc]
        by_cases full : outputLen ≤ output.length + entry.sequence.length
        · rw [if_pos full, if_neg]
          simp only [Placeholder.entry, List.length_append]
          omega
        · rw [if_neg full]
          exact inductionHypothesis _ shorter _ _ (by rw [List.length_append]; omega) rfl
      | none =>
        rw [found] at same
        have later := inductionHypothesis rest.length (Nat.lt_succ_self _) rest (output ++ [c])
        rw [List.append_assoc] at later
        rw [restoreLoop_plain found, replace_plain same]
        by_cases full : outputLen ≤ output.length + 1
        · rw [if_pos full, if_neg]
          simp only [List.length_append, List.length_cons]
          omega
        · rw [if_neg full]
          exact later (by rw [List.length_append, List.length_singleton]; omega) rfl

end Restore

section Tokens

def tokenBody (number : Nat) : Bytes := str "ANSI" ++ decimal number ++ str "]]"

theorem token_eq (number : Nat) : token number = byte '[' :: byte '[' :: tokenBody number := rfl

theorem tokenBody_eq (number : Nat) : tokenBody number = byte 'A' :: (str "NSI" ++ decimal number ++ str "]]") := rfl

theorem not_bracket {number : Nat} {c : UInt8} (listed : c ∈ tokenBody number) : c ≠ byte '[' := by
  rintro rfl
  rw [tokenBody, List.mem_append, List.mem_append] at listed
  rcases listed with (word | digits) | close
  · exact absurd word (by decide)
  · exact absurd (decimal_isDigit number _ digits) (by decide)
  · exact absurd close (by decide)

theorem token_prefix {number number' : Nat} {rest : Bytes} (starts : token number <+: token number' ++ rest) :
    number = number' := by
  obtain ⟨tail, same⟩ := starts
  have digits (number : Nat) (tail : Bytes) :
      ((token number ++ tail).drop 6).takeWhile isDigit = decimal number := by
    have shape : (token number ++ tail).drop 6 = decimal number ++ (byte ']' :: byte ']' :: tail) := by
      rw [token, List.append_assoc]
      rfl
    rw [shape]
    refine takeWhile_isDigit (decimal_isDigit number) fun c first => ?_
    rw [← Option.some.inj first]
    decide
  have equal := digits number tail
  rw [same, digits number' rest] at equal
  rw [← digitsValue_decimal number, ← equal, digitsValue_decimal]

theorem token_solid {number number' : Nat} {front back rest : Bytes} (cut : token number = front ++ back)
    (some' : front ≠ []) (some'' : back ≠ []) : ¬ back <+: token number' ++ rest := by
  intro starts
  obtain ⟨c, back, rfl⟩ := List.exists_cons_of_ne_nil some''
  rw [token_eq number', List.cons_append, List.cons_append, List.cons_prefix_cons] at starts
  obtain ⟨rfl, starts⟩ := starts
  rw [token_eq] at cut
  rcases front with _ | ⟨a, _ | ⟨b, front⟩⟩
  · exact some' rfl
  · obtain ⟨-, body⟩ := List.cons.inj cut
    obtain ⟨-, body⟩ := List.cons.inj body
    rw [← body, tokenBody_eq, List.cons_prefix_cons] at starts
    exact absurd starts.1 (by decide)
  · obtain ⟨-, body⟩ := List.cons.inj cut
    obtain ⟨-, body⟩ := List.cons.inj body
    have listed : byte '[' ∈ tokenBody number := by
      rw [body]
      simp
    exact not_bracket listed rfl

variable (message : Bytes)

theorem splitMessage_sequence : ∀ part ∈ (splitMessage message).2, ∃ tail, part.1 = esc :: tail := by
  induction message using messageInduction with
  | nil => simp [splitMessage]
  | sequence rest inductionHypothesis =>
    rw [splitMessage_esc]
    exact List.forall_mem_cons.mpr ⟨escapeSequence_cons rest, inductionHypothesis⟩
  | plain ch rest other inductionHypothesis =>
    rw [splitMessage_plain other]
    exact inductionHypothesis

def entriesOf (message : Bytes) : List (Bytes × Bytes) := (partsFrom 0 (splitMessage message).2).map Prod.fst

theorem mem_entriesOf {message : Bytes} {entry : Bytes × Bytes} : entry ∈ entriesOf message ↔
    ∃ number, ∃ inside : number < (splitMessage message).2.length,
      entry = (token number, (splitMessage message).2[number].1) := by
  simp only [entriesOf, partsFrom, List.mem_map, List.mem_mapIdx, zero_add]
  constructor
  · rintro ⟨_, ⟨number, inside, rfl⟩, rfl⟩
    exact ⟨number, inside, rfl⟩
  · rintro ⟨number, inside, rfl⟩
    exact ⟨_, ⟨number, inside, rfl⟩, rfl⟩

/-- The stored placeholders can be told apart. -/
theorem apart_entriesOf : Apart (entriesOf message) := by
  constructor
  case present =>
    intro entry listed
    obtain ⟨number, inside, rfl⟩ := mem_entriesOf.mp listed
    exact List.cons_ne_nil _ _
  case unique =>
    intro entry listed entry' listed' rest starts
    obtain ⟨number, inside, rfl⟩ := mem_entriesOf.mp listed
    obtain ⟨number', inside', rfl⟩ := mem_entriesOf.mp listed'
    obtain rfl := token_prefix starts
    rfl
  case solid =>
    intro entry listed entry' listed' front back rest cut some' some''
    obtain ⟨number, inside, rfl⟩ := mem_entriesOf.mp listed
    obtain ⟨number', inside', rfl⟩ := mem_entriesOf.mp listed'
    exact token_solid cut some' some''
  case marked =>
    intro entry listed entry' listed'
    obtain ⟨number, inside, rfl⟩ := mem_entriesOf.mp listed
    obtain ⟨number', inside', rfl⟩ := mem_entriesOf.mp listed'
    obtain ⟨tail, shape⟩ := splitMessage_sequence message _ (List.getElem_mem inside)
    refine ⟨esc, tail, shape, fun tail' same => ?_⟩
    rw [token_eq, List.cons.injEq] at same
    exact absurd same.1 (by decide)

theorem tokenFree_iff : TokenFree message ↔
    Clean (entriesOf message) (splitMessage message).1 ∧
      ∀ part ∈ partsFrom 0 (splitMessage message).2, Clean (entriesOf message) part.2 := by
  have clean_iff (run : Bytes) : Clean (entriesOf message) run ↔
      ∀ number < (splitMessage message).2.length, ¬ token number <:+: run := by
    constructor
    · exact fun clean number inside => clean _ (mem_entriesOf.mpr ⟨number, inside, rfl⟩)
    · rintro free entry listed
      obtain ⟨number, inside, rfl⟩ := mem_entriesOf.mp listed
      exact free number inside
  have runs : (partsFrom 0 (splitMessage message).2).map Prod.snd = (splitMessage message).2.map Prod.snd := by
    apply List.ext_getElem <;> simp [partsFrom]
  have onRuns (good : Bytes → Prop) : (∀ part ∈ partsFrom 0 (splitMessage message).2, good part.2) ↔
      ∀ part ∈ (splitMessage message).2, good part.2 := by
    rw [← List.forall_mem_map, runs, List.forall_mem_map]
  rw [onRuns]
  simp only [clean_iff]
  exact ⟨fun free => ⟨fun number inside => (free number inside).1, fun part listed number inside =>
    (free number inside).2 part listed⟩, fun free number inside => ⟨free.1 number inside, fun part listed =>
    free.2 part listed number inside⟩⟩

end Tokens

/-- A prepared message is restored to itself in a larger output exactly when no plain text of it contains the token of
one of its own sequences. -/
theorem restoreText_prepareText_iff {message sanitized : Bytes} {sanitizedLen outputLen : Nat}
    {placeholders : List Placeholder} (prepared : prepareText message sanitizedLen = some (sanitized, placeholders))
    (room : message.length < outputLen) :
    restoreText sanitized outputLen placeholders = some message ↔ TokenFree message := by
  rw [prepareText] at prepared
  split_ifs at prepared
  obtain ⟨text, entries⟩ := prepareLoop_eq prepared
  rw [List.length_nil, List.nil_append] at text
  change placeholders.map Placeholder.entry = entriesOf message at entries
  have whole := weave_splitMessage 0 message
  have listed : ∀ part ∈ partsFrom 0 (splitMessage message).2, part.1 ∈ entriesOf message :=
    fun part listed => List.mem_map_of_mem listed
  have law := (apart_entriesOf message).replace_weave_iff (splitMessage message).1 listed
  rw [← text, whole, ← tokenFree_iff] at law
  rw [restoreText, if_neg (by omega), restoreLoop_eq _ _ (by simp; omega), entries, List.nil_append, ← law]
  constructor
  · intro restored
    split_ifs at restored
    exact Option.some.inj restored
  · intro same
    rw [same, if_pos room]

theorem restore_bold :
    restoreText (str "[[ANSI0]]hi") 64 [⟨str "[[ANSI0]]", esc :: str "[1m"⟩] = some (esc :: str "[1mhi") ∧
      TokenFree (esc :: str "[1mhi") := by
  have prepared : prepareText (esc :: str "[1mhi") 64 =
      some (str "[[ANSI0]]hi", [⟨str "[[ANSI0]]", esc :: str "[1m"⟩]) := by decide +kernel
  have restored : restoreText (str "[[ANSI0]]hi") 64 [⟨str "[[ANSI0]]", esc :: str "[1m"⟩] =
      some (esc :: str "[1mhi") := by decide +kernel
  exact ⟨restored, (restoreText_prepareText_iff prepared (by decide)).mp restored⟩

/-- A token that is typed in front of a sequence comes back as the sequence. -/
theorem restore_typed_token :
    prepareText (str "[[ANSI0]]" ++ esc :: str "[m") 64 =
        some (str "[[ANSI0]][[ANSI0]]", [⟨str "[[ANSI0]]", esc :: str "[m"⟩]) ∧
      restoreText (str "[[ANSI0]][[ANSI0]]") 64 [⟨str "[[ANSI0]]", esc :: str "[m"⟩] ≠
        some (str "[[ANSI0]]" ++ esc :: str "[m") := by
  decide +kernel

end SshChatter.Translation
