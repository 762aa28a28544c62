import SshChatter.Codepage.Utf8Validator
import SshChatter.Ddial.Protocol

namespace SshChatter.Ddial
open CString DdialProtocol Codepage Transducer List

/-- This is the loop of `ddial_mail_clean_text`, with what is written so far. -/
def mailCleanLoop (cap : Nat) : AnsiState → Bytes → Bytes → Bytes
  | _, [], out => out
  | .csi, c :: rest, out =>
    if 0x40 ≤ c ∧ c ≤ 0x7E then mailCleanLoop cap .text rest out else mailCleanLoop cap .csi rest out
  | .text, c :: rest, out =>
    if cap ≤ out.length + 1 then out
    else if c = 0x1B then
      match rest with
      | [] => out
      | d :: rest => if d = byte '[' then mailCleanLoop cap .csi rest out else mailCleanLoop cap .text rest out
    else if c = 13 ∨ c = 10 ∨ c = 9 then
      mailCleanLoop cap .text rest (if out ≠ [] ∧ out.getLast? ≠ some 32 then out ++ [32] else out)
    else if c < 0x20 ∨ c = 0x7F then mailCleanLoop cap .text rest out
    else mailCleanLoop cap .text rest (out ++ [c])

/-- The length of the sequence that `ddial_mail_clean_text` reads off a lead byte. -/
def announcedLength (lead : UInt8) : Nat :=
  if lead &&& 0xE0 = 0xC0 then 2 else if lead &&& 0xF0 = 0xE0 then 3 else if lead &&& 0xF8 = 0xF0 then 4 else 1

/-- A text that ends on a partial UTF-8 sequence loses it. -/
def dropCut (out : Bytes) : Bytes :=
  let cut := out.rdropWhile fun c => c &&& 0xC0 = 0x80
  match cut.getLast? with
  | none => out
  | some lead =>
    if lead &&& 0x80 ≠ 0 ∧ out.length - (cut.length - 1) < announcedLength lead then cut.dropLast else out

def trimSpaces (out : Bytes) : Bytes := (out.rdropWhile fun c => c = 32).dropWhile fun c => c = 32

def mailCleanText (cap : Nat) (input : Bytes) : Bool × Bytes :=
  if cap = 0 then (false, [])
  else
    let out := trimSpaces (dropCut (mailCleanLoop cap .text input []))
    (out.head?.any fun c => c ≠ 0, out)

/-- The place in the input, and whether nothing or a space was written last. -/
abbrev CleanState := Mode × Bool

/-- One byte of the loop. -/
def cleanStep : CleanState → UInt8 → CleanState × Bytes
  | (.text, blank), c =>
    if c = 0x1B then ((.escape, blank), [])
    else if c = 13 ∨ c = 10 ∨ c = 9 then if blank then ((.text, true), []) else ((.text, true), [32])
    else if c < 0x20 ∨ c = 0x7F then ((.text, blank), [])
    else ((.text, c = 32), [c])
  | (.escape, blank), c => ((if c = byte '[' then .csi else .text, blank), [])
  | (.csi, blank), c => ((if 0x40 ≤ c ∧ c ≤ 0x7E then .text else .csi, blank), [])

/-- Nothing or a space was written last. -/
def endsBlank (out : Bytes) : Bool := out = [] ∨ out.getLast? = some 32

def SplitsCharacter (cap : Nat) (input : Bytes) : Prop :=
  ∃ front c rest, input = front ++ c :: rest ∧ (final cleanStep (.text, true) front).1 = .escape ∧ 0x80 ≤ c ∧
    (output cleanStep (.text, true) front).length + 1 < cap

structure MailCleaned (cap : Nat) (input : Bytes) : Prop where
  valid : Encoded (mailCleanText cap input).2
  short : (mailCleanText cap input).2.length < cap
  visible : ∀ c ∈ (mailCleanText cap input).2, 0x20 ≤ c ∧ c ≠ 0x1B ∧ c ≠ 0x7F
  begins : (mailCleanText cap input).2.head? ≠ some 32
  ends : (mailCleanText cap input).2.getLast? ≠ some 32
  answers : (mailCleanText cap input).1 ↔ (mailCleanText cap input).2 ≠ []
  again : (mailCleanText cap (mailCleanText cap input).2).2 = (mailCleanText cap input).2

section Loop

variable {cap : Nat} {out src : Bytes} {c : UInt8}

theorem endsBlank_append (out : Bytes) (c : UInt8) : endsBlank (out ++ [c]) = decide (c = 32) := by
  simp [endsBlank]

/-- The loop writes what the machine writes, as far as the buffer goes. -/
theorem mailCleanLoop_eq (cap : Nat) (state : AnsiState) (src out : Bytes) (fits : out.length + 1 ≤ cap) :
    mailCleanLoop cap state src out =
      (out ++ output cleanStep (match state with | .text => .text | .csi => .csi, endsBlank out) src).take
        (cap - 1) := by
  have all : out.take (cap - 1) = out := take_of_length_le (by omega)
  fun_induction mailCleanLoop cap state src out with
  | case1 => simp [all]
  | case2 c rest out ends ih => simpa [cleanStep, ends] using ih fits all
  | case3 c rest out inside ih => simpa [cleanStep, inside] using ih fits all
  | case4 =>
      rw [take_append_of_le_length (by omega), all]
  | case5 => simp [cleanStep, all]
  | case6 out room rest ih => simpa [cleanStep] using ih fits all
  | case7 out room d rest other ih => simpa [cleanStep, other] using ih fits all
  | case8 c rest out room notEscape breaks ih =>
    have shorter : out.length + 1 + 1 ≤ cap := by omega
    by_cases solid : out ≠ [] ∧ out.getLast? ≠ some 32
    · have blank : endsBlank out = false := by simpa [endsBlank] using solid
      have longer : (out ++ [32]).length + 1 ≤ cap := by simpa using shorter
      rw [if_pos solid] at ih ⊢
      simpa [cleanStep, notEscape, breaks, blank, endsBlank_append] using
        ih longer (take_of_length_le (by omega))
    · have blank : endsBlank out := by
        rw [not_and_or] at solid
        simpa [endsBlank] using solid
      rw [if_neg solid] at ih ⊢
      simpa [cleanStep, notEscape, breaks, blank] using ih fits all
  | case9 c rest out room notEscape noBreak control ih =>
    simpa [cleanStep, notEscape, noBreak, control] using ih fits all
  | case10 c rest out room notEscape noBreak printed ih =>
    have longer : (out ++ [c]).length + 1 ≤ cap := by
      rw [length_append, length_singleton]
      omega
    simpa [cleanStep, notEscape, noBreak, printed, endsBlank_append] using
      ih longer (take_of_length_le (by omega))

end Loop

section Bytes

variable {c lead : UInt8}

theorem tail_iff (c : UInt8) : c &&& 0xC0 = 0x80 ↔ Tail c := by
  have all : ∀ bits : BitVec 8, UInt8.ofBitVec bits &&& 0xC0 = 0x80 ↔
      0x80 ≤ (UInt8.ofBitVec bits).toNat ∧ (UInt8.ofBitVec bits).toNat ≤ 0xBF := by decide +kernel
  exact all c.toBitVec

theorem high_iff (c : UInt8) : c &&& 0x80 ≠ 0 ↔ 0x80 ≤ c.toNat := by
  have all : ∀ bits : BitVec 8, UInt8.ofBitVec bits &&& 0x80 ≠ 0 ↔ 0x80 ≤ (UInt8.ofBitVec bits).toNat := by
    decide +kernel
  exact all c.toBitVec

theorem announcedLength_eq (lead : UInt8) :
    (0xC0 ≤ lead.toNat ∧ lead.toNat ≤ 0xDF → announcedLength lead = 2) ∧
      (0xE0 ≤ lead.toNat ∧ lead.toNat ≤ 0xEF → announcedLength lead = 3) ∧
        (0xF0 ≤ lead.toNat ∧ lead.toNat ≤ 0xF7 → announcedLength lead = 4) := by
  have all : ∀ bits : BitVec 8,
      (0xC0 ≤ (UInt8.ofBitVec bits).toNat ∧ (UInt8.ofBitVec bits).toNat ≤ 0xDF →
        announcedLength (UInt8.ofBitVec bits) = 2) ∧
      (0xE0 ≤ (UInt8.ofBitVec bits).toNat ∧ (UInt8.ofBitVec bits).toNat ≤ 0xEF →
        announcedLength (UInt8.ofBitVec bits) = 3) ∧
      (0xF0 ≤ (UInt8.ofBitVec bits).toNat ∧ (UInt8.ofBitVec bits).toNat ≤ 0xF7 →
        announcedLength (UInt8.ofBitVec bits) = 4) := by decide +kernel
  exact all lead.toBitVec

theorem not_tail_low (low : c.toNat < 0x80) : ¬ Tail c := fun tail => absurd tail.1 (by omega)

theorem not_tail_lead (high : 0xC0 ≤ c.toNat) : ¬ Tail c := fun tail => absurd tail.2 (by omega)

/-- A UTF-8 word is an ASCII byte, or a lead byte and as many tails as it announces. -/
theorem word_shape {word : Bytes} (found : LeadCode.Word Inside tailBounds word) :
    (∃ a, a.toNat < 0x80 ∧ word = [a]) ∨ ∃ lead tails, word = lead :: tails ∧ 0xC0 ≤ lead.toNat ∧ tails ≠ [] ∧
      (∀ c ∈ tails, Tail c) ∧ announcedLength lead = tails.length + 1 := by
  cases pattern_of_word found with
  | @one a low => exact .inl ⟨a, low, rfl⟩
  | @two a b low high tail =>
    exact .inr ⟨a, [b], rfl, by omega, by simp, by simp [tail], (announcedLength_eq a).1 ⟨by omega, by omega⟩⟩
  | @three a b c low high tail _ _ tail' =>
    exact .inr ⟨a, [b, c], rfl, by omega, by simp, by simp [tail, tail'],
      (announcedLength_eq a).2.1 ⟨by omega, by omega⟩⟩
  | @four a b c d low high tail _ _ tail' tail'' =>
    exact .inr ⟨a, [b, c, d], rfl, by omega, by simp, by simp [tail, tail', tail''],
      (announcedLength_eq a).2.2 ⟨by omega, by omega⟩⟩

theorem word_ascii {a : UInt8} (low : a.toNat < 0x80) : LeadCode.Word Inside tailBounds [a] := (Pattern.one low).word

theorem not_framed_tail {rest : Bytes} (tail : Tail c) : ¬ Utf8Framed (c :: rest) := by
  obtain ⟨low, high⟩ := tail
  apply LeadCode.not_framed_cons
  rw [tailBounds_eq, if_neg (by omega), if_neg (by omega), if_neg (by omega), if_neg (by omega)]

end Bytes

section Repair

variable {front tails rest whole : Bytes} {lead c : UInt8}

theorem rdropWhile_tails (solid : ¬ Tail lead) (all : ∀ c ∈ tails, Tail c) :
    (front ++ lead :: tails).rdropWhile (fun c => c &&& 0xC0 = 0x80) = front ++ [lead] := by
  induction tails using reverseRecOn with
  | nil => exact rdropWhile_concat_neg _ _ _ (by simpa [tail_iff] using solid)
  | append_singleton tails tail ih =>
    have last : Tail tail := all tail (by simp)
    rw [← cons_append, ← append_assoc, rdropWhile_concat_pos _ _ _ (by simpa [tail_iff] using last)]
    exact ih fun c member => all c (mem_append_left _ member)

theorem dropCut_lead (solid : ¬ Tail lead) (all : ∀ c ∈ tails, Tail c) : dropCut (front ++ lead :: tails) =
    if 0x80 ≤ lead.toNat ∧ tails.length + 1 < announcedLength lead then front else front ++ lead :: tails := by
  have count : (front ++ lead :: tails).length - ((front ++ [lead]).length - 1) = tails.length + 1 := by
    simp only [length_append, length_cons, length_nil]
    omega
  rw [dropCut, rdropWhile_tails solid all]
  simp only [getLast?_concat, count, high_iff, dropLast_concat]

theorem dropCut_framed (framed : Utf8Framed whole) : dropCut whole = whole := by
  by_cases empty : whole = []
  · rw [empty]
    rfl
  obtain ⟨front, word, rfl, -, found⟩ := framed.last empty
  rcases word_shape found with ⟨a, low, rfl⟩ | ⟨lead, tails, rfl, high, -, all, announced⟩
  · rw [dropCut_lead (not_tail_low low) (by simp), if_neg (by omega)]
  · rw [dropCut_lead (not_tail_lead high) all, if_neg (by omega)]

/-- The front of a framed text becomes framed. -/
theorem dropCut_take (framed : Utf8Framed whole) (size : Nat) :
    Utf8Framed (dropCut (whole.take size)) ∧ dropCut (whole.take size) <+: whole.take size := by
  obtain ⟨kept, cut, split, framed', short⟩ := framed.take size
  rw [split]
  rcases short with rfl | ⟨word, count, found, positive, less, rfl⟩
  · rw [append_nil, dropCut_framed framed']
    exact ⟨framed', prefix_rfl⟩
  · rcases word_shape found with ⟨a, low, rfl⟩ | ⟨lead, tails, rfl, high, -, all, announced⟩
    · rw [length_singleton] at less
      omega
    · cases count with
      | zero => omega
      | succ count =>
        have front : ∀ c ∈ tails.take count, Tail c := fun c member => all c (mem_of_mem_take member)
        rw [length_cons] at less
        have few : (tails.take count).length + 1 < announcedLength lead := by
          rw [length_take]
          omega
        rw [take_succ_cons, dropCut_lead (not_tail_lead high) front, if_pos ⟨by omega, few⟩]
        exact ⟨framed', prefix_append _ _⟩

theorem exists_last_solid (rest : Bytes) :
    (∀ c ∈ rest, Tail c) ∨ ∃ front lead tails, rest = front ++ lead :: tails ∧ ¬ Tail lead ∧ ∀ c ∈ tails, Tail c := by
  induction rest with
  | nil => exact .inl (by simp)
  | cons c rest ih =>
    rcases ih with all | ⟨front, lead, tails, rfl, solid, all⟩
    · by_cases tail : Tail c
      · exact .inl (forall_mem_cons.mpr ⟨tail, all⟩)
      · exact .inr ⟨[], c, rest, rfl, tail, all⟩
    · exact .inr ⟨c :: front, lead, tails, rfl, solid, all⟩

/-- A tail that stands behind a framed text is not lost. -/
theorem dropCut_stray (framed : Utf8Framed whole) (tail : Tail c) (rest : Bytes) :
    ∃ rest', dropCut (whole ++ c :: rest) = whole ++ c :: rest' := by
  rcases exists_last_solid rest with all | ⟨front, lead, tails, rfl, solid, all⟩
  · refine ⟨rest, ?_⟩
    have stray : ∀ d ∈ c :: rest, Tail d := forall_mem_cons.mpr ⟨tail, all⟩
    by_cases empty : whole = []
    · have nothing : (c :: rest).rdropWhile (fun c => c &&& 0xC0 = 0x80) = [] := by
        rw [rdropWhile_eq_nil_iff]
        intro d member
        simpa [tail_iff] using stray d member
      rw [empty, nil_append, dropCut, nothing]
      rfl
    obtain ⟨front, word, rfl, -, found⟩ := framed.last empty
    rcases word_shape found with ⟨a, low, rfl⟩ | ⟨lead, tails, rfl, high, -, all', announced⟩
    · rw [append_assoc, singleton_append, dropCut_lead (not_tail_low low) stray, if_neg (by omega)]
    · have longer : ∀ d ∈ tails ++ c :: rest, Tail d := by
        intro d member
        rcases mem_append.mp member with here | there
        · exact all' d here
        · exact stray d there
      rw [append_assoc, cons_append, dropCut_lead (not_tail_lead high) longer, if_neg]
      rw [length_append]
      omega
  · have split : whole ++ c :: (front ++ lead :: tails) = (whole ++ c :: front) ++ lead :: tails := by simp
    rw [split, dropCut_lead solid all]
    split_ifs
    · exact ⟨front, rfl⟩
    · exact ⟨front ++ lead :: tails, by simp⟩

end Repair

section Trims

variable {whole : Bytes} {c : UInt8}

theorem framed_dropWhile (framed : Utf8Framed whole) : Utf8Framed (whole.dropWhile fun c => c = 32) := by
  induction framed with
  | nil => exact .nil
  | @cons word rest found later ih =>
    rcases word_shape found with ⟨a, low, rfl⟩ | ⟨lead, tails, rfl, high, -⟩
    · by_cases space : a = 32
      · simpa [space] using ih
      · simpa [space] using LeadCode.Framed.cons found later
    · have solid : lead ≠ 32 := by
        rintro rfl
        exact absurd high (by decide)
      simpa [solid] using LeadCode.Framed.cons found later

theorem framed_rdropWhile (framed : Utf8Framed whole) : Utf8Framed (whole.rdropWhile fun c => c = 32) := by
  induction size : whole.length using Nat.strong_induction_on generalizing whole with
  | _ size ih =>
    by_cases empty : whole = []
    · rw [empty]
      exact .nil
    obtain ⟨front, word, rfl, framed', found⟩ := framed.last empty
    rcases word_shape found with ⟨a, low, rfl⟩ | ⟨lead, tails, rfl, high, some', all, -⟩
    · by_cases space : a = 32
      · rw [rdropWhile_concat_pos _ _ _ (by simp [space])]
        exact ih front.length (by simp [← size]) framed' rfl
      · rwa [rdropWhile_concat_neg _ _ _ (by simp [space])]
    · obtain ⟨tails, last, rfl⟩ := (eq_nil_or_concat' tails).resolve_left some'
      have solid : last ≠ 32 := by
        rintro rfl
        exact absurd (all 32 (by simp)).1 (by decide)
      have whole : front ++ lead :: (tails ++ [last]) = (front ++ lead :: tails) ++ [last] := by simp
      rw [whole] at framed ⊢
      rwa [rdropWhile_concat_neg _ _ _ (by simp [solid])]

theorem framed_trimSpaces (framed : Utf8Framed whole) : Utf8Framed (trimSpaces whole) :=
  framed_dropWhile (framed_rdropWhile framed)

/-- A tail that stands behind a framed text is not trimmed. -/
theorem trimSpaces_stray (framed : Utf8Framed whole) (tail : Tail c) (rest : Bytes) :
    ∃ whole' rest', trimSpaces (whole ++ c :: rest) = whole' ++ c :: rest' ∧ Utf8Framed whole' := by
  have solid : c ≠ 32 := by
    rintro rfl
    exact absurd tail.1 (by decide)
  have back : ∃ rest', (whole ++ c :: rest).rdropWhile (fun c => c = 32) = whole ++ c :: rest' := by
    induction rest using reverseRecOn with
    | nil => exact ⟨[], rdropWhile_concat_neg _ _ _ (by simp [solid])⟩
    | append_singleton rest last ih =>
      have split : whole ++ c :: (rest ++ [last]) = (whole ++ c :: rest) ++ [last] := by simp
      by_cases space : last = 32
      · rw [split, rdropWhile_concat_pos _ _ _ (by simp [space])]
        exact ih
      · rw [split, rdropWhile_concat_neg _ _ _ (by simp [space])]
        exact ⟨rest ++ [last], by simp⟩
  obtain ⟨rest', back⟩ := back
  refine ⟨whole.dropWhile fun c => c = 32, rest', ?_, framed_dropWhile framed⟩
  rw [trimSpaces, back, dropWhile_append]
  split_ifs with empty
  · rw [isEmpty_iff.mp empty, dropWhile_cons_of_neg (by simp [solid])]
    rfl
  · rfl

theorem trimSpaces_sublist (whole : Bytes) : trimSpaces whole <:+: whole :=
  (dropWhile_suffix _).isInfix.trans (List.rdropWhile_prefix _ _).isInfix

theorem trimSpaces_begins (whole : Bytes) : (trimSpaces whole).head? ≠ some 32 := by
  intro space
  have first := head?_dropWhile_not (fun c : UInt8 => decide (c = 32)) (whole.rdropWhile fun c => c = 32)
  rw [trimSpaces] at space
  rw [space] at first
  simp at first

theorem trimSpaces_ends (whole : Bytes) : (trimSpaces whole).getLast? ≠ some 32 := by
  intro space
  obtain ⟨front, split⟩ := dropWhile_suffix (l := whole.rdropWhile fun c => c = 32) (fun c : UInt8 => decide (c = 32))
  obtain ⟨behind, last⟩ := getLast?_eq_some_iff.mp space
  rw [trimSpaces] at last
  rw [last] at split
  have nonempty : (whole.rdropWhile fun c => c = 32) ≠ [] := by
    rw [← split]
    simp
  have solid := rdropWhile_last_not _ _ nonempty
  simp [← split] at solid

theorem trimSpaces_eq (begins : whole.head? ≠ some 32) (ends : whole.getLast? ≠ some 32) :
    trimSpaces whole = whole := by
  have back : whole.rdropWhile (fun c => c = 32) = whole := by
    rw [rdropWhile_eq_self_iff]
    intro nonempty space
    exact ends (by rw [getLast?_eq_getLast_of_ne_nil nonempty, of_decide_eq_true space])
  rw [trimSpaces, back]
  cases whole with
  | nil => rfl
  | cons =>
    apply dropWhile_cons_of_neg
    simpa using begins

end Trims

section Machine

variable {input word whole : Bytes} {state : CleanState} {blank : Bool} {c : UInt8} {cap room : Nat}

/-- A byte that may stand in mail text. -/
def Visible (c : UInt8) : Prop := 0x20 ≤ c ∧ c ≠ 0x1B ∧ c ≠ 0x7F

theorem cleanStep_visible (visible : Visible c) : cleanStep (.text, blank) c = ((.text, decide (c = 32)), [c]) := by
  have break' : ¬ (c = 13 ∨ c = 10 ∨ c = 9) := by
    rintro (rfl | rfl | rfl) <;> exact absurd visible.1 (by decide)
  rw [cleanStep, if_neg visible.2.1, if_neg break', if_neg (not_or.mpr ⟨UInt8.not_lt.mpr visible.1, visible.2.2⟩)]

/-- What is written is visible. -/
theorem mem_cleaned (state : CleanState) (member : c ∈ output cleanStep state input) : Visible c := by
  induction input generalizing state with
  | nil => cases member
  | cons d input ih =>
    rw [output_cons, mem_append] at member
    rcases member with here | later
    · obtain ⟨mode, blank⟩ := state
      cases mode with
      | escape => cases here
      | csi => cases here
      | text =>
        rw [cleanStep] at here
        split_ifs at here with escape breaks blank' control
        · cases here
        · cases here
        · obtain rfl := mem_singleton.mp here
          exact ⟨by decide, by decide, by decide⟩
        · cases here
        · obtain rfl := mem_singleton.mp here
          rw [not_or] at control
          exact ⟨UInt8.not_lt.mp control.1, escape, control.2⟩
    · exact ih _ later

theorem output_visible (visible : ∀ c ∈ word, Visible c) (blank : Bool) :
    output cleanStep (.text, blank) word = word ∧ (final cleanStep (.text, blank) word).1 = .text := by
  induction word generalizing blank with
  | nil => exact ⟨rfl, rfl⟩
  | cons c word ih =>
    obtain ⟨first, later⟩ := forall_mem_cons.mp visible
    simp [cleanStep_visible first, ih later]

/-- A byte outside ASCII. -/
theorem high_visible (high : 0x80 ≤ c.toNat) : Visible c ∧ ¬ (0x40 ≤ c ∧ c ≤ 0x7E) := by
  have bounds : (0x20 : UInt8).toNat = 32 ∧ (0x1B : UInt8).toNat = 27 ∧ (0x7F : UInt8).toNat = 127 ∧
      (0x7E : UInt8).toNat = 126 := by decide
  simp only [Visible, UInt8.le_iff_toNat_le, ne_eq, ← UInt8.toNat_inj]
  omega

/-- Inside a control sequence a character outside ASCII is skipped. -/
theorem output_csi (high : ∀ c ∈ word, 0x80 ≤ c.toNat) (blank : Bool) :
    output cleanStep (.csi, blank) word = [] ∧ (final cleanStep (.csi, blank) word).1 = .csi := by
  induction word with
  | nil => exact ⟨rfl, rfl⟩
  | cons c word ih =>
    obtain ⟨first, later⟩ := forall_mem_cons.mp high
    have step : cleanStep (.csi, blank) c = ((.csi, blank), []) := by
      rw [cleanStep, if_neg (high_visible first).2]
    simp [step, ih later]

theorem word_high {lead : UInt8} {tails : Bytes} (high : 0xC0 ≤ lead.toNat) (all : ∀ c ∈ tails, Tail c) :
    ∀ c ∈ lead :: tails, 0x80 ≤ c.toNat :=
  forall_mem_cons.mpr ⟨by omega, fun c member => (all c member).1⟩

/-- A character is written whole or not at all where it does not stand behind an escape byte. -/
theorem output_word (found : LeadCode.Word Inside tailBounds word)
    (apart : state.1 = .escape → ∀ c ∈ word, c.toNat < 0x80) :
    output cleanStep state word = [] ∨ LeadCode.Word Inside tailBounds (output cleanStep state word) := by
  obtain ⟨mode, blank⟩ := state
  rcases word_shape found with ⟨a, low, rfl⟩ | ⟨lead, tails, rfl, high, -, all, -⟩
  · have single : output cleanStep (mode, blank) [a] = (cleanStep (mode, blank) a).2 := by simp
    rw [single]
    cases mode with
    | escape => exact .inl rfl
    | csi => exact .inl rfl
    | text =>
      rw [cleanStep]
      split_ifs
      · exact .inl rfl
      · exact .inl rfl
      · exact .inr (word_ascii (by decide))
      · exact .inl rfl
      · exact .inr (word_ascii low)
  · have wide := word_high high all
    cases mode with
    | escape => exact absurd (apart rfl lead mem_cons_self) (by omega)
    | csi => exact .inl (output_csi wide blank).1
    | text =>
      right
      rw [(output_visible (fun c member => (high_visible (wide c member)).1) blank).1]
      exact found

/-- The characters outside ASCII that stand behind an escape byte while there is room. -/
def Splits (state : CleanState) (room : Nat) (input : Bytes) : Prop :=
  ∃ front c rest, input = front ++ c :: rest ∧ (final cleanStep state front).1 = .escape ∧ 0x80 ≤ c.toNat ∧
    (output cleanStep state front).length < room

theorem splits_append (split : Splits (final cleanStep state word) (room - (output cleanStep state word).length)
    input) :
    Splits state room (word ++ input) := by
  obtain ⟨front, c, rest, rfl, escape, high, small⟩ := split
  refine ⟨word ++ front, c, rest, (append_assoc _ _ _).symm, by rwa [final_append], high, ?_⟩
  rw [output_append, length_append]
  omega

/-- A character is split in front, or behind a first character that is not. -/
theorem splits_cases (found : LeadCode.Word Inside tailBounds word) (split : Splits state room (word ++ input)) :
    (0 < room ∧ state.1 = .escape ∧ ∃ lead tails, word = lead :: tails ∧ 0xC0 ≤ lead.toNat ∧ tails ≠ [] ∧
        ∀ c ∈ tails, Tail c) ∨
      (state.1 = .escape → ∀ c ∈ word, c.toNat < 0x80) ∧ (output cleanStep state word).length < room ∧
        Splits (final cleanStep state word) (room - (output cleanStep state word).length) input := by
  obtain ⟨front, c, behind, same, escape, high, small⟩ := split
  have later (between : Bytes) (whole : front = word ++ between) (rest : input = between ++ c :: behind) :
      (output cleanStep state word).length < room ∧
        Splits (final cleanStep state word) (room - (output cleanStep state word).length) input := by
    rw [whole, final_append] at escape
    rw [whole, output_append, length_append] at small
    exact ⟨by omega, between, c, behind, rest, escape, high, by omega⟩
  rcases word_shape found with ⟨a, low, rfl⟩ | ⟨lead, tails, rfl, leads, some', all, -⟩
  · right
    refine ⟨fun _ => by simpa using low, ?_⟩
    cases front with
    | nil =>
      obtain ⟨rfl, -⟩ := cons.inj same
      omega
    | cons d front =>
      obtain ⟨rfl, rest⟩ := cons.inj same
      exact later front rfl rest
  · by_cases behindEscape : state.1 = .escape
    · exact .inl ⟨by omega, behindEscape, lead, tails, rfl, leads, some', all⟩
    · right
      refine ⟨fun escape => absurd escape behindEscape, ?_⟩
      rcases append_eq_append_iff.mp same with ⟨between, whole, rest⟩ | ⟨between, whole, rest⟩
      · exact later between whole rest
      · -- No byte of a character outside ASCII stands behind an escape byte when the character does not.
        have wide : ∀ d ∈ front, 0x80 ≤ d.toNat := fun d inside =>
          word_high leads all d (whole ▸ mem_append_left _ inside)
        obtain ⟨mode, blank⟩ := state
        cases mode with
        | escape => exact absurd rfl behindEscape
        | text =>
          rw [(output_visible (fun d inside => (high_visible (wide d inside)).1) blank).2] at escape
          cases escape
        | csi =>
          rw [(output_csi wide blank).2] at escape
          cases escape

/-- Where no character is split, the text in the buffer is the front of whole characters. -/
theorem output_framed (framed : Utf8Framed input) (state : CleanState) (room : Nat)
    (whole : ¬ Splits state room input) :
    ∃ kept, Utf8Framed kept ∧ (output cleanStep state input).take room = kept.take room := by
  induction framed generalizing state room with
  | nil => exact ⟨[], .nil, rfl⟩
  | @cons word rest found _ ih =>
    cases room with
    | zero => exact ⟨[], .nil, by simp⟩
    | succ room =>
      have apart : state.1 = .escape → ∀ c ∈ word, c.toNat < 0x80 := by
        intro escape
        rcases word_shape found with ⟨a, low, rfl⟩ | ⟨lead, tails, rfl, high, -⟩
        · simpa using low
        · exact absurd ⟨[], lead, tails ++ rest, rfl, escape, by omega, Nat.zero_lt_succ room⟩ whole
      obtain ⟨kept, framed', same⟩ := ih (final cleanStep state word)
        (room + 1 - (output cleanStep state word).length) fun split => whole (splits_append split)
      refine ⟨output cleanStep state word ++ kept, ?_, ?_⟩
      · rcases output_word found apart with nothing | written
        · rwa [nothing]
        · exact .cons written framed'
      · rw [output_append, take_append, take_append, same]

/-- Where a character is split, one of its tails stands behind whole characters in the buffer. -/
theorem output_stray (framed : Utf8Framed input) (state : CleanState) (room : Nat) (split : Splits state room input) :
    ∃ kept c rest, (output cleanStep state input).take room = kept ++ c :: rest ∧ Utf8Framed kept ∧ Tail c := by
  induction framed generalizing state room with
  | nil =>
    obtain ⟨front, c, rest, whole, -⟩ := split
    simp at whole
  | @cons word rest found _ ih =>
    rcases splits_cases found split with ⟨positive, escape, lead, tails, rfl, leads, some', all⟩ | ⟨apart, small, later⟩
    · -- The byte behind the escape byte is the lead byte, so its tails are written.
      obtain ⟨mode, blank⟩ := state
      obtain rfl : mode = .escape := escape
      obtain ⟨c, tails, rfl⟩ := exists_cons_of_ne_nil some'
      obtain ⟨room, rfl⟩ := Nat.exists_eq_succ_of_ne_zero positive.ne'
      obtain ⟨tail, -⟩ := forall_mem_cons.mp all
      have other : lead ≠ byte '[' := by
        rintro rfl
        exact absurd leads (by decide)
      have lone : cleanStep (.escape, blank) lead = ((.text, blank), []) := by rw [cleanStep, if_neg other]
      refine ⟨[], c, ?_, ?_, .nil, tail⟩
      · exact (output cleanStep (.text, decide (c = 32)) (tails ++ rest)).take room
      · simp [lone, cleanStep_visible (high_visible tail.1).1]
    · obtain ⟨kept, c, behind, same, framed', tail⟩ := ih _ _ later
      refine ⟨output cleanStep state word ++ kept, c, behind, ?_, ?_, tail⟩
      · rw [output_append, take_append, take_of_length_le small.le, same, append_assoc]
      · rcases output_word found apart with nothing | written
        · rwa [nothing]
        · exact .cons written framed'

end Machine

section Cleaning

variable {cap : Nat} {input : Bytes}

theorem encoded_iff_framed (text : Bytes) : Encoded text ↔ Utf8Framed text :=
  (LeadCode.framed_iff_flatMap word_iff text).symm

theorem mailCleanText_eq (positive : 0 < cap) (input : Bytes) : (mailCleanText cap input).2 =
    trimSpaces (dropCut ((output cleanStep (.text, true) input).take (cap - 1))) := by
  rw [mailCleanText, if_neg positive.ne', mailCleanLoop_eq cap .text input [] positive]
  rfl

/-- What is left stood in the buffer. -/
theorem mailCleanText_sublist (positive : 0 < cap) (input : Bytes) :
    (mailCleanText cap input).2.Sublist ((output cleanStep (.text, true) input).take (cap - 1)) := by
  have repaired (out : Bytes) : (dropCut out).Sublist out := by
    rw [dropCut]
    split
    · exact List.Sublist.refl out
    · split_ifs
      · exact (dropLast_sublist _).trans (List.rdropWhile_prefix _ _).sublist
      · exact List.Sublist.refl out
  rw [mailCleanText_eq positive]
  exact (trimSpaces_sublist _).sublist.trans (repaired _)

theorem mailCleanText_visible (positive : 0 < cap) (input : Bytes) : ∀ c ∈ (mailCleanText cap input).2, Visible c :=
  fun _ member => mem_cleaned (.text, true) (mem_of_mem_take ((mailCleanText_sublist positive input).subset member))

theorem mailCleanText_short (positive : 0 < cap) (input : Bytes) : (mailCleanText cap input).2.length < cap := by
  have most := (mailCleanText_sublist positive input).length_le
  rw [length_take] at most
  omega

theorem mailCleanText_answers (positive : 0 < cap) (input : Bytes) :
    (mailCleanText cap input).1 ↔ (mailCleanText cap input).2 ≠ [] := by
  have visible := mailCleanText_visible positive input
  have both : (mailCleanText cap input).1 = (mailCleanText cap input).2.head?.any fun c => c ≠ 0 := by
    rw [mailCleanText, if_neg positive.ne']
  rw [both]
  cases left : (mailCleanText cap input).2 with
  | nil => simp
  | cons c =>
    rw [left] at visible
    have nonzero : c ≠ 0 := by
      rintro rfl
      exact absurd (visible 0 mem_cons_self).1 (by decide)
    simp [nonzero]

theorem mailCleanText_clean (framed : Utf8Framed input) (short : input.length < cap) (visible : ∀ c ∈ input, Visible c)
    (begins : input.head? ≠ some 32) (ends : input.getLast? ≠ some 32) : (mailCleanText cap input).2 = input := by
  rw [mailCleanText_eq (by omega), (output_visible visible true).1, take_of_length_le (by omega),
    dropCut_framed framed, trimSpaces_eq begins ends]

theorem mailCleanText_framed (positive : 0 < cap) (framed : Utf8Framed input)
    (whole : ¬ Splits (.text, true) (cap - 1) input) :
    Utf8Framed (mailCleanText cap input).2 := by
  obtain ⟨kept, framed', same⟩ := output_framed framed (.text, true) (cap - 1) whole
  rw [mailCleanText_eq positive, same]
  exact framed_trimSpaces (dropCut_take framed' (cap - 1)).1

theorem mailCleanText_stray (positive : 0 < cap) (framed : Utf8Framed input)
    (split : Splits (.text, true) (cap - 1) input) :
    ¬ Utf8Framed (mailCleanText cap input).2 := by
  obtain ⟨kept, c, rest, same, framed', tail⟩ := output_stray framed (.text, true) (cap - 1) split
  obtain ⟨rest', repaired⟩ := dropCut_stray framed' tail rest
  obtain ⟨kept', rest'', trimmed, framed''⟩ := trimSpaces_stray framed' tail rest'
  rw [mailCleanText_eq positive, same, repaired, trimmed]
  exact mt framed''.append_iff.mp (not_framed_tail tail)

theorem splitsCharacter_iff : SplitsCharacter cap input ↔ Splits (.text, true) (cap - 1) input := by
  have high (c : UInt8) : 0x80 ≤ c ↔ 0x80 ≤ c.toNat := UInt8.le_iff_toNat_le
  simp only [SplitsCharacter, Splits, high, Nat.lt_sub_iff_add_lt]

/-- Mail text is cleaned as it should be exactly when no escape byte stands in front of a character outside ASCII while
the buffer has room. -/
theorem mailCleanText_iff (cap : Nat) (input : Bytes) (positive : 1 ≤ cap) (encoded : Encoded input) :
    MailCleaned cap input ↔ ¬ SplitsCharacter cap input := by
  have framed := (encoded_iff_framed input).mp encoded
  rw [splitsCharacter_iff]
  constructor
  · intro cleaned split
    exact mailCleanText_stray positive framed split ((encoded_iff_framed _).mp cleaned.valid)
  · intro whole
    have left := mailCleanText_framed positive framed whole
    have visible := mailCleanText_visible positive input
    have short := mailCleanText_short positive input
    have trimmed := mailCleanText_eq positive input
    have begins : (mailCleanText cap input).2.head? ≠ some 32 := trimmed ▸ trimSpaces_begins _
    have ends : (mailCleanText cap input).2.getLast? ≠ some 32 := trimmed ▸ trimSpaces_ends _
    exact {
      valid := (encoded_iff_framed _).mpr left
      short := short
      visible := visible
      begins := begins
      ends := ends
      answers := mailCleanText_answers positive input
      again := mailCleanText_clean left short visible begins ends }

def escapedHan : Bytes := [0x1B, 0xED, 0x95, 0x9C]

theorem encoded_han (front : Bytes) (ascii : ∀ c ∈ front, c.toNat < 0x80) : Encoded (front ++ [0xED, 0x95, 0x9C]) := by
  have han : Utf8Framed ([0xED, 0x95, 0x9C] ++ []) :=
    .cons (Pattern.three (by decide) (by decide) ⟨by decide, by decide⟩ (by decide) (by decide)
      ⟨by decide, by decide⟩).word .nil
  rw [encoded_iff_framed]
  induction front with
  | nil => exact han
  | cons c front ih =>
    obtain ⟨first, later⟩ := forall_mem_cons.mp ascii
    show Utf8Framed ([c] ++ (front ++ [0xED, 0x95, 0x9C]))
    exact .cons (word_ascii first) (ih later)

/-- A text without escape bytes is cleaned. -/
theorem mailCleanText_plain : MailCleaned 64 (str " a\n" ++ [0xED, 0x95, 0x9C]) := by
  apply (mailCleanText_iff 64 _ (by decide) (encoded_han (str " a\n") (by simp [str, byte]))).mpr
  rintro ⟨front, c, rest, same, escaped, _⟩
  have calm : ∀ front ∈ (str " a\n" ++ [0xED, 0x95, 0x9C]).inits, (final cleanStep (.text, true) front).1 ≠
    .escape := by
    decide +kernel
  exact calm front ((mem_inits _ _).mpr (same ▸ prefix_append _ _)) escaped

/-- The tails of a character behind an escape byte are left over. -/
theorem mailCleanText_escaped : Encoded escapedHan ∧ ¬ MailCleaned 64 escapedHan := by
  have encoded : Encoded escapedHan := encoded_han [0x1B] (by simp)
  refine ⟨encoded, fun cleaned => ?_⟩
  have split : Splits (.text, true) (64 - 1) escapedHan :=
    ⟨[0x1B], 0xED, [0x95, 0x9C], rfl, by decide, by decide, by decide⟩
  exact mailCleanText_stray (by decide) ((encoded_iff_framed _).mp encoded) split
    ((encoded_iff_framed _).mp cleaned.valid)

end Cleaning

end SshChatter.Ddial
