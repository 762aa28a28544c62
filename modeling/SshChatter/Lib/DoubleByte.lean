import Mathlib.Tactic

namespace DoubleByte
open List

variable {In Out : Type}

/-- What a unit is at the start of a character. -/
inductive First (Out : Type) where
  | char (out : List Out)
  | lead
  | illegal

/-- A code of characters of one or two units. No pair is decoded to what the mark for a bad unit begins. -/
structure CodePage (In Out : Type) (mark : List Out) where
  first : In → First Out
  pair : In → In → Option (List Out)
  distinct : ∀ lead second out rest, pair lead second = some out → ¬ mark <+: out ++ rest

variable {mark : List Out} (page : CodePage In Out mark)

/-- The conversion of a text. A unit that starts no character is replaced by the mark, and the next unit starts anew. -/
def convert : List In → List Out
  | [] => []
  | unit :: rest =>
    match page.first unit with
    | .char out => out ++ convert rest
    | .illegal => mark ++ convert rest
    | .lead =>
      match rest with
      | [] => mark
      | second :: rest' =>
        match page.pair unit second with
        | some out => out ++ convert rest'
        | none => mark ++ convert (second :: rest')

/-- The lead unit at the end of a text whose second unit is missing. -/
def pending : List In → Option In
  | [] => none
  | unit :: rest =>
    match page.first unit with
    | .char _ => pending rest
    | .illegal => pending rest
    | .lead =>
      match rest with
      | [] => some unit
      | second :: rest' =>
        match page.pair unit second with
        | some _ => pending rest'
        | none => pending (second :: rest')

/-- The cut between two texts is inside a character. -/
def Splits (before behind : List In) : Prop :=
  ∃ lead second out, pending page before = some lead ∧ behind.head? = some second ∧ page.pair lead second = some out

variable {page} {before behind rest : List In} {unit second : In} {out : List Out}

theorem convert_cons (unit : In) (rest : List In) : convert page (unit :: rest) =
    match page.first unit with
    | .char out => out ++ convert page rest
    | .illegal => mark ++ convert page rest
    | .lead =>
      match rest with
      | [] => mark
      | second :: rest' =>
        match page.pair unit second with
        | some out => out ++ convert page rest'
        | none => mark ++ convert page (second :: rest') := by
  rw [convert.eq_def]

theorem pending_cons (unit : In) (rest : List In) : pending page (unit :: rest) =
    match page.first unit with
    | .char _ => pending page rest
    | .illegal => pending page rest
    | .lead =>
      match rest with
      | [] => some unit
      | second :: rest' =>
        match page.pair unit second with
        | some _ => pending page rest'
        | none => pending page (second :: rest') := by
  rw [pending.eq_def]

theorem convert_char (first : page.first unit = .char out) :
    convert page (unit :: rest) = out ++ convert page rest := by
  rw [convert_cons]
  simp only [first]

theorem convert_illegal (first : page.first unit = .illegal) :
    convert page (unit :: rest) = mark ++ convert page rest := by
  rw [convert_cons]
  simp only [first]

theorem convert_lead (first : page.first unit = .lead) : convert page [unit] = mark := by
  rw [convert_cons]
  simp only [first]

theorem convert_pair (first : page.first unit = .lead) (paired : page.pair unit second = some out) :
    convert page (unit :: second :: rest) = out ++ convert page rest := by
  rw [convert_cons]
  simp only [first, paired]

theorem convert_unpaired (first : page.first unit = .lead) (unpaired : page.pair unit second = none) :
    convert page (unit :: second :: rest) = mark ++ convert page (second :: rest) := by
  rw [convert_cons]
  simp only [first, unpaired]

theorem pending_char (first : page.first unit = .char out) : pending page (unit :: rest) = pending page rest := by
  rw [pending_cons]
  simp only [first]

theorem pending_illegal (first : page.first unit = .illegal) : pending page (unit :: rest) = pending page rest := by
  rw [pending_cons]
  simp only [first]

theorem pending_lead (first : page.first unit = .lead) : pending page [unit] = some unit := by
  rw [pending_cons]
  simp only [first]

theorem pending_pair (first : page.first unit = .lead) (paired : page.pair unit second = some out) :
    pending page (unit :: second :: rest) = pending page rest := by
  rw [pending_cons]
  simp only [first, paired]

theorem pending_unpaired (first : page.first unit = .lead) (unpaired : page.pair unit second = none) :
    pending page (unit :: second :: rest) = pending page (second :: rest) := by
  rw [pending_cons]
  simp only [first, unpaired]

theorem Splits.of_pending {earlier : List In} (same : pending page earlier = pending page before)
    (split : Splits page before behind) : Splits page earlier behind := by
  obtain ⟨lead, second, out, open_, rest⟩ := split
  exact ⟨lead, second, out, same.trans open_, rest⟩

/-- A cut between characters does not change the conversion. -/
theorem convert_append (whole : ¬ Splits page before behind) :
    convert page (before ++ behind) = convert page before ++ convert page behind := by
  induction before using convert.induct page with
  | case1 => rfl
  | case2 unit rest out first ih =>
    have later := ih fun split => whole (split.of_pending (pending_char first))
    rw [cons_append, convert_char first, convert_char first, append_assoc, later]
  | case3 unit rest first ih =>
    have later := ih fun split => whole (split.of_pending (pending_illegal first))
    rw [cons_append, convert_illegal first, convert_illegal first, append_assoc, later]
  | case4 unit first =>
    cases behind with
    | nil => exact (append_nil _).symm
    | cons second =>
      have unpaired : page.pair unit second = none := by
        rw [← Option.not_isSome_iff_eq_none, Option.isSome_iff_exists]
        rintro ⟨out, paired⟩
        exact whole ⟨unit, second, out, pending_lead first, rfl, paired⟩
      rw [singleton_append, convert_unpaired first unpaired, convert_lead first]
  | case5 unit first second rest out paired ih =>
    have later := ih fun split => whole (split.of_pending (pending_pair first paired))
    rw [cons_append, cons_append, convert_pair first paired, convert_pair first paired, append_assoc, later]
  | case6 unit first second rest unpaired ih =>
    have later := ih fun split => whole (split.of_pending (pending_unpaired first unpaired))
    rw [cons_append, cons_append, convert_unpaired first unpaired, convert_unpaired first unpaired,
      append_assoc, ← later, cons_append]

/-- Where a cut splits a character, the conversion has the mark in front of the cut in place of the character. -/
theorem convert_split {lead : In} (open_ : pending page before = some lead)
    (paired : page.pair lead second = some out) : ∃ front, convert page before = front ++ mark ∧
      ∀ rest, convert page (before ++ second :: rest) = front ++ (out ++ convert page rest) := by
  induction before using convert.induct page with
  | case1 => cases open_
  | case2 unit text shown first ih =>
    rw [pending_char first] at open_
    obtain ⟨front, here, later⟩ := ih open_
    refine ⟨shown ++ front, by rw [convert_char first, here, append_assoc], fun rest => ?_⟩
    rw [cons_append, convert_char first, later rest, append_assoc]
  | case3 unit text first ih =>
    rw [pending_illegal first] at open_
    obtain ⟨front, here, later⟩ := ih open_
    refine ⟨mark ++ front, by rw [convert_illegal first, here, append_assoc], fun rest => ?_⟩
    rw [cons_append, convert_illegal first, later rest, append_assoc]
  | case4 unit first =>
    rw [pending_lead first, Option.some.injEq] at open_
    rw [← open_] at paired
    exact ⟨[], convert_lead first, fun rest => convert_pair first paired⟩
  | case5 unit first next text shown paired' ih =>
    rw [pending_pair first paired'] at open_
    obtain ⟨front, here, later⟩ := ih open_
    refine ⟨shown ++ front, by rw [convert_pair first paired', here, append_assoc], fun rest => ?_⟩
    rw [cons_append, cons_append, convert_pair first paired', later rest, append_assoc]
  | case6 unit first next text unpaired ih =>
    rw [pending_unpaired first unpaired] at open_
    obtain ⟨front, here, later⟩ := ih open_
    refine ⟨mark ++ front, by rw [convert_unpaired first unpaired, here, append_assoc], fun rest => ?_⟩
    rw [cons_append, cons_append, convert_unpaired first unpaired, ← cons_append, later rest, append_assoc]

/-- Two conversions joined are the conversion of the joined texts if and only if the cut is between characters. -/
theorem convert_append_iff (tail : List Out) :
    convert page before ++ tail = convert page (before ++ behind) ↔ ¬ Splits page before behind ∧
      tail = convert page behind := by
  constructor
  · intro same
    have whole : ¬ Splits page before behind := by
      rintro ⟨lead, second, out, open_, head, paired⟩
      obtain ⟨front, here, later⟩ := convert_split open_ paired
      obtain ⟨rest, rfl⟩ := head?_eq_some_iff.mp head
      rw [here, later rest, append_assoc, append_cancel_left_eq] at same
      exact page.distinct lead second out _ paired ⟨tail, same⟩
    rw [convert_append whole, append_cancel_left_eq] at same
    exact ⟨whole, same⟩
  · rintro ⟨whole, rfl⟩
    exact (convert_append whole).symm

/-- Pieces are converted one by one as they are together if and only if no cut is inside a character. -/
theorem convert_flatten_iff {pieces : List (List In)} (present : ∀ piece ∈ pieces, piece ≠ []) :
    pieces.flatMap (convert page) = convert page pieces.flatten ↔ pieces.IsChain fun before behind =>
      ¬ Splits page before behind := by
  induction pieces with
  | nil => simp [convert]
  | cons piece pieces ih =>
    obtain ⟨_, later⟩ := forall_mem_cons.mp present
    rw [flatMap_cons, flatten_cons, convert_append_iff, ih later]
    cases pieces with
    | nil => simp [Splits]
    | cons next =>
      obtain ⟨unit, rest, rfl⟩ := exists_cons_of_ne_nil (later next mem_cons_self)
      rw [isChain_cons_cons]
      rfl

section Stream

variable (start : In → First Out) (pair : In → In → Option (List Out)) (mark : List Out)

/-- The decoding of a text from left to right, and the lead unit whose second unit has not come. A lead unit that makes
no pair is replaced by the mark, and the next unit starts anew. -/
def decode : List In → List Out × Option In
  | [] => ([], none)
  | unit :: rest =>
    match start unit with
    | .char out => Prod.map (out ++ ·) id (decode rest)
    | .illegal => Prod.map (mark ++ ·) id (decode rest)
    | .lead =>
      match rest with
      | [] => ([], some unit)
      | second :: rest' =>
        match pair unit second with
        | some out => Prod.map (out ++ ·) id (decode rest')
        | none => Prod.map (mark ++ ·) id (decode (second :: rest'))

def opening (unit : In) : List Out × Option In :=
  match start unit with
  | .char out => (out, none)
  | .illegal => (mark, none)
  | .lead => ([], some unit)

/-- One unit of a stream: what it gives, and the lead unit that waits behind it. -/
def shift : Option In → In → List Out × Option In
  | none, unit => opening start mark unit
  | some lead, unit =>
    match pair lead unit with
    | some out => (out, none)
    | none => Prod.map (mark ++ ·) id (opening start mark unit)

variable {start pair mark} {waiting : Option In}

/-- A text after a unit that is no lead, or after a lead that waits. -/
theorem decode_opening (unit : In) (rest : List In) : decode start pair mark (unit :: rest) =
    Prod.map ((opening start mark unit).1 ++ ·) id
      (decode start pair mark ((opening start mark unit).2.toList ++ rest)) := by
  rw [opening]
  cases found : start unit with
  | char =>
    rw [decode.eq_def]
    simp [found]
  | illegal =>
    rw [decode.eq_def]
    simp [found]
  | lead => rfl

theorem shift_lead {unit lead : In} (waits : (shift start pair mark waiting unit).2 = some lead) :
    start lead = .lead := by
  have opened (unit : In) (waits : (opening start mark unit).2 = some lead) : start lead = .lead := by
    rw [opening] at waits
    cases found : start unit <;> rw [found] at waits <;> cases waits
    exact found
  cases waiting with
  | none => exact opened unit waits
  | some before =>
    rw [shift] at waits
    cases paired : pair before unit <;> rw [paired] at waits
    · exact opened unit waits
    · cases waits

theorem decode_shift (lead : ∀ lead ∈ waiting, start lead = .lead) (unit : In) (rest : List In) :
    decode start pair mark (waiting.toList ++ unit :: rest) =
      Prod.map ((shift start pair mark waiting unit).1 ++ ·) id
        (decode start pair mark ((shift start pair mark waiting unit).2.toList ++ rest)) := by
  cases waiting with
  | none => exact decode_opening unit rest
  | some before =>
    have isLead := lead before rfl
    rw [shift, Option.toList_some, singleton_append, decode.eq_def]
    simp only [isLead]
    cases pair before unit with
    | some => rfl
    | none =>
      rw [decode_opening unit rest]
      ext <;> simp

end Stream

end DoubleByte
