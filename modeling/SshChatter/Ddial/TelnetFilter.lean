import SshChatter.FileTransfer.TelnetBinary

namespace SshChatter.Ddial
open CString Telnet List

def skipBlock : Bytes → Bytes
  | [] => []
  | c :: rest => if c = iac ∧ rest.head? = some cmdSe then rest.tail else skipBlock rest

theorem skipBlock_length (src : Bytes) : (skipBlock src).length ≤ src.length := by
  induction src with
  | nil => rfl
  | cons =>
    rw [skipBlock, length_cons]
    split_ifs
    · rw [length_tail]
      omega
    · omega

/-- This is `ddial_filter_telnet_iac` with `j` bytes already in the destination. -/
def filterTelnetIac (dstCap j : Nat) (src : Bytes) : Bytes :=
  if dstCap ≤ j then [] else
  match src with
  | [] => []
  | c :: rest =>
    if c ≠ iac then
      if j + 1 < dstCap then c :: filterTelnetIac dstCap (j + 1) rest else filterTelnetIac dstCap j rest
    else
      match rest with
      | [] => []
      | cmd :: rest =>
        if cmd = iac then iac :: filterTelnetIac dstCap (j + 1) rest
        else if cmd = cmdSb then filterTelnetIac dstCap j (skipBlock rest)
        else if 240 ≤ cmd ∧ cmd ≤ 249 then filterTelnetIac dstCap j rest
        else if (251 ≤ cmd ∧ cmd ≤ 254) ∧ rest ≠ [] then filterTelnetIac dstCap j rest.tail
        else filterTelnetIac dstCap j rest
termination_by src.length
decreasing_by
  all_goals simp only [length_cons, length_tail]
  all_goals first | omega | exact Nat.lt_of_le_of_lt (skipBlock_length _) (by omega)

/-- The receive buffer of `ddial_session_thread` has this many bytes. -/
def chunkSize : Nat := 1024

def received (pieces : List Bytes) : Bytes := pieces.flatMap (filterTelnetIac chunkSize 0)

/-- The parts of a stream between which it may be cut. A block may be cut before its `IAC SE`. -/
inductive Part where
  | data (byte : UInt8)
  | short (code : UInt8) (known : code ∉ [iac, cmdDo, cmdDont, cmdWill, cmdWont, cmdSb])
  | negotiation (code choice : UInt8) (negotiates : code ∈ [cmdDo, cmdDont, cmdWill, cmdWont])
  | start (content : Bytes)
  | finish

def Part.bytes : Part → Bytes
  | .data byte => binaryWrite [byte]
  | .short code _ => [iac, code]
  | .negotiation code choice _ => [iac, code, choice]
  | .start content => iac :: cmdSb :: binaryWrite content
  | .finish => [iac, cmdSe]

def partsOf : Item → List Part
  | .data byte => [.data byte]
  | .command (.doOption option) => [.negotiation cmdDo option (by decide)]
  | .command (.dontOption option) => [.negotiation cmdDont option (by decide)]
  | .command (.willOption option) => [.negotiation cmdWill option (by decide)]
  | .command (.wontOption option) => [.negotiation cmdWont option (by decide)]
  | .command (.subnegotiation content) => [.start content, .finish]
  | .command (.other code known) => [.short code known]

def AlignedCut (items : List Item) (pieces : List Bytes) : Prop :=
  ∃ groups : List (List Part), groups.flatten = items.flatMap partsOf ∧
    pieces = groups.map fun group => group.flatMap Part.bytes

/-- No block holds an `IAC` byte that is followed by an `SE` byte and by more. -/
def BlocksWhole (items : List Item) : Prop :=
  ∀ content, .command (.subnegotiation content) ∈ items →
    ∀ before after, content = before ++ iac :: cmdSe :: after → after = []

def PiecesOpen (pieces : List Bytes) : Prop := ∀ piece ∈ pieces, piece.length = chunkSize → iac ∈ piece

/-- What stands behind the first `IAC` and `SE` of a content. -/
def leaked : Bytes → Option Bytes
  | [] => none
  | c :: rest => if c = iac ∧ rest.head? = some cmdSe then some rest.tail else leaked rest

def Part.shown : Part → Bytes
  | .data byte => [byte]
  | .start content => (leaked content).getD []
  | _ => []

section Capacity

variable {dstCap j : Nat} {rest : Bytes}

theorem filterTelnetIac_nil : filterTelnetIac dstCap j [] = [] := by
  rw [filterTelnetIac]
  exact ite_self []

theorem filterTelnetIac_plain {c : UInt8} (plain : c ≠ iac) (room : j + 1 < dstCap) :
    filterTelnetIac dstCap j (c :: rest) = c :: filterTelnetIac dstCap (j + 1) rest := by
  rw [filterTelnetIac.eq_def, if_neg (by omega)]
  simp only [plain, ne_eq, not_false_eq_true, if_true, room]

theorem filterTelnetIac_plain_full {c : UInt8} (plain : c ≠ iac) (full : dstCap ≤ j + 1) :
    filterTelnetIac dstCap j (c :: rest) = filterTelnetIac dstCap j rest := by
  rw [filterTelnetIac.eq_def]
  simp only [plain, ne_eq, not_false_eq_true, if_true, if_neg (not_lt.mpr full)]
  by_cases none : dstCap ≤ j
  · rw [if_pos none, filterTelnetIac.eq_def, if_pos none]
  · rw [if_neg none]

theorem filterTelnetIac_end : filterTelnetIac dstCap j [iac] = [] := by
  rw [filterTelnetIac]
  simp

theorem filterTelnetIac_iac (room : j < dstCap) :
    filterTelnetIac dstCap j (iac :: iac :: rest) = iac :: filterTelnetIac dstCap (j + 1) rest := by
  rw [filterTelnetIac.eq_def, if_neg (by omega)]
  simp

theorem filterTelnetIac_block (room : j < dstCap) :
    filterTelnetIac dstCap j (iac :: cmdSb :: rest) = filterTelnetIac dstCap j (skipBlock rest) := by
  rw [filterTelnetIac.eq_def, if_neg (by omega)]
  simp [iac, cmdSb]

def skipCommand (cmd : UInt8) (rest : Bytes) : Bytes :=
  if 240 ≤ cmd ∧ cmd ≤ 249 then rest
  else if (251 ≤ cmd ∧ cmd ≤ 254) ∧ rest ≠ [] then rest.tail
  else rest

theorem skipCommand_length (cmd : UInt8) (rest : Bytes) : (skipCommand cmd rest).length ≤ rest.length := by
  rw [skipCommand]
  split_ifs
  · rfl
  · rw [length_tail]
    omega
  · rfl

theorem filterTelnetIac_command {cmd : UInt8} (noEscape : cmd ≠ iac) (noBlock : cmd ≠ cmdSb) (room : j < dstCap) :
    filterTelnetIac dstCap j (iac :: cmd :: rest) = filterTelnetIac dstCap j (skipCommand cmd rest) := by
  rw [filterTelnetIac.eq_def, if_neg (by omega), skipCommand]
  simp only [ne_eq, not_true_eq_false, if_false, noEscape, noBlock]
  split_ifs <;> rfl

/-- Induction over the steps of the loop. -/
theorem filter_induction {motive : Bytes → Prop} (nil : motive [])
    (plain : ∀ c rest, c ≠ iac → motive rest → motive (c :: rest)) (alone : motive [iac])
    (escape : ∀ rest, motive rest → motive (iac :: iac :: rest))
    (block : ∀ rest, motive (skipBlock rest) → motive (iac :: cmdSb :: rest))
    (command : ∀ cmd rest, cmd ≠ iac → cmd ≠ cmdSb → motive (skipCommand cmd rest) → motive (iac :: cmd :: rest)) :
    ∀ src, motive src := by
  intro src
  induction size : src.length using Nat.strong_induction_on generalizing src with
  | _ size ih =>
    subst size
    match src with
    | [] => exact nil
    | c :: rest =>
      by_cases known : c = iac
      · subst known
        match rest with
        | [] => exact alone
        | cmd :: rest =>
          by_cases doubled : cmd = iac
          · subst doubled
            exact escape rest (ih rest.length (by simp) rest rfl)
          · by_cases opened : cmd = cmdSb
            · subst opened
              have shorter := skipBlock_length rest
              exact block rest (ih _ (by simp only [length_cons]; omega) _ rfl)
            · have shorter := skipCommand_length cmd rest
              exact command cmd rest doubled opened (ih _ (by simp only [length_cons]; omega) _ rfl)
      · exact plain c rest known (ih rest.length (by simp) rest rfl)

/-- A piece that does not fill the destination with plain bytes is filtered as with more room. -/
theorem filterTelnetIac_room {src : Bytes} (fits : j + src.length ≤ dstCap)
    (room : j + src.length < dstCap ∨ iac ∈ src) :
    filterTelnetIac dstCap j src = filterTelnetIac (dstCap + 1) j src := by
  induction src using filter_induction generalizing j with
  | nil => rw [filterTelnetIac_nil, filterTelnetIac_nil]
  | plain c rest plain ih =>
    rw [length_cons] at fits room
    have more : j + 1 < dstCap := by
      rcases room with room | member
      · omega
      · have inside := (mem_cons.mp member).resolve_left (Ne.symm plain)
        have some := length_pos_of_mem inside
        omega
    rw [filterTelnetIac_plain plain more, filterTelnetIac_plain plain (by omega), ih (by omega)]
    refine room.imp (by omega) ?_
    intro member
    exact (mem_cons.mp member).resolve_left (Ne.symm plain)
  | alone => rw [filterTelnetIac_end, filterTelnetIac_end]
  | escape rest ih =>
    simp only [length_cons] at fits
    rw [filterTelnetIac_iac (by omega), filterTelnetIac_iac (by omega), ih (by omega) (.inl (by omega))]
  | block rest ih =>
    have shorter := skipBlock_length rest
    simp only [length_cons] at fits
    rw [filterTelnetIac_block (by omega), filterTelnetIac_block (by omega), ih (by omega) (.inl (by omega))]
  | command cmd rest noEscape noBlock ih =>
    have shorter := skipCommand_length cmd rest
    simp only [length_cons] at fits
    rw [filterTelnetIac_command noEscape noBlock (by omega), filterTelnetIac_command noEscape noBlock (by omega),
      ih (by omega) (.inl (by omega))]

/-- A piece of plain bytes that fills the destination loses its last byte. -/
theorem filterTelnetIac_full {src : Bytes} (plain : iac ∉ src) (full : j + src.length = dstCap) :
    filterTelnetIac dstCap j src = src.dropLast := by
  induction src generalizing j with
  | nil => exact filterTelnetIac_nil
  | cons c rest ih =>
    rw [mem_cons, not_or] at plain
    obtain ⟨first, others⟩ := plain
    rw [length_cons] at full
    cases rest with
    | nil =>
      rw [filterTelnetIac_plain_full (Ne.symm first) (by simp at full; omega), filterTelnetIac_nil]
      rfl
    | cons =>
      rw [filterTelnetIac_plain (Ne.symm first) (by simp at full; omega), ih others (by omega)]
      rfl

end Capacity

section Parts

variable {dstCap j : Nat} {tail : Bytes}

theorem binaryWrite_byte (byte : UInt8) : (byte = iac ∧ binaryWrite [byte] = [iac, iac]) ∨
    (byte ≠ iac ∧ binaryWrite [byte] = [byte]) := by
  by_cases escaped : byte = iac
  · exact .inl ⟨escaped, by simp [binaryWrite, escaped]⟩
  · exact .inr ⟨escaped, by simp [binaryWrite, escaped]⟩

theorem binaryWrite_cons_append (byte : UInt8) (more tail : Bytes) :
    binaryWrite (byte :: more) ++ tail = binaryWrite [byte] ++ (binaryWrite more ++ tail) := by
  simp [binaryWrite]

/-- The encoded bytes are returned decoded. -/
theorem filterTelnetIac_data (data : Bytes) (room : j + (binaryWrite data ++ tail).length < dstCap) :
    filterTelnetIac dstCap j (binaryWrite data ++ tail) = data ++ filterTelnetIac dstCap (j + data.length) tail := by
  induction data generalizing j with
  | nil => rfl
  | cons byte more ih =>
    rw [binaryWrite_cons_append] at room ⊢
    have next : j + (byte :: more).length = j + 1 + more.length := by
      rw [length_cons]
      omega
    rcases binaryWrite_byte byte with ⟨rfl, unit⟩ | ⟨plain, unit⟩
    · rw [unit] at room ⊢
      simp only [cons_append, nil_append, length_cons] at room ⊢
      rw [filterTelnetIac_iac (by omega), ih (by omega)]
      rw [length_cons] at next
      rw [next]
    · rw [unit] at room ⊢
      simp only [cons_append, nil_append, length_cons] at room ⊢
      rw [filterTelnetIac_plain plain (by omega), ih (by omega)]
      rw [length_cons] at next
      rw [next]

theorem skipBlock_iac_iac : skipBlock (iac :: iac :: tail) = skipBlock (iac :: tail) := by
  rw [skipBlock, if_neg (by simp [iac, cmdSe])]

theorem head_binaryWrite (content : Bytes) (stop : tail.head? ≠ some cmdSe) :
    (binaryWrite content ++ tail).head? = some cmdSe ↔ content.head? = some cmdSe := by
  cases content with
  | nil => simpa [binaryWrite] using stop
  | cons byte =>
    rw [binaryWrite_cons_append]
    rcases binaryWrite_byte byte with ⟨rfl, unit⟩ | ⟨plain, unit⟩
    · simp [unit]
    · simp [unit]

/-- The loop stops behind the first `IAC SE`, which the content can hold. -/
theorem skipBlock_content (content : Bytes) (stop : tail.head? ≠ some cmdSe) :
    skipBlock (binaryWrite content ++ tail) =
      ((leaked content).map fun after => binaryWrite after ++ tail).getD (skipBlock tail) := by
  induction content with
  | nil => rfl
  | cons byte more ih =>
    rw [binaryWrite_cons_append, leaked]
    rcases binaryWrite_byte byte with ⟨rfl, unit⟩ | ⟨plain, unit⟩
    · have sameHead := head_binaryWrite more stop
      rw [unit, cons_append, singleton_append, skipBlock_iac_iac, skipBlock]
      by_cases ends : more.head? = some cmdSe
      · rw [if_pos ⟨rfl, sameHead.mpr ends⟩]
        cases more with
        | nil => cases ends
        | cons =>
          cases ends
          rfl
      · rw [if_neg fun both => ends (sameHead.mp both.2), if_neg fun both => ends both.2]
        exact ih
    · rw [unit, singleton_append, skipBlock, if_neg fun both => plain both.1, if_neg fun both => plain both.1]
      exact ih

/-- The end of a block is skipped like a command. -/
theorem filterTelnetIac_finish (room : j < dstCap) :
    filterTelnetIac dstCap j (iac :: cmdSe :: tail) = filterTelnetIac dstCap j tail := by
  rw [filterTelnetIac_command (by decide) (by decide) room]
  rfl

/-- A start of a block is followed by its end, or by nothing. -/
def Part.Precedes (first second : Part) : Prop := (∃ content, first = .start content) → second = .finish

theorem skipCommand_short {code : UInt8} (known : code ∉ [iac, cmdDo, cmdDont, cmdWill, cmdWont, cmdSb]) :
    skipCommand code tail = tail := by
  have outside : ¬(251 ≤ code ∧ code ≤ 254) := by
    intro inside
    simp only [mem_cons, not_mem_nil, or_false,
      ← UInt8.toNat_inj] at known
    change ¬(code.toNat = 255 ∨ code.toNat = 253 ∨ code.toNat = 254 ∨ code.toNat = 251 ∨ code.toNat = 252 ∨
      code.toNat = 250) at known
    change 251 ≤ code.toNat ∧ code.toNat ≤ 254 at inside
    omega
  rw [skipCommand, ite_eq_left_iff]
  intro _
  rw [if_neg fun both => outside both.1]

theorem skipCommand_negotiation {code : UInt8} (negotiates : code ∈ [cmdDo, cmdDont, cmdWill, cmdWont])
    (choice : UInt8) : skipCommand code (choice :: tail) = tail := by
  have codes : ∀ code ∈ [cmdDo, cmdDont, cmdWill, cmdWont], ¬(240 ≤ code ∧ code ≤ 249) ∧ 251 ≤ code ∧ code ≤ 254 := by
    decide +kernel
  obtain ⟨outside, inside⟩ := codes code negotiates
  rw [skipCommand, if_neg outside, if_pos ⟨inside, cons_ne_nil _ _⟩]
  rfl

theorem leaked_length {content after : Bytes} (leak : leaked content = some after) : after.length ≤ content.length := by
  induction content with
  | nil => cases leak
  | cons c rest ih =>
    rw [leaked] at leak
    rw [length_cons]
    split_ifs at leak with ends
    · cases leak
      rw [length_tail]
      omega
    · exact (ih leak).trans (Nat.le_succ _)

theorem binaryWrite_length (data : Bytes) : data.length ≤ (binaryWrite data).length := by
  induction data with
  | nil => rfl
  | cons byte more =>
    have split := binaryWrite_cons_append byte more []
    rw [append_nil, append_nil] at split
    rw [split, length_append]
    rcases binaryWrite_byte byte with ⟨-, unit⟩ | ⟨-, unit⟩
    · rw [unit]
      simp only [length_cons]
      omega
    · rw [unit]
      simp only [length_cons]
      omega

theorem Part.shown_length (part : Part) : part.shown.length ≤ part.bytes.length := by
  cases part with
  | data byte => exact binaryWrite_length [byte]
  | start content =>
    simp only [Part.shown, Part.bytes, length_cons]
    have written := binaryWrite_length content
    cases leak : leaked content with
    | none => exact Nat.zero_le _
    | some =>
      have shorter := leaked_length leak
      rw [Option.getD_some]
      omega
  | _ => exact Nat.zero_le _

theorem filterTelnetIac_part (part : Part)
    (stop : (∃ content, part = .start content) → tail = [] ∨ ∃ later, tail = iac :: cmdSe :: later)
    (room : j + (part.bytes ++ tail).length < dstCap) :
    filterTelnetIac dstCap j (part.bytes ++ tail) =
      part.shown ++ filterTelnetIac dstCap (j + part.shown.length) tail := by
  have some : j < dstCap := by omega
  cases part with
  | data byte => exact filterTelnetIac_data [byte] room
  | short code known =>
    have other : code ≠ iac ∧ code ≠ cmdSb := ⟨by rintro rfl; simp at known, by rintro rfl; simp at known⟩
    change filterTelnetIac dstCap j (iac :: code :: tail) = filterTelnetIac dstCap j tail
    rw [filterTelnetIac_command other.1 other.2 some, skipCommand_short known]
  | negotiation code choice negotiates =>
    have other : ∀ code ∈ [cmdDo, cmdDont, cmdWill, cmdWont], code ≠ iac ∧ code ≠ cmdSb := by decide +kernel
    obtain ⟨noEscape, noBlock⟩ := other code negotiates
    change filterTelnetIac dstCap j (iac :: code :: choice :: tail) = filterTelnetIac dstCap j tail
    rw [filterTelnetIac_command noEscape noBlock some, skipCommand_negotiation negotiates]
  | finish => exact filterTelnetIac_finish some
  | start content =>
    have ending : tail.head? ≠ .some cmdSe := by
      rcases stop ⟨content, rfl⟩ with rfl | ⟨later, rfl⟩
      · simp
      · simp [iac, cmdSe]
    have skipped := skipBlock_content content ending
    have shorter := skipBlock_length (binaryWrite content ++ tail)
    rw [Part.bytes, cons_append, cons_append, filterTelnetIac_block some, Part.shown]
    simp only [Part.bytes, cons_append, length_cons] at room
    cases leak : leaked content with
    | none =>
      rw [leak] at skipped
      rw [skipped]
      rcases stop ⟨content, rfl⟩ with rfl | ⟨later, rfl⟩
      · rfl
      · exact (filterTelnetIac_finish some).symm
    | some after =>
      rw [leak] at skipped
      rw [skipped] at shorter ⊢
      exact filterTelnetIac_data after (by simp only [Option.map_some, Option.getD_some] at shorter; omega)

theorem filterTelnetIac_group {group : List Part} (chain : group.IsChain Part.Precedes)
    (room : j + (group.flatMap Part.bytes).length < dstCap) :
    filterTelnetIac dstCap j (group.flatMap Part.bytes) = group.flatMap Part.shown := by
  induction group generalizing j with
  | nil => exact filterTelnetIac_nil
  | cons part rest ih =>
    rw [flatMap_cons] at room
    have shorter : part.shown.length ≤ part.bytes.length := part.shown_length
    have stop : (∃ content, part = .start content) →
        rest.flatMap Part.bytes = [] ∨ ∃ later, rest.flatMap Part.bytes = iac :: cmdSe :: later := by
      intro starts
      cases rest with
      | nil => exact .inl rfl
      | cons =>
        obtain rfl := (isChain_cons_cons.mp chain).1 starts
        exact .inr ⟨_, rfl⟩
    rw [flatMap_cons, flatMap_cons, filterTelnetIac_part part stop room, ih chain.tail]
    rw [length_append] at room
    omega

end Parts

end SshChatter.Ddial
