import SshChatter.Ddial.TelnetFilter

namespace SshChatter.Ddial
open CString Telnet List

section Lengths

variable {α β : Type} {list : List α} {first second : α → List β}

theorem flatMap_length_le (shorter : ∀ x ∈ list, (first x).length ≤ (second x).length) :
    (list.flatMap first).length ≤ (list.flatMap second).length := by
  induction list with
  | nil => rfl
  | cons x rest ih =>
    rw [forall_mem_cons] at shorter
    rw [flatMap_cons, flatMap_cons, length_append, length_append]
    exact add_le_add shorter.1 (ih shorter.2)

theorem flatMap_length_eq (shorter : ∀ x ∈ list, (first x).length ≤ (second x).length)
    (whole : (list.flatMap first).length = (list.flatMap second).length) :
    ∀ x ∈ list, (first x).length = (second x).length := by
  induction list with
  | nil => exact forall_mem_nil _
  | cons x rest ih =>
    rw [forall_mem_cons] at shorter ⊢
    have later := flatMap_length_le shorter.2
    rw [flatMap_cons, flatMap_cons, length_append, length_append] at whole
    exact ⟨by omega, ih shorter.2 (by omega)⟩

end Lengths

section Aligned

variable {items : List Item} {groups : List (List Part)}

def Part.payload : Part → Bytes
  | .data byte => [byte]
  | _ => []

theorem payload_items (items : List Item) : (items.flatMap partsOf).flatMap Part.payload = dataOf items := by
  induction items with
  | nil => rfl
  | cons item rest ih =>
    rw [flatMap_cons, flatMap_append, ih]
    cases item with
    | data => rfl
    | command inserted => cases inserted <;> rfl

/-- The parts of a stream have the ends of the blocks behind their starts. -/
theorem parts_isChain (items : List Item) : (items.flatMap partsOf).IsChain Part.Precedes := by
  induction items with
  | nil => exact isChain_nil
  | cons item rest ih =>
    rw [flatMap_cons, isChain_append]
    refine ⟨?_, ih, ?_⟩
    · rcases item with byte | ⟨_ | _ | _ | _ | content | _⟩
      all_goals simp [partsOf, Part.Precedes]
    · rcases item with byte | ⟨_ | _ | _ | _ | content | _⟩
      all_goals simp [partsOf, Part.Precedes]

theorem groups_isChain (chain : groups.flatten.IsChain Part.Precedes) :
    ∀ group ∈ groups, group.IsChain Part.Precedes := by
  induction groups with
  | nil => exact forall_mem_nil _
  | cons group rest ih =>
    rw [flatten_cons, isChain_append] at chain
    exact forall_mem_cons.mpr ⟨chain.1, ih chain.2.1⟩

def pieceOf (group : List Part) : Bytes := group.flatMap Part.bytes

variable {group : List Part}

theorem filterTelnetIac_piece (chain : group.IsChain Part.Precedes) (fits : (pieceOf group).length ≤ chunkSize) :
    ((pieceOf group).length = chunkSize → iac ∈ pieceOf group) →
      filterTelnetIac chunkSize 0 (pieceOf group) = group.flatMap Part.shown := by
  intro vacant
  have room : 0 + (pieceOf group).length < chunkSize ∨ iac ∈ pieceOf group := by
    rcases lt_or_eq_of_le fits with less | full
    · exact .inl (by omega)
    · exact .inr (vacant full)
  rw [filterTelnetIac_room (by omega) room]
  apply filterTelnetIac_group chain
  change 0 + (pieceOf group).length < chunkSize + 1
  omega

/-- A part without an `IAC` byte is a plain byte. -/
theorem Part.shown_plain {part : Part} (plain : iac ∉ part.bytes) : part.shown = part.bytes := by
  cases part with
  | data byte =>
    rcases binaryWrite_byte byte with ⟨-, unit⟩ | ⟨-, unit⟩
    · rw [Part.bytes, unit] at plain
      exact absurd mem_cons_self plain
    · exact unit.symm
  | _ => exact absurd mem_cons_self plain

theorem filterTelnetIac_piece_full (full : (pieceOf group).length = chunkSize) (plain : iac ∉ pieceOf group) :
    (filterTelnetIac chunkSize 0 (pieceOf group)).length < (group.flatMap Part.shown).length := by
  have shown : group.flatMap Part.shown = pieceOf group := by
    apply flatMap_congr
    intro part member
    exact Part.shown_plain fun inside => plain (mem_flatMap.mpr ⟨part, member, inside⟩)
  rw [shown, filterTelnetIac_full plain (by rw [full, zero_add]), length_dropLast, full]
  decide

theorem filterTelnetIac_piece_le (chain : group.IsChain Part.Precedes) (fits : (pieceOf group).length ≤ chunkSize) :
    (filterTelnetIac chunkSize 0 (pieceOf group)).length ≤ (group.flatMap Part.shown).length := by
  by_cases vacant : (pieceOf group).length = chunkSize → iac ∈ pieceOf group
  · rw [filterTelnetIac_piece chain fits vacant]
  · obtain ⟨full, plain⟩ := Classical.not_imp.mp vacant
    exact le_of_lt (filterTelnetIac_piece_full full plain)

/-- The first `IAC` and `SE` of a content leave no less than a later one. -/
theorem leaked_of_mem (before after : Bytes) :
    ∃ more, leaked (before ++ iac :: cmdSe :: after) = some more ∧ after.length ≤ more.length := by
  induction before with
  | nil => exact ⟨after, rfl, le_refl _⟩
  | cons c rest ih =>
    rw [cons_append, leaked]
    split_ifs
    · refine ⟨_, rfl, ?_⟩
      simp only [length_tail, length_append, length_cons]
      omega
    · exact ih

theorem leaked_split {content after : Bytes} (leak : leaked content = some after) :
    ∃ before, content = before ++ iac :: cmdSe :: after := by
  induction content with
  | nil => cases leak
  | cons c rest ih =>
    rw [leaked] at leak
    split_ifs at leak with ends
    · cases leak
      obtain ⟨rfl, next⟩ := ends
      cases rest with
      | nil => cases next
      | cons =>
        cases next
        exact ⟨[], rfl⟩
    · obtain ⟨before, rfl⟩ := ih leak
      exact ⟨c :: before, rfl⟩

theorem blocksWhole_iff (items : List Item) :
    BlocksWhole items ↔ ∀ part ∈ items.flatMap partsOf, part.payload.length = part.shown.length := by
  have starts : ∀ content, Part.start content ∈ items.flatMap partsOf ↔ .command (.subnegotiation content) ∈ items := by
    intro content
    rw [mem_flatMap]
    constructor
    · rintro ⟨item, member, inside⟩
      rcases item with byte | ⟨_ | _ | _ | _ | other | _⟩
      all_goals simp only [partsOf, mem_cons, not_mem_nil, or_false, reduceCtorEq] at inside
      obtain rfl := Part.start.inj inside
      exact member
    · intro member
      exact ⟨_, member, mem_cons_self⟩
  constructor
  · intro whole part member
    cases part with
    | start content =>
      change 0 = ((leaked content).getD []).length
      cases leak : leaked content with
      | none => rfl
      | some after =>
        obtain ⟨before, split⟩ := leaked_split leak
        rw [whole content ((starts content).mp member) before after split]
        rfl
    | _ => rfl
  · intro same content member before after split
    obtain ⟨more, leak, shorter⟩ := leaked_of_mem before after
    have none := same _ ((starts content).mpr member)
    change 0 = ((leaked content).getD []).length at none
    rw [split, leak, Option.getD_some] at none
    exact eq_nil_of_length_eq_zero (by omega)

theorem Part.payload_length (part : Part) : part.payload.length ≤ part.shown.length := by
  cases part with
  | data => rfl
  | _ => exact Nat.zero_le _

theorem Part.payload_eq {part : Part} (same : part.payload.length = part.shown.length) : part.payload = part.shown := by
  cases part with
  | start => exact (eq_nil_of_length_eq_zero same.symm).symm
  | _ => rfl

theorem flatMap_groups {γ : Type} (f : Part → List γ) :
    groups.flatMap (fun group => group.flatMap f) = groups.flatten.flatMap f := by
  induction groups with
  | nil => rfl
  | cons group rest ih => rw [flatMap_cons, flatten_cons, flatMap_append, ih]

variable (cut : groups.flatten = items.flatMap partsOf) (fits : ∀ piece ∈ groups.map pieceOf, piece.length ≤ chunkSize)

include cut in
theorem group_isChain : ∀ group ∈ groups, group.IsChain Part.Precedes :=
  groups_isChain (cut ▸ parts_isChain items)

include cut fits

theorem received_shown (vacant : PiecesOpen (groups.map pieceOf)) :
    received (groups.map pieceOf) = (items.flatMap partsOf).flatMap Part.shown := by
  rw [received, flatMap_map, ← cut, ← flatMap_groups]
  apply flatMap_congr
  intro group member
  have inside := mem_map_of_mem (f := pieceOf) member
  exact filterTelnetIac_piece (group_isChain cut group member) (fits _ inside) (vacant _ inside)

/-- A piece that plain bytes fill makes the result shorter. -/
theorem piecesOpen_of_length
    (whole : (received (groups.map pieceOf)).length = ((items.flatMap partsOf).flatMap Part.shown).length) :
    PiecesOpen (groups.map pieceOf) := by
  rw [received, flatMap_map, ← cut, ← flatMap_groups] at whole
  have shorter : ∀ group ∈ groups,
      (filterTelnetIac chunkSize 0 (pieceOf group)).length ≤ (group.flatMap Part.shown).length := by
    intro group member
    exact filterTelnetIac_piece_le (group_isChain cut group member) (fits _ (mem_map_of_mem member))
  have same := flatMap_length_eq shorter whole
  intro piece member full
  obtain ⟨group, inside, rfl⟩ := mem_map.mp member
  by_contra plain
  exact absurd (same group inside) (ne_of_lt (filterTelnetIac_piece_full full plain))

omit cut fits in
theorem shown_eq_data (whole : BlocksWhole items) :
    (items.flatMap partsOf).flatMap Part.shown = dataOf items := by
  rw [← payload_items]
  apply flatMap_congr
  intro part member
  exact (Part.payload_eq ((blocksWhole_iff items).mp whole part member)).symm

end Aligned

section Plain

variable {dstCap j : Nat}

/-- An `IAC` byte weighs one and another byte two, so that an encoded byte weighs two. -/
def weight (src : Bytes) : Nat := (src.map fun c => if c = iac then 1 else 2).sum

theorem weight_append (first second : Bytes) : weight (first ++ second) = weight first + weight second := by
  rw [weight, map_append, sum_append]
  rfl

theorem weight_iac (rest : Bytes) : weight (iac :: rest) = 1 + weight rest := by
  rfl

theorem weight_plain {c : UInt8} (plain : c ≠ iac) (rest : Bytes) : weight (c :: rest) = 2 + weight rest := by
  rw [weight, map_cons, if_neg plain]
  rfl

variable (data : Bytes) {pieces : List Bytes}

theorem weight_binaryWrite : weight (binaryWrite data) = 2 * data.length := by
  induction data with
  | nil => rfl
  | cons byte more ih =>
    have split := binaryWrite_cons_append byte more []
    rw [append_nil, append_nil] at split
    rw [split, weight_append, length_cons]
    rcases binaryWrite_byte byte with ⟨-, unit⟩ | ⟨plain, unit⟩
    · rw [unit, weight_iac, weight_iac, weight]
      simp only [map_nil, sum_nil]
      omega
    · rw [unit, weight_plain plain, weight]
      simp only [map_nil, sum_nil]
      omega

theorem weight_suffix {first second : Bytes} (suffix : first <:+ second) : weight first ≤ weight second := by
  obtain ⟨before, rfl⟩ := suffix
  rw [weight_append]
  omega

theorem skipBlock_suffix (src : Bytes) : skipBlock src <:+ src := by
  induction src with
  | nil => exact suffix_refl _
  | cons c rest ih =>
    rw [skipBlock]
    split_ifs
    · exact (tail_suffix rest).trans (suffix_cons c rest)
    · exact ih.trans (suffix_cons c rest)

theorem skipCommand_suffix (cmd : UInt8) (rest : Bytes) : skipCommand cmd rest <:+ rest := by
  rw [skipCommand]
  split_ifs
  · exact suffix_refl _
  · exact tail_suffix rest
  · exact suffix_refl _

theorem filterTelnetIac_closed {src : Bytes} (closed : dstCap ≤ j) : filterTelnetIac dstCap j src = [] := by
  rw [filterTelnetIac.eq_def, if_pos closed]

/-- A returned byte takes an encoded byte of the piece, and only encoded bytes are returned whole. -/
theorem filterTelnetIac_weight (dstCap j : Nat) (src : Bytes) : 2 * (filterTelnetIac dstCap j src).length ≤ weight src ∧
    (2 * (filterTelnetIac dstCap j src).length = weight src → ∃ data, src = binaryWrite data) := by
  induction src using filter_induction generalizing j with
  | nil => exact ⟨by rw [filterTelnetIac_nil]; exact Nat.zero_le _, fun _ => ⟨[], rfl⟩⟩
  | plain c rest plain ih =>
    by_cases room : j + 1 < dstCap
    · obtain ⟨least, exact⟩ := ih (j + 1)
      rw [filterTelnetIac_plain plain room, weight_plain plain, length_cons]
      refine ⟨by omega, fun same => ?_⟩
      obtain ⟨data, rfl⟩ := exact (by omega)
      exact ⟨c :: data, by simp [binaryWrite, plain]⟩
    · obtain ⟨least, -⟩ := ih j
      rw [filterTelnetIac_plain_full plain (not_lt.mp room), weight_plain plain]
      exact ⟨by omega, fun same => by omega⟩
  | alone =>
    rw [filterTelnetIac_end, weight_iac, length_nil]
    exact ⟨by omega, fun same => by omega⟩
  | escape rest ih =>
    rw [weight_iac, weight_iac]
    by_cases closed : dstCap ≤ j
    · rw [filterTelnetIac_closed closed, length_nil]
      exact ⟨by omega, fun same => by omega⟩
    · obtain ⟨least, exact⟩ := ih (j + 1)
      rw [filterTelnetIac_iac (by omega), length_cons]
      refine ⟨by omega, fun same => ?_⟩
      obtain ⟨data, rfl⟩ := exact (by omega)
      exact ⟨iac :: data, by simp [binaryWrite]⟩
  | block rest ih =>
    rw [weight_iac, weight_plain (by decide)]
    by_cases closed : dstCap ≤ j
    · rw [filterTelnetIac_closed closed, length_nil]
      exact ⟨by omega, fun same => by omega⟩
    · have least := (ih j).1
      have less := weight_suffix (skipBlock_suffix rest)
      rw [filterTelnetIac_block (by omega)]
      exact ⟨by omega, fun same => by omega⟩
  | command cmd rest noEscape noBlock ih =>
    rw [weight_iac, weight_plain noEscape]
    by_cases closed : dstCap ≤ j
    · rw [filterTelnetIac_closed closed, length_nil]
      exact ⟨by omega, fun same => by omega⟩
    · have least := (ih j).1
      have less := weight_suffix (skipCommand_suffix cmd rest)
      rw [filterTelnetIac_command noEscape noBlock (by omega)]
      exact ⟨by omega, fun same => by omega⟩

theorem pieces_encoded (lossless : 2 * (received pieces).length = weight pieces.flatten) :
    ∀ piece ∈ pieces, 2 * (filterTelnetIac chunkSize 0 piece).length = weight piece := by
  have least : ∀ pieces : List Bytes, 2 * (received pieces).length ≤ weight pieces.flatten := by
    intro pieces
    induction pieces with
    | nil => exact Nat.zero_le _
    | cons piece rest ih =>
      have first := (filterTelnetIac_weight chunkSize 0 piece).1
      rw [flatten_cons, weight_append]
      rw [received] at ih ⊢
      rw [flatMap_cons, length_append]
      omega
  induction pieces with
  | nil => exact forall_mem_nil _
  | cons piece rest ih =>
    have first := (filterTelnetIac_weight chunkSize 0 piece).1
    have others := least rest
    rw [flatten_cons, weight_append, received, flatMap_cons, length_append] at lossless
    rw [received] at ih others
    exact forall_mem_cons.mpr ⟨by omega, ih (by omega)⟩

theorem dataOf_map : dataOf (data.map Item.data) = data := by
  induction data with
  | nil => rfl
  | cons byte more ih => rw [map_cons, dataOf, ih]

theorem streamOf_map : streamOf (data.map Item.data) = binaryWrite data := by
  rw [streamOf, flatMap_map]
  apply flatMap_congr
  intro byte _
  rw [Item.bytes, binaryWrite, flatMap_singleton]

theorem parts_data : (data.map Item.data).flatMap partsOf = data.map Part.data := by
  induction data with
  | nil => rfl
  | cons byte more ih =>
    rw [map_cons, flatMap_cons, ih]
    rfl

theorem pieceOf_data : pieceOf (data.map Part.data) = binaryWrite data := by
  rw [pieceOf, flatMap_map]
  apply flatMap_congr
  intro byte _
  rw [Part.bytes, binaryWrite, flatMap_singleton]

theorem weight_of_plain {src : Bytes} (plain : iac ∉ src) : weight src = 2 * src.length := by
  induction src with
  | nil => rfl
  | cons c rest ih =>
    rw [mem_cons, not_or] at plain
    rw [weight_plain (Ne.symm plain.1), ih plain.2, length_cons]
    omega

theorem exists_parts (encoded : ∀ piece ∈ pieces, ∃ data, piece = binaryWrite data) :
    ∃ parts : List Bytes, pieces = parts.map binaryWrite := by
  induction pieces with
  | nil => exact ⟨[], rfl⟩
  | cons piece rest ih =>
    obtain ⟨⟨data, rfl⟩, others⟩ := forall_mem_cons.mp encoded
    obtain ⟨parts, rfl⟩ := ih others
    exact ⟨data :: parts, rfl⟩

theorem alignedCut_of_received {data : Bytes} (stream : pieces.flatten = binaryWrite data)
    (fits : ∀ piece ∈ pieces, piece.length ≤ chunkSize) (arrived : received pieces = data) :
    AlignedCut (data.map Item.data) pieces ∧ PiecesOpen pieces := by
  have lossless : 2 * (received pieces).length = weight pieces.flatten := by
    rw [stream, arrived, weight_binaryWrite]
  have whole := pieces_encoded lossless
  have vacant : PiecesOpen pieces := by
    intro piece member full
    by_contra plain
    have same := whole piece member
    rw [filterTelnetIac_full plain (by rw [full, zero_add]), length_dropLast, weight_of_plain plain, full,
      chunkSize] at same
    omega
  obtain ⟨parts, rfl⟩ := exists_parts fun piece member => (filterTelnetIac_weight chunkSize 0 piece).2
    (whole piece member)
  have pieces : parts.map binaryWrite = (parts.map (map Part.data)).map pieceOf := by
    rw [map_map]
    apply map_congr_left
    intro part _
    exact (pieceOf_data part).symm
  have cut : (parts.map (map Part.data)).flatten = (parts.flatten.map Item.data).flatMap partsOf := by
    rw [parts_data, map_flatten]
  have decoded : parts.flatten = data := by
    rw [pieces] at fits vacant arrived
    rw [← arrived, received_shown cut fits vacant, shown_eq_data, dataOf_map]
    intro content member
    simp at member
  refine ⟨⟨_, ?_, pieces⟩, vacant⟩
  rw [cut, decoded]

end Plain

/-- The pieces of a stream arrive decoded when no cut falls inside of a part, no block holds an escaped `IAC` byte and
an `SE` byte before more, and no piece fills the buffer with plain bytes. Each of the last two conditions is necessary
when the others hold, and so are the first and the last for a stream without commands. -/
theorem received_data (items : List Item) (pieces : List Bytes) (stream : pieces.flatten = streamOf items)
    (fits : ∀ piece ∈ pieces, piece.length ≤ chunkSize) :
    (AlignedCut items pieces →
      (BlocksWhole items → PiecesOpen pieces → received pieces = dataOf items) ∧
      (PiecesOpen pieces → received pieces = dataOf items → BlocksWhole items) ∧
      (BlocksWhole items → received pieces = dataOf items → PiecesOpen pieces)) ∧
    ((∀ item ∈ items, ∃ byte, item = .data byte) →
      (received pieces = dataOf items ↔ AlignedCut items pieces ∧ PiecesOpen pieces)) := by
  have aligned : AlignedCut items pieces →
      (BlocksWhole items → PiecesOpen pieces → received pieces = dataOf items) ∧
      (PiecesOpen pieces → received pieces = dataOf items → BlocksWhole items) ∧
      (BlocksWhole items → received pieces = dataOf items → PiecesOpen pieces) := by
    rintro ⟨groups, cut, rfl⟩
    refine ⟨?_, ?_, ?_⟩
    · intro whole vacant
      exact (received_shown cut fits vacant).trans (shown_eq_data whole)
    · intro vacant arrived
      have lengths := congrArg length ((received_shown cut fits vacant).symm.trans arrived)
      rw [← payload_items] at lengths
      rw [blocksWhole_iff]
      exact flatMap_length_eq (fun part _ => part.payload_length) lengths.symm
    · intro whole arrived
      exact piecesOpen_of_length cut fits (congrArg length (arrived.trans (shown_eq_data whole).symm))
  refine ⟨aligned, ?_⟩
  intro plain
  obtain ⟨data, rfl⟩ : ∃ data : Bytes, items = data.map Item.data := by
    clear stream fits aligned
    induction items with
    | nil => exact ⟨[], rfl⟩
    | cons item rest ih =>
      obtain ⟨⟨byte, rfl⟩, others⟩ := forall_mem_cons.mp plain
      obtain ⟨data, rfl⟩ := ih others
      exact ⟨byte :: data, rfl⟩
  rw [streamOf_map] at stream
  rw [dataOf_map] at aligned ⊢
  constructor
  · intro arrived
    exact alignedCut_of_received stream fits arrived
  · rintro ⟨cut, vacant⟩
    apply (aligned cut).1 _ vacant
    intro content member
    simp at member

/-- A letter and a command in two pieces. -/
theorem received_data_letter : received [[byte 'a'], [iac, 241]] = [byte 'a'] := by
  apply ((received_data [.data (byte 'a'), .command (.other 241 (by decide))] [[byte 'a'], [iac, 241]] (by decide)
    (by decide)).1 ⟨[[.data (byte 'a')], [.short 241 (by decide)]], rfl, by decide⟩).1
  · intro content member
    simp at member
  · intro piece member full
    simp only [mem_cons, not_mem_nil, or_false] at member
    rcases member with rfl | rfl
    · exact absurd full (by decide)
    · exact mem_cons_self

/-- A command that is cut shows its code. -/
theorem received_cut_command :
    [[iac], [241]].flatten = streamOf [.command (.other 241 (by decide))] ∧
      dataOf [.command (.other 241 (by decide))] = [] ∧ received [[iac], [241]] = [241] := by
  refine ⟨rfl, rfl, ?_⟩
  rw [received, flatMap_cons, flatMap_singleton, filterTelnetIac_end,
    filterTelnetIac_plain (by decide) (by decide), filterTelnetIac_nil]
  rfl

end SshChatter.Ddial
