import SshChatter.Security.BlockCoding

namespace SshChatter.Onion
open CString List

section Envelope

variable {library : Library} {working : Bytes} {component : Component} {components : List Component} {text : Bytes}

/-- The text stands for the component in an envelope. -/
structure Encodes (library : Library) (length : Nat) (component : Component) (text : Bytes) : Prop where
  length : text.length = blockLength (ivLen + tagLen + length)
  clean : ∀ c ∈ text, c ≠ dot ∧ c ≠ 0
  decoded : decodeSegment library text = some component.block

/-- The number of filling characters is the number of filled bytes. -/
theorem padding_count (length : Nat) :
    (if length % 3 ≠ 0 then 1 else 0) + (if length % 3 = 1 then 1 else 0) = (3 - length % 3) % 3 := by
  have remainder : length % 3 = 0 ∨ length % 3 = 1 ∨ length % 3 = 2 := by omega
  rcases remainder with rest | rest | rest <;> rw [rest] <;> rfl

variable {texts : List Bytes} {length : Nat} {later : List (Bytes × Bytes)}

theorem encodeComponent_encodes (lawful : library.Lawful) (sized : component.block.length = ivLen + tagLen + length)
    (small : blockLength (ivLen + tagLen + length) ≤ intMax) :
    ∃ text, encodeComponent library component = some text ∧ Encodes library length component text := by
  have present : component.block ≠ [] := by
    rw [← length_pos_iff, sized]
    exact Nat.add_pos_left (by decide) _
  obtain ⟨text, encoded, textLength, clean, last, beforeLast, decoded⟩ :=
    lawful.coding component.block present (sized ▸ small)
  have long : 2 ≤ text.length := by
    rw [textLength, sized, blockLength]
    simp only [ivLen]
    omega
  refine ⟨text, encoded, sized ▸ textLength, clean, ?_⟩
  have pad : (if 1 ≤ text.length ∧ text[text.length - 1]? = some (byte '=') then 1 else 0) +
      (if 2 ≤ text.length ∧ text[text.length - 2]? = some (byte '=') then 1 else 0) =
      (3 - component.block.length % 3) % 3 := by
    simp only [last, beforeLast, long, Nat.le_of_succ_le long, true_and]
    exact padding_count _
  have usable : ¬component.block.length < ivLen + tagLen := by omega
  simp only [decodeSegment, decoded, pad, length_append, length_replicate, Nat.add_sub_cancel, usable,
    if_false, take_left]

theorem mapM_encodes (lawful : library.Lawful)
    (sized : ∀ component ∈ components, component.block.length = ivLen + tagLen + length)
    (small : blockLength (ivLen + tagLen + length) ≤ intMax) :
    ∃ texts, components.mapM (encodeComponent library) = some texts ∧
      List.Forall₂ (Encodes library length) components texts := by
  induction components with
  | nil => exact ⟨[], rfl, List.Forall₂.nil⟩
  | cons component rest ih =>
    obtain ⟨first, later⟩ := forall_mem_cons.mp sized
    obtain ⟨text, encoded, stands⟩ := encodeComponent_encodes lawful first small
    obtain ⟨texts, others, stand⟩ := ih later
    refine ⟨text :: texts, ?_, List.Forall₂.cons stands stand⟩
    rw [mapM_cons, encoded, others]
    rfl

/-- A level opens when its component was sealed with the same key. -/
theorem openLayers_step (lawful : library.Lawful) {key iv cipher : Bytes} {current : Option Bytes}
    (ivSized : iv.length = ivLen)
    (decoded : decodeSegment library text = some (iv ++ (library.encrypt key iv working).2 ++ cipher))
    (taken : currentCipher current cipher = some (library.encrypt key iv working).1) :
    openLayers library ((key, text) :: later) current = openLayers library later (some working) := by
  have tag := lawful.tagLength key iv working
  have kept := lawful.cipherLength key iv working
  have front : (iv ++ (library.encrypt key iv working).2).length = ivLen + tagLen := by
    rw [length_append, ivSized, tag]
  have rest : (iv ++ (library.encrypt key iv working).2 ++ cipher).drop (ivLen + tagLen) = cipher := by
    rw [← front, drop_left]
  have ivPart : (iv ++ (library.encrypt key iv working).2 ++ cipher).take ivLen = iv := by
    rw [append_assoc, ← ivSized, take_left]
  have tagPart : ((iv ++ (library.encrypt key iv working).2 ++ cipher).drop ivLen).take tagLen =
      (library.encrypt key iv working).2 := by
    rw [append_assoc, ← ivSized, drop_left, ← tag, take_left]
  simp only [openLayers, decoded, rest, taken, ivPart, tagPart, lawful.inverse, kept, ne_eq, not_true_eq_false,
    if_false]

theorem openLayers_sealed (lawful : library.Lawful) {levels : List (Bytes × Bytes)} (some : levels ≠ [])
    (sized : ∀ level ∈ levels, level.2.length = ivLen) (small : working.length ≤ intMax)
    (stand : List.Forall₂ (Encodes library working.length) (layersOf library levels working) texts) :
    openLayers library (((levels.map Prod.fst).zip texts).reverse ++ later) none =
      openLayers library later (.some working) := by
  induction levels generalizing working texts later with
  | nil => exact absurd rfl some
  | cons level rest ih =>
    obtain ⟨key, iv⟩ := level
    obtain ⟨ivSized, restSized⟩ := forall_mem_cons.mp sized
    have kept := lawful.cipherLength key iv working
    rw [layersOf, forall₂_cons_left_iff] at stand
    obtain ⟨text, texts, first, others, rfl⟩ := stand
    have decoded := first.decoded
    rw [map_cons, zip_cons_cons, reverse_cons, append_assoc]
    by_cases last : rest = []
    · subst last
      rw [Component.block, if_pos rfl, ← kept, take_length] at decoded
      apply openLayers_step lawful ivSized decoded
      exact if_neg (not_lt.mpr (kept ▸ small))
    · rw [ih last restSized (kept.symm ▸ small) (kept.symm ▸ others)]
      rw [if_neg last] at decoded
      apply openLayers_step lawful ivSized decoded
      apply if_neg
      simp only [length_take, lawful.releasedLength, kept, min_self, ne_eq, not_true_eq_false,
        not_false_eq_true]

def envelopeLength (length : Nat) : Nat :=
  onionPrefix.length + layerLevels * blockLength (ivLen + tagLen + length) + (layerLevels - 1)

/-- The joined texts have a dot between each two. -/
theorem sum_lengths (stand : List.Forall₂ (Encodes library length) components texts) :
    (texts.map List.length).sum = components.length * blockLength (ivLen + tagLen + length) := by
  induction stand with
  | nil => simp
  | cons first _ ih => rw [map_cons, sum_cons, ih, first.length, length_cons, Nat.succ_mul, add_comm]

theorem layersOf_length (levels : List (Bytes × Bytes)) (working : Bytes) :
    (layersOf library levels working).length = levels.length := by
  induction levels generalizing working with
  | nil => rfl
  | cons level rest ih => rw [layersOf, length_cons, ih, length_cons]

variable {layer : Layer} {draws : Draws} {plaintext : Bytes}

def levelsOf (layer : Layer) (draws : Draws) : List (Bytes × Bytes) := layer.subkeys.zip draws.ivs

theorem levelsOf_length : (levelsOf layer draws).length = layerLevels := by
  rw [levelsOf, length_zip, layer.levels, draws.levels, min_self]

theorem levelsOf_sized : ∀ level ∈ levelsOf layer draws, level.2.length = ivLen :=
  fun level member => draws.sized level.2 (of_mem_zip member).2

theorem levelsOf_keys : (levelsOf layer draws).map Prod.fst = layer.subkeys :=
  map_fst_zip (by rw [layer.levels, draws.levels])

/-- The segments of an envelope stand for the components, the last one first. -/
theorem encryptMessage_eq (lawful : library.Lawful) (ready : layer.ready) (draws : Draws) (outLen : Nat)
    (small : blockLength (ivLen + tagLen + plaintext.length) ≤ intMax) :
    ∃ texts : List Bytes,
      List.Forall₂ (Encodes library plaintext.length) (layersOf library (levelsOf layer draws) plaintext) texts ∧
      encryptMessage library layer draws plaintext outLen =
        if outLen ≤ envelopeLength plaintext.length then none
        else some (onionPrefix ++ Segments.join dot texts.reverse) := by
  have fits : ¬intMax < plaintext.length := by
    simp only [blockLength] at small
    omega
  have sized : ∀ component ∈ (layersOf library (levelsOf layer draws) plaintext).reverse,
      component.block.length = ivLen + tagLen + plaintext.length :=
    fun component member => block_length lawful levelsOf_sized plaintext component (mem_reverse.mp member)
  obtain ⟨texts, encoded, stand⟩ := mapM_encodes lawful sized small
  have required : (texts.map length).sum = layerLevels * blockLength (ivLen + tagLen + plaintext.length) := by
    rw [sum_lengths stand, length_reverse, layersOf_length, levelsOf_length]
  refine ⟨texts.reverse, ?_, ?_⟩
  · rw [← reverse_reverse (layersOf library (levelsOf layer draws) plaintext)]
    exact rel_reverse stand
  · have sealing := sealLayers_eq lawful (levelsOf layer draws) plaintext
    rw [reverse_reverse]
    rw [levelsOf] at sealing encoded
    by_cases room : outLen = 0
    · rw [encryptMessage, if_pos (.inr room), if_pos (room ▸ Nat.zero_le _)]
    · rw [encryptMessage, if_neg (by simp [ready, room]), if_neg fits, sealing]
      simp only [encoded, required]
      rfl

theorem envelope_length
    (stand : List.Forall₂ (Encodes library length) (layersOf library (levelsOf layer draws) plaintext) texts) :
    (onionPrefix ++ Segments.join dot texts.reverse).length = envelopeLength length := by
  have count : texts.length = layerLevels := by
    rw [← stand.length_eq, layersOf_length, levelsOf_length]
  have present : texts.reverse ≠ [] := by
    rw [← length_pos_iff, length_reverse, count]
    decide
  rw [length_append, Segments.join_length dot present, map_reverse, sum_reverse, sum_lengths stand,
    length_reverse, count, layersOf_length, levelsOf_length, envelopeLength, ← add_assoc]

/-- The envelope is opened with the plaintext when the buffer has room for it. -/
theorem decryptMessage_texts (lawful : library.Lawful) (ready : layer.ready) (nulFree : 0 ∉ plaintext)
    (small : plaintext.length ≤ intMax)
    (stand : List.Forall₂ (Encodes library plaintext.length) (layersOf library (levelsOf layer draws) plaintext) texts)
    {plaintextLen : Nat} (room : plaintext.length < plaintextLen) :
    decryptMessage library layer (onionPrefix ++ Segments.join dot texts.reverse) plaintextLen = some plaintext := by
  have count : texts.length = layerLevels := by
    rw [← stand.length_eq, layersOf_length, levelsOf_length]
  have valid : ∀ text ∈ texts.reverse, text ≠ [] ∧ dot ∉ text := by
    intro text member
    obtain ⟨component, encodes⟩ : ∃ component, Encodes library plaintext.length component text := by
      obtain ⟨index, bound, rfl⟩ := getElem_of_mem (mem_reverse.mp member)
      exact ⟨_, (forall₂_iff_get.mp stand).2 index (stand.length_eq ▸ bound) bound⟩
    constructor
    · rw [← length_pos_iff, encodes.length, blockLength]
      simp only [ivLen]
      omega
    · exact fun inside => (encodes.clean dot inside).1 rfl
  have found := Segments.segments_join valid
  have present : Segments.join dot texts.reverse ≠ [] := by
    intro empty
    rw [empty] at found
    rw [← length_reverse, ← found] at count
    exact absurd count (by decide)
  have pairs : layer.subkeys.reverse.zip texts.reverse =
      (((levelsOf layer draws).map Prod.fst).zip texts).reverse ++ [] := by
    rw [append_nil, levelsOf_keys]
    exact (reverse_zipWith (layer.levels.trans count.symm)).symm
  have levels : levelsOf layer draws ≠ [] := by
    rw [← length_pos_iff, levelsOf_length]
    decide
  have visible : plaintext.takeWhile (· ≠ 0) = plaintext := by
    apply takeWhile_eq_self_iff.mpr
    intro c member
    exact decide_eq_true fun zero => nulFree (zero ▸ member)
  rw [decryptMessage, if_neg (by simp [ready, ne_of_gt (Nat.zero_lt_of_lt room)]),
    if_neg (by rw [take_left, not_not]), drop_left, if_neg present]
  simp only [found, length_reverse, count]
  rw [pairs, openLayers_sealed lawful levels levelsOf_sized small stand, openLayers]
  simp only [not_le.mpr room]
  exact congrArg some visible

end Envelope

/-- A message is sealed exactly when its envelope fits, and the envelope opens to the message. A message that is
longer than `INT_MAX` is refused. -/
theorem encryptMessage_round_trip (library : Library) (lawful : library.Lawful) (layer : Layer)
    (ready : layer.ready) (draws : Draws) (plaintext : Bytes) (nulFree : 0 ∉ plaintext) (outLen : Nat) :
    (blockLength (ivLen + tagLen + plaintext.length) ≤ intMax →
      ((encryptMessage library layer draws plaintext outLen).isSome ↔ envelopeLength plaintext.length < outLen) ∧
      ∀ envelope, encryptMessage library layer draws plaintext outLen = some envelope →
        envelope.length = envelopeLength plaintext.length ∧
        ∀ plaintextLen, plaintext.length < plaintextLen →
          decryptMessage library layer envelope plaintextLen = some plaintext) ∧
    (intMax < plaintext.length → encryptMessage library layer draws plaintext outLen = none) := by
  constructor
  · intro small
    have fits : plaintext.length ≤ intMax := by
      simp only [blockLength] at small
      omega
    obtain ⟨texts, stand, result⟩ := encryptMessage_eq lawful ready draws outLen small
    rw [result]
    by_cases room : outLen ≤ envelopeLength plaintext.length
    · simp [room]
    · rw [if_neg room]
      refine ⟨by simpa using room, ?_⟩
      intro envelope envelope_eq
      cases envelope_eq
      refine ⟨envelope_length stand, ?_⟩
      intro plaintextLen enough
      exact decryptMessage_texts lawful ready nulFree fits stand enough
  · intro long
    rw [encryptMessage]
    split_ifs <;> rfl

/-- The tags of the texts that the letter `a` takes under the zero key and the zero vector. -/
def letterTag (plain : Bytes) : Bytes :=
  if plain = [0x61] then
    [0x52, 0xec, 0x6f, 0x61, 0xd5, 0xf1, 0x34, 0xc6, 0x1c, 0x06, 0x49, 0x06, 0x85, 0xe4, 0x58, 0x4b]
  else
    [0x05, 0xba, 0x13, 0x45, 0x1e, 0xd5, 0x7b, 0xda, 0xf0, 0x93, 0xc0, 0x7c, 0x85, 0x98, 0xf5, 0xb7]

/-- A library that seals the letter `a` under the zero key and the zero vector as the real one does. -/
def letterLibrary : Library where
  encrypt _ _ plain := (plain.map (· ^^^ 0xce), letterTag plain)
  decrypt _ _ cipher tag :=
    if tag = letterTag (cipher.map (· ^^^ 0xce)) then some (cipher.map (· ^^^ 0xce)) else none
  encodeBlock block := some (encodeBlock block)
  decodeBlock := decodeBlock
  released buffer := buffer

theorem letterLibrary_lawful : letterLibrary.Lawful where
  cipherLength _ _ _ := length_map _
  tagLength _ _ plain := by
    change (letterTag plain).length = _
    rw [letterTag]
    split_ifs <;> rfl
  inverse _ _ plain := by
    have back : (plain.map (· ^^^ 0xce)).map (· ^^^ 0xce) = plain := by
      simp only [map_map, Function.comp_def, UInt8.xor_assoc, UInt8.xor_self, UInt8.xor_zero, map_id']
    simp only [letterLibrary, back, if_true]
  coding block present _ :=
    ⟨encodeBlock block, rfl, encodeBlock_length block, encodeBlock_clean block, (encodeBlock_filling block present).1,
      (encodeBlock_filling block present).2, decodeBlock_encode block⟩
  releasedLength _ := rfl

def zeroLayer : Layer := ⟨true, replicate 3 (replicate 32 0), rfl⟩

def zeroDraws : Draws := ⟨replicate 3 (replicate 12 0), rfl, by decide⟩

/-- A message of one letter is sealed and opened. -/
theorem encryptMessage_round_trip_letter :
    ∃ envelope, encryptMessage letterLibrary zeroLayer zeroDraws [0x61] 256 = some envelope ∧
      decryptMessage letterLibrary zeroLayer envelope 2 = some [0x61] := by
  have result := (encryptMessage_round_trip letterLibrary letterLibrary_lawful zeroLayer rfl zeroDraws [0x61]
    (by decide) 256).1 (by decide)
  obtain ⟨envelope, sealed⟩ := Option.isSome_iff_exists.mp (result.1.mpr (by decide))
  exact ⟨envelope, sealed, (result.2 envelope sealed).2 2 (by decide)⟩

/-- A message that is longer than `INT_MAX` is refused in a buffer that has room for its envelope. -/
theorem encryptMessage_long_message :
    letterLibrary.Lawful ∧ zeroLayer.ready ∧ 0 ∉ replicate 2147483648 (byte 'a') ∧
      envelopeLength (replicate 2147483648 (byte 'a')).length < 2 ^ 34 ∧
      encryptMessage letterLibrary zeroLayer zeroDraws (replicate 2147483648 (byte 'a')) (2 ^ 34) = none := by
  refine ⟨letterLibrary_lawful, rfl, ?_, ?_, ?_⟩
  · intro member
    exact absurd (eq_of_mem_replicate member) (by decide)
  · rw [length_replicate]
    decide
  · rw [encryptMessage]
    rw [length_replicate]
    decide

end SshChatter.Onion
