import SshChatter.Security.OnionRoundTrip

namespace SshChatter.Onion
open CString List

/-- One encryption with what it was given and what it produced. -/
structure Triple where
  key : Bytes
  iv : Bytes
  cipher : Bytes
  tag : Bytes
  plain : Bytes
  deriving DecidableEq

/-- One call of `security_layer_encrypt_message`. -/
structure Sealing where
  draws : Draws
  plaintext : Bytes

def triplesOf (library : Library) : List (Bytes × Bytes) → Bytes → List Triple
  | [], _ => []
  | (key, iv) :: rest, working =>
    let sealed := library.encrypt key iv working
    ⟨key, iv, sealed.1, sealed.2, working⟩ :: triplesOf library rest sealed.1

def Sealing.triples (library : Library) (layer : Layer) (call : Sealing) : List Triple :=
  triplesOf library (levelsOf layer call.draws) call.plaintext

/-- The encryptions of all the calls. -/
def produced (library : Library) (layer : Layer) (history : List Sealing) : List Triple :=
  history.flatMap (Sealing.triples library layer)

def Triple.opens (key iv cipher tag : Bytes) (triple : Triple) : Bool :=
  triple.key = key ∧ triple.iv = iv ∧ triple.cipher = cipher ∧ triple.tag = tag

def Library.ideal (library : Library) (layer : Layer) (history : List Sealing) : Library :=
  { library with decrypt := fun key iv cipher tag =>
      ((produced library layer history).find? (Triple.opens key iv cipher tag)).map Triple.plain }

/-- The levels open one after the other. Of a decoded segment the vector and the tag count, and the length of the
rest. -/
inductive Opens (triples : List Triple) : List (Bytes × Bytes) → Bytes → Bytes → Prop
  | done (plain : Bytes) : Opens triples [] plain plain
  | level {key block cipher plain : Bytes} {rest : List (Bytes × Bytes)} {triple : Triple} : triple ∈ triples →
      triple.key = key → triple.iv = block.take ivLen → triple.tag = (block.drop ivLen).take tagLen →
      triple.cipher = cipher → (block.drop (ivLen + tagLen)).length = cipher.length →
      Opens triples rest triple.plain plain → Opens triples ((key, block) :: rest) cipher plain

def envelopeSegments (envelope : Bytes) : List Bytes := Segments.segments dot (envelope.drop onionPrefix.length)

/-- The second envelope differs from the first in one byte of what a segment decodes to. -/
structure Altered (library : Library) (envelope altered : Bytes) (index position : Nat) (value : UInt8)
    (block : Bytes) : Prop where
  original : ∃ segment, (envelopeSegments envelope)[index]? = some segment ∧ decodeSegment library segment = some block
  differs : ∃ byte, block[position]? = some byte ∧ byte ≠ value
  replaced : ∃ text, decodeSegment library text = some (block.set position value) ∧
    envelopeSegments altered = (envelopeSegments envelope).set index text
  named : envelope.take onionPrefix.length = onionPrefix ∧ altered.take onionPrefix.length = onionPrefix

/-- The encryption has the vector and the tag of a decoded segment, and for the first segment its ciphertext. -/
def Triple.Matches (layer : Layer) (index : Nat) (block : Bytes) (triple : Triple) : Prop :=
  layer.subkeys.reverse[index]? = some triple.key ∧ triple.iv = block.take ivLen ∧
    triple.tag = (block.drop ivLen).take tagLen ∧ (index = 0 → triple.cipher = block.drop (ivLen + tagLen))

def Unrepeated (triples : List Triple) : Prop :=
  ∀ first ∈ triples, ∀ second ∈ triples, first.key = second.key → first.cipher = second.cipher → first = second

section Acceptance

variable {library : Library} {layer : Layer} {history : List Sealing}

theorem ideal_decrypt {key iv cipher tag plain : Bytes}
    (opened : (library.ideal layer history).decrypt key iv cipher tag = some plain) :
    ∃ triple ∈ produced library layer history, triple.key = key ∧ triple.iv = iv ∧ triple.cipher = cipher ∧
      triple.tag = tag ∧ triple.plain = plain := by
  obtain ⟨triple, found, rfl⟩ := Option.map_eq_some_iff.mp opened
  have same := find?_some found
  simp only [Triple.opens, decide_eq_true_eq] at same
  exact ⟨triple, mem_of_find?_eq_some found, same.1, same.2.1, same.2.2.1, same.2.2.2, rfl⟩

variable {rest : List (Bytes × Bytes)} {keys segments : List Bytes} {key segment plain : Bytes}

/-- What a level that opens has read. -/
theorem openLayers_cons {current : Option Bytes}
    (opened : openLayers library ((key, segment) :: rest) current = some plain) :
    ∃ block cipher working, decodeSegment library segment = some block ∧
      currentCipher current (block.drop (ivLen + tagLen)) = some cipher ∧
      library.decrypt key (block.take ivLen) cipher ((block.drop ivLen).take tagLen) = some working ∧
      openLayers library rest (some working) = some plain := by
  rw [openLayers] at opened
  cases decoded : decodeSegment library segment with
  | none =>
    rw [decoded] at opened
    cases opened
  | some block =>
    simp only [decoded] at opened
    cases taken : currentCipher current (block.drop (ivLen + tagLen)) with
    | none =>
      rw [taken] at opened
      cases opened
    | some cipher =>
      simp only [taken] at opened
      cases decrypted : library.decrypt key (block.take ivLen) cipher ((block.drop ivLen).take tagLen) with
      | none =>
        rw [decrypted] at opened
        cases opened
      | some working =>
        simp only [decrypted] at opened
        split_ifs at opened
        exact ⟨block, cipher, working, rfl, taken, decrypted, opened⟩

theorem opens_level {key block cipher working plain : Bytes}
    (decrypted : (library.ideal layer history).decrypt key (block.take ivLen) cipher ((block.drop ivLen).take tagLen) =
      some working)
    (length : (block.drop (ivLen + tagLen)).length = cipher.length)
    (later : Opens (produced library layer history) rest working plain) :
    Opens (produced library layer history) ((key, block) :: rest) cipher plain := by
  obtain ⟨triple, member, sameKey, sameIv, sameCipher, sameTag, rfl⟩ := ideal_decrypt decrypted
  exact .level member sameKey sameIv sameTag sameCipher length later

def Decodes (library : Library) (segments blocks : List Bytes) : Prop :=
  List.Forall₂ (fun segment block => decodeSegment library segment = some block) segments blocks

theorem openLayers_later {cipher plain : Bytes} (count : keys.length = segments.length)
    (opened : openLayers (library.ideal layer history) (keys.zip segments) (some cipher) = some plain) :
    ∃ blocks, Decodes library segments blocks ∧
      Opens (produced library layer history) (keys.zip blocks) cipher plain := by
  induction segments generalizing keys cipher with
  | nil =>
    rw [zip_nil_right] at opened
    cases opened
    exact ⟨[], .nil, by rw [zip_nil_right]; exact .done _⟩
  | cons segment segments ih =>
    obtain ⟨key, keys, rfl⟩ := exists_cons_of_length_eq_add_one count
    obtain ⟨block, taken, working, decoded, current, decrypted, later⟩ := openLayers_cons opened
    rw [currentCipher] at current
    split_ifs at current with length
    cases current
    obtain ⟨blocks, others, opens⟩ := ih (Nat.succ.inj count) later
    exact ⟨block :: blocks, .cons decoded others, opens_level decrypted (not_not.mp length) opens⟩

theorem openLayers_first (count : keys.length = segments.length)
    (opened : openLayers (library.ideal layer history) ((key, segment) :: keys.zip segments) none = some plain) :
    ∃ block blocks, Decodes library (segment :: segments) (block :: blocks) ∧
      Opens (produced library layer history) ((key, block) :: keys.zip blocks) (block.drop (ivLen + tagLen)) plain := by
  obtain ⟨block, cipher, working, decoded, current, decrypted, later⟩ := openLayers_cons opened
  rw [currentCipher] at current
  split_ifs at current
  cases current
  obtain ⟨blocks, others, opens⟩ := openLayers_later count later
  exact ⟨block, blocks, .cons decoded others, opens_level decrypted rfl opens⟩

theorem decryptMessage_named {library : Library} {envelope : Bytes}
    (named : envelope.take onionPrefix.length = onionPrefix) (plaintextLen : Nat) :
    decryptMessage library layer envelope plaintextLen =
      if layer.ready = false ∨ plaintextLen = 0 then none
      else if (envelopeSegments envelope).length ≠ layerLevels then none
      else match openLayers library (layer.subkeys.reverse.zip (envelopeSegments envelope)) none with
        | none => none
        | some current => if plaintextLen ≤ current.length then none else some (current.takeWhile (· ≠ 0)) := by
  rw [decryptMessage, if_neg (not_not.mpr named)]
  by_cases empty : envelope.drop onionPrefix.length = []
  · have segments : (envelopeSegments envelope).length ≠ layerLevels := by
      rw [envelopeSegments, empty]
      decide
    rw [if_pos empty, if_pos segments]
  · rw [if_neg empty]
    rfl

theorem decryptMessage_opens {envelope message : Bytes} {plaintextLen : Nat}
    (accepted : decryptMessage (library.ideal layer history) layer envelope plaintextLen = some message) :
    ∃ block blocks plain, Decodes library (envelopeSegments envelope) (block :: blocks) ∧ blocks.length = 2 ∧
      message = plain.takeWhile (· ≠ 0) ∧
      Opens (produced library layer history) (layer.subkeys.reverse.zip (block :: blocks))
        (block.drop (ivLen + tagLen)) plain := by
  by_cases named : envelope.take onionPrefix.length = onionPrefix
  · rw [decryptMessage_named named] at accepted
    split_ifs at accepted with refused count
    have three : (envelopeSegments envelope).length = 3 := not_not.mp count
    have keys : layer.subkeys.reverse.length = 3 := by rw [length_reverse, layer.levels]; rfl
    obtain ⟨segment, segments, split⟩ := exists_cons_of_length_eq_add_one three
    obtain ⟨key, others, keysEq⟩ := exists_cons_of_length_eq_add_one keys
    rw [split, length_cons] at three
    rw [keysEq, length_cons] at keys
    rw [split, keysEq, zip_cons_cons] at accepted
    rw [keysEq, split]
    cases opened : openLayers (library.ideal layer history) ((key, segment) :: others.zip segments) none with
    | none =>
      rw [opened] at accepted
      cases accepted
    | some plain =>
      rw [opened] at accepted
      dsimp only at accepted
      split_ifs at accepted
      obtain ⟨block, blocks, decoded, opens⟩ := openLayers_first (by omega) opened
      refine ⟨block, blocks, plain, decoded, ?_, (Option.some.inj accepted).symm, opens⟩
      have lengths := decoded.length_eq
      simp only [length_cons] at lengths
      omega
  · rw [decryptMessage, if_pos named, ite_self] at accepted
    cases accepted

end Acceptance

section Alteration

variable {library : Library} {layer : Layer} {history : List Sealing}

/-- A level uses the vector and the tag of an encryption. -/
theorem Opens.produced_at {triples : List Triple} {pairs : List (Bytes × Bytes)} {cipher plain key block : Bytes}
    {index : Nat} (opens : Opens triples pairs cipher plain) (found : pairs[index]? = some (key, block)) :
    ∃ triple ∈ triples, triple.key = key ∧ triple.iv = block.take ivLen ∧
      triple.tag = (block.drop ivLen).take tagLen ∧ (index = 0 → triple.cipher = cipher) := by
  induction opens generalizing index with
  | done => simp at found
  | level member sameKey sameIv sameTag sameCipher length later ih =>
    cases index with
    | zero =>
      obtain ⟨rfl, rfl⟩ := Prod.mk.inj (Option.some.inj found)
      exact ⟨_, member, sameKey, sameIv, sameTag, fun _ => sameCipher⟩
    | succ index =>
      obtain ⟨triple, inside, key, iv, tag, -⟩ := ih found
      exact ⟨triple, inside, key, iv, tag, fun zero => absurd zero (Nat.succ_ne_zero index)⟩

/-- After the first level the loop reads only the vector, the tag and the length of a segment. -/
theorem openLayers_set {keys segments : List Bytes} {index : Nat} {segment text block changed cipher : Bytes}
    (found : segments[index]? = some segment) (before : decodeSegment library segment = some block)
    (after : decodeSegment library text = some changed) (iv : changed.take ivLen = block.take ivLen)
    (tag : (changed.drop ivLen).take tagLen = (block.drop ivLen).take tagLen)
    (length : changed.length = block.length) :
    openLayers library (keys.zip (segments.set index text)) (some cipher) =
      openLayers library (keys.zip segments) (some cipher) := by
  induction segments generalizing keys index cipher with
  | nil => rfl
  | cons first rest ih =>
    cases keys with
    | nil => rfl
    | cons =>
      cases index with
      | zero =>
        cases found
        simp only [set_cons_zero, zip_cons_cons, openLayers, before, after, iv, tag, currentCipher,
          length_drop, length]
      | succ =>
        simp only [set_cons_succ, zip_cons_cons, openLayers, ih found]

/-- A byte of the ciphertext in a later segment does not count. -/
theorem decryptMessage_altered_cipher {envelope altered block : Bytes} {index position : Nat} {value : UInt8}
    (change : Altered library envelope altered index position value block) (later : 0 < index)
    (cipher : ivLen + tagLen ≤ position) (plaintextLen : Nat) :
    decryptMessage library layer altered plaintextLen = decryptMessage library layer envelope plaintextLen := by
  obtain ⟨segment, found, before⟩ := change.original
  obtain ⟨text, after, segments⟩ := change.replaced
  have iv : (block.set position value).take ivLen = block.take ivLen :=
    take_set_of_le (le_trans (Nat.le_add_right _ _) cipher)
  have tag : ((block.set position value).drop ivLen).take tagLen = (block.drop ivLen).take tagLen := by
    rw [take_drop, take_drop, take_set_of_le (Nat.add_comm _ _ ▸ cipher)]
  rw [decryptMessage_named change.named.1, decryptMessage_named change.named.2, segments, length_set]
  cases list : envelopeSegments envelope with
  | nil =>
    rw [list] at found
    cases found
  | cons first rest =>
    obtain ⟨index, rfl⟩ := Nat.exists_eq_add_one_of_ne_zero (ne_of_gt later)
    rw [list, getElem?_cons_succ] at found
    have same : ∀ keys : List Bytes, openLayers library (keys.zip (first :: rest.set index text)) none =
        openLayers library (keys.zip (first :: rest)) none := by
      intro keys
      cases keys with
      | nil => rfl
      | cons =>
        simp only [zip_cons_cons, openLayers,
          openLayers_set found before after iv tag (length_set ..)]
    rw [set_cons_succ, same]

/-- The other bytes count. An altered envelope opens only when an encryption has produced what it then holds. -/
theorem decryptMessage_altered_matches {envelope altered block message : Bytes} {index position plaintextLen : Nat}
    {value : UInt8} (change : Altered library envelope altered index position value block)
    (accepted : decryptMessage (library.ideal layer history) layer altered plaintextLen = some message) :
    ∃ triple ∈ produced library layer history, triple.Matches layer index (block.set position value) := by
  obtain ⟨segment, found, -⟩ := change.original
  obtain ⟨text, after, segments⟩ := change.replaced
  obtain ⟨first, blocks, plain, decodes, count, -, opens⟩ := decryptMessage_opens accepted
  have length := decodes.length_eq
  rw [segments] at decodes length
  rw [length_set, length_cons] at length
  obtain ⟨bound, -⟩ := List.getElem?_eq_some_iff.mp found
  have inside : index < (first :: blocks).length := by
    rw [length_cons]
    omega
  have decoded := (forall₂_iff_get.mp decodes).2 index (by rw [length_set]; exact bound) inside
  simp only [get_eq_getElem, getElem_set_self, after, Option.some.injEq] at decoded
  have keyBound : index < layer.subkeys.reverse.length := by
    rw [length_reverse, layer.levels, layerLevels]
    omega
  have pair : (layer.subkeys.reverse.zip (first :: blocks))[index]? =
      some (layer.subkeys.reverse[index], block.set position value) := by
    rw [getElem?_zip_eq_some, decoded]
    exact ⟨getElem?_eq_getElem keyBound, getElem?_eq_getElem inside⟩
  obtain ⟨triple, member, key, iv, tag, cipher⟩ := opens.produced_at pair
  refine ⟨triple, member, ?_, iv, tag, ?_⟩
  · rw [key]
    exact getElem?_eq_getElem keyBound
  · intro zero
    subst zero
    rw [cipher rfl, decoded]
    rfl

end Alteration

section OneCall

variable {library : Library} {layer : Layer} {history : List Sealing}

theorem mem_produced {call : Sealing} {triple : Triple} (member : call ∈ history)
    (inside : triple ∈ call.triples library layer) : triple ∈ produced library layer history :=
  mem_flatMap.mpr ⟨call, member, inside⟩

/-- The three encryptions of a call. -/
theorem Sealing.triples_eq (library : Library) {first second third : Bytes}
    (subkeys : layer.subkeys = [first, second, third]) (call : Sealing) :
    ∃ inner middle outer : Triple, call.triples library layer = [inner, middle, outer] ∧
      inner.key = first ∧ middle.key = second ∧ outer.key = third ∧ inner.plain = call.plaintext ∧
      middle.plain = inner.cipher ∧ outer.plain = middle.cipher := by
  obtain ⟨a, b, c, ivs⟩ := length_eq_three.mp call.draws.levels
  rw [Sealing.triples, levelsOf, subkeys, ivs]
  exact ⟨_, _, _, rfl, rfl, rfl, rfl, rfl, rfl, rfl⟩

theorem Opens.first_level {triples : List Triple} {key block cipher plain : Bytes} {rest : List (Bytes × Bytes)}
    (opens : Opens triples ((key, block) :: rest) cipher plain) :
    ∃ triple ∈ triples, triple.key = key ∧ triple.iv = block.take ivLen ∧
      triple.tag = (block.drop ivLen).take tagLen ∧ triple.cipher = cipher ∧
      (block.drop (ivLen + tagLen)).length = cipher.length ∧ Opens triples rest triple.plain plain := by
  cases opens with
  | level member sameKey sameIv sameTag sameCipher length later =>
    exact ⟨_, member, sameKey, sameIv, sameTag, sameCipher, length, later⟩

/-- The encryptions come from one call when the ciphertexts tell the calls apart. -/
theorem Opens.one_call {blocks : List Bytes} {cipher plain : Bytes} (distinct : layer.subkeys.Nodup)
    (unrepeated : Unrepeated (produced library layer history)) (count : blocks.length = layerLevels)
    (opens : Opens (produced library layer history) (layer.subkeys.reverse.zip blocks) cipher plain) :
    ∃ call ∈ history, plain = call.plaintext ∧
      Opens (call.triples library layer) (layer.subkeys.reverse.zip blocks) cipher plain := by
  obtain ⟨first, second, third, subkeys⟩ := length_eq_three.mp layer.levels
  obtain ⟨c, b, a, rfl⟩ := length_eq_three.mp count
  rw [subkeys] at opens distinct ⊢
  obtain ⟨outerTriple, outerIn, outerKey, outerIv, outerTag, outerCipher, outerLength, opens⟩ := opens.first_level
  obtain ⟨middleTriple, middleIn, middleKey, middleIv, middleTag, middleCipher, middleLength, opens⟩ :=
    opens.first_level
  obtain ⟨innerTriple, innerIn, innerKey, innerIv, innerTag, innerCipher, innerLength, opens⟩ := opens.first_level
  cases opens
  obtain ⟨call, member, outerOf⟩ := mem_flatMap.mp outerIn
  obtain ⟨inner, middle, outer, triples, keyInner, keyMiddle, keyOuter, plainInner, plainMiddle, plainOuter⟩ :=
    call.triples_eq library subkeys
  rw [triples] at outerOf
  simp only [nodup_cons, mem_cons, not_mem_nil, or_false, not_or] at distinct outerOf
  have isOuter : outerTriple = outer := by
    rcases outerOf with rfl | rfl | rfl
    · exact absurd (keyInner.symm.trans outerKey) distinct.1.2
    · exact absurd (keyMiddle.symm.trans outerKey) distinct.2.1
    · rfl
  subst isOuter
  have isMiddle : middleTriple = middle := by
    apply unrepeated _ middleIn _ (mem_produced member (by rw [triples]; simp))
    · rw [middleKey, keyMiddle]
    · rw [middleCipher, plainOuter]
  subst isMiddle
  have isInner : innerTriple = inner := by
    apply unrepeated _ innerIn _ (mem_produced member (by rw [triples]; simp))
    · rw [innerKey, keyInner]
    · rw [innerCipher, plainMiddle]
  subst isInner
  refine ⟨call, member, plainInner, ?_⟩
  rw [triples]
  apply Opens.level (by simp) outerKey outerIv outerTag outerCipher outerLength
  apply Opens.level (by simp) middleKey middleIv middleTag middleCipher middleLength
  apply Opens.level (by simp) innerKey innerIv innerTag innerCipher innerLength
  exact Opens.done _

end OneCall

/-- The levels of an accepted envelope open with encryptions that were made, and with those of one call when the
ciphertexts tell the calls apart. Of the later segments only the vector, the tag and the length of the ciphertext
count. Any other change must yield what an encryption has produced. -/
theorem decryptMessage_integrity (library : Library) (layer : Layer) (history : List Sealing) (plaintextLen : Nat) :
    (∀ envelope message, decryptMessage (library.ideal layer history) layer envelope plaintextLen = some message →
      ∃ block blocks plain, Decodes library (envelopeSegments envelope) (block :: blocks) ∧ blocks.length = 2 ∧
        message = plain.takeWhile (· ≠ 0) ∧
        Opens (produced library layer history) (layer.subkeys.reverse.zip (block :: blocks))
          (block.drop (ivLen + tagLen)) plain ∧
        (layer.subkeys.Nodup → Unrepeated (produced library layer history) →
          ∃ call ∈ history, plain = call.plaintext ∧
            Opens (call.triples library layer) (layer.subkeys.reverse.zip (block :: blocks))
              (block.drop (ivLen + tagLen)) plain)) ∧
    ∀ envelope altered index position value block, Altered library envelope altered index position value block →
      (0 < index → ivLen + tagLen ≤ position →
        decryptMessage (library.ideal layer history) layer altered plaintextLen =
          decryptMessage (library.ideal layer history) layer envelope plaintextLen) ∧
      ((∀ triple ∈ produced library layer history, ¬triple.Matches layer index (block.set position value)) →
        decryptMessage (library.ideal layer history) layer altered plaintextLen = none) := by
  constructor
  · intro envelope message accepted
    obtain ⟨block, blocks, plain, decodes, count, visible, opens⟩ := decryptMessage_opens accepted
    refine ⟨block, blocks, plain, decodes, count, visible, opens, ?_⟩
    intro distinct unrepeated
    apply opens.one_call distinct unrepeated
    rw [length_cons, count]
    rfl
  · intro envelope altered index position value block change
    constructor
    · intro later cipher
      have same : Altered (library.ideal layer history) envelope altered index position value block :=
        ⟨change.original, change.differs, change.replaced, change.named⟩
      exact decryptMessage_altered_cipher same later cipher plaintextLen
    · intro unmatched
      rw [Option.eq_none_iff_forall_ne_some]
      intro message accepted
      obtain ⟨triple, member, same⟩ := decryptMessage_altered_matches change accepted
      exact unmatched triple member same

def letterEnvelope (cipher : UInt8) (tag : Bytes) : Bytes :=
  onionPrefix ++ Segments.join dot
    [encodeBlock (replicate ivLen 0 ++ letterTag [0x61] ++ [0xaf]),
      encodeBlock (replicate ivLen 0 ++ tag ++ [cipher]),
      encodeBlock (replicate ivLen 0 ++ letterTag [0x61] ++ [0xaf])]

def letterBlock : Bytes := replicate ivLen 0 ++ letterTag [0xaf] ++ [0x61]

theorem letterEnvelope_altered_tag :
    Altered letterLibrary (letterEnvelope 0x61 (letterTag [0xaf]))
      (letterEnvelope 0x61 ((letterTag [0xaf]).set 0 0x06)) 1 12 0x06 letterBlock where
  original := ⟨encodeBlock letterBlock, by decide +kernel, by decide +kernel⟩
  differs := ⟨0x05, by decide +kernel, by decide +kernel⟩
  replaced := ⟨encodeBlock (letterBlock.set 12 0x06), by decide +kernel, by decide +kernel⟩
  named := by decide +kernel

/-- A changed tag in the middle segment is refused. -/
theorem decryptMessage_integrity_letter :
    decryptMessage (letterLibrary.ideal zeroLayer [⟨zeroDraws, [0x61]⟩]) zeroLayer
      (letterEnvelope 0x61 ((letterTag [0xaf]).set 0 0x06)) 2 = none := by
  apply ((decryptMessage_integrity letterLibrary zeroLayer [⟨zeroDraws, [0x61]⟩] 2).2 _ _ _ _ _ _
    letterEnvelope_altered_tag).2
  intro triple member same
  have unlike : ∀ triple ∈ produced letterLibrary zeroLayer [⟨zeroDraws, [0x61]⟩],
      triple.tag ≠ ((letterBlock.set 12 0x06).drop ivLen).take tagLen := by
    decide +kernel
  exact unlike triple member same.2.2.1

/-- A changed ciphertext in the middle segment is not noticed. -/
theorem decryptMessage_altered_middle :
    encryptMessage letterLibrary zeroLayer zeroDraws [0x61] 256 = some (letterEnvelope 0x61 (letterTag [0xaf])) ∧
    Altered letterLibrary (letterEnvelope 0x61 (letterTag [0xaf])) (letterEnvelope 0x62 (letterTag [0xaf])) 1 28 0x62
      letterBlock ∧
    (∀ triple ∈ produced letterLibrary zeroLayer [⟨zeroDraws, [0x61]⟩], triple.cipher ≠ [0x62]) ∧
    decryptMessage (letterLibrary.ideal zeroLayer [⟨zeroDraws, [0x61]⟩]) zeroLayer
      (letterEnvelope 0x62 (letterTag [0xaf])) 2 = some [0x61] := by
  refine ⟨by decide +kernel, ⟨?_, ?_, ?_, ?_⟩, by decide +kernel, by decide +kernel⟩
  · exact ⟨encodeBlock letterBlock, by decide +kernel, by decide +kernel⟩
  · exact ⟨0x61, by decide +kernel, by decide +kernel⟩
  · exact ⟨encodeBlock (letterBlock.set 28 0x62), by decide +kernel, by decide +kernel⟩
  · decide +kernel

end SshChatter.Onion
