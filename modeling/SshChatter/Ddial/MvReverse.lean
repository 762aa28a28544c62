import SshChatter.Ddial.MailText

namespace SshChatter.Ddial
open CString Codepage List

/-- The scan of `mv_reverse` goes back over continuation bytes, but not in front of the string. -/
def codeStart (s : Bytes) : Nat → Nat
  | 0 => 0
  | start + 1 => if s.getD (start + 1) 0 &&& 0xC0 = 0x80 then codeStart s start else start + 1

theorem codeStart_le (s : Bytes) (start : Nat) : codeStart s start ≤ start := by
  induction start with
  | zero => exact le_refl _
  | succ start ih =>
    rw [codeStart]
    split_ifs
    · exact Nat.le_succ_of_le ih
    · exact le_refl _

/-- The loop appends the last piece in front of `stop` to `tmp` and goes on in front of that piece. -/
def reverseLoop (s : Bytes) (stop : Nat) (tmp : Bytes) : Bytes :=
  if stop = 0 then tmp
  else reverseLoop s (codeStart s (stop - 1)) (tmp ++ (s.take stop).drop (codeStart s (stop - 1)))
termination_by stop
decreasing_by
  have before := codeStart_le s (stop - 1)
  omega

def mvReverse (s : Bytes) : Bytes := if 1024 ≤ s.length then s else reverseLoop s s.length []

section Loop

variable {s front tails back tmp : Bytes} {lead : UInt8}

theorem codeStart_tails (solid : ¬ Tail lead) (all : ∀ c ∈ tails, Tail c) (count : Nat)
    (inside : count ≤ tails.length) :
    codeStart (front ++ (lead :: tails ++ back)) (front.length + count) = front.length := by
  induction count with
  | zero =>
    cases place : front.length with
    | zero => rfl
    | succ place' =>
      have byteThere : (front ++ (lead :: tails ++ back)).getD (place' + 1) 0 = lead := by
        simp [← place]
      rw [codeStart, byteThere, if_neg ((tail_iff lead).not.mpr solid)]
  | succ count ih =>
    have byteThere : (front ++ (lead :: tails ++ back)).getD (front.length + count + 1) 0 = tails[count] := by
      have behind : front.length + count + 1 = front.length + (count + 1) := by omega
      simp [behind, getElem?_append_right, getElem?_append_left inside, getElem?_eq_getElem inside]
    rw [← add_assoc, codeStart, byteThere, if_pos ((tail_iff _).mpr (all _ (getElem_mem _)))]
    exact ih (Nat.le_of_succ_le inside)

theorem reverseLoop_word {word : Bytes} (found : LeadCode.Word Inside tailBounds word) :
    reverseLoop (front ++ (word ++ back)) (front ++ word).length tmp =
      reverseLoop (front ++ (word ++ back)) front.length (tmp ++ word) := by
  obtain ⟨lead, tails, rfl, solid, all⟩ : ∃ lead tails, word = lead :: tails ∧ ¬ Tail lead ∧ ∀ c ∈ tails, Tail c := by
    rcases word_shape found with ⟨a, low, rfl⟩ | ⟨lead, tails, rfl, high, -, all, -⟩
    · exact ⟨a, [], rfl, not_tail_low low, by simp⟩
    · exact ⟨lead, tails, rfl, not_tail_lead high, all⟩
  have last : (front ++ lead :: tails).length - 1 = front.length + tails.length := by simp
  have piece : ((front ++ (lead :: tails ++ back)).take (front ++ lead :: tails).length).drop front.length =
      lead :: tails := by
    rw [← append_assoc, take_left, drop_left]
  rw [reverseLoop, if_neg (by simp), last, codeStart_tails solid all _ (le_refl _), piece]

theorem reverseLoop_words {words : List Bytes} (found : ∀ word ∈ words, LeadCode.Word Inside tailBounds word) :
    reverseLoop (words.flatten ++ back) words.flatten.length tmp = tmp ++ words.reverse.flatten := by
  induction words using reverseRecOn generalizing back tmp with
  | nil => rw [reverseLoop]; simp
  | append_singleton words word ih =>
    rw [flatten_append, flatten_singleton, append_assoc, reverseLoop_word (found word (by simp)),
      ih fun word' member => found word' (mem_append_left _ member)]
    simp

end Loop

section Texts

variable {codepoints : List Nat}

def encoding (codepoints : List Nat) : Bytes := codepoints.flatMap fun codepoint => encodeUtf8Codepoint codepoint 4

theorem encoding_reverse_length (codepoints : List Nat) :
    (encoding codepoints.reverse).length = (encoding codepoints).length := by
  simp [encoding]

/-- A valid string that fits is written with its code points in reverse order. -/
theorem mvReverse_encoding (scalars : ∀ codepoint ∈ codepoints, Scalar codepoint)
    (short : (encoding codepoints).length < 1024) : mvReverse (encoding codepoints) = encoding codepoints.reverse := by
  have words : ∀ word ∈ codepoints.map fun codepoint => encodeUtf8Codepoint codepoint 4,
      LeadCode.Word Inside tailBounds word := by
    intro word member
    obtain ⟨codepoint, found, rfl⟩ := mem_map.mp member
    exact (word_iff _).mpr ⟨codepoint, scalars codepoint found, rfl⟩
  have loop := @reverseLoop_words [] [] _ words
  rw [append_nil, ← map_reverse] at loop
  rw [mvReverse, if_neg (not_le.mpr short)]
  exact loop

/-- Every valid UTF-8 string that is shorter than the temporary array comes back with its code points in reverse order.
It stays valid and keeps its length, and a second call gives the string back. -/
theorem mvReverse_involution (text : Bytes) (short : text.length < 1024) (valid : Encoded text) :
    (∀ codepoints : List Nat, (∀ codepoint ∈ codepoints, Scalar codepoint) → text = encoding codepoints →
      mvReverse text = encoding codepoints.reverse) ∧
      Encoded (mvReverse text) ∧ (mvReverse text).length = text.length ∧ mvReverse (mvReverse text) = text := by
  obtain ⟨codepoints, scalars, rfl⟩ := valid
  have scalars' : ∀ codepoint ∈ codepoints.reverse, Scalar codepoint := fun codepoint member =>
    scalars codepoint (mem_reverse.mp member)
  have once : mvReverse (encoding codepoints) = encoding codepoints.reverse := mvReverse_encoding scalars short
  have short' : (encoding codepoints.reverse).length < 1024 := (encoding_reverse_length codepoints).trans_lt short
  have twice := mvReverse_encoding scalars' short'
  rw [reverse_reverse] at twice
  refine ⟨?_, ?_⟩
  · rintro codepoints' all same
    rw [same] at short ⊢
    exact mvReverse_encoding all short
  · change Encoded (mvReverse (encoding codepoints)) ∧ (mvReverse (encoding codepoints)).length = _ ∧
      mvReverse (mvReverse (encoding codepoints)) = _
    rw [once]
    exact ⟨⟨codepoints.reverse, scalars', rfl⟩, encoding_reverse_length codepoints, twice⟩

/-- A letter of one byte and a letter of two bytes change places. -/
theorem mvReverse_pair : mvReverse [0x61, 0xC3, 0xA9] = [0xC3, 0xA9, 0x61] ∧
    mvReverse (mvReverse [0x61, 0xC3, 0xA9]) = [0x61, 0xC3, 0xA9] := by
  have scalars : ∀ codepoint ∈ [0x61, 0xE9], Scalar codepoint := by simp [Scalar]
  have whole : [0x61, 0xC3, 0xA9] = encoding [0x61, 0xE9] := by decide
  have laws := mvReverse_involution [0x61, 0xC3, 0xA9] (by decide) ⟨[0x61, 0xE9], scalars, whole⟩
  exact ⟨laws.1 _ scalars whole, laws.2.2.2⟩

end Texts

end SshChatter.Ddial
