import SshChatter.Display.Wrap

namespace SshChatter.DisplayModel
open CString List

section Reads

def readAt (cursor : Bytes) (index : Nat) : Option UInt8 := (cursor ++ [0])[index]?

def checkedParameters : Bytes → Option Nat
  | [] => none
  | c :: rest => if c ≠ 0 ∧ 0x20 ≤ c ∧ c < 0x40 then (checkedParameters rest).map (· + 1) else some 0

/-- The length of a control sequence with its reads. -/
def checkedCsi (cursor : Bytes) : Option Nat := do
  let parameters ← checkedParameters ((cursor ++ [0]).drop 2)
  let final ← readAt cursor (2 + parameters)
  pure (if final ≠ 0 then 3 + parameters else 2 + parameters)

/-- The code point is read before the announced length is checked. -/
def checkedLead (cursor : Bytes) : Option (Nat × UInt32) := do
  let lead ← readAt cursor 0
  if lead &&& 0xE0 = 0xC0 then pure (leadWidth cursor)
  else if lead &&& 0xF0 = 0xE0 then
    let _ ← readAt cursor 1
    let _ ← readAt cursor 2
    pure (leadWidth cursor)
  else if lead &&& 0xF8 = 0xF0 then
    let _ ← readAt cursor 1
    let _ ← readAt cursor 2
    let _ ← readAt cursor 3
    pure (leadWidth cursor)
  else pure (leadWidth cursor)

def checkedContinuation (cursor : Bytes) (announced : Nat) : Nat → Nat → Option Nat
  | 0, _ => some announced
  | fuel + 1, i =>
    if i < announced then do
      let c ← readAt cursor i
      if c = 0 then pure announced
      else if c &&& 0xC0 ≠ 0x80 then pure i
      else checkedContinuation cursor announced fuel (i + 1)
    else some announced

def checkedSecond (cursor : Bytes) (lead : UInt8) : Option UInt8 := if lead = 0x1B then readAt cursor 1 else some 0

/-- This is `utf8_char_width` with every read checked. -/
def checkedWidth (cursor : Bytes) : Option (Nat × UInt32) := do
  let lead ← readAt cursor 0
  let second ← checkedSecond cursor lead
  if lead = 0x1B ∧ second = byte '[' then
    let length ← checkedCsi cursor
    pure (length, 0)
  else if lead < 0x80 then pure (1, if 0x20 ≤ lead then 1 else 0)
  else
    let announced ← checkedLead cursor
    let length ← checkedContinuation cursor announced.1 4 1
    pure (length, announced.2)

variable {cursor : Bytes} {index : Nat}

theorem readAt_eq {c : UInt8} (present : readAt cursor index = some c) :
    c = byteAt cursor index ∧ index ≤ cursor.length := by
  obtain ⟨inside, value⟩ := List.getElem?_eq_some_iff.mp present
  rw [length_append] at inside
  refine ⟨?_, Nat.le_of_lt_succ inside⟩
  rw [← value, byteAt, getD_eq_getElem?_getD]
  rcases lt_or_eq_of_le (Nat.le_of_lt_succ inside) with less | rfl
  · rw [getElem_append_left less, getElem?_eq_getElem less]
    rfl
  · rw [getElem_append_right (le_refl _)]
    simp

theorem readAt_inside (inside : index ≤ cursor.length) : readAt cursor index = some (byteAt cursor index) := by
  have less : index < (cursor ++ [0]).length := by
    rw [length_append]
    exact Nat.lt_succ_of_le inside
  have present : readAt cursor index = some (cursor ++ [0])[index] := getElem?_eq_getElem less
  rw [present, (readAt_eq present).1]

theorem readAt_outside (outside : cursor.length < index) : readAt cursor index = none := by
  apply getElem?_eq_none
  rw [length_append]
  exact outside

end Reads

section Memory

variable {cursor beyond : Bytes}
variable {index : Nat}

theorem byteAt_memory (inside : index ≤ cursor.length) :
    byteAt (cursor ++ 0 :: beyond) index = byteAt cursor index := by
  rw [byteAt, byteAt, getD_eq_getElem?_getD, getD_eq_getElem?_getD]
  rcases lt_or_eq_of_le inside with less | rfl
  · rw [getElem?_append_left less]
  · rw [getElem?_append_right (le_refl _)]
    simp

theorem lt_of_byteAt (some : byteAt cursor index ≠ 0) : index < cursor.length := by
  by_contra outside
  apply some
  rw [byteAt, getD_eq_getElem?_getD, getElem?_eq_none (Nat.le_of_not_lt outside)]
  rfl

theorem byteAt_getElem (inside : index < cursor.length) : byteAt cursor index = cursor[index] := by
  rw [byteAt, getD_eq_getElem?_getD, getElem?_eq_getElem inside]
  rfl

theorem byteAt_ne (clean : 0 ∉ cursor) (inside : index < cursor.length) : byteAt cursor index ≠ 0 := by
  rw [byteAt_getElem inside]
  intro zero
  exact clean (zero ▸ getElem_mem inside)

theorem startsCsi_length (starts : startsCsi cursor) : 2 ≤ cursor.length := by
  have second : byteAt cursor 1 = byte '[' := (of_decide_eq_true starts).2
  apply lt_of_byteAt
  rw [second]
  decide

theorem startsCsi_memory : startsCsi (cursor ++ 0 :: beyond) = startsCsi cursor := by
  unfold startsCsi
  rw [byteAt_memory (Nat.zero_le _)]
  cases cursor with
  | nil => simp [byteAt]
  | cons => rw [byteAt_memory (Nat.succ_le_succ (Nat.zero_le _))]

def isParameter (c : UInt8) : Bool := c ≠ 0 ∧ 0x20 ≤ c ∧ c < 0x40

theorem takeWhile_memory (items : Bytes) :
    (items ++ 0 :: beyond).takeWhile isParameter = items.takeWhile isParameter := by
  induction items with
  | nil => rfl
  | cons c items ih =>
    rw [cons_append, takeWhile_cons, takeWhile_cons, ih]

def parameters (cursor : Bytes) : Nat := ((cursor.drop 2).takeWhile isParameter).length

theorem csiLength_eq (cursor : Bytes) :
    csiLength cursor = if byteAt cursor (2 + parameters cursor) ≠ 0 then 3 + parameters cursor
      else 2 + parameters cursor :=
  rfl

theorem parameters_le (starts : startsCsi cursor) : 2 + parameters cursor ≤ cursor.length := by
  have long := startsCsi_length starts
  have short := (takeWhile_sublist isParameter (l := cursor.drop 2)).length_le
  rw [length_drop] at short
  unfold parameters
  omega

theorem csiLength_memory (starts : startsCsi cursor) : csiLength (cursor ++ 0 :: beyond) = csiLength cursor := by
  have same : parameters (cursor ++ 0 :: beyond) = parameters cursor := by
    unfold parameters
    rw [drop_append_of_le_length (startsCsi_length starts), takeWhile_memory]
  rw [csiLength_eq, csiLength_eq, same, byteAt_memory (parameters_le starts)]

/-- A control sequence ends before the terminator. -/
theorem csiLength_le (starts : startsCsi cursor) : csiLength cursor ≤ cursor.length := by
  have short := parameters_le starts
  rw [csiLength_eq]
  split_ifs with final
  · have inside := lt_of_byteAt final
    omega
  · exact short

theorem leadWidth_memory : (leadWidth (cursor ++ 0 :: beyond)).1 = (leadWidth cursor).1 := by
  unfold leadWidth
  dsimp only
  rw [byteAt_memory (Nat.zero_le _)]
  split_ifs <;> rfl

theorem continuationLength_memory (announced fuel i : Nat) (inside : i ≤ cursor.length) :
    continuationLength (cursor ++ 0 :: beyond) announced fuel i = continuationLength cursor announced fuel i := by
  induction fuel generalizing i with
  | zero => rfl
  | succ fuel ih =>
    rw [continuationLength, continuationLength, byteAt_memory inside]
    split_ifs with more
    · rfl
    · exact ih (i + 1) (lt_of_byteAt more.2)
    · rfl

/-- The bytes behind the terminator do not change the length of a character. -/
theorem advance_memory (present : cursor ≠ []) :
    (utf8CharWidth (cursor ++ 0 :: beyond)).1 = (utf8CharWidth cursor).1 := by
  have one : 1 ≤ cursor.length := length_pos_iff.mpr present
  unfold utf8CharWidth
  rw [startsCsi_memory, byteAt_memory (Nat.zero_le _)]
  split_ifs with starts
  · exact csiLength_memory starts
  · rfl
  · rfl
  · change continuationLength _ _ 4 1 = continuationLength _ _ 4 1
    rw [continuationLength_memory _ 4 1 one, leadWidth_memory]

end Memory

section Advance

variable {cursor : Bytes}

def announced (cursor : Bytes) : Nat := if byteAt cursor 0 < 0x80 then 1 else (leadWidth cursor).1

/-- The terminator cuts off a character of several bytes. -/
def Truncated (cursor : Bytes) : Prop :=
  cursor.length < announced cursor ∧ ∀ c ∈ cursor.tail, c &&& 0xC0 = 0x80

instance (cursor : Bytes) : Decidable (Truncated cursor) := inferInstanceAs (Decidable (_ ∧ _))

theorem leadWidth_le (cursor : Bytes) : (leadWidth cursor).1 ≤ 4 := by
  unfold leadWidth
  dsimp only
  split_ifs <;> decide

/-- The continuation loop stays inside unless all bytes that are left are continuations and too few. -/
theorem continuationLength_le (clean : 0 ∉ cursor) (owed fuel i : Nat) (enough : owed ≤ fuel + i)
    (inside : i ≤ cursor.length) (within : i ≤ owed) : continuationLength cursor owed fuel i ≤ cursor.length ↔
      ¬(cursor.length < owed ∧ ∀ c ∈ cursor.drop i, c &&& 0xC0 = 0x80) := by
  induction fuel generalizing i with
  | zero =>
    rw [continuationLength]
    omega
  | succ fuel ih =>
    rw [continuationLength]
    split_ifs with more other
    · have less := lt_of_byteAt more.2
      rw [drop_eq_getElem_cons less, forall_mem_cons, ← byteAt_getElem less]
      exact iff_of_true inside fun all => other all.2.1
    · have less := lt_of_byteAt more.2
      rw [ih (i + 1) (by omega) less more.1, drop_eq_getElem_cons less, forall_mem_cons, ← byteAt_getElem less]
      have continues : byteAt cursor i &&& 0xC0 = 0x80 := not_not.mp other
      rw [and_iff_right continues]
    · rcases lt_or_eq_of_le inside with less | rfl
      · have whole : ¬ i < owed := fun short => more ⟨short, byteAt_ne clean less⟩
        omega
      · rw [drop_length]
        simp

/-- A character passes the terminator if and only if the terminator cuts it off. -/
theorem advance_le (clean : 0 ∉ cursor) (present : cursor ≠ []) :
    (utf8CharWidth cursor).1 ≤ cursor.length ↔ ¬ Truncated cursor := by
  have one : 1 ≤ cursor.length := length_pos_iff.mpr present
  by_cases starts : startsCsi cursor
  · have esc : byteAt cursor 0 = 0x1B := (of_decide_eq_true starts).1
    have lead : announced cursor = 1 := if_pos (by rw [esc]; decide)
    rw [utf8CharWidth, if_pos starts, Truncated, lead]
    exact iff_of_true (csiLength_le starts) fun cut => absurd cut.1 (not_lt.mpr one)
  rw [utf8CharWidth, if_neg starts, Truncated, announced]
  by_cases ascii : byteAt cursor 0 < 0x80
  · rw [if_pos ascii, if_pos ascii]
    exact iff_of_true one fun cut => absurd cut.1 (not_lt.mpr one)
  · have enough := leadWidth_le cursor
    rw [if_neg ascii, if_neg ascii,
      continuationLength_le clean _ 4 1 (by omega) one (leadWidth_pos cursor), drop_one]

/-- A continuation byte of UTF-8. -/
def isContinuation (c : UInt8) : Bool := c &&& 0xC0 = 0x80

def characterLength (cursor : Bytes) : Nat :=
  if startsCsi cursor then csiLength cursor
  else min (announced cursor) (1 + (cursor.tail.takeWhile isContinuation).length)

theorem continuationLength_min (clean : 0 ∉ cursor) (owed fuel i : Nat) (enough : owed ≤ fuel + i)
    (inside : i ≤ cursor.length)
    (within : i ≤ owed) (whole : ¬(cursor.length < owed ∧ ∀ c ∈ cursor.drop i, c &&& 0xC0 = 0x80)) :
    continuationLength cursor owed fuel i = min owed (i + ((cursor.drop i).takeWhile isContinuation).length) := by
  induction fuel generalizing i with
  | zero =>
    rw [continuationLength]
    omega
  | succ fuel ih =>
    rw [continuationLength]
    split_ifs with more other
    · have less := lt_of_byteAt more.2
      rw [drop_eq_getElem_cons less, takeWhile_cons, ← byteAt_getElem less, isContinuation, decide_eq_false other]
      exact (min_eq_right within).symm
    · have less := lt_of_byteAt more.2
      have continues : byteAt cursor i &&& 0xC0 = 0x80 := not_not.mp other
      rw [drop_eq_getElem_cons less, forall_mem_cons, ← byteAt_getElem less, and_iff_right continues] at whole
      rw [ih (i + 1) (by omega) less more.1 whole, drop_eq_getElem_cons less, takeWhile_cons,
        ← byteAt_getElem less, isContinuation, decide_eq_true continues, if_pos rfl, length_cons]
      omega
    · rcases lt_or_eq_of_le inside with less | rfl
      · have full : ¬ i < owed := fun short => more ⟨short, byteAt_ne clean less⟩
        omega
      · rw [drop_length] at whole ⊢
        simp only [not_mem_nil, false_implies, implies_true, and_true] at whole
        omega

/-- A whole character is passed in one step. -/
theorem advance_eq (clean : 0 ∉ cursor) (present : cursor ≠ []) (whole : ¬ Truncated cursor) :
    (utf8CharWidth cursor).1 = characterLength cursor := by
  have one : 1 ≤ cursor.length := length_pos_iff.mpr present
  rw [utf8CharWidth, characterLength]
  by_cases starts : startsCsi cursor
  · rw [if_pos starts, if_pos starts]
  rw [if_neg starts, if_neg starts, announced]
  rw [Truncated, announced] at whole
  by_cases ascii : byteAt cursor 0 < 0x80
  · rw [if_pos ascii, if_pos ascii]
    exact (min_eq_left (Nat.le_add_right 1 _)).symm
  · rw [if_neg ascii] at whole
    rw [if_neg ascii, if_neg ascii, ← drop_one]
    rw [← drop_one] at whole
    have enough := leadWidth_le cursor
    exact continuationLength_min clean _ 4 1 (by omega) one (leadWidth_pos cursor) whole

end Advance

section Checked

variable {cursor : Bytes}

/-- The code point of the character stands inside of the text and its terminator. -/
def InReach (cursor : Bytes) : Prop :=
  (announced cursor = 3 → 2 ≤ cursor.length) ∧ (announced cursor = 4 → 3 ≤ cursor.length)

instance (cursor : Bytes) : Decidable (InReach cursor) := inferInstanceAs (Decidable (_ ∧ _))

theorem checkedParameters_eq (items : Bytes) :
    checkedParameters (items ++ [0]) = some (items.takeWhile isParameter).length := by
  induction items with
  | nil => rfl
  | cons c items ih =>
    rw [cons_append, checkedParameters, ih, takeWhile_cons]
    unfold isParameter
    by_cases more : c ≠ 0 ∧ 0x20 ≤ c ∧ c < 0x40
    · rw [if_pos more, if_pos (decide_eq_true more)]
      rfl
    · rw [if_neg more, if_neg (Bool.eq_false_iff.mp (decide_eq_false more))]
      rfl

theorem checkedCsi_eq (starts : startsCsi cursor) : checkedCsi cursor = some (csiLength cursor) := by
  have memory : (cursor ++ [0]).drop 2 = cursor.drop 2 ++ [0] := drop_append_of_le_length (startsCsi_length starts)
  rw [checkedCsi, memory, checkedParameters_eq]
  change (readAt cursor (2 + parameters cursor)).bind _ = _
  rw [readAt_inside (parameters_le starts)]
  rfl

theorem checkedContinuation_eq (owed fuel i : Nat) (inside : i ≤ cursor.length) :
    checkedContinuation cursor owed fuel i = some (continuationLength cursor owed fuel i) := by
  induction fuel generalizing i with
  | zero => rfl
  | succ fuel ih =>
    rw [checkedContinuation, continuationLength, readAt_inside inside]
    by_cases more : i < owed
    · rw [if_pos more]
      change (if byteAt cursor i = 0 then some owed else _) = _
      by_cases ended : byteAt cursor i = 0
      · rw [if_pos ended, if_neg fun both => both.2 ended]
      · have both : i < owed ∧ byteAt cursor i ≠ 0 := ⟨more, ended⟩
        rw [ih (i + 1) (lt_of_byteAt ended)]
        split_ifs <;> rfl
    · rw [if_neg more, if_neg fun both => more both.1]

variable {beyond : Bytes}

theorem codePoint3_memory (two : 2 ≤ cursor.length) : codePoint3 (cursor ++ 0 :: beyond) = codePoint3 cursor := by
  unfold codePoint3
  rw [byteAt_memory (Nat.zero_le _), byteAt_memory (by omega : 1 ≤ cursor.length), byteAt_memory two]

theorem codePoint4_memory (three : 3 ≤ cursor.length) : codePoint4 (cursor ++ 0 :: beyond) = codePoint4 cursor := by
  unfold codePoint4
  rw [byteAt_memory (Nat.zero_le _), byteAt_memory (by omega : 1 ≤ cursor.length),
    byteAt_memory (by omega : 2 ≤ cursor.length), byteAt_memory three]

/-- What the first byte announces does not depend on the bytes behind the terminator while the code point is in
reach. -/
theorem leadWidth_reach (high : ¬ byteAt cursor 0 < 0x80) (reach : InReach cursor) :
    leadWidth (cursor ++ 0 :: beyond) = leadWidth cursor := by
  obtain ⟨three, four⟩ := reach
  unfold announced at three four
  rw [if_neg high] at three four
  unfold leadWidth at three four ⊢
  rw [byteAt_memory (Nat.zero_le _)]
  by_cases c2 : byteAt cursor 0 &&& 0xE0 = 0xC0
  · rw [if_pos c2, if_pos c2]
  rw [if_neg c2] at three four ⊢
  rw [if_neg c2]
  by_cases c3 : byteAt cursor 0 &&& 0xF0 = 0xE0
  · rw [if_pos c3] at three ⊢
    rw [if_pos c3, codePoint3_memory (three rfl)]
  rw [if_neg c3] at three four ⊢
  rw [if_neg c3]
  by_cases c4 : byteAt cursor 0 &&& 0xF8 = 0xF0
  · rw [if_pos c4] at four ⊢
    rw [if_pos c4, codePoint4_memory (four rfl)]
  · rw [if_neg c4, if_neg c4]

/-- The reads of a lead byte succeed while the code point is in reach. -/
theorem checkedLead_eq (present : cursor ≠ []) (high : ¬ byteAt cursor 0 < 0x80) :
    checkedLead cursor = if InReach cursor then some (leadWidth cursor) else none := by
  have one : 1 ≤ cursor.length := length_pos_iff.mpr present
  have reads : InReach cursor ↔ ((leadWidth cursor).1 = 3 → 2 ≤ cursor.length) ∧
    ((leadWidth cursor).1 = 4 → 3 ≤ cursor.length) := by
    unfold InReach announced
    rw [if_neg high]
  rw [checkedLead, readAt_inside (Nat.zero_le _), readAt_inside one]
  change (if byteAt cursor 0 &&& 0xE0 = 0xC0 then some (leadWidth cursor) else _) = _
  by_cases c2 : byteAt cursor 0 &&& 0xE0 = 0xC0
  · have length : (leadWidth cursor).1 = 2 := by rw [leadWidth, if_pos c2]
    rw [if_pos c2, if_pos (reads.mpr (by rw [length]; omega))]
  rw [if_neg c2]
  by_cases c3 : byteAt cursor 0 &&& 0xF0 = 0xE0
  · have length : (leadWidth cursor).1 = 3 := by rw [leadWidth, if_neg c2, if_pos c3]
    rw [if_pos c3]
    by_cases two : 2 ≤ cursor.length
    · rw [readAt_inside two, if_pos (reads.mpr ⟨fun _ => two, by rw [length]; omega⟩)]
      rfl
    · rw [readAt_outside (Nat.lt_of_not_le two), if_neg fun reach => two ((reads.mp reach).1 length)]
      rfl
  rw [if_neg c3]
  by_cases c4 : byteAt cursor 0 &&& 0xF8 = 0xF0
  · have length : (leadWidth cursor).1 = 4 := by rw [leadWidth, if_neg c2, if_neg c3, if_pos c4]
    rw [if_pos c4]
    by_cases three : 3 ≤ cursor.length
    · rw [readAt_inside (by omega : 2 ≤ cursor.length), readAt_inside three,
        if_pos (reads.mpr ⟨by rw [length]; omega, fun _ => three⟩)]
      rfl
    · rw [readAt_outside (Nat.lt_of_not_le three), if_neg fun reach => three ((reads.mp reach).2 length)]
      cases readAt cursor 2 <;> rfl
  · have length : (leadWidth cursor).1 = 1 := by rw [leadWidth, if_neg c2, if_neg c3, if_neg c4]
    rw [if_neg c4, if_pos (reads.mpr (by rw [length]; omega))]
    rfl

/-- The reads of `utf8_char_width` stay inside if and only if the code point is in reach. They give the width then. -/
theorem checkedWidth_eq (present : cursor ≠ []) (beyond : Bytes) :
    checkedWidth cursor = if InReach cursor then some (utf8CharWidth (cursor ++ 0 :: beyond)) else none := by
  have one : 1 ≤ cursor.length := length_pos_iff.mpr present
  have reach (low : byteAt cursor 0 < 0x80) : InReach cursor := by
    unfold InReach announced
    rw [if_pos low]
    omega
  have second : checkedSecond cursor (byteAt cursor 0) =
    some (if byteAt cursor 0 = 0x1B then byteAt cursor 1 else 0) := by
    rw [checkedSecond, readAt_inside one]
    split_ifs <;> rfl
  rw [checkedWidth, readAt_inside (Nat.zero_le _)]
  change ((checkedSecond cursor (byteAt cursor 0)).bind _) = _
  rw [second, utf8CharWidth, startsCsi_memory, byteAt_memory (Nat.zero_le _)]
  change (if byteAt cursor 0 = 0x1B ∧ (if byteAt cursor 0 = 0x1B then byteAt cursor 1 else 0) =
    byte '[' then _ else _) = _
  by_cases starts : startsCsi cursor
  · obtain ⟨esc, bracket⟩ : byteAt cursor 0 = 0x1B ∧ byteAt cursor 1 = byte '[' := of_decide_eq_true starts
    have both : byteAt cursor 0 = 0x1B ∧ (if byteAt cursor 0 = 0x1B then byteAt cursor 1 else 0) = byte '[' := by
      rw [if_pos esc]
      exact ⟨esc, bracket⟩
    rw [if_pos both, checkedCsi_eq starts, if_pos (reach (by rw [esc]; decide)), if_pos starts, csiLength_memory starts]
    rfl
  · have neither : ¬(byteAt cursor 0 = 0x1B ∧ (if byteAt cursor 0 = 0x1B then byteAt cursor 1 else 0) = byte '[') := by
      rintro ⟨esc, bracket⟩
      rw [if_pos esc] at bracket
      exact starts (decide_eq_true ⟨esc, bracket⟩)
    rw [if_neg neither, if_neg starts]
    by_cases ascii : byteAt cursor 0 < 0x80
    · rw [if_pos ascii, if_pos ascii, if_pos (reach ascii)]
      rfl
    · rw [if_neg ascii, if_neg ascii, checkedLead_eq present ascii]
      by_cases inside : InReach cursor
      · rw [if_pos inside, if_pos inside, leadWidth_reach ascii inside, continuationLength_memory _ 4 1 one]
        change (checkedContinuation cursor _ 4 1).bind _ = _
        rw [checkedContinuation_eq _ 4 1 one]
        rfl
      · rw [if_neg inside, if_neg inside]
        rfl

theorem checkedWidth_pos {width : Nat × UInt32} (present : cursor ≠ []) (read : checkedWidth cursor = some width) :
    0 < width.1 := by
  rw [checkedWidth_eq present []] at read
  split_ifs at read
  exact Option.some.inj read ▸ utf8CharWidth_pos _

theorem ne_nil_of_byteAt (inside : ¬(byteAt cursor 0 = 0 ∨ byteAt cursor 0 = 10)) : cursor ≠ [] := by
  intro empty
  exact inside (Or.inl (by rw [empty]; rfl))

/-- The inner loop of `display_model_wrap_line` with every read checked. A cursor behind the terminator is read next. -/
def checkedFill (width : UInt32) (cursor : Bytes) (col : UInt32) (text : LineText) : Option (LineText × Bytes) :=
  if _stop : byteAt cursor 0 = 0 ∨ byteAt cursor 0 = 10 then some (text, cursor)
  else match _read : checkedWidth cursor with
    | none => none
    | some char =>
      if width < col + char.2 ∧ 0 < col then some (text, cursor)
      else if cursor.length < char.1 then none
      else
        let copied := text.copy cursor char.1
        let rest := cursor.drop char.1
        if width < char.2 ∧ col = 0 then some (copied, rest)
        else checkedFill width rest (col + char.2) copied
termination_by cursor.length
decreasing_by
  have present := ne_nil_of_byteAt _stop
  have moved := checkedWidth_pos present _read
  rw [length_drop]
  exact Nat.sub_lt (length_pos_iff.mpr present) moved

def checkedLoop (width : UInt32) (messageId : UInt64) : Nat → Bytes → UInt16 → Option (List DisplayLine)
  | 0, _, _ => some []
  | capacity + 1, cursor, subline =>
    if byteAt cursor 0 = 0 then some []
    else do
      let filled ← checkedFill width cursor 0 .zero
      let lines ← checkedLoop width messageId capacity (skipNewline filled.2) (subline + 1)
      pure (⟨messageId, subline, filled.1⟩ :: lines)

/-- This is `display_model_wrap_line` with every read checked. -/
def checkedWrap (text : Bytes) (width : UInt32) (messageId : UInt64) (outCapacity : Nat) : Option (List DisplayLine) :=
  if width = 0 ∨ outCapacity = 0 then some []
  else (checkedLoop width messageId outCapacity text 0).map fun lines =>
    match lines with
    | [] => [⟨messageId, 0, .zero⟩]
    | lines => lines

/-- Every character that the wrapper meets has the property. -/
inductive Along (property : Bytes → Prop) : Bytes → Prop
  | ended : Along property []
  | char {cursor : Bytes} (present : cursor ≠ []) (holds : property cursor)
      (rest : Along property (cursor.drop (characterLength cursor))) : Along property cursor

end Checked

section Wrap

variable {width : UInt32} {cursor : Bytes} {col : UInt32} {text : LineText} {filled : LineText × Bytes}

theorem checkedWidth_memory {char : Nat × UInt32} (present : cursor ≠ []) (read : checkedWidth cursor = some char)
    (beyond : Bytes) : InReach cursor ∧ char = utf8CharWidth (cursor ++ 0 :: beyond) := by
  rw [checkedWidth_eq present beyond] at read
  split_ifs at read with reach
  exact ⟨reach, (Option.some.inj read).symm⟩

theorem byteAt_first (beyond : Bytes) : byteAt (cursor ++ 0 :: beyond) 0 = byteAt cursor 0 :=
    byteAt_memory (Nat.zero_le _)

theorem copy_memory {length : Nat} (inside : length ≤ cursor.length) (beyond : Bytes) :
    text.copy (cursor ++ 0 :: beyond) length = text.copy cursor length := by
  unfold LineText.copy
  simp only [take_append_of_le_length inside]

/-- A checked line is the line of the loop, whatever stands behind the terminator. -/
theorem checkedFill_eq (checked : checkedFill width cursor col text = some filled) (beyond : Bytes) :
    fillLine width (cursor ++ 0 :: beyond) col text = (filled.1, filled.2 ++ 0 :: beyond) := by
  fun_induction checkedFill width cursor col text with
  | case1 cursor col text stop =>
    cases checked
    rw [fillLine, byteAt_first, dif_pos stop]
  | case2 => cases checked
  | case3 cursor col text stop char read wraps =>
    obtain ⟨-, rfl⟩ := checkedWidth_memory (ne_nil_of_byteAt stop) read beyond
    cases checked
    rw [fillLine, byteAt_first, dif_neg stop]
    exact if_pos wraps
  | case4 => cases checked
  | case5 cursor col text stop char read wraps passes copied rest wide =>
    obtain ⟨-, rfl⟩ := checkedWidth_memory (ne_nil_of_byteAt stop) read beyond
    have inside := Nat.le_of_not_lt passes
    cases checked
    rw [fillLine, byteAt_first, dif_neg stop]
    rw [if_neg wraps, if_pos wide, copy_memory inside, drop_append_of_le_length inside]
  | case6 cursor col text stop char read wraps passes copied rest wide ih =>
    obtain ⟨-, rfl⟩ := checkedWidth_memory (ne_nil_of_byteAt stop) read beyond
    have inside := Nat.le_of_not_lt passes
    rw [fillLine, byteAt_first, dif_neg stop]
    rw [if_neg wraps, if_neg wide, copy_memory inside, drop_append_of_le_length inside]
    exact ih checked

theorem checkedFill_suffix (checked : checkedFill width cursor col text = some filled) : filled.2 <:+ cursor := by
  fun_induction checkedFill width cursor col text with
  | case1 => exact Option.some.inj checked ▸ suffix_refl _
  | case2 => cases checked
  | case3 => exact Option.some.inj checked ▸ suffix_refl _
  | case4 => cases checked
  | case5 => exact Option.some.inj checked ▸ drop_suffix _ _
  | case6 cursor col text stop char read wraps passes copied rest wide ih => exact (ih checked).trans (drop_suffix _ _)

/-- A line inside of the text passes a character. -/
theorem checkedFill_progress (checked : checkedFill width cursor 0 text = some filled) (inside : byteAt cursor 0 ≠ 0) :
    (skipNewline filled.2).length < cursor.length := by
  have present : cursor ≠ [] := fun empty => inside (by rw [empty]; rfl)
  have positive := length_pos_iff.mpr present
  have skip (rest : Bytes) : (skipNewline rest).length ≤ rest.length := by
    unfold skipNewline
    split_ifs
    · exact (drop_sublist 1 rest).length_le
    · exact le_refl _
  rw [checkedFill] at checked
  split_ifs at checked with stop
  · cases checked
    have newline : byteAt cursor 0 = 10 := stop.resolve_left inside
    change (skipNewline cursor).length < _
    rw [skipNewline, if_pos newline, length_drop]
    omega
  · cases read : checkedWidth cursor with
    | none =>
      rw [read] at checked
      cases checked
    | some char =>
      rw [read] at checked
      dsimp only at checked
      have moved := checkedWidth_pos present read
      have first : ¬(width < 0 + char.2 ∧ (0 : UInt32) < 0) := fun wraps => absurd wraps.2 (by decide)
      have shorter : (cursor.drop char.1).length < cursor.length := by
        rw [length_drop]
        omega
      split_ifs at checked
      · cases checked
        exact (skip _).trans_lt shorter
      · exact (skip _).trans_lt ((checkedFill_suffix checked).length_le.trans_lt shorter)

end Wrap

section Safety

variable {width : UInt32} {cursor : Bytes} {col : UInt32} {text : LineText} {filled : LineText × Bytes}

/-- No character of the text is cut off by the terminator, wherever it begins. -/
def Whole (text : Bytes) : Prop := ∀ cursor, cursor <:+ text → cursor ≠ [] → ¬ Truncated cursor

theorem Whole.suffix {text rest : Bytes} (whole : Whole text) (inside : rest <:+ text) : Whole rest :=
  fun cursor later => whole cursor (later.trans inside)

variable {property : Bytes → Prop}

theorem Along.rest (along : Along property cursor) (present : cursor ≠ []) :
    property cursor ∧ Along property (cursor.drop (characterLength cursor)) := by
  cases along with
  | ended => exact absurd rfl present
  | char present holds rest => exact ⟨holds, rest⟩

theorem passed_whole (clean : 0 ∉ cursor) (present : cursor ≠ []) {char : Nat × UInt32}
    (read : checkedWidth cursor = some char) (passes : ¬ cursor.length < char.1) : char.1 = characterLength cursor := by
  obtain ⟨-, rfl⟩ := checkedWidth_memory present read []
  rw [advance_memory present] at passes ⊢
  exact advance_eq clean present ((advance_le clean present).mp (Nat.le_of_not_lt passes))

theorem checkedFill_along (clean : 0 ∉ cursor) (checked : checkedFill width cursor col text = some filled)
    (later : Along InReach filled.2) : Along InReach cursor := by
  fun_induction checkedFill width cursor col text with
  | case1 =>
    cases checked
    exact later
  | case2 => cases checked
  | case3 =>
    cases checked
    exact later
  | case4 => cases checked
  | case5 cursor col text stop char read wraps passes =>
    have present := ne_nil_of_byteAt stop
    cases checked
    refine .char present (checkedWidth_memory present read []).1 ?_
    rw [← passed_whole clean present read passes]
    exact later
  | case6 cursor col text stop char read wraps passes copied rest wide ih =>
    have present := ne_nil_of_byteAt stop
    refine .char present (checkedWidth_memory present read []).1 ?_
    rw [← passed_whole clean present read passes]
    exact ih (fun zero => clean ((drop_subset _ _) zero)) checked

theorem checkedFill_some (width col : UInt32) (text : LineText) (clean : 0 ∉ cursor) (whole : Whole cursor)
    (along : Along InReach cursor) : ∃ filled, checkedFill width cursor col text = some filled ∧
      Along InReach filled.2 := by
  fun_induction checkedFill width cursor col text with
  | case1 => exact ⟨_, rfl, along⟩
  | case2 cursor col text stop read =>
    have present := ne_nil_of_byteAt stop
    rw [checkedWidth_eq present [], if_pos (along.rest present).1] at read
    cases read
  | case3 => exact ⟨_, rfl, along⟩
  | case4 cursor col text stop char read wraps passes =>
    have present := ne_nil_of_byteAt stop
    obtain ⟨-, rfl⟩ := checkedWidth_memory present read []
    rw [advance_memory present] at passes
    exact absurd ((advance_le clean present).mpr (whole cursor (suffix_refl _) present)) (not_le.mpr passes)
  | case5 cursor col text stop char read wraps passes copied rest =>
    have present := ne_nil_of_byteAt stop
    refine ⟨_, rfl, ?_⟩
    change Along InReach (cursor.drop char.1)
    rw [passed_whole clean present read passes]
    exact (along.rest present).2
  | case6 cursor col text stop char read wraps passes copied rest wide ih =>
    have present := ne_nil_of_byteAt stop
    refine ih (fun zero => clean ((drop_subset _ _) zero))
      (whole.suffix (drop_suffix _ _)) ?_
    change Along InReach (cursor.drop char.1)
    rw [passed_whole clean present read passes]
    exact (along.rest present).2

theorem newline_length (newline : byteAt cursor 0 = 10) : characterLength cursor = 1 := by
  have plain : ¬ startsCsi cursor := by
    intro starts
    have esc : byteAt cursor 0 = 0x1B := (of_decide_eq_true starts).1
    rw [newline] at esc
    exact absurd esc (by decide)
  have lead : announced cursor = 1 := if_pos (by rw [newline]; decide)
  rw [characterLength, if_neg plain, lead]
  exact min_eq_left (Nat.le_add_right 1 _)

theorem Along.skipNewline (along : Along property cursor) : Along property (skipNewline cursor) := by
  unfold DisplayModel.skipNewline
  split_ifs with newline
  · cases along with
    | ended => exact .ended
    | char present holds rest => exact newline_length newline ▸ rest
  · exact along

theorem along_of_skipNewline (along : Along InReach (skipNewline cursor)) : Along InReach cursor := by
  unfold skipNewline at along
  split_ifs at along with newline
  · have present : cursor ≠ [] := by
      intro empty
      rw [empty] at newline
      exact absurd newline (by decide)
    have lead : announced cursor = 1 := if_pos (by rw [newline]; decide)
    have reach : InReach cursor := by
      unfold InReach
      omega
    exact .char present reach ((newline_length newline).symm ▸ along)
  · exact along

theorem ended_iff (clean : 0 ∉ cursor) : byteAt cursor 0 = 0 ↔ cursor = [] := by
  refine ⟨fun ended => ?_, fun empty => by rw [empty]; rfl⟩
  by_contra present
  exact byteAt_ne clean (length_pos_iff.mpr present) ended

theorem skipNewline_suffix (cursor : Bytes) : skipNewline cursor <:+ cursor := by
  unfold skipNewline
  split_ifs
  · exact drop_suffix _ _
  · exact suffix_refl _

theorem skipNewline_memory (beyond : Bytes) :
    skipNewline (cursor ++ 0 :: beyond) = skipNewline cursor ++ 0 :: beyond := by
  unfold skipNewline
  rw [byteAt_first]
  split_ifs with newline
  · cases cursor with
    | nil => exact absurd newline (by decide)
    | cons => rfl
  · rfl

variable {messageId : UInt64} {capacity : Nat} {subline : UInt16} {lines : List DisplayLine}

theorem checkedLoop_eq (clean : 0 ∉ cursor) (checked : checkedLoop width messageId capacity cursor subline = some lines)
    (beyond : Bytes) : wrapLoop width messageId capacity (cursor ++ 0 :: beyond) subline = lines := by
  induction capacity generalizing cursor subline lines with
  | zero => exact Option.some.inj checked
  | succ capacity ih =>
    rw [checkedLoop] at checked
    rw [wrapLoop, byteAt_first]
    split_ifs at checked ⊢ with ended
    · exact Option.some.inj checked
    · obtain ⟨filled, line, rest⟩ := Option.bind_eq_some_iff.mp checked
      obtain ⟨later, loop, same⟩ := Option.bind_eq_some_iff.mp rest
      have inside := (skipNewline_suffix _).trans (checkedFill_suffix line)
      dsimp only
      rw [checkedFill_eq line beyond, ← Option.some.inj same, skipNewline_memory,
        ih (fun zero => clean (inside.subset zero)) loop]

/-- The loop meets the characters of the text in order. -/
theorem checkedLoop_along (clean : 0 ∉ cursor)
    (checked : checkedLoop width messageId capacity cursor subline = some lines)
    (room : cursor.length ≤ capacity) : Along InReach cursor := by
  induction capacity generalizing cursor subline lines with
  | zero =>
    rw [length_eq_zero_iff.mp (Nat.le_zero.mp room)]
    exact .ended
  | succ capacity ih =>
    rw [checkedLoop] at checked
    split_ifs at checked with ended
    · rw [(ended_iff clean).mp ended]
      exact .ended
    · obtain ⟨filled, line, rest⟩ := Option.bind_eq_some_iff.mp checked
      obtain ⟨later, loop, -⟩ := Option.bind_eq_some_iff.mp rest
      have shorter := checkedFill_progress line ended
      have inside := (skipNewline_suffix _).trans (checkedFill_suffix line)
      have along := ih (fun zero => clean (inside.subset zero)) loop (by omega)
      exact checkedFill_along clean line (along_of_skipNewline along)

theorem checkedLoop_some (width : UInt32) (messageId : UInt64) (capacity : Nat) (subline : UInt16) (clean : 0 ∉ cursor)
    (whole : Whole cursor) (along : Along InReach cursor) :
    ∃ lines, checkedLoop width messageId capacity cursor subline = some lines := by
  induction capacity generalizing cursor subline with
  | zero => exact ⟨[], rfl⟩
  | succ capacity ih =>
    rw [checkedLoop]
    split_ifs with ended
    · exact ⟨[], rfl⟩
    · obtain ⟨filled, line, reach⟩ := checkedFill_some width 0 .zero clean whole along
      have inside := (skipNewline_suffix _).trans (checkedFill_suffix line)
      obtain ⟨lines, loop⟩ := ih (subline + 1) (fun zero => clean (inside.subset zero)) (whole.suffix inside)
        reach.skipNewline
      rw [line]
      exact ⟨_, congrArg (Option.bind · _) loop⟩

/-- The cursor moves by a byte at least and not behind the terminator, and the wrapper reads nothing behind it. -/
structure CursorSafe (text : Bytes) : Prop where
  advances : ∀ cursor, cursor <:+ text → cursor ≠ [] → ∀ beyond,
    1 ≤ (utf8CharWidth (cursor ++ 0 :: beyond)).1 ∧ (utf8CharWidth (cursor ++ 0 :: beyond)).1 ≤ cursor.length
  reads : ∀ width messageId capacity, ∃ lines, checkedWrap text width messageId capacity = some lines ∧
    ∀ beyond, wrapLine (some (text ++ 0 :: beyond)) width messageId capacity = lines

/-- The cursor is safe if and only if no character is cut off by the terminator and every code point is in reach. -/
theorem cursor_safe_iff (text : Bytes) (clean : 0 ∉ text) : CursorSafe text ↔ Whole text ∧ Along InReach text := by
  constructor
  · intro safe
    constructor
    · intro cursor inside present
      have bound := (safe.advances cursor inside present []).2
      rw [advance_memory present] at bound
      exact (advance_le (fun zero => clean (inside.subset zero)) present).mp bound
    · -- A capacity of one more than the length is enough for every line.
      obtain ⟨lines, checked, -⟩ := safe.reads 1 0 (text.length + 1)
      obtain ⟨loop, found, -⟩ := Option.map_eq_some_iff.mp checked
      exact checkedLoop_along clean found (Nat.le_succ _)
  · rintro ⟨whole, along⟩
    refine ⟨fun cursor inside present beyond => ⟨utf8CharWidth_pos _, ?_⟩, fun width messageId capacity => ?_⟩
    · rw [advance_memory present]
      exact (advance_le (fun zero => clean (inside.subset zero)) present).mpr (whole cursor inside present)
    · by_cases refused : width = 0 ∨ capacity = 0
      · refine ⟨[], if_pos refused, fun beyond => ?_⟩
        rw [wrapLine, if_pos refused]
      · obtain ⟨lines, loop⟩ := checkedLoop_some width messageId capacity 0 clean whole along
        refine ⟨_, by rw [checkedWrap, if_neg refused, loop, Option.map_some], fun beyond => ?_⟩
        cases lines <;> rw [wrapLine, if_neg refused, checkedLoop_eq clean loop beyond]

/-- A letter, a wide character and a change of colour. -/
def mixedText : Bytes := [97, 0xED, 0x95, 0x9C, 27, 91, 49, 109]

theorem mixed_safe : CursorSafe mixedText := by
  have complete : ∀ cursor ∈ mixedText.tails, cursor ≠ [] → ¬ Truncated cursor := by decide +kernel
  have whole : Whole mixedText := fun cursor inside => complete cursor ((mem_tails _ _).mpr inside)
  have colour : Along InReach [27, 91, 49, 109] := .char (by decide) (by decide) .ended
  have wide : Along InReach [0xED, 0x95, 0x9C, 27, 91, 49, 109] := .char (by decide) (by decide) colour
  exact (cursor_safe_iff mixedText (by decide)).mpr ⟨whole, .char (by decide) (by decide) wide⟩

/-- The first byte of a character of three bytes moves the cursor behind the terminator when it ends the text. -/
theorem cut_character_unsafe : ¬ ∀ text : Bytes, 0 ∉ text → CursorSafe text := by
  intro safe
  have bound := ((safe [0xE4] (by decide)).advances [0xE4] (suffix_refl _) (by decide) []).2
  exact absurd bound (by decide)

end Safety

end SshChatter.DisplayModel
