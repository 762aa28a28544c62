import SshChatter.UserData.SaveRoundTrip

namespace SshChatter.UserData
open CString List

/-- The bytes of `"\033[1G"`. -/
def columnReset : Bytes := [27, 91, 49, 71]

/-- The same sequence after its escape byte was lost. -/
def bareReset : Bytes := [91, 49, 71]

/-- A text that consists of column resets alone. -/
inductive Resets : Bytes → Prop where
  | nil : Resets []
  | full {text : Bytes} (rest : Resets text) : Resets (27 :: 91 :: 49 :: 71 :: text)
  | bare {text : Bytes} (rest : Resets text) : Resets (91 :: 49 :: 71 :: text)

def ResetFree (text : Bytes) : Prop := ¬ columnReset <:+: text ∧ ¬ bareReset <:+: text

/-- The three bytes of a bare reset stand apart, and nothing but resets stands between them. -/
def Nested (text : Bytes) : Prop :=
  ∃ front outer inner back, text = front ++ 91 :: (outer ++ 49 :: (inner ++ 71 :: back)) ∧
    Resets outer ∧ Resets inner ∧ (outer ≠ [] ∨ inner ≠ [])

section Scan

variable {text rest front back outer inner kept : Bytes} {c : UInt8}

/-- The longer form ends with the shorter one, so a text without the shorter one has neither. -/
theorem resetFree_iff : ResetFree text ↔ ¬ bareReset <:+: text := by
  have tail : bareReset <:+: columnReset := ⟨[27], [], rfl⟩
  exact ⟨And.right, fun free => ⟨fun found => free (tail.trans found), free⟩⟩

theorem stripColumnReset_resets (resets : Resets outer) :
    stripColumnReset (outer ++ rest) = stripColumnReset rest := by
  induction resets with
  | nil => rfl
  | full _ ih => simpa [stripColumnReset] using ih
  | bare _ ih => simpa [stripColumnReset] using ih

theorem stripColumnReset_cons (noEscape : c ≠ 27) (noBracket : c ≠ 91) :
    stripColumnReset (c :: rest) = c :: stripColumnReset rest := by
  rw [stripColumnReset]
  · rintro _ ⟨⟩
    exact absurd rfl noEscape
  · rintro _ ⟨⟩
    exact absurd rfl noBracket

/-- A bracket that no reset starts at is kept, and it parts the scan in two. -/
theorem stripColumnReset_append (noReset : ∀ later, rest ≠ 49 :: 71 :: later) :
    stripColumnReset (front ++ 91 :: rest) = stripColumnReset front ++ 91 :: stripColumnReset rest := by
  fun_induction stripColumnReset front with
  | case1 =>
    rw [nil_append, nil_append, stripColumnReset]
    · rintro _ ⟨⟩
    · intro later _ same
      exact noReset later same
  | case2 front ih => simpa [stripColumnReset] using ih
  | case3 front ih => simpa [stripColumnReset] using ih
  | case4 c front noFull noBare ih =>
    rw [cons_append, stripColumnReset, ih, cons_append]
    -- A reset that starts in front of the bracket ends there or holds the bracket as its second byte.
    · intro later escape same
      match front with
      | [] => exact noReset later (cons.inj same).2
      | [_] => simp at same
      | [_, _] => simp at same
      | x :: y :: z :: front =>
        obtain ⟨rfl, rfl, rfl, -⟩ := same
        exact noFull front escape rfl
    · intro later bracket same
      match front with
      | [] => simp at same
      | [_] => simp at same
      | x :: y :: front =>
        obtain ⟨rfl, rfl, -⟩ := same
        exact noBare front bracket rfl

/-- Each byte of the result was kept at its place, behind a run of deleted resets. -/
theorem kept_cons (scan : stripColumnReset text = c :: kept) :
    ∃ outer rest, Resets outer ∧ text = outer ++ c :: rest ∧ stripColumnReset rest = kept ∧
      stripColumnReset (c :: rest) = c :: kept := by
  fun_induction stripColumnReset text with
  | case1 => cases scan
  | case2 text ih =>
    obtain ⟨outer, rest, resets, whole, later, here⟩ := ih scan
    exact ⟨_, rest, .full resets, by simp [whole], later, here⟩
  | case3 text ih =>
    obtain ⟨outer, rest, resets, whole, later, here⟩ := ih scan
    exact ⟨_, rest, .bare resets, by simp [whole], later, here⟩
  | case4 d text noFull noBare =>
    obtain ⟨rfl, later⟩ := cons.inj scan
    refine ⟨[], text, .nil, rfl, later, ?_⟩
    rw [stripColumnReset, later]
    · exact noFull
    · exact noBare

theorem kept_append (scan : stripColumnReset text = front ++ kept) :
    ∃ before behind, text = before ++ behind ∧ stripColumnReset behind = kept := by
  induction front generalizing text with
  | nil => exact ⟨[], text, rfl, scan⟩
  | cons c front ih =>
    obtain ⟨outer, rest, -, whole, later, -⟩ := kept_cons scan
    obtain ⟨before, behind, parted, kept⟩ := ih later
    exact ⟨outer ++ c :: before, behind, by simp [whole, parted], kept⟩

theorem nested_of_kept (scan : stripColumnReset text = front ++ 91 :: 49 :: 71 :: kept) : Nested text := by
  obtain ⟨before, behind, parted, kept'⟩ := kept_append scan
  obtain ⟨lead, bracket, -, atBracket, outside, here⟩ := kept_cons kept'
  obtain ⟨outer, digit, outerResets, atDigit, inside, -⟩ := kept_cons outside
  obtain ⟨inner, back, innerResets, atLetter, rest, -⟩ := kept_cons inside
  refine ⟨before ++ lead, outer, inner, back, ?_, outerResets, innerResets, ?_⟩
  · simp [parted, atBracket, atDigit, atLetter]
  · -- With nothing in between the scan would have deleted the three bytes.
    by_contra together
    rw [not_or, not_not, not_not] at together
    rw [atDigit, atLetter, together.1, together.2, nil_append, nil_append, stripColumnReset, rest] at here
    have longer := congrArg length here
    simp only [length_cons] at longer
    omega

theorem bareReset_of_nested (nested : Nested text) : bareReset <:+: stripColumnReset text := by
  obtain ⟨front, outer, inner, back, rfl, outerResets, innerResets, apart⟩ := nested
  have noReset : ∀ later, outer ++ 49 :: (inner ++ 71 :: back) ≠ 49 :: 71 :: later := by
    intro later same
    cases outerResets with
    | nil =>
      cases innerResets with
      | nil => simp at apart
      | full _ => simp at same
      | bare _ => simp at same
    | full _ => simp at same
    | bare _ => simp at same
  rw [stripColumnReset_append noReset, stripColumnReset_resets outerResets,
    stripColumnReset_cons (by decide) (by decide), stripColumnReset_resets innerResets,
    stripColumnReset_cons (by decide) (by decide)]
  exact ⟨stripColumnReset front, stripColumnReset back, by simp [bareReset]⟩

theorem stripColumnReset_free (free : ¬ bareReset <:+: text) : stripColumnReset text = text := by
  fun_induction stripColumnReset text with
  | case1 => rfl
  | case2 text => exact absurd ⟨[27], text, rfl⟩ free
  | case3 text => exact absurd ⟨[], text, rfl⟩ free
  | case4 c text _ _ ih => rw [ih fun found => free (infix_cons found)]

theorem stripColumnReset_lt (found : bareReset <:+: text) : (stripColumnReset text).length < text.length := by
  fun_induction stripColumnReset text with
  | case1 => cases infix_nil.mp found
  | case2 text | case3 text =>
    have shorter := stripColumnReset_length text
    simp only [length_cons]
    omega
  | case4 c text _ noBare ih =>
    rcases infix_cons_iff.mp found with ⟨back, here⟩ | later
    · obtain ⟨bracket, same⟩ := cons.inj here
      exact absurd same.symm (noBare back bracket.symm)
    · exact Nat.succ_lt_succ (ih later)

theorem bareReset_infix_iff : bareReset <:+: stripColumnReset text ↔ Nested text := by
  constructor
  · rintro ⟨front, kept, scan⟩
    have cut : stripColumnReset text = front ++ 91 :: 49 :: 71 :: kept := by
      rw [← scan]
      simp [bareReset]
    exact nested_of_kept cut
  · exact bareReset_of_nested

theorem resetFree_strip_iff : ResetFree (stripColumnReset text) ↔ ¬ Nested text :=
  resetFree_iff.trans (not_congr bareReset_infix_iff)

theorem stripColumnReset_stable_iff :
    stripColumnReset (stripColumnReset text) = stripColumnReset text ↔ ¬ Nested text := by
  constructor
  · intro stable nested
    have shorter := stripColumnReset_lt (bareReset_infix_iff.mpr nested)
    rw [stable] at shorter
    exact lt_irrefl _ shorter
  · intro apart
    exact stripColumnReset_free (resetFree_strip_iff.mpr apart).2

end Scan

/-- A strip leaves no reset exactly when none was nested in the pieces of another. The same texts are those that a
second strip leaves alone, and a text without resets always stays as it is. -/
theorem stripColumnReset_exact (text : Bytes) :
    (ResetFree (stripColumnReset text) ↔ ¬ Nested text) ∧
      (stripColumnReset (stripColumnReset text) = stripColumnReset text ↔ ¬ Nested text) ∧
      (ResetFree text → stripColumnReset text = text) :=
  ⟨resetFree_strip_iff, stripColumnReset_stable_iff, fun free => stripColumnReset_free free.2⟩

/-- The three bytes of a bare reset may stand around a whole one, and then they are joined. -/
theorem stripColumnReset_splices : ¬ ResetFree (stripColumnReset (str "[1[1GG")) ∧
    stripColumnReset (stripColumnReset (str "[1[1GG")) ≠ stripColumnReset (str "[1[1GG") := by
  rw [resetFree_iff, not_not]
  exact ⟨infix_rfl, by decide⟩

end SshChatter.UserData
