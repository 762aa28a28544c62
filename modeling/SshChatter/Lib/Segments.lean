import Mathlib.Tactic

namespace Segments
open List

variable {α : Type} (sep : α)

/-- The parts of a text between separators that are not empty. -/
def segments [DecidableEq α] (text : List α) : List (List α) := (text.splitOnP (· = sep)).filter (· ≠ [])

def join : List (List α) → List α
  | [] => []
  | part :: rest => part ++ rest.flatMap (sep :: ·)

variable {sep} {part rest text : List α} {parts : List (List α)}

theorem join_concat (nonEmpty : parts ≠ []) : join sep (parts ++ [part]) = join sep parts ++ sep :: part := by
  obtain ⟨first, rest, rfl⟩ := exists_cons_of_ne_nil nonEmpty
  simp [join]

theorem join_concat_length (nonEmpty : parts ≠ []) :
    (join sep (parts ++ [part])).length = (join sep parts).length + part.length + 1 := by
  rw [join_concat nonEmpty, length_append, length_cons, add_assoc]

theorem join_concat_length_le (sep : α) (parts : List (List α)) (part : List α) :
    (join sep (parts ++ [part])).length ≤ (join sep parts).length + part.length + 1 := by
  by_cases none : parts = []
  · simp [none, join]
  · exact (join_concat_length none).le

/-- There is a separator between each two parts. -/
theorem join_length (sep : α) (nonEmpty : parts ≠ []) :
    (join sep parts).length = (parts.map length).sum + (parts.length - 1) := by
  obtain ⟨first, rest, rfl⟩ := exists_cons_of_ne_nil nonEmpty
  rw [join, length_append, map_cons, sum_cons, length_cons, add_assoc]
  congr 1
  induction rest with
  | nil => rfl
  | cons part rest ih =>
    have later := ih (cons_ne_nil _ _)
    simp only [flatMap_cons, length_append, length_cons, map_cons, sum_cons]
    omega

theorem join_length_le (sep : α) (parts later : List (List α)) :
    (join sep parts).length ≤ (join sep (parts ++ later)).length := by
  cases parts with
  | nil => exact Nat.zero_le _
  | cons => simp [join]

variable [DecidableEq α]

@[simp] theorem segments_nil : segments sep [] = [] := by
  simp [segments]

theorem segments_sep_cons : segments sep (sep :: text) = segments sep text := by
  simp [segments, splitOnP_cons_eq_if_modifyHead]

/-- Separators in front are skipped. -/
theorem segments_dropWhile : segments sep (text.dropWhile (· = sep)) = segments sep text := by
  induction text with
  | nil => rfl
  | cons c text ih =>
    by_cases same : c = sep
    · rw [same, segments_sep_cons, dropWhile_cons_of_pos (by simp), ih]
    · rw [dropWhile_cons_of_neg (by simp [same])]

theorem segments_part (present : part ≠ []) (absent : sep ∉ part) (ends : ∀ c, rest.head? = some c → c = sep) :
    segments sep (part ++ rest) = part :: segments sep rest := by
  have inside : ∀ c ∈ part, decide (c = sep) = false := by
    intro c member
    apply decide_eq_false
    rintro rfl
    exact absent member
  cases rest with
  | nil =>
    rw [append_nil, segments, splitOnP_eq_singleton inside]
    simp [present]
  | cons c =>
    obtain rfl := ends c rfl
    rw [segments_sep_cons, segments, splitOnP_append_cons_of_forall_mem inside _ (by simp)]
    simp [segments, present]

/-- The first part of a text that does not begin with a separator. -/
theorem segments_step (present : text ≠ []) (first : ∀ c, text.head? = some c → c ≠ sep) :
    segments sep text =
      text.takeWhile (· ≠ sep) :: segments sep (text.dropWhile (· ≠ sep)) := by
  conv_lhs => rw [← takeWhile_append_dropWhile (p := (· ≠ sep)) (l := text)]
  apply segments_part
  · obtain ⟨c, rest, rfl⟩ := exists_cons_of_ne_nil present
    rw [takeWhile_cons_of_pos (by simpa using first c rfl)]
    exact cons_ne_nil _ _
  · intro member
    have kept := all_eq_true.mp (all_takeWhile (p := (· ≠ sep)) (l := text)) sep member
    simp at kept
  · intro c front
    have stops := head?_dropWhile_not (· ≠ sep) text
    rw [front] at stops
    simpa using stops

/-- The parts are not empty and hold no separator. -/
theorem mem_segments (member : part ∈ segments sep text) : part ≠ [] ∧ sep ∉ part := by
  rw [segments, mem_filter] at member
  refine ⟨of_decide_eq_true member.2, ?_⟩
  have plain : ∀ part ∈ text.splitOnP (· = sep), sep ∉ part := by
    clear member
    induction text with
    | nil => simp
    | cons c text ih =>
      rw [splitOnP_cons_eq_if_modifyHead]
      split_ifs with same
      · rw [forall_mem_cons]
        exact ⟨not_mem_nil, ih⟩
      · obtain ⟨first, rest, split⟩ := exists_cons_of_ne_nil (splitOnP_ne_nil (· = sep) text)
        rw [split, forall_mem_cons] at ih
        rw [split, modifyHead_cons, forall_mem_cons, mem_cons, not_or]
        exact ⟨⟨fun equal => same (decide_eq_true equal.symm), ih.1⟩, ih.2⟩
  exact plain part member.1

/-- A part is made of the text. -/
theorem mem_of_mem_segments {c : α} (member : part ∈ segments sep text) (inside : c ∈ part) : c ∈ text := by
  rw [segments, mem_filter] at member
  have within : ∀ part ∈ text.splitOnP (· = sep), ∀ c ∈ part, c ∈ text := by
    clear member
    induction text with
    | nil => simp
    | cons first text ih =>
      rw [splitOnP_cons_eq_if_modifyHead]
      split_ifs with same
      · rw [forall_mem_cons]
        exact ⟨fun c none => absurd none not_mem_nil,
          fun part here c inside => mem_cons_of_mem _ (ih part here c inside)⟩
      · obtain ⟨head, rest, split⟩ := exists_cons_of_ne_nil (splitOnP_ne_nil (· = sep) text)
        rw [split, forall_mem_cons] at ih
        rw [split, modifyHead_cons, forall_mem_cons]
        refine ⟨fun c inside => ?_, fun part here c inside => mem_cons_of_mem _ (ih.2 part here c inside)⟩
        rcases mem_cons.mp inside with rfl | later
        · exact mem_cons_self
        · exact mem_cons_of_mem _ (ih.1 c later)
  exact within part member.1 c inside

/-- The parts behind separators are no longer than the text behind one. -/
theorem segments_flatMap_length (sep : α) (text : List α) :
    ((segments sep text).flatMap (sep :: ·)).length ≤ text.length + 1 := by
  have whole : ((text.splitOnP (· = sep)).flatMap (sep :: ·)).length = text.length + 1 := by
    induction text with
    | nil => simp
    | cons c text ih =>
      rw [splitOnP_cons_eq_if_modifyHead]
      split_ifs
      · simp [ih]
      · obtain ⟨first, rest, split⟩ := exists_cons_of_ne_nil (splitOnP_ne_nil (· = sep) text)
        rw [split] at ih ⊢
        simp only [modifyHead_cons, flatMap_cons, length_append, length_cons] at ih ⊢
        omega
  calc ((segments sep text).flatMap (sep :: ·)).length
      ≤ ((text.splitOnP (· = sep)).flatMap (sep :: ·)).length := (filter_sublist.flatMap _).length_le
    _ = text.length + 1 := whole

/-- Parts behind separators are found again. -/
theorem segments_flatMap (valid : ∀ part ∈ parts, part ≠ [] ∧ sep ∉ part) :
    segments sep (parts.flatMap (sep :: ·)) = parts := by
  induction parts with
  | nil => simp
  | cons part rest ih =>
    obtain ⟨⟨present, absent⟩, later⟩ := forall_mem_cons.mp valid
    rw [flatMap_cons, cons_append, segments_sep_cons, segments_part present absent, ih later]
    intro c front
    cases rest with
    | nil => cases front
    | cons => exact (Option.some.inj front).symm

theorem segments_join (valid : ∀ part ∈ parts, part ≠ [] ∧ sep ∉ part) : segments sep (join sep parts) = parts := by
  cases parts with
  | nil => simp [join]
  | cons =>
    rw [← segments_sep_cons]
    exact segments_flatMap valid

end Segments
