import Mathlib.Tactic

namespace LineStream
open List

section Split

variable {α : Type} [DecidableEq α] (terminator : α)

def glue (carry : List α) : List (List α) × List α → List (List α) × List α
  | ([], rest) => ([], carry ++ rest)
  | (first :: lines, rest) => ((carry ++ first) :: lines, rest)

def splitLines : List α → List (List α) × List α
  | [] => ([], [])
  | c :: text =>
    if c = terminator then ([] :: (splitLines text).1, (splitLines text).2)
    else glue [c] (splitLines text)

/-- Each line that the chunks complete, as the part from earlier chunks and the part from the chunk that
holds its terminator. -/
def linePieces (carry : List α) : List (List α) → List (List α × List α)
  | [] => []
  | chunk :: chunks =>
    match splitLines terminator chunk with
    | ([], rest) => linePieces (carry ++ rest) chunks
    | (first :: lines, rest) => (carry, first) :: lines.map (fun line => ([], line)) ++ linePieces rest chunks

omit [DecidableEq α] in
theorem glue_glue (carry carry' : List α) (split : List (List α) × List α) :
    glue carry (glue carry' split) = glue (carry ++ carry') split := by
  obtain ⟨lines, rest⟩ := split
  cases lines <;> simp [glue]

omit [DecidableEq α] in
@[simp] theorem glue_nil (split : List (List α) × List α) : glue [] split = split := by
  obtain ⟨lines, rest⟩ := split
  cases lines <;> rfl

/-- The open line of the first text continues in the second one. -/
theorem splitLines_append (text text' : List α) :
    splitLines terminator (text ++ text') =
      ((splitLines terminator text).1 ++
          (glue (splitLines terminator text).2 (splitLines terminator text')).1,
        (glue (splitLines terminator text).2 (splitLines terminator text')).2) := by
  induction text with
  | nil => simp [splitLines]
  | cons c text ih =>
    simp only [cons_append, splitLines, ih]
    split
    · rfl
    · cases lines : (splitLines terminator text).1 with
      | nil =>
        have whole : splitLines terminator text = ([], (splitLines terminator text).2) := by
          rw [← lines]
        rw [whole]
        exact glue_glue [c] (splitLines terminator text).2 (splitLines terminator text')
      | cons first lines' =>
        have whole : splitLines terminator text = (first :: lines', (splitLines terminator text).2) := by
          rw [← lines]
        rw [whole]
        rfl

theorem splitLines_open {text : List α} (free : terminator ∉ text) : splitLines terminator text = ([], text) := by
  induction text with
  | nil => rfl
  | cons c text ih =>
    obtain ⟨other, free⟩ := not_or.mp (mt mem_cons.mpr free)
    rw [splitLines, if_neg (Ne.symm other), ih free]
    rfl

theorem splitLines_first {line : List α} (free : terminator ∉ line) (text : List α) :
    splitLines terminator (line ++ terminator :: text) =
      (line :: (splitLines terminator text).1, (splitLines terminator text).2) := by
  rw [splitLines_append, splitLines_open terminator free, splitLines]
  simp [glue]

theorem splitLines_open_free (text : List α) : terminator ∉ (splitLines terminator text).2 := by
  induction text with
  | nil => exact not_mem_nil
  | cons c text ih =>
    rw [splitLines]
    split_ifs with same
    · exact ih
    · generalize splitLines terminator text = split at ih
      obtain ⟨lines, rest⟩ := split
      cases lines with
      | nil => exact not_mem_cons_of_ne_of_not_mem (Ne.symm same) ih
      | cons => exact ih

theorem splitLines_open_length (text : List α) : (splitLines terminator text).2.length ≤ text.length := by
  induction text with
  | nil => exact le_rfl
  | cons c text ih =>
    rw [splitLines]
    split_ifs
    · exact ih.trans (Nat.le_succ _)
    · generalize splitLines terminator text = split at ih
      obtain ⟨lines, rest⟩ := split
      cases lines with
      | nil => exact Nat.succ_le_succ ih
      | cons => exact Nat.le_succ_of_le ih

theorem splitLines_mem {text : List α} {c : α}
    (inside : (∃ line ∈ (splitLines terminator text).1, c ∈ line) ∨ c ∈ (splitLines terminator text).2) : c ∈ text := by
  induction text with
  | nil => simp [splitLines] at inside
  | cons d text ih =>
    rw [splitLines] at inside
    split_ifs at inside with same
    · refine mem_cons_of_mem d (ih ?_)
      simpa using inside
    · generalize splitLines terminator text = split at ih inside
      obtain ⟨lines, rest⟩ := split
      cases lines with
      | nil =>
        simp only [glue, not_mem_nil, false_and, exists_false, false_or, cons_append,
          mem_cons] at ih inside
        exact mem_cons.mpr (inside.imp_right ih)
      | cons =>
        simp only [glue, mem_cons, exists_eq_or_imp, cons_append] at ih inside
        rw [mem_cons]
        rcases inside with ((here | front) | line) | rest'
        · exact Or.inl here
        · exact Or.inr (ih (Or.inl (Or.inl front)))
        · exact Or.inr (ih (Or.inl (Or.inr line)))
        · exact Or.inr (ih (Or.inr rest'))

theorem splitLines_continue (text more : List α) :
    splitLines terminator (text ++ more) =
      ((splitLines terminator text).1 ++ (splitLines terminator ((splitLines terminator text).2 ++ more)).1,
        (splitLines terminator ((splitLines terminator text).2 ++ more)).2) := by
  rw [splitLines_append, splitLines_append terminator (splitLines terminator text).2,
    splitLines_open terminator (splitLines_open_free terminator text), nil_append]

theorem splitLines_last_mem (text : List α) {c : α} (other : c ≠ terminator) (more : List α) :
    ∃ line ∈ (splitLines terminator (text ++ c :: terminator :: more)).1, line.getLast? = some c := by
  have ends : (splitLines terminator text).2 ++ c :: terminator :: more =
      ((splitLines terminator text).2 ++ [c]) ++ terminator :: more := by simp
  have free : terminator ∉ (splitLines terminator text).2 ++ [c] := by
    rw [mem_append, mem_singleton, not_or]
    exact ⟨splitLines_open_free terminator text, Ne.symm other⟩
  refine ⟨(splitLines terminator text).2 ++ [c], ?_, getLast?_concat ..⟩
  rw [splitLines_continue, ends, splitLines_first terminator free]
  exact mem_append_right _ mem_cons_self

theorem linePieces_joined (carry : List α) (chunks : List (List α)) :
    (linePieces terminator carry chunks).map (fun piece => piece.1 ++ piece.2) =
      (glue carry (splitLines terminator chunks.flatten)).1 := by
  induction chunks generalizing carry with
  | nil => rfl
  | cons chunk chunks ih =>
    rw [flatten_cons, splitLines_append, linePieces]
    split
    next rest split =>
      rw [ih, split, nil_append, ← glue_glue]
    next first lines rest split =>
      simp only [split, map_append, glue, ih]
      simp [Function.comp_def]

theorem linePieces_last (carry : List α) (chunks : List (List α)) :
    (linePieces terminator carry chunks).map Prod.snd =
      chunks.flatMap fun chunk => (splitLines terminator chunk).1 := by
  induction chunks generalizing carry with
  | nil => rfl
  | cons chunk chunks ih =>
    rw [linePieces, flatMap_cons]
    split
    next rest split => rw [ih, split, nil_append]
    next first lines rest split =>
      simp only [split, map_append, ih]
      simp [Function.comp_def]

end Split

section Compare

variable {β γ : Type} {keep keep' : β → Option γ}

/-- A selection that keeps no more elements has no greater length. -/
theorem filterMap_length_le (items : List β)
    (fewer : ∀ item ∈ items, (keep item).isSome → (keep' item).isSome) :
    (items.filterMap keep).length ≤ (items.filterMap keep').length := by
  induction items with
  | nil => exact le_refl _
  | cons item items ih =>
    have later := ih fun other member => fewer other (mem_cons_of_mem _ member)
    have here := fewer item mem_cons_self
    cases first : keep item with
    | none =>
      rw [filterMap_cons_none first]
      cases second : keep' item with
      | none =>
        rw [filterMap_cons_none second]
        exact later
      | some =>
        rw [filterMap_cons_some second, length_cons]
        omega
    | some =>
      rw [first] at here
      obtain ⟨value', second⟩ := Option.isSome_iff_exists.mp (here rfl)
      rw [filterMap_cons_some first, filterMap_cons_some second, length_cons,
        length_cons]
      omega

/-- Two selections of which the first keeps no more than the second agree exactly when they agree at every
element. -/
theorem filterMap_eq_iff (items : List β)
    (fewer : ∀ item ∈ items, (keep item).isSome → (keep' item).isSome) :
    items.filterMap keep = items.filterMap keep' ↔ ∀ item ∈ items, keep item = keep' item := by
  refine ⟨fun same => ?_, filterMap_congr⟩
  induction items with
  | nil => simp
  | cons item items ih =>
    have later := fun other member => fewer other (mem_cons_of_mem item member)
    have here := fewer item mem_cons_self
    have bound := filterMap_length_le items later
    cases first : keep item with
    | none =>
      cases second : keep' item with
      | none =>
        rw [filterMap_cons_none first, filterMap_cons_none second] at same
        exact forall_mem_cons.mpr ⟨first.trans second.symm, ih later same⟩
      | some =>
        rw [filterMap_cons_none first, filterMap_cons_some second] at same
        rw [same, length_cons] at bound
        omega
    | some =>
      rw [first] at here
      obtain ⟨value', second⟩ := Option.isSome_iff_exists.mp (here rfl)
      rw [filterMap_cons_some first, filterMap_cons_some second] at same
      obtain ⟨rfl, rest⟩ := cons.inj same
      exact forall_mem_cons.mpr ⟨first.trans second.symm, ih later rest⟩

end Compare

end LineStream
