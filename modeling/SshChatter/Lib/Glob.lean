import Mathlib.Data.List.Infix
import Mathlib.Tactic

namespace Glob
open List

variable {α : Type}

/-- A pattern matches a text when every star is replaced by some text and every other letter stands for itself. -/
inductive Matches (star : α) : List α → List α → Prop
  | nil : Matches star [] []
  | letter {pattern text : List α} (c : α) : c ≠ star → Matches star pattern text →
      Matches star (c :: pattern) (c :: text)
  | star {pattern text : List α} (skipped : List α) : Matches star pattern text →
      Matches star (star :: pattern) (skipped ++ text)

variable {star : α} {pattern text : List α}

theorem matches_star_cons :
    Matches star (star :: pattern) text ↔ ∃ rest, rest <:+ text ∧ Matches star pattern rest := by
  constructor
  · intro matched
    cases matched with
    | letter _ different _ => exact absurd rfl different
    | star skipped inner => exact ⟨_, suffix_append _ _, inner⟩
  · rintro ⟨rest, ⟨skipped, rfl⟩, inner⟩
    exact .star skipped inner

theorem matches_letter_cons {c : α} (different : c ≠ star) :
    Matches star (c :: pattern) text ↔ ∃ rest, text = c :: rest ∧ Matches star pattern rest := by
  constructor
  · intro matched
    cases matched with
    | letter _ _ inner => exact ⟨_, rfl, inner⟩
    | star _ _ => exact absurd rfl different
  · rintro ⟨rest, rfl, inner⟩
    exact .letter c different inner

theorem matches_star (text : List α) : Matches star [star] text := by
  rw [matches_star_cons]
  exact ⟨[], nil_suffix, .nil⟩

theorem matches_plain (plain : star ∉ pattern) : Matches star pattern text ↔ text = pattern := by
  induction pattern generalizing text with
  | nil =>
    constructor
    · intro matched
      cases matched
      rfl
    · rintro rfl
      exact .nil
  | cons c pattern ih =>
    rw [mem_cons, not_or] at plain
    rw [matches_letter_cons (Ne.symm plain.1)]
    simp [ih plain.2]

theorem matches_trailing (plain : star ∉ pattern) : Matches star (pattern ++ [star]) text ↔ pattern <+: text := by
  induction pattern generalizing text with
  | nil => simp [matches_star]
  | cons c pattern ih =>
    rw [mem_cons, not_or] at plain
    rw [cons_append, matches_letter_cons (Ne.symm plain.1)]
    constructor
    · rintro ⟨rest, rfl, inner⟩
      exact cons_prefix_cons.mpr ⟨rfl, (ih plain.2).mp inner⟩
    · rintro ⟨tail, rfl⟩
      exact ⟨pattern ++ tail, rfl, (ih plain.2).mpr (prefix_append _ _)⟩

theorem matches_leading (plain : star ∉ pattern) : Matches star (star :: pattern) text ↔ pattern <:+ text := by
  rw [matches_star_cons]
  constructor
  · rintro ⟨rest, ends, inner⟩
    rwa [(matches_plain plain).mp inner] at ends
  · intro ends
    exact ⟨pattern, ends, (matches_plain plain).mpr rfl⟩

theorem matches_between (plain : star ∉ pattern) :
    Matches star (star :: (pattern ++ [star])) text ↔ pattern <:+: text := by
  rw [matches_star_cons, infix_iff_prefix_suffix]
  constructor
  · rintro ⟨rest, ends, inner⟩
    exact ⟨rest, (matches_trailing plain).mp inner, ends⟩
  · rintro ⟨rest, starts, ends⟩
    exact ⟨rest, ends, (matches_trailing plain).mpr starts⟩

end Glob
