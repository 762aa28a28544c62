import Mathlib.Data.List.Infix
import Mathlib.Tactic

namespace TokenText
open List

variable {α : Type}

section Replacement

variable [DecidableEq α]

def lookup (table : List (List α × List α)) (text : List α) : Option (List α × List α) :=
  table.find? fun entry => entry.1 ≠ [] ∧ entry.1 <+: text

theorem lookup_some {table : List (List α × List α)} {text : List α} {entry : List α × List α}
    (found : lookup table text = some entry) : entry ∈ table ∧ entry.1 ≠ [] ∧ entry.1 <+: text := by
  have passed := find?_some found
  rw [decide_eq_true_eq] at passed
  exact ⟨mem_of_find?_eq_some found, passed⟩

def replace (table : List (List α × List α)) (text : List α) : List α :=
  match text with
  | [] => []
  | symbol :: rest =>
    match _found : lookup table (symbol :: rest) with
    | some entry => entry.2 ++ replace table ((symbol :: rest).drop entry.1.length)
    | none => symbol :: replace table rest
  termination_by text.length
  decreasing_by
    · have positive := length_pos_iff.mpr (lookup_some _found).2.1
      rw [length_drop, length_cons]
      omega
    · exact Nat.lt_succ_self _

variable {table : List (List α × List α)} {entry : List α × List α} {symbol : α} {rest : List α}

theorem replace_found (found : lookup table (symbol :: rest) = some entry) :
    replace table (symbol :: rest) = entry.2 ++ replace table ((symbol :: rest).drop entry.1.length) := by
  rw [replace]
  split
  · rename_i entry' found'
    rw [found] at found'
    rw [Option.some.inj found']
  · rename_i found'
    rw [found] at found'
    cases found'

theorem replace_plain (found : lookup table (symbol :: rest) = none) :
    replace table (symbol :: rest) = symbol :: replace table rest := by
  rw [replace]
  split
  · rename_i entry' found'
    rw [found] at found'
    cases found'
  · rfl

end Replacement

def weave (form : List α × List α → List α) (run : List α) (parts : List ((List α × List α) × List α)) : List α :=
  run ++ parts.flatMap fun part => form part.1 ++ part.2

def Clean (table : List (List α × List α)) (run : List α) : Prop := ∀ entry ∈ table, ¬ entry.1 <:+: run

/-- The tokens of a table cannot be taken for one another, overlap or start as a value does. -/
structure Apart (table : List (List α × List α)) : Prop where
  present : ∀ entry ∈ table, entry.1 ≠ []
  unique : ∀ entry ∈ table, ∀ entry' ∈ table, ∀ rest, entry.1 <+: entry'.1 ++ rest → entry = entry'
  solid : ∀ entry ∈ table, ∀ entry' ∈ table, ∀ front back rest, entry.1 = front ++ back → front ≠ [] → back ≠ [] →
    ¬ back <+: entry'.1 ++ rest
  marked : ∀ entry ∈ table, ∀ entry' ∈ table, ∃ mark tail, entry.2 = mark :: tail ∧ ∀ tail', entry'.1 ≠ mark :: tail'

def Boundary (table : List (List α × List α)) (tail : List α) : Prop :=
  tail = [] ∨ ∃ entry ∈ table, ∃ rest, tail = entry.1 ++ rest

variable {table : List (List α × List α)} {entry : List α × List α} {run tail : List α}

theorem Apart.inside (apart : Apart table) (boundary : Boundary table tail) (listed : entry ∈ table) (some' : run ≠ [])
    (starts : entry.1 <+: run ++ tail) : entry.1 <+: run := by
  rcases boundary with rfl | ⟨entry', listed', rest, rfl⟩
  · rwa [append_nil] at starts
  · rcases prefix_or_prefix_of_prefix starts (prefix_append run _) with inside | ⟨back, cut⟩
    · exact inside
    · by_cases whole : back = []
      · rw [whole, append_nil] at cut
        rw [cut]
      · rw [← cut, prefix_append_right_inj] at starts
        exact absurd starts (apart.solid entry listed entry' listed' run back rest cut.symm some' whole)

variable [DecidableEq α]

theorem Apart.replace_token (apart : Apart table) (listed : entry ∈ table) (rest : List α) :
    replace table (entry.1 ++ rest) = entry.2 ++ replace table rest := by
  obtain ⟨symbol, token, shape⟩ := exists_cons_of_ne_nil (apart.present entry listed)
  have found : lookup table (entry.1 ++ rest) = some entry := by
    cases result : lookup table (entry.1 ++ rest) with
    | some entry' =>
      obtain ⟨listed', -, starts⟩ := lookup_some result
      rw [apart.unique entry' listed' entry listed rest starts]
    | none =>
      have absent := find?_eq_none.mp result entry listed
      simp [apart.present entry listed] at absent
  have cut : (entry.1 ++ rest).drop entry.1.length = rest := drop_left
  rw [shape, cons_append] at found ⊢
  rw [replace_found found, ← cons_append, ← shape, cut]

theorem Apart.replace_run (apart : Apart table) (boundary : Boundary table tail) (clean : Clean table run) :
    replace table (run ++ tail) = run ++ replace table tail := by
  induction run with
  | nil => rfl
  | cons symbol run inductionHypothesis =>
    have absent : lookup table (symbol :: (run ++ tail)) = none := by
      apply find?_eq_none.mpr
      intro entry listed passed
      rw [decide_eq_true_eq] at passed
      exact clean entry listed (apart.inside boundary listed (cons_ne_nil symbol run) passed.2).isInfix
    have later := inductionHypothesis fun entry listed found => clean entry listed (infix_cons found)
    rw [cons_append, replace_plain absent, later, cons_append]

/-- A run with a token is not kept. -/
theorem Apart.replace_dirty (apart : Apart table) (tail : List α) (dirty : ¬ Clean table run) :
    ¬ run <+: replace table (run ++ tail) := by
  induction run with
  | nil =>
    simp only [Clean, infix_nil, not_forall, not_not] at dirty
    obtain ⟨entry, listed, empty⟩ := dirty
    exact absurd empty (apart.present entry listed)
  | cons symbol run inductionHypothesis =>
    rw [cons_append]
    cases found : lookup table (symbol :: (run ++ tail)) with
    | some entry =>
      obtain ⟨listed, _, starts⟩ := lookup_some found
      obtain ⟨mark, value, shape, other⟩ := apart.marked entry listed entry listed
      rw [replace_found found, shape, cons_append, cons_prefix_cons]
      rintro ⟨rfl, -⟩
      obtain ⟨first, token, shape'⟩ := exists_cons_of_ne_nil (apart.present entry listed)
      rw [shape', cons_prefix_cons] at starts
      exact other token (by rw [shape', starts.1])
    | none =>
      rw [replace_plain found, cons_prefix_cons]
      rintro ⟨-, kept⟩
      refine inductionHypothesis ?_ kept
      intro clean
      apply dirty
      intro entry listed inside
      rcases infix_cons_iff.mp inside with starts | inside
      · have absent := find?_eq_none.mp found entry listed
        rw [decide_eq_true_eq] at absent
        exact absent ⟨apart.present entry listed, starts.trans (prefix_append (symbol :: run) tail)⟩
      · exact clean entry listed inside

/-- The values come back in place of the tokens exactly when no run has a token of its own. -/
theorem Apart.replace_weave_iff (apart : Apart table) (run : List α) {parts : List ((List α × List α) × List α)}
    (listed : ∀ part ∈ parts, part.1 ∈ table) :
    replace table (weave Prod.fst run parts) = weave Prod.snd run parts ↔
      Clean table run ∧ ∀ part ∈ parts, Clean table part.2 := by
  induction parts generalizing run with
  | nil =>
    have boundary : Boundary table [] := .inl rfl
    simp only [weave, flatMap_nil, not_mem_nil, false_implies, implies_true, and_true, append_nil]
    by_cases clean : Clean table run
    · have kept := apart.replace_run boundary clean
      rw [replace, append_nil] at kept
      simp [kept, clean]
    · have changed := apart.replace_dirty [] clean
      rw [append_nil] at changed
      simp only [clean, iff_false]
      intro same
      rw [same] at changed
      exact changed (prefix_refl run)
  | cons part parts inductionHypothesis =>
    obtain ⟨inTable, listed⟩ := forall_mem_cons.mp listed
    have later := inductionHypothesis part.2 listed
    have boundary : Boundary table (part.1.1 ++ weave Prod.fst part.2 parts) := .inr ⟨part.1, inTable, _, rfl⟩
    have cut (form : List α × List α → List α) :
        weave form run (part :: parts) = run ++ (form part.1 ++ weave form part.2 parts) := by
      simp only [weave, flatMap_cons, append_assoc]
    rw [cut, cut]
    by_cases clean : Clean table run
    · rw [apart.replace_run boundary clean, apart.replace_token inTable, append_cancel_left_eq,
        append_cancel_left_eq, later]
      simp [clean]
    · have changed := apart.replace_dirty (part.1.1 ++ weave Prod.fst part.2 parts) clean
      simp only [clean, false_and, iff_false]
      intro same
      rw [same] at changed
      exact changed (prefix_append run _)

end TokenText
