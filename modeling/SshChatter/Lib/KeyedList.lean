import Mathlib.Tactic

namespace KeyedList

variable {α β : Type} (key : α → β)

def lookup [DecidableEq β] (cells : List α) (name : β) : Option α := cells.find? fun cell => key cell = name

def Distinct (cells : List α) : Prop := (cells.map key).Nodup

variable {key} {cells : List α} {name : β} {cell : α} {index : Nat}

theorem Distinct.filter (distinct : Distinct key cells) (keep : α → Bool) : Distinct key (cells.filter keep) :=
  List.Nodup.sublist (List.filter_sublist.map key) distinct

variable [DecidableEq β]

theorem lookup_some (found : lookup key cells name = some cell) : cell ∈ cells ∧ key cell = name := by
  have hit := List.find?_some found
  exact ⟨List.mem_of_find?_eq_some found, of_decide_eq_true hit⟩

theorem lookup_none : lookup key cells name = none ↔ name ∉ cells.map key := by
  simp [lookup]

theorem lookup_filter (distinct : Distinct key cells) (keep : α → Bool) (name : β) :
    lookup key (cells.filter keep) name = (lookup key cells name).filter keep := by
  induction cells with
  | nil => rfl
  | cons cell rest ih =>
    rw [Distinct, List.map_cons, List.nodup_cons] at distinct
    have tail := ih distinct.2
    have head : lookup key (cell :: rest) name = if key cell = name then some cell else lookup key rest name := by
      by_cases named : key cell = name <;> simp [lookup, named]
    rw [head]
    by_cases kept : keep cell
    · rw [List.filter_cons_of_pos kept]
      split_ifs with named
      · rw [Option.filter_some, if_pos kept]
        simp [lookup, named]
      · rw [← tail]
        simp [lookup, named]
    · rw [List.filter_cons_of_neg kept, tail]
      by_cases named : key cell = name
      · -- The cell that is dropped was the only one with its key.
        rw [if_pos named, lookup_none.mpr (named ▸ distinct.1)]
        rw [Option.filter_some, if_neg kept]
        rfl
      · rw [if_neg named]

theorem lookup_set (found : cells.findIdx? (fun cell => key cell = name) = some index) (same : key cell = name)
    (other : β) : lookup key (cells.set index cell) other = if other = name then some cell
      else lookup key cells other := by
  induction cells generalizing index with
  | nil => cases found
  | cons first rest ih =>
    rw [List.findIdx?_cons] at found
    by_cases here : key first = name
    · simp only [here] at found
      cases found
      by_cases asked : other = name
      · simp [lookup, same, asked]
      · simp [lookup, same, here, asked, Ne.symm asked]
    · simp only [here] at found
      obtain ⟨position, inner, rfl⟩ := Option.map_eq_some_iff.mp found
      have tail := ih inner
      by_cases front : key first = other
      · have asked : other ≠ name := fun equal => here (front.trans equal)
        simp [lookup, front, asked]
      · simpa [lookup, front] using tail

theorem map_set (found : cells.findIdx? (fun cell => key cell = name) = some index) (same : key cell = name) :
    (cells.set index cell).map key = cells.map key := by
  obtain ⟨inside, hit, _⟩ := List.findIdx?_eq_some_iff_getElem.mp found
  have keyed : key cell = key cells[index] := same.trans (of_decide_eq_true hit).symm
  rw [List.map_set, keyed, ← List.getElem_map key (h := by simpa using inside), List.set_getElem_self]

theorem lookup_append (absent : lookup key cells (key cell) = none) (other : β) :
    lookup key (cells ++ [cell]) other = if other = key cell then some cell else lookup key cells other := by
  rw [lookup]
  by_cases asked : other = key cell
  · rw [lookup] at absent
    simp [asked, absent]
  · simp [lookup, asked, Ne.symm asked]

theorem Distinct.append (distinct : Distinct key cells) (absent : lookup key cells (key cell) = none) :
    Distinct key (cells ++ [cell]) := by
  rw [Distinct, List.map_append]
  exact List.nodup_append.mpr ⟨distinct, List.nodup_singleton _, fun name member last end_ => by
    rw [List.mem_singleton.mp end_]
    rintro rfl
    exact lookup_none.mp absent member⟩

end KeyedList
