import SshChatter.Lib.SlotTable

namespace Compaction
open List

variable {α : Type} (keep : α → Bool)

/-- A cell that is kept moves to the write position. -/
def step (state : List α × Nat) (index : Nat) : List α × Nat :=
  match state.1[index]? with
  | none => state
  | some cell => if keep cell then (state.1.set state.2 cell, state.2 + 1) else state

/-- The loop visits the cells below the count in order. -/
def compact (slots : List α) (count : Nat) : List α × Nat := (range count).foldl (step keep) (slots, 0)

/-- The cells written so far are the kept ones, and the cells ahead are still in place. -/
structure Progress (slots : List α) (index : Nat) (state : List α × Nat) : Prop where
  written : state.1.take state.2 = (slots.take index).filter keep
  ahead : state.1.drop index = slots.drop index
  behind : state.2 ≤ index
  length : state.1.length = slots.length

variable {keep} {slots : List α} {index : Nat} {state : List α × Nat}

/-- One round keeps the loop invariant. -/
theorem Progress.step (progress : Progress keep slots index state) (inside : index < slots.length) :
    Progress keep slots (index + 1) (step keep state index) := by
  have here : state.1[index]? = slots[index]? := by
    have front := congrArg (·[0]?) progress.ahead
    simpa only [getElem?_drop, add_zero] using front
  have behind := progress.behind
  have length := progress.length
  have further : state.1.drop (index + 1) = slots.drop (index + 1) := by
    have rest := congrArg (drop 1) progress.ahead
    simpa only [drop_drop] using rest
  rw [getElem?_eq_getElem inside] at here
  have grown : slots.take (index + 1) = slots.take index ++ [slots[index]] := by
    rw [take_add_one, getElem?_eq_getElem inside]
    rfl
  by_cases kept : keep slots[index]
  · have moved : Compaction.step keep state index = (state.1.set state.2 slots[index], state.2 + 1) := by
      simp [Compaction.step, here, kept]
    rw [moved]
    refine ⟨?_, ?_, by omega, by simp [length]⟩
    · have room : state.2 < state.1.length := by omega
      rw [grown, filter_append, ← progress.written, filter_singleton, kept, take_add_one,
        take_set_of_le le_rfl, getElem?_set_self room]
      rfl
    · rw [drop_set_of_lt (by omega), further]
  · have skipped : Compaction.step keep state index = state := by
      simp [Compaction.step, here, kept]
    rw [skipped]
    refine ⟨?_, further, by omega, length⟩
    rw [grown, filter_append, progress.written, filter_singleton, eq_false_of_ne_true kept, cond_false,
      append_nil]

/-- The invariant after a number of rounds. -/
theorem progress_range (keep : α → Bool) (slots : List α) {count : Nat} (within : count ≤ slots.length) :
    Progress keep slots count (compact keep slots count) := by
  induction count with
  | zero => exact ⟨rfl, rfl, le_rfl, rfl⟩
  | succ count ih =>
    rw [compact, range_succ, foldl_append]
    exact (ih (by omega)).step (by omega)

end Compaction

namespace SlotTable
open Function List

section Sorted

variable {α : Type} {p : α → Bool} {l : List α}

/-- When nothing that is kept stands behind something dropped, the kept elements are a front part. -/
theorem filter_eq_takeWhile (packed : l.Pairwise fun first second => p second = true → p first = true) :
    l.filter p = l.takeWhile p := by
  induction packed with
  | nil => rfl
  | @cons head tail later _ ih =>
    by_cases kept : p head
    · rw [filter_cons_of_pos kept, takeWhile_cons_of_pos kept, ih]
    · rw [filter_cons_of_neg kept, takeWhile_cons_of_neg kept, filter_eq_nil_iff]
      exact fun other inside here => kept (later other inside here)

/-- A list stays as it is only when all its elements do. -/
theorem filterMap_eq_self {Value : Type} {f : Value → Option Value} {values : List Value} :
    values.filterMap f = values ↔ ∀ value ∈ values, f value = some value := by
  induction values with
  | nil => exact iff_of_true rfl fun _ inside => absurd inside not_mem_nil
  | cons first rest ih =>
    rw [forall_mem_cons, ← ih]
    cases kept : f first with
    | none =>
      rw [filterMap_cons_none kept]
      refine iff_of_false (fun same => ?_) fun all => nomatch all.1
      have short := length_filterMap_le f rest
      rw [same, length_cons] at short
      omega
    | some => rw [filterMap_cons_some kept, cons.injEq, Option.some_inj]

end Sorted

section Compaction

variable {n : Nat} {Slot : Type} (used : Slot → Bool) (table : Fin n → Slot)

def compactStep (state : (Fin n → Slot) × Nat) (place : Fin n) : (Fin n → Slot) × Nat :=
  if used (state.1 place) then
    (if room : state.2 < n then update state.1 ⟨state.2, room⟩ (state.1 place) else state.1, state.2 + 1)
  else state

def compact : (Fin n → Slot) × Nat := (finRange n).foldl (compactStep used) (table, 0)

def usedPlaces : List (Fin n) := (finRange n).filter fun place => used (table place)

def source (place : Fin n) : Fin n := ((usedPlaces used table)[place.val]?).getD place

def Packed : Prop := ∀ place, used (table place) → ∀ other < place, used (table other)

variable {used table} {place other : Fin n}

theorem mem_usedPlaces : place ∈ usedPlaces used table ↔ used (table place) := by
  rw [usedPlaces, mem_filter]
  exact and_iff_right (mem_finRange place)

theorem usedPlaces_nodup : (usedPlaces used table).Nodup := (nodup_finRange n).filter _

theorem usedPlaces_length : (usedPlaces used table).length = usedCount used table := by
  rw [usedPlaces, ← countP_eq_length_filter]
  exact countP_usedCount used table

theorem compactStep_used {state : (Fin n → Slot) × Nat} {index : Nat} (here : used (state.1 place))
    (position : state.2 = index) (room : index < n) :
    compactStep used state place = (update state.1 ⟨index, room⟩ (state.1 place), index + 1) := by
  subst position
  rw [compactStep, if_pos here, dif_pos room]

theorem usedCount_front {count : Nat} (within : count ≤ n)
    (front : ∀ place, used (table place) = decide (place.val < count)) : usedCount used table = count := by
  have counted : usedCount used table = (Finset.univ.filter fun place : Fin n => place.val < count).card := by
    rw [Finset.card_filter]
    apply Finset.sum_congr rfl
    intro place _
    rw [front place]
    by_cases before : place.val < count
    · rw [decide_eq_true before, if_pos before]
      rfl
    · rw [decide_eq_false before, if_neg before]
      rfl
  rw [counted, Fin.card_filter_val_lt, min_eq_right within]

/-- What the loop has done when it has visited the places in front. -/
theorem compact_progress (front back : List (Fin n)) (split : front ++ back = finRange n) :
    (front.foldl (compactStep used) (table, 0)).2 = (front.filter fun place => used (table place)).length ∧
      ∀ place, (front.foldl (compactStep used) (table, 0)).1 place =
        table (((front.filter fun place => used (table place))[place.val]?).getD place) := by
  induction front using reverseRecOn generalizing back with
  | nil => exact ⟨rfl, fun place => rfl⟩
  | append_singleton front here ih =>
    obtain ⟨count, cells⟩ := ih (here :: back) (by rw [← split, append_assoc, singleton_append])
    have position : here.val = front.length := by
      have found : (finRange n)[front.length]? = some here := by
        rw [← split, append_assoc, getElem?_append_right le_rfl, Nat.sub_self]
        rfl
      obtain ⟨inside, same⟩ := List.getElem?_eq_some_iff.mp found
      rw [getElem_finRange] at same
      exact (congrArg Fin.val same).symm
    have short : (front.filter fun place => used (table place)).length ≤ front.length := length_filter_le _ _
    have ahead : (front.foldl (compactStep used) (table, 0)).1 here = table here := by
      rw [cells here, getElem?_eq_none (by omega)]
      rfl
    rw [foldl_append, foldl_cons, filter_append]
    by_cases kept : used (table here)
    · have room : (front.filter fun place => used (table place)).length < n := by omega
      have moved : compactStep used (front.foldl (compactStep used) (table, 0)) here =
          (update (front.foldl (compactStep used) (table, 0)).1
            ⟨(front.filter fun place => used (table place)).length, room⟩ (table here),
            (front.filter fun place => used (table place)).length + 1) := by
        rw [compactStep_used (ahead ▸ kept) count room, ahead]
      have last : ([here].filter fun place => used (table place)) = [here] := by
        rw [filter_singleton, kept, cond_true]
      rw [moved, last, length_append]
      refine ⟨rfl, fun place => ?_⟩
      change update _ _ _ place = _
      rcases lt_trichotomy place.val (front.filter fun place => used (table place)).length with before | at' | behind
      · rw [update_of_ne (Fin.ne_of_val_ne before.ne), cells place,
          getElem?_append_left before]
      · have same : place = ⟨(front.filter fun place => used (table place)).length, room⟩ := Fin.ext at'
        rw [same, update_self, getElem?_append_right le_rfl, Nat.sub_self]
        rfl
      · rw [update_of_ne (Fin.ne_of_val_ne behind.ne'), cells place,
          getElem?_eq_none (le_of_lt behind), getElem?_eq_none]
        rw [length_append]
        exact behind
    · have stays : compactStep used (front.foldl (compactStep used) (table, 0)) here =
          front.foldl (compactStep used) (table, 0) := by
        rw [compactStep, ahead, if_neg kept]
      have none' : ([here].filter fun place => used (table place)) = [] := by
        rw [filter_singleton, Bool.eq_false_iff.mpr kept, cond_false]
      rw [stays, none', append_nil]
      exact ⟨count, cells⟩

theorem compact_count : (compact used table).2 = usedCount used table := by
  rw [compact, (compact_progress (finRange n) [] (append_nil _)).1, ← usedPlaces_length, usedPlaces]

theorem compact_apply (place : Fin n) : (compact used table).1 place = table (source used table place) := by
  rw [compact, (compact_progress (finRange n) [] (append_nil _)).2 place, source, usedPlaces]

theorem source_front (front : place.val < usedCount used table) : used (table (source used table place)) := by
  rw [← usedPlaces_length] at front
  rw [source, getElem?_eq_getElem front]
  exact mem_usedPlaces.mp (getElem_mem front)

theorem source_behind (behind : usedCount used table ≤ place.val) : source used table place = place := by
  rw [← usedPlaces_length] at behind
  rw [source, getElem?_eq_none behind]
  rfl

theorem exists_source (here : used (table place)) :
    ∃ target : Fin n, target.val < usedCount used table ∧ source used table target = place := by
  obtain ⟨index, inside, same⟩ := getElem_of_mem (mem_usedPlaces.mpr here)
  have small : index < usedCount used table := usedPlaces_length ▸ inside
  refine ⟨⟨index, small.trans_le (usedCount_le table)⟩, small, ?_⟩
  rw [source, getElem?_eq_getElem inside]
  exact same

theorem source_front_injective (front : place.val < usedCount used table) (front' : other.val < usedCount used table)
    (same : source used table place = source used table other) : place = other := by
  rw [← usedPlaces_length] at front front'
  rw [source, source, getElem?_eq_getElem front, getElem?_eq_getElem front'] at same
  exact Fin.ext ((List.Nodup.getElem_inj_iff usedPlaces_nodup).mp same)

theorem Packed.source (packed : Packed used table) (place : Fin n) : source used table place = place := by
  have front : usedPlaces used table = (finRange n).takeWhile fun place => used (table place) := by
    apply filter_eq_takeWhile
    apply (pairwise_lt_finRange n).imp
    exact fun {first second} before here => packed second here first before
  rw [SlotTable.source, front]
  by_cases inside : place.val < ((finRange n).takeWhile fun place => used (table place)).length
  · rw [getElem?_eq_getElem inside, List.IsPrefix.getElem (List.takeWhile_prefix _) inside,
      getElem_finRange]
    rfl
  · rw [getElem?_eq_none (Nat.le_of_not_lt inside)]
    rfl

theorem Packed.front (packed : Packed used table) (here : used (table place)) :
    place.val < usedCount used table := by
  obtain ⟨target, before, same⟩ := exists_source here
  rw [packed.source] at same
  exact same ▸ before

theorem map_usedPlaces_front {Value : Type} {value : Fin n → Value} {values : List Value} (within : values.length ≤ n)
    (front : ∀ place, used (table place) = decide (place.val < values.length))
    (same : ∀ place entry, values[place.val]? = some entry → value place = entry) :
    (usedPlaces used table).map value = values := by
  have count : (usedPlaces used table).length = values.length := by rw [usedPlaces_length, usedCount_front within front]
  have packed : Packed used table := by
    intro place here other before
    rw [front, decide_eq_true_iff] at here ⊢
    exact lt_trans before here
  apply ext_getElem?
  intro index
  rw [getElem?_map]
  by_cases inside : index < values.length
  · have found := getElem?_eq_getElem (count ▸ inside : index < (usedPlaces used table).length)
    have at' : (usedPlaces used table)[index] = ⟨index, inside.trans_le within⟩ := by
      have still := packed.source ⟨index, inside.trans_le within⟩
      rw [source, found] at still
      exact still
    have entry := getElem?_eq_getElem inside
    rw [found, at', Option.map_some, entry, same ⟨index, inside.trans_le within⟩ _ entry]
  · rw [getElem?_eq_none (by omega), getElem?_eq_none (by omega), Option.map_none]

theorem countP_front {Value : Type} (counts : Value → Bool) {values : List Value} (within : values.length ≤ n)
    (rest : Fin n → Value) (blank : ∀ place, counts (rest place) = false) :
    ((finRange n).countP fun place => counts ((values[place.val]?).getD (rest place))) = values.countP counts := by
  have split : (finRange n).map (fun place : Fin n => (values[place.val]?).getD (rest place)) =
      values ++ ((finRange n).drop values.length).map rest := by
    apply ext_getElem
    · simp only [length_map, length_finRange, length_append, length_drop]
      omega
    · intro place here there
      rw [getElem_map, getElem_finRange, getElem_append]
      split
      next inside =>
        dsimp only [Fin.cast]
        rw [getElem?_eq_getElem inside, Option.getD_some]
      next outside =>
        dsimp only [Fin.cast]
        rw [getElem?_eq_none (by omega), getElem_map, getElem_drop, getElem_finRange, Option.getD_none]
        congr 1
        apply Fin.ext
        dsimp only [Fin.cast]
        omega
  have none : (((finRange n).drop values.length).map rest).countP counts = 0 := by
    rw [countP_eq_zero]
    intro value inside
    obtain ⟨place, -, rfl⟩ := mem_map.mp inside
    exact ne_true_of_eq_false (blank place)
  have mapped := countP_map (p := counts) (f := fun place : Fin n => (values[place.val]?).getD (rest place))
    (l := finRange n)
  rw [split, countP_append, none] at mapped
  exact mapped.symm

/-- The sources differ exactly when nothing moves. -/
theorem source_injective : Function.Injective (source used table) ↔ Packed used table := by
  constructor
  · intro injective
    have inFront : ∀ place, used (table place) → place.val < usedCount used table := by
      intro place here
      by_contra behind
      obtain ⟨target, front, same⟩ := exists_source here
      have equal : target = place := injective (same.trans (source_behind (Nat.le_of_not_lt behind)).symm)
      exact behind (equal ▸ front)
    have all : (Finset.univ.filter fun place : Fin n => used (table place) = true) =
        Finset.univ.filter fun place : Fin n => place.val < usedCount used table := by
      apply Finset.eq_of_subset_of_card_le
      · intro place inside
        rw [Finset.mem_filter] at inside ⊢
        exact ⟨inside.1, inFront place inside.2⟩
      · have few : (Finset.univ.filter fun place : Fin n => place.val < usedCount used table).card ≤
            usedCount used table := by
          rw [Fin.card_filter_val_lt]
          exact min_le_right n _
        have many : usedCount used table = (Finset.univ.filter fun place : Fin n => used (table place) =
          true).card := by
          rw [Finset.card_filter]
          apply Finset.sum_congr rfl
          intro place _
          cases used (table place) <;> rfl
        omega
    intro place here other before
    have inside : other ∈ Finset.univ.filter fun place : Fin n => used (table place) = true := by
      rw [all, Finset.mem_filter]
      exact ⟨Finset.mem_univ _, lt_trans (Fin.lt_def.mp before) (inFront place here)⟩
    exact (Finset.mem_filter.mp inside).2
  · intro packed first second same
    rwa [packed.source, packed.source] at same

end Compaction

end SlotTable
