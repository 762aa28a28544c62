import Mathlib.Tactic

namespace CursorPaging
open List

variable {α κ : Type} [LinearOrder κ] (key : α → κ)

def older (cells : List α) : Option κ → List α
  | none => cells
  | some cursor => cells.filter fun cell => key cell < cursor

def page (limit : Nat) (cells : List α) (cursor : Option κ) : List α × Bool :=
  ((older key cells cursor).take limit, limit < (older key cells cursor).length)

def walk (limit : Nat) (cells : List α) : Nat → Option κ → List (List α × Bool)
  | 0, _ => []
  | fuel + 1, cursor =>
    let current := page key limit cells cursor
    match current.2, current.1.getLast? with
    | true, some last => current :: walk limit cells fuel (some (key last))
    | _, _ => [current]

variable {key} {cells : List α} {cursor : Option κ} {limit : Nat}

/-- The cells below the last cell of a page are the ones that follow it. -/
theorem older_below (decreasing : cells.Pairwise fun cell next => key next < key cell) {front rest : List α} {last : α}
    (cut : older key cells cursor = front ++ last :: rest) : older key cells (some (key last)) = rest := by
  have inside : (older key cells cursor).filter (fun cell => key cell < key last) =
      older key cells (some (key last)) := by
    cases cursor with
    | none => rfl
    | some bound =>
      have member : last ∈ older key cells (some bound) := by
        rw [cut]
        exact mem_append_right _ mem_cons_self
      have below : key last < bound := of_decide_eq_true (mem_filter.mp member).2
      rw [older, filter_filter]
      apply filter_congr
      intro cell _
      rw [Bool.and_eq_left_iff_imp]
      simp only [decide_eq_true_eq]
      exact fun lower => lower.trans below
  have sorted : (front ++ last :: rest).Pairwise fun cell next => key next < key cell := by
    rw [← cut]
    cases cursor with
    | none => exact decreasing
    | some => exact decreasing.filter _
  rw [pairwise_append, pairwise_cons] at sorted
  obtain ⟨_, ⟨lower, _⟩, higher⟩ := sorted
  have front_out : front.filter (fun cell => decide (key cell < key last)) = [] := by
    apply filter_eq_nil_iff.mpr
    intro cell member
    have above := higher cell member last mem_cons_self
    simpa using above.le
  have rest_in : rest.filter (fun cell => decide (key cell < key last)) = rest := by
    apply filter_eq_self.mpr
    intro cell member
    exact decide_eq_true (lower cell member)
  rw [← inside, cut, filter_append, front_out, nil_append,
    filter_cons_of_neg (by simp), rest_in]

theorem page_next (positive : 0 < limit) (decreasing : cells.Pairwise fun cell next => key next < key cell)
    (more : limit < (older key cells cursor).length) :
    ∃ last, ((older key cells cursor).take limit).getLast? = some last ∧
      older key cells (some (key last)) = (older key cells cursor).drop limit := by
  have nonEmpty : (older key cells cursor).take limit ≠ [] := by
    rw [← length_pos_iff, length_take]
    omega
  obtain ⟨front, last, split⟩ := (eq_nil_or_concat' _).resolve_left nonEmpty
  have cut : older key cells cursor = front ++ last :: (older key cells cursor).drop limit := by
    conv_lhs => rw [← take_append_drop limit (older key cells cursor), split]
    rw [append_assoc]
    rfl
  exact ⟨last, by rw [split, getLast?_concat], older_below decreasing cut⟩

/-- The pages hold the older cells in order, and exactly the last page says that no more follow. -/
theorem walk_spec (positive : 0 < limit) (decreasing : cells.Pairwise fun cell next => key next < key cell)
    {fuel : Nat} (enough : (older key cells cursor).length < fuel) :
    (walk key limit cells fuel cursor).flatMap Prod.fst = older key cells cursor ∧
      ∃ front last, walk key limit cells fuel cursor = front ++ [last] ∧ last.2 = false ∧
        ∀ current ∈ front, current.2 := by
  induction fuel generalizing cursor with
  | zero => exact absurd enough (Nat.not_lt_zero _)
  | succ fuel ih =>
    by_cases more : limit < (older key cells cursor).length
    · obtain ⟨last, ends, next⟩ := page_next positive decreasing more
      have unfolded : walk key limit cells (fuel + 1) cursor =
          page key limit cells cursor :: walk key limit cells fuel (some (key last)) := by
        simp [walk, page, more, ends]
      have shorter : (older key cells (some (key last))).length < fuel := by
        rw [next, length_drop]
        omega
      obtain ⟨joined, front, final, shape, stop, before⟩ := ih shorter
      refine ⟨?_, page key limit cells cursor :: front, final, ?_, stop, ?_⟩
      · rw [unfolded, flatMap_cons, joined, next]
        exact take_append_drop limit _
      · rw [unfolded, shape, cons_append]
      · rw [forall_mem_cons]
        exact ⟨decide_eq_true more, before⟩
    · have unfolded : walk key limit cells (fuel + 1) cursor = [page key limit cells cursor] := by
        simp [walk, page, more]
      refine ⟨?_, [], page key limit cells cursor, unfolded, decide_eq_false more, forall_mem_nil _⟩
      rw [unfolded, flatMap_singleton]
      exact take_of_length_le (Nat.le_of_not_lt more)

end CursorPaging
