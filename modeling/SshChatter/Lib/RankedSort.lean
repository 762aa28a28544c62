import Mathlib.Tactic
import Mathlib.Data.List.DropRight

namespace BestScan
open List

variable {α : Type} (score : α → Int) (limit : Nat)

def scan : List (α × Nat) → Int × List Nat → Int × List Nat
  | [], best => best
  | (item, index) :: rest, best =>
    if best.1 < score item then scan rest (score item, [index])
    else if score item = best.1 ∧ best.2.length < limit then scan rest (best.1, best.2 ++ [index])
    else scan rest best

def bestIndexes (start : Int) (items : List α) : List Nat := (scan score limit items.zipIdx (start, [])).2

variable {score} {limit} {start : Int} {items : List α} {index : Nat}

theorem scan_le (entries : List (α × Nat)) (best : Int × List Nat) :
    best.1 ≤ (scan score limit entries best).1 ∧
      ∀ entry ∈ entries, score entry.1 ≤ (scan score limit entries best).1 := by
  induction entries generalizing best with
  | nil => exact ⟨Int.le_refl _, forall_mem_nil _⟩
  | cons entry rest ih =>
    rw [scan, forall_mem_cons]
    split_ifs with better same
    · have later := ih (score entry.1, [entry.2])
      exact ⟨better.le.trans later.1, later.1, later.2⟩
    · have later := ih (best.1, best.2 ++ [entry.2])
      exact ⟨later.1, same.1.le.trans later.1, later.2⟩
    · have later := ih best
      exact ⟨later.1, (Int.not_lt.mp better).trans later.1, later.2⟩

theorem mem_scan (entries : List (α × Nat)) (best : Int × List Nat) (kept : index ∈ (scan score limit entries best).2) :
    (index ∈ best.2 ∧ (scan score limit entries best).1 = best.1) ∨
      ∃ item, (item, index) ∈ entries ∧ score item = (scan score limit entries best).1 := by
  induction entries generalizing best with
  | nil => exact .inl ⟨kept, rfl⟩
  | cons entry rest ih =>
    rw [scan] at kept ⊢
    split_ifs at kept ⊢ with better same
    · rcases ih _ kept with ⟨first, equal⟩ | ⟨item, member, equal⟩
      · obtain rfl := mem_singleton.mp first
        exact .inr ⟨entry.1, mem_cons_self, equal.symm⟩
      · exact .inr ⟨item, mem_cons_of_mem _ member, equal⟩
    · rcases ih _ kept with ⟨first, equal⟩ | ⟨item, member, equal⟩
      · rcases mem_append.mp first with before | last
        · exact .inl ⟨before, equal⟩
        · obtain rfl := mem_singleton.mp last
          exact .inr ⟨entry.1, mem_cons_self, same.1.trans equal.symm⟩
      · exact .inr ⟨item, mem_cons_of_mem _ member, equal⟩
    · rcases ih _ kept with before | ⟨item, member, equal⟩
      · exact .inl before
      · exact .inr ⟨item, mem_cons_of_mem _ member, equal⟩

/-- The scan keeps no place when every score is below the first one. -/
theorem scan_eq_nil (room : 0 < limit) (entries : List (α × Nat)) (best : Int × List Nat) :
    (scan score limit entries best).2 = [] ↔ best.2 = [] ∧ ∀ entry ∈ entries, score entry.1 < best.1 := by
  induction entries generalizing best with
  | nil => simp [scan]
  | cons entry rest ih =>
    rw [scan, forall_mem_cons]
    split_ifs with better same
    · rw [ih]
      simp [Int.not_lt.mpr better.le]
    · rw [ih]
      simp [same.1]
    · rw [ih]
      have below (empty : best.2 = []) : score entry.1 < best.1 := by
        apply lt_of_le_of_ne (Int.not_lt.mp better)
        intro equal
        exact same ⟨equal, by rwa [empty]⟩
      constructor
      · exact fun rest => ⟨rest.1, below rest.1, rest.2⟩
      · exact fun all => ⟨all.1, all.2.2⟩

theorem bestIndexes_eq_nil (room : 0 < limit) :
    bestIndexes score limit start items = [] ↔ ∀ item ∈ items, score item < start := by
  rw [bestIndexes, scan_eq_nil room]
  constructor
  · rintro ⟨-, all⟩ item member
    obtain ⟨index, bound, rfl⟩ := getElem_of_mem member
    exact all (items[index], index) (mk_mem_zipIdx_iff_getElem?.mpr (getElem?_eq_getElem bound))
  · exact fun all => ⟨rfl, fun entry member => all entry.1 (fst_mem_of_mem_zipIdx member)⟩

theorem mem_bestIndexes (kept : index ∈ bestIndexes score limit start items) :
    ∃ item, items[index]? = some item ∧ ∀ other ∈ items, score other ≤ score item := by
  rcases mem_scan _ _ kept with ⟨before, -⟩ | ⟨item, member, equal⟩
  · exact absurd before not_mem_nil
  · refine ⟨item, mk_mem_zipIdx_iff_getElem?.mp member, ?_⟩
    intro other listed
    obtain ⟨place, bound, rfl⟩ := getElem_of_mem listed
    rw [equal]
    exact (scan_le items.zipIdx (start, [])).2 (items[place], place)
      (mk_mem_zipIdx_iff_getElem?.mpr (getElem?_eq_getElem bound))

end BestScan

namespace RankedSort
open List

variable {Row Rank : Type} (before : Row → Row → Bool)

def insertBack (sorted : List Row) (key : Row) : List Row :=
  sorted.rdropWhile (before key) ++ key :: sorted.rtakeWhile (before key)

def insertSort (rows : List Row) : List Row := rows.foldl (insertBack before) []

/-- The comparison of rows that carry their positions. The earlier of two equal rows goes first. -/
def precedes (first second : Row × Nat) : Bool :=
  before first.1 second.1 || (!before second.1 first.1 && first.2 < second.2)

def place (rows : List (Row × Nat)) (row : Row × Nat) : Nat := rows.countP fun other => precedes before other row

section Permutation

variable {before}

theorem insertBack_perm (sorted : List Row) (key : Row) : (insertBack before sorted key).Perm (sorted ++ [key]) := by
  conv_rhs => rw [← rdropWhile_append_rtakeWhile (p := before key) (l := sorted), append_assoc]
  exact List.Perm.append_left _ (perm_append_singleton key _).symm

theorem insertSort_perm (rows : List Row) : (insertSort before rows).Perm rows := by
  induction rows using reverseRecOn with
  | nil => rfl
  | append_singleton rows row ih =>
    rw [insertSort, foldl_append]
    exact (insertBack_perm _ row).trans (ih.append_right [row])

theorem insertSort_length (rows : List Row) : (insertSort before rows).length = rows.length :=
  (insertSort_perm rows).length_eq

theorem insertBack_map {Tagged : Type} (part : Tagged → Row) (sorted : List Tagged) (key : Tagged) :
    (insertBack (fun key other => before (part key) (part other)) sorted key).map part =
      insertBack before (sorted.map part) (part key) := by
  simp only [insertBack, rdropWhile, rtakeWhile, map_append, ← map_reverse,
    dropWhile_map, takeWhile_map]
  rfl

theorem insertSort_map {Tagged : Type} (part : Tagged → Row) (rows : List Tagged) :
    (insertSort (fun key other => before (part key) (part other)) rows).map part =
      insertSort before (rows.map part) := by
  induction rows using reverseRecOn with
  | nil => rfl
  | append_singleton rows row ih =>
    rw [map_append, map_singleton]
    unfold insertSort at ih ⊢
    rw [foldl_append, foldl_append, foldl_cons, foldl_cons, foldl_nil, foldl_nil, insertBack_map, ih]

end Permutation

/-- Rows that get their positions are in the order of these. -/
theorem zipIdx_increasing (rows : List Row) : rows.zipIdx.Pairwise fun first second => first.2 < second.2 := by
  rw [pairwise_iff_getElem]
  intro i j hi hj less
  simpa using less

section Order

variable {before} [LinearOrder Rank] {rank : Row → Rank} {rows : List (Row × Nat)} {first second third : Row × Nat}

def ByRank (before : Row → Row → Bool) (rank : Row → Rank) : Prop := ∀ key other, before key other = true ↔
    rank other < rank key

theorem precedes_iff (ranked : ByRank before rank) :
    precedes before first second ↔
      rank second.1 < rank first.1 ∨ rank second.1 = rank first.1 ∧ first.2 < second.2 := by
  rw [precedes, Bool.or_eq_true, Bool.and_eq_true, Bool.not_eq_true', ranked, decide_eq_true_eq, ← Bool.not_eq_true,
    ranked, not_lt]
  constructor
  · rintro (above | ⟨level, earlier⟩)
    · exact Or.inl above
    · exact level.lt_or_eq.imp id fun same => ⟨same, earlier⟩
  · rintro (above | ⟨same, earlier⟩)
    · exact Or.inl above
    · exact Or.inr ⟨same.le, earlier⟩

theorem precedes_trans (ranked : ByRank before rank) (left : precedes before first second)
    (right : precedes before second third) : precedes before first third := by
  rw [precedes_iff ranked] at left right ⊢
  rcases left with above | ⟨same, earlier⟩ <;> rcases right with below | ⟨same', later⟩
  · exact Or.inl (below.trans above)
  · exact Or.inl (same' ▸ above)
  · exact Or.inl (same ▸ below)
  · exact Or.inr ⟨same'.trans same, earlier.trans later⟩

theorem precedes_irrefl (ranked : ByRank before rank) : precedes before first first = false := by
  rw [← Bool.not_eq_true, precedes_iff ranked]
  simp

theorem precedes_asymm (ranked : ByRank before rank) (forward : precedes before first second) :
    precedes before second first = false := by
  rw [← Bool.not_eq_true]
  intro back
  have round := precedes_trans ranked forward back
  rw [precedes_irrefl ranked] at round
  cases round

/-- A key behind all positions finds its place. -/
theorem insertBack_pairwise (ranked : ByRank before rank) {sorted : List (Row × Nat)} {key : Row × Nat}
    (ordered : sorted.Pairwise fun first second => precedes before first second)
    (later : ∀ other ∈ sorted, other.2 < key.2) :
    (insertBack (fun key other => before key.1 other.1) sorted key).Pairwise fun first second =>
      precedes before first second := by
  have split := rdropWhile_append_rtakeWhile (p := fun other : Row × Nat => before key.1 other.1) (l := sorted)
  unfold insertBack
  generalize front : sorted.rdropWhile (fun other => before key.1 other.1) = kept at split ⊢
  generalize back : sorted.rtakeWhile (fun other => before key.1 other.1) = passed at split ⊢
  rw [← split, pairwise_append] at ordered
  obtain ⟨keptOrdered, passedOrdered, across⟩ := ordered
  rw [pairwise_append, pairwise_cons]
  refine ⟨keptOrdered, ⟨?_, passedOrdered⟩, ?_⟩
  · intro other member
    rw [← back] at member
    have above : before key.1 other.1 = true :=
      mem_rtakeWhile_imp (p := fun other : Row × Nat => before key.1 other.1) member
    rw [precedes, above, Bool.true_or]
  · intro other member next inside
    rcases mem_cons.mp inside with rfl | inside
    · have present := ne_nil_of_mem member
      -- The last row that stays has no lower rank, so no row in front of it has.
      have stays : ¬ before next.1 (kept.getLast present).1 := by
        subst front
        exact rdropWhile_last_not _ _ present
      rw [ranked, not_lt] at stays
      have bound : rank next.1 ≤ rank other.1 := by
        have ends := dropLast_append_getLast present
        rw [← ends, pairwise_append] at keptOrdered
        rw [← ends, mem_append, mem_singleton] at member
        rcases member with inner | last
        · have ahead := keptOrdered.2.2 other inner _ (mem_singleton_self _)
          rw [precedes_iff ranked] at ahead
          exact stays.trans (ahead.elim le_of_lt fun same => same.1.le)
        · rw [last]
          exact stays
      rw [precedes_iff ranked]
      refine bound.lt_or_eq.imp id fun same => ⟨same, later other ?_⟩
      rw [← split]
      exact mem_append_left _ member
    · exact across other member next inside

theorem insertSort_pairwise (ranked : ByRank before rank)
    (increasing : rows.Pairwise fun first second => first.2 < second.2) :
    (insertSort (fun key other => before key.1 other.1) rows).Pairwise fun first second =>
      precedes before first second := by
  induction rows using reverseRecOn with
  | nil => exact List.Pairwise.nil
  | append_singleton rows row ih =>
    rw [pairwise_append] at increasing
    have sorted := ih increasing.1
    have members : (insertSort (fun key other => before key.1 other.1) rows).Perm rows := insertSort_perm rows
    unfold insertSort at sorted members ⊢
    rw [foldl_append]
    apply insertBack_pairwise ranked sorted
    intro other member
    exact increasing.2.2 other (members.mem_iff.mp member) row (mem_singleton_self row)

/-- In an ordered list the rows in front of a position go before it and no others. -/
theorem countP_precedes (ranked : ByRank before rank)
    (ordered : rows.Pairwise fun first second => precedes before first second = true)
    {position : Nat} (inside : position < rows.length) : place before rows rows[position] = position := by
  unfold place
  induction rows generalizing position with
  | nil => cases inside
  | cons row rows ih =>
    obtain ⟨first, ordered⟩ := pairwise_cons.mp ordered
    cases position with
    | zero =>
      rw [countP_eq_zero]
      intro other member
      rcases mem_cons.mp member with rfl | member
      · exact Bool.eq_false_iff.mp (precedes_irrefl ranked)
      · exact Bool.eq_false_iff.mp (precedes_asymm ranked (first other member))
    | succ =>
      have inside' := Nat.lt_of_succ_lt_succ inside
      rw [getElem_cons_succ, countP_cons, ih ordered inside',
        if_pos (first _ (getElem_mem inside'))]

theorem place_sorted (ranked : ByRank before rank) (increasing : rows.Pairwise fun first second => first.2 < second.2)
    {position : Nat}
      (inside : position < (insertSort (fun key other : Row × Nat => before key.1 other.1) rows).length) :
    place before rows (insertSort (fun key other => before key.1 other.1) rows)[position] = position := by
  conv_rhs => rw [← countP_precedes ranked (insertSort_pairwise ranked increasing) inside]
  exact ((insertSort_perm rows).countP_eq _).symm

/-- The rows in front of a position are those with a lower place. -/
theorem take_sorted (ranked : ByRank before rank) (increasing : rows.Pairwise fun first second => first.2 < second.2)
    (count : Nat) :
    ((insertSort (fun key other => before key.1 other.1) rows).take count).Perm
      (rows.filter fun row => place before rows row < count) := by
  have lead : (insertSort (fun key other => before key.1 other.1) rows).filter (fun row =>
      place before rows row < count) = (insertSort (fun key other => before key.1 other.1) rows).take count := by
    conv_lhs => rw [← take_append_drop count (insertSort _ rows), filter_append]
    rw [filter_eq_self.mpr, filter_eq_nil_iff.mpr, append_nil]
    · intro row member
      obtain ⟨position, inside, rfl⟩ := mem_drop_iff_getElem.mp member
      rw [place_sorted ranked increasing]
      simp
    · intro row member
      obtain ⟨position, inside, rfl⟩ := mem_take_iff_getElem.mp member
      rw [place_sorted ranked increasing]
      exact decide_eq_true (lt_of_lt_of_le inside (min_le_left _ _))
  rw [← lead]
  exact (insertSort_perm rows).filter _

end Order

section Bounded

/-- A key joins the best rows while there is room. After that it has to pass the last one, which goes. -/
def insertBounded (limit : Nat) (best : List Row) (key : Row) : List Row :=
  if best.length < limit then insertBack before best key
  else
    match best.getLast? with
    | some last => if before key last then insertBack before best.dropLast key else best
    | none => best

variable {before} {key : Row} {front back : List Row}

theorem insertBack_append (stay : ∀ row ∈ front, before key row = false) (pass : ∀ row ∈ back, before key row) :
    insertBack before (front ++ back) key = front ++ key :: back := by
  have passed : ∀ row ∈ back.reverse, before key row := fun row inside => pass row (mem_reverse.mp inside)
  have stayed : front.reverse.dropWhile (before key) = front.reverse ∧ front.reverse.takeWhile (before key) = [] := by
    cases shape : front.reverse with
    | nil => exact ⟨rfl, rfl⟩
    | cons row =>
      have first := stay row (mem_reverse.mp (shape ▸ mem_cons_self))
      simp [first]
  rw [insertBack, rdropWhile, rtakeWhile, reverse_append, dropWhile_append_of_pos passed,
    takeWhile_append_of_pos passed, stayed.1, stayed.2, append_nil, reverse_reverse, reverse_reverse]

theorem exists_split {sorted : List Row}
    (passes : sorted.Pairwise fun first second => before key first → before key second) :
    ∃ front back, sorted = front ++ back ∧ (∀ row ∈ front, before key row = false) ∧ ∀ row ∈ back, before key row := by
  induction sorted with
  | nil => exact ⟨[], [], rfl, by simp, by simp⟩
  | cons row rest ih =>
    obtain ⟨first, later⟩ := pairwise_cons.mp passes
    cases ahead : before key row with
    | true =>
      refine ⟨[], row :: rest, rfl, by simp, fun other inside => ?_⟩
      rcases mem_cons.mp inside with rfl | behind
      · exact ahead
      · exact first other behind ahead
    | false =>
      obtain ⟨front, back, rfl, stay, pass⟩ := ih later
      refine ⟨row :: front, back, rfl, fun other inside => ?_, pass⟩
      rcases mem_cons.mp inside with rfl | behind
      · exact ahead
      · exact stay other behind

theorem insertBounded_take {limit : Nat} {sorted : List Row}
    (passes : sorted.Pairwise fun first second => before key first → before key second) :
    insertBounded before limit (sorted.take limit) key = (insertBack before sorted key).take limit := by
  obtain ⟨front, back, rfl, stay, pass⟩ := exists_split passes
  rw [insertBack_append stay pass]
  by_cases room : (front ++ back).length < limit
  · have whole : (front ++ back).take limit = front ++ back := take_of_length_le room.le
    rw [insertBounded, whole, if_pos room, insertBack_append stay pass, take_of_length_le]
    rw [length_append] at room
    rw [length_append, length_cons]
    omega
  · have full : ¬ ((front ++ back).take limit).length < limit := by
      rw [length_take]
      omega
    rw [insertBounded, if_neg full]
    by_cases ahead : limit ≤ front.length
    · rw [take_append_of_le_length ahead, take_append_of_le_length ahead]
      split
      next last found =>
        have inside : last ∈ front := mem_of_mem_take (mem_of_getLast? found)
        rw [stay last inside]
        exact if_neg Bool.false_ne_true
      · rfl
    · obtain ⟨more, count⟩ : ∃ more, limit = front.length + (more + 1) := ⟨limit - front.length - 1, by omega⟩
      have long : more < back.length := by
        rw [length_append] at room
        omega
      have cut : back.take (more + 1) = back.take more ++ [back[more]] := (take_append_getElem long).symm
      have last : (front ++ back.take (more + 1)).getLast? = some back[more] := by
        rw [cut, ← append_assoc, getLast?_concat]
      have rest : (front ++ back.take (more + 1)).dropLast = front ++ back.take more := by
        rw [cut, ← append_assoc, dropLast_concat]
      rw [count, take_length_add_append, take_length_add_append, last]
      dsimp only
      rw [if_pos (pass _ (getElem_mem long)), rest]
      exact insertBack_append stay fun row inside => pass row (mem_of_mem_take inside)

variable [LinearOrder Rank] {rank : Row → Rank} {rows : List (Row × Nat)}

theorem foldl_insertBounded (ranked : ByRank before rank)
    (increasing : rows.Pairwise fun first second => first.2 < second.2)
    (limit : Nat) : rows.foldl (insertBounded (fun key other => before key.1 other.1) limit) [] =
      (insertSort (fun key other => before key.1 other.1) rows).take limit := by
  induction rows using reverseRecOn with
  | nil => exact (take_nil).symm
  | append_singleton rows row ih =>
    rw [pairwise_append] at increasing
    have sorted := insertSort_pairwise ranked increasing.1
    rw [foldl_append, ih increasing.1]
    unfold insertSort at sorted ⊢
    rw [foldl_append]
    simp only [foldl_cons]
    refine insertBounded_take (sorted.imp fun {first second} order passed => ?_)
    rw [precedes_iff ranked] at order
    rw [ranked] at passed ⊢
    rcases order with above | ⟨same, -⟩
    · exact above.trans passed
    · exact same ▸ passed

end Bounded

end RankedSort
