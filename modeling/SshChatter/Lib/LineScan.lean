import Mathlib.Tactic

namespace LineScan
open List

/-- How a line ends. A return counts only when another byte follows it. -/
inductive Terminator where
  | crlf
  | lf
  | cr
  deriving DecidableEq

def Terminator.rank : Terminator → Nat
  | .crlf => 0
  | .lf => 1
  | .cr => 2

section Scan

variable {α : Type} [DecidableEq α] (cr lf : α)

def Terminator.bytes : Terminator → List α
  | .crlf => [cr, lf]
  | .lf => [lf]
  | .cr => [cr]

def afterReturn : List α → Option (List α × Terminator × List α)
  | [] => none
  | next :: rest => if next = lf then some ([], .crlf, rest) else some ([], .cr, next :: rest)

/-- The first line of a text, how it ends, and the text behind it. -/
def nextLine : List α → Option (List α × Terminator × List α)
  | [] => none
  | c :: rest =>
    if c = lf then some ([], .lf, rest)
    else if c = cr then afterReturn lf rest
    else (nextLine rest).map fun found => (c :: found.1, found.2)

variable {cr lf}

/-- The first line is free of terminators, and the text is put together again from its parts. -/
theorem nextLine_some {text line rest : List α} {ending : Terminator}
    (found : nextLine cr lf text = some (line, ending, rest)) :
    text = line ++ (ending.bytes cr lf ++ rest) ∧ cr ∉ line ∧ lf ∉ line ∧
      (ending = .cr → rest ≠ [] ∧ rest.head? ≠ some lf) := by
  induction text generalizing line with
  | nil => simp [nextLine] at found
  | cons c tail ih =>
    rw [nextLine] at found
    split_ifs at found with feed ret
    · simp only [Option.some.injEq] at found
      obtain ⟨rfl, rfl, rfl⟩ := found
      simp [Terminator.bytes, feed]
    · cases tail with
      | nil => cases found
      | cons =>
        rw [afterReturn] at found
        split_ifs at found with second
        all_goals
          obtain ⟨rfl, rfl, rfl⟩ := found
        · simp [Terminator.bytes, ret, second]
        · simp [Terminator.bytes, ret, second]
    · obtain ⟨⟨line', ending', rest'⟩, deeper, same⟩ := Option.map_eq_some_iff.mp found
      obtain ⟨rfl, rfl, rfl⟩ := same
      obtain ⟨parts, noReturn, noFeed, follows⟩ := ih deeper
      refine ⟨by rw [parts, cons_append], ?_, ?_, follows⟩
      · exact not_mem_cons_of_ne_of_not_mem (Ne.symm ret) noReturn
      · exact not_mem_cons_of_ne_of_not_mem (Ne.symm feed) noFeed

/-- A text without a line has no feed, and a return only at its end. -/
theorem nextLine_none {text : List α} (absent : nextLine cr lf text = none) :
    lf ∉ text ∧ (text.getLast? ≠ some cr → cr ∉ text) := by
  induction text with
  | nil => simp
  | cons c tail ih =>
    rw [nextLine] at absent
    split_ifs at absent with feed ret
    · cases tail with
      | nil => simp [ret, ret ▸ Ne.symm feed]
      | cons =>
        rw [afterReturn] at absent
        split_ifs at absent
    · obtain ⟨noFeed, noReturn⟩ := ih (Option.map_eq_none_iff.mp absent)
      refine ⟨not_mem_cons_of_ne_of_not_mem (Ne.symm feed) noFeed, ?_⟩
      intro last
      apply not_mem_cons_of_ne_of_not_mem (Ne.symm ret)
      cases tail with
      | nil => exact not_mem_nil
      | cons => exact noReturn (by simpa using last)

theorem nextLine_append {text line rest : List α} {ending : Terminator}
    (found : nextLine cr lf text = some (line, ending, rest)) (more : List α) :
    nextLine cr lf (text ++ more) = some (line, ending, rest ++ more) := by
  induction text generalizing line with
  | nil => simp [nextLine] at found
  | cons c tail ih =>
    rw [nextLine] at found
    rw [cons_append, nextLine]
    split_ifs at found ⊢ with feed ret
    · simp only [Option.some.injEq, Prod.mk.injEq] at found ⊢
      obtain ⟨rfl, rfl, rfl⟩ := found
      exact ⟨rfl, rfl, rfl⟩
    · cases tail with
      | nil => cases found
      | cons =>
        rw [afterReturn] at found
        rw [cons_append, afterReturn]
        split_ifs at found ⊢ with second
        all_goals
          simp only [Option.some.injEq, Prod.mk.injEq] at found ⊢
          obtain ⟨rfl, rfl, rfl⟩ := found
          exact ⟨rfl, rfl, rfl⟩
    · obtain ⟨⟨line', ending', rest'⟩, deeper, same⟩ := Option.map_eq_some_iff.mp found
      obtain ⟨rfl, rfl, rfl⟩ := same
      rw [ih deeper]
      rfl

/-- A text without terminators in front of both bytes is a line. -/
theorem nextLine_crlf {line : List α} (distinct : cr ≠ lf) (noReturn : cr ∉ line) (noFeed : lf ∉ line) (rest : List α) :
    nextLine cr lf (line ++ cr :: lf :: rest) = some (line, .crlf, rest) := by
  induction line with
  | nil => rw [nil_append, nextLine, if_neg distinct, if_pos rfl, afterReturn, if_pos rfl]
  | cons c line ih =>
    obtain ⟨ret, noReturn⟩ := not_or.mp (mt mem_cons.mpr noReturn)
    obtain ⟨feed, noFeed⟩ := not_or.mp (mt mem_cons.mpr noFeed)
    rw [cons_append, nextLine, if_neg (Ne.symm feed), if_neg (Ne.symm ret), ih noReturn noFeed]
    rfl

theorem nextLine_shorter {text line rest : List α} {ending : Terminator}
    (found : nextLine cr lf text = some (line, ending, rest)) : rest.length < text.length := by
  rw [(nextLine_some found).1]
  cases ending <;> simp [Terminator.bytes] <;> omega

variable (cr lf)

def scan (text : List α) : List (List α × Terminator) × List α :=
  match _found : nextLine cr lf text with
  | none => ([], text)
  | some (line, ending, rest) => ((line, ending) :: (scan rest).1, (scan rest).2)
termination_by text.length
decreasing_by exact nextLine_shorter _found

variable {cr lf}

theorem scan_none {text : List α} (absent : nextLine cr lf text = none) : scan cr lf text = ([], text) := by
  rw [scan]
  split
  next => rfl
  next line ending rest found => rw [absent] at found; cases found

theorem scan_some {text line rest : List α} {ending : Terminator}
    (found : nextLine cr lf text = some (line, ending, rest)) :
    scan cr lf text = ((line, ending) :: (scan cr lf rest).1, (scan cr lf rest).2) := by
  rw [scan]
  split
  next absent => rw [found] at absent; cases absent
  next line' ending' rest' found' =>
    rw [found] at found'
    obtain ⟨rfl, rfl, rfl⟩ := found'
    rfl

theorem lineInduction {motive : List α → Prop} (cr lf : α)
    (last : ∀ text, nextLine cr lf text = none → motive text)
    (line : ∀ text line ending rest, nextLine cr lf text = some (line, ending, rest) → motive rest → motive text)
    (text : List α) : motive text := by
  induction size : text.length using Nat.strong_induction_on generalizing text with
  | _ size ih =>
    cases found : nextLine cr lf text with
    | none => exact last text found
    | some parts =>
      obtain ⟨first, ending, rest⟩ := parts
      apply line text first ending rest found
      exact ih rest.length (size ▸ nextLine_shorter found) rest rfl

theorem scan_append (text more : List α) :
    scan cr lf (text ++ more) =
      ((scan cr lf text).1 ++ (scan cr lf ((scan cr lf text).2 ++ more)).1,
        (scan cr lf ((scan cr lf text).2 ++ more)).2) := by
  induction text using lineInduction cr lf with
  | last text absent => rw [scan_none absent, nil_append]
  | line text line ending rest found ih =>
    rw [scan_some (nextLine_append found more), scan_some found, ih]
    rfl

/-- The lines of a text are made of its bytes. -/
theorem scan_subset {text : List α} {line : List α × Terminator} (listed : line ∈ (scan cr lf text).1) :
    line.1 ⊆ text := by
  induction text using lineInduction cr lf with
  | last text absent => rw [scan_none absent] at listed; cases listed
  | line text first ending rest found ih =>
    rw [scan_some found] at listed
    rw [(nextLine_some found).1]
    rcases mem_cons.mp listed with rfl | later
    · exact subset_append_left _ _
    · exact fun c inside => mem_append_right _ (mem_append_right _ (ih later inside))

/-- A text has no more lines than bytes. -/
theorem scan_length (cr lf : α) (text : List α) : (scan cr lf text).1.length ≤ text.length := by
  induction text using lineInduction cr lf with
  | last text absent => rw [scan_none absent]; exact Nat.zero_le _
  | line text line ending rest found ih =>
    rw [scan_some found]
    exact Nat.succ_le_of_lt (ih.trans_lt (nextLine_shorter found))

theorem feed_of_mem {text : List α} (distinct : cr ≠ lf) (feed : lf ∈ text) :
    ∃ line ∈ (scan cr lf text).1, line.2 ≠ .cr := by
  induction text using lineInduction cr lf with
  | last text absent => exact absurd feed (nextLine_none absent).1
  | line text line ending rest found ih =>
    rw [scan_some found]
    cases ending with
    | crlf => exact ⟨_, mem_cons_self, by simp⟩
    | lf => exact ⟨_, mem_cons_self, by simp⟩
    | cr =>
      obtain ⟨parts, -, noFeed, -⟩ := nextLine_some found
      rw [parts] at feed
      have later : lf ∈ rest := by simpa [Terminator.bytes, noFeed, Ne.symm distinct] using feed
      obtain ⟨other, listed, kind⟩ := ih later
      exact ⟨other, mem_cons_of_mem _ listed, kind⟩

omit [DecidableEq α] in
/-- A pair of a return and a feed stands behind a part without returns. -/
theorem pair_behind {front text : List α} (noReturn : cr ∉ front) (pair : [cr, lf] <:+: front ++ text) :
    [cr, lf] <:+: text := by
  induction front with
  | nil => exact pair
  | cons c front ih =>
    rw [cons_append, infix_cons_iff] at pair
    rcases pair with here | later
    · have head := (cons_prefix_cons.mp here).1
      exact absurd (head ▸ mem_cons_self) noReturn
    · exact ih (fun listed => noReturn (mem_cons_of_mem _ listed)) later

/-- A text with a return in front of a feed has a line that ends with both. -/
theorem pair_of_infix {text : List α} (distinct : cr ≠ lf) (pair : [cr, lf] <:+: text) :
    ∃ line ∈ (scan cr lf text).1, line.2 = .crlf := by
  induction text using lineInduction cr lf with
  | last text absent =>
    obtain ⟨before, after, whole⟩ := pair
    exact absurd (whole ▸ by simp) (nextLine_none absent).1
  | line text line ending rest found ih =>
    obtain ⟨parts, noReturn, -, follows⟩ := nextLine_some found
    rw [parts] at pair
    have behind := pair_behind noReturn pair
    rw [scan_some found]
    cases ending with
    | crlf => exact ⟨_, mem_cons_self, rfl⟩
    | lf =>
      have noReturn' : cr ∉ [lf] := by simpa using distinct
      have later := pair_behind noReturn' behind
      obtain ⟨other, listed, kind⟩ := ih later
      exact ⟨other, mem_cons_of_mem _ listed, kind⟩
    | cr =>
      simp only [Terminator.bytes, singleton_append, infix_cons_iff, cons_prefix_cons] at behind
      rcases behind with ⟨-, here⟩ | later
      · have head : rest.head? = some lf := by
          obtain ⟨after, rfl⟩ := here
          rfl
        exact absurd head (follows rfl).2
      · obtain ⟨other, listed, kind⟩ := ih later
        exact ⟨other, mem_cons_of_mem _ listed, kind⟩

variable (cr lf)

/-- The lines of a text that end with both bytes come first, those that end with a return come last, and there are
none of the latter when the text itself ends with a return. -/
def Ordered (text : List α) : Prop :=
  ((scan cr lf text).1.map fun line => line.2.rank).Pairwise (· ≤ ·) ∧
    (text.getLast? = some cr → ∀ line ∈ (scan cr lf text).1, line.2 ≠ .cr)

instance decidableOrdered (text : List α) : Decidable (Ordered cr lf text) :=
  inferInstanceAs (Decidable (_ ∧ _))

variable {cr lf}

theorem Ordered.rest {text line rest : List α} {ending : Terminator}
    (found : nextLine cr lf text = some (line, ending, rest)) (ordered : Ordered cr lf text) : Ordered cr lf rest := by
  obtain ⟨sorted, last⟩ := ordered
  rw [scan_some found, map_cons, pairwise_cons] at sorted
  rw [scan_some found] at last
  refine ⟨sorted.2, ?_⟩
  intro ends other listed
  apply last _ other (mem_cons_of_mem _ listed)
  have nonEmpty : rest ≠ [] := by
    intro empty
    rw [empty] at ends
    cases ends
  rw [(nextLine_some found).1, ← append_assoc, getLast?_append_of_ne_nil _ nonEmpty, ends]

theorem Ordered.no_pair {text line rest : List α} {ending : Terminator} (distinct : cr ≠ lf)
    (found : nextLine cr lf text = some (line, ending, rest)) (ordered : Ordered cr lf text) (kind : ending ≠ .crlf) :
    ¬ [cr, lf] <:+: text := by
  intro pair
  obtain ⟨other, listed, both⟩ := pair_of_infix distinct pair
  rw [scan_some found] at listed
  rcases mem_cons.mp listed with rfl | later
  · exact kind both
  · have sorted := ordered.1
    rw [scan_some found, map_cons, pairwise_cons] at sorted
    have above := sorted.1 _ (mem_map_of_mem later)
    rw [both] at above
    cases ending <;> simp [Terminator.rank] at kind above

theorem Ordered.no_feed {text line rest : List α} (distinct : cr ≠ lf)
    (found : nextLine cr lf text = some (line, .cr, rest)) (ordered : Ordered cr lf text) : lf ∉ text := by
  intro feed
  obtain ⟨other, listed, kind⟩ := feed_of_mem distinct feed
  rw [scan_some found] at listed
  rcases mem_cons.mp listed with rfl | later
  · exact kind rfl
  · have sorted := ordered.1
    rw [scan_some found, map_cons, pairwise_cons] at sorted
    have above := sorted.1 _ (mem_map_of_mem later)
    cases ended : other.2 <;> simp [Terminator.rank, ended] at kind above

end Scan

end LineScan
