import Mathlib.Data.List.Forall2
import Mathlib.Tactic

namespace LeadCode
open List

variable {Symbol Test Value : Type} (holds : Test → Symbol → Prop) (tails : Symbol → Option (List Test))

inductive Word : List Symbol → Prop
  | intro {lead : Symbol} {tests : List Test} {tail : List Symbol} :
      tails lead = some tests → List.Forall₂ holds tests tail → Word (lead :: tail)

/-- A text is framed when it is cut into words. -/
inductive Framed : List Symbol → Prop
  | nil : Framed []
  | cons {word rest : List Symbol} : Word holds tails word → Framed rest → Framed (word ++ rest)

variable {holds tails} {lead : Symbol} {tests : List Test} {front rest word : List Symbol}

/-- The lead symbol of a framed text says where its first word ends. -/
theorem framed_cons_iff (announced : tails lead = some tests) : Framed holds tails (lead :: rest) ↔
    List.Forall₂ holds tests (rest.take tests.length) ∧ Framed holds tails (rest.drop tests.length) := by
  constructor
  · intro framed
    generalize whole : lead :: rest = text at framed
    cases framed with
    | nil => cases whole
    | cons first later =>
      obtain ⟨announced', passed⟩ := first
      rw [cons_append] at whole
      obtain ⟨rfl, rfl⟩ := cons.inj whole
      rw [announced] at announced'
      cases announced'
      rw [passed.length_eq, take_left, drop_left]
      exact ⟨passed, later⟩
  · rintro ⟨passed, later⟩
    have framed := Framed.cons (.intro announced passed) later
    rwa [cons_append, take_append_drop] at framed

theorem not_framed_cons (unannounced : tails lead = none) : ¬ Framed holds tails (lead :: rest) := by
  intro framed
  generalize whole : lead :: rest = text at framed
  cases framed with
  | nil => cases whole
  | cons first =>
    obtain ⟨announced, -⟩ := first
    obtain ⟨rfl, -⟩ := cons.inj whole
    rw [unannounced] at announced
    cases announced

theorem Word.framed_append_iff (first : Word holds tails word) :
    Framed holds tails (word ++ rest) ↔ Framed holds tails rest := by
  refine ⟨fun framed => ?_, .cons first⟩
  obtain ⟨announced, passed⟩ := first
  rw [cons_append, framed_cons_iff announced, passed.length_eq, drop_left] at framed
  exact framed.2

theorem Framed.append_iff (framed : Framed holds tails front) :
    Framed holds tails (front ++ rest) ↔ Framed holds tails rest := by
  induction framed with
  | nil => rfl
  | cons first _ inductionHypothesis => rw [append_assoc, first.framed_append_iff, inductionHypothesis]

theorem Word.not_framed_take (first : Word holds tails word) {size : Nat} (some' : 0 < size)
    (short : size < word.length) : ¬ Framed holds tails (word.take size) := by
  obtain ⟨announced, passed⟩ := first
  obtain ⟨size, rfl⟩ := Nat.exists_eq_succ_of_ne_zero some'.ne'
  rw [take_succ_cons, framed_cons_iff announced]
  rintro ⟨passed', -⟩
  have whole := passed.length_eq
  have cut := passed'.length_eq
  simp only [length_take, length_cons] at cut short
  omega

theorem Framed.take {text : List Symbol} (framed : Framed holds tails text) (size : Nat) : ∃ whole cut,
    text.take size = whole ++ cut ∧ Framed holds tails whole ∧
      (cut = [] ∨ ∃ word count, Word holds tails word ∧ 0 < count ∧ count < word.length ∧ cut = word.take count) := by
  induction framed generalizing size with
  | nil => exact ⟨[], [], by simp, .nil, .inl rfl⟩
  | @cons word rest first _ inductionHypothesis =>
    rw [take_append]
    by_cases fits : word.length ≤ size
    · obtain ⟨whole, cut, split, framed, short⟩ := inductionHypothesis (size - word.length)
      refine ⟨word ++ whole, cut, ?_, .cons first framed, short⟩
      rw [take_of_length_le fits, split, append_assoc]
    · have none' : size - word.length = 0 := by omega
      rw [none', take_zero, append_nil]
      cases size with
      | zero => exact ⟨[], [], by simp, .nil, .inl rfl⟩
      | succ size => exact ⟨[], _, rfl, .nil, .inr ⟨word, size + 1, first, by omega, by omega, rfl⟩⟩

theorem Framed.last {text : List Symbol} (framed : Framed holds tails text) (nonempty : text ≠ []) :
    ∃ front word, text = front ++ word ∧ Framed holds tails front ∧ Word holds tails word := by
  induction framed with
  | nil => exact absurd rfl nonempty
  | @cons word rest first later inductionHypothesis =>
    by_cases more : rest = []
    · exact ⟨[], word, by simp [more], .nil, first⟩
    · obtain ⟨front, last, rfl, framed, ends⟩ := inductionHypothesis more
      exact ⟨word ++ front, last, (append_assoc _ _ _).symm, .cons first framed, ends⟩

theorem framed_iff_flatMap {Good : Value → Prop} {encode : Value → List Symbol}
    (words : ∀ word, Word holds tails word ↔ ∃ value, Good value ∧ encode value = word) (text : List Symbol) :
    Framed holds tails text ↔ ∃ values : List Value, (∀ value ∈ values, Good value) ∧ text = values.flatMap encode := by
  constructor
  · intro framed
    induction framed with
    | nil => exact ⟨[], by simp, rfl⟩
    | cons first _ inductionHypothesis =>
      obtain ⟨value, good, rfl⟩ := (words _).mp first
      obtain ⟨values, all, rfl⟩ := inductionHypothesis
      exact ⟨value :: values, forall_mem_cons.mpr ⟨good, all⟩, rfl⟩
  · rintro ⟨values, all, rfl⟩
    induction values with
    | nil => exact .nil
    | cons value values inductionHypothesis =>
      obtain ⟨good, all⟩ := forall_mem_cons.mp all
      exact .cons ((words _).mpr ⟨value, good, rfl⟩) (inductionHypothesis all)

end LeadCode
