import Mathlib.Tactic

namespace FramedText
open List

variable {α : Type} {needle : List α}

section Separation

def Separates (needle frame : List α) : Prop :=
  ∀ front back, needle <:+: front ++ (frame ++ back) ↔ needle <:+: front ∨ needle <:+: back

variable {c : α} {frame : List α}

theorem prefix_wall {part back : List α} (foreign : c ∉ part) (starts : part <+: c :: back) : part = [] := by
  rcases prefix_cons_iff.mp starts with empty | ⟨tail, whole, -⟩
  · exact empty
  · exact absurd (whole ▸ mem_cons_self) foreign

theorem infix_wall (foreign : c ∉ needle) (front back : List α) :
    needle <:+: front ++ c :: back ↔ needle <:+: front ∨ needle <:+: back := by
  constructor
  · rw [infix_append_iff]
    rintro (inFront | behind | ⟨first, second, rfl, suffix, starts⟩)
    · exact Or.inl inFront
    · rcases infix_cons_iff.mp behind with starts | inBack
      · exact Or.inl (prefix_wall foreign starts ▸ nil_infix)
      · exact Or.inr inBack
    · have empty := prefix_wall (fun listed => foreign (mem_append_right _ listed)) starts
      rw [empty, append_nil]
      exact Or.inl suffix.isInfix
  · rintro (inFront | inBack)
    · exact infix_append_of_infix_left inFront
    · exact infix_append_of_infix_right (inBack.trans (suffix_cons c back).isInfix)

theorem infix_concat (ends : needle.getLast? ≠ some c) (text : List α) :
    needle <:+: text ++ [c] ↔ needle <:+: text := by
  constructor
  · rw [infix_concat_iff]
    rintro (suffix | inside)
    · rcases eq_nil_or_concat needle with rfl | ⟨init, last, rfl⟩
      · exact nil_infix
      · obtain ⟨before, whole⟩ := suffix
        rw [concat_eq_append, ← append_assoc] at whole
        have same := (append_inj_right' whole rfl)
        exact absurd (by simpa using same) ends
    · exact inside
  · exact fun inside => inside.trans (prefix_append _ _).isInfix

theorem infix_append_blanks {blank : α → Prop} (ends : ∀ c, needle.getLast? = some c → ¬ blank c)
    {blanks : List α} (all : ∀ c ∈ blanks, blank c) (text : List α) : needle <:+: text ++ blanks ↔
      needle <:+: text := by
  induction blanks generalizing text with
  | nil => rw [append_nil]
  | cons c blanks ih =>
    have last : needle.getLast? ≠ some c := fun same => ends c same (all c mem_cons_self)
    have rest : ∀ d ∈ blanks, blank d := fun d listed => all d (mem_cons_of_mem _ listed)
    rw [append_cons, ih rest, infix_concat last]

theorem separates_wall (foreign : c ∉ needle) : Separates needle [c] :=
  fun front back => infix_wall foreign front back

theorem Separates.append {frame frame' : List α} (nonEmpty : needle ≠ []) (first : Separates needle frame)
    (second : Separates needle frame') : Separates needle (frame ++ frame') := by
  intro front back
  have inner := second [] back
  rw [nil_append, infix_nil, or_iff_right nonEmpty] at inner
  rw [append_assoc, first, inner]

theorem Separates.around {frame frame' middle : List α} (first : Separates needle frame)
    (absent : ¬ needle <:+: middle) (second : Separates needle frame') :
      Separates needle (frame ++ middle ++ frame') := by
  intro front back
  rw [append_assoc, append_assoc, first, second, or_iff_right absent]

theorem Separates.cons (ends : needle.getLast? ≠ some c) (frames : Separates needle frame) :
    Separates needle (c :: frame) := by
  intro front back
  rw [cons_append, append_cons, frames, infix_concat ends]

theorem Separates.concat (starts : needle.head? ≠ some c) (frames : Separates needle frame) :
    Separates needle (frame ++ [c]) := by
  intro front back
  have skipped : needle <:+: c :: back ↔ needle <:+: back := by
    rw [infix_cons_iff, or_iff_right_iff_imp, prefix_cons_iff]
    rintro (rfl | ⟨tail, rfl, -⟩)
    · exact nil_infix
    · exact absurd rfl starts
  rw [append_assoc, singleton_append, frames, skipped]

theorem separates_foreign (nonEmpty : needle ≠ []) (some' : frame ≠ []) (foreign : ∀ c ∈ frame, c ∉ needle) :
    Separates needle frame := by
  induction frame with
  | nil => exact absurd rfl some'
  | cons c frame ih =>
    have first := separates_wall (foreign c mem_cons_self)
    by_cases last : frame = []
    · rw [last]
      exact first
    · exact first.append nonEmpty (ih last fun d listed => foreign d (mem_cons_of_mem _ listed))

end Separation

section Fields

def framed (parts : List (List α × List α)) : List α := (parts.map fun part => part.1 ++ part.2).flatten

def visibleFields : Nat → List (List α × List α) → List (List α)
  | _, [] => []
  | room, part :: parts =>
    part.2.take (room - part.1.length) :: visibleFields (room - part.1.length - part.2.length) parts

theorem framed_map {β : Type} (f : α → β) (parts : List (List α × List α)) :
    (framed parts).map f = framed (parts.map fun part => (part.1.map f, part.2.map f)) := by
  rw [framed, framed, map_flatten, map_map, map_map]
  congr 1
  apply map_congr_left
  intro part _
  exact map_append

theorem visibleFields_map {β : Type} (f : α → β) (room : Nat) (parts : List (List α × List α)) :
    visibleFields room (parts.map fun part => (part.1.map f, part.2.map f)) =
      (visibleFields room parts).map fun field => field.map f := by
  induction parts generalizing room with
  | nil => rfl
  | cons part parts ih =>
    rw [map_cons, visibleFields, visibleFields, map_cons, ih, length_map, length_map,
      map_take]

variable {parts : List (List α × List α)}

theorem visibleFields_of_le {room : Nat} (fits : (framed parts).length ≤ room) :
    visibleFields room parts = parts.map Prod.snd := by
  induction parts generalizing room with
  | nil => rfl
  | cons part parts ih =>
    rw [framed, map_cons, flatten_cons, length_append, length_append] at fits
    have rest : (framed parts).length ≤ room - part.1.length - part.2.length := by
      rw [framed]
      omega
    rw [visibleFields, ih rest, take_of_length_le (by omega)]
    rfl

/-- Nothing that stands in front of a cut frame reaches behind it. -/
theorem infix_append_take {frame : List α} (nonEmpty : needle ≠ []) (frames : Separates needle frame)
    (front back : List α) (room : Nat) :
    needle <:+: front ++ (frame ++ back).take room ↔ needle <:+: front ∨ needle <:+: (frame ++ back).take room := by
  constructor
  · intro inside
    rw [take_append] at inside ⊢
    by_cases cut : room ≤ frame.length
    · rw [Nat.sub_eq_zero_of_le cut, take_zero, append_nil] at inside
      have whole : needle <:+: front ++ (frame ++ []) := by
        rw [append_nil]
        exact inside.trans (prefix_append_right_inj front |>.mpr (List.take_prefix _ _)).isInfix
      rcases (frames front []).mp whole with inFront | empty
      · exact Or.inl inFront
      · exact absurd (infix_nil.mp empty) nonEmpty
    · rw [take_of_length_le (Nat.le_of_not_le cut)] at inside ⊢
      rcases (frames _ _).mp inside with inFront | inBack
      · exact Or.inl inFront
      · exact Or.inr (infix_append_of_infix_right inBack)
  · rintro (inFront | inBack)
    · exact infix_append_of_infix_left inFront
    · exact infix_append_of_infix_right inBack

theorem infix_take_frame {frame : List α} (nonEmpty : needle ≠ []) (frames : Separates needle frame)
    (back : List α) (room : Nat) :
    needle <:+: (frame ++ back).take room ↔ needle <:+: back.take (room - frame.length) := by
  rw [take_append]
  by_cases cut : room ≤ frame.length
  · rw [Nat.sub_eq_zero_of_le cut, take_zero, append_nil]
    refine iff_of_false ?_ fun inside => nonEmpty (infix_nil.mp inside)
    intro inside
    have whole : needle <:+: [] ++ (frame ++ []) := by
      rw [append_nil]
      exact inside.trans (List.take_prefix _ _).isInfix
    rcases (frames [] []).mp whole with empty | empty
    · exact nonEmpty (infix_nil.mp empty)
    · exact nonEmpty (infix_nil.mp empty)
  · rw [take_of_length_le (Nat.le_of_not_le cut)]
    have inner := frames [] (back.take (room - frame.length))
    rwa [infix_nil, or_iff_right nonEmpty] at inner

theorem infix_framed (nonEmpty : needle ≠ []) (frames : ∀ part ∈ parts, Separates needle part.1) (room : Nat) :
    needle <:+: (framed parts).take room ↔ ∃ field ∈ visibleFields room parts, needle <:+: field := by
  induction parts generalizing room with
  | nil => simp [framed, visibleFields, nonEmpty]
  | cons part parts ih =>
    have rest : ∀ part ∈ parts, Separates needle part.1 := fun part listed => frames part (mem_cons_of_mem _ listed)
    have text : framed (part :: parts) = part.1 ++ (part.2 ++ framed parts) := by
      rw [framed, map_cons, flatten_cons, append_assoc]
      rfl
    have behind (room' : Nat) (field : List α) : needle <:+: field ++ (framed parts).take room' ↔
        needle <:+: field ∨ needle <:+: (framed parts).take room' := by
      cases parts with
      | nil => simp [framed, nonEmpty]
      | cons next =>
        rw [framed, map_cons, flatten_cons, append_assoc]
        exact infix_append_take nonEmpty (rest next mem_cons_self) _ _ _
    rw [text, infix_take_frame nonEmpty (frames part mem_cons_self), take_append, behind, ih rest,
      visibleFields]
    simp only [mem_cons, exists_eq_or_imp]

end Fields

end FramedText
