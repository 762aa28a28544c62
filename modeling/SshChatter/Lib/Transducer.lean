import Mathlib.Tactic
import Mathlib.Data.List.Destutter

namespace Suppress
open List

variable {Item : Type} [DecidableEq Item] (store : Item → Item)

/-- What passes a filter that remembers the last item as it was stored. An item that is checked is held back when it is
the stored one. -/
def passed : Option Item → List (Bool × Item) → List Item
  | _, [] => []
  | last, (checked, item) :: rest =>
    if checked ∧ last = some item then passed (some (store item)) rest
    else item :: passed (some (store item)) rest

def memory : Option Item → List (Bool × Item) → Option Item
  | last, [] => last
  | _, (_, item) :: rest => memory (some (store item)) rest

variable {store} {items items' : List (Bool × Item)} {last : Option Item}

/-- The filter works on one run of items after the other. -/
theorem passed_append (last : Option Item) (items items' : List (Bool × Item)) :
    passed store last (items ++ items') = passed store last items ++ passed store (memory store last items) items' := by
  induction items generalizing last with
  | nil => rfl
  | cons item rest ih =>
    rw [cons_append, passed, passed]
    split_ifs with held
    · exact ih _
    · rw [ih]
      rfl

theorem passed_unchecked (free : ∀ item ∈ items, item.1 = false) : passed store last items = items.map Prod.snd := by
  induction items generalizing last with
  | nil => rfl
  | cons item rest ih =>
    obtain ⟨first, later⟩ := forall_mem_cons.mp free
    rw [passed, if_neg (by simp [first]), ih later, map_cons]

/-- Items that differ from the one in front of them, as it was stored, all pass. -/
theorem passed_chain (chain : List.IsChain (fun before item => store before.2 ≠ item.2) items)
    (fresh : ∀ item ∈ items.head?, last ≠ some item.2) : passed store last items = items.map Prod.snd := by
  induction items generalizing last with
  | nil => rfl
  | cons item rest ih =>
    have first := fresh item rfl
    have next : ∀ other ∈ rest.head?, some (store item.2) ≠ some other.2 := by
      intro other head
      cases rest with
      | nil => cases head
      | cons =>
        obtain rfl := Option.some.inj head
        exact fun same => (isChain_cons_cons.mp chain).1 (Option.some.inj same)
    rw [passed, if_neg fun held => first held.2, ih chain.tail next, map_cons]

end Suppress

namespace Transducer
open List

variable {State Input Output : Type} (step : State → Input → State × List Output)

def final : State → List Input → State
  | state, [] => state
  | state, symbol :: rest => final (step state symbol).1 rest

/-- What a machine writes for an input. -/
def output : State → List Input → List Output
  | _, [] => []
  | state, symbol :: rest => (step state symbol).2 ++ output (step state symbol).1 rest

/-- A word that writes nothing and leaves the state alone. -/
structure Silent (state : State) (word : List Input) : Prop where
  writes : output step state word = []
  returns : final step state word = state

variable {step} {state : State} {word rest : List Input}

@[simp] theorem final_nil : final step state [] = state := rfl

@[simp] theorem output_nil : output step state [] = [] := rfl

@[simp] theorem final_cons {symbol : Input} :
    final step state (symbol :: rest) = final step (step state symbol).1 rest := rfl

@[simp] theorem output_cons {symbol : Input} :
    output step state (symbol :: rest) = (step state symbol).2 ++ output step (step state symbol).1 rest := rfl

theorem final_append : final step state (word ++ rest) = final step (final step state word) rest := by
  induction word generalizing state with
  | nil => rfl
  | cons symbol word ih => simp [ih]

theorem output_append :
    output step state (word ++ rest) = output step state word ++ output step (final step state word) rest := by
  induction word generalizing state with
  | nil => rfl
  | cons symbol word ih => simp [ih]

theorem Silent.output_append (silent : Silent step state word) :
    output step state (word ++ rest) = output step state rest := by
  rw [Transducer.output_append, silent.writes, silent.returns, nil_append]

theorem output_front (front : word <+: rest) : output step state word <+: output step state rest := by
  obtain ⟨later, rfl⟩ := front
  rw [output_append]
  exact prefix_append _ _

theorem Silent.output_take (silent : Silent step state word) (count : Nat) :
    output step state (word.take count) = [] := by
  have front : output step state (word.take count) <+: output step state word :=
    output_front (List.take_prefix count word)
  rw [silent.writes] at front
  exact prefix_nil.mp front

end Transducer
