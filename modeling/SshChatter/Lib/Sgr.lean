import Mathlib.Tactic

/-! The parameters of an SGR sequence of a terminal, and what they do to its attributes. -/

namespace Sgr
open List

inductive Effect where
  | reset
  | foreground (colour : Option (List Nat))
  | background (colour : Option (List Nat))
  | bold (on : Bool)
  deriving DecidableEq

/-- The effect of a parameter that stands for itself. The parameter 21 underlines twice, or it turns bold off on
terminals that do not. -/
def single (twice : Bool) (parameter : Nat) : Option Effect :=
  if parameter = 0 then some .reset
  else if parameter = 1 then some (.bold true)
  else if parameter = 22 ∨ parameter = 21 ∧ twice = false then some (.bold false)
  else if parameter = 39 then some (.foreground none)
  else if parameter = 49 then some (.background none)
  else if 30 ≤ parameter ∧ parameter ≤ 37 ∨ 90 ≤ parameter ∧ parameter ≤ 97 then some (.foreground (some [parameter]))
  else if 40 ≤ parameter ∧ parameter ≤ 47 ∨ 100 ≤ parameter ∧ parameter ≤ 107 then some (.background (some [parameter]))
  else none

def effects (twice : Bool) : List Nat → List Effect
  | [] => []
  | 38 :: 5 :: index :: rest => .foreground (some [5, index]) :: effects twice rest
  | 38 :: 2 :: red :: green :: blue :: rest => .foreground (some [2, red, green, blue]) :: effects twice rest
  | 48 :: 5 :: index :: rest => .background (some [5, index]) :: effects twice rest
  | 48 :: 2 :: red :: green :: blue :: rest => .background (some [2, red, green, blue]) :: effects twice rest
  | parameter :: rest => (single twice parameter).toList ++ effects twice rest

def Effect.onForeground : Effect → Option (Option (List Nat))
  | .reset => some none
  | .foreground colour => some colour
  | _ => none

def Effect.onBackground : Effect → Option (Option (List Nat))
  | .reset => some none
  | .background colour => some colour
  | _ => none

def Effect.onBold : Effect → Option Bool
  | .reset => some false
  | .bold on => some on
  | _ => none

def leavesForeground (effects : List Effect) : Bool := (effects.filterMap Effect.onForeground).getLast? = some none

def leavesBackground (effects : List Effect) : Bool := (effects.filterMap Effect.onBackground).getLast? = some none

def leavesBold (effects : List Effect) : Bool := (effects.filterMap Effect.onBold).getLast? = some false

/-- The attributes that a terminal writes characters with. -/
@[ext] structure Attributes (Colour : Type) where
  foreground : Colour
  background : Colour
  bold : Bool

section Terminals

variable {Colour : Type} (select : List Nat → Colour) (base : Attributes Colour)

def Effect.apply (attributes : Attributes Colour) : Effect → Attributes Colour
  | .reset => base
  | .foreground colour => { attributes with foreground := (colour.map select).getD base.foreground }
  | .background colour => { attributes with background := (colour.map select).getD base.background }
  | .bold on => { attributes with bold := on || base.bold }

def run (attributes : Attributes Colour) (effects : List Effect) : Attributes Colour :=
  effects.foldl (Effect.apply select base) attributes

variable {select base} {attributes : Attributes Colour} {effects : List Effect}

theorem run_append (later : List Effect) : run select base attributes (effects ++ later) =
    run select base (run select base attributes effects) later := foldl_append

theorem run_foreground : (run select base attributes effects).foreground =
    match (effects.filterMap Effect.onForeground).getLast? with
    | none => attributes.foreground
    | some colour => (colour.map select).getD base.foreground := by
  induction effects using reverseRecOn with
  | nil => rfl
  | append_singleton effects effect ih =>
    rw [run, foldl_append]
    change (Effect.apply select base (run select base attributes effects) effect).foreground = _
    cases effect with
    | reset => simp [Effect.apply, Effect.onForeground]
    | foreground => simp [Effect.apply, Effect.onForeground]
    | background => simpa [Effect.apply, Effect.onForeground] using ih
    | bold => simpa [Effect.apply, Effect.onForeground] using ih

theorem run_background : (run select base attributes effects).background =
    match (effects.filterMap Effect.onBackground).getLast? with
    | none => attributes.background
    | some colour => (colour.map select).getD base.background := by
  induction effects using reverseRecOn with
  | nil => rfl
  | append_singleton effects effect ih =>
    rw [run, foldl_append]
    change (Effect.apply select base (run select base attributes effects) effect).background = _
    cases effect with
    | reset => simp [Effect.apply, Effect.onBackground]
    | foreground => simpa [Effect.apply, Effect.onBackground] using ih
    | background => simp [Effect.apply, Effect.onBackground]
    | bold => simpa [Effect.apply, Effect.onBackground] using ih

theorem run_bold : (run select base attributes effects).bold =
    match (effects.filterMap Effect.onBold).getLast? with
    | none => attributes.bold
    | some on => on || base.bold := by
  induction effects using reverseRecOn with
  | nil => rfl
  | append_singleton effects effect ih =>
    rw [run, foldl_append]
    change (Effect.apply select base (run select base attributes effects) effect).bold = _
    cases effect with
    | reset => simp [Effect.apply, Effect.onBold]
    | foreground => simpa [Effect.apply, Effect.onBold] using ih
    | background => simpa [Effect.apply, Effect.onBold] using ih
    | bold => simp [Effect.apply, Effect.onBold]

end Terminals

end Sgr
