import Mathlib.Tactic

namespace NamedReference
open Function

section Directories

variable {Place Name Origin : Type}

abbrev Directory (Place Name Origin : Type) := Place → Option (Name × Origin)

structure Sound (directory : Directory Place Name Origin) (references : Set (Name × Origin)) : Prop where
  apart : ∀ first second name origin origin', directory first = some (name, origin) →
    directory second = some (name, origin') → first = second
  resolves : ∀ place name origin origin', (name, origin) ∈ references → directory place = some (name, origin') →
    origin' = origin

def entries (directory : Directory Place Name Origin) : Set (Name × Origin) :=
  {reference | ∃ place, directory place = some reference}

variable {directory : Directory Place Name Origin} {references fewer : Set (Name × Origin)}

theorem Sound.forget (sound : Sound directory references) (sub : fewer ⊆ references) : Sound directory fewer where
  apart := sound.apart
  resolves := fun place name origin origin' referred => sound.resolves place name origin origin' (sub referred)

theorem Sound.refer (sound : Sound directory references) : Sound directory (references ∪ entries directory) := by
  constructor
  case apart => exact sound.apart
  case resolves =>
    intro place name origin origin' referred found
    rcases referred with before | ⟨place', taken⟩
    · exact sound.resolves place name origin origin' before found
    · obtain rfl : place = place' := sound.apart place place' name origin' origin found taken
      rw [found] at taken
      exact (Prod.mk.inj (Option.some.inj taken)).2

variable [DecidableEq Place]

theorem Sound.erase (sound : Sound directory references) (place : Place) :
    Sound (update directory place none) references := by
  have before {other : Place} {entry : Name × Origin}
      (found : update directory place none other = some entry) : directory other = some entry := by
    by_cases same : other = place
    · subst same
      rw [update_self] at found
      cases found
    · rwa [update_of_ne same] at found
  constructor
  case apart =>
    intro first second name origin origin' found found'
    exact sound.apart first second name origin origin' (before found) (before found')
  case resolves =>
    intro other name origin origin' referred found
    exact sound.resolves other name origin origin' referred (before found)

/-- A name may be given to an origin when no other place has it and every reference by it is to this origin. -/
theorem Sound.enter (sound : Sound directory references) (place : Place) {name : Name} {origin : Origin}
    (free : ∀ other ≠ place, ∀ origin', directory other ≠ some (name, origin'))
    (agrees : ∀ origin', (name, origin') ∈ references → origin = origin') :
    Sound (update directory place (some (name, origin))) references := by
  have cases' {other : Place} {entry : Name × Origin}
      (found : update directory place (some (name, origin)) other = some entry) :
      other = place ∧ entry = (name, origin) ∨ other ≠ place ∧ directory other = some entry := by
    by_cases same : other = place
    · subst same
      rw [update_self] at found
      exact .inl ⟨rfl, (Option.some.inj found).symm⟩
    · rw [update_of_ne same] at found
      exact .inr ⟨same, found⟩
  constructor
  case apart =>
    intro first second name' origin' origin'' found found'
    rcases cases' found with ⟨rfl, entry⟩ | ⟨away, before⟩
    · rcases cases' found' with ⟨rfl, -⟩ | ⟨away, before⟩
      · rfl
      · obtain rfl : name' = name := (Prod.mk.inj entry).1
        exact absurd before (free second away origin'')
    · rcases cases' found' with ⟨rfl, entry⟩ | ⟨away', before'⟩
      · obtain rfl : name' = name := (Prod.mk.inj entry).1
        exact absurd before (free first away origin')
      · exact sound.apart first second name' origin' origin'' before before'
  case resolves =>
    intro other name' origin' origin'' referred found
    rcases cases' found with ⟨rfl, entry⟩ | ⟨away, before⟩
    · obtain ⟨rfl, rfl⟩ := Prod.mk.inj entry
      exact agrees origin' referred
    · exact sound.resolves other name' origin' origin'' referred before

end Directories

end NamedReference

namespace NameRegistry
open Function List

section Registries

variable {Session Number Name : Type}

/-- The names that sessions carry, with the number of each numbered session, and the names that numbers own. -/
structure Registry (Session Number Name : Type) where
  carries : Session → Option (Name × Option Number)
  owns : List (Number × Name)

/-- Names are carried and owned once, and a name that is owned is carried by its owner only. -/
structure Registry.Sound (registry : Registry Session Number Name) : Prop where
  apart : ∀ first second entry entry', registry.carries first = some entry → registry.carries second = some entry' →
    entry.1 = entry'.1 → first = second
  once : ∀ first second entry entry' number, registry.carries first = some entry →
    registry.carries second = some entry' → entry.2 = some number → entry'.2 = some number → first = second
  numbers : (registry.owns.map Prod.fst).Nodup
  names : (registry.owns.map Prod.snd).Nodup
  owned : ∀ session entry number, registry.carries session = some entry → (number, entry.1) ∈ registry.owns →
    entry.2 = some number
  known : ∀ session entry number, registry.carries session = some entry → entry.2 = some number →
    number ∈ registry.owns.map Prod.fst

/-- Nobody carries a name and nobody owns one. -/
def Registry.empty : Registry Session Number Name := ⟨fun _ => none, []⟩

theorem empty_sound : (Registry.empty : Registry Session Number Name).Sound where
  apart := fun _ _ _ _ carried => by cases carried
  once := fun _ _ _ _ _ carried => by cases carried
  numbers := nodup_nil
  names := nodup_nil
  owned := fun _ _ _ carried => by cases carried
  known := fun _ _ _ carried => by cases carried

end Registries

section Owners

variable {Session Number Name : Type} [DecidableEq Number] {registry : Registry Session Number Name}
variable {taker : Option Number}

theorem mem_renamed {owns : List (Number × Name)} {name other : Name} {number : Number}
    (owner : (number, other) ∈ owns.map fun owner => if taker = some owner.1 then (owner.1, name) else owner) :
    taker = some number ∧ other = name ∨ taker ≠ some number ∧ (number, other) ∈ owns := by
  obtain ⟨⟨first, second⟩, inside, same⟩ := mem_map.mp owner
  split_ifs at same with holds
  · obtain ⟨rfl, rfl⟩ := Prod.mk.inj same
    exact .inl ⟨holds, rfl⟩
  · obtain ⟨rfl, rfl⟩ := Prod.mk.inj same
    exact .inr ⟨holds, inside⟩

theorem renamed_numbers (owns : List (Number × Name)) (taker : Option Number) (name : Name) :
    (owns.map fun owner => if taker = some owner.1 then (owner.1, name) else owner).map Prod.fst =
      owns.map Prod.fst := by
  rw [map_map]
  apply map_congr_left
  intro owner _
  dsimp only [comp_apply]
  split_ifs <;> rfl

/-- The names stay apart when a number takes one that nobody else owns. -/
theorem renamed_names (sound : registry.Sound) {name : Name}
    (mine : ∀ number, (number, name) ∈ registry.owns → taker = some number) :
    ((registry.owns.map fun owner => if taker = some owner.1 then (owner.1, name) else owner).map Prod.snd).Nodup := by
  rw [map_map]
  apply List.Nodup.map_on _ (List.Nodup.of_map Prod.fst sound.numbers)
  rintro ⟨first, name₁⟩ inside ⟨second, name₂⟩ inside' same
  dsimp only [comp_apply] at same
  by_cases holds : taker = some first
  · by_cases holds' : taker = some second
    · have numbers : first = second := Option.some.inj (holds.symm.trans holds')
      exact inj_on_of_nodup_map sound.numbers inside inside' numbers
    · rw [if_pos holds, if_neg holds'] at same
      have same' : name = name₂ := same
      subst same'
      exact absurd (mine second inside') holds'
  · by_cases holds' : taker = some second
    · rw [if_neg holds, if_pos holds'] at same
      have same' : name₁ = name := same
      subst same'
      exact absurd (mine first inside) holds
    · rw [if_neg holds, if_neg holds'] at same
      exact inj_on_of_nodup_map sound.names inside inside' same

end Owners

section Steps

variable {Session Number Name : Type} [DecidableEq Session]
  {registry next : Registry Session Number Name}

/-- A session whose entry changes keeps apart from the others when its new name and number are not theirs. -/
theorem Registry.Sound.entry (sound : registry.Sound) {owns : List (Number × Name)} (session : Session)
    (entry : Name × Option Number)
    (name : ∀ other ≠ session, ∀ entry', registry.carries other = some entry' → entry'.1 ≠ entry.1)
    (number : ∀ other ≠ session, ∀ entry', registry.carries other = some entry' → ∀ number,
      entry'.2 = some number → entry.2 ≠ some number)
    (numbers : (owns.map Prod.fst).Nodup) (names : (owns.map Prod.snd).Nodup)
    (mine : ∀ number, (number, entry.1) ∈ owns → entry.2 = some number)
    (known : ∀ number, entry.2 = some number → number ∈ owns.map Prod.fst)
    (others : ∀ other ≠ session, ∀ entry', registry.carries other = some entry' → ∀ number,
      (number, entry'.1) ∈ owns → entry'.2 = some number)
    (more : ∀ number ∈ registry.owns.map Prod.fst, number ∈ owns.map Prod.fst) :
    Registry.Sound ⟨update registry.carries session (some entry), owns⟩ := by
  have cases' {other : Session} {found : Name × Option Number}
      (carried : update registry.carries session (some entry) other = some found) :
      other = session ∧ found = entry ∨ other ≠ session ∧ registry.carries other = some found := by
    by_cases same : other = session
    · subst same
      rw [update_self] at carried
      exact .inl ⟨rfl, (Option.some.inj carried).symm⟩
    · rw [update_of_ne same] at carried
      exact .inr ⟨same, carried⟩
  constructor
  case numbers => exact numbers
  case names => exact names
  case apart =>
    intro first second found found' carried carried' same
    rcases cases' carried with ⟨rfl, rfl⟩ | ⟨away, before⟩
    · rcases cases' carried' with ⟨rfl, -⟩ | ⟨away, before⟩
      · rfl
      · exact absurd same.symm (name second away found' before)
    · rcases cases' carried' with ⟨rfl, rfl⟩ | ⟨away', before'⟩
      · exact absurd same (name first away found before)
      · exact sound.apart first second found found' before before' same
  case once =>
    intro first second found found' numbered carried carried' has has'
    rcases cases' carried with ⟨rfl, rfl⟩ | ⟨away, before⟩
    · rcases cases' carried' with ⟨rfl, -⟩ | ⟨away, before⟩
      · rfl
      · exact absurd has (number second away found' before numbered has')
    · rcases cases' carried' with ⟨rfl, rfl⟩ | ⟨away', before'⟩
      · exact absurd has' (number first away found before numbered has)
      · exact sound.once first second found found' numbered before before' has has'
  case owned =>
    intro other found numbered carried owner
    rcases cases' carried with ⟨rfl, rfl⟩ | ⟨away, before⟩
    · exact mine numbered owner
    · exact others other away found before numbered owner
  case known =>
    intro other found numbered carried has
    rcases cases' carried with ⟨rfl, rfl⟩ | ⟨away, before⟩
    · exact known numbered has
    · exact more numbered (sound.known other found numbered before has)

theorem Registry.Sound.leave (sound : registry.Sound) (session : Session) :
    Registry.Sound { registry with carries := update registry.carries session none } := by
  have before {other : Session} {found : Name × Option Number}
      (carried : update registry.carries session none other = some found) :
      registry.carries other = some found := by
    by_cases same : other = session
    · subst same
      rw [update_self] at carried
      cases carried
    · rwa [update_of_ne same] at carried
  constructor
  case numbers => exact sound.numbers
  case names => exact sound.names
  case apart =>
    exact fun first second found found' carried carried' =>
      sound.apart first second found found' (before carried) (before carried')
  case once =>
    exact fun first second found found' number carried carried' =>
      sound.once first second found found' number (before carried) (before carried')
  case owned => exact fun other found number carried => sound.owned other found number (before carried)
  case known => exact fun other found number carried => sound.known other found number (before carried)

/-- A visitor whose name becomes one of a new number keeps the registry sound. -/
theorem Registry.Sound.join (sound : registry.Sound) {session : Session} {name : Name} {number : Number}
    (carried : registry.carries session = some (name, none)) (new : number ∉ registry.owns.map Prod.fst)
    (unowned : name ∉ registry.owns.map Prod.snd) :
    Registry.Sound
      { carries := update registry.carries session (some (name, some number))
        owns := registry.owns ++ [(number, name)] } := by
  have owner_cases {numbered : Number} {other : Name}
      (owner : (numbered, other) ∈ registry.owns ++ [(number, name)]) :
      (numbered, other) ∈ registry.owns ∨ numbered = number ∧ other = name := by
    rcases mem_append.mp owner with before | last
    · exact .inl before
    · exact .inr (Prod.mk.inj (mem_singleton.mp last))
  apply sound.entry session (name, some number)
  · intro other away entry carried' same
    exact away (sound.apart other session entry (name, none) carried' carried same)
  · intro other _ entry carried' numbered has same
    rw [← Option.some.inj same] at has
    exact new (sound.known other entry number carried' has)
  · rw [map_append]
    exact List.Nodup.append sound.numbers (nodup_singleton _) (disjoint_singleton.mpr new)
  · rw [map_append]
    exact List.Nodup.append sound.names (nodup_singleton _) (disjoint_singleton.mpr unowned)
  · intro numbered owner
    rcases owner_cases owner with before | ⟨rfl, -⟩
    · exact absurd (mem_map_of_mem before) unowned
    · rfl
  · intro numbered same
    rw [← Option.some.inj same]
    simp
  · intro other away entry carried' numbered owner
    rcases owner_cases owner with before | ⟨-, same⟩
    · exact sound.owned other entry numbered carried' before
    · exact absurd (sound.apart other session entry (name, none) carried' carried same) away
  · intro numbered inside
    rw [map_append]
    exact mem_append_left _ inside

variable [DecidableEq Number]

theorem Registry.Sound.rename (sound : registry.Sound) {session : Session} {entry : Name × Option Number} {name : Name}
    (carried : registry.carries session = some entry)
    (mine : ∀ number, (number, name) ∈ registry.owns → entry.2 = some number)
    (free : ∀ other ≠ session, ∀ entry', registry.carries other = some entry' → entry'.1 ≠ name) :
    Registry.Sound
      { carries := update registry.carries session (some (name, entry.2))
        owns := registry.owns.map fun owner => if entry.2 = some owner.1 then (owner.1, name) else owner } := by
  apply sound.entry session (name, entry.2) free
  · intro other away entry' carried' number has same
    exact away (sound.once other session entry' entry number carried' carried has same)
  · rw [renamed_numbers]
    exact sound.numbers
  · exact renamed_names sound mine
  · intro number owner
    rcases mem_renamed owner with ⟨holds, -⟩ | ⟨-, before⟩
    · exact holds
    · exact mine number before
  · intro number holds
    rw [renamed_numbers]
    exact sound.known session entry number carried holds
  · intro other away entry' carried' number owner
    rcases mem_renamed owner with ⟨-, same⟩ | ⟨-, before⟩
    · exact absurd same (free other away entry' carried')
    · exact sound.owned other entry' number carried' before
  · rw [renamed_numbers]
    exact fun _ => id

/-- A session leaves, comes as a visitor or with a number, takes another name, or has its name registered. -/
inductive Step (registry : Registry Session Number Name) : Registry Session Number Name → Prop where
  | leave (session : Session) :
      Step registry { registry with carries := update registry.carries session none }
  | visit (session : Session) (name : Name)
      (unowned : name ∉ registry.owns.map Prod.snd)
      (free : ∀ other entry, registry.carries other = some entry → entry.1 ≠ name) :
      Step registry { registry with carries := update registry.carries session (some (name, none)) }
  | enter (session : Session) (number : Number) (name : Name)
      (owned : (number, name) ∈ registry.owns)
      (away : ∀ other entry, registry.carries other = some entry → entry.2 ≠ some number) :
      Step registry { registry with carries := update registry.carries session (some (name, some number)) }
  | rename (session : Session) (entry : Name × Option Number) (name : Name)
      (carried : registry.carries session = some entry)
      (mine : ∀ number, (number, name) ∈ registry.owns → entry.2 = some number)
      (free : ∀ other ≠ session, ∀ entry', registry.carries other = some entry' → entry'.1 ≠ name) :
      Step registry
        { carries := update registry.carries session (some (name, entry.2))
          owns := registry.owns.map fun owner => if entry.2 = some owner.1 then (owner.1, name) else owner }
  | join (session : Session) (name : Name) (number : Number)
      (carried : registry.carries session = some (name, none))
      (new : number ∉ registry.owns.map Prod.fst)
      (unowned : name ∉ registry.owns.map Prod.snd) :
      Step registry
        { carries := update registry.carries session (some (name, some number))
          owns := registry.owns ++ [(number, name)] }

theorem Step.sound (step : Step registry next) (sound : registry.Sound) : next.Sound := by
  cases step with
  | leave session => exact sound.leave session
  | visit session name unowned free =>
    apply sound.entry session (name, none) (fun other _ => free other)
    · exact fun _ _ _ _ _ _ same => by cases same
    · exact sound.numbers
    · exact sound.names
    · exact fun number owner => absurd (mem_map_of_mem owner) unowned
    · exact fun _ same => by cases same
    · exact fun other _ entry carried number => sound.owned other entry number carried
    · exact fun _ => id
  | enter session number name owned away =>
    apply sound.entry session (name, some number)
    · -- A session that carries the name of the number would have this number.
      intro other _ entry carried same
      subst same
      exact away other entry carried (sound.owned other entry number carried owned)
    · intro other _ entry carried numbered has same
      rw [← same] at has
      exact away other entry carried has
    · exact sound.numbers
    · exact sound.names
    · intro numbered owner
      have pair : (numbered, name) = (number, name) := inj_on_of_nodup_map sound.names owner owned rfl
      exact congrArg some (Prod.mk.inj pair).1.symm
    · intro numbered same
      rw [← Option.some.inj same]
      exact mem_map_of_mem owned
    · exact fun other _ entry carried numbered => sound.owned other entry numbered carried
    · exact fun _ => id
  | rename session entry name carried mine free => exact sound.rename carried mine free
  | join session name number carried new unowned => exact sound.join carried new unowned

end Steps

end NameRegistry
