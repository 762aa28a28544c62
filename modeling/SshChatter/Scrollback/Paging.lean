import SshChatter.Scrollback.Navigate
import SshChatter.Lib.EventRun

namespace SshChatter.Scrollback
open CString PrefixFit EventRun List

section Windows

variable {terminal : Terminal} {oldest count i : Nat}

def HiddenAt (terminal : Terminal) (i : Nat) : Prop := (terminal.entries.getD i []).flatten = []

theorem countRows_nil (terminal : Terminal) : countRows terminal [] = 0 := rfl

theorem lineCapacity_pos (terminal : Terminal) : 0 < lineCapacity terminal := by
  rw [lineCapacity]
  split_ifs <;> simp only [maxChunk] <;> omega

theorem windowRows_length (inside : oldest + count ≤ terminal.entries.length) :
    (windowRows terminal oldest count).length = count := by
  rw [windowRows, length_map, length_take, length_drop]
  omega

theorem windowRows_getElem (small : i < (windowRows terminal oldest count).length) :
    (windowRows terminal oldest count)[i] = countRows terminal (terminal.entries.getD (oldest + i) []).flatten := by
  have here : oldest + i < terminal.entries.length := by
    rw [windowRows, length_map, length_take, length_drop] at small
    omega
  simp only [windowRows, getElem_map, getElem_take, getElem_drop]
  rw [getD_eq_getElem?_getD, getElem?_eq_getElem here, Option.getD_some]

theorem windowRows_newest (inside : oldest + count ≤ terminal.entries.length) {more : Nat} (small : more ≤ count) :
    (windowRows terminal oldest count).reverse.take more =
      (windowRows terminal (oldest + (count - more)) more).reverse := by
  rw [take_reverse, windowRows_length inside, windowRows, windowRows, ← map_drop, drop_take, drop_drop,
    Nat.sub_sub_self small]

theorem shownCount_bounds (inside : oldest + count ≤ terminal.entries.length) (some' : 0 < count) :
    0 < shownCount terminal oldest count ∧ shownCount terminal oldest count ≤ count := by
  have length := windowRows_length inside
  rw [shownCount]
  split_ifs with large
  · exact ⟨some', le_refl count⟩
  · have rows : (windowRows terminal oldest count).reverse ≠ [] := by
      rw [ne_eq, reverse_eq_nil_iff, ← length_eq_zero_iff]
      omega
    have most := fit_le (lineCapacity terminal) (windowRows terminal oldest count).reverse
    rw [length_reverse, length] at most
    exact ⟨fit_pos rows, most⟩

/-- Only hidden entries are left out of the newest entries of a window exactly when these fit together, or all but the
last of them are hidden. -/
theorem leaves_out_hidden_iff (inside : oldest + count ≤ terminal.entries.length) {more : Nat} (small : more ≤ count)
    (some' : 0 < count) :
    (∀ i, oldest + (count - more) ≤ i → i + shownCount terminal oldest count < oldest + count → HiddenAt terminal i) ↔
      outgrows terminal oldest count ∨
      (windowRows terminal (oldest + (count - more)) more).sum ≤ lineCapacity terminal ∨
      ∀ i, oldest + (count - more) ≤ i → i + 1 < oldest + count → HiddenAt terminal i := by
  have length := windowRows_length inside
  have bounds := shownCount_bounds inside some'
  constructor
  · intro hidden
    by_cases large : outgrows terminal oldest count
    · exact .inl large
    right
    rw [shownCount, if_neg large] at hidden
    have counted := le_fit_iff (lineCapacity terminal) (windowRows terminal oldest count).reverse more
    rw [windowRows_newest inside small, sum_reverse] at counted
    by_cases all : more ≤ fit (lineCapacity terminal) (windowRows terminal oldest count).reverse
    · rcases (counted.mp all).2 with one | fits
      · right
        intro i low high
        omega
      · exact .inl fits
    · right
      have short : fit (lineCapacity terminal) (windowRows terminal oldest count).reverse <
          (windowRows terminal oldest count).reverse.length := by
        rw [length_reverse]
        omega
      rcases fit_stops short with ⟨one, -⟩ | visible
      · rw [one] at hidden
        exact hidden
      · rw [getElem_reverse, windowRows_getElem] at visible
        have gap := hidden (oldest + ((windowRows terminal oldest count).length - 1 -
          fit (lineCapacity terminal) (windowRows terminal oldest count).reverse)) (by omega) (by omega)
        rw [gap] at visible
        exact absurd visible (lt_irrefl 0)
  · intro fits i low high
    rcases fits with large | fits | hidden
    · rw [shownCount, if_pos large] at high
      omega
    · by_cases large : outgrows terminal oldest count
      · rw [shownCount, if_pos large] at high
        omega
      · have counted := le_fit_iff (lineCapacity terminal) (windowRows terminal oldest count).reverse more
        rw [windowRows_newest inside small, sum_reverse, length_reverse] at counted
        rw [shownCount, if_neg large] at high
        omega
    · exact hidden i low (by omega)

end Windows

section Steps

variable {terminal : Terminal} {scroll : Scroll}

/-- The frame that a session sees is inside the history and no larger than the screen. -/
structure Sound (terminal : Terminal) (scroll : Scroll) : Prop where
  inside : scroll.position + scroll.renderedEntries ≤ terminal.entries.length
  shown : 0 < scroll.position → 0 < scroll.renderedEntries
  fits : scroll.renderedEntries ≤ lineCapacity terminal
  latest : scroll.latestNotified → scroll.position = 0

def onScreen (terminal : Terminal) (scroll : Scroll) : Option Frame :=
  if scroll.renderedEntries = 0 then none
  else
    some ⟨terminal.entries.length - scroll.position - scroll.renderedEntries,
      terminal.entries.length - 1 - scroll.position⟩

/-- Nothing but hidden entries stands between two frames. -/
def NoGap (terminal : Terminal) (first second : Frame) : Prop :=
  ∀ i, (first.newest < i ∧ i < second.oldest) ∨ (second.newest < i ∧ i < first.oldest) → HiddenAt terminal i

def pageStep (terminal : Terminal) (scroll : Scroll) (direction : Direction) : Scroll :=
  (navigate terminal scroll direction).1

def frames (terminal : Terminal) (scroll : Scroll) (direction : Direction) : List Frame :=
  (navigate terminal scroll direction).2.toList

theorem live_sound (terminal : Terminal) : Sound terminal .live where
  inside := Nat.zero_le _
  shown := fun positive => positive
  fits := Nat.zero_le _
  latest := fun notified => by cases notified

theorem Sound.position_lt (sound : Sound terminal scroll) (some' : terminal.entries ≠ []) :
    scroll.position < terminal.entries.length := by
  have positive := length_pos_iff.mpr some'
  have inside := sound.inside
  have shown := sound.shown
  omega

variable {position : Nat} (direction : Direction)

theorem window_inside (inside : position < terminal.entries.length) :
    oldestVisible terminal position + chunkAt terminal position = terminal.entries.length - position ∧
      0 < chunkAt terminal position ∧ chunkAt terminal position ≤ lineCapacity terminal := by
  have capacity := lineCapacity_pos terminal
  rw [oldestVisible, chunkAt, newestVisible]
  omega

def shownAt (terminal : Terminal) (position : Nat) : Nat :=
  shownCount terminal (oldestVisible terminal position) (chunkAt terminal position)

theorem shownAt_bounds (inside : position < terminal.entries.length) :
    0 < shownAt terminal position ∧ shownAt terminal position ≤ chunkAt terminal position := by
  obtain ⟨window, some', -⟩ := window_inside inside
  exact shownCount_bounds (by omega) some'

theorem showAt_eq (inside : position < terminal.entries.length) :
    showAt terminal direction position =
      (⟨position, shownAt terminal position, decide (direction = .down ∧ position = 0),
          decide (terminal.entries.length - position - shownAt terminal position = 0)⟩,
        ⟨terminal.entries.length - position - shownAt terminal position, terminal.entries.length - 1 - position⟩) := by
  obtain ⟨window, -⟩ := window_inside inside
  obtain ⟨-, most⟩ := shownAt_bounds inside
  have first : oldestVisible terminal position + (chunkAt terminal position - shownAt terminal position) =
      terminal.entries.length - position - shownAt terminal position := by omega
  rw [shownAt] at first
  rw [showAt, first]
  rfl

theorem showAt_sound (inside : position < terminal.entries.length) :
    Sound terminal (showAt terminal direction position).1 := by
  obtain ⟨window, -, small⟩ := window_inside inside
  obtain ⟨some', most⟩ := shownAt_bounds inside
  constructor
  case inside =>
    change position + shownAt terminal position ≤ terminal.entries.length
    omega
  case shown => exact fun _ => some'
  case fits => exact le_trans most small
  case latest => exact fun notified => (of_decide_eq_true notified).2

theorem newPosition_up (sound : Sound terminal scroll) (some' : terminal.entries ≠ []) :
    newPosition terminal scroll .up =
      scroll.position + min (pageOf terminal scroll) (terminal.entries.length - 1 - scroll.position) := by
  have inside := sound.position_lt some'
  rw [newPosition, min_eq_left (by omega)]

theorem newPosition_down (sound : Sound terminal scroll) (some' : terminal.entries ≠ []) :
    newPosition terminal scroll .down = scroll.position - min (pageOf terminal scroll) scroll.position := by
  have inside := sound.position_lt some'
  rw [newPosition, min_eq_left (by omega)]

theorem newPosition_lt (sound : Sound terminal scroll) (some' : terminal.entries ≠ []) (direction : Direction) :
    newPosition terminal scroll direction < terminal.entries.length := by
  have inside := sound.position_lt some'
  cases direction with
  | up =>
    rw [newPosition_up sound some']
    omega
  | down =>
    rw [newPosition_down sound some']
    omega

/-- What a page does: nothing, a return to the live position, or a frame. -/
inductive Paged (terminal : Terminal) (scroll : Scroll) (direction : Direction) : Scroll × Option Frame → Prop where
  | still (rest : terminal.entries = [] ∨ (direction = .down ∧ scroll.position = 0) ∨
      (direction = .up ∧ scroll.oldestNotified)) : Paged terminal scroll direction (scroll, none)
  | live (newest : direction = .down ∧ scroll.position = 0) : Paged terminal scroll direction (.live, none)
  | frame (some' : terminal.entries ≠ []) (older : direction = .down → scroll.position ≠ 0)
      (newer : direction = .up → scroll.oldestNotified = false) :
      Paged terminal scroll direction
        ((showAt terminal direction (newPosition terminal scroll direction)).1,
          some (showAt terminal direction (newPosition terminal scroll direction)).2)

theorem navigate_spec (sound : Sound terminal scroll) (direction : Direction) :
    Paged terminal scroll direction (navigate terminal scroll direction) := by
  rw [navigate]
  split_ifs with notified empty newest
  · apply Paged.still
    rcases notified with ⟨down, latest⟩ | up
    · exact .inr (.inl ⟨down, sound.latest latest⟩)
    · exact .inr (.inr up)
  · exact .still (.inl empty)
  · have inside := sound.position_lt empty
    exact .live ⟨newest.1, by omega⟩
  · have inside := sound.position_lt empty
    apply Paged.frame empty
    · intro down zero
      exact newest ⟨down, by omega⟩
    · intro up
      rw [← Bool.not_eq_true]
      exact fun oldest => notified (.inr ⟨up, oldest⟩)

theorem pageStep_sound (scroll : Scroll) (direction : Direction) (sound : Sound terminal scroll) :
    Sound terminal (pageStep terminal scroll direction) := by
  have paged := navigate_spec sound direction
  rw [pageStep]
  cases result : navigate terminal scroll direction with
  | mk next frame =>
    rw [result] at paged
    cases paged with
    | still => exact sound
    | live => exact live_sound terminal
    | frame some' => exact showAt_sound direction (newPosition_lt sound some' direction)

/-- Nothing but hidden messages stands between the frame that a page replaces and the frame that it shows. -/
def Gapless (terminal : Terminal) (scroll : Scroll) (direction : Direction) : Prop :=
  ∀ first second, onScreen terminal scroll = some first → (navigate terminal scroll direction).2 = some second →
    NoGap terminal first second

/-- The number of messages that a page down moves by. -/
def retreat (terminal : Terminal) (scroll : Scroll) : Nat := min (pageOf terminal scroll) scroll.position

/-- The messages that a page down moves by fit together on the screen, or go out unmeasured, or all but the newest of
them are hidden. A page up from a frame at the live position moves past hidden messages only. -/
def PageFits (terminal : Terminal) (scroll : Scroll) : Direction → Prop
  | .down => scroll.position ≠ 0 →
      outgrows terminal (oldestVisible terminal (scroll.position - retreat terminal scroll))
        (chunkAt terminal (scroll.position - retreat terminal scroll)) ∨
      (windowRows terminal (terminal.entries.length - scroll.position) (retreat terminal scroll)).sum ≤
        lineCapacity terminal ∨
      ∀ i, terminal.entries.length - scroll.position ≤ i →
        i + 1 < terminal.entries.length - scroll.position + retreat terminal scroll → HiddenAt terminal i
  | .up => scroll.position = 0 → scroll.renderedEntries ≠ 0 → scroll.oldestNotified = false →
      ∀ i, terminal.entries.length - 1 - min (lineCapacity terminal) (terminal.entries.length - 1) < i →
        i < terminal.entries.length - scroll.renderedEntries → HiddenAt terminal i

theorem onScreen_some {first : Frame} (shown : onScreen terminal scroll = some first) :
    scroll.renderedEntries ≠ 0 ∧
      first = ⟨terminal.entries.length - scroll.position - scroll.renderedEntries,
        terminal.entries.length - 1 - scroll.position⟩ := by
  rw [onScreen] at shown
  split_ifs at shown with none'
  exact ⟨none', (Option.some.inj shown).symm⟩

theorem pageOf_eq (sound : Sound terminal scroll) (scrolled : scroll.position ≠ 0) :
    pageOf terminal scroll = scroll.renderedEntries := by
  have shown := sound.shown (pos_of_ne_zero scrolled)
  have fits := sound.fits
  rw [pageOf, if_neg (by omega)]

theorem retreat_bounds (sound : Sound terminal scroll) (scrolled : scroll.position ≠ 0) :
    0 < retreat terminal scroll ∧ retreat terminal scroll ≤ scroll.position ∧
      retreat terminal scroll ≤ lineCapacity terminal := by
  have shown := sound.shown (pos_of_ne_zero scrolled)
  have fits := sound.fits
  rw [retreat, pageOf_eq sound scrolled]
  omega

/-- Only hidden messages stand between a frame and the frame of a page down exactly when the page fits. -/
theorem down_noGap_iff (sound : Sound terminal scroll) (some' : terminal.entries ≠ [])
    (scrolled : scroll.position ≠ 0) : NoGap terminal
        ⟨terminal.entries.length - scroll.position - scroll.renderedEntries, terminal.entries.length - 1 -
          scroll.position⟩
        (showAt terminal .down (newPosition terminal scroll .down)).2 ↔
      PageFits terminal scroll .down := by
  obtain ⟨positive, within, small⟩ := retreat_bounds sound scrolled
  have old := sound.position_lt some'
  have inside := newPosition_lt sound some' .down
  rw [newPosition_down sound some', ← retreat] at inside ⊢
  obtain ⟨window, chunk, -⟩ := window_inside inside
  have more : retreat terminal scroll ≤ chunkAt terminal (scroll.position - retreat terminal scroll) := by
    rw [chunkAt, newestVisible]
    omega
  have whole : oldestVisible terminal (scroll.position - retreat terminal scroll) +
      chunkAt terminal (scroll.position - retreat terminal scroll) ≤ terminal.entries.length := by omega
  have left := leaves_out_hidden_iff whole more chunk
  have start : oldestVisible terminal (scroll.position - retreat terminal scroll) +
      (chunkAt terminal (scroll.position - retreat terminal scroll) - retreat terminal scroll) =
      terminal.entries.length - scroll.position := by omega
  have stop : oldestVisible terminal (scroll.position - retreat terminal scroll) +
      chunkAt terminal (scroll.position - retreat terminal scroll) =
      terminal.entries.length - scroll.position + retreat terminal scroll := by omega
  rw [start, stop, ← shownAt] at left
  rw [showAt_eq _ inside]
  constructor
  · intro gap _
    apply left.mp
    intro i low high
    apply gap i
    left
    dsimp only
    omega
  · intro fits i between
    apply left.mpr (fits scrolled) i
    · dsimp only at between
      omega
    · dsimp only at between
      omega

/-- Only hidden messages stand between a frame and the frame of a page up exactly when the page fits. -/
theorem up_noGap_iff (sound : Sound terminal scroll) (some' : terminal.entries ≠ [])
    (shown : scroll.renderedEntries ≠ 0) (newer : scroll.oldestNotified = false) :
    NoGap terminal
        ⟨terminal.entries.length - scroll.position - scroll.renderedEntries, terminal.entries.length - 1 -
          scroll.position⟩
        (showAt terminal .up (newPosition terminal scroll .up)).2 ↔
      PageFits terminal scroll .up := by
  have inside := newPosition_lt sound some' .up
  rw [newPosition_up sound some'] at inside ⊢
  obtain ⟨one, most⟩ := shownAt_bounds inside
  rw [showAt_eq _ inside, PageFits]
  by_cases scrolled : scroll.position = 0
  · have page : pageOf terminal scroll = lineCapacity terminal := by
      rw [pageOf, if_pos (.inl scrolled)]
    rw [scrolled] at one inside ⊢
    constructor
    · intro gap _ _ _ i low high
      apply gap i
      right
      dsimp only
      omega
    · intro hidden i between
      dsimp only at between
      apply hidden rfl shown newer i
      · omega
      · omega
  · constructor
    · exact fun _ zero => absurd zero scrolled
    · intro _ i between
      rw [pageOf_eq sound scrolled] at between one inside
      dsimp only at between
      omega

/-- A page leaves no gap exactly when it fits. -/
theorem gapless_iff (scroll : Scroll) (direction : Direction) (sound : Sound terminal scroll) :
    Gapless terminal scroll direction ↔ PageFits terminal scroll direction := by
  have paged := navigate_spec sound direction
  rw [Gapless]
  cases result : navigate terminal scroll direction with
  | mk next frame =>
    rw [result] at paged
    cases paged with
    | still rest =>
      have none' : PageFits terminal scroll direction := by
        rcases rest with empty | ⟨rfl, newest⟩ | ⟨rfl, oldest⟩
        · have inside := sound.inside
          rw [empty, length_nil] at inside
          cases direction with
          | up => exact fun _ shown => absurd (by omega) shown
          | down => exact fun scrolled => absurd (by omega) scrolled
        · exact fun scrolled => absurd newest scrolled
        · intro _ _ newer
          rw [oldest] at newer
          cases newer
      exact iff_of_true (fun _ _ _ shown => by cases shown) none'
    | live newest =>
      obtain ⟨rfl, zero⟩ := newest
      exact iff_of_true (fun _ _ _ shown => by cases shown) fun scrolled => absurd zero scrolled
    | frame some' older newer =>
      cases direction with
      | down =>
        have scrolled := older rfl
        rw [← down_noGap_iff sound some' scrolled]
        constructor
        · intro gap
          apply gap _ _ ?_ rfl
          rw [onScreen, if_neg (pos_iff_ne_zero.mp (sound.shown (pos_of_ne_zero scrolled)))]
        · intro gap first second shown same
          obtain ⟨-, rfl⟩ := onScreen_some shown
          cases same
          exact gap
      | up =>
        by_cases shown : scroll.renderedEntries = 0
        · apply iff_of_true
          · intro first second shown'
            exact absurd shown (onScreen_some shown').1
          · exact fun _ shown' => absurd shown shown'
        · rw [← up_noGap_iff sound some' shown (newer rfl)]
          constructor
          · intro gap
            apply gap _ _ ?_ rfl
            rw [onScreen, if_neg shown]
          · intro gap first second shown' same
            obtain ⟨-, rfl⟩ := onScreen_some shown'
            cases same
            exact gap

theorem up_moves (sound : Sound terminal scroll) {frame : Frame}
    (shown : (navigate terminal scroll .up).2 = some frame) (newer : frame.oldest ≠ 0) :
    scroll.position < (pageStep terminal scroll .up).position := by
  have paged := navigate_spec sound .up
  rw [pageStep]
  cases result : navigate terminal scroll .up with
  | mk =>
    rw [result] at paged shown
    cases paged with
    | still => cases shown
    | live newest => cases newest.1
    | frame some' =>
      have inside := newPosition_lt sound some' .up
      cases shown
      obtain ⟨one, -⟩ := shownAt_bounds inside
      have page : 0 < pageOf terminal scroll := by
        have capacity := lineCapacity_pos terminal
        rw [pageOf]
        split_ifs with first
        · exact capacity
        · omega
      rw [showAt_eq _ inside] at newer ⊢
      dsimp only at newer ⊢
      rw [newPosition_up sound some'] at newer one inside ⊢
      omega

theorem down_shows (sound : Sound terminal scroll) (scrolled : scroll.position ≠ 0)
    (fits : PageFits terminal scroll .down) :
    (pageStep terminal scroll .down).position = scroll.position - retreat terminal scroll ∧
      ∃ frame ∈ frames terminal scroll .down, ∀ i, terminal.entries.length - scroll.position ≤ i →
        i < terminal.entries.length - (scroll.position - retreat terminal scroll) → ¬ HiddenAt terminal i →
          frame.oldest ≤ i ∧ i ≤ frame.newest := by
  have some' : terminal.entries ≠ [] := by
    intro empty
    have inside := sound.inside
    rw [empty, length_nil] at inside
    omega
  have old := sound.position_lt some'
  have gap := (down_noGap_iff sound some' scrolled).mpr fits
  have inside := newPosition_lt sound some' .down
  have paged := navigate_spec sound .down
  rw [pageStep, frames]
  cases result : navigate terminal scroll .down with
  | mk next frame =>
    rw [result] at paged
    cases paged with
    | still rest =>
      rcases rest with empty | ⟨-, newest⟩ | ⟨up, -⟩
      · exact absurd empty some'
      · exact absurd newest scrolled
      · cases up
    | live newest => exact absurd newest.2 scrolled
    | frame some' =>
      rw [newPosition_down sound some', ← retreat, showAt_eq _
        (by rwa [newPosition_down sound some'] at inside)] at gap ⊢
      refine ⟨rfl, _, mem_singleton_self _, ?_⟩
      intro i low high visible
      dsimp only
      constructor
      · by_contra before
        apply visible
        apply gap i
        left
        dsimp only
        omega
      · omega

/-- As many pages down as the position return to the live position and show every message on the way when they fit. -/
theorem down_returns (count : Nat) (sound : Sound terminal scroll) (enough : scroll.position ≤ count)
    (fits : Along (pageStep terminal) (PageFits terminal) scroll (replicate count .down)) :
    (run (pageStep terminal) scroll (replicate count .down)).position = 0 ∧
      ∀ i, terminal.entries.length - scroll.position ≤ i → i < terminal.entries.length → ¬ HiddenAt terminal i →
        ∃ frame ∈ emitted (pageStep terminal) (frames terminal) scroll (replicate count .down),
          frame.oldest ≤ i ∧ i ≤ frame.newest := by
  induction count generalizing scroll with
  | zero =>
    have newest : scroll.position = 0 := Nat.le_zero.mp enough
    refine ⟨newest, ?_⟩
    intro i low high
    omega
  | succ count ih =>
    have next := pageStep_sound scroll .down sound
    by_cases newest : scroll.position = 0
    · have still : (pageStep terminal scroll .down).position = 0 := by
        have paged := navigate_spec sound .down
        rw [pageStep]
        cases result : navigate terminal scroll .down with
        | mk next frame =>
          rw [result] at paged
          cases paged with
          | still => exact newest
          | live => rfl
          | frame some' older => exact absurd newest (older rfl)
      refine ⟨(ih next (by omega) fits.2).1, ?_⟩
      intro i low high
      omega
    · obtain ⟨position, frame, shown, covers⟩ := down_shows sound newest fits.1
      obtain ⟨positive, within, -⟩ := retreat_bounds sound newest
      obtain ⟨returned, later⟩ := ih next (by omega) fits.2
      refine ⟨returned, ?_⟩
      intro i low high visible
      by_cases here : i < terminal.entries.length - (scroll.position - retreat terminal scroll)
      · exact ⟨frame, mem_append_left _ shown, covers i low here visible⟩
      · obtain ⟨frame', after, covers'⟩ := later i (by omega) high visible
        exact ⟨frame', mem_append_right _ after, covers'⟩

end Steps

/-- Two consecutive frames of a run leave no gap exactly when its pages fit. Every page up that does not show the
oldest message moves back. After a run whose pages fit, as many pages down that fit as the position return to the live
position and show every message that is not hidden on the way. -/
theorem scrollback_paged (terminal : Terminal) (events : List Direction) :
    (Along (pageStep terminal) (Gapless terminal) .live events ↔
      Along (pageStep terminal) (PageFits terminal) .live events) ∧
    Along (pageStep terminal) (fun scroll direction => direction = .up → ∀ frame,
      (navigate terminal scroll .up).2 = some frame → frame.oldest ≠ 0 →
        scroll.position < (pageStep terminal scroll .up).position) .live events ∧
    ∀ scroll, scroll = run (pageStep terminal) .live events → ∀ count, scroll.position ≤ count →
      Along (pageStep terminal) (PageFits terminal) scroll (replicate count .down) →
        (run (pageStep terminal) scroll (replicate count .down)).position = 0 ∧
          ∀ i, terminal.entries.length - scroll.position ≤ i → i < terminal.entries.length → ¬ HiddenAt terminal i →
            ∃ frame ∈ emitted (pageStep terminal) (frames terminal) scroll (replicate count .down),
              frame.oldest ≤ i ∧ i ≤ frame.newest := by
  have start := live_sound terminal
  refine ⟨along_iff (Sound terminal) pageStep_sound gapless_iff start events, ?_, ?_⟩
  · apply along_always (Sound terminal) pageStep_sound ?_ start events
    rintro scroll direction sound - frame shown older
    exact up_moves sound shown older
  · rintro scroll rfl count enough fits
    have sound := run_invariant (pageStep terminal) (Sound terminal) pageStep_sound start events
    exact down_returns count sound enough fits

/-- A history with a message of three lines on a screen of three lines. -/
def tallMessage : Terminal where
  width := 80
  height := 5
  columns := fun _ => none
  entries := [[str "a", [10]], [str "b", [10]], [str "c", [10]], [str "d", [10]],
    [str "e", [10], str "e", [10], str "e", [10]], [str "f", [10]]]

/-- The page down after the first page up skips two messages. -/
theorem page_down_skips : ¬ ∀ terminal events, Along (pageStep terminal) (Gapless terminal) .live events := by
  intro all
  have last : Gapless tallMessage (pageStep tallMessage .live .up) .down := (all tallMessage [.up, .down]).2.1
  have first : onScreen tallMessage (pageStep tallMessage .live .up) = some ⟨0, 2⟩ := by decide +kernel
  have second : (navigate tallMessage (pageStep tallMessage .live .up) .down).2 = some ⟨5, 5⟩ := by decide +kernel
  have hidden := last ⟨0, 2⟩ ⟨5, 5⟩ first second 3 (.inl ⟨by decide, by decide⟩)
  revert hidden
  rw [HiddenAt]
  decide +kernel

end SshChatter.Scrollback
