import SshChatter.Lib.CString
import SshChatter.Lib.Glob

namespace SshChatter.VersionBan
open CString List

abbrev versionPatternLen : Nat := 16384

instance versionPatternRoom : NeZero versionPatternLen := ⟨by decide⟩

/-- How the normalized pattern is compared with a client version. -/
inductive MatchMode where
  | matchAny
  | matchExact
  | matchPrefix
  | matchSuffix
  | matchSubstring
  deriving DecidableEq

/-- The outputs of `host_version_ip_parse_pattern`. -/
structure ParsedPattern where
  normalized : CBuffer versionPatternLen
  original : CBuffer versionPatternLen
  mode : MatchMode

/-- The wildcard of a pattern. -/
def star : UInt8 := byte '*'

def modeOf (leadingStar trailingStar : Bool) : MatchMode :=
  if leadingStar && trailingStar then .matchSubstring
  else if leadingStar then .matchSuffix
  else if trailingStar then .matchPrefix
  else .matchExact

def parsePattern (pattern : Bytes) : Option ParsedPattern :=
  if versionPatternLen ≤ pattern.length then none else
  let trimmed := trimSpace pattern
  if trimmed = [] then none else
  let leadingStar : Bool := trimmed.head? = some star
  let trailingStar : Bool := trimmed.getLast? = some star
  if leadingStar ∧ trailingStar ∧ trimmed.length = 1 then some ⟨.zero, .print trimmed, .matchAny⟩ else
  let ended := if trailingStar then trimmed.dropLast else trimmed
  let middle := if leadingStar then ended.tail else ended
  if middle = [] then some ⟨.zero, .print trimmed, .matchAny⟩ else
  if star ∈ middle then none else
  some ⟨.print middle, .print trimmed, modeOf leadingStar trailingStar⟩

/-- The version part of `host_version_ip_rule_matches`. -/
def versionMatches (mode : MatchMode) (normalized : Bytes) (version : Option Bytes) : Bool :=
  match mode, version with
  | .matchAny, _ => true
  | _, none => false
  | .matchExact, some text => text = normalized
  | .matchPrefix, some text =>
    let length := min normalized.length versionPatternLen
    0 < length ∧ text.take length = normalized.take length
  | .matchSuffix, some text =>
    let length := min normalized.length versionPatternLen
    0 < length ∧ length ≤ text.length ∧ (text.drop (text.length - length)).take length = normalized.take length
  | .matchSubstring, some text => normalized ≠ [] ∧ (strstr normalized text).isSome

def PatternMatches (pattern : Bytes) : Option Bytes → Prop
  | some version => Glob.Matches star (trimSpace pattern) version
  | none => ∀ c ∈ trimSpace pattern, c = star

def InnerStar (text : Bytes) : Prop := star ∈ text.tail.dropLast

section Shapes

variable {text middle : Bytes}

theorem star_shape (nonEmpty : text ≠ []) :
    text = [star] ∨ (∃ middle, text = star :: (middle ++ [star])) ∨
      (∃ middle, text = star :: middle ∧ middle ≠ [] ∧ middle.getLast? ≠ some star) ∨
      (∃ middle, text = middle ++ [star] ∧ middle ≠ [] ∧ middle.head? ≠ some star) ∨
      (text.head? ≠ some star ∧ text.getLast? ≠ some star) := by
  by_cases leading : text.head? = some star
  · obtain ⟨middle, rfl⟩ := head?_eq_some_iff.mp leading
    by_cases alone : middle = []
    · exact .inl (by rw [alone])
    · by_cases trailing : middle.getLast? = some star
      · obtain ⟨inner, rfl⟩ := getLast?_eq_some_iff.mp trailing
        exact .inr (.inl ⟨inner, rfl⟩)
      · exact .inr (.inr (.inl ⟨middle, rfl, alone, trailing⟩))
  · by_cases trailing : text.getLast? = some star
    · obtain ⟨middle, rfl⟩ := getLast?_eq_some_iff.mp trailing
      have present : middle ≠ [] := by
        rintro rfl
        exact leading rfl
      rw [head?_append_of_ne_nil _ present] at leading
      exact .inr (.inr (.inr (.inl ⟨middle, rfl, present, leading⟩)))
    · exact .inr (.inr (.inr (.inr ⟨leading, trailing⟩)))

theorem star_mem_dropLast (present : middle ≠ []) (last : middle.getLast? ≠ some star) :
    star ∈ middle.dropLast ↔ star ∈ middle := by
  constructor
  · exact mem_of_mem_dropLast
  · intro member
    rw [← dropLast_append_getLast present, mem_append, mem_singleton] at member
    rcases member with inside | same
    · exact inside
    · rw [getLast?_eq_some_getLast present, ← same] at last
      exact absurd rfl last

theorem star_mem_tail (present : middle ≠ []) (first : middle.head? ≠ some star) :
    star ∈ middle.tail ↔ star ∈ middle := by
  cases middle with
  | nil => exact absurd rfl present
  | cons c =>
    have different : star ≠ c := fun same => first (by rw [same]; rfl)
    rw [mem_cons]
    exact ⟨.inr, fun either => either.resolve_left different⟩

theorem innerStar_plain (nonEmpty : text ≠ []) (first : text.head? ≠ some star)
    (last : text.getLast? ≠ some star) : InnerStar text ↔ star ∈ text := by
  rw [InnerStar, ← star_mem_tail nonEmpty first]
  cases text with
  | nil => exact absurd rfl nonEmpty
  | cons c rest =>
    rw [tail_cons]
    by_cases alone : rest = []
    · rw [alone, dropLast_nil]
    · rw [getLast?_cons_of_ne_nil alone] at last
      exact star_mem_dropLast alone last

end Shapes

section Parser

variable {pattern middle : Bytes} (short : ¬ versionPatternLen ≤ pattern.length)

theorem trimSpace_length (text : Bytes) : (trimSpace text).length ≤ text.length := by
  have back := (List.rdropWhile_prefix isSpace (text.dropWhile isSpace)).length_le
  have front := (dropWhile_suffix isSpace (l := text)).length_le
  exact back.trans front

include short

theorem print_text (part : middle.length ≤ (trimSpace pattern).length) :
    (CBuffer.print middle : CBuffer versionPatternLen).text = middle := by
  have bound := trimSpace_length pattern
  exact take_of_length_le (by omega)

theorem parsePattern_bare (shape : trimSpace pattern = [star] ∨ trimSpace pattern = [star, star]) :
    parsePattern pattern = some ⟨.zero, .print (trimSpace pattern), .matchAny⟩ := by
  rcases shape with shape | shape <;> simp [parsePattern, short, shape]

theorem parsePattern_between (shape : trimSpace pattern = star :: (middle ++ [star])) (present : middle ≠ []) :
    parsePattern pattern = if star ∈ middle then none else
      some ⟨.print middle, .print (trimSpace pattern), .matchSubstring⟩ := by
  have last : (star :: (middle ++ [star])).getLast? = some star := by
    rw [← cons_append, getLast?_concat]
  have cut : (star :: (middle ++ [star])).dropLast = star :: middle := by
    rw [← cons_append, dropLast_concat]
  simp [parsePattern, short, shape, last, cut, present, modeOf]

theorem parsePattern_leading (shape : trimSpace pattern = star :: middle) (present : middle ≠ [])
    (last : middle.getLast? ≠ some star) :
    parsePattern pattern = if star ∈ middle then none else
      some ⟨.print middle, .print (trimSpace pattern), .matchSuffix⟩ := by
  have last' : (star :: middle).getLast? ≠ some star := by
    rwa [getLast?_cons_of_ne_nil present]
  simp [parsePattern, short, shape, last', present, modeOf]

theorem parsePattern_trailing (shape : trimSpace pattern = middle ++ [star]) (present : middle ≠ [])
    (first : middle.head? ≠ some star) :
    parsePattern pattern = if star ∈ middle then none else
      some ⟨.print middle, .print (trimSpace pattern), .matchPrefix⟩ := by
  have first' : (middle ++ [star]).head? ≠ some star := by
    rwa [head?_append_of_ne_nil _ present]
  have last : (middle ++ [star]).getLast? = some star := getLast?_concat
  have cut : (middle ++ [star]).dropLast = middle := dropLast_concat
  have nonEmpty : middle ++ [star] ≠ [] := concat_ne_nil star middle
  simp only [parsePattern, short, shape, nonEmpty, first', last, cut, present, modeOf, decide_true, decide_false,
    Bool.false_eq_true, Bool.false_and, if_true, if_false, false_and]

theorem parsePattern_plain (nonEmpty : trimSpace pattern ≠ []) (first : (trimSpace pattern).head? ≠ some star)
    (last : (trimSpace pattern).getLast? ≠ some star) :
    parsePattern pattern = if star ∈ trimSpace pattern then none else
      some ⟨.print (trimSpace pattern), .print (trimSpace pattern), .matchExact⟩ := by
  simp [parsePattern, short, nonEmpty, first, last, modeOf]

theorem parsePattern_short :
    parsePattern pattern = none ↔ trimSpace pattern = [] ∨ InnerStar (trimSpace pattern) := by
  by_cases nonEmpty : trimSpace pattern = []
  · simp [parsePattern, nonEmpty]
  have inner : ∀ {middle mode}, (parsePattern pattern = if star ∈ middle then none else
      some ⟨.print middle, .print (trimSpace pattern), mode⟩) → (InnerStar (trimSpace pattern) ↔ star ∈ middle) →
      (parsePattern pattern = none ↔ trimSpace pattern = [] ∨ InnerStar (trimSpace pattern)) := by
    intro middle mode result same
    rw [result, same]
    by_cases starred : star ∈ middle <;> simp [nonEmpty]
  obtain shape | ⟨middle, shape⟩ | ⟨middle, shape, present, last⟩ | ⟨middle, shape, present, first⟩ | ⟨first, last⟩ :=
    star_shape nonEmpty
  · simp [parsePattern_bare short (.inl shape), shape, InnerStar]
  · by_cases present : middle = []
    · rw [present] at shape
      simp [parsePattern_bare short (.inr shape), shape, InnerStar]
    · apply inner (parsePattern_between short shape present)
      rw [InnerStar, shape, tail_cons, dropLast_concat]
  · apply inner (parsePattern_leading short shape present last)
    rw [InnerStar, shape, tail_cons, star_mem_dropLast present last]
  · apply inner (parsePattern_trailing short shape present first)
    rw [InnerStar, shape, tail_append_of_ne_nil present, dropLast_concat, star_mem_tail present first]
  · apply inner (parsePattern_plain short nonEmpty first last)
    exact innerStar_plain nonEmpty first last

end Parser

theorem parsePattern_eq_none (pattern : Bytes) :
    parsePattern pattern = none ↔
      versionPatternLen ≤ pattern.length ∨ trimSpace pattern = [] ∨ InnerStar (trimSpace pattern) := by
  by_cases short : versionPatternLen ≤ pattern.length
  · simp [parsePattern, short]
  · rw [parsePattern_short short, or_iff_right short]

section Matcher

variable {normalized : Bytes}

/-- The comparison of a beginning is the search for it in front. -/
theorem versionMatches_prefix (present : normalized ≠ []) (short : normalized.length < versionPatternLen)
    (text : Bytes) : versionMatches .matchPrefix normalized (some text) ↔ normalized <+: text := by
  have positive := length_pos_iff.mpr present
  simp only [versionMatches, decide_eq_true_eq, min_eq_left short.le, take_length]
  rw [and_iff_right positive, prefix_iff_eq_take, eq_comm]

/-- The comparison of an end is the search for it at the back. -/
theorem versionMatches_suffix (present : normalized ≠ []) (short : normalized.length < versionPatternLen)
    (text : Bytes) : versionMatches .matchSuffix normalized (some text) ↔ normalized <:+ text := by
  have positive := length_pos_iff.mpr present
  simp only [versionMatches, decide_eq_true_eq, min_eq_left short.le, take_length]
  rw [and_iff_right positive]
  constructor
  · rintro ⟨enough, same⟩
    rw [take_of_length_le (by rw [length_drop]; omega)] at same
    rw [← same]
    exact drop_suffix _ _
  · rintro ⟨before, rfl⟩
    refine ⟨by rw [length_append]; omega, ?_⟩
    rw [length_append, Nat.add_sub_cancel, drop_left, take_length]

end Matcher

def rebuilt (middle : Bytes) : MatchMode → Bytes
  | .matchAny => [star]
  | .matchExact => middle
  | .matchPrefix => middle ++ [star]
  | .matchSuffix => star :: middle
  | .matchSubstring => star :: (middle ++ [star])

variable {parsed : ParsedPattern}

theorem parsePattern_some {pattern : Bytes} (accepted : parsePattern pattern = some parsed) :
    (parsed.mode = .matchAny ∧ (trimSpace pattern = [star] ∨ trimSpace pattern = [star, star])) ∨
      (parsed.mode ≠ .matchAny ∧ parsed.normalized.text ≠ [] ∧ star ∉ parsed.normalized.text ∧
        trimSpace pattern = rebuilt parsed.normalized.text parsed.mode) := by
  have short : ¬ versionPatternLen ≤ pattern.length := by
    intro long
    rw [(parsePattern_eq_none pattern).mpr (.inl long)] at accepted
    cases accepted
  have nonEmpty : trimSpace pattern ≠ [] := by
    intro empty
    rw [(parsePattern_eq_none pattern).mpr (.inr (.inl empty))] at accepted
    cases accepted
  have kept : ∀ {middle mode}, (parsePattern pattern = if star ∈ middle then none else
      some ⟨.print middle, .print (trimSpace pattern), mode⟩) → mode ≠ .matchAny → middle ≠ [] →
      middle.length ≤ (trimSpace pattern).length → trimSpace pattern = rebuilt middle mode →
      parsed.mode ≠ .matchAny ∧ parsed.normalized.text ≠ [] ∧ star ∉ parsed.normalized.text ∧
        trimSpace pattern = rebuilt parsed.normalized.text parsed.mode := by
    intro middle mode result notAny present part shape
    rw [accepted] at result
    by_cases starred : star ∈ middle
    · simp [starred] at result
    · rw [if_neg starred] at result
      cases result
      rw [print_text short part]
      exact ⟨notAny, present, starred, shape⟩
  obtain shape | ⟨middle, shape⟩ | ⟨middle, shape, present, last⟩ | ⟨middle, shape, present, first⟩ | ⟨first, last⟩ :=
    star_shape nonEmpty
  · rw [parsePattern_bare short (.inl shape)] at accepted
    cases accepted
    exact .inl ⟨rfl, .inl shape⟩
  · by_cases present : middle = []
    · rw [present] at shape
      rw [parsePattern_bare short (.inr shape)] at accepted
      cases accepted
      exact .inl ⟨rfl, .inr shape⟩
    · have part : middle.length ≤ (trimSpace pattern).length := by
        rw [shape, length_cons, length_append]
        omega
      exact .inr (kept (parsePattern_between short shape present) (by decide) present part shape)
  · exact .inr (kept (parsePattern_leading short shape present last) (by decide) present (by simp [shape]) shape)
  · exact .inr (kept (parsePattern_trailing short shape present first) (by decide) present (by simp [shape]) shape)
  · exact .inr (kept (parsePattern_plain short nonEmpty first last) (by decide) nonEmpty le_rfl rfl)

theorem parsePattern_matches {pattern : Bytes} (accepted : parsePattern pattern = some parsed)
    (version : Option Bytes) :
    versionMatches parsed.mode parsed.normalized.text version ↔ PatternMatches pattern version := by
  obtain ⟨any, shape⟩ | ⟨notAny, present, plain, shape⟩ := parsePattern_some accepted
  · have stars : PatternMatches pattern version := by
      cases version with
      | none => rcases shape with shape | shape <;> simp [PatternMatches, shape]
      | some text =>
        rw [PatternMatches]
        rcases shape with shape | shape <;> rw [shape]
        · exact Glob.matches_star text
        · exact Glob.matches_star_cons.mpr ⟨text, suffix_rfl, Glob.matches_star text⟩
    simp [any, versionMatches, stars]
  have short := parsed.normalized.fits
  generalize parsed.normalized.text = middle at *
  cases version with
  | none =>
    -- The first letter of the kept text is a letter of the pattern and no star.
    have letter : ¬ PatternMatches pattern none := by
      intro stars
      obtain ⟨c, rest, rfl⟩ := exists_cons_of_ne_nil present
      have inside : c ∈ trimSpace pattern := by
        cases mode : parsed.mode <;> simp_all [rebuilt]
      exact plain (by rw [stars c inside]; exact mem_cons_self)
    cases mode : parsed.mode <;> simp_all [versionMatches]
  | some =>
    rw [PatternMatches, shape]
    cases mode : parsed.mode with
    | matchAny => exact absurd mode notAny
    | matchExact => rw [rebuilt, Glob.matches_plain plain, versionMatches, decide_eq_true_eq]
    | matchPrefix => rw [rebuilt, Glob.matches_trailing plain, versionMatches_prefix present short]
    | matchSuffix => rw [rebuilt, Glob.matches_leading plain, versionMatches_suffix present short]
    | matchSubstring =>
      rw [rebuilt, Glob.matches_between plain, versionMatches, decide_eq_true_eq, and_iff_right present,
        strstr_isSome]

end SshChatter.VersionBan
