import SshChatter.FileTransfer.Confinement

namespace SshChatter.FileTransfer
open CString List

def EndsInSpace (text : Bytes) : Prop := ∃ c ∈ text.getLast?, isSpace c

def Stable (storage : FileStorage) (virtualPath : Bytes) : Prop :=
  ∀ resolved display, resolvePath storage virtualPath pathMax (some pathMax) = .ok (resolved, some display) →
    resolvePath storage display pathMax (some pathMax) = .ok (resolved, some display)

section Display

variable {storage : FileStorage} {virtualPath resolved : Bytes} {resolvedLen : Nat} {display : Option Nat}
  {shown : Option Bytes}

/-- Both branches at the end of the function print the sanitized path behind a slash. -/
theorem placePath_shown {working sanitized : Bytes}
    (placed : placePath storage resolvedLen display working sanitized = .ok (resolved, shown)) :
    writeDisplay display (slash :: sanitized) = .ok shown := by
  rw [placePath] at placed
  by_cases empty : sanitized.length = 0
  · rw [if_pos empty] at placed
    split at placed
    · cases placed
    · cases copied : pathBufferCopy resolvedLen storage.root.text <;>
        cases written : writeDisplay display [slash] <;> simp_all [bind, Except.bind]
  · rw [if_neg empty] at placed
    cases joined : pathBufferJoin resolvedLen storage.root.text sanitized <;>
      cases written : writeDisplay display (slash :: sanitized) <;> simp_all [bind, Except.bind]

theorem resolvePath_shown (result : resolvePath storage virtualPath resolvedLen display = .ok (resolved, shown)) :
    writeDisplay display (slash :: Segments.join slash (named (workingCopy virtualPath))) = .ok shown := by
  obtain ⟨served, _⟩ | ⟨_, refused⟩ := resolvePath_cases storage virtualPath resolvedLen display
  · have loop := sanitize_eq (workingCopy virtualPath).length [] (workingCopy virtualPath) le_rfl
      (forall_mem_nil _) (by decide)
    have parts : outcome [] (components (workingCopy virtualPath)) =
        .ok (Segments.join slash (named (workingCopy virtualPath))) :=
      if_pos ⟨served.proper, served.joins⟩
    have start : Segments.join slash ([] : List Bytes) = [] := rfl
    rw [start, parts] at loop
    rw [resolvePath] at result
    split_ifs at result
    simp only [loop] at result
    exact placePath_shown result
  · rw [refused] at result
    cases result

theorem writeDisplay_whole {text : Bytes} (fits : DisplayFits (some pathMax) text) :
    writeDisplay (some pathMax) text = .ok (some text) := by
  have room : (text.length : Int) < toInt pathMax := (fits pathMax rfl).resolve_left (by decide)
  have bound : toInt pathMax = 4096 := by decide
  rw [writeDisplay, if_neg (by decide), if_neg (by omega), take_of_length_le (by show text.length ≤ 4095; omega)]

end Display

abbrev shownAs (names : List Bytes) : Bytes := slash :: Segments.join slash names

section Names

variable {names : List Bytes} {path : Bytes}

theorem named_valid : ∀ part ∈ named path, part ≠ [] ∧ slash ∉ part :=
  fun _ member => Segments.mem_segments (mem_of_mem_filter member)

theorem components_shownAs (valid : ∀ part ∈ names, part ≠ [] ∧ slash ∉ part) : components (shownAs names) = names := by
  simp only [components, Segments.segments_sep_cons, Segments.segments_join valid]

theorem named_shownAs : named (shownAs (named path)) = named path := by
  show (components (shownAs (named path))).filter (· ≠ str ".") = named path
  rw [components_shownAs named_valid]
  simp [named]

theorem shownAs_getLast? {last : Bytes} (present : last ≠ []) :
    (shownAs (names ++ [last])).getLast? = last.getLast? := by
  have tail : ∃ front, shownAs (names ++ [last]) = front ++ last := by
    cases names with
    | nil => exact ⟨[slash], by simp [Segments.join]⟩
    | cons first rest =>
      exact ⟨shownAs (first :: rest) ++ [slash], by
        rw [shownAs, Segments.join_concat (cons_ne_nil first rest)]
        simp [shownAs]⟩
  obtain ⟨front, split⟩ := tail
  rw [split, getLast?_append_of_ne_nil _ present]

theorem shownAs_endsInSpace (valid : ∀ part ∈ names, part ≠ [] ∧ slash ∉ part) :
    EndsInSpace (shownAs names) ↔ ∃ last ∈ names.getLast?, EndsInSpace last := by
  cases names using reverseRecOn with
  | nil => simp [EndsInSpace, shownAs, Segments.join, show isSpace slash = false by decide]
  | append_singleton names last =>
    have present := (valid last (by simp)).1
    simp [EndsInSpace, shownAs_getLast? present]

theorem trimSpace_shownAs (plain : ¬ EndsInSpace (shownAs names)) : trimSpace (shownAs names) = shownAs names := by
  have start : (shownAs names).dropWhile isSpace = shownAs names :=
    dropWhile_cons_of_neg (by decide)
  rw [trimSpace, start, rdropWhile_eq_self_iff]
  intro present space
  exact plain ⟨_, getLast?_eq_getLast_of_ne_nil present, space⟩

theorem trimSpace_shownAs_shorter (blank : EndsInSpace (shownAs names)) :
    ∃ rest, trimSpace (shownAs names) = slash :: rest ∧ rest.length + 1 < (shownAs names).length := by
  have start : (shownAs names).dropWhile isSpace = shownAs names :=
    dropWhile_cons_of_neg (by decide)
  have front : (shownAs names).rdropWhile isSpace <+: shownAs names := rdropWhile_prefix isSpace _
  have changed : (shownAs names).rdropWhile isSpace ≠ shownAs names := by
    obtain ⟨c, last, space⟩ := blank
    intro same
    have kept := rdropWhile_eq_self_iff.mp same (cons_ne_nil _ _)
    exact kept (Option.some.inj last ▸ space)
  have shorter := lt_of_le_of_ne front.length_le fun same => changed (front.eq_of_length same)
  have solid : (shownAs names).rdropWhile isSpace ≠ [] := by
    intro none
    have all := rdropWhile_eq_nil_iff.mp none slash mem_cons_self
    revert all
    decide
  obtain ⟨c, rest, split⟩ := exists_cons_of_ne_nil solid
  rw [split] at front shorter
  obtain ⟨rfl, -⟩ := cons_prefix_cons.mp front
  exact ⟨rest, by rw [trimSpace, start, split], shorter⟩

theorem shownAs_length_le (rest : Bytes) : (shownAs (named (slash :: rest))).length ≤ rest.length + 1 := by
  have behind : (shownAs (named (slash :: rest))).length ≤
      max 1 ((named (slash :: rest)).flatMap (slash :: ·)).length := by
    cases named (slash :: rest) <;> simp [Segments.join]
  have kept : ((named (slash :: rest)).flatMap (slash :: ·)).length ≤
      ((Segments.segments slash rest).flatMap (slash :: ·)).length := by
    exact (filter_sublist.flatMap _).length_le
  have whole := Segments.segments_flatMap_length slash rest
  omega

end Names

section Stability

variable {storage : FileStorage} {virtualPath : Bytes}

theorem resolvePath_served (served : Served storage virtualPath pathMax (some pathMax)) :
    resolvePath storage virtualPath pathMax (some pathMax) =
      .ok (below storage (named (workingCopy virtualPath)), some (shownAs (named (workingCopy virtualPath)))) := by
  obtain ⟨_, shown, result⟩ | ⟨refused, _⟩ := resolvePath_cases storage virtualPath pathMax (some pathMax)
  · have written := resolvePath_shown result
    rw [writeDisplay_whole served.shows] at written
    rw [result, ← Except.ok.inj written]
  · exact absurd served refused

theorem workingCopy_shownAs (served : Served storage virtualPath pathMax (some pathMax)) :
    workingCopy (shownAs (named (workingCopy virtualPath))) =
      trimSpace (shownAs (named (workingCopy virtualPath))) := by
  have joins := served.joins
  exact workingCopy_short (by simpa [shownAs] using joins)

/-- A shown name that does not end in white space passes the same checks. -/
theorem Served.again (served : Served storage virtualPath pathMax (some pathMax))
    (plain : ¬ EndsInSpace (shownAs (named (workingCopy virtualPath)))) :
    Served storage (shownAs (named (workingCopy virtualPath))) pathMax (some pathMax) := by
  have copy : workingCopy (shownAs (named (workingCopy virtualPath))) = shownAs (named (workingCopy virtualPath)) := by
    rw [workingCopy_shownAs served, trimSpace_shownAs plain]
  constructor
  case ready => exact served.ready
  case present => simp [copy]
  case proper =>
    rw [copy, components_shownAs named_valid]
    intro part member
    exact served.proper part (mem_of_mem_filter member)
  case joins => simpa [copy, named_shownAs] using served.joins
  case fits => simpa [copy, named_shownAs] using served.fits
  case shows => simpa [copy, named_shownAs] using served.shows

/-- A shown name is stable exactly when the last name of the path does not end in white space. -/
theorem resolvePath_stable_iff (storage : FileStorage) (virtualPath : Bytes) :
    Stable storage virtualPath ↔
      (Served storage virtualPath pathMax (some pathMax) →
        ∀ last ∈ (named (workingCopy virtualPath)).getLast?, ¬ EndsInSpace last) := by
  constructor
  · intro stable served last final blank
    have ends := (shownAs_endsInSpace named_valid).mpr ⟨last, final, blank⟩
    have second := stable _ _ (resolvePath_served served)
    have shown := resolvePath_shown second
    obtain ⟨rest, cut, shorter⟩ := trimSpace_shownAs_shorter ends
    rw [workingCopy_shownAs served, cut] at shown
    -- The second display text is at most as long as the trimmed first one.
    have short : (shownAs (named (slash :: rest))).length < (shownAs (named (workingCopy virtualPath))).length :=
      lt_of_le_of_lt (shownAs_length_le rest) shorter
    have fits : DisplayFits (some pathMax) (shownAs (named (slash :: rest))) := by
      intro displayLen known
      exact (served.shows displayLen known).imp_right fun first => (Int.ofNat_lt.mpr short).trans first
    rw [writeDisplay_whole fits] at shown
    rw [Option.some.inj (Except.ok.inj shown)] at short
    exact lt_irrefl _ short
  · intro plain resolved display first
    obtain ⟨served, _⟩ | ⟨_, refused⟩ := resolvePath_cases storage virtualPath pathMax (some pathMax)
    · have solid : ¬ EndsInSpace (shownAs (named (workingCopy virtualPath))) := by
        rw [shownAs_endsInSpace named_valid]
        rintro ⟨last, final, blank⟩
        exact plain served last final blank
      rw [resolvePath_served served] at first
      cases first
      rw [resolvePath_served (served.again solid), workingCopy_shownAs served, trimSpace_shownAs solid, named_shownAs]
    · rw [refused] at first
      cases first

/-- The blank in front of the dropped dot ends the shown name. The next pass trims it and finds another file. -/
theorem resolvePath_blank_name : ¬ Stable ⟨true, .print (str "/srv")⟩ (str "a /.") := by
  intro stable
  have second := stable (str "/srv/a ") (str "/a ") (by decide)
  revert second
  decide

end Stability

end SshChatter.FileTransfer
