import SshChatter.UserData.SaveInvariant

namespace SshChatter.ConcurrentSave
open CString Inodes Function

section Steps

variable {callers : Callers} {files : Files FileName UInt8} {state state' : State} {who : Bool}

theorem createBackup_spec (files : Files FileName UInt8) (answer : Answer) :
    (createBackup files answer).names .path = files.names .path ∧
      (createBackup files answer).names .temp = files.names .temp ∧
      FilesKept files (createBackup files answer) := by
  unfold createBackup
  split
  · exact ⟨rfl, rfl, le_refl _, fun inode _ notBackup => ⟨rfl, notBackup⟩⟩
  next content _ =>
    have different {inode : Nat} (created : inode < files.next) (notBackup : files.names .backup ≠ some inode) :
        inode ≠ (files.openTruncate .backup).1 := by
      intro same
      rcases files.openTruncate_inode .backup with found | new
      · exact notBackup (same ▸ found)
      · omega
    have contents {inode : Nat} (other : inode ≠ (files.openTruncate .backup).1) :
        ((files.openTruncate .backup).2.writeAt (files.openTruncate .backup).1 0 content).contents inode =
          files.contents inode :=
      (update_of_ne other _ _).trans (files.openTruncate_contents_of_ne .backup other)
    cases answer with
    | done =>
      refine ⟨files.openTruncate_names_of_ne .backup (by decide),
        files.openTruncate_names_of_ne .backup (by decide), (files.openTruncate_next .backup).2, ?_⟩
      intro inode created notBackup
      refine ⟨contents (different created notBackup), ?_⟩
      show (files.openTruncate .backup).2.names .backup ≠ some inode
      rw [files.openTruncate_names]
      exact fun same => different created notBackup (Option.some.inj same).symm
    | failed =>
      refine ⟨files.openTruncate_names_of_ne .backup (by decide),
        files.openTruncate_names_of_ne .backup (by decide), (files.openTruncate_next .backup).2, ?_⟩
      intro inode created notBackup
      exact ⟨contents (different created notBackup), by simp [Files.unlink]⟩

theorem FilesKept.refl (files : Files FileName UInt8) : FilesKept files files :=
  ⟨le_refl _, fun _ _ notBackup => ⟨rfl, notBackup⟩⟩

theorem FilesKept.unlink (files : Files FileName UInt8) : FilesKept files (files.unlink .temp) := by
  refine ⟨le_refl _, fun inode _ notBackup => ⟨rfl, ?_⟩⟩
  exact notBackup

theorem FilesKept.rename {files renamed : Files FileName UInt8} (moves : files.rename .temp .path = some renamed) :
    FilesKept files renamed := by
  obtain ⟨moved, _, names, contents, next⟩ := Files.rename_some FileName.path moves
  rw [FilesKept, names, contents, next]
  refine ⟨le_refl _, fun inode _ notBackup => ⟨rfl, ?_⟩⟩
  exact notBackup

theorem closeFile_other (locks : Nat → Option Bool) (who : Bool) (closed inode : Nat)
    (held : locks inode = some (!who)) : closeFile locks who closed inode = some (!who) := by
  unfold closeFile
  split
  next mine =>
    rw [update_of_ne, held]
    intro same
    rw [same, mine] at held
    exact absurd held (by cases who <;> decide)
  next => exact held

variable {locks : Nat → Option Bool}

/-- A call may give up or go on while no file changes. -/
theorem Advances.enter {phase : Phase} (hasFile : phase.hasFile → (state.calls who).phase.hasFile)
    (holds : phase.holdsLock → locks (state.calls who).inode = some who)
    (kept : ∀ inode, state.locks inode = some (!who) → locks inode = some (!who))
    (fits : OffsetFits callers { state.calls who with phase := phase })
    (opened : phase.opened = (state.calls who).phase.opened) :
    Advances callers state ({ state with locks := locks }.enter who phase) who phase where
  calls := rfl
  hasFile := hasFile
  holds := holds
  locks := kept
  fits := fits
  kept := FilesKept.refl _
  temp := .inr ⟨rfl, opened⟩
  path := fun _ found => .inl found

/-- A call without an open file and without a rename may have written any number of bytes. -/
theorem OffsetFits.outside {call : Call} (outside : call.phase.hasFile = false)
    (renames : call.phase ≠ .renameTemp) : OffsetFits callers call := by
  have none {phase : Phase} (hasFile : phase.hasFile) : call.phase ≠ phase := by
    intro same
    rw [same, hasFile] at outside
    exact absurd outside (by decide)
  constructor
  · rintro (waits | copies)
    · exact absurd waits (none rfl)
    · exact absurd copies (none rfl)
  · exact fun writes => absurd writes (none rfl)
  · rintro (syncs | closes | moves)
    · exact absurd syncs (none rfl)
    · exact absurd closes (none rfl)
    · exact absurd moves renames

/-- The temporary name is removed by a call that has no file open afterwards. -/
theorem Advances.unlink {phase : Phase} (hasFile : phase.hasFile = false) (holds : phase.holdsLock = false)
    (closed : phase.opened = false) (renames : phase ≠ .renameTemp) :
    Advances callers state ({ state with files := state.files.unlink .temp }.enter who phase) who phase where
  calls := rfl
  hasFile := fun open' => absurd (hasFile.symm.trans open') (by decide)
  holds := fun lock => absurd (holds.symm.trans lock) (by decide)
  locks := fun _ kept => kept
  fits := .outside hasFile renames
  kept := .unlink _
  temp := by
    refine .inl ⟨?_, closed⟩
    show update state.files.names .temp none .temp = none
    exact update_self ..
  path := by
    intro inode found
    have same : update state.files.names FileName.temp none .path = some inode := found
    exact .inl same

theorem Advances.rename {renamed : Files FileName UInt8} (phase : (state.calls who).phase = .renameTemp)
    (settled : TempSettled callers who state) (moves : state.files.rename .temp .path = some renamed) :
    Advances callers state ({ state with files := renamed }.enter who (.finished true)) who (.finished true) where
  calls := rfl
  hasFile := fun hasFile => absurd hasFile (by simp [Phase.hasFile])
  holds := fun holds => absurd holds (by simp [Phase.holdsLock])
  locks := fun _ kept => kept
  fits := .outside rfl (by simp)
  kept := .rename moves
  temp := by
    obtain ⟨moved, _, names, _⟩ := Files.rename_some FileName.path moves
    refine .inl ⟨?_, rfl⟩
    show renamed.names .temp = none
    rw [names, update_of_ne (by decide), update_self]
  path := by
    obtain ⟨moved, named, names, _⟩ := Files.rename_some FileName.path moves
    intro inode found
    have same : renamed.names .path = some inode := found
    rw [names] at same
    rw [← Option.some.inj same]
    exact .inr ⟨named, phase, settled moved named⟩

theorem Advances.copy {answer : Answer} (phase : (state.calls who).phase = .copyBackup)
    (held : state.locks (state.calls who).inode = some who) (zero : (state.calls who).offset = 0) :
    Advances callers state ({ state with files := createBackup state.files answer }.enter who
      (afterWrite callers (state.calls who).offset)) who (afterWrite callers (state.calls who).offset) where
  calls := rfl
  hasFile := fun _ => by rw [phase]; rfl
  holds := fun _ => held
  locks := fun _ kept => kept
  fits := afterWrite_fits (by omega)
  kept := (createBackup_spec state.files answer).2.2
  temp := by
    refine .inr ⟨(createBackup_spec state.files answer).2.1, ?_⟩
    rw [phase]
    exact afterWrite_opened callers _
  path := by
    intro inode found
    have same : (createBackup state.files answer).names .path = some inode := found
    rw [(createBackup_spec state.files answer).1] at same
    exact .inl same

/-- The lock of the open file is taken when nobody holds it. -/
theorem Advances.lock (phase : (state.calls who).phase = .lockTemp)
    (free : state.locks (state.calls who).inode = none) (zero : (state.calls who).offset = 0) :
    Advances callers state ({ state with
      locks := update state.locks (state.calls who).inode (some who) }.enter who .copyBackup)
      who .copyBackup := by
  apply Advances.enter
  · exact fun _ => by rw [phase]; rfl
  · exact fun _ => update_self ..
  · intro inode held
    rw [update_of_ne, held]
    intro same
    rw [same, free] at held
    exact absurd held (by simp)
  · exact ⟨fun _ => zero, by simp, by simp⟩
  · rw [phase]
    rfl

/-- A call that gives up keeps its inode. -/
theorem Advances.abandon (hasFile : (state.calls who).phase.hasFile) :
    Advances callers state (state.enter who .abandonTemp) who .abandonTemp := by
  apply Advances.enter
  · exact fun _ => hasFile
  · exact fun holds => absurd holds (by decide)
  · exact fun _ kept => kept
  · exact .outside rfl (by simp)
  · exact (opened_of_hasFile hasFile).symm

/-- A call that gives up removes the temporary name next. -/
theorem Advances.discard (opened : (state.calls who).phase.opened)
    (kept : ∀ inode, state.locks inode = some (!who) → locks inode = some (!who)) :
    Advances callers state ({ state with locks := locks }.enter who .discardTemp) who .discardTemp := by
  apply Advances.enter
  · exact fun hasFile => absurd hasFile (by decide)
  · exact fun holds => absurd holds (by decide)
  · exact kept
  · exact .outside rfl (by simp)
  · exact opened.symm

/-- A call that cannot open the file returns. -/
theorem Advances.refuse (phase : (state.calls who).phase = .openTemp) :
    Advances callers state (state.enter who (.finished false)) who (.finished false) := by
  apply Advances.enter
  · exact fun hasFile => absurd hasFile (by decide)
  · exact fun holds => absurd holds (by decide)
  · exact fun _ kept => kept
  · exact .outside rfl (by simp)
  · rw [phase]
    rfl

theorem Advances.sync (phase : (state.calls who).phase = .syncTemp)
    (held : state.locks (state.calls who).inode = some who) (whole : (state.calls who).offset = callers.size) :
    Advances callers state (state.enter who .closeTemp) who .closeTemp := by
  apply Advances.enter
  · exact fun _ => by rw [phase]; rfl
  · exact fun _ => held
  · exact fun _ kept => kept
  · exact ⟨by simp, by simp, fun _ => whole⟩
  · rw [phase]
    rfl

theorem Advances.close (phase : (state.calls who).phase = .closeTemp)
    (whole : (state.calls who).offset = callers.size) :
    Advances callers state ({ state with
      locks := closeFile state.locks who (state.calls who).inode }.enter who .renameTemp) who .renameTemp := by
  apply Advances.enter
  · exact fun hasFile => absurd hasFile (by decide)
  · exact fun holds => absurd holds (by decide)
  · exact closeFile_other state.locks who (state.calls who).inode
  · exact ⟨by simp, by simp, fun _ => whole⟩
  · rw [phase]
    rfl

theorem Invariant.step (invariant : Invariant callers files state) {answer : Answer}
    (settled : (state.calls who).phase = .renameTemp → TempSettled callers who state)
    (stepped : step callers who answer state = some state') : Invariant callers files state' := by
  have fits := invariant.offset who
  have held := invariant.lock who
  have closes := closeFile_other state.locks who (state.calls who).inode
  unfold ConcurrentSave.step at stepped
  dsimp only at stepped
  cases phase : (state.calls who).phase with
  | unlinkTemp =>
    rw [phase] at stepped
    rw [← Option.some.inj stepped]
    exact invariant.advance (.unlink rfl rfl rfl (by simp))
  | openTemp =>
    rw [phase] at stepped
    cases answer with
    | done =>
      rw [← Option.some.inj stepped]
      exact invariant.openTemp phase rfl rfl rfl
    | failed =>
      rw [← Option.some.inj stepped]
      exact invariant.advance (.refuse phase)
  | lockTemp =>
    rw [phase] at stepped
    cases answer with
    | done =>
      dsimp only at stepped
      split at stepped
      next free =>
        rw [← Option.some.inj stepped]
        exact invariant.advance (.lock phase free (fits.zero (.inl phase)))
      next => exact absurd stepped (by simp)
    | failed =>
      rw [← Option.some.inj stepped]
      exact invariant.advance (.abandon (by rw [phase]; rfl))
  | copyBackup =>
    rw [phase] at stepped
    rw [← Option.some.inj stepped]
    exact invariant.advance (.copy phase (held (by rw [phase]; rfl)) (fits.zero (.inr phase)))
  | writeTemp =>
    rw [phase] at stepped
    cases answer with
    | done =>
      dsimp only at stepped
      split at stepped
      next room =>
        rw [← Option.some.inj stepped]
        exact invariant.writeTemp phase room.2 rfl rfl rfl
      next => exact absurd stepped (by simp)
    | failed =>
      rw [← Option.some.inj stepped]
      exact invariant.advance (.abandon (by rw [phase]; rfl))
  | syncTemp =>
    rw [phase] at stepped
    cases answer with
    | done =>
      rw [← Option.some.inj stepped]
      exact invariant.advance (.sync phase (held (by rw [phase]; rfl)) (fits.whole (.inl phase)))
    | failed =>
      rw [← Option.some.inj stepped]
      exact invariant.advance (.abandon (by rw [phase]; rfl))
  | closeTemp =>
    rw [phase] at stepped
    cases answer with
    | done =>
      rw [← Option.some.inj stepped]
      exact invariant.advance (.close phase (fits.whole (.inr (.inl phase))))
    | failed =>
      rw [← Option.some.inj stepped]
      exact invariant.advance (.discard (by rw [phase]; rfl) closes)
  | abandonTemp =>
    rw [phase] at stepped
    rw [← Option.some.inj stepped]
    exact invariant.advance (.discard (by rw [phase]; rfl) closes)
  | renameTemp =>
    rw [phase] at stepped
    have discards : Advances callers state (state.enter who .discardTemp) who .discardTemp :=
      .discard (by rw [phase]; rfl) fun _ kept => kept
    cases answer with
    | done =>
      dsimp only at stepped
      split at stepped
      next renamed moves =>
        rw [← Option.some.inj stepped]
        exact invariant.advance (.rename phase (settled phase) moves)
      next =>
        rw [← Option.some.inj stepped]
        exact invariant.advance discards
    | failed =>
      rw [← Option.some.inj stepped]
      exact invariant.advance discards
  | discardTemp =>
    rw [phase] at stepped
    rw [← Option.some.inj stepped]
    exact invariant.advance (.unlink rfl rfl rfl (by simp))
  | finished =>
    rw [phase] at stepped
    exact absurd stepped (by simp)

theorem Run.invariant (run : Run callers (TempSettled callers) files state) : Invariant callers files state := by
  induction run with
  | start => exact .initial callers files
  | step who answer _ settled stepped ih => exact ih.step settled stepped

/-- The record at the path is intact in every state of such a run. -/
theorem settled_run_intact (run : Run callers (TempSettled callers) files state) :
    Intact callers files state := by
  intro content found
  obtain ⟨inode, named, rfl⟩ := Option.map_eq_some_iff.mp found
  exact (run.invariant.path inode named).1

end Steps

theorem Run.follow {callers : Callers} {mayRename : Bool → State → Prop} [DecidableRel mayRename]
    {files : Files FileName UInt8} {state state' : State} (run : Run callers mayRename files state)
    (schedule : List (Bool × Answer)) (followed : follow callers mayRename schedule state = some state') :
    Run callers mayRename files state' := by
  induction schedule generalizing state with
  | nil =>
    rw [← Option.some.inj followed]
    exact run
  | cons operation rest ih =>
    unfold ConcurrentSave.follow at followed
    split at followed
    next admitted =>
      obtain ⟨middle, stepped, remaining⟩ := Option.bind_eq_some_iff.mp followed
      exact ih (.step operation.1 operation.2 run admitted stepped) remaining
    next => exact absurd followed (by simp)

def noFiles : Files FileName UInt8 := ⟨fun _ => none, fun _ => [], 0, by simp, by simp⟩

def twoRecords : Callers := ⟨2, fun who => if who then [3, 4] else [1, 2], by decide⟩

/-- The operations of one call that writes its record in two pieces. -/
def wholeSave (who : Bool) : List (Bool × Answer) :=
  List.replicate 9 (who, .done 1)

/-- One call after the other leaves the record of the second one. -/
theorem settled_run_intact_sequential : ∃ state, Run twoRecords (TempSettled twoRecords) noFiles state ∧
    state.files.read .path = some [3, 4] ∧ Intact twoRecords noFiles state := by
  have ends : (follow twoRecords (TempSettled twoRecords) (wholeSave false ++ wholeSave true)
      (.initial noFiles)).bind (fun state => state.files.read .path) = some [3, 4] := by decide +kernel
  obtain ⟨state, followed, content⟩ := Option.bind_eq_some_iff.mp ends
  have run := Run.start.follow _ followed
  exact ⟨state, run, content, settled_run_intact run⟩

/-- A call renames the file that the other call has just created in the place of its own. -/
theorem interleaved_saves_tear : ¬ ∀ callers files state, Run callers (fun _ _ => True) files state →
    Intact callers files state := by
  intro intact
  -- The first call has closed its file when the second one unlinks it and opens a new one.
  have ends : (follow twoRecords (fun _ _ => True)
      (List.replicate 8 (false, .done 1) ++ [(true, .done 0), (true, .done 0), (false, .done 0)])
      (.initial noFiles)).bind (fun state => state.files.read .path) = some [] := by decide +kernel
  obtain ⟨state, followed, content⟩ := Option.bind_eq_some_iff.mp ends
  rcases intact _ _ state (Run.start.follow _ followed) [] content with initial | ⟨who, written⟩
  · exact absurd initial (by decide)
  · exact absurd written (by revert who; decide)

end SshChatter.ConcurrentSave
