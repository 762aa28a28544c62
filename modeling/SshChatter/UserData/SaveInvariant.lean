import SshChatter.UserData.ConcurrentSave

namespace SshChatter.ConcurrentSave
open CString Inodes Function List

def Phase.hasFile : Phase → Bool
  | .lockTemp | .copyBackup | .writeTemp | .syncTemp | .closeTemp => true
  | _ => false

def Phase.holdsLock : Phase → Bool
  | .copyBackup | .writeTemp | .syncTemp | .closeTemp => true
  | _ => false

/-- The content of an open file begins with what the call wrote, unless the other call has truncated it and
has not written its own record. A file that lost its name may hold anything. -/
structure OpenFile (callers : Callers) (state : State) (who : Bool) : Prop where
  created : (state.calls who).inode < state.files.next
  notBackup : state.files.names .backup ≠ some (state.calls who).inode
  short : (state.files.contents (state.calls who).inode).length ≤ callers.size
  begun : (state.files.contents (state.calls who).inode).take (state.calls who).offset =
      (callers.record who).take (state.calls who).offset ∨
    Owes callers state (!who) (state.calls who).inode ∨
    state.files.names .temp ≠ some (state.calls who).inode

structure OffsetFits (callers : Callers) (call : Call) : Prop where
  zero : call.phase = .lockTemp ∨ call.phase = .copyBackup → call.offset = 0
  partway : call.phase = .writeTemp → call.offset < callers.size
  whole : call.phase = .syncTemp ∨ call.phase = .closeTemp ∨ call.phase = .renameTemp →
    call.offset = callers.size

def Complete (callers : Callers) (files : Files FileName UInt8) (content : Bytes) : Prop :=
  files.read .path = some content ∨ ∃ who, content = callers.record who

/-- The record at the path is complete and nobody writes to it. The temporary file is complete, or a call
has not written all of it, or neither call is under way. -/
structure Invariant (callers : Callers) (files : Files FileName UInt8) (state : State) : Prop where
  path : ∀ inode, state.files.names .path = some inode →
    Complete callers files (state.files.contents inode) ∧ ∀ who, ¬ Owes callers state who inode
  temp : ∀ inode, state.files.names .temp = some inode →
    (∀ who, (state.calls who).phase.opened = false) ∨ (∃ who, Owes callers state who inode) ∨
      Complete callers files (state.files.contents inode)
  lock : ∀ who, (state.calls who).phase.holdsLock → state.locks (state.calls who).inode = some who
  file : ∀ who, (state.calls who).phase.hasFile → OpenFile callers state who
  offset : ∀ who, OffsetFits callers (state.calls who)

section Callers

variable {callers : Callers} {files : Files FileName UInt8} {state : State} {who : Bool}

theorem both {property : Bool → Prop} (who : Bool) (self : property who) (other : property (!who)) :
    ∀ caller, property caller := by
  intro caller
  cases who <;> cases caller <;> assumption

theorem calls_other (calls : Bool → Call) (who : Bool) (call : Call) :
    update calls who call (!who) = calls (!who) :=
  update_of_ne (by cases who <;> decide) _ _

theorem owes_congr {state' : State} {caller : Bool} (same : state'.calls caller = state.calls caller)
    (inode : Nat) : Owes callers state' caller inode ↔ Owes callers state caller inode := by
  rw [Owes, Owes, same]

theorem opened_of_hasFile {phase : Phase} (hasFile : phase.hasFile) : phase.opened := by
  cases phase <;> first | rfl | exact absurd hasFile (by simp [Phase.hasFile])

theorem lockTemp_of_hasFile {phase : Phase} (hasFile : phase.hasFile) (noLock : phase.holdsLock = false) :
    phase = .lockTemp := by
  cases phase <;> simp_all [Phase.hasFile, Phase.holdsLock]

/-- Two calls with one open file: the one that does not hold the lock has written nothing. -/
theorem Invariant.waiting (invariant : Invariant callers files state)
    (hasFile : (state.calls (!who)).phase.hasFile)
    (held : state.locks (state.calls (!who)).inode = some who) : (state.calls (!who)).offset = 0 := by
  have noLock : (state.calls (!who)).phase.holdsLock = false := by
    by_contra holds
    have mine := invariant.lock (!who) (by simpa using holds)
    rw [held] at mine
    exact absurd mine (by cases who <;> decide)
  exact (invariant.offset (!who)).zero (.inl (lockTemp_of_hasFile hasFile noLock))

theorem Invariant.initial (callers : Callers) (files : Files FileName UInt8) :
    Invariant callers files (.initial files) := by
  constructor
  · intro inode named
    have complete : files.read .path = some (files.contents inode) :=
      Option.map_eq_some_iff.mpr ⟨inode, named, rfl⟩
    exact ⟨.inl complete, fun who debt => absurd debt.1 (by simp [State.initial, Phase.opened])⟩
  · exact fun _ _ => .inl fun _ => rfl
  · intro who holds
    exact absurd holds (by simp [State.initial, Phase.holdsLock])
  · intro who hasFile
    exact absurd hasFile (by simp [State.initial, Phase.hasFile])
  · intro who
    exact ⟨by simp [State.initial], by simp [State.initial], by simp [State.initial]⟩

end Callers

section Advance

variable {callers : Callers} {files : Files FileName UInt8} {state state' : State} {who : Bool} {phase : Phase}

def FilesKept (before after : Files FileName UInt8) : Prop :=
  before.next ≤ after.next ∧ ∀ inode < before.next, before.names .backup ≠ some inode →
    after.contents inode = before.contents inode ∧ after.names .backup ≠ some inode

theorem FilesKept.named {before after : Files FileName UInt8} (kept : FilesKept before after) {name : FileName}
    (different : name ≠ .backup) {inode : Nat} (found : before.names name = some inode) :
    after.contents inode = before.contents inode := by
  have apart : before.names .backup ≠ some inode := fun backup =>
    different (before.single name .backup inode found backup)
  exact (kept.2 inode (before.created name inode found) apart).1

theorem OpenFile.keep {caller : Bool} (opened : OpenFile callers state caller)
    (inode : (state'.calls caller).inode = (state.calls caller).inode)
    (offset : (state'.calls caller).offset = (state.calls caller).offset)
    (kept : FilesKept state.files state'.files)
    (temp : state'.files.names .temp = none ∨ state'.files.names .temp = state.files.names .temp ∧
      (Owes callers state (!caller) (state.calls caller).inode →
        Owes callers state' (!caller) (state.calls caller).inode)) : OpenFile callers state' caller := by
  obtain ⟨contents, backup⟩ := kept.2 _ opened.created opened.notBackup
  have created := opened.created.trans_le kept.1
  constructor
  · rw [inode]
    exact created
  · rw [inode]
    exact backup
  · rw [inode, contents]
    exact opened.short
  · rw [inode, offset, contents]
    rcases temp with none | ⟨same, debt⟩
    · exact .inr (.inr (by rw [none]; simp))
    · rcases opened.begun with begun | owes | unnamed
      · exact .inl begun
      · exact .inr (.inl (debt owes))
      · exact .inr (.inr (by rw [same]; exact unnamed))

/-- What a step may do that neither opens the temporary file nor writes to it. A new record at the path is
the temporary file of a call that has written all of its own record. -/
structure Advances (callers : Callers) (state state' : State) (who : Bool) (phase : Phase) : Prop where
  calls : state'.calls = update state.calls who { state.calls who with phase := phase }
  hasFile : phase.hasFile → (state.calls who).phase.hasFile
  holds : phase.holdsLock → state'.locks (state.calls who).inode = some who
  locks : ∀ inode, state.locks inode = some (!who) → state'.locks inode = some (!who)
  fits : OffsetFits callers { state.calls who with phase := phase }
  kept : FilesKept state.files state'.files
  temp : state'.files.names .temp = none ∧ phase.opened = false ∨
    state'.files.names .temp = state.files.names .temp ∧ phase.opened = (state.calls who).phase.opened
  path : ∀ inode, state'.files.names .path = some inode → state.files.names .path = some inode ∨
    state.files.names .temp = some inode ∧ (state.calls who).phase = .renameTemp ∧
      ¬ Owes callers state (!who) inode

theorem Advances.owes_before (advances : Advances callers state state' who phase) (caller : Bool) (inode : Nat)
    (debt : Owes callers state' caller inode) : Owes callers state caller inode := by
  revert caller
  refine both who ?_ ?_
  · rw [Owes, advances.calls, update_self]
    rintro ⟨opened, rest⟩
    rcases advances.temp with ⟨_, closed⟩ | ⟨_, same⟩
    · exact absurd (opened.symm.trans closed) (by decide)
    · exact ⟨same.symm.trans opened, rest⟩
  · exact (owes_congr (by rw [advances.calls, calls_other]) inode).mp

theorem Advances.owes_after (advances : Advances callers state state' who phase)
    (same : phase.opened = (state.calls who).phase.opened) (caller : Bool) (inode : Nat)
    (debt : Owes callers state caller inode) : Owes callers state' caller inode := by
  revert caller
  refine both who ?_ ?_
  · rw [Owes, Owes, advances.calls, update_self]
    rintro ⟨opened, rest⟩
    exact ⟨same.trans opened, rest⟩
  · exact (owes_congr (by rw [advances.calls, calls_other]) inode).mpr

/-- A renamed temporary file is complete, and nobody has to write to it. -/
theorem Invariant.settled (invariant : Invariant callers files state)
    (phase : (state.calls who).phase = .renameTemp) {inode : Nat}
    (named : state.files.names .temp = some inode) (settled : ¬ Owes callers state (!who) inode) :
    Complete callers files (state.files.contents inode) ∧ ∀ caller, ¬ Owes callers state caller inode := by
  have whole := (invariant.offset who).whole (.inr (.inr phase))
  have free : ∀ caller, ¬ Owes callers state caller inode := by
    refine both who (fun debt => ?_) settled
    have short := debt.2.2
    omega
  refine ⟨?_, free⟩
  rcases invariant.temp inode named with idle | ⟨caller, debt⟩ | complete
  · have opened := idle who
    rw [phase] at opened
    exact absurd opened (by decide)
  · exact absurd debt (free caller)
  · exact complete

/-- Such a step keeps the invariant. -/
theorem Invariant.advance (invariant : Invariant callers files state)
    (advances : Advances callers state state' who phase) : Invariant callers files state' := by
  have mine : state'.calls who = { state.calls who with phase := phase } := by
    rw [advances.calls, update_self]
  have other : state'.calls (!who) = state.calls (!who) := by rw [advances.calls, calls_other]
  have temp (caller : Bool) (inode : Nat) : state'.files.names .temp = none ∨
      state'.files.names .temp = state.files.names .temp ∧
        (Owes callers state caller inode → Owes callers state' caller inode) := by
    rcases advances.temp with ⟨none, _⟩ | ⟨same, opened⟩
    · exact .inl none
    · exact .inr ⟨same, advances.owes_after opened caller inode⟩
  constructor
  · intro inode named
    have before : Complete callers files (state.files.contents inode) ∧
        ∀ caller, ¬ Owes callers state caller inode := by
      rcases advances.path inode named with found | ⟨found, renames, settled⟩
      · exact invariant.path inode found
      · exact invariant.settled renames found settled
    have contents : state'.files.contents inode = state.files.contents inode := by
      rcases advances.path inode named with found | ⟨found, _⟩
      · exact advances.kept.named (by decide) found
      · exact advances.kept.named (by decide) found
    rw [contents]
    exact ⟨before.1, fun caller debt => before.2 caller (advances.owes_before caller inode debt)⟩
  · intro inode named
    rcases advances.temp with ⟨none, _⟩ | ⟨same, opened⟩
    · rw [none] at named
      exact absurd named (by simp)
    · rw [same] at named
      rw [advances.kept.named (by decide) named]
      rcases invariant.temp inode named with idle | ⟨caller, debt⟩ | complete
      · refine .inl (both who ?_ ?_)
        · rw [mine]
          exact opened.trans (idle who)
        · rw [other]
          exact idle (!who)
      · exact .inr (.inl ⟨caller, advances.owes_after opened caller inode debt⟩)
      · exact .inr (.inr complete)
  · refine both who ?_ ?_
    · rw [mine]
      exact advances.holds
    · rw [other]
      exact fun holds => advances.locks _ (invariant.lock (!who) holds)
  · refine both who ?_ ?_
    · rw [mine]
      intro hasFile
      exact (invariant.file who (advances.hasFile hasFile)).keep (by rw [mine]) (by rw [mine]) advances.kept
        (temp (!who) _)
    · rw [other]
      intro hasFile
      exact (invariant.file (!who) hasFile).keep (by rw [other]) (by rw [other]) advances.kept (temp (!!who) _)
  · refine both who ?_ ?_
    · rw [mine]
      exact advances.fits
    · rw [other]
      exact invariant.offset (!who)

end Advance

section Writing

variable {callers : Callers} {files : Files FileName UInt8} {state state' : State} {who : Bool}

/-- What a step may do that opens the temporary file or writes to it. It changes the content of the open file
only, which is not the record at the path. -/
structure Touches (callers : Callers) (state state' : State) (who : Bool) : Prop where
  other : state'.calls (!who) = state.calls (!who)
  locks : state'.locks = state.locks
  next : state.files.next ≤ state'.files.next
  names : ∀ name, name ≠ .temp → state'.files.names name = state.files.names name
  temp : state'.files.names .temp = some (state'.calls who).inode ∨
    state'.files.names .temp = state.files.names .temp ∧ (state.calls who).phase.opened
  contents : ∀ inode, inode ≠ (state'.calls who).inode →
    state'.files.contents inode = state.files.contents inode
  notPath : state.files.names .path ≠ some (state'.calls who).inode
  free : ∀ inode, inode ≠ (state'.calls who).inode → ¬ Owes callers state who inode

theorem Touches.owes_iff (touches : Touches callers state state' who) {inode : Nat}
    (different : inode ≠ (state'.calls who).inode) (caller : Bool) :
    Owes callers state' caller inode ↔ Owes callers state caller inode := by
  revert caller
  refine both who ?_ (owes_congr touches.other inode)
  constructor
  · exact fun debt => absurd debt.2.1.symm different
  · exact fun debt => absurd debt (touches.free inode different)

/-- The other call keeps its open file, also when it is the one that changes. -/
theorem Touches.otherFile (touches : Touches callers state state' who) (invariant : Invariant callers files state)
    (file : OpenFile callers state' who) (hasFile : (state.calls (!who)).phase.hasFile)
    (shared : (state.calls (!who)).inode = (state'.calls who).inode →
      (state'.files.contents (state.calls (!who)).inode).take (state.calls (!who)).offset =
          (callers.record (!who)).take (state.calls (!who)).offset ∨
        Owes callers state' who (state.calls (!who)).inode) : OpenFile callers state' (!who) := by
  have before := invariant.file (!who) hasFile
  constructor
  · rw [touches.other]
    exact before.created.trans_le touches.next
  · rw [touches.other, touches.names _ (by decide)]
    exact before.notBackup
  · rw [touches.other]
    by_cases same : (state.calls (!who)).inode = (state'.calls who).inode
    · rw [same]
      exact file.short
    · rw [touches.contents _ same]
      exact before.short
  · rw [touches.other, Bool.not_not]
    by_cases same : (state.calls (!who)).inode = (state'.calls who).inode
    · rcases shared same with begun | debt
      · exact .inl begun
      · exact .inr (.inl debt)
    · rw [touches.contents _ same, touches.owes_iff same]
      rcases touches.temp with named | ⟨kept, _⟩
      · rw [named]
        exact .inr (.inr fun equal => same (Option.some.inj equal).symm)
      · rw [kept]
        have begun := before.begun
        rw [Bool.not_not] at begun
        exact begun

/-- Such a step keeps the invariant when it leaves the open file complete or owed. -/
theorem Invariant.touch (invariant : Invariant callers files state) (touches : Touches callers state state' who)
    (file : OpenFile callers state' who) (fits : OffsetFits callers (state'.calls who))
    (holds : (state'.calls who).phase.holdsLock → state.locks (state'.calls who).inode = some who)
    (settles : state'.files.names .temp = some (state'.calls who).inode →
      (∃ caller, Owes callers state' caller (state'.calls who).inode) ∨
        Complete callers files (state'.files.contents (state'.calls who).inode))
    (shared : (state.calls (!who)).phase.hasFile →
      (state.calls (!who)).inode = (state'.calls who).inode →
      (state'.files.contents (state.calls (!who)).inode).take (state.calls (!who)).offset =
          (callers.record (!who)).take (state.calls (!who)).offset ∨
        Owes callers state' who (state.calls (!who)).inode) : Invariant callers files state' := by
  constructor
  · intro inode found
    rw [touches.names _ (by decide)] at found
    have different : inode ≠ (state'.calls who).inode := fun same => touches.notPath (same ▸ found)
    obtain ⟨complete, free⟩ := invariant.path inode found
    rw [touches.contents inode different]
    exact ⟨complete, fun caller debt => free caller ((touches.owes_iff different caller).mp debt)⟩
  · intro inode found
    by_cases same : inode = (state'.calls who).inode
    · rw [same] at found ⊢
      exact .inr (settles found)
    · rcases touches.temp with named | ⟨kept, opened⟩
      · rw [named] at found
        exact absurd (Option.some.inj found).symm same
      · rw [kept] at found
        rw [touches.contents inode same]
        rcases invariant.temp inode found with idle | ⟨caller, debt⟩ | complete
        · exact absurd ((idle who).symm.trans opened) (by decide)
        · exact .inr (.inl ⟨caller, (touches.owes_iff same caller).mpr debt⟩)
        · exact .inr (.inr complete)
  · rw [touches.locks]
    refine both who holds ?_
    rw [touches.other]
    exact invariant.lock (!who)
  · refine both who (fun _ => file) ?_
    rw [touches.other]
    exact fun hasFile => touches.otherFile invariant file hasFile (shared hasFile)
  · refine both who fits ?_
    rw [touches.other]
    exact invariant.offset (!who)

theorem OpenFile.settles (opened : OpenFile callers state who) (files : Files FileName UInt8)
    (underWay : (state.calls who).phase.opened) (fits : (state.calls who).offset ≤ callers.size)
    (named : state.files.names .temp = some (state.calls who).inode) :
    (∃ caller, Owes callers state caller (state.calls who).inode) ∨
      Complete callers files (state.files.contents (state.calls who).inode) := by
  by_cases rest : (state.calls who).offset < callers.size
  · exact .inl ⟨who, underWay, rfl, rest⟩
  · have whole : (state.calls who).offset = callers.size := by omega
    rcases opened.begun with begun | owes | unnamed
    · rw [whole, take_of_length_le opened.short,
        take_of_length_le (Nat.le_of_eq (callers.sized who))] at begun
      exact .inr (.inr ⟨who, begun⟩)
    · exact .inl ⟨!who, owes⟩
    · exact absurd named unnamed

theorem record_eq_nil (callers : Callers) (empty : ¬ 0 < callers.size) (who : Bool) : callers.record who = [] := by
  apply eq_nil_of_length_eq_zero
  rw [callers.sized]
  omega

/-- An opened file is empty, and its opener owes the whole record. -/
theorem Invariant.openTemp (invariant : Invariant callers files state)
    (phase : (state.calls who).phase = .openTemp)
    (calls : state'.calls = update state.calls who
      ⟨.lockTemp, (state.files.openTruncate .temp).1, 0⟩)
    (locks : state'.locks = state.locks) (opened : state'.files = (state.files.openTruncate .temp).2) :
    Invariant callers files state' := by
  have mine : state'.calls who = ⟨.lockTemp, (state.files.openTruncate .temp).1, 0⟩ := by
    rw [calls, update_self]
  have named : state'.files.names .temp = some (state'.calls who).inode := by
    rw [opened, state.files.openTruncate_names, mine]
  have empty : state'.files.contents (state'.calls who).inode = [] := by
    rw [mine, opened, state.files.openTruncate_contents]
  have apart {name : FileName} (different : name ≠ .temp) :
      state.files.names name ≠ some (state'.calls who).inode := by
    rw [mine]
    exact fun found => state.files.openTruncate_ne .temp different found rfl
  have touches : Touches callers state state' who := by
    constructor
    · rw [calls, calls_other]
    · exact locks
    · rw [opened]
      exact (state.files.openTruncate_next .temp).2
    · intro name different
      rw [opened, state.files.openTruncate_names_of_ne .temp different]
    · exact .inl named
    · intro inode different
      rw [mine] at different
      rw [opened, state.files.openTruncate_contents_of_ne .temp different]
    · exact apart (by decide)
    · intro inode _ owes
      rw [Owes, phase] at owes
      exact absurd owes.1 (by decide)
  have file : OpenFile callers state' who := by
    constructor
    · rw [mine, opened]
      exact (state.files.openTruncate_next .temp).1
    · rw [touches.names _ (by decide)]
      exact apart (by decide)
    · rw [empty]
      exact Nat.zero_le _
    · rw [mine]
      exact .inl rfl
  apply invariant.touch touches file
  · rw [mine]
    exact ⟨fun _ => rfl, by simp, by simp⟩
  · rw [mine]
    exact fun holds => absurd holds (by simp [Phase.holdsLock])
  · apply file.settles files
    · rw [mine]
      rfl
    · rw [mine]
      exact Nat.zero_le _
  · -- The open truncates the file of the other call, and this call still has to write it.
    intro _ same
    by_cases positive : 0 < callers.size
    · rw [same, Owes, mine]
      exact .inr ⟨rfl, rfl, positive⟩
    · rw [same, empty, record_eq_nil callers positive]
      exact .inl rfl

theorem afterWrite_fits {inode offset : Nat} (fits : offset ≤ callers.size) :
    OffsetFits callers ⟨afterWrite callers offset, inode, offset⟩ := by
  unfold afterWrite
  split
  next room => exact ⟨by simp, fun _ => room, by simp⟩
  next full =>
    have whole : offset = callers.size := by omega
    exact ⟨by simp, by simp, fun _ => whole⟩

theorem afterWrite_opened (callers : Callers) (offset : Nat) : (afterWrite callers offset).opened := by
  unfold afterWrite
  split <;> rfl

variable {count : Nat}

/-- A write changes the open file only. -/
theorem Invariant.write_touches (invariant : Invariant callers files state)
    (phase : (state.calls who).phase = .writeTemp)
    (calls : state'.calls = update state.calls who
      ⟨afterWrite callers ((state.calls who).offset + count), (state.calls who).inode,
        (state.calls who).offset + count⟩)
    (locks : state'.locks = state.locks) {piece : Bytes}
    (written : state'.files = state.files.writeAt (state.calls who).inode (state.calls who).offset piece) :
    Touches callers state state' who := by
  have inode : (state'.calls who).inode = (state.calls who).inode := by rw [calls, update_self]
  constructor
  · rw [calls, calls_other]
  · exact locks
  · rw [written]
    exact le_refl _
  · intro name _
    rw [written]
    rfl
  · rw [written, phase]
    exact .inr ⟨rfl, rfl⟩
  · intro other different
    rw [inode] at different
    rw [written]
    exact update_of_ne different _ _
  · rw [inode]
    intro found
    have room := (invariant.offset who).partway phase
    exact (invariant.path _ found).2 who ⟨by rw [phase]; rfl, rfl, room⟩
  · rw [inode]
    exact fun other different debt => different debt.2.1.symm

/-- A written piece continues the record. -/
theorem OpenFile.write (opened : OpenFile callers state who)
    (fits : (state.calls who).offset + count ≤ callers.size)
    (calls : state'.calls = update state.calls who
      ⟨afterWrite callers ((state.calls who).offset + count), (state.calls who).inode,
        (state.calls who).offset + count⟩)
    (written : state'.files = state.files.writeAt (state.calls who).inode (state.calls who).offset
      (((callers.record who).drop (state.calls who).offset).take count)) : OpenFile callers state' who := by
  have mine : state'.calls who = ⟨afterWrite callers ((state.calls who).offset + count),
      (state.calls who).inode, (state.calls who).offset + count⟩ := by rw [calls, update_self]
  have other : state'.calls (!who) = state.calls (!who) := by rw [calls, calls_other]
  have names : state'.files.names = state.files.names := by rw [written]; rfl
  have next : state'.files.next = state.files.next := by rw [written]; rfl
  have content : state'.files.contents (state.calls who).inode =
      splice (state.files.contents (state.calls who).inode) (state.calls who).offset
        (((callers.record who).drop (state.calls who).offset).take count) := by
    rw [written]
    exact update_self ..
  constructor
  · rw [mine, next]
    exact opened.created
  · rw [mine, names]
    exact opened.notBackup
  · rw [mine, content]
    apply splice_length_le opened.short
    rw [length_take]
    omega
  · rw [mine, owes_congr other, content, names]
    rcases opened.begun with begun | spoiled
    · exact .inl (splice_take (by rw [callers.sized]; exact fits) begun)
    · exact .inr spoiled

theorem Invariant.writeTemp (invariant : Invariant callers files state)
    (phase : (state.calls who).phase = .writeTemp)
    (fits : (state.calls who).offset + count ≤ callers.size)
    (calls : state'.calls = update state.calls who
      ⟨afterWrite callers ((state.calls who).offset + count), (state.calls who).inode,
        (state.calls who).offset + count⟩)
    (locks : state'.locks = state.locks)
    (written : state'.files = state.files.writeAt (state.calls who).inode (state.calls who).offset
      (((callers.record who).drop (state.calls who).offset).take count)) :
    Invariant callers files state' := by
  have mine : state'.calls who = ⟨afterWrite callers ((state.calls who).offset + count),
      (state.calls who).inode, (state.calls who).offset + count⟩ := by rw [calls, update_self]
  have held := invariant.lock who (by rw [phase]; rfl)
  have file := (invariant.file who (by rw [phase]; rfl)).write fits calls written
  apply invariant.touch (invariant.write_touches phase calls locks written) file
  · rw [mine]
    exact afterWrite_fits fits
  · rw [mine]
    exact fun _ => held
  · apply file.settles files
    · rw [mine]
      exact afterWrite_opened callers _
    · rw [mine]
      exact fits
  · -- This call holds the lock, so the other one has written nothing.
    intro hasFile same
    rw [mine] at same
    have nothing := invariant.waiting hasFile (by rw [same]; exact held)
    exact .inl (by rw [nothing, take_zero, take_zero])

end Writing

end SshChatter.ConcurrentSave
