import SshChatter.UserData.Store

namespace SshChatter.UserData
open CString Function List

section Frame

variable {store store' : Store} {base : Bytes}

/-- The stores hold the same files under the variants of a name. -/
structure Agree (base : Bytes) (store store' : Store) : Prop where
  records : ∀ index < variantLimit,
    store.records (variantName base index) = store'.records (variantName base index)
  backups : ∀ index < variantLimit,
    store.backups (variantName base index) = store'.backups (variantName base index)
  pictures : store.pictures base = store'.pictures base

theorem variantName_zero (base : Bytes) : variantName base 0 = base := if_pos rfl

theorem Agree.loadRaw (agree : Agree base store store') {index : Nat} (inside : index < variantLimit) :
    loadRaw store (variantName base index) = UserData.loadRaw store' (variantName base index) := by
  rw [UserData.loadRaw, UserData.loadRaw, agree.records index inside, agree.backups index inside]

theorem Agree.scanVariants (agree : Agree base store store') (username ip : Bytes) :
    scanVariants store username ip base = UserData.scanVariants store' username ip base := by
  apply foldl_ext
  intro scan index member
  have inside := mem_range.mp member
  rw [scanVariant, scanVariant, agree.loadRaw inside, agree.records index inside]

theorem Agree.pathFor (agree : Agree base store store') {username : Bytes}
    (sanitized : sanitizeUsername username = some base) (ip : Bytes) (create : Bool) :
    pathFor store username ip create = UserData.pathFor store' username ip create := by
  have plain : UserData.loadRaw store base = UserData.loadRaw store' base := by
    rw [← variantName_zero base]
    exact agree.loadRaw (by decide)
  simp only [UserData.pathFor, sanitized, isClaimed, plain, agree.scanVariants]

theorem Agree.load (agree : Agree base store store') {username : Bytes}
    (sanitized : sanitizeUsername username = some base) (ip : Bytes)
    (inside : ∀ name, UserData.pathFor store' username ip false = some name →
      ∃ index < variantLimit, name = variantName base index) :
    load store username ip = UserData.load store' username ip := by
  have read : readFor store username ip = readFor store' username ip := by
    rw [readFor, readFor, agree.pathFor sanitized]
    cases found : UserData.pathFor store' username ip false with
    | none => rfl
    | some name =>
      obtain ⟨index, bound, rfl⟩ := inside name found
      exact agree.loadRaw bound
  have overlay (record : Record) :
      profilePictureOverlay store username record = profilePictureOverlay store' username record := by
    simp only [profilePictureOverlay, sanitized, Option.bind_some, agree.pictures]
  simp only [UserData.load, read, overlay]

theorem scanVariant_cases (store : Store) (username ip base : Bytes) (scan : Scan) (index : Nat) :
    scanVariant store username ip base scan index = scan ∨
    scanVariant store username ip base scan index = { scan with ipWide := some index } ∨
    scanVariant store username ip base scan index = { scan with ipMatch := some index } ∨
    scanVariant store username ip base scan index = { scan with available := some index } := by
  unfold scanVariant
  repeat' split
  all_goals simp

/-- The indices of a search are those of variants. -/
def Scan.Inside (scan : Scan) : Prop :=
  ∀ index, scan.ipWide = some index ∨ scan.ipMatch = some index ∨ scan.available = some index →
    index < variantLimit

/-- The search keeps its indices inside. -/
theorem scanVariants_inside (store : Store) (username ip base : Bytes) :
    (scanVariants store username ip base).Inside := by
  have run (indices : List Nat) (bound : ∀ index ∈ indices, index < variantLimit) (scan : Scan)
      (inside : scan.Inside) : (indices.foldl (scanVariant store username ip base) scan).Inside := by
    induction indices generalizing scan with
    | nil => exact inside
    | cons index indices ih =>
      apply ih fun other member => bound other (mem_cons_of_mem _ member)
      have here := bound index mem_cons_self
      intro noted either
      rcases scanVariant_cases store username ip base scan index with same | same | same | same
      · rw [same] at either
        exact inside noted either
      all_goals
        rw [same] at either
        simp only [Option.some.injEq] at either
        have known := inside noted
        rcases either with first | second | third
        all_goals first
          | exact known (.inl first)
          | exact known (.inr (.inl second))
          | exact known (.inr (.inr third))
          | omega
  apply run _ fun index member => mem_range.mp member
  intro index either
  simp at either

theorem pathFor_variant {username ip name : Bytes} {create : Bool}
    (sanitized : sanitizeUsername username = some base)
    (found : pathFor store username ip create = some name) :
    ∃ index < variantLimit, name = variantName base index := by
  have inside := scanVariants_inside store username ip base
  have plain : ∃ index < variantLimit, base = variantName base index :=
    ⟨0, by decide, (variantName_zero base).symm⟩
  simp only [pathFor, sanitized] at found
  split at found
  · rw [← Option.some.inj found]
    exact plain
  · split at found
    · rw [← Option.some.inj found]
      exact plain
    · cases wide : (scanVariants store username ip base).ipWide with
      | some index =>
        rw [wide] at found
        exact ⟨index, inside index (.inl wide), (Option.some.inj found).symm⟩
      | none =>
        cases matched : (scanVariants store username ip base).ipMatch with
        | some index =>
          rw [wide, matched] at found
          exact ⟨index, inside index (.inr (.inl matched)), (Option.some.inj found).symm⟩
        | none =>
          rw [wide, matched] at found
          dsimp only at found
          split at found
          · obtain ⟨index, noted, same⟩ := Option.map_eq_some_iff.mp found
            exact ⟨index, inside index (.inr (.inr noted)), same.symm⟩
          · exact absurd found (by simp)

theorem savePath_variant {record : Record} {ip name : Bytes}
    (sanitized : sanitizeUsername record.username.text = some base)
    (found : savePath store record ip = some name) : ∃ index < variantLimit, name = variantName base index := by
  unfold savePath at found
  split at found
  · rw [sanitized] at found
    rw [← Option.some.inj found]
    exact ⟨0, by decide, (variantName_zero base).symm⟩
  · exact pathFor_variant sanitized found

end Frame

section Removal

variable {store : Store} {username base keepName : Bytes}

def Safe (store : Store) (username base keepName name : Bytes) : Prop :=
  name = keepName ∨ (∀ index < variantLimit, name ≠ variantName base index) ∨
    ∀ existing, loadRaw store name = some existing → existing.username.text ≠ username

variable {name : Bytes}

theorem removeIpVariant_safe (safe : Safe store username base keepName name) {index : Nat}
    (bound : index < variantLimit) :
    (removeIpVariant username base keepName store index).records name = store.records name := by
  unfold removeIpVariant
  dsimp only
  split
  · rfl
  next other =>
    split
    next found =>
      obtain ⟨existing, read, same⟩ := (Option.any_eq_true _ _).mp found
      apply update_of_ne
      intro equal
      rw [decide_eq_true_eq] at same
      rcases safe with kept | outside | stranger
      · exact other (equal.symm.trans kept)
      · exact outside index bound equal
      · exact stranger existing (equal ▸ read) same
    · rfl

theorem removeIpVariant_fields (username base keepName : Bytes) (store : Store) (index : Nat) :
    (removeIpVariant username base keepName store index).backups = store.backups ∧
      (removeIpVariant username base keepName store index).pictures = store.pictures := by
  unfold removeIpVariant
  dsimp only
  split
  · exact ⟨rfl, rfl⟩
  · split <;> exact ⟨rfl, rfl⟩

theorem removeIpVariant_some {index : Nat} {record : Record}
    (present : (removeIpVariant username base keepName store index).records name = some record) :
    store.records name = some record := by
  unfold removeIpVariant at present
  dsimp only at present
  split at present
  · exact present
  · split at present
    · dsimp only at present
      rw [update_apply] at present
      split at present
      · exact absurd present (by simp)
      · exact present
    · exact present

theorem removeIpVariants_safe (safe : Safe store username base keepName name) :
    (removeIpVariants store username base keepName).records name = store.records name := by
  have run (indices : List Nat) (bound : ∀ index ∈ indices, index < variantLimit) (current : Store)
      (safe : Safe current username base keepName name) :
      (indices.foldl (removeIpVariant username base keepName) current).records name = current.records name := by
    induction indices generalizing current with
    | nil => rfl
    | cons index indices ih =>
      have same := removeIpVariant_safe safe (bound index mem_cons_self)
      have fields := removeIpVariant_fields username base keepName current index
      rw [foldl_cons, ih (fun other member => bound other (mem_cons_of_mem _ member)), same]
      -- The turn changes nothing under this name, so the name is still safe.
      rw [Safe, loadRaw, same, fields.1]
      exact safe
  exact run _ (fun index member => mem_range.mp member) store safe

theorem removeIpVariants_fields (username base keepName : Bytes) (store : Store) :
    (removeIpVariants store username base keepName).backups = store.backups ∧
      (removeIpVariants store username base keepName).pictures = store.pictures ∧
      ∀ name record, (removeIpVariants store username base keepName).records name = some record →
        store.records name = some record := by
  unfold removeIpVariants
  induction range variantLimit generalizing store with
  | nil => exact ⟨rfl, rfl, fun _ _ present => present⟩
  | cons index indices ih =>
    obtain ⟨backups, pictures⟩ := removeIpVariant_fields username base keepName store index
    obtain ⟨backups', pictures', fewer⟩ := ih (removeIpVariant username base keepName store index)
    refine ⟨backups'.trans backups, pictures'.trans pictures, fun name record present => ?_⟩
    exact removeIpVariant_some (fewer name record present)

end Removal

section Save

variable {store : Store} {record : Record} {ip base name : Bytes}

theorem save_eq (sanitized : sanitizeUsername record.username.text = some base)
    (path : savePath store record ip = some name) :
    save store record ip =
      (true, if isIpWide record then
          removeIpVariants (profilePictureStore (writeRecord store name (normalized record ip)) base
            (normalized record ip)) record.username.text base name
        else profilePictureStore (writeRecord store name (normalized record ip)) base
          (normalized record ip)) := by
  rw [save, sanitized, path]

theorem save_none (missing : savePath store record ip = none ∨ sanitizeUsername record.username.text = none) :
    (save store record ip).2 = store := by
  unfold save
  split
  next path sanitized => rcases missing with none | none <;> simp_all
  next => rfl

/-- A save leaves the files of other names alone. -/
theorem save_agree {base' : Bytes} (sanitized : sanitizeUsername record.username.text = some base)
    (apart : Apart base base') : Agree base' (save store record ip).2 store := by
  cases path : savePath store record ip with
  | none =>
    rw [save_none (.inl path)]
    exact ⟨fun _ _ => rfl, fun _ _ => rfl, rfl⟩
  | some =>
    obtain ⟨index, bound, rfl⟩ := savePath_variant sanitized path
    have written : Agree base' (profilePictureStore
        (writeRecord store (variantName base index) (normalized record ip)) base (normalized record ip))
        store := by
      refine ⟨fun index' bound' => ?_, fun index' bound' => ?_, ?_⟩
      · exact update_of_ne (apart.variants bound bound').symm _ _
      · simp only [writeRecord]
        split
        · exact update_of_ne (apart.variants bound bound').symm _ _
        · rfl
      · exact update_of_ne apart.1.symm _ _
    rw [save_eq sanitized path]
    split
    · obtain ⟨backups, pictures, _⟩ := removeIpVariants_fields record.username.text base
        (variantName base index) (profilePictureStore
          (writeRecord store (variantName base index) (normalized record ip)) base (normalized record ip))
      refine ⟨fun index' bound' => ?_, fun index' bound' => ?_, ?_⟩
      · rw [removeIpVariants_safe, written.records index' bound']
        exact .inr (.inl fun other inside => (apart.variants inside bound').symm)
      · rw [backups, written.backups index' bound']
      · rw [pictures, written.pictures]
    · exact written

/-- The record is saved under its own name, and it can be loaded. -/
theorem normalized_fields (record : Record) (ip : Bytes) :
    (normalized record ip).username = record.username ∧
      (normalized record ip).magic = userDataMagic ∧ (normalized record ip).version = userDataVersion ∧
      (normalized record ip).passwordHash = record.passwordHash ∧
      (normalized record ip).reservedIpWide = record.reservedIpWide := by
  have named : (if record.username.text = [] then record.username else CBuffer.print record.username.text) =
      record.username := by
    split
    · rfl
    · exact CBuffer.print_text record.username
  unfold normalized
  split <;> exact ⟨named, rfl, rfl, rfl, rfl⟩

def diskRecord (record : Record) (ip : Bytes) : Record :=
  { normalized record ip with profilePicture := .zero }

theorem diskRecord_loadable (record : Record) (ip : Bytes) : isLoadable (diskRecord record ip) := by
  obtain ⟨_, magic, version, _⟩ := normalized_fields record ip
  simp only [isLoadable, diskRecord, magic, version]
  decide

/-- Every file holds a record that can be loaded and stands under a variant of its own name. -/
def Filed (store : Store) : Prop :=
  ∀ name record, store.records name = some record →
    isLoadable record ∧
      ∃ base index, sanitizeUsername record.username.text = some base ∧ index < variantLimit ∧
        name = variantName base index

theorem save_filed (filed : Filed store) (record : Record) (ip : Bytes) : Filed (save store record ip).2 := by
  cases sanitized : sanitizeUsername record.username.text with
  | none =>
    rw [save_none (.inr sanitized)]
    exact filed
  | some base =>
    cases path : savePath store record ip with
    | none =>
      rw [save_none (.inl path)]
      exact filed
    | some =>
      obtain ⟨index, bound, rfl⟩ := savePath_variant sanitized path
      have written : Filed (profilePictureStore
          (writeRecord store (variantName base index) (normalized record ip)) base
          (normalized record ip)) := by
        intro name' record' present
        simp only [profilePictureStore, writeRecord] at present
        rw [update_apply] at present
        split at present
        next same =>
          rw [← Option.some.inj present]
          refine ⟨diskRecord_loadable record ip, base, index, ?_, bound, same⟩
          rw [(normalized_fields record ip).1]
          exact sanitized
        next => exact filed name' record' present
      rw [save_eq sanitized path]
      split
      · intro name' record' present
        exact written name' record' ((removeIpVariants_fields _ _ _ _).2.2 name' record' present)
      · exact written

theorem Saved.filed (saved : Saved store) : Filed store := by
  induction saved with
  | empty =>
    intro name record present
    exact absurd present (by simp [Store.empty])
  | save record ip _ ih => exact save_filed ih record ip

/-- In a store in order, a file is loaded as it stands. -/
theorem Filed.loadRaw (filed : Filed store) (name : Bytes) : loadRaw store name = store.records name := by
  unfold UserData.loadRaw
  cases present : store.records name with
  | none => rfl
  | some record =>
    dsimp only
    rw [if_pos (filed name record present).1]

theorem Filed.readFor_apart (filed : Filed store) {username' : Bytes} {base' : Bytes}
    (sanitized' : sanitizeUsername username' = some base') (apart : Apart base base') {raw : Record}
    (read : readFor store username' ip = some raw) : sanitizeUsername raw.username.text ≠ some base := by
  intro sanitized
  obtain ⟨name, path, present⟩ := Option.bind_eq_some_iff.mp read
  obtain ⟨index', bound', rfl⟩ := pathFor_variant sanitized' path
  rw [filed.loadRaw] at present
  obtain ⟨_, base'', index, named, bound, same⟩ := filed _ raw present
  rw [sanitized] at named
  rw [← Option.some.inj named] at same
  exact apart.variants bound bound' same.symm

theorem independent_of_apart {username username' : CBuffer 256} {base base' : Bytes}
    (sanitized : sanitizeUsername username.text = some base)
    (sanitized' : sanitizeUsername username'.text = some base') (apart : Apart base base') :
    Independent username username' := by
  intro store saved
  constructor
  · intro record ip ip' named
    rw [← named] at sanitized
    exact (save_agree sanitized apart).load sanitized' ip' fun name path => pathFor_variant sanitized' path
  · intro ip' raw read named
    apply saved.filed.readFor_apart sanitized' apart read
    rw [named]
    exact sanitized

end Save

end SshChatter.UserData
