import SshChatter.UserData.Collision

namespace SshChatter.UserData
open CString Function List

theorem stripColumnReset_length (text : Bytes) : (stripColumnReset text).length ≤ text.length := by
  fun_induction stripColumnReset text with
  | case1 => exact le_refl _
  | case2 text ih | case3 text ih =>
    simp only [length_cons]
    omega
  | case4 c text _ _ ih => exact Nat.succ_le_succ ih

theorem mem_of_mem_stripColumnReset {c : UInt8} {text : Bytes} (member : c ∈ stripColumnReset text) :
    c ∈ text := by
  fun_induction stripColumnReset text with
  | case1 => exact member
  | case2 text ih | case3 text ih =>
    have later := ih member
    simp [later]
  | case4 d text _ _ ih =>
    rcases mem_cons.mp member with here | later
    · exact here ▸ mem_cons_self
    · exact mem_cons_of_mem _ (ih later)

/-- The text of the picture holds no zero byte, and one strip leaves nothing for a second one. -/
structure CleanPicture (picture : CBuffer 20480) : Prop where
  ended : 0 ∉ picture.text
  stripped : stripColumnReset (stripColumnReset picture.text) = stripColumnReset picture.text

theorem strippedPicture_text (picture : CBuffer 20480) :
    (CBuffer.print (stripColumnReset picture.text) : CBuffer 20480).text = stripColumnReset picture.text := by
  have fits := picture.fits
  have shorter := stripColumnReset_length picture.text
  exact take_of_length_le (by omega)

theorem CleanPicture.read {picture : CBuffer 20480} (clean : CleanPicture picture) :
    stripColumnReset (((stripColumnReset picture.text).take 20479).takeWhile (· ≠ 0)) =
      stripColumnReset picture.text := by
  have fits := picture.fits
  have shorter := stripColumnReset_length picture.text
  have whole : (stripColumnReset picture.text).take 20479 = stripColumnReset picture.text :=
    take_of_length_le (by omega)
  have unended : ∀ c ∈ stripColumnReset picture.text, (decide (c ≠ 0)) = true := by
    intro c member
    rw [decide_eq_true_eq]
    rintro rfl
    exact clean.ended (mem_of_mem_stripColumnReset member)
  rw [whole, takeWhile_eq_self_iff.mpr unended]
  exact clean.stripped

section Normal

variable {record : Record} {ip : Bytes}

theorem normalized_eq (record : Record) (address : ip ≠ []) :
    normalized record ip = { normalizeRecord record record.username.text with
      magic := userDataMagic, version := userDataVersion, lastIp := .print ip } := by
  have caller : effectiveIp record ip = ip := if_pos address
  rw [normalized, caller, if_pos address]

theorem capped_twice (limit count : UInt32) :
    (if limit < (if limit < count then limit else count) then limit
      else if limit < count then limit else count) = if limit < count then limit else count := by
  by_cases above : limit < count
  · rw [if_pos above, if_neg (UInt32.lt_irrefl limit)]
  · rw [if_neg above, if_neg above]

theorem flagged_twice (flag : UInt8) :
    (if (if flag ≠ 0 then (1 : UInt8) else 0) ≠ 0 then (1 : UInt8) else 0) = if flag ≠ 0 then 1 else 0 := by
  by_cases zero : flag = 0
  · rw [if_neg (not_not_intro zero)]
    rfl
  · rw [if_pos zero]
    rfl

theorem normalizeRecord_normalized (record : Record) (address : ip ≠ []) (picture : CBuffer 20480) :
    normalizeRecord { normalized record ip with profilePicture := picture } record.username.text =
      { normalized record ip with profilePicture := .print (stripColumnReset picture.text) } := by
  have named : (normalized record ip).username = record.username := (normalized_fields record ip).1
  rw [normalized_eq record address] at named ⊢
  have printed : (if record.username.text = [] then (normalizeRecord record record.username.text).username
      else CBuffer.print record.username.text) = (normalizeRecord record record.username.text).username := by
    rw [CBuffer.print_text, show (normalizeRecord record record.username.text).username = record.username from named,
      ite_self]
  simp only [normalizeRecord, Record.mk.injEq, true_and, and_true]
  exact ⟨printed, flagged_twice _, flagged_twice _, capped_twice 32 _, capped_twice 16 _⟩

theorem normalized_picture (record : Record) (address : ip ≠ []) :
    (normalized record ip).profilePicture = .print (stripColumnReset record.profilePicture.text) := by
  rw [normalized_eq record address]
  rfl

theorem normalized_normalized (clean : CleanPicture record.profilePicture) (address : ip ≠ []) :
    normalized (normalized record ip) ip = normalized record ip := by
  have named : (normalized record ip).username = record.username := (normalized_fields record ip).1
  have picture := normalized_picture record address
  have again := normalizeRecord_normalized record address (normalized record ip).profilePicture
  rw [normalized_eq (normalized record ip) address, named, again]
  rw [picture, strippedPicture_text, clean.stripped, ← picture]
  rw [normalized_eq record address]

end Normal

section Settled

theorem loadRaw_congr {store store' : Store} {name : Bytes} (records : store.records name = store'.records name)
    (backups : store.backups name = store'.backups name) : loadRaw store name = loadRaw store' name := by
  rw [loadRaw, loadRaw, records, backups]

/-- The store as a save of this record from this address leaves it. -/
structure Settled (store : Store) (record : Record) (ip base name : Bytes) : Prop where
  sanitized : sanitizeUsername record.username.text = some base
  held : store.records name = some (diskRecord record ip)
  pictured : store.pictures base =
    if stripColumnReset record.profilePicture.text = [] then none
    else some (stripColumnReset record.profilePicture.text)
  found : pathFor store record.username.text ip false = some name
  again : savePath store (normalized record ip) ip = some name
  cleared : isIpWide record → ∀ index < variantLimit, variantName base index ≠ name →
    ∀ existing, loadRaw store (variantName base index) = some existing →
      existing.username.text ≠ record.username.text

variable {store : Store} {record : Record} {ip base name : Bytes}

theorem Settled.read (settled : Settled store record ip base name) :
    loadRaw store name = some (diskRecord record ip) := by
  rw [loadRaw, settled.held]
  exact if_pos (diskRecord_loadable record ip)

/-- The picture comes back from its side file. -/
theorem Settled.overlay (settled : Settled store record ip base name) (address : ip ≠ [])
    (clean : CleanPicture record.profilePicture) :
    profilePictureOverlay store record.username.text
        (normalizeRecord (diskRecord record ip) record.username.text) = normalized record ip := by
  have picture := normalized_picture record address
  rw [diskRecord, normalizeRecord_normalized record address, profilePictureOverlay, settled.sanitized,
    Option.bind_some, settled.pictured]
  split_ifs with blank
  · dsimp only
    rw [blank] at picture
    change { normalized record ip with profilePicture := CBuffer.print [] } = _
    rw [← picture]
  · dsimp only
    rw [clean.read, ← picture]

theorem Settled.load (settled : Settled store record ip base name) (address : ip ≠ [])
    (clean : CleanPicture record.profilePicture) :
    load store record.username.text ip = some (normalized record ip) := by
  have version : (diskRecord record ip).version = userDataVersion := (normalized_fields record ip).2.2.1
  have overlay := settled.overlay address clean
  rw [UserData.load, readFor, settled.found, Option.bind_some, settled.read, Option.map_some]
  dsimp only
  rw [if_neg (not_not_intro version), if_pos address, overlay, normalized_eq record address]

theorem removeIpVariants_cleared {username keepName : Bytes}
    (cleared : ∀ index < variantLimit, variantName base index ≠ keepName →
      ∀ existing, loadRaw store (variantName base index) = some existing → existing.username.text ≠ username) :
    removeIpVariants store username base keepName = store := by
  have fixed : ∀ index ∈ range variantLimit, removeIpVariant username base keepName store index = store := by
    intro index member
    unfold removeIpVariant
    dsimp only
    split
    · rfl
    next other =>
      rw [if_neg]
      rw [Option.any_eq_true]
      rintro ⟨existing, read, same⟩
      exact cleared index (mem_range.mp member) other existing read (of_decide_eq_true same)
  unfold removeIpVariants
  generalize range variantLimit = indices at fixed
  induction indices with
  | nil => rfl
  | cons index indices ih =>
    rw [foldl_cons, fixed index mem_cons_self]
    exact ih fun other member => fixed other (mem_cons_of_mem _ member)

/-- A second save of the normal record only backs up what it replaces. -/
theorem Settled.save (settled : Settled store record ip base name) (address : ip ≠ [])
    (clean : CleanPicture record.profilePicture) :
    save store (normalized record ip) ip =
      (true, { store with backups := update store.backups name (some (diskRecord record ip)) }) := by
  obtain ⟨named, _, _, _, wide⟩ := normalized_fields record ip
  have sanitized : sanitizeUsername (normalized record ip).username.text = some base := by
    rw [named]
    exact settled.sanitized
  have picture : (normalized record ip).profilePicture.text = stripColumnReset record.profilePicture.text := by
    rw [normalized_picture record address]
    exact strippedPicture_text record.profilePicture
  have written : profilePictureStore (writeRecord store name (normalized record ip)) base (normalized record ip) =
      { store with backups := update store.backups name (some (diskRecord record ip)) } := by
    have records : update store.records name (some (diskRecord record ip)) = store.records := by
      rw [← settled.held, update_eq_self]
    have pictures : update store.pictures base (if stripColumnReset record.profilePicture.text = []
        then none else some (stripColumnReset record.profilePicture.text)) = store.pictures := by
      rw [← settled.pictured, update_eq_self]
    have stored : writeRecord store name (normalized record ip) =
        { store with backups := update store.backups name (some (diskRecord record ip)) } := by
      rw [writeRecord, settled.held]
      exact congrArg (fun held => Store.mk held _ store.pictures) records
    rw [profilePictureStore, stored, picture]
    exact congrArg (Store.mk store.records _) pictures
  rw [save_eq sanitized settled.again, normalized_normalized clean address, written, isIpWide, wide, named]
  split
  next claims =>
    rw [removeIpVariants_cleared]
    intro index inside other existing read
    refine settled.cleared claims index inside other existing ?_
    -- The new backup stands under the kept name.
    rw [← read]
    exact loadRaw_congr rfl (update_of_ne other _ _).symm
  next => rfl

end Settled

section Claimed

variable {store : Store} {record : Record} {ip base : Bytes}
variable {existing : Record} {index : Nat} {username keepName : Bytes}

theorem loadRaw_removeIpVariant {username keepName name : Bytes}
    (read : loadRaw (removeIpVariant username base keepName store index) name = some existing) :
    loadRaw store name = some existing := by
  have backups := (removeIpVariant_fields username base keepName store index).1
  cases present : (removeIpVariant username base keepName store index).records name with
  | none =>
    rw [loadRaw, present] at read
    exact absurd read (by simp)
  | some =>
    rw [← read]
    exact loadRaw_congr ((removeIpVariant_some present).trans present.symm) (congrFun backups name).symm

theorem removeIpVariant_clears (other : variantName base index ≠ keepName)
    (read : loadRaw (removeIpVariant username base keepName store index) (variantName base index) = some existing) :
    existing.username.text ≠ username := by
  intro own
  have before := loadRaw_removeIpVariant read
  have gone : loadRaw { store with records := update store.records (variantName base index) none }
      (variantName base index) = none := by
    unfold loadRaw
    dsimp only
    rw [update_self]
  unfold removeIpVariant at read
  rw [if_neg other, before, if_pos (by simp [own]), gone] at read
  exact absurd read (by simp)

theorem removeIpVariants_clears (inside : index < variantLimit) (other : variantName base index ≠ keepName)
    (read : loadRaw (removeIpVariants store username base keepName) (variantName base index) = some existing) :
    existing.username.text ≠ username := by
  have kept (indices : List Nat) (current : Store)
      (read : loadRaw (indices.foldl (removeIpVariant username base keepName) current)
        (variantName base index) = some existing) :
      loadRaw current (variantName base index) = some existing := by
    induction indices generalizing current with
    | nil => exact read
    | cons first indices ih => exact loadRaw_removeIpVariant (ih _ read)
  have run (indices : List Nat) (member : index ∈ indices) (current : Store)
      (read : loadRaw (indices.foldl (removeIpVariant username base keepName) current)
        (variantName base index) = some existing) : existing.username.text ≠ username := by
    induction indices generalizing current with
    | nil => exact absurd member not_mem_nil
    | cons first indices ih =>
      rcases mem_cons.mp member with rfl | later
      · exact removeIpVariant_clears other (kept indices _ read)
      · exact ih later _ read
  exact run _ (mem_range.mpr inside) store read

theorem written_files (store : Store) (record : Record) (address : ip ≠ []) (base name : Bytes) :
    (profilePictureStore (writeRecord store name (normalized record ip)) base (normalized record ip)).records =
        update store.records name (some (diskRecord record ip)) ∧
      (profilePictureStore (writeRecord store name (normalized record ip)) base (normalized record ip)).pictures base =
        if stripColumnReset record.profilePicture.text = [] then none
        else some (stripColumnReset record.profilePicture.text) := by
  refine ⟨rfl, ?_⟩
  rw [profilePictureStore, normalized_picture record address, strippedPicture_text]
  exact update_self ..

theorem diskRecord_claim (record : Record) (ip : Bytes) :
    hasPassword (diskRecord record ip) = hasPassword record ∧ isIpWide (diskRecord record ip) = isIpWide record := by
  obtain ⟨_, _, _, password, wide⟩ := normalized_fields record ip
  constructor
  · rw [hasPassword, diskRecord, password, hasPassword]
  · rw [isIpWide, diskRecord, wide, isIpWide]

/-- A record with a claim settles under the plain name. -/
theorem save_claimed (sanitized : sanitizeUsername record.username.text = some base) (address : ip ≠ [])
    (claims : (hasPassword record || isIpWide record)) :
    (save store record ip).1 ∧ Settled (save store record ip).2 record ip base base := by
  have path : savePath store record ip = some base := by
    rw [savePath, if_pos claims]
    exact sanitized
  obtain ⟨password, wide⟩ := diskRecord_claim record ip
  have named := (normalized_fields record ip).1
  obtain ⟨records, picture⟩ := written_files store record address base base
  have removal := removeIpVariants_fields record.username.text base base
    (profilePictureStore (writeRecord store base (normalized record ip)) base (normalized record ip))
  have held : (save store record ip).2.records base = some (diskRecord record ip) := by
    rw [save_eq sanitized path]
    split
    · rw [removeIpVariants_safe (.inl rfl), records, update_self]
    · rw [records, update_self]
  have claimed : isClaimed (save store record ip).2 base := by
    rw [isClaimed, loadRaw, held]
    dsimp only
    rw [if_pos (diskRecord_loadable record ip), Option.any_some, password, wide]
    exact claims
  refine ⟨by rw [save_eq sanitized path], sanitized, held, ?_, ?_, ?_, ?_⟩
  · rw [save_eq sanitized path]
    split
    · rw [removal.2.1]
      exact picture
    · exact picture
  · rw [pathFor, sanitized]
    exact if_pos claimed
  · have again : (hasPassword (normalized record ip) || isIpWide (normalized record ip)) := by
      rw [← claims, ← password, ← wide]
      rfl
    rw [savePath, if_pos again, named]
    exact sanitized
  · intro alone index inside other existing read
    rw [save_eq sanitized path] at read
    rw [if_pos alone] at read
    exact removeIpVariants_clears inside other read

end Claimed

section Unclaimed

variable {store : Store} {record : Record} {ip base : Bytes}

/-- What a record without a claim needs. Its address fits in its field, no numbered variant holds a wide record
of this user, and there is a variant for it. -/
structure Roomy (store : Store) (username ip base : Bytes) : Prop where
  fits : ip.length < 64
  narrow : ∀ index < variantLimit, 0 < index → NoWide store username (variantName base index)
  room : isClaimed store base ∨ ∃ index < variantLimit,
    store.records (variantName base index) = none ∨ holdsMatch store username ip (variantName base index)

/-- The variant that a record without a claim is saved under comes before every other match. -/
theorem savePath_first {username : Bytes} (sanitized : sanitizeUsername username = some base) (address : ip ≠ [])
    (roomy : Roomy store username ip base) :
    ∃ index < variantLimit, pathFor store username ip true = some (variantName base index) ∧
      (index = 0 ∨ isClaimed store base = false) ∧
      ∀ earlier < index, holdsMatch store username ip (variantName base earlier) = false := by
  cases claimed : isClaimed store base with
  | true =>
    refine ⟨0, by decide, ?_, .inl rfl, fun earlier before => absurd before (Nat.not_lt_zero _)⟩
    rw [pathFor, sanitized]
    exact if_pos claimed
  | false =>
    have noWide : ∀ index < variantLimit, NoWide store username (variantName base index) := by
      intro index inside
      by_cases first : index = 0
      · subst first
        intro existing read _
        rw [variantName_zero] at read
        rw [isClaimed, read, Option.any_some, Bool.or_eq_false_iff] at claimed
        exact claimed.2
      · exact roomy.narrow index inside (pos_of_ne_zero first)
    have path := pathFor_open sanitized claimed address noWide true
    cases matched : (range variantLimit).find? fun index =>
        holdsMatch store username ip (variantName base index) with
    | some index =>
      rw [matched] at path
      rw [find?_range_eq_some] at matched
      refine ⟨index, mem_range.mp matched.2.1, path, .inr rfl, fun earlier before => ?_⟩
      simpa using matched.2.2 earlier before
    | none =>
      rw [matched] at path
      rw [find?_eq_none] at matched
      cases free : (range variantLimit).find? fun index =>
          (store.records (variantName base index)).isNone with
      | some index =>
        rw [free] at path
        rw [find?_range_eq_some] at free
        have inside := mem_range.mp free.2.1
        refine ⟨index, inside, path, .inr rfl, fun earlier before => ?_⟩
        exact Bool.eq_false_iff.mpr (matched earlier (mem_range.mpr (by omega)))
      | none =>
        rw [find?_eq_none] at free
        obtain claim | ⟨index, inside, available | own⟩ := roomy.room
        · exact absurd claim (by rw [claimed]; decide)
        · exact absurd (by rw [available]; rfl) (free index (mem_range.mpr inside))
        · exact absurd own (matched index (mem_range.mpr inside))

theorem pathFor_written {username : Bytes} (sanitized : sanitizeUsername username = some base) (address : ip ≠ [])
    {index : Nat} (inside : index < variantLimit) (unclaimed : isClaimed store base = false)
    (noWide : ∀ other < variantLimit, NoWide store username (variantName base other))
    (here : holdsMatch store username ip (variantName base index))
    (first : ∀ earlier < index, holdsMatch store username ip (variantName base earlier) = false) (create : Bool) :
    pathFor store username ip create = some (variantName base index) := by
  have matched : (range variantLimit).find? (fun other => holdsMatch store username ip (variantName base other)) =
      some index := by
    rw [find?_range_eq_some]
    exact ⟨here, mem_range.mpr inside, fun earlier before => by rw [first earlier before]; rfl⟩
  rw [pathFor_open sanitized unclaimed address noWide create, matched]

theorem loadRaw_written (store : Store) (record : Record) (ip base : Bytes) {name other : Bytes}
    (different : other ≠ name) :
    loadRaw (profilePictureStore (writeRecord store name (normalized record ip)) base (normalized record ip)) other =
      loadRaw store other := by
  refine loadRaw_congr (update_of_ne different _ _) ?_
  simp only [writeRecord]
  split
  · exact update_of_ne different _ _
  · rfl

theorem loadRaw_written_self (store : Store) (record : Record) (ip base name : Bytes) :
    loadRaw (profilePictureStore (writeRecord store name (normalized record ip)) base (normalized record ip)) name =
      some (diskRecord record ip) := by
  have held : (profilePictureStore (writeRecord store name (normalized record ip)) base
      (normalized record ip)).records name = some (diskRecord record ip) := update_self ..
  rw [loadRaw, held]
  exact if_pos (diskRecord_loadable record ip)

/-- A record without a claim settles under a variant. -/
theorem save_unclaimed (sanitized : sanitizeUsername record.username.text = some base) (address : ip ≠ [])
    (noPassword : hasPassword record = false) (notWide : isIpWide record = false)
    (roomy : Roomy store record.username.text ip base) :
    ∃ name, (save store record ip).1 ∧ Settled (save store record ip).2 record ip base name := by
  obtain ⟨index, inside, path, outside, first⟩ := savePath_first sanitized address roomy
  have caller (saved : Record) : effectiveIp saved ip = ip := if_pos address
  have chosen : savePath store record ip = some (variantName base index) := by
    rw [savePath, noPassword, notWide, caller]
    exact path
  have saved := save_eq sanitized chosen
  rw [if_neg (by rw [notWide]; decide)] at saved
  obtain ⟨records, picture⟩ := written_files store record address base (variantName base index)
  have here := loadRaw_written_self store record ip base (variantName base index)
  have elsewhere {other : Bytes} (different : other ≠ variantName base index) :=
    loadRaw_written store record ip base different
  generalize profilePictureStore (writeRecord store (variantName base index) (normalized record ip)) base
    (normalized record ip) = after at saved records picture here elsewhere
  obtain ⟨password, wide⟩ := diskRecord_claim record ip
  have named := (normalized_fields record ip).1
  have unclaimed : isClaimed after base = false := by
    by_cases plain : index = 0
    · rw [plain, variantName_zero] at here
      rw [isClaimed, here, Option.any_some, password, wide, noPassword, notWide]
      rfl
    · have apart : base ≠ variantName base index := fun same =>
        plain (variantName_inj ((variantName_zero base).trans same)).symm
      rw [isClaimed, elsewhere apart]
      exact outside.resolve_left plain
  have noWide (other : Nat) (bound : other < variantLimit) :
      NoWide after record.username.text (variantName base other) := by
    intro existing read own
    by_cases same : other = index
    · rw [same, here] at read
      rw [← Option.some.inj read, wide, notWide]
    · by_cases plain : other = 0
      · rw [plain, variantName_zero] at read
        rw [isClaimed, read, Option.any_some, Bool.or_eq_false_iff] at unclaimed
        exact unclaimed.2
      · rw [elsewhere fun equal => same (variantName_inj equal)] at read
        exact roomy.narrow other bound (pos_of_ne_zero plain) existing read own
  have noted : (diskRecord record ip).lastIp.text = ip := by
    have fits := roomy.fits
    rw [diskRecord, normalized_eq record address]
    exact take_of_length_le (by omega)
  have matched : holdsMatch after record.username.text ip (variantName base index) := by
    rw [holdsMatch, here, Option.any_some, noted, show (diskRecord record ip).username = record.username from named]
    simp
  have earlier (other : Nat) (before : other < index) :
      holdsMatch after record.username.text ip (variantName base other) = false := by
    rw [holdsMatch, elsewhere fun equal => absurd (variantName_inj equal) (by omega)]
    exact first other before
  have found := pathFor_written sanitized address inside unclaimed noWide matched earlier
  rw [saved]
  refine ⟨variantName base index, rfl, sanitized, ?_, picture, found false, ?_, ?_⟩
  · rw [records, update_self]
  · have again : (hasPassword (normalized record ip) || isIpWide (normalized record ip)) = false := by
      change (hasPassword (diskRecord record ip) || isIpWide (diskRecord record ip)) = false
      rw [password, wide, noPassword, notWide]
      rfl
    rw [savePath, again, caller, named]
    exact found true
  · intro alone
    exact absurd alone (by rw [notWide]; decide)

end Unclaimed

/-- A record that is saved is loaded again as its normal form, and saving that form changes only the backup. -/
theorem save_round_trip (store : Store) (record : Record) (ip : Bytes) (named : record.username.text ≠ [])
    (address : ip ≠ []) (clean : CleanPicture record.profilePicture)
    (roomy : hasPassword record = false → isIpWide record = false →
      ∀ base, sanitizeUsername record.username.text = some base → Roomy store record.username.text ip base) :
    (save store record ip).1 ∧
      load (save store record ip).2 record.username.text ip = some (normalized record ip) ∧
      ∃ name, (save store record ip).2.records name = some (diskRecord record ip) ∧
        save (save store record ip).2 (normalized record ip) ip =
          (true, { (save store record ip).2 with
            backups := update (save store record ip).2.backups name (some (diskRecord record ip)) }) := by
  obtain ⟨base, sanitized⟩ := sanitizeUsername_isSome named
  have settles : ∃ name, (save store record ip).1 ∧ Settled (save store record ip).2 record ip base name := by
    by_cases claims : (hasPassword record || isIpWide record)
    · exact ⟨base, save_claimed sanitized address claims⟩
    · rw [Bool.not_eq_true, Bool.or_eq_false_iff] at claims
      exact save_unclaimed sanitized address claims.1 claims.2 (roomy claims.1 claims.2 base sanitized)
  obtain ⟨name, success, settled⟩ := settles
  exact ⟨success, settled.load address clean, name, settled.held, settled.save address clean⟩

/-- A plain record of alice in the empty store comes back. -/
theorem save_round_trip_alice :
    (save .empty (plainRecord (.print (str "alice"))) (str "10.0.0.1")).1 ∧
      load (save .empty (plainRecord (.print (str "alice"))) (str "10.0.0.1")).2 (str "alice") (str "10.0.0.1") =
        some (normalized (plainRecord (.print (str "alice"))) (str "10.0.0.1")) ∧
      ∃ name, (save .empty (plainRecord (.print (str "alice"))) (str "10.0.0.1")).2.records name =
          some (diskRecord (plainRecord (.print (str "alice"))) (str "10.0.0.1")) ∧
        save (save .empty (plainRecord (.print (str "alice"))) (str "10.0.0.1")).2
            (normalized (plainRecord (.print (str "alice"))) (str "10.0.0.1")) (str "10.0.0.1") =
          (true, { (save .empty (plainRecord (.print (str "alice"))) (str "10.0.0.1")).2 with
            backups := update
              (save .empty (plainRecord (.print (str "alice"))) (str "10.0.0.1")).2.backups name
              (some (diskRecord (plainRecord (.print (str "alice"))) (str "10.0.0.1"))) }) := by
  have roomy (base : Bytes) : Roomy .empty (str "alice") (str "10.0.0.1") base := by
    refine ⟨by decide, fun index _ _ existing read _ => ?_, .inr ⟨0, by decide, .inl rfl⟩⟩
    exact absurd read (by simp [loadRaw, Store.empty])
  exact save_round_trip .empty (plainRecord (.print (str "alice"))) (str "10.0.0.1") (by decide) (by decide)
    ⟨by decide, rfl⟩ fun _ _ base _ => roomy base

/-- The second save of a wide record makes a backup, and a record without a claim is lost behind an address that
does not fit in its field. -/
theorem save_round_trip_fails :
    (save (save .empty (wideRecord (.print (str "alice"))) (str "10.0.0.1")).2
        (normalized (wideRecord (.print (str "alice"))) (str "10.0.0.1")) (str "10.0.0.1")).2.backups (str "alice") ≠
      (save .empty (wideRecord (.print (str "alice"))) (str "10.0.0.1")).2.backups (str "alice") ∧
    (save .empty (plainRecord (.print (str "alice"))) (replicate 64 (byte '1'))).1 ∧
    load (save .empty (plainRecord (.print (str "alice"))) (replicate 64 (byte '1'))).2 (str "alice")
      (replicate 64 (byte '1')) = none := by
  decide +kernel

end SshChatter.UserData
