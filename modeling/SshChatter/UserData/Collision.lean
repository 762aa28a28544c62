import SshChatter.UserData.Independence

namespace SshChatter.UserData
open CString Function List

section Search

variable {store : Store} {username ip base : Bytes}

def holdsMatch (store : Store) (username ip name : Bytes) : Bool :=
  (loadRaw store name).any fun existing => existing.username.text = username ∧ existing.lastIp.text = ip

def NoWide (store : Store) (username name : Bytes) : Prop :=
  ∀ existing, loadRaw store name = some existing → existing.username.text = username →
    isIpWide existing = false

/-- A turn without a wide record notes the first match and the first free variant. -/
theorem scanVariant_open {scan : Scan} (searching : scan.ipWide = none) {index : Nat}
    (noWide : NoWide store username (variantName base index)) :
    scanVariant store username ip base scan index =
      ⟨none,
        scan.ipMatch.or (if holdsMatch store username ip (variantName base index) then some index else none),
        scan.available.or (if (store.records (variantName base index)).isNone then some index else none)⟩ := by
  obtain ⟨wide, matched, available⟩ := scan
  subst searching
  cases present : store.records (variantName base index) with
  | none =>
    have missing : loadRaw store (variantName base index) = none := by rw [loadRaw, present]
    cases available <;> simp [scanVariant, holdsMatch, present, missing]
  | some =>
    cases read : loadRaw store (variantName base index) with
    | none => simp [scanVariant, holdsMatch, present, read]
    | some existing =>
      have narrow := noWide existing read
      by_cases own : existing.username.text = username
      · cases matched <;> by_cases here : existing.lastIp.text = ip <;>
          simp [scanVariant, holdsMatch, present, read, own, narrow own, here]
      · simp [scanVariant, holdsMatch, present, read, own]

/-- A search without a wide record finds the first match and the first free variant. -/
theorem scanVariants_open
    (noWide : ∀ index < variantLimit, NoWide store username (variantName base index)) :
    scanVariants store username ip base =
      ⟨none,
        (range variantLimit).find? fun index => holdsMatch store username ip (variantName base index),
        (range variantLimit).find? fun index => (store.records (variantName base index)).isNone⟩ := by
  have run (count : Nat) (bound : count ≤ variantLimit) :
      (range count).foldl (scanVariant store username ip base) ⟨none, none, none⟩ =
        ⟨none,
          (range count).find? fun index => holdsMatch store username ip (variantName base index),
          (range count).find? fun index => (store.records (variantName base index)).isNone⟩ := by
    induction count with
    | zero => rfl
    | succ count ih =>
      rw [range_succ, foldl_append, ih (by omega), find?_append, find?_append,
        foldl_cons, foldl_nil, scanVariant_open rfl (noWide count (by omega))]
      simp only [find?_singleton]
  exact run variantLimit (le_refl _)

theorem pathFor_open (sanitized : sanitizeUsername username = some base) (unclaimed : isClaimed store base = false)
    (address : ip ≠ []) (noWide : ∀ index < variantLimit, NoWide store username (variantName base index))
    (create : Bool) :
    pathFor store username ip create =
      match (range variantLimit).find? fun index => holdsMatch store username ip (variantName base index) with
      | some index => some (variantName base index)
      | none =>
        if create then
          ((range variantLimit).find? fun index =>
            (store.records (variantName base index)).isNone).map (variantName base)
        else none := by
  rw [pathFor, sanitized]
  dsimp only
  rw [unclaimed, if_neg address, scanVariants_open noWide]
  cases (range variantLimit).find? fun index => holdsMatch store username ip (variantName base index) <;> rfl

end Search

section Visitors

def visitorIp (index : Nat) : Bytes := str "10.0.0." ++ decimal index

theorem visitorIp_ne_nil (index : Nat) : visitorIp index ≠ [] := by
  intro empty
  exact decimal_ne_nil index (append_eq_nil_iff.mp empty).2

theorem visitorIp_inj {index index' : Nat} (same : visitorIp index = visitorIp index') : index = index' :=
  decimal_inj (append_cancel_left same)

/-- The addresses fit in a record. -/
theorem visitorIp_print {index : Nat} (inside : index < variantLimit) :
    (CBuffer.print (visitorIp index) : CBuffer 64).text = visitorIp index := by
  have fits : ∀ index < 32, (visitorIp index).length ≤ 63 := by decide +kernel
  exact take_of_length_le (fits index inside)

def plainRecord (username : CBuffer 256) : Record :=
  ⟨userDataMagic, userDataVersion, username, 0, 0, .zero, 0, .zero, 0, 0, [], 0⟩

def wideRecord (username : CBuffer 256) : Record := { plainRecord username with reservedIpWide := 1 }

def visited (username : CBuffer 256) : Nat → Store
  | 0 => .empty
  | count + 1 => (save (visited username count) (plainRecord username) (visitorIp count)).2

theorem visited_saved (username : CBuffer 256) (count : Nat) : Saved (visited username count) := by
  induction count with
  | zero => exact .empty
  | succ count ih => exact .save _ _ ih

/-- The first variants hold the records of the first addresses, and the other variants are free. -/
structure Filled (store : Store) (username : CBuffer 256) (base : Bytes) (count : Nat) : Prop where
  taken : ∀ index < count, ∃ record, store.records (variantName base index) = some record ∧
    record.username = username ∧ hasPassword record = false ∧ isIpWide record = false ∧
    record.lastIp.text = visitorIp index
  free : ∀ index, count ≤ index → index < variantLimit → store.records (variantName base index) = none

variable {store : Store} {username : CBuffer 256} {base : Bytes} {count : Nat}

theorem Filled.unclaimed (filled : Filled store username base count) (filed : Filed store) (name : Bytes) :
    isClaimed store base = false ∧ ∀ index < variantLimit, NoWide store name (variantName base index) := by
  have narrow (index : Nat) (inside : index < variantLimit) (existing : Record)
      (present : store.records (variantName base index) = some existing) :
      hasPassword existing = false ∧ isIpWide existing = false := by
    by_cases early : index < count
    · obtain ⟨record, held, _, noPassword, notWide, _⟩ := filled.taken index early
      rw [← Option.some.inj (held.symm.trans present)]
      exact ⟨noPassword, notWide⟩
    · rw [filled.free index (by omega) inside] at present
      exact absurd present (by simp)
  refine ⟨?_, fun index inside existing read _ => ?_⟩
  · rw [isClaimed, filed.loadRaw]
    cases present : store.records base with
    | none => rfl
    | some existing =>
      have plain := narrow 0 (by decide) existing present
      simp [plain.1, plain.2]
  · rw [filed.loadRaw] at read
    exact (narrow index inside existing read).2

theorem Filled.holdsMatch (filled : Filled store username base count) (filed : Filed store)
    {index : Nat} (inside : index < variantLimit) (visitor : Nat) :
    holdsMatch store username.text (visitorIp visitor) (variantName base index) ↔
      index < count ∧ index = visitor := by
  rw [UserData.holdsMatch, filed.loadRaw]
  by_cases early : index < count
  · obtain ⟨record, held, named, _, _, address⟩ := filled.taken index early
    rw [held]
    simp only [Option.any_some, named, address, true_and, decide_eq_true_eq, early]
    exact ⟨visitorIp_inj, fun same => by rw [same]⟩
  · rw [filled.free index (by omega) inside]
    simp [early]

/-- The next address goes to the next free variant. -/
theorem Filled.savePath (filled : Filled store username base count) (filed : Filed store)
    (sanitized : sanitizeUsername username.text = some base) (room : count < variantLimit) :
    savePath store (plainRecord username) (visitorIp count) = some (variantName base count) := by
  have address : effectiveIp (plainRecord username) (visitorIp count) = visitorIp count :=
    if_pos (visitorIp_ne_nil count)
  obtain ⟨unclaimed, noWide⟩ := filled.unclaimed filed username.text
  have noMatch : (range variantLimit).find? (fun index =>
      UserData.holdsMatch store username.text (visitorIp count) (variantName base index)) = none := by
    rw [find?_eq_none]
    intro index member
    rw [filled.holdsMatch filed (mem_range.mp member)]
    omega
  have firstFree : (range variantLimit).find? (fun index =>
      (store.records (variantName base index)).isNone) = some count := by
    rw [find?_range_eq_some]
    refine ⟨?_, mem_range.mpr room, fun index early => ?_⟩
    · rw [filled.free count (le_refl _) room]
      rfl
    · obtain ⟨record, held, _⟩ := filled.taken index early
      rw [held]
      rfl
  rw [UserData.savePath, address,
    show (plainRecord username).username = username from rfl,
    pathFor_open sanitized unclaimed (visitorIp_ne_nil count) noWide, noMatch, firstFree]
  rfl

theorem diskRecord_plain (username : CBuffer 256) {visitor : Nat} (inside : visitor < variantLimit) :
    (diskRecord (plainRecord username) (visitorIp visitor)).username = username ∧
      hasPassword (diskRecord (plainRecord username) (visitorIp visitor)) = false ∧
      isIpWide (diskRecord (plainRecord username) (visitorIp visitor)) = false ∧
      (diskRecord (plainRecord username) (visitorIp visitor)).lastIp.text = visitorIp visitor := by
  obtain ⟨named, _, _, password, wide⟩ := normalized_fields (plainRecord username) (visitorIp visitor)
  refine ⟨named, ?_, ?_, ?_⟩
  · simp only [diskRecord]
    rfl
  · simp only [isIpWide]
    rfl
  · simp only [diskRecord]
    exact visitorIp_print inside

/-- The saves from the first addresses fill the first variants. -/
theorem visited_filled (sanitized : sanitizeUsername username.text = some base) (bound : count ≤ variantLimit) :
    Filled (visited username count) username base count := by
  induction count with
  | zero => exact ⟨fun index early => absurd early (Nat.not_lt_zero index), fun _ _ _ => rfl⟩
  | succ count ih =>
    have filled := ih (by omega)
    have path := filled.savePath (visited_saved username count).filed sanitized (by omega)
    have records : (visited username (count + 1)).records =
        update (visited username count).records (variantName base count)
          (some (diskRecord (plainRecord username) (visitorIp count))) := by
      rw [visited, save_eq sanitized path]
      rfl
    have other {index : Nat} (different : index ≠ count) :
        (visited username (count + 1)).records (variantName base index) =
          (visited username count).records (variantName base index) := by
      rw [records]
      exact update_of_ne (fun same => different (variantName_inj same)) _ _
    constructor
    · intro index early
      by_cases last : index = count
      · subst last
        refine ⟨_, ?_, diskRecord_plain username (by omega)⟩
        rw [records, update_self]
      · rw [other last]
        exact filled.taken index (by omega)
    · intro index late inside
      rw [other (by omega)]
      exact filled.free index (by omega) inside

end Visitors

section Collisions

variable {username username' : CBuffer 256} {base base' : Bytes}

theorem wideSave_path (store : Store) (sanitized : sanitizeUsername username.text = some base) :
    savePath store (wideRecord username) [] = some base := by
  exact sanitized

theorem wideSave_base (store : Store) (sanitized : sanitizeUsername username.text = some base) :
    (save store (wideRecord username) []).2.records base = some (diskRecord (wideRecord username) []) := by
  rw [save_eq sanitized (wideSave_path store sanitized)]
  rw [if_pos (by simp [isIpWide, wideRecord]), removeIpVariants_safe (.inl rfl)]
  exact update_self ..

variable {store : Store} {index : Nat}

theorem wideSave_other (sanitized : sanitizeUsername username.text = some base) {name : Bytes}
    (different : name ≠ base)
    (stranger : ∀ existing, loadRaw store name = some existing → existing.username.text ≠ username.text) :
    (save store (wideRecord username) []).2.records name = store.records name := by
  rw [save_eq sanitized (wideSave_path store sanitized)]
  have kept : (profilePictureStore (writeRecord store base (normalized (wideRecord username) [])) base
      (normalized (wideRecord username) [])).records name = store.records name :=
    update_of_ne different _ _
  have backups : (profilePictureStore (writeRecord store base (normalized (wideRecord username) [])) base
      (normalized (wideRecord username) [])).backups name = store.backups name := by
    simp only [writeRecord]
    split
    · exact update_of_ne different _ _
    · rfl
  rw [if_pos (by simp [isIpWide, wideRecord]), removeIpVariants_safe, kept]
  refine .inr (.inr ?_)
  rw [loadRaw, kept, backups]
  exact stranger

theorem not_independent_of_same (sanitized : sanitizeUsername username.text = some base)
    (sanitized' : sanitizeUsername username'.text = some base) : ¬ Independent username username' := by
  intro independent
  have same := (independent .empty .empty).1 (wideRecord username) [] [] rfl
  have before : load .empty username'.text [] = none := by
    simp [load, readFor, loadRaw, Store.empty]
  have read : loadRaw (save .empty (wideRecord username) []).2 base =
      some (diskRecord (wideRecord username) []) := by
    rw [(Saved.save (wideRecord username) [] .empty).filed.loadRaw, wideSave_base .empty sanitized]
  have after : (load (save .empty (wideRecord username) []).2 username'.text []).isSome := by
    simp [load, readFor, pathFor, sanitized', read]
  rw [same, before] at after
  exact absurd after (by simp)

theorem not_independent_of_variant (sanitized : sanitizeUsername username.text = some base)
    (sanitized' : sanitizeUsername username'.text = some (variantName base index)) (inside : index < variantLimit) :
    ¬ Independent username username' := by
  intro independent
  have filed := (visited_saved username (index + 1)).filed
  have filled := visited_filled sanitized (show index + 1 ≤ variantLimit by omega)
  obtain ⟨record, held, named, noPassword, notWide, _⟩ := filled.taken index (Nat.lt_succ_self index)
  have read : loadRaw (visited username (index + 1)) (variantName base index) = some record := by
    rw [filed.loadRaw, held]
  have path : pathFor (visited username (index + 1)) username'.text [] false = some (variantName base index) := by
    rw [pathFor, sanitized']
    simp [isClaimed]
  have found : readFor (visited username (index + 1)) username'.text [] = some record := by
    rw [readFor, path, Option.bind_some, read]
  exact (independent _ (visited_saved username (index + 1))).2 [] record found named

theorem Filled.after_wideSave {count index : Nat} (filled : Filled store username' base' count) (filed : Filed store)
    (sanitized : sanitizeUsername username.text = some (variantName base' index))
    (differ : username'.text ≠ username.text) {other : Nat} (inside : other < variantLimit) :
    (save store (wideRecord username) []).2.records (variantName base' other) =
      if other = index then some (diskRecord (wideRecord username) []) else
        store.records (variantName base' other) := by
  split
  next same =>
    rw [same]
    exact wideSave_base store sanitized
  next different =>
    apply wideSave_other sanitized fun same => different (variantName_inj same)
    intro existing read
    rw [filed.loadRaw] at read
    by_cases early : other < count
    · obtain ⟨record, held, named, _⟩ := filled.taken other early
      rw [← Option.some.inj (held.symm.trans read), named]
      exact differ
    · rw [filled.free other (by omega) inside] at read
      exact absurd read (by simp)

theorem Filled.load_last (filled : Filled store username' base' (index + 1)) (filed : Filed store)
    (sanitized' : sanitizeUsername username'.text = some base') (inside : index < variantLimit) :
    (load store username'.text (visitorIp index)).isSome := by
  obtain ⟨unclaimed, noWide⟩ := filled.unclaimed filed username'.text
  have found : (range variantLimit).find? (fun other =>
      UserData.holdsMatch store username'.text (visitorIp index) (variantName base' other)) = some index := by
    rw [find?_range_eq_some]
    refine ⟨?_, mem_range.mpr inside, fun other early => ?_⟩
    · rw [filled.holdsMatch filed inside]
      omega
    · rw [Bool.not_eq_true', ← Bool.not_eq_true, filled.holdsMatch filed (by omega)]
      omega
  have path := pathFor_open sanitized' unclaimed (visitorIp_ne_nil index) noWide false
  rw [found] at path
  obtain ⟨record, held, _⟩ := filled.taken index (Nat.lt_succ_self index)
  simp [load, readFor, path, filed.loadRaw, held]

theorem Filled.named_after_wideSave (filled : Filled store username' base' (index + 1)) (filed : Filed store)
    (sanitized : sanitizeUsername username.text = some (variantName base' index))
    (differ : username'.text ≠ username.text) {other : Nat} (bound : other < variantLimit) {existing : Record}
    (present : (save store (wideRecord username) []).2.records (variantName base' other) = some existing)
    (named : existing.username.text = username'.text) :
    isIpWide existing = false ∧ existing.lastIp.text ≠ visitorIp index := by
  rw [filled.after_wideSave filed sanitized differ bound] at present
  split at present
  · rw [← Option.some.inj present] at named
    have owner := (normalized_fields (wideRecord username) []).1
    exact absurd (named.symm.trans (congrArg CBuffer.text owner)) differ
  next different =>
    by_cases early : other < index + 1
    · obtain ⟨record, held, _, _, notWide, address⟩ := filled.taken other early
      rw [← Option.some.inj (held.symm.trans present), address]
      exact ⟨notWide, fun equal => different (visitorIp_inj equal)⟩
    · rw [filled.free other (by omega) bound] at present
      exact absurd present (by simp)

/-- A user is not found any more when another one has saved over the variant of the last address. -/
theorem Filled.load_after_wideSave (filled : Filled store username' base' (index + 1)) (saved : Saved store)
    (positive : 0 < index) (sanitized : sanitizeUsername username.text = some (variantName base' index))
    (sanitized' : sanitizeUsername username'.text = some base') (differ : username'.text ≠ username.text) :
    load (save store (wideRecord username) []).2 username'.text (visitorIp index) = none := by
  have filed' := (Saved.save (wideRecord username) [] saved).filed
  have mine {other : Nat} (bound : other < variantLimit) {existing : Record}
      (present : (save store (wideRecord username) []).2.records (variantName base' other) = some existing) :=
    filled.named_after_wideSave saved.filed sanitized differ bound present
  have unclaimed : isClaimed (save store (wideRecord username) []).2 base' = false := by
    obtain ⟨record, held, _, noPassword, notWide, _⟩ := filled.taken 0 (Nat.succ_pos index)
    have held' : (save store (wideRecord username) []).2.records base' = some record := by
      rw [← variantName_zero base', filled.after_wideSave saved.filed sanitized differ (by decide),
        if_neg (by omega)]
      exact held
    simp [isClaimed, filed'.loadRaw, held', noPassword, notWide]
  generalize (save store (wideRecord username) []).2 = store' at filed' mine unclaimed
  have noWide : ∀ other < variantLimit, NoWide store' username'.text (variantName base' other) := by
    intro other bound existing read named
    rw [filed'.loadRaw] at read
    exact (mine bound read named).1
  have noMatch : (range variantLimit).find? (fun other =>
      UserData.holdsMatch store' username'.text (visitorIp index) (variantName base' other)) = none := by
    rw [find?_eq_none]
    intro other member matched
    rw [UserData.holdsMatch, filed'.loadRaw] at matched
    obtain ⟨existing, present, both⟩ := (Option.any_eq_true _ _).mp matched
    rw [decide_eq_true_eq] at both
    exact (mine (mem_range.mp member) present both.1).2 both.2
  have path := pathFor_open sanitized' unclaimed (visitorIp_ne_nil index) noWide false
  rw [noMatch] at path
  simp [load, readFor, path]

/-- A wide save takes the numbered variant that held the record of the other user. -/
theorem not_independent_of_base (positive : 0 < index) (inside : index < variantLimit)
    (sanitized : sanitizeUsername username.text = some (variantName base' index))
    (sanitized' : sanitizeUsername username'.text = some base') : ¬ Independent username username' := by
  intro independent
  have saved := visited_saved username' (index + 1)
  have filled := visited_filled sanitized' (show index + 1 ≤ variantLimit by omega)
  have differ : username'.text ≠ username.text := by
    intro same
    rw [← same, sanitized'] at sanitized
    have zero : variantName base' 0 = variantName base' index :=
      (variantName_zero base').trans (Option.some.inj sanitized)
    have equal := variantName_inj zero
    omega
  have same := (independent _ saved).1 (wideRecord username) [] (visitorIp index) rfl
  have before := filled.load_last saved.filed sanitized' inside
  rw [← same, filled.load_after_wideSave saved positive sanitized sanitized' differ] at before
  exact absurd before (by simp)

end Collisions

def NamesApart (username username' : Bytes) : Prop :=
  ∀ base base', sanitizeUsername username = some base → sanitizeUsername username' = some base' →
    Apart base base'

/-- Two usernames are independent exactly when neither sanitized name is the other one or one of its
numbered variants. -/
theorem independent_iff_namesApart {username username' : CBuffer 256} (nonEmpty : username.text ≠ [])
    (nonEmpty' : username'.text ≠ []) :
    Independent username username' ↔ NamesApart username.text username'.text := by
  obtain ⟨base, sanitized⟩ := sanitizeUsername_isSome nonEmpty
  obtain ⟨base', sanitized'⟩ := sanitizeUsername_isSome nonEmpty'
  constructor
  · intro independent first second isFirst isSecond
    rw [sanitized] at isFirst
    rw [sanitized'] at isSecond
    cases isFirst
    cases isSecond
    refine ⟨fun same => ?_, fun index inside positive => ⟨fun same => ?_, fun same => ?_⟩⟩
    · rw [same] at sanitized
      exact not_independent_of_same sanitized sanitized' independent
    · rw [same] at sanitized
      exact not_independent_of_base positive inside sanitized sanitized' independent
    · rw [same] at sanitized'
      exact not_independent_of_variant sanitized sanitized' inside independent
  · intro apart
    exact independent_of_apart sanitized sanitized' (apart base base' sanitized sanitized')

/-- Alice and bob are independent. -/
theorem independent_iff_namesApart_alice_bob :
    Independent (.print (str "alice")) (.print (str "bob")) := by
  refine (independent_iff_namesApart (by decide) (by decide)).mpr ?_
  intro base base' sanitized sanitized'
  cases sanitized
  cases sanitized'
  unfold Apart
  decide +kernel

/-- Two Korean names of one syllable both become three underscores. -/
theorem korean_names_collide :
    ¬ ∀ username username' : CBuffer 256, username.text ≠ [] → username'.text ≠ [] →
      username.text.map toLower ≠ username'.text.map toLower → Independent username username' := by
  intro claim
  have first : sanitizeUsername (CBuffer.print [0xED, 0x95, 0x9C] : CBuffer 256).text = some (str "___") := by
    decide +kernel
  have second : sanitizeUsername (CBuffer.print [0xEA, 0xB8, 0x80] : CBuffer 256).text = some (str "___") := by
    decide +kernel
  exact not_independent_of_same first second
    (claim (.print [0xED, 0x95, 0x9C]) (.print [0xEA, 0xB8, 0x80]) (by decide) (by decide) (by decide))

end SshChatter.UserData
