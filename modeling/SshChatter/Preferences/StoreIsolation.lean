import SshChatter.Preferences.PreferenceTable
import SshChatter.Lib.EventRun
import SshChatter.Polls.MainPoll

namespace SshChatter.Preferences
open CString SlotTable EventRun Function

section Ensure

variable {host : PreferenceHost} {username : CText 255} {ip other : CText 63} {place : Fin maxPreferences}

/-- No two records are of one user and one address. -/
def PairsApart (table : PreferenceTable) : Prop :=
  ∀ first second, (table first).inUse → (table second).inUse →
    (table first).username = (table second).username → (table first).ip = (table second).ip → first = second

/-- The pairs differ and the count is right. -/
structure Sound (host : PreferenceHost) : Prop where
  apart : PairsApart host.preferences
  counted : host.preferenceCount = usedCount Preference.inUse host.preferences

def OwnRecord (host : PreferenceHost) (username : CText 255) (ip : CText 63) : Prop :=
  (∃ place, Preference.matches username ip (host.preferences place)) ∨
  (∀ place, Preference.isOf username (host.preferences place) = false) ∨
  (ip.text ≠ [] ∧
    (∃ place, firstWith (Preference.isOf username) host.preferences = some place ∧
      (host.preferences place).ip.text = []) ∧
    ∃ place, (host.preferences place).inUse = false)

/-- What `host_ensure_preference_locked` gives: the record of the address, a new one, the first one of the user, or
none. -/
inductive Ensured (host : PreferenceHost) (username : CText 255) (ip : CText 63) :
    PreferenceHost × Option (Fin maxPreferences) → Prop where
  | found (place : Fin maxPreferences) (named : username.text ≠ [])
      (exact : Preference.matches username ip (host.preferences place)) : Ensured host username ip (host, some place)
  | created (place : Fin maxPreferences) (named : username.text ≠ []) (free : (host.preferences place).inUse = false)
      (absent : ∀ place, Preference.matches username ip (host.preferences place) = false)
      (fresh : ip.text = [] → findPreference host username ip = .none) (own : OwnRecord host username ip) :
      Ensured host username ip
        (⟨update host.preferences place (.created username ip), countUp host.preferenceCount⟩, some place)
  | shared (place : Fin maxPreferences) (named : username.text ≠ [])
      (absent : ∀ place, Preference.matches username ip (host.preferences place) = false)
      (first : firstWith (Preference.isOf username) host.preferences = some place)
      (foreign : ¬ OwnRecord host username ip) : Ensured host username ip (host, some place)
  | none (missing : findPreference host username ip = .none) : Ensured host username ip (host, .none)

theorem put_preferences (host : PreferenceHost) (place : Fin maxPreferences) (pref : Preference) :
    (host.put place pref).preferences = update host.preferences place pref := rfl

theorem matches_iff {pref : Preference} :
    Preference.matches username ip pref ↔ pref.inUse ∧ pref.username = username ∧ pref.ip = ip := by
  rw [Preference.matches, Preference.isOf]
  simp [and_assoc]

theorem isOf_iff {pref : Preference} :
    Preference.isOf username pref ↔ pref.inUse ∧ pref.username = username := by
  rw [Preference.isOf]
  simp

variable {existing : Option (Fin maxPreferences)}

theorem createPreference_full (full : firstFree Preference.inUse host.preferences = none) :
    createPreference host username ip existing = (host, existing) := by
  unfold createPreference
  rw [full]

theorem createPreference_free (free : firstFree Preference.inUse host.preferences = some place) :
    createPreference host username ip existing =
      (⟨update host.preferences place (.created username ip), countUp host.preferenceCount⟩, some place) := by
  unfold createPreference
  rw [free]
  rfl

theorem ensure_spec (host : PreferenceHost) (username : CText 255) (ip : CText 63) :
    Ensured host username ip (ensurePreference host username ip) := by
  rw [ensurePreference]
  split_ifs with unnamed
  · exact .none (by rw [findPreference, if_pos unnamed])
  cases exact : firstWith (Preference.matches username ip) host.preferences with
  | some place =>
    have here := firstWith_some exact
    have found : findPreference host username ip = some place := by
      rw [findPreference, if_neg unnamed, exact]
    have addressed : ip.text = [] ∨ (host.preferences place).ip.text ≠ [] := by
      rw [(matches_iff.mp here).2.2]
      exact em _
    rw [found]
    dsimp only
    rw [if_pos addressed]
    exact .found place unnamed here
  | none =>
    have absent := firstWith_none.mp exact
    have found : findPreference host username ip = firstWith (Preference.isOf username) host.preferences := by
      rw [findPreference, if_neg unnamed, exact]
    have both := Option.eq_none_or_eq_some (firstWith (Preference.isOf username) host.preferences)
    cases both with
    | inl nobody =>
      rw [found, nobody]
      have free' := Option.eq_none_or_eq_some (firstFree Preference.inUse host.preferences)
      cases free' with
      | inl full =>
        rw [createPreference_full full]
        exact .none (found.trans nobody)
      | inr some' =>
        obtain ⟨slot, free⟩ := some'
        rw [createPreference_free free]
        exact .created slot unnamed (firstFree_some free) absent (fun _ => found.trans nobody)
          (.inr (.inl (firstWith_none.mp nobody)))
    | inr some' =>
      obtain ⟨place, first⟩ := some'
      have notExact : ¬ ∃ place, Preference.matches username ip (host.preferences place) := by
        rintro ⟨place, here⟩
        rw [absent place] at here
        cases here
      have somebody : ¬ ∀ place, Preference.isOf username (host.preferences place) = false := by
        intro all
        rw [firstWith_none.mpr all] at first
        cases first
      rw [found, first]
      dsimp only
      split_ifs with shared
      · apply Ensured.shared place unnamed absent first
        rintro (here | nobody | ⟨named, ⟨place', first', blank⟩, -⟩)
        · exact notExact here
        · exact somebody nobody
        · obtain rfl : place = place' := Option.some.inj (first.symm.trans first')
          exact shared.elim named (fun addressed => addressed blank)
      · have free' := Option.eq_none_or_eq_some (firstFree Preference.inUse host.preferences)
        cases free' with
        | inl full =>
          rw [createPreference_full full]
          apply Ensured.shared place unnamed absent first
          rintro (here | nobody | ⟨-, -, slot, free⟩)
          · exact notExact here
          · exact somebody nobody
          · rw [firstFree_none.mp full slot] at free
            cases free
        | inr some' =>
          obtain ⟨slot, free⟩ := some'
          rw [createPreference_free free]
          rw [not_or, not_ne_iff] at shared
          exact .created slot unnamed (firstFree_some free) absent (fun none' => absurd none' shared.1)
            (.inr (.inr ⟨shared.1, ⟨place, first, shared.2⟩, slot, firstFree_some free⟩))

end Ensure

section Steps

variable (providers : List (Bytes × Bytes))

/-- The user and the address of a call. -/
def PreferenceEvent.key : PreferenceEvent → CText 255 × CText 63
  | .ensure username ip => (username, ip)
  | .userTheme ctx | .systemTheme ctx | .userOs ctx | .birthday ctx _ | .chatSpacing ctx | .translationPreferences ctx
  | .breakingAlerts ctx => (ctx.name, .zero)
  | .uiLanguage ctx => (ctx.name, ctx.clientIp)

/-- The record that a call gets. -/
def written (host : PreferenceHost) (event : PreferenceEvent) : Option (Fin maxPreferences) :=
  (ensurePreference host event.key.1 event.key.2).2

def Keeps (ip : CText 63) (change : Preference → Preference) : Prop :=
  ∀ pref, (change pref).inUse = pref.inUse ∧ (change pref).username = pref.username ∧
    ((change pref).ip = pref.ip ∨ (change pref).ip = ip)

theorem set_keeps (ip : CText 63) (change : Settings → Settings) : Keeps ip (Preference.set change) :=
  fun _ => ⟨rfl, rfl, .inl rfl⟩

variable {host : PreferenceHost} {username : CText 255} {ip : CText 63} {change : Preference → Preference}

theorem storeAt_id (host : PreferenceHost) (username : CText 255) (ip : CText 63) :
    storeAt host username ip id = (ensurePreference host username ip).1 := by
  rw [storeAt]
  cases ensurePreference host username ip with
  | mk next place =>
    cases place with
    | none => rfl
    | some =>
      dsimp only
      rw [PreferenceHost.put, id, update_eq_self]

/-- What `host_store_ui_language` changes. -/
def languageChange (ctx : Session) (pref : Preference) : Preference :=
  { pref with
    ip := if ctx.clientIp.text ≠ [] then ctx.clientIp else pref.ip
    settings :=
      { pref.settings with
        uiLanguage := .print ctx.uiLanguageCode
        providerLabel := (detectProviderIp providers ctx.clientIp).getD .zero } }

theorem languageChange_keeps (ctx : Session) : Keeps ctx.clientIp (languageChange providers ctx) := by
  intro pref
  refine ⟨rfl, rfl, ?_⟩
  by_cases named : ctx.clientIp.text ≠ []
  · exact .inr (if_pos named)
  · exact .inl (if_neg named)

/-- Every call is a change of the record that it gets. -/
theorem step_storeAt (host : PreferenceHost) (event : PreferenceEvent) :
    ∃ change, Keeps event.key.2 change ∧ preferenceStep providers host event =
      storeAt host event.key.1 event.key.2 change := by
  cases event with
  | ensure username ip => exact ⟨id, fun _ => ⟨rfl, rfl, .inl rfl⟩, (storeAt_id host username ip).symm⟩
  | userTheme => exact ⟨_, set_keeps _ _, rfl⟩
  | systemTheme => exact ⟨_, set_keeps _ _, rfl⟩
  | userOs => exact ⟨_, set_keeps _ _, rfl⟩
  | birthday => exact ⟨_, set_keeps _ _, rfl⟩
  | chatSpacing => exact ⟨_, set_keeps _ _, rfl⟩
  | translationPreferences => exact ⟨_, set_keeps _ _, rfl⟩
  | breakingAlerts => exact ⟨_, set_keeps _ _, rfl⟩
  | uiLanguage ctx => exact ⟨_, languageChange_keeps providers ctx, rfl⟩

/-- A record may be put where no other record is of its user and address. -/
theorem apart_put {table : PreferenceTable} (apart : PairsApart table) (place : Fin maxPreferences) (pref : Preference)
    (alone : ∀ other ≠ place, (table other).inUse → (table other).username = pref.username →
      (table other).ip ≠ pref.ip) : PairsApart (update table place pref) := by
  intro first second used used' named addressed
  by_cases here : first = place
  · by_cases there : second = place
    · rw [here, there]
    · subst here
      rw [update_self, update_of_ne there] at named addressed
      rw [update_of_ne there] at used'
      exact absurd addressed.symm (alone second there used' named.symm)
  · by_cases there : second = place
    · subst there
      rw [update_self, update_of_ne here] at named addressed
      rw [update_of_ne here] at used
      exact absurd addressed (alone first here used named)
    · rw [update_of_ne here] at used named addressed
      rw [update_of_ne there] at used' named addressed
      exact apart first second used used' named addressed

variable {place : Fin maxPreferences}

/-- A change of a record whose address is its own, or that no other record of the user has, keeps the table sound. -/
theorem put_sound (sound : Sound host) (keeps : Keeps ip change) (used : (host.preferences place).inUse)
    (alone : ∀ other ≠ place, Preference.matches (host.preferences place).username ip (host.preferences other) =
      false) :
    Sound (host.put place (change (host.preferences place))) := by
  obtain ⟨inUse, named, addressed⟩ := keeps (host.preferences place)
  constructor
  case apart =>
    apply apart_put sound.apart
    intro other away used' named' same
    rw [named] at named'
    rcases addressed with own | given
    · rw [own] at same
      exact away (sound.apart other place used' used named' same)
    · rw [given] at same
      have hit := matches_iff.mpr ⟨used', named', same⟩
      rw [alone other away] at hit
      cases hit
  case counted =>
    change host.preferenceCount = usedCount _ (update host.preferences place _)
    rw [usedCount_keep inUse]
    exact sound.counted

theorem created_sound (sound : Sound host) (free : (host.preferences place).inUse = false)
    (absent : ∀ place, Preference.matches username ip (host.preferences place) = false) :
    Sound ⟨update host.preferences place (.created username ip), countUp host.preferenceCount⟩ := by
  constructor
  case apart =>
    apply apart_put sound.apart
    intro other _ used named same
    have hit : Preference.matches username ip (host.preferences other) := matches_iff.mpr ⟨used, named, same⟩
    rw [absent other] at hit
    cases hit
  case counted =>
    have room : host.preferenceCount < maxPreferences := by
      rw [sound.counted]
      exact usedCount_lt free
    rw [countUp, if_pos room, usedCount_fill free rfl, sound.counted]

/-- The record of a user and an address is found. -/
theorem find_matches (named : username.text ≠ []) (apart : PairsApart host.preferences)
    (here : Preference.matches username ip (host.preferences place)) :
    findPreference host username ip = some place := by
  have only : firstWith (Preference.matches username ip) host.preferences = some place := by
    apply firstWith_unique here
    intro other there
    obtain ⟨used, user, address⟩ := matches_iff.mp here
    obtain ⟨used', user', address'⟩ := matches_iff.mp there
    exact apart other place used' used (user'.trans user.symm) (address'.trans address.symm)
  rw [findPreference, if_neg named, only]

theorem find_shared (named : username.text ≠ [])
    (absent : ∀ place, Preference.matches username ip (host.preferences place) = false) :
    findPreference host username ip = firstWith (Preference.isOf username) host.preferences := by
  rw [findPreference, if_neg named, firstWith_none.mpr absent]

/-- What a call with a user and an address does. -/
structure Stored (host : PreferenceHost) (username : CText 255) (ip : CText 63) (next : PreferenceHost)
    (place : Option (Fin maxPreferences)) : Prop where
  apart : PairsApart next.preferences
  counted : next.preferenceCount = usedCount Preference.inUse next.preferences
  found : findPreference next username ip = place
  own : OwnRecord host username ip → ∀ other ≠ ip, ∀ slot,
    Preference.matches username other (host.preferences slot) → next.preferences slot = host.preferences slot
  foreign : username.text ≠ [] → ¬OwnRecord host username ip → ∃ other ≠ ip, ∃ slot, place = some slot ∧
    Preference.matches username other (host.preferences slot)
  first : ip.text = [] → ∀ slot, findPreference host username ip = some slot → place = some slot
  rest : ∀ slot, place ≠ some slot → next.preferences slot = host.preferences slot

/-- A record of the address stays one under a change. -/
theorem keeps_matches (keeps : Keeps ip change) {pref : Preference}
    (here : Preference.matches username ip pref) : Preference.matches username ip (change pref) := by
  obtain ⟨used, user, address⟩ := matches_iff.mp here
  obtain ⟨used', user', address'⟩ := keeps pref
  refine matches_iff.mpr ⟨used'.trans used, user'.trans user, ?_⟩
  exact address'.elim (fun own => own.trans address) id

theorem put_rest (host : PreferenceHost) (place : Fin maxPreferences) (pref : Preference) {slot : Fin maxPreferences}
    (away : some place ≠ some slot) : (host.put place pref).preferences slot = host.preferences slot :=
  update_of_ne (fun same => away (congrArg some same.symm)) _ _

/-- A change of the record of the address. -/
theorem found_stored (sound : Sound host) (keeps : Keeps ip change) (named : username.text ≠ [])
    (here : Preference.matches username ip (host.preferences place)) :
    Stored host username ip (host.put place (change (host.preferences place))) (some place) := by
  obtain ⟨used, user, address⟩ := matches_iff.mp here
  have next : Sound (host.put place (change (host.preferences place))) := by
    apply put_sound sound keeps used
    intro other away
    rw [user, ← Bool.not_eq_true]
    intro there
    obtain ⟨used', user', address'⟩ := matches_iff.mp there
    exact away (sound.apart other place used' used (user'.trans user.symm) (address'.trans address.symm))
  constructor
  case apart => exact next.apart
  case counted => exact next.counted
  case found =>
    apply find_matches named next.apart
    rw [put_preferences, update_self]
    exact keeps_matches keeps here
  case own =>
    intro _ other differs slot there
    apply put_rest
    intro same
    rw [← Option.some.inj same] at there
    exact differs ((matches_iff.mp there).2.2.symm.trans address)
  case foreign => exact fun _ missing => absurd (.inl ⟨place, here⟩) missing
  case first =>
    intro _ slot first
    exact (find_matches named sound.apart here).symm.trans first
  case rest => exact fun slot => put_rest host place _

/-- A new record that is changed. -/
theorem created_stored (sound : Sound host) (keeps : Keeps ip change) (named : username.text ≠ [])
    (free : (host.preferences place).inUse = false)
    (absent : ∀ place, Preference.matches username ip (host.preferences place) = false)
    (fresh : ip.text = [] → findPreference host username ip = none) (own : OwnRecord host username ip) :
    Stored host username ip
      ⟨update host.preferences place (change (.created username ip)), countUp host.preferenceCount⟩
      (some place) := by
  have created := created_sound sound free absent
  have here : Preference.matches username ip (.created username ip) := matches_iff.mpr ⟨rfl, rfl, rfl⟩
  have there : Preference.matches username ip
      (update host.preferences place (.created username ip) place) := by
    rwa [update_self]
  have stored := found_stored created keeps named there
  dsimp only at stored
  rw [update_self] at stored
  have once : (⟨update host.preferences place (.created username ip), countUp host.preferenceCount⟩ :
      PreferenceHost).put place (change (.created username ip)) =
      ⟨update host.preferences place (change (.created username ip)), countUp host.preferenceCount⟩ := by
    rw [PreferenceHost.put, update_idem]
  rw [once] at stored
  have away {slot : Fin maxPreferences} (other : slot ≠ place) :
      update host.preferences place (change (.created username ip)) slot = host.preferences slot :=
    update_of_ne other _ _
  constructor
  case apart => exact stored.apart
  case counted => exact stored.counted
  case found => exact stored.found
  case own =>
    intro _ other _ slot inside
    apply away
    rintro rfl
    rw [(matches_iff.mp inside).1] at free
    cases free
  case foreign => exact fun _ missing => absurd own missing
  case first =>
    intro none' slot found
    rw [fresh none'] at found
    cases found
  case rest =>
    intro slot differs
    apply away
    rintro rfl
    exact differs rfl

theorem shared_stored (sound : Sound host) (keeps : Keeps ip change) (named : username.text ≠ [])
    (absent : ∀ place, Preference.matches username ip (host.preferences place) = false)
    (first : firstWith (Preference.isOf username) host.preferences = some place)
    (foreign : ¬ OwnRecord host username ip) :
    Stored host username ip (host.put place (change (host.preferences place))) (some place) := by
  obtain ⟨used, user⟩ := isOf_iff.mp (firstWith_some first)
  obtain ⟨used', user', address'⟩ := keeps (host.preferences place)
  have next : Sound (host.put place (change (host.preferences place))) := by
    apply put_sound sound keeps used
    intro other _
    rw [user]
    exact absent other
  constructor
  case apart => exact next.apart
  case counted => exact next.counted
  case found =>
    by_cases given : (change (host.preferences place)).ip = ip
    · apply find_matches named next.apart
      rw [put_preferences, update_self]
      exact matches_iff.mpr ⟨used'.trans used, user'.trans user, given⟩
    · have still : ∀ slot, Preference.matches username ip
          ((host.put place (change (host.preferences place))).preferences slot) = false := by
        intro slot
        by_cases same : slot = place
        · subst same
          rw [put_preferences, update_self, ← Bool.not_eq_true, matches_iff]
          exact fun all => given all.2.2
        · rw [put_preferences, update_of_ne same]
          exact absent slot
      rw [find_shared named still, put_preferences, firstWith_update]
      · exact first
      · rw [Preference.isOf, Preference.isOf, used', user']
  case own => exact fun own => absurd own foreign
  case foreign =>
    intro _ _
    refine ⟨(host.preferences place).ip, ?_, place, rfl, matches_iff.mpr ⟨used, user, rfl⟩⟩
    intro same
    exact Bool.noConfusion ((absent place).symm.trans (matches_iff.mpr ⟨used, user, same⟩))
  case first =>
    intro _ slot found
    rw [find_shared named absent, first] at found
    exact found
  case rest => exact fun slot => put_rest host place _

/-- Every store with a user and an address is sound, found by the lookup, and leaves the records of other addresses. -/
theorem storeAt_stored (sound : Sound host) (keeps : Keeps ip change) :
    Stored host username ip (storeAt host username ip change) (ensurePreference host username ip).2 := by
  have ensured := ensure_spec host username ip
  rw [storeAt]
  cases ensured' : ensurePreference host username ip with
  | mk next place =>
    rw [ensured'] at ensured
    cases ensured with
    | found place named here => exact found_stored sound keeps named here
    | created place named free absent fresh own =>
      have stored := created_stored sound keeps named free absent fresh own
      dsimp only
      rwa [PreferenceHost.put, update_self, update_idem]
    | shared place named absent first foreign => exact shared_stored sound keeps named absent first foreign
    | none missing =>
      constructor
      case apart => exact sound.apart
      case counted => exact sound.counted
      case found => exact missing
      case own => exact fun _ _ _ _ _ => rfl
      case foreign =>
        intro named elsewhere
        rw [findPreference, if_neg named] at missing
        split at missing
        · cases missing
        · exact absurd (.inr (.inl (firstWith_none.mp missing))) elsewhere
      case first =>
        intro _ slot found
        rw [missing] at found
        cases found
      case rest => exact fun _ _ => rfl

/-- A call keeps the table sound, is seen by the lookup with its user and address, and leaves the records of other
addresses when its user has an own record. -/
def Lawful (host : PreferenceHost) (event : PreferenceEvent) : Prop :=
  Stored host event.key.1 event.key.2 (preferenceStep providers host event) (written host event)

theorem step_lawful (host : PreferenceHost) (event : PreferenceEvent) (sound : Sound host) :
    Lawful providers host event := by
  obtain ⟨change, keeps, same⟩ := step_storeAt providers host event
  rw [Lawful, same]
  exact storeAt_stored sound keeps

theorem step_sound (host : PreferenceHost) (event : PreferenceEvent) (sound : Sound host) :
    Sound (preferenceStep providers host event) := by
  have lawful := step_lawful providers host event sound
  exact ⟨lawful.apart, lawful.counted⟩

end Steps

/-- No record is in use. -/
def PreferenceHost.empty : PreferenceHost := ⟨fun _ => ⟨false, .zero, .zero, .zero⟩, 0⟩

theorem empty_sound : Sound .empty where
  apart := fun _ _ used => by cases used
  counted := by
    have none' : usedCount Preference.inUse PreferenceHost.empty.preferences = 0 := Finset.sum_eq_zero fun _ _ => rfl
    exact none'.symm

/-- In every run that starts with a sound table the records are kept per user and address. -/
theorem preferences_lawful (providers : List (Bytes × Bytes)) (host : PreferenceHost) (start : Sound host)
    (events : List PreferenceEvent) : Along (preferenceStep providers) (Lawful providers) host events :=
  along_always Sound (step_sound providers) (step_lawful providers) start events

def sessionAt (name ip code : Bytes) : Session where
  name := .print name
  clientIp := .print ip
  userColorCode := .zero
  userHighlightCode := .zero
  userColorName := .zero
  userHighlightName := .zero
  userIsBold := false
  systemFgName := .zero
  systemBgName := .zero
  systemHighlightName := .zero
  systemIsBold := false
  osName := .zero
  translationCaptionSpacing := 0
  translationEnabled := false
  outputTranslationEnabled := false
  inputTranslationEnabled := false
  outputTranslationLanguage := .zero
  inputTranslationLanguage := .zero
  uiLanguageCode := code
  breakingAlertsEnabled := false

/-- A user stores a theme and then a language at two addresses. -/
theorem preferences_lawful_bob :
    Along (preferenceStep [(str "73.", str "US ISP")]) (Lawful [(str "73.", str "US ISP")]) .empty
      [.userTheme (sessionAt (str "bob") (str "73.0.0.1") (str "en")),
        .uiLanguage (sessionAt (str "bob") (str "73.0.0.1") (str "en")),
        .uiLanguage (sessionAt (str "bob") (str "10.0.0.2") (str "ko"))] :=
  preferences_lawful _ .empty empty_sound _

/-- The store of a session at one address takes the record of the other address of its user. -/
theorem store_takes_record :
    ¬ ∀ (events : List PreferenceEvent), Along (preferenceStep []) (fun host event =>
      (∃ place, (host.preferences place).inUse = false) → ∀ other ≠ event.key.2, ∀ place,
        Preference.matches event.key.1 other (host.preferences place) →
          (preferenceStep [] host event).preferences place = host.preferences place) .empty events := by
  intro all
  have last := (all [.uiLanguage (sessionAt (str "bob") (str "10.0.0.1") (str "en")),
    .uiLanguage (sessionAt (str "bob") (str "10.0.0.2") (str "ko"))]).2.1
  have kept := last ⟨1, by decide +kernel⟩ (.print (str "10.0.0.1")) (by decide +kernel) 0 (by decide +kernel)
  revert kept
  decide +kernel

section Ballots

/-- The main poll keeps its ballots in the records of the table. -/
structure SharesTable (table : PreferenceTable) (ballots : List Polls.Preference) : Prop where
  length : ballots.length = maxPreferences
  same : ∀ (place : Fin maxPreferences) (ballot : Polls.Preference), ballots[place.val]? = some ballot →
    ballot.inUse = (table place).inUse ∧ ballot.username = (table place).username.text ∧
      ballot.ip = (table place).ip.text

variable {host : PreferenceHost} {ballots : List Polls.Preference} (username : CText 255) (ip : CText 63)

theorem text_inj {room : Nat} {first second : CText room} : first.text = second.text ↔ first = second := by
  cases first
  cases second
  rw [CText.mk.injEq]

theorem SharesTable.find (shares : SharesTable host.preferences ballots) :
    Polls.findPreference ballots username.text ip.text = (findPreference host username ip).map Fin.val := by
  have named : ballots.findIdx? (Polls.Preference.isOf username.text) =
      (firstWith (Preference.isOf username) host.preferences).map Fin.val := by
    refine findIdx_rows shares.length fun place ballot here => ?_
    obtain ⟨inUse, name, -⟩ := shares.same place ballot here
    simp [Polls.Preference.isOf, Preference.isOf, inUse, name, text_inj]
  have addressed : ballots.findIdx? (Polls.Preference.matchesIp username.text ip.text) =
      (firstWith (Preference.matches username ip) host.preferences).map Fin.val := by
    refine findIdx_rows shares.length fun place ballot here => ?_
    obtain ⟨inUse, name, address⟩ := shares.same place ballot here
    simp [Polls.Preference.matchesIp, Polls.Preference.isOf, Preference.matches, Preference.isOf, inUse, name, address,
      text_inj]
  rw [Polls.findPreference, findPreference, named, addressed]
  split_ifs
  · rfl
  · cases firstWith (Preference.matches username ip) host.preferences with
    | none => rw [Option.map_none, Option.none_or]
    | some => rw [Option.map_some, Option.some_or]

theorem SharesTable.free (shares : SharesTable host.preferences ballots) :
    ballots.findIdx? (fun ballot => ballot.inUse = false) =
      (firstFree Preference.inUse host.preferences).map Fin.val := by
  refine findIdx_rows shares.length fun place ballot here => ?_
  rw [(shares.same place ballot here).1]
  simp

theorem SharesTable.fill (shares : SharesTable host.preferences ballots) (place : Fin maxPreferences) :
    SharesTable (host.put place (.created username ip)).preferences
      (ballots.set place.val (.new username.text ip.text)) := by
  refine ⟨List.length_set.trans shares.length, fun other ballot here => ?_⟩
  have put : (host.put place (.created username ip)).preferences =
      update host.preferences place (.created username ip) := rfl
  by_cases same : other = place
  · subst same
    rw [List.getElem?_set_self (other.isLt.trans_eq shares.length.symm)] at here
    cases here
    rw [put, update_self]
    exact ⟨rfl, rfl, rfl⟩
  · rw [List.getElem?_set_ne (fun equal => same (Fin.ext equal.symm))] at here
    rw [put, update_of_ne same]
    exact shares.same other ballot here

/-- Both models of `host_ensure_preference_locked` take the same record and go on with the same table. -/
theorem SharesTable.ensure (shares : SharesTable host.preferences ballots) :
    ∃ ballots', SharesTable (ensurePreference host username ip).1.preferences ballots' ∧
      Polls.ensurePreference ballots username.text ip.text =
        (ensurePreference host username ip).2.map fun place => (ballots', place.val) := by
  rw [Polls.ensurePreference, ensurePreference, shares.find, shares.free]
  by_cases nameless : username.text = []
  · rw [if_pos nameless, if_pos nameless]
    exact ⟨ballots, shares, (Option.map_none _).symm⟩
  rw [if_neg nameless, if_neg nameless]
  unfold createPreference
  generalize firstFree Preference.inUse host.preferences = vacant
  cases findPreference host username ip with
  | none =>
    cases vacant with
    | none => exact ⟨ballots, shares, (Option.map_none _).symm⟩
    | some place => exact ⟨_, shares.fill username ip place, (Option.map_some ..).symm⟩
  | some existing =>
    have inside : existing.val < ballots.length := existing.isLt.trans_eq shares.length.symm
    have address := (shares.same existing _ (List.getElem?_eq_getElem inside)).2.2
    simp only [Option.map_some, Option.any_some, List.getElem?_eq_getElem inside, Option.getD_some, address,
      decide_eq_true_eq]
    by_cases kept : ip.text = [] ∨ (host.preferences existing).ip.text ≠ []
    · rw [if_pos kept, if_pos kept]
      exact ⟨ballots, shares, (Option.map_some ..).symm⟩
    · rw [if_neg kept, if_neg kept]
      cases vacant with
      | none => exact ⟨ballots, shares, (Option.map_some ..).symm⟩
      | some place => exact ⟨_, shares.fill username ip place, (Option.map_some ..).symm⟩

end Ballots

end SshChatter.Preferences
