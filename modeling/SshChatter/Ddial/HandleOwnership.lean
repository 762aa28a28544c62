import SshChatter.Ddial.HandleCommand
import SshChatter.Ddial.MvStation

namespace SshChatter.Ddial
open CString AtomicProgram DdialProtocol NameRegistry EventRun List

theorem print_clean {text : Bytes} (noNul : 0 ∉ text) :
    (CText.print (sanitizeHandle text maxHandleLen) : CText 31).text = sanitizeHandle text maxHandleLen := by
  have clean : 0 ∉ sanitizeHandle text maxHandleLen := fun inside => noNul (sanitizeHandle_mem inside).1
  have short : (sanitizeHandle text maxHandleLen).length ≤ 31 :=
    (sanitizeHandle_length text maxHandleLen).trans (by decide)
  exact congrArg CText.text (CText.print_text ⟨sanitizeHandle text maxHandleLen, short, clean⟩)

theorem print_asked {arg : Bytes} (noNul : 0 ∉ arg) :
    (CText.print (askedHandle arg) : CText 31).text = askedHandle arg := by
  apply print_clean
  intro inside
  have taken := mem_of_mem_take inside
  split_ifs at taken
  · exact noNul (renderPlain_mem taken)
  · exact noNul taken

theorem skipWs_mem {text : Bytes} {c : UInt8} (kept : c ∈ skipWs text) : c ∈ text :=
  (dropWhile_sublist _).subset kept

section Programs

variable {derive : Derive} {members : List Member} {sess : MvSession} {inUse : Bytes → Bool}

theorem found_put {number : UInt32} {old m : Member} (found : findNo members number = some old)
    (same : m.number = old.number) (key : m.key = old.key) : names (memberPut members m).1 = names members := by
  have stored : findNo members old.number = some old := by rw [(findNo_mem found).1, found]
  exact names_put_same stored same key

/-- What a command does with a handle: nothing, or it takes a handle that nobody else owns or carries. -/
inductive HandleOutcome (members : List Member) (sess : MvSession) (inUse : Bytes → Bool) :
    List Member × CommandResult → Prop where
  | refused (outcome : List Member × CommandResult) (same : names outcome.1 = names members)
      (quiet : outcome.2.effect = .nothing ∨ outcome.2.effect = .stackOverflow) :
      HandleOutcome members sess inUse outcome
  | taken (outcome : List Member × CommandResult) (clean : Bytes) (fits : (CText.print clean : CText 31).text = clean)
      (some' : clean ≠ []) (mine : memberOwnerOf members clean = 0 ∨ memberOwnerOf members clean = sess.memberNo)
      (free : inUse clean = false) (effect : outcome.2.effect = .rename clean)
      (stored : sess.memberNo = 0 ∧ outcome.1 = members ∨
        sess.memberNo ≠ 0 ∧ (findNo members sess.memberNo = none ∨
          ∃ old m, findNo members sess.memberNo = some old ∧ m.number = old.number ∧ m.handle.text = clean ∧
            outcome.1 = (memberPut members m).1)) :
      HandleOutcome members sess inUse outcome

theorem takeHandle_outcome {arg : Bytes} (noNul : 0 ∉ arg) :
    HandleOutcome members sess inUse ((takeHandle sess inUse arg).run (memberExec derive) members) := by
  have step := takeHandle_step derive members sess inUse arg
  generalize (takeHandle sess inUse arg).run (memberExec derive) members = outcome at step ⊢
  cases step with
  | refused => exact .refused _ rfl (.inl rfl)
  | taken takable unkept =>
    exact .taken _ (askedHandle arg) (print_asked noNul) takable.some' takable.mine takable.free rfl
      (unkept.imp (fun guest => ⟨guest, rfl⟩) fun missing => ⟨missing.1, .inl missing.2⟩)
  | kept takable member old found =>
    exact .taken _ (askedHandle arg) (print_asked noNul) takable.some' takable.mine takable.free rfl
      (.inr ⟨member, .inr ⟨old, old.renamed arg, found, rfl, print_asked noNul, rfl⟩⟩)

theorem cmdHandle_outcome (derive : Derive) (members : List Member) (sess : MvSession) (inUse : Bytes → Bool)
    (depth : Nat) {arg : Bytes} (noNul : 0 ∉ arg) :
    HandleOutcome members sess inUse ((cmdHandle sess inUse depth arg).run (memberExec derive) members) := by
  induction depth generalizing arg with
  | zero => exact .refused _ rfl (.inr rfl)
  | succ depth ih =>
    have step := cmdHandle_step derive members sess inUse depth arg
    generalize (cmdHandle sess inUse (depth + 1) arg).run (memberExec derive) members = outcome at step ⊢
    cases step with
    | answered => exact .refused _ rfl (.inl rfl)
    | saved other m found => exact .refused _ (found_put found rfl rfl) (.inl rfl)
    | again m slot => exact ih (m.savedHandles slot).clean
    | taking => exact takeHandle_outcome fun inside => noNul (skipWs_mem inside)

/-- What a login line does: nothing, or a guest comes with a handle that nobody owns or carries, or a member comes
who is not there yet. -/
inductive LoginOutcome (members : List Member) (inUse : Bytes → Bool) (online : UInt32 → Bool) :
    List Member × CommandResult → Prop where
  | refused (outcome : List Member × CommandResult) (same : outcome.1 = members)
      (quiet : outcome.2.effect = .nothing) : LoginOutcome members inUse online outcome
  | guest (outcome : List Member × CommandResult) (clean : Bytes) (same : outcome.1 = members)
      (fits : (CText.print clean : CText 31).text = clean) (some' : clean ≠ [])
      (unowned : memberOwnerOf members clean = 0) (free : inUse clean = false)
      (effect : outcome.2.effect = .guest clean) : LoginOutcome members inUse online outcome
  | member (outcome : List Member × CommandResult) (old m : Member) (number : UInt32) (after : Option Bytes)
      (found : findNo members number = some old) (same : m.number = old.number) (key : m.key = old.key)
      (away : online number = false) (stored : outcome.1 = (memberPut members m).1)
      (effect : outcome.2.effect = .memberLogin m after) : LoginOutcome members inUse online outcome

theorem guestLogin_outcome {online : UInt32 → Bool} {line : Bytes} (noNul : 0 ∉ line) :
    LoginOutcome members inUse online ((guestLogin inUse line).run (memberExec derive) members) := by
  rw [guestLogin]
  by_cases invalid : sanitizeHandle line maxHandleLen = []
  · rw [if_pos invalid]
    exact .refused _ rfl rfl
  rw [if_neg invalid, run_ownerOf]
  by_cases owned : memberOwnerOf members (sanitizeHandle line maxHandleLen) ≠ 0
  · rw [if_pos owned]
    exact .refused _ rfl rfl
  rw [if_neg owned]
  by_cases carried : inUse (sanitizeHandle line maxHandleLen)
  · rw [if_pos carried]
    exact .refused _ rfl rfl
  · rw [if_neg carried]
    exact .guest _ (sanitizeHandle line maxHandleLen) rfl (print_clean noNul) invalid (not_not.mp owned)
      (by simpa using carried) rfl

theorem loginLine_outcome (derive : Derive) (members : List Member) (inUse : Bytes → Bool) (online : UInt32 → Bool)
    (now : Int) {line : Bytes} (noNul : 0 ∉ line) :
    LoginOutcome members inUse online ((loginLine inUse online now line).run (memberExec derive) members) := by
  have clean : 0 ∉ skipWs line := fun inside => noNul (skipWs_mem inside)
  rw [loginLine]
  by_cases empty : skipWs line = []
  · rw [if_pos empty]
    exact .refused _ rfl rfl
  rw [if_neg empty]
  cases parseUint (skipWs line) with
  | none => exact guestLogin_outcome clean
  | some parsed =>
    obtain ⟨number, p⟩ := parsed
    dsimp only
    by_cases bare : p = []
    · rw [if_pos bare]
      exact guestLogin_outcome clean
    rw [if_neg bare, run_get]
    cases findNo members number with
    | none => exact guestLogin_outcome clean
    | some _ =>
      rw [run_authenticate]
      cases passed : memberAuthenticate derive members number (loginPassword p).1 with
      | none => exact .refused _ rfl rfl
      | some old =>
        dsimp only
        have found : findNo members number = some old := (Option.filter_eq_some_iff.mp passed).1
        by_cases busy : online number
        · rw [if_pos busy]
          exact .refused _ rfl rfl
        · rw [if_neg busy]
          exact .member _ old { old with logins := old.logins + 1, lastSeen := now } number _ found rfl rfl
            (by simpa using busy) rfl rfl

theorem onLogout_outcome (derive : Derive) (members : List Member) (sess : MvSession) (now : Int) :
    names ((onLogout sess now).run (memberExec derive) members).1 = names members ∧
      ((onLogout sess now).run (memberExec derive) members).2.effect = .loggedOut := by
  rw [onLogout]
  split_ifs
  · exact ⟨rfl, rfl⟩
  · rw [run_get]
    cases found : findNo members sess.memberNo with
    | none => exact ⟨rfl, rfl⟩
    | some => exact ⟨found_put found rfl rfl, rfl⟩

end Programs

section Stations

variable {n : Nat} {station : MvStation n} {who : Fin n} {derive : Derive} {envCosysop : UInt32 → Bool}

/-- Handles are not empty, and the members are numbered from one on. -/
structure Filled (registry : NameRegistry.Registry (Fin n) UInt32 Bytes) : Prop where
  named : ∀ who entry, registry.carries who = some entry → entry.1 ≠ []
  counted : ∀ owner ∈ registry.owns, 0 < owner.1.toNat ∧ owner.1.toNat ≤ registry.owns.length
  full : registry.owns.length ≤ memberMax
  owned : ∀ owner ∈ registry.owns, owner.2 ≠ []

structure StationSound (station : MvStation n) : Prop where
  sound : station.registry.Sound
  filled : Filled station.registry

variable {registry : NameRegistry.Registry (Fin n) UInt32 Bytes} {members : List Member} {number : UInt32}
  {clean : Bytes}

theorem Filled.nonzero (filled : Filled registry) {name : Bytes} : (0, name) ∉ registry.owns := by
  intro inside
  exact absurd (filled.counted _ inside).1 (lt_irrefl 0)

/-- A session that changes keeps the handles filled. -/
theorem Filled.update (filled : Filled registry) (who : Fin n) {entry : Option (Bytes × Option UInt32)}
    {owns : List (UInt32 × Bytes)} (named : ∀ found ∈ entry, found.1 ≠ [])
    (counted : ∀ owner ∈ owns, 0 < owner.1.toNat ∧ owner.1.toNat ≤ owns.length) (full : owns.length ≤ memberMax)
    (owned : ∀ owner ∈ owns, owner.2 ≠ []) : Filled ⟨Function.update registry.carries who entry, owns⟩ where
  named := by
    intro other found carried
    dsimp only at carried
    by_cases same : other = who
    · subst same
      rw [Function.update_self] at carried
      exact named found carried
    · rw [Function.update_of_ne same] at carried
      exact filled.named other found carried
  counted := counted
  full := full
  owned := owned

/-- A session whose new number owns its handle keeps the handles filled. -/
theorem Filled.append (filled : Filled registry) (who : Fin n) {name : Bytes} (named : name ≠ [])
    (positive : 0 < number.toNat) (fits : number.toNat ≤ registry.owns.length + 1)
    (room : registry.owns.length < memberMax) :
    Filled ⟨Function.update registry.carries who (some (name, some number)), registry.owns ++ [(number, name)]⟩ := by
  apply filled.update who
  · intro found inside
    rw [← Option.some.inj inside]
    exact named
  · intro owner inside
    rw [length_append]
    rcases mem_append.mp inside with before | last
    · have counted := filled.counted owner before
      omega
    · rw [mem_singleton.mp last]
      exact ⟨positive, fits⟩
  · rw [length_append, length_singleton]
    omega
  · intro owner inside
    rcases mem_append.mp inside with before | last
    · exact filled.owned owner before
    · rw [mem_singleton.mp last]
      exact named

theorem findHandle_none {handle : Bytes} (free : station.findHandle handle = none) (other : Fin n)
    (entry : Bytes × Option UInt32) (carried : station.registry.carries other = some entry) :
    entry.1 ≠ handleKey handle := by
  obtain ⟨here, rfl⟩ := entry_some.mp carried
  intro same
  exact find?_eq_none.mp free other (mem_finRange other) (decide_eq_true ⟨here, same⟩)

theorem findHandle_other (sound : station.registry.Sound) {handle : Bytes}
    (free : ((station.findHandle handle).any fun other => other ≠ who) = false) (other : Fin n) (away : other ≠ who)
    (entry : Bytes × Option UInt32) (carried : station.registry.carries other = some entry) :
    entry.1 ≠ handleKey handle := by
  cases found : station.findHandle handle with
  | none => exact findHandle_none found other entry carried
  | some first =>
    rw [found] at free
    obtain rfl : first = who := by simpa using free
    intro same
    have holds := find?_some found
    rw [decide_eq_true_eq] at holds
    exact away (sound.apart other first entry _ carried (entry_some.mpr ⟨holds.1, rfl⟩) (same.trans holds.2.symm))

theorem findMember_none (away : station.findMember number = none) (other : Fin n) (entry : Bytes × Option UInt32)
    (carried : station.registry.carries other = some entry) :
    entry.2 ≠ some number := by
  obtain ⟨here, rfl⟩ := entry_some.mp carried
  intro same
  obtain ⟨some', named⟩ := number_some.mp same
  exact find?_eq_none.mp away other (mem_finRange other) (decide_eq_true ⟨here, some', named⟩)

/-- A handle that may be taken is owned by nobody else. -/
theorem owner_mine (sound : StationSound station) {memberNo : UInt32}
    (mine : memberOwnerOf station.members clean = 0 ∨ memberOwnerOf station.members clean = memberNo)
    (number : UInt32) (owner : (number, handleKey clean) ∈ names station.members) :
    number ≠ 0 ∧ memberNo = number := by
  have some' : number ≠ 0 := by
    rintro rfl
    exact sound.filled.nonzero owner
  refine ⟨some', ?_⟩
  rcases memberOwnerOf_cases station.members clean with owned | ⟨-, unowned⟩
  · have same := inj_on_of_nodup_map sound.sound.names owner owned rfl
    have equal : number = memberOwnerOf station.members clean := (Prod.mk.inj same).1
    rw [equal] at some' ⊢
    exact (mine.resolve_left some').symm
  · exact absurd (mem_map_of_mem owner) unowned

/-- The session of a command takes a handle. -/
theorem StationSound.rename (sound : StationSound station) (here : (station.sessions who).loggedIn)
    (fits : (CText.print clean : CText 31).text = clean) (some' : clean ≠ [])
    (mine : memberOwnerOf station.members clean = 0 ∨ memberOwnerOf station.members clean =
      (station.sessions who).memberNo)
    (free : ((station.findHandle clean).any fun other => other ≠ who) = false)
    (stored : (station.sessions who).memberNo = 0 ∧ members = station.members ∨
      (station.sessions who).memberNo ≠ 0 ∧ (findNo station.members (station.sessions who).memberNo = none ∨
        ∃ old m, findNo station.members (station.sessions who).memberNo = some old ∧ m.number = old.number ∧
          m.handle.text = clean ∧ members = (memberPut station.members m).1)) :
    StationSound (({ station with members := members } : MvStation n).put who
      { station.sessions who with handle := .print clean }) := by
  have carried : station.registry.carries who = some (handleKey (station.sessions who).handle.text,
      (station.sessions who).number) := entry_some.mpr ⟨here, rfl⟩
  have owns : names members = (names station.members).map fun owner =>
      if (station.sessions who).number = some owner.1 then (owner.1, handleKey clean) else owner := by
    rcases stored with ⟨guest, rfl⟩ | ⟨numbered, missing | ⟨old, m, found, same, handle, rfl⟩⟩
    · simp [MvSession.number, guest]
    · exact absurd (sound.sound.known who _ _ carried (number_some.mpr ⟨numbered, rfl⟩)) (findNo_none.mp missing)
    · have number : old.number = (station.sessions who).memberNo := (findNo_mem found).1
      rw [names_put_rename sound.sound.numbers (by rw [number, found]) same, MvSession.number, if_neg numbered, number,
        Member.key, handle]
  have registry : ((({ station with members := members } : MvStation n).put who
      { station.sessions who with handle := .print clean })).registry =
        ⟨Function.update station.registry.carries who (some (handleKey clean, (station.sessions who).number)),
          (names station.members).map fun owner =>
            if (station.sessions who).number = some owner.1 then (owner.1, handleKey clean) else owner⟩ := by
    rw [put_registry]
    congr 2
    rw [entry_some]
    exact ⟨here, by rw [fits]; rfl⟩
  constructor
  · rw [registry]
    apply Step.sound _ sound.sound
    apply Step.rename who _ (handleKey clean) carried _ (findHandle_other sound.sound free)
    intro number owner
    exact number_some.mpr (owner_mine sound mine number owner)
  · rw [registry]
    apply sound.filled.update who
    · intro found inside
      rw [← Option.some.inj inside]
      exact mt handleKey_nil.mp some'
    · intro owner inside
      obtain ⟨old, before, rfl⟩ := mem_map.mp inside
      rw [length_map]
      have counted := sound.filled.counted old before
      split_ifs <;> exact counted
    · rw [length_map]
      exact sound.filled.full
    · intro owner inside
      obtain ⟨old, before, rfl⟩ := mem_map.mp inside
      split_ifs
      · exact mt handleKey_nil.mp some'
      · exact sound.filled.owned old before

theorem StationSound.quiet (sound : StationSound station) (same : names members = names station.members) :
    StationSound ({ station with members := members } : MvStation n) := by
  have registry : ({ station with members := members } : MvStation n).registry = station.registry := by
    rw [MvStation.registry, same]
    rfl
  constructor
  · rw [registry]
    exact sound.sound
  · rw [registry]
    exact sound.filled

/-- A session comes or goes while the names of the members stay. -/
theorem StationSound.enter (sound : StationSound station) (members : List Member) {sess : MvSession}
    (same : names members = names station.members) (some' : ∀ entry ∈ sess.entry, entry.1 ≠ [])
    (step : Step station.registry
      ⟨Function.update station.registry.carries who sess.entry, station.registry.owns⟩) :
    StationSound (({ station with members := members } : MvStation n).put who sess) := by
  have registry : (({ station with members := members } : MvStation n).put who sess).registry =
      ⟨Function.update station.registry.carries who sess.entry, station.registry.owns⟩ := by
    rw [put_registry]
    rw [same]
    rfl
  constructor
  · rw [registry]
    exact step.sound sound.sound
  · rw [registry]
    exact sound.filled.update who some' sound.filled.counted sound.filled.full sound.filled.owned

theorem unowned_key (sound : StationSound station) (unowned : memberOwnerOf station.members clean = 0) :
    handleKey clean ∉ station.registry.owns.map Prod.snd := by
  rcases memberOwnerOf_cases station.members clean with owned | ⟨-, absent⟩
  · rw [unowned] at owned
    exact absurd owned sound.filled.nonzero
  · exact absent

theorem StationSound.guest (sound : StationSound station) (fits : (CText.print clean : CText 31).text = clean)
    (some' : clean ≠ []) (unowned : memberOwnerOf station.members clean = 0)
    (free : station.findHandle clean = none) :
    StationSound (station.put who { MvSession.fresh with loggedIn := true, handle := .print clean }) := by
  have entry : ({ MvSession.fresh with loggedIn := true, handle := .print clean } : MvSession).entry =
      some (handleKey clean, none) := entry_some.mpr ⟨rfl, by rw [fits]; rfl⟩
  apply sound.enter station.members rfl
  · intro found inside
    rw [entry] at inside
    rw [← Option.some.inj inside]
    exact mt handleKey_nil.mp some'
  · rw [entry]
    exact Step.visit who (handleKey clean) (unowned_key sound unowned) (findHandle_none free)

theorem StationSound.member (sound : StationSound station) {old m : Member}
    (found : findNo station.members number = some old) (same : m.number = old.number) (key : m.key = old.key)
    (away : station.findMember number = none) :
    StationSound (({ station with members := (memberPut station.members m).1 } : MvStation n).put who
      { applyMember envCosysop .fresh m with loggedIn := true }) := by
  obtain ⟨named, owned⟩ := findNo_mem found
  have numbered : number ≠ 0 := by
    rintro rfl
    exact sound.filled.nonzero owned
  have entry : ({ applyMember envCosysop .fresh m with loggedIn := true } : MvSession).entry =
      some (old.key, some number) := by
    rw [entry_some]
    refine ⟨rfl, ?_⟩
    rw [← key, number_some.mpr ⟨numbered, same.trans named⟩]
    rfl
  apply sound.enter _ (found_put found same key)
  · intro found inside
    rw [entry] at inside
    rw [← Option.some.inj inside]
    exact sound.filled.owned _ owned
  · rw [entry]
    exact Step.enter who number old.key owned (findMember_none away)

theorem nextNumber_spec {bound : Nat} (small : bound < 2 ^ 32 - 1) (below : ∀ m ∈ members, m.number.toNat ≤ bound) :
    (∀ m ∈ members, m.number.toNat < (nextNumber members).toNat) ∧ 0 < (nextNumber members).toNat ∧
      (nextNumber members).toNat ≤ bound + 1 := by
  have fold (next : UInt32) (positive : 0 < next.toNat) (fits : next.toNat ≤ bound + 1) :
      let last := members.foldl (fun next member => if next ≤ member.number then member.number + 1 else next) next
      (∀ m ∈ members, m.number.toNat < last.toNat) ∧ next.toNat ≤ last.toNat ∧ last.toNat ≤ bound + 1 := by
    induction members generalizing next with
    | nil => exact ⟨fun _ inside => absurd inside not_mem_nil, le_refl _, fits⟩
    | cons first members ih =>
      have here := below first mem_cons_self
      have later := fun m inside => below m (mem_cons_of_mem _ inside)
      have succ : (first.number + 1).toNat = first.number.toNat + 1 := by
        rw [UInt32.toNat_add, UInt32.toNat_one]
        omega
      rw [foldl_cons]
      split_ifs with low
      · have low' := UInt32.le_iff_toNat_le.mp low
        obtain ⟨above, grows, fits'⟩ := ih later (first.number + 1) (by omega) (by omega)
        refine ⟨?_, by omega, fits'⟩
        intro m inside
        rcases mem_cons.mp inside with rfl | behind
        · omega
        · exact above m behind
      · have high : first.number.toNat < next.toNat := by
          rw [UInt32.le_iff_toNat_le] at low
          omega
        obtain ⟨above, grows, fits'⟩ := ih later next positive fits
        refine ⟨?_, grows, fits'⟩
        intro m inside
        rcases mem_cons.mp inside with rfl | behind
        · omega
        · exact above m behind
  obtain ⟨above, grows, fits⟩ := fold 1 (by decide) (by
    show 1 ≤ bound + 1
    omega)
  exact ⟨above, lt_of_lt_of_le (by decide : 0 < (1 : UInt32).toNat) grows, fits⟩

theorem Filled.nextNumber (filled : Filled station.registry) (room : station.members.length < memberMax) :
    nextNumber station.members ∉ station.registry.owns.map Prod.fst ∧ 0 < (nextNumber station.members).toNat ∧
      (nextNumber station.members).toNat ≤ station.members.length + 1 := by
  have limit : memberMax = 1024 := rfl
  have length : (names station.members).length = station.members.length := names_length _
  have below : ∀ m ∈ station.members, m.number.toNat ≤ station.members.length := by
    intro m inside
    rw [← length]
    exact (filled.counted (m.number, m.key) (mem_map_of_mem inside)).2
  obtain ⟨above, positive, fits⟩ := nextNumber_spec (by omega) below
  refine ⟨fun inside => ?_, positive, fits⟩
  obtain ⟨owner, owned, same⟩ := mem_map.mp inside
  obtain ⟨m, member, rfl⟩ := mem_map.mp owned
  have less := above m member
  have equal : m.number = Ddial.nextNumber station.members := same
  rw [equal] at less
  exact lt_irrefl _ less

theorem findNo_append {m : Member} (new : findNo members m.number = none) :
    findNo (members ++ [m]) m.number = some m := by
  rw [findNo, KeyedList.lookup] at new ⊢
  rw [find?_append, new]
  simp

theorem memberSignup_ok {members members' : List Member} {handle password : Bytes} {salt : Option (Octets 16)}
    {now : Int} (made : memberSignup derive members handle password salt now = (members', .ok number)) :
    findMemberHandle members handle = none ∧ members.length < memberMax ∧ number = nextNumber members ∧
      ∃ salt hash, members' = members ++ [Member.new number handle salt hash now] := by
  rw [memberSignup] at made
  split_ifs at made with short odd owned full
  · cases made
  · cases made
  · cases made
  · cases made
  · cases drawn : salt.bind fun salt => (derive password salt).map fun hash => (salt, hash) with
    | none =>
      rw [drawn] at made
      cases made
    | some pair =>
      obtain ⟨salt, hash⟩ := pair
      rw [drawn] at made
      obtain ⟨rfl, given⟩ := Prod.mk.inj made
      obtain rfl := Except.ok.inj given
      exact ⟨by simpa using owned, Nat.lt_of_not_le full, rfl, salt, hash, rfl⟩

/-- A guest has the handle registered that the session carries. -/
theorem StationSound.join (sound : StationSound station) (here : (station.sessions who).loggedIn)
    (guest : (station.sessions who).memberNo = 0)
    (unowned : findMemberHandle station.members (station.sessions who).handle.text = none)
    (room : station.members.length < memberMax) (salt : Octets 16) (hash : Octets 32) (now : Int) :
    let number := nextNumber station.members
    let members := station.members ++ [Member.new number (station.sessions who).handle.text salt hash now]
    StationSound (match findNo members number with
      | none => { station with members := members }
      | some m =>
        ({ station with members := (memberPut members { m with logins := 1 }).1 } : MvStation n).put who
          (applyMember envCosysop (station.sessions who) { m with logins := 1 })) := by
  intro number members
  obtain ⟨new, positive, fits⟩ := sound.filled.nextNumber room
  have handle : (Member.new number (station.sessions who).handle.text salt hash now).handle =
      (station.sessions who).handle := CText.print_text _
  have key : (Member.new number (station.sessions who).handle.text salt hash now).key =
      handleKey (station.sessions who).handle.text := by rw [Member.key, handle]
  have found : findNo members number = some (Member.new number (station.sessions who).handle.text salt hash now) :=
    findNo_append (findNo_none.mpr new)
  have owns : names (memberPut members
      { Member.new number (station.sessions who).handle.text salt hash now with logins := 1 }).1 =
      station.registry.owns ++ [(number, handleKey (station.sessions who).handle.text)] := by
    have kept : names (memberPut members
        { Member.new number (station.sessions who).handle.text salt hash now with logins := 1 }).1 = names members :=
      found_put found rfl rfl
    rw [kept, ← key]
    exact map_append
  have numbered : number ≠ 0 := by
    intro zero
    have value : number.toNat = 0 := by rw [zero]; rfl
    exact absurd positive (by rw [show (nextNumber station.members).toNat = 0 from value]; exact lt_irrefl 0)
  have entry : (applyMember envCosysop (station.sessions who)
      { Member.new number (station.sessions who).handle.text salt hash now with logins := 1 }).entry =
      some (handleKey (station.sessions who).handle.text, some number) := by
    rw [entry_some]
    refine ⟨here, ?_⟩
    rw [← key, number_some.mpr ⟨numbered, rfl⟩]
    rfl
  have carried : station.registry.carries who = some (handleKey (station.sessions who).handle.text, none) := by
    apply entry_some.mpr
    exact ⟨here, by rw [MvSession.number, if_pos guest]⟩
  rw [found]
  have registry : (({ station with members := (memberPut members
      { Member.new number (station.sessions who).handle.text salt hash now with logins := 1 }).1 } : MvStation n).put
        who (applyMember envCosysop (station.sessions who)
          { Member.new number (station.sessions who).handle.text salt hash now with logins := 1 })).registry =
      ⟨Function.update station.registry.carries who
        (some (handleKey (station.sessions who).handle.text, some number)),
        station.registry.owns ++ [(number, handleKey (station.sessions who).handle.text)]⟩ := by
    rw [put_registry, entry, ← owns]
    rfl
  have size : station.registry.owns.length = station.members.length := names_length _
  constructor
  · rw [registry]
    apply Step.sound _ sound.sound
    apply Step.join who _ number carried new
    intro inside
    obtain ⟨owner, owned, same⟩ := mem_map.mp inside
    obtain ⟨m, member, rfl⟩ := mem_map.mp owned
    exact KeyedList.lookup_none.mp unowned (mem_map.mpr ⟨m, member, same⟩)
  · rw [registry]
    exact sound.filled.append who (sound.filled.named who _ carried) positive (by rw [size]; exact fits)
      (by rw [size]; exact room)

/-- A guest becomes a member. -/
theorem StationSound.signup (sound : StationSound station) (here : (station.sessions who).loggedIn)
    (password : Bytes) (salt : Option (Octets 16)) (now : Int) :
    StationSound (cmdSignup derive envCosysop station who password salt now) := by
  rw [cmdSignup]
  split_ifs with member empty
  · exact sound
  · exact sound
  cases made : memberSignup derive station.members (station.sessions who).handle.text (skipWs password) salt now with
  | mk members result =>
    cases result with
    | error => exact sound
    | ok =>
      obtain ⟨unowned, room, rfl, salt', hash, rfl⟩ := memberSignup_ok made
      exact sound.join here (not_not.mp member) unowned room salt' hash now

theorem station_step_sound (sound : StationSound station) (event : MvEvent n) :
    StationSound (station.step derive envCosysop event) := by
  cases event with
  | login who now line =>
    rw [MvStation.step]
    split_ifs with here
    · exact sound
    rw [MvStation.perform]
    cases loginLine_outcome derive station.members (fun handle => (station.findHandle handle).isSome)
      (fun number => (station.findMember number).isSome) now line.property with
    | refused same quiet =>
      rw [quiet]
      exact sound.quiet (congrArg names same)
    | guest clean same fits some' unowned free effect =>
      rw [effect, same]
      exact sound.guest fits some' unowned (by simpa using free)
    | member old m number after found same key away stored effect =>
      rw [effect, stored]
      exact sound.member found same key (by simpa using away)
  | handle who depth arg =>
    rw [MvStation.step]
    split_ifs with away
    · exact sound
    rw [MvStation.perform]
    cases cmdHandle_outcome derive station.members (station.sessions who)
      (fun handle => (station.findHandle handle).any fun other => other ≠ who) depth arg.property with
    | refused same quiet =>
      rcases quiet with quiet | quiet <;> (rw [quiet]; exact sound.quiet same)
    | taken clean fits some' mine free effect stored =>
      rw [effect]
      exact sound.rename (by simpa using away) fits some' mine free stored
  | signup who password salt now =>
    rw [MvStation.step]
    split_ifs with away
    · exact sound
    · exact sound.signup (by simpa using away) password.val salt now
  | disconnect who now =>
    have leaves {left : MvStation n} (kept : StationSound left) : StationSound (left.put who .fresh) :=
      kept.enter left.members rfl (fun entry inside => by cases inside) (Step.leave who)
    apply leaves
    split_ifs with here
    · rw [MvStation.perform]
      obtain ⟨same, effect⟩ := onLogout_outcome derive station.members (station.sessions who) now
      rw [effect]
      exact sound.quiet same
    · exact sound

theorem empty_station : StationSound (MvStation.empty : MvStation n) where
  sound := empty_sound
  filled := {
    named := fun _ _ carried => by cases carried
    counted := fun _ inside => by cases inside
    full := Nat.zero_le _
    owned := fun _ inside => by cases inside }

/-- Whatever happens at a station, a handle belongs to one session and one member. -/
theorem handle_ownership (derive : Derive) (envCosysop : UInt32 → Bool) (events : List (MvEvent n)) :
    let station := run (MvStation.step derive envCosysop) .empty events
    (∀ who, (station.sessions who).loggedIn → (station.sessions who).handle.text ≠ []) ∧
      (∀ who other, (station.sessions who).loggedIn → (station.sessions other).loggedIn →
        handleKey (station.sessions who).handle.text = handleKey (station.sessions other).handle.text → who = other) ∧
      (station.members.map Member.number).Nodup ∧ (station.members.map Member.key).Nodup ∧
      (∀ who other, (station.sessions who).loggedIn → (station.sessions other).loggedIn →
        (station.sessions who).memberNo ≠ 0 → (station.sessions who).memberNo = (station.sessions other).memberNo →
        who = other) ∧
      ∀ who, ∀ m ∈ station.members, (station.sessions who).loggedIn →
        handleKey (station.sessions who).handle.text = m.key → (station.sessions who).memberNo = m.number := by
  intro station
  have sound : StationSound station :=
    run_invariant _ StationSound (fun _ event kept => station_step_sound kept event) empty_station events
  have carried (who : Fin n) (here : (station.sessions who).loggedIn) :
      station.registry.carries who =
        some (handleKey (station.sessions who).handle.text, (station.sessions who).number) :=
    entry_some.mpr ⟨here, rfl⟩
  refine ⟨?_, ?_, ?_, ?_, ?_, ?_⟩
  · intro who here
    exact mt handleKey_nil.mpr (sound.filled.named who _ (carried who here))
  · intro who other here there same
    exact sound.sound.apart who other _ _ (carried who here) (carried other there) same
  · have numbers := sound.sound.numbers
    rwa [MvStation.registry, names, map_map] at numbers
  · have keys := sound.sound.names
    rwa [MvStation.registry, names, map_map] at keys
  · intro who other here there numbered same
    exact sound.sound.once who other _ _ _ (carried who here) (carried other there) (number_some.mpr ⟨numbered, rfl⟩)
      (number_some.mpr ⟨same ▸ numbered, same.symm⟩)
  · intro who m member here same
    have owned : (m.number, handleKey (station.sessions who).handle.text) ∈ station.registry.owns := by
      rw [same]
      exact mem_map_of_mem member
    exact (number_some.mp (sound.sound.owned who _ m.number (carried who here) owned)).2

end Stations

end SshChatter.Ddial
