import SshChatter.Ddial.MemberCommand

namespace SshChatter.Ddial
open CString AtomicProgram EventRun List

section Secrets

def Member.secrets (member : Member) : Octets 16 × Octets 32 × Bool := (member.salt, member.hash, member.cosysop)

def Told (asked : List (Sigma MemberOp.Answer)) (member : Member) : Prop :=
  (∃ number, ⟨.get number, some member⟩ ∈ asked) ∨ ∃ number password, ⟨.authenticate number password, some member⟩ ∈
    asked

def KeepsSecrets : List (Sigma MemberOp.Answer) → MemberProgram → Prop
  | _, .done _ => True
  | asked, .act (.get number) next => ∀ answer, KeepsSecrets (asked ++ [⟨.get number, answer⟩]) (next answer)
  | asked, .act (.ownerOf handle) next => ∀ answer, KeepsSecrets (asked ++ [⟨.ownerOf handle, answer⟩]) (next answer)
  | asked, .act (.authenticate number password) next =>
    ∀ answer, KeepsSecrets (asked ++ [⟨.authenticate number password, answer⟩]) (next answer)
  | asked, .act (.put member) next =>
    (∃ old, Told asked old ∧ member.number = old.number ∧ member.secrets = old.secrets) ∧
      ∀ answer, ∃ result, next answer = .done result
  | _, .act (.setPassword _ _ _) _ => False

theorem follows_keepsSecrets {program rest : MemberProgram} {asked : List (Sigma MemberOp.Answer)}
    (follows : program.Follows asked rest) (keeps : KeepsSecrets [] program) : KeepsSecrets asked rest := by
  induction follows with
  | here => exact keeps
  | @next asked op next answer follows ih =>
    cases op with
    | get => exact ih answer
    | ownerOf => exact ih answer
    | authenticate => exact ih answer
    | put =>
      obtain ⟨result, ended⟩ := ih.2 answer
      rw [ended]
      trivial
    | setPassword => exact ih.elim

theorem keepsSecrets_readsFirst (derive : Derive) {asked : List (Sigma MemberOp.Answer)} {program : MemberProgram}
    (keeps : KeepsSecrets asked program) : program.ReadsFirst (memberExec derive) := by
  induction program generalizing asked with
  | done => trivial
  | act op next ih =>
    cases op with
    | get number => exact .inr ⟨get_reads number, fun answer => ih answer (keeps answer)⟩
    | ownerOf handle => exact .inr ⟨ownerOf_reads handle, fun answer => ih answer (keeps answer)⟩
    | authenticate number password =>
      exact .inr ⟨authenticate_reads number password, fun answer => ih answer (keeps answer)⟩
    | put => exact .inl keeps.2
    | setPassword => exact keeps.elim

variable {asked : List (Sigma MemberOp.Answer)} {member : Member} {number : UInt32} {password : Bytes}

theorem told_get : Told (asked ++ [⟨.get number, some member⟩]) member := .inl ⟨number, by simp⟩

theorem told_authenticate : Told (asked ++ [⟨.authenticate number password, some member⟩]) member :=
  .inr ⟨number, password, by simp⟩

theorem keeps_done (result : CommandResult) : KeepsSecrets asked (.done result) := trivial

theorem keeps_get {next : Option Member → MemberProgram} (missing : ∀ asked, KeepsSecrets asked (next none))
    (found : ∀ m, KeepsSecrets (asked ++ [⟨.get number, some m⟩]) (next (some m))) :
    KeepsSecrets asked (.act (.get number) next) := by
  intro answer
  cases answer with
  | none => exact missing _
  | some m => exact found m

theorem keeps_put {old : Member} {next : Bool → MemberProgram} (told : Told asked old)
    (same : member.number = old.number) (secrets : member.secrets = old.secrets)
    (ends : ∀ answer, ∃ result, next answer = .done result) : KeepsSecrets asked (.act (.put member) next) :=
  ⟨⟨old, told, same, secrets⟩, ends⟩

theorem saveMember_keeps (sess : MvSession) : KeepsSecrets asked (saveMember sess) := by
  rw [saveMember]
  split_ifs
  · exact keeps_done _
  · apply keeps_get
    · exact fun _ => keeps_done _
    · exact fun m => keeps_put told_get rfl rfl fun _ => ⟨_, rfl⟩

theorem takeHandle_keeps (sess : MvSession) (inUse : Bytes → Bool) (arg : Bytes) :
    KeepsSecrets asked (takeHandle sess inUse arg) := by
  rw [takeHandle]
  by_cases guest : arg.head? = some (byte '#') ∧ sess.memberNo = 0
  · rw [if_pos guest]
    exact keeps_done _
  rw [if_neg guest]
  by_cases invalid : askedHandle arg = []
  · rw [if_pos invalid]
    exact keeps_done _
  rw [if_neg invalid]
  intro owner
  dsimp only
  by_cases owned : owner ≠ 0 ∧ owner ≠ sess.memberNo
  · rw [if_pos owned]
    exact keeps_done _
  rw [if_neg owned]
  by_cases carried : inUse (askedHandle arg)
  · rw [if_pos carried]
    exact keeps_done _
  rw [if_neg carried]
  by_cases none' : sess.memberNo = 0
  · rw [if_pos none']
    exact keeps_done _
  · rw [if_neg none']
    apply keeps_get
    · exact fun _ => keeps_done _
    · exact fun m => keeps_put told_get rfl rfl fun _ => ⟨_, rfl⟩

theorem cmdHandle_keeps (sess : MvSession) (inUse : Bytes → Bool) (depth : Nat) (arg : Bytes) :
    KeepsSecrets asked (cmdHandle sess inUse depth arg) := by
  induction depth generalizing arg asked with
  | zero => exact keeps_done _
  | succ depth ih =>
    rw [cmdHandle]
    cases skipWs arg with
    | nil => exact keeps_done _
    | cons c rest =>
      dsimp only
      by_cases question : c = byte '?'
      · rw [if_pos question]
        split_ifs
        · exact keeps_done _
        · apply keeps_get
          · exact fun _ => keeps_done _
          · exact fun _ => keeps_done _
      rw [if_neg question]
      by_cases saved : 49 ≤ c ∧ c ≤ 57 ∧ (rest = [] ∨ rest.head? = some (byte '='))
      · rw [if_pos saved]
        by_cases guest : sess.memberNo = 0
        · rw [if_pos guest]
          exact keeps_done _
        rw [if_neg guest]
        apply keeps_get
        · exact fun _ => keeps_done _
        · intro m
          cases rest with
          | cons _ => exact keeps_put told_get rfl rfl fun _ => ⟨_, rfl⟩
          | nil =>
            dsimp only
            split_ifs
            · exact keeps_done _
            · exact ih _
      · rw [if_neg saved]
        exact takeHandle_keeps sess inUse (c :: rest)

theorem cmdProfile_keeps (sess : MvSession) (arg : Bytes) : KeepsSecrets asked (cmdProfile sess arg) := by
  rw [cmdProfile]
  by_cases setting : arg.head? = some (byte '=')
  · rw [if_pos setting]
    split_ifs
    · exact keeps_done _
    · exact keeps_done _
    · apply keeps_get
      · exact fun _ => keeps_done _
      · exact fun m => keeps_put told_get rfl rfl fun _ => ⟨_, rfl⟩
  · rw [if_neg setting]
    cases parseUint arg with
    | some => exact fun _ => keeps_done _
    | none =>
      split_ifs
      · exact keeps_done _
      · exact fun _ => keeps_done _

theorem guestLogin_keeps (inUse : Bytes → Bool) (line : Bytes) : KeepsSecrets asked (guestLogin inUse line) := by
  rw [guestLogin]
  by_cases invalid : DdialProtocol.sanitizeHandle line DdialProtocol.maxHandleLen = []
  · rw [if_pos invalid]
    exact keeps_done _
  · rw [if_neg invalid]
    intro owner
    dsimp only
    split_ifs <;> exact keeps_done _

theorem loginLine_keeps (inUse : Bytes → Bool) (online : UInt32 → Bool) (now : Int) (line : Bytes) :
    KeepsSecrets asked (loginLine inUse online now line) := by
  rw [loginLine]
  by_cases empty : skipWs line = []
  · rw [if_pos empty]
    exact keeps_done _
  rw [if_neg empty]
  cases parseUint (skipWs line) with
  | none => exact guestLogin_keeps inUse (skipWs line)
  | some found =>
    obtain ⟨number, p⟩ := found
    dsimp only
    by_cases bare : p = []
    · rw [if_pos bare]
      exact guestLogin_keeps inUse (skipWs line)
    rw [if_neg bare]
    apply keeps_get
    · exact fun _ => guestLogin_keeps inUse (skipWs line)
    · intro _ member
      cases member with
      | none => exact keeps_done _
      | some =>
        dsimp only
        by_cases busy : online number
        · rw [if_pos busy]
          exact keeps_done _
        · rw [if_neg busy]
          exact keeps_put told_authenticate rfl rfl fun _ => ⟨_, rfl⟩

theorem onLogout_keeps (sess : MvSession) (now : Int) : KeepsSecrets asked (onLogout sess now) := by
  rw [onLogout]
  split_ifs
  · exact keeps_done _
  · apply keeps_get
    · exact fun _ => keeps_done _
    · exact fun m => keeps_put told_get rfl rfl fun _ => ⟨_, rfl⟩

def Edits (number : UInt32) (program : MemberProgram) : Prop :=
  ∃ next, program = .act (.get number) next ∧ (∃ result, next none = .done result) ∧
    ∀ m, ∃ member behind, next (some m) = .act (.put member) behind ∧ member.number = m.number ∧
      ∀ answer, ∃ result, behind answer = .done result

def SetsPassword (program : MemberProgram) : Prop :=
  ∃ number password salt next, program = .act (.setPassword number password salt) next ∧
    ∀ answer, ∃ result, next answer = .done result

theorem cmdCosysops_cases (sess : MvSession) (arg : Bytes) :
    (∃ result, cmdCosysops sess arg = .done result) ∨ ∃ number, Edits number (cmdCosysops sess arg) := by
  rw [cmdCosysops]
  cases skipWs arg with
  | nil => exact .inl ⟨_, rfl⟩
  | cons c p =>
    dsimp only
    by_cases sets : (c = byte '+' ∨ c = byte '-') ∧ sess.cosysop
    · rw [if_pos sets]
      cases parseUint p with
      | none => exact .inl ⟨_, rfl⟩
      | some found =>
        obtain ⟨number, _⟩ := found
        exact .inr ⟨number, _, rfl, ⟨_, rfl⟩, fun m => ⟨_, _, rfl, rfl, fun _ => ⟨_, rfl⟩⟩⟩
    · rw [if_neg sets]
      exact .inl ⟨_, rfl⟩

theorem program_cases (command : MemberCommand) :
    KeepsSecrets [] command.program ∨ (∃ number, Edits number command.program) ∨ SetsPassword command.program := by
  cases command with
  | saveMember sess => exact .inl (saveMember_keeps sess)
  | handle sess inUse depth arg => exact .inl (cmdHandle_keeps sess inUse depth arg)
  | profile sess arg => exact .inl (cmdProfile_keeps sess arg)
  | login inUse online now line => exact .inl (loginLine_keeps inUse online now line)
  | logout sess now => exact .inl (onLogout_keeps sess now)
  | cosysops sess arg =>
    rcases cmdCosysops_cases sess arg with ⟨result, ended⟩ | edits
    · left
      rw [MemberCommand.program, ended]
      exact keeps_done result
    · exact .inr (.inl edits)
  | password sess =>
    rw [MemberCommand.program, cmdPassword]
    by_cases guest : sess.memberNo = 0
    · rw [if_pos guest]
      exact .inl (keeps_done _)
    · rw [if_neg guest]
      refine .inr (.inr ⟨_, _, _, _, rfl, ?_⟩)
      intro changed
      cases changed <;> exact ⟨_, rfl⟩

variable {derive : Derive}

theorem program_readsFirst (command : MemberCommand) : command.program.ReadsFirst (memberExec derive) := by
  rcases program_cases command with keeps | ⟨number, next, same, ⟨result, ended⟩, edits⟩ |
      ⟨number, password, salt, next, same, last⟩
  · exact keepsSecrets_readsFirst derive keeps
  · rw [same]
    refine .inr ⟨get_reads number, ?_⟩
    intro answer
    cases answer with
    | none =>
      rw [ended]
      trivial
    | some m =>
      obtain ⟨member, behind, put, -, last⟩ := edits m
      rw [put]
      exact .inl last
  · rw [same]
    exact .inl last

end Secrets

section Steps

variable {derive : Derive} {members : List Member} {asked : List (Sigma MemberOp.Answer)} {number : UInt32}

def secretsOf (members : List Member) (number : UInt32) : Option (Octets 16 × Octets 32 × Bool) :=
  (findNo members number).map Member.secrets

theorem findNo_number {member : Member} (found : findNo members number = some member) : member.number = number :=
  (KeyedList.lookup_some found).2

theorem told_stored {old : Member} (valid : Valid (memberExec derive) members asked) (told : Told asked old) :
    findNo members old.number = some old := by
  rcases told with ⟨number, inside⟩ | ⟨number, password, inside⟩
  · have stored : findNo members number = some old := (valid _ inside).2
    rw [findNo_number stored]
    exact stored
  · have passed : memberAuthenticate derive members number password = some old := (valid _ inside).2
    have stored : findNo members number = some old := (Option.filter_eq_some_iff.mp passed).1
    rw [findNo_number stored]
    exact stored

theorem put_secrets {old member : Member} (stored : findNo members old.number = some old)
    (same : member.number = old.number) (secrets : member.secrets = old.secrets) (number : UInt32) :
    secretsOf (memberPut members member).1 number = secretsOf members number := by
  rw [secretsOf, secretsOf, findNo_put]
  split_ifs with here
  · rw [here.1, same, stored, Option.map_some, Option.map_some, secrets]
  · rfl

/-- The next operation of a command that is under way keeps the secrets of every member that the command does not
edit. -/
theorem advance_secrets {current : Running MemberCommand MemberOp MemberOp.Answer CommandResult}
    (sound : current.Sound (memberExec derive) MemberCommand.program members)
    (away : ∀ edited, Edits edited current.command.program → edited ≠ number) {op : MemberOp}
    (head : op ∈ current.rest.head) :
    secretsOf (memberExec derive op members).1 number = secretsOf members number := by
  obtain ⟨follows, valid, begun⟩ := sound
  rcases program_cases current.command with keeps | ⟨edited, edits⟩ | ⟨target, password, salt, next, same, last⟩
  · have kept := follows_keepsSecrets follows keeps
    cases rest : current.rest with
    | done =>
      rw [rest] at head
      cases head
    | act first =>
      rw [rest] at head kept
      obtain rfl : first = op := Option.some.inj head
      cases first with
      | get _ => rfl
      | ownerOf _ => rfl
      | authenticate _ _ => rfl
      | put =>
        obtain ⟨⟨old, told, same, secrets⟩, -⟩ := kept
        exact put_secrets (told_stored valid told) same secrets number
      | setPassword _ _ _ => exact kept.elim
  · have differs := away edited edits
    obtain ⟨next, same, ⟨result, ended⟩, put⟩ := edits
    rw [same] at follows
    obtain ⟨answer, behind, split, later⟩ := follows.front begun
    cases answer with
    | none =>
      rw [ended] at later
      rw [later.ended] at head
      cases head
    | some m =>
      obtain ⟨member, next', puts, number', last⟩ := put m
      rw [puts] at later
      have stored : findNo members edited = some m := (valid ⟨.get edited, some m⟩ (by simp [split])).2
      cases behind with
      | nil =>
        rw [later.unasked] at head
        obtain rfl : MemberOp.put member = op := Option.some.inj head
        apply congrArg (Option.map Member.secrets)
        apply findNo_exec
        intro written
        have here : member.number = number := written
        exact differs (by rw [← findNo_number stored, ← number', here])
      | cons =>
        obtain ⟨answer, behind', -, final⟩ := later.front (cons_ne_nil _ _)
        obtain ⟨result', ended⟩ := last answer
        rw [ended] at final
        rw [final.ended] at head
        cases head
  · rw [same] at follows
    obtain ⟨answer, behind, -, later⟩ := follows.front begun
    obtain ⟨result, ended⟩ := last answer
    rw [ended] at later
    rw [later.ended] at head
    cases head

end Steps

section Interleavings

variable {Session : Type} [DecidableEq Session]

abbrev MemberState (Session : Type) :=
  State Session (List Member) MemberCommand MemberOp MemberOp.Answer CommandResult

abbrev MemberEvent (Session : Type) := Event Session MemberCommand

def memberStep (derive : Derive) : MemberState Session → MemberEvent Session → MemberState Session :=
  State.step (memberExec derive) MemberCommand.program

/-- No operation writes the record that a command of another session was told, or changes the owner of a handle that
it asked for. -/
def MemberCalm (derive : Derive) : MemberState Session → MemberEvent Session → Prop :=
  State.Calm MemberCommand.program (Disturbs derive)

def oneAfterAnother (derive : Derive) (members : List Member) (commands : List (Session × MemberCommand)) :
    List Member :=
  serial (memberExec derive) MemberCommand.program members (commands.map Prod.snd)

theorem edits_asked {derive : Derive} {members : List Member} {number : UInt32}
    {current : Running MemberCommand MemberOp MemberOp.Answer CommandResult}
    (sound : current.Sound (memberExec derive) MemberCommand.program members)
    (edits : Edits number current.command.program) : ∃ answer, ⟨.get number, answer⟩ ∈ current.asked := by
  obtain ⟨next, same, -⟩ := edits
  have follows := sound.follows
  rw [same] at follows
  obtain ⟨answer, behind, split, -⟩ := follows.front sound.begun
  exact ⟨answer, by simp [split]⟩

/-- A member who was written is not given other secrets by a command that was under way before. -/
theorem secrets_stay {derive : Derive} {members : List Member} {state : MemberState Session}
    (sound : state.Sound (memberExec derive) MemberCommand.program members) {event : MemberEvent Session}
    {after : List (MemberEvent Session)} {session : Session} {number : UInt32} {op : MemberOp}
    (performed : op ∈ state.performed MemberCommand.program event) (written : op.Writes number)
    (other : session ≠ event.session) (quiet : ∀ command, .start session command ∉ after)
    (calm : Along (memberStep derive) (MemberCalm derive) state (event :: after)) :
    secretsOf (memberStep derive (run (memberStep derive) state (event :: after)) (.advance session)).store number =
      secretsOf (run (memberStep derive) state (event :: after)).store number := by
  have later := State.run_sound disturbs_harmless program_readsFirst sound calm
  show secretsOf (State.step (memberExec derive) MemberCommand.program
    (run (memberStep derive) state (event :: after)) (.advance session)).store number = _
  rw [State.step_store, State.performed]
  cases busy : (run (memberStep derive) state (event :: after)).running session with
  | none => rfl
  | some current =>
    show secretsOf ((current.rest.head.map fun op => _).getD _) number = _
    cases head : current.rest.head with
    | none => rfl
    | some =>
      apply advance_secrets (later.running session current busy) _ head
      intro edited edits same
      have silent : ∀ command, .start session command ∉ event :: after := by
        intro command inside
        rcases mem_cons.mp inside with rfl | behind
        · exact other rfl
        · exact quiet command behind
      -- The command was under way at the write, and it was told the record that is written.
      obtain ⟨before, here, command⟩ := State.run_running silent busy
      obtain ⟨answer, told⟩ := edits_asked (sound.running session before here) (by rw [command]; exact edits)
      exact calm.1 op performed session other before here _ told (same ▸ written)

/-- When no operation writes what another command was told, the members are those of the finished commands one after
another, and no command gives other secrets to a member who was written after it started. -/
theorem members_serial (derive : Derive) (members : List Member) (events : List (MemberEvent Session))
    (calm : Along (memberStep derive) (MemberCalm derive) (State.init members) events) :
    let state := run (memberStep derive) (State.init members) events
    state.store = oneAfterAnother derive members state.finished ∧
      ((∀ session, state.running session = none) → state.finished.Perm state.started) ∧
      ∀ (event : MemberEvent Session) (after : List (MemberEvent Session)) (session : Session) (number : UInt32),
        (∃ op ∈ state.performed MemberCommand.program event, op.Writes number) → session ≠ event.session →
        (∀ command, .start session command ∉ after) →
        Along (memberStep derive) (MemberCalm derive) state (event :: after) →
        let later := run (memberStep derive) state (event :: after)
        secretsOf (memberStep derive later (.advance session)).store number = secretsOf later.store number := by
  intro state
  have sound : state.Sound (memberExec derive) MemberCommand.program members :=
    State.run_sound disturbs_harmless program_readsFirst State.init_sound calm
  refine ⟨sound.store, sound.perm, ?_⟩
  rintro event after session number ⟨op, performed, written⟩ other quiet calm
  exact secrets_stay sound performed written other quiet calm

def someDerive : Derive := fun _ salt => some ⟨salt.bytes ++ salt.bytes, salt.doubled_length⟩

def ann : Member := { Member.zero with number := 7, handle := .print (str "ann"), cosysop := true }

def annSession : MvSession := { MvSession.fresh with loggedIn := true, handle := .print (str "ann"), memberNo := 7 }

def opSession : MvSession :=
  { MvSession.fresh with loggedIn := true, handle := .print (str "op"), memberNo := 1, cosysop := true }

def bob : Member := { ann with number := 8, handle := .print (str "bob") }

def apartEvents : List (MemberEvent Bool) :=
  [.start false (.saveMember annSession), .start true (.cosysops opSession (str "-8")), .advance true, .advance false]

theorem apartEvents_calm : Along (memberStep someDerive) (MemberCalm someDerive)
    (State.init [ann, bob]) apartEvents := by
  refine ⟨?_, ?_, ?_, ?_, trivial⟩ <;> intro op performed session other current here <;> cases session
  all_goals first
    | exact absurd rfl other
    | cases here
  all_goals
    -- The other session was told the record of Ann, and only the record of Bob is written.
    intro entry told
    rw [mem_singleton.mp told]
    cases performed
  · exact fun written => written
  · change ¬ bob.number = 7
    decide

theorem members_serial_apart :
    let state := run (memberStep someDerive) (State.init [ann, bob]) apartEvents
    state.store = oneAfterAnother someDerive [ann, bob] state.finished ∧
      (findNo state.store 7).map Member.cosysop = some true ∧ (findNo state.store 8).map Member.cosysop = some false :=
  ⟨(members_serial someDerive [ann, bob] apartEvents apartEvents_calm).1, by decide +kernel, by decide +kernel⟩

/-- Her preferences are stored with the record that was read before the privilege was revoked. -/
def lostEvents : List (MemberEvent Bool) :=
  [.start false (.saveMember annSession), .start true (.cosysops opSession (str "-7")), .advance true,
    .advance false]

theorem perm_two {α : Type} {first second : α} {order : List α} (perm : order.Perm [first, second]) :
    order = [first, second] ∨ order = [second, first] := by
  cases order with
  | nil => exact absurd perm.length_eq (by simp)
  | cons head rest =>
    have inside : head ∈ [first, second] := perm.mem_iff.mp mem_cons_self
    rcases mem_cons.mp inside with rfl | last
    · left
      rw [perm_singleton.mp perm.cons_inv]
    · obtain rfl := mem_singleton.mp last
      right
      have swapped : (head :: rest).Perm [head, first] := perm.trans (List.Perm.swap _ _ _)
      rw [perm_singleton.mp swapped.cons_inv]

/-- The revocation is done and undone, which no order of the two commands does. -/
theorem revocation_lost :
    let state := run (memberStep someDerive) (State.init [ann]) lostEvents
    (∀ session, state.running session = none) ∧
      (findNo (run (memberStep someDerive) (State.init [ann]) (lostEvents.take 3)).store 7).map Member.cosysop =
        some false ∧
      ∀ order : List (Bool × MemberCommand), order.Perm state.started →
        (findNo (oneAfterAnother someDerive [ann] order) 7).map Member.cosysop ≠
          (findNo state.store 7).map Member.cosysop := by
  intro state
  refine ⟨?_, by decide +kernel, ?_⟩
  · intro session
    cases session <;> rfl
  · intro order perm
    rcases perm_two perm with rfl | rfl <;> decide +kernel

end Interleavings

end SshChatter.Ddial
