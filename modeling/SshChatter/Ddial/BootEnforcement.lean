import SshChatter.Ddial.ChannelAccess

namespace SshChatter.Ddial
open CString AtomicProgram DdialProtocol LeaseTable EventRun List

section Ranges

variable {n : Nat} {state : ChannelStation n} {who : Fin n} {env : Surroundings}

def ChannelStation.Ranged (state : ChannelStation n) : Prop :=
  ∀ who, (state.tunings who).channel ≠ 0 ∧ ∀ v ∈ (state.tunings who).monitored, v ≤ maxChannel

theorem narrow_channel {v : UInt32} (small : v ≤ maxChannel) : v.toUInt16.toUInt32 = v := by
  have bound : v.toNat ≤ 999 := UInt32.le_iff_toNat_le.mp small
  apply UInt32.toNat_inj.mp
  rw [UInt16.toNat_toUInt32, UInt32.toNat_toUInt16]
  omega

theorem room_nonzero : roomChannel ≠ 0 := by decide

theorem widen_channel (channel : UInt16) : channel.toUInt32.toUInt16 = channel := by simp

theorem narrow_nonzero {v : UInt32} (some' : ¬ v < 1) (small : v ≤ maxChannel) : v.toUInt16 ≠ 0 := by
  intro zero
  have wide := narrow_channel small
  rw [zero] at wide
  rw [← wide] at some'
  exact some' (by decide)

end Ranges

section Moves

variable {n : Nat}

/-- What a turn may do: a session gets a channel open or speaks on a channel only where it may. -/
structure Moves (state : ChannelStation n) (now : Int) (gains speaks : Fin n → UInt16 → Prop) (turn : Turn n) :
    Prop where
  boots : turn.1.boots = state.boots ∨ ∃ boot, turn.1.boots = grant state.boots now boot bootSeconds
  opened : ∀ other channel, (turn.1.tunings other).Open channel →
    (state.tunings other).Open channel ∨ channel = 0 ∨ channel = roomChannel ∨ gains other channel
  ranged : turn.1.Ranged
  heard : ∀ p ∈ turn.2, ∀ listener ∈ p.heard, p.pub.channel = 0 ∨
    (state.tunings listener.1).Open p.pub.channel ∨ (turn.1.tunings listener.1).Open p.pub.channel
  said : ∀ p ∈ turn.2, ∀ speaker, p.sender = some speaker → p.pub.channel = 0 ∨
    (state.tunings speaker).Open p.pub.channel ∨ (turn.1.tunings speaker).Open p.pub.channel ∨
    speaks speaker p.pub.channel

variable {state next : ChannelStation n} {who : Fin n} {env : Surroundings} {now : Int}
  {gains speaks : Fin n → UInt16 → Prop} {channels : UInt16 → Prop} {turn : Turn n}

theorem dials_ranged (ranged : state.Ranged)
    (dials : ∀ other, (next.tunings other).toDial = (state.tunings other).toDial) : next.Ranged := by
  intro other
  rw [dials other]
  exact ranged other

theorem Quiet.moves (quiet : Quiet state who channels turn) (ranged : state.Ranged)
    (may : ∀ channel, channels channel → (state.tunings who).Open channel ∨ speaks who channel) :
    Moves state now gains speaks turn where
  boots := .inl quiet.boots
  opened other channel open' := by
    rw [quiet.dials other] at open'
    exact .inl open'
  ranged := dials_ranged ranged quiet.dials
  heard p inside listener hears := by
    rcases (quiet.fair p inside listener hears).open with everywhere | open'
    · exact .inl everywhere
    · exact .inr (.inl open')
  said p inside speaker sent := by
    obtain rfl : who = speaker := Option.some.inj ((quiet.mine p inside).symm.trans sent)
    rcases quiet.said p inside with everywhere | there
    · exact .inl everywhere
    · rcases may _ there with open' | allowed
      · exact .inr (.inl open')
      · exact .inr (.inr (.inr allowed))

theorem Quiet.moves_here (quiet : Quiet state who (· = (state.tunings who).channel) turn) (ranged : state.Ranged) :
    Moves state now gains speaks turn :=
  quiet.moves ranged fun _ here => .inl (.inl here.symm)

theorem Moves.change (ranged : state.Ranged)
    (dials : ∀ other, (next.tunings other).toDial = (state.tunings other).toDial)
    (boots : next.boots = state.boots) : Moves state now gains speaks (next, []) where
  boots := .inl boots
  opened other channel open' := by
    rw [dials other] at open'
    exact .inl open'
  ranged := dials_ranged ranged dials
  heard _ inside := absurd inside not_mem_nil
  said _ inside := absurd inside not_mem_nil

theorem Moves.nothing (ranged : state.Ranged) : Moves state now gains speaks (state, []) :=
  .change ranged (fun _ => rfl) rfl

/-- A session whose dial changes. -/
theorem retune_ranged (ranged : state.Ranged) {change : Tuning → Tuning}
    (kept : (change (state.tunings who)).channel ≠ 0 ∧ ∀ v ∈ (change (state.tunings who)).monitored, v ≤ maxChannel) :
    (state.retune who change).Ranged := by
  intro other
  by_cases same : other = who
  · rw [same, retune_self]
    exact kept
  · rw [retune_other change same]
    exact ranged other

theorem retune_opened {change : Tuning → Tuning} (reach : UInt16 → Prop)
    (mine : ∀ channel, (change (state.tunings who)).Open channel → (state.tunings who).Open channel ∨ reach channel)
    (other : Fin n) (channel : UInt16) (open' : ((state.retune who change).tunings other).Open channel) :
    (state.tunings other).Open channel ∨ other = who ∧ reach channel := by
  by_cases same : other = who
  · rw [same, retune_self] at open'
    rw [same]
    exact (mine channel open').imp_right fun reached => ⟨rfl, reached⟩
  · rw [retune_other change same] at open'
    exact .inl open'

/-- A turn that changes one dial and publishes nothing. -/
theorem retune_moves (ranged : state.Ranged) {change : Tuning → Tuning} (reach : UInt16 → Prop)
    (mine : ∀ channel, (change (state.tunings who)).Open channel → (state.tunings who).Open channel ∨ reach channel)
    (kept : (change (state.tunings who)).channel ≠ 0 ∧ ∀ v ∈ (change (state.tunings who)).monitored, v ≤ maxChannel)
    (may : ∀ channel, reach channel → channel = 0 ∨ channel = roomChannel ∨ gains who channel) :
    Moves state now gains speaks (state.retune who change, []) where
  boots := .inl rfl
  opened other channel open' := by
    rcases retune_opened reach mine other channel open' with before | ⟨rfl, reached⟩
    · exact .inl before
    · exact .inr (may channel reached)
  ranged := retune_ranged ranged kept
  heard _ inside := absurd inside not_mem_nil
  said _ inside := absurd inside not_mem_nil

theorem Moves.quiet (moves : Moves state now gains speaks (next, [])) (quiet : Quiet next who channels turn)
    (may : ∀ channel, channels channel → (state.tunings who).Open channel ∨ (next.tunings who).Open channel) :
    Moves state now gains speaks turn where
  boots := by
    rw [quiet.boots]
    exact moves.boots
  opened other channel open' := by
    rw [quiet.dials other] at open'
    exact moves.opened other channel open'
  ranged := dials_ranged moves.ranged quiet.dials
  heard p inside listener hears := by
    rw [quiet.dials listener.1]
    exact (quiet.fair p inside listener hears).open.imp_right .inr
  said p inside speaker sent := by
    obtain rfl : who = speaker := Option.some.inj ((quiet.mine p inside).symm.trans sent)
    rw [quiet.dials who]
    rcases quiet.said p inside with everywhere | there
    · exact .inl everywhere
    · rcases may _ there with before | after
      · exact .inr (.inl before)
      · exact .inr (.inr (.inl after))

theorem Moves.before {p : Publication n} {out : List (Publication n)} (moves : Moves state now gains speaks (next, out))
    (fair : p.Fair state) (mine : (state.tunings who).Open p.pub.channel) (sent : p.sender = some who) :
    Moves state now gains speaks (next, p :: out) where
  boots := moves.boots
  opened := moves.opened
  ranged := moves.ranged
  heard q inside listener hears := by
    rcases mem_cons.mp inside with rfl | later
    · exact (fair listener hears).open.imp_right .inl
    · exact moves.heard q later listener hears
  said q inside speaker sent' := by
    rcases mem_cons.mp inside with rfl | later
    · obtain rfl : who = speaker := Option.some.inj (sent.symm.trans sent')
      exact .inr (.inl mine)
    · exact moves.said q later speaker sent'

def ChannelStation.mayOpen (state : ChannelStation n) (now : Int) (who other : Fin n) (channel : UInt16) : Prop :=
  other = who ∧ ¬ state.isBooted channel (state.sessions who).handle.text now

theorem tune_moves (ranged : state.Ranged) (channel : UInt32) :
    Moves state env.now (state.mayOpen env.now who) speaks (state.tune who env channel) := by
  rw [ChannelStation.tune]
  by_cases range : channel < 1 ∨ maxChannel < channel
  · rw [if_pos range]
    exact .nothing ranged
  rw [if_neg range]
  by_cases guest : (state.sessions who).memberNo = 0 ∧ guestMaxChannel < channel
  · rw [if_pos guest]
    exact .nothing ranged
  rw [if_neg guest]
  by_cases booted : state.isBooted channel.toUInt16 (state.sessions who).handle.text env.now
  · rw [if_pos booted]
    exact .nothing ranged
  rw [if_neg booted]
  by_cases there : (state.tunings who).channel.toUInt32 = channel
  · rw [if_pos there]
    exact .nothing ranged
  rw [if_neg there]
  obtain ⟨some', small⟩ := not_or.mp range
  have nonzero : channel.toUInt16 ≠ 0 := narrow_nonzero some' (UInt32.not_lt.mp small)
  have moved : Moves state env.now (state.mayOpen env.now who) speaks
      (state.retune who fun tuning => { tuning with channel := channel.toUInt16, joinedAt := env.now }, []) := by
    apply retune_moves ranged (· = channel.toUInt16)
    · intro door open'
      rcases open' with here | monitored | last
      · exact .inr here.symm
      · exact .inl (.inr (.inl monitored))
      · exact .inl (.inr (.inr last))
    · exact ⟨nonzero, (ranged who).2⟩
    · rintro door rfl
      exact .inr (.inr ⟨rfl, booted⟩)
  apply Moves.before _ (deliver_fair state (some who) _) (.inl rfl) rfl
  apply moved.quiet (Quiet.notice (fun _ => rfl) rfl (.inr rfl))
  rintro door rfl
  right
  left
  rw [retune_self]

theorem monitor_moves (ranged : state.Ranged) (sign : UInt8) (arg : Bytes) :
    Moves state env.now (state.mayOpen env.now who) speaks (state.monitor who env sign arg) := by
  rw [ChannelStation.monitor]
  by_cases guest : (state.sessions who).memberNo = 0
  · rw [if_pos guest]
    exact .nothing ranged
  rw [if_neg guest]
  cases parseUint arg with
  | none => exact .nothing ranged
  | some parsed =>
    obtain ⟨channel, _⟩ := parsed
    dsimp only
    by_cases range : channel < 1 ∨ maxChannel < channel
    · rw [if_pos range]
      exact .nothing ranged
    rw [if_neg range]
    have small : channel ≤ maxChannel := UInt32.not_lt.mp (not_or.mp range).2
    by_cases add : sign = byte '+'
    · rw [if_pos add]
      by_cases booted : state.isBooted channel.toUInt16 (state.sessions who).handle.text env.now
      · rw [if_pos booted]
        exact .nothing ranged
      rw [if_neg booted]
      apply retune_moves ranged (· = channel.toUInt16)
      · intro door open'
        split_ifs at open'
        · rcases open' with here | monitored | last
          · exact .inl (.inl here)
          · rcases listAdd_mem monitored with before | new
            · exact .inl (.inr (.inl before))
            · rw [← new]
              exact .inr (widen_channel door).symm
          · exact .inr last.symm
        · exact .inl open'
      · split_ifs
        · refine ⟨(ranged who).1, ?_⟩
          intro v inside
          rcases listAdd_mem inside with before | rfl
          · exact (ranged who).2 v before
          · exact small
        · exact ranged who
      · rintro door rfl
        exact .inr (.inr ⟨rfl, booted⟩)
    · rw [if_neg add]
      apply retune_moves ranged (· = 0)
      · intro door open'
        rcases open' with here | monitored | last
        · exact .inl (.inl here)
        · exact .inl (.inr (.inl (listRemove_mem monitored)))
        · dsimp only at last
          split_ifs at last
          · cases first : (listRemove (state.tunings who).monitored channel).head? with
            | none =>
              rw [first] at last
              exact .inr last.symm
            | some v =>
              -- The last channel becomes the first one that is still monitored.
              rw [first] at last
              have inside : v ∈ (state.tunings who).monitored := listRemove_mem (mem_of_head? first)
              left
              right
              left
              rw [← last]
              show v.toUInt16.toUInt32 ∈ _
              rw [narrow_channel ((ranged who).2 v inside)]
              exact inside
          · exact .inl (.inr (.inr last))
      · exact ⟨(ranged who).1, fun v inside => (ranged who).2 v (listRemove_mem inside)⟩
      · exact fun _ => .inl

theorem cmdTune_moves (ranged : state.Ranged) (r : Bytes) :
    Moves state env.now (state.mayOpen env.now who) speaks (state.cmdTune who env r) := by
  cases r with
  | nil => exact .nothing ranged
  | cons c arg =>
    rw [ChannelStation.cmdTune]
    split_ifs
    · exact .nothing ranged
    · exact monitor_moves ranged c arg
    · cases parseUint (c :: arg) with
      | none => exact .nothing ranged
      | some parsed => exact tune_moves ranged parsed.1

/-- The channel of `/ts` is one that the session has open. -/
theorem cmdSay_moves (ranged : state.Ranged) (r : Bytes) :
    Moves state now gains speaks (state.cmdSay who env r) := by
  rw [ChannelStation.cmdSay]
  cases parseUint r with
  | none => exact .nothing ranged
  | some parsed =>
    obtain ⟨channel, text⟩ := parsed
    dsimp only
    by_cases closed : channel ∉ (state.tunings who).monitored ∧ channel ≠ (state.tunings who).channel.toUInt32
    · rw [if_pos closed]
      exact .nothing ranged
    rw [if_neg closed]
    have mine : (state.tunings who).Open channel.toUInt16 := by
      by_cases monitored : channel ∈ (state.tunings who).monitored
      · right
        left
        rw [narrow_channel ((ranged who).2 channel monitored)]
        exact monitored
      · left
        have here : channel = (state.tunings who).channel.toUInt32 := not_not.mp fun other => closed ⟨monitored, other⟩
        rw [here, widen_channel]
    have last : Moves state now gains speaks
        (state.retune who fun tuning => { tuning with lastMonitor := channel.toUInt16 }, []) := by
      apply retune_moves ranged fun _ => False
      · intro door open'
        rcases open' with here | monitored | rfl
        · exact .inl (.inl here)
        · exact .inl (.inr (.inl monitored))
        · exact .inl mine
      · exact ranged who
      · exact fun _ none' => none'.elim
    exact last.quiet (publicChat_quiet _ _ _) fun door here => .inl (here ▸ mine)

theorem cmdBoot_moves (ranged : state.Ranged) (arg : Bytes) :
    Moves state env.now gains speaks (state.cmdBoot who env arg) := by
  rw [ChannelStation.cmdBoot]
  cases state.bootTarget who arg with
  | none => exact .nothing ranged
  | some other =>
    have moved : Moves state env.now gains speaks
        (state.retune other fun tuning => { tuning with channel := roomChannel, joinedAt := env.now }, []) := by
      apply retune_moves ranged (· = roomChannel)
      · intro door open'
        rcases open' with here | monitored | last
        · exact .inr here.symm
        · exact .inl (.inr (.inl monitored))
        · exact .inl (.inr (.inr last))
      · exact ⟨room_nonzero, (ranged other).2⟩
      · exact fun _ room => .inr (.inl room)
    have booted : Moves state env.now gains speaks
        ((state.retune other fun tuning => { tuning with channel := roomChannel, joinedAt := env.now }).addBoot
          (state.tunings who).channel (state.sessions other).handle env.now, []) :=
      { moved with boots := .inr ⟨_, rfl⟩ }
    apply booted.quiet (Quiet.notice (fun _ => rfl) rfl (.inr rfl))
    rintro door rfl
    exact .inl (.inl rfl)

end Moves

section Dispatch

variable {n : Nat} {state : ChannelStation n} {who : Fin n} {env : Surroundings} {derive : Derive}
  {envCosysop : UInt32 → Bool}

def askedWord (text : Bytes) : Option (MvWord × Bytes) :=
  match text with
  | c :: rest => if c = byte '/' then findWord (commandText rest) else none
  | [] => none

/-- A member sends a message to all channels with `/spaces`, and somebody is on the channel. -/
def ChannelStation.shoutsOn (state : ChannelStation n) (who : Fin n) (line : Bytes) (env : Surroundings)
    (channel : UInt16) : Prop :=
  ((state.tunings who).codeCapture = false ∧ (state.sessions who).profileCapture = false ∧
    (state.tunings who).fullMuted = false ∧ (state.sessions who).memberNo ≠ 0) ∧
    (∃ r, askedWord (skipWs line) = some (.spaces, r) ∧ skipWs r ≠ []) ∧ channel ∈ state.spaces env

/-- Every command but `/spaces` stays on the channels that the session has open. -/
theorem command_moves {speaks : Fin n → UInt16 → Prop} (ranged : state.Ranged) (word : MvWord) (r : Bytes)
    (spaces : word = .spaces → ∀ channel, skipWs r ≠ [] ∧ (state.sessions who).memberNo ≠ 0 ∧
      (state.tunings who).fullMuted = false ∧ channel ∈ state.spaces env → speaks who channel) :
    Moves state env.now (state.mayOpen env.now who) speaks (state.command derive envCosysop who env word r) := by
  cases word with
  | quiet => exact .nothing ranged
  | chat word => exact (chatCommand_quiet word r).moves_here ranged
  | topic =>
    rw [ChannelStation.command]
    split_ifs
    · exact (cmdTopic_quiet r).moves_here ranged
    · exact .nothing ranged
  | ask =>
    rw [ChannelStation.command]
    split_ifs
    · exact (cmdAsk_quiet r).moves_here ranged
    · exact .nothing ranged
  | answer =>
    rw [ChannelStation.command]
    split_ifs
    · exact (cmdAnswer_quiet r).moves_here ranged
    · exact .nothing ranged
  | spaces => exact (cmdSpaces_quiet r).moves ranged fun channel shouts => .inr (spaces rfl channel shouts)
  | signup => exact (signupCommand_quiet r).moves_here ranged
  | sentry => exact (cmdSentry_quiet r).moves_here ranged
  | null =>
    rw [ChannelStation.command]
    split_ifs
    · exact (cmdNull_quiet r).moves_here ranged
    · exact .nothing ranged
  | code =>
    rw [ChannelStation.command]
    split_ifs
    · apply Moves.change ranged (retune_dial _) rfl
      exact fun _ => rfl
    · exact (publicChat_quiet _ _ _).moves_here ranged
    · exact .nothing ranged
  | cosysops => exact .change ranged (fun _ => rfl) rfl
  | replies => exact .change ranged (fun _ => rfl) rfl
  | say =>
    rw [ChannelStation.command]
    split_ifs
    · exact cmdSay_moves ranged r
    · exact .nothing ranged
  | boot =>
    rw [ChannelStation.command]
    split_ifs
    · exact cmdBoot_moves ranged r
    · exact .nothing ranged
  | ignore =>
    rw [ChannelStation.command]
    split_ifs
    · exact (cmdIgnore_quiet r).moves_here ranged
    · exact .nothing ranged
  | fullMute =>
    rw [ChannelStation.command]
    split_ifs
    · exact (cmdFullMute_quiet r).moves_here ranged
    · exact .nothing ranged
  | password => exact .change ranged (fun _ => rfl) rfl
  | handle => exact (handleCommand_quiet r).moves_here ranged
  | profile => exact .change ranged (fun _ => rfl) rfl
  | tune => exact cmdTune_moves ranged r

/-- A session that types a line opens only channels that it is not booted from. -/
theorem dispatch_moves (derive : Derive) (envCosysop : UInt32 → Bool) (who : Fin n) (env : Surroundings)
    (ranged : state.Ranged) (line : Bytes) :
    Moves state env.now (state.mayOpen env.now who)
      (fun other channel => other = who ∧ state.shoutsOn who line env channel)
      (state.dispatch derive envCosysop who env line) := by
  rw [ChannelStation.dispatch]
  by_cases capture : (state.tunings who).codeCapture
  · rw [if_pos capture]
    split_ifs
    · exact codeFinish_quiet.moves_here ranged
    · exact (codeAppend_quiet line).moves_here ranged
  rw [if_neg capture]
  by_cases profile : (state.sessions who).profileCapture
  · rw [if_pos profile]
    exact .change ranged (fun _ => rfl) rfl
  rw [if_neg profile]
  by_cases muted : (state.tunings who).fullMuted ∧ skipWs line ≠ [] ∧ isQuitText (skipWs line) = false
  · rw [if_pos muted]
    exact .nothing ranged
  rw [if_neg muted]
  cases text : skipWs line with
  | nil => exact .nothing ranged
  | cons c rest =>
    dsimp only
    by_cases semicolon : c = byte ';'
    · rw [if_pos semicolon]
      split_ifs
      · exact .nothing ranged
      · exact (publicChat_quiet _ _ _).moves ranged fun door here => .inl (.inr (.inr here.symm))
    rw [if_neg semicolon]
    by_cases chat : c ≠ byte '/'
    · rw [if_pos chat]
      exact (publicChat_quiet _ _ _).moves_here ranged
    rw [if_neg chat]
    cases found : findWord (commandText rest) with
    | some found' =>
      obtain ⟨word, r⟩ := found'
      apply command_moves ranged
      rintro rfl channel ⟨some', member, unmuted, there⟩
      have asked : askedWord (skipWs line) = some (.spaces, r) := by
        rw [text, askedWord, if_pos (not_not.mp chat), found]
      exact ⟨rfl, ⟨by simpa using capture, by simpa using profile, unmuted, member⟩, ⟨r, asked, some'⟩, there⟩
    | none =>
      cases legacyChat rest with
      | none => exact .nothing ranged
      | some => exact (publicChat_quiet _ _ _).moves_here ranged

/-- The dial of a line that is picked up. -/
theorem start_open {slot channel : UInt16} {joinedAt : Int} (open' : (Tuning.start slot joinedAt).Open channel) :
    channel = 0 ∨ channel = roomChannel := by
  rcases open' with here | monitored | last
  · exact .inr here.symm
  · cases monitored
  · exact .inl last.symm

theorem start_ranged (slot : UInt16) (joinedAt : Int) : (Tuning.start slot joinedAt).channel ≠ 0 ∧
    ∀ v ∈ (Tuning.start slot joinedAt).monitored, v ≤ maxChannel :=
  ⟨room_nonzero, fun _ inside => absurd inside not_mem_nil⟩

theorem start_moves {gains speaks : Fin n → UInt16 → Prop} {now joinedAt : Int} {slot : UInt16}
    {next : ChannelStation n} (ranged : state.Ranged)
    (tunings : next.tunings = (state.retune who fun _ => .start slot joinedAt).tunings)
    (boots : next.boots = state.boots) : Moves state now gains speaks (next, []) := by
  have start : Moves state now gains speaks (state.retune who fun _ => .start slot joinedAt, []) := by
    apply retune_moves ranged fun channel => channel = 0 ∨ channel = roomChannel
    · exact fun channel open' => .inr (start_open open')
    · exact start_ranged slot joinedAt
    · exact fun channel reached => reached.imp_right .inl
  have calm : Quiet (state.retune who fun _ => .start slot joinedAt) who (fun _ => False) (next, []) :=
    .change (fun other => by rw [tunings]) boots
  exact start.quiet calm fun _ none' => none'.elim

theorem Moves.everywhere {gains speaks : Fin n → UInt16 → Prop} {now : Int} {next : ChannelStation n}
    (moves : Moves state now gains speaks (next, [])) {p : Publication n} (all : p.pub.channel = 0) :
    Moves state now gains speaks (next, [p]) where
  boots := moves.boots
  opened := moves.opened
  ranged := moves.ranged
  heard q inside _ _ := by
    rw [mem_singleton.mp inside]
    exact .inl all
  said q inside _ _ := by
    rw [mem_singleton.mp inside]
    exact .inl all

def ChannelStation.gains (state : ChannelStation n) : ChannelEvent n → Fin n → UInt16 → Prop
  | .line who _ env => fun other channel =>
    (state.sessions who).loggedIn ∧ state.mayOpen env.now who other channel
  | _ => fun _ _ => False

/-- The channels that an event may speak on with `/spaces`. -/
def ChannelStation.shouts (state : ChannelStation n) : ChannelEvent n → Fin n → UInt16 → Prop
  | .line who text env => fun other channel =>
    other = who ∧ (state.sessions who).loggedIn ∧ state.shoutsOn who text.val env channel
  | _ => fun _ _ => False

theorem turn_moves (derive : Derive) (envCosysop : UInt32 → Bool) (ranged : state.Ranged) (event : ChannelEvent n) :
    Moves state event.now (state.gains event) (state.shouts event) (state.turn derive envCosysop event) := by
  cases event with
  | connect =>
    rw [ChannelStation.turn]
    split_ifs
    · exact .nothing ranged
    · exact start_moves ranged rfl rfl
  | line who text env =>
    rw [ChannelStation.turn]
    by_cases here : (state.sessions who).loggedIn
    · rw [if_pos here]
      have moves := dispatch_moves derive envCosysop who env ranged text.val
      refine ⟨moves.boots, ?_, moves.ranged, moves.heard, ?_⟩
      · intro other channel open'
        exact (moves.opened other channel open').imp_right (Or.imp_right (Or.imp_right fun may => ⟨here, may⟩))
      · intro p inside speaker sent
        exact (moves.said p inside speaker sent).imp_right
          (Or.imp_right (Or.imp_right fun shouts => ⟨shouts.1, here, shouts.2⟩))
    · rw [if_neg here, ChannelStation.login]
      split
      · apply Moves.everywhere _ rfl
        exact start_moves ranged rfl rfl
      · exact .change ranged (fun _ => rfl) rfl
  | disconnect who now =>
    rw [ChannelStation.turn]
    have left : Moves state now (state.gains (.disconnect who now)) (state.shouts (.disconnect who now))
        (({ state with toMvStation := state.toMvStation.step derive envCosysop (.disconnect who now) } :
          ChannelStation n).retune who fun tuning => .start tuning.slot 0, []) := start_moves ranged rfl rfl
    split_ifs
    · exact left.everywhere rfl
    · exact left
  | publish pub =>
    exact ⟨.inl rfl, fun _ _ => .inl, ranged, fun p inside listener hears => by
      rw [mem_singleton.mp inside] at hears ⊢
      exact (deliver_fair state none pub listener hears).open.imp_right .inl, fun p inside speaker sent => by
      rw [mem_singleton.mp inside] at sent
      cases sent⟩

end Dispatch

section Enforcement

variable {n : Nat} {state : ChannelStation n} {who : Fin n} {channel : UInt16} {key : Bytes} {deadline : Int}
  {derive : Derive} {envCosysop : UInt32 → Bool}

/-- A session that carries a handle is kept off a channel until the deadline. -/
structure Barred (state : ChannelStation n) (who : Fin n) (channel : UInt16) (key : Bytes) (deadline : Int) : Prop where
  ranged : state.Ranged
  closed : ¬ (state.tunings who).Open channel
  named : (state.sessions who).loggedIn → handleKey (state.sessions who).handle.text = key
  booted : Held state.boots (deadline - 1) fun boot => boot.channel = channel ∧ handleKey boot.handle.text = key

/-- An event before the deadline that leaves the user the handle, while fewer boots are active than the table holds. -/
def InWindow (derive : Derive) (envCosysop : UInt32 → Bool) (who : Fin n) (key : Bytes) (deadline : Int)
    (state : ChannelStation n) (event : ChannelEvent n) : Prop :=
  event.now < deadline ∧ (active state.boots event.now).length < 64 ∧
    (((state.step derive envCosysop event).sessions who).loggedIn →
      handleKey ((state.step derive envCosysop event).sessions who).handle.text = key)

theorem run_ranged (events : List (ChannelEvent n)) :
    (run (ChannelStation.step derive envCosysop) .empty events).Ranged := by
  apply run_invariant (ChannelStation.step derive envCosysop) ChannelStation.Ranged
  · exact fun state event ranged => (turn_moves derive envCosysop ranged event).ranged
  · exact fun _ => start_ranged 0 0

/-- Before the deadline the session may not open the channel. -/
theorem Barred.gains (barred : Barred state who channel key deadline) {event : ChannelEvent n}
    (early : event.now < deadline) : ¬ state.gains event who channel := by
  intro gains
  cases event with
  | connect _ _ _ => exact gains
  | line other text env =>
    obtain ⟨here, rfl, free⟩ := gains
    apply free
    rw [ChannelStation.isBooted, barred.named here]
    have soon : env.now < deadline := early
    exact barred.booted.earlier (by omega)
  | disconnect _ _ => exact gains
  | publish _ _ => exact gains

/-- One event keeps the session off the channel. -/
theorem Barred.step (barred : Barred state who channel key deadline) (some' : channel ≠ 0)
    (apart : channel ≠ roomChannel) {event : ChannelEvent n}
    (window : InWindow derive envCosysop who key deadline state event) :
    Barred (state.step derive envCosysop event) who channel key deadline := by
  obtain ⟨early, room, named⟩ := window
  have moves := turn_moves derive envCosysop barred.ranged event
  constructor
  case ranged => exact moves.ranged
  case closed =>
    intro open'
    rcases moves.opened who channel open' with before | zero | here | gains
    · exact barred.closed before
    · exact some' zero
    · exact apart here
    · exact barred.gains early gains
  case named => exact named
  case booted =>
    rw [ChannelStation.step]
    rcases moves.boots with same | ⟨boot, granted⟩
    · rw [same]
      exact barred.booted
    · rw [granted]
      exact grant_keeps room (by omega) barred.booted

/-- What one event publishes on the channel neither reaches nor comes from the session. -/
theorem Barred.silent (barred : Barred state who channel key deadline) (some' : channel ≠ 0)
    (apart : channel ≠ roomChannel) {event : ChannelEvent n}
    (window : InWindow derive envCosysop who key deadline state event) (quiet : ¬ state.shouts event who channel)
    {p : Publication n} (published : p ∈ (state.turn derive envCosysop event).2) (there : p.pub.channel = channel) :
    (∀ text, (who, text) ∉ p.heard) ∧ p.sender ≠ some who := by
  have moves := turn_moves derive envCosysop barred.ranged event
  have after := (barred.step some' apart window).closed
  constructor
  · intro text hears
    rcases moves.heard p published (who, text) hears with everywhere | before | later
    · exact some' (there.symm.trans everywhere)
    · exact barred.closed (there ▸ before)
    · exact after (there ▸ later)
  · intro sent
    rcases moves.said p published who sent with everywhere | before | later | shouts
    · exact some' (there.symm.trans everywhere)
    · exact barred.closed (there ▸ before)
    · exact after (there ▸ later)
    · exact quiet (there ▸ shouts)

/-- A boot bars a session that has the channel open in no other way. -/
theorem cmdBoot_barred {actor : Fin n} {arg : Bytes} {env : Surroundings} (ranged : state.Ranged)
    (found : state.bootTarget actor arg = some who) (apart : (state.tunings actor).channel ≠ roomChannel)
    (unmonitored : (state.tunings actor).channel.toUInt32 ∉ (state.tunings who).monitored)
    (last : (state.tunings who).lastMonitor ≠ (state.tunings actor).channel) :
    Barred (state.cmdBoot actor env arg).1 who (state.tunings actor).channel
      (handleKey (state.sessions who).handle.text) (env.now + bootSeconds) := by
  have moves : Moves state env.now (fun _ _ => False) (fun _ _ => False) (state.cmdBoot actor env arg) :=
    cmdBoot_moves ranged arg
  have result : (state.cmdBoot actor env arg).1 =
      (state.retune who fun tuning => { tuning with channel := roomChannel, joinedAt := env.now }).addBoot
        (state.tunings actor).channel (state.sessions who).handle env.now := by rw [ChannelStation.cmdBoot, found]
  have tuning : (state.cmdBoot actor env arg).1.tunings who =
      { state.tunings who with channel := roomChannel, joinedAt := env.now } := by
    rw [result]
    exact Function.update_self who _ state.tunings
  constructor
  case ranged => exact moves.ranged
  case closed =>
    intro open'
    rw [tuning] at open'
    rcases open' with here | monitored | same
    · exact apart here.symm
    · exact unmonitored monitored
    · exact last same
  case named =>
    intro _
    rw [result]
    rfl
  case booted =>
    rw [result]
    exact grant_held ⟨rfl, rfl⟩ (by omega)

/-- A booted user stays off the channel until the boot is over, hears nothing of it and says nothing on it, unless the
channel is the room, the user monitored it or spoke on it with `/ts` before, or shouts with `/spaces`. -/
theorem boot_enforced (derive : Derive) (envCosysop : UInt32 → Bool) (before after : List (ChannelEvent n))
    (actor who : Fin n) (arg : Bytes) (env : Surroundings) :
    let state := run (ChannelStation.step derive envCosysop) .empty before
    let channel := (state.tunings actor).channel
    let key := handleKey (state.sessions who).handle.text
    let booted := (state.cmdBoot actor env arg).1
    state.bootTarget actor arg = some who →
    channel ≠ roomChannel ∧ channel.toUInt32 ∉ (state.tunings who).monitored ∧
      (state.tunings who).lastMonitor ≠ channel →
    Along (ChannelStation.step derive envCosysop) (fun state event =>
      InWindow derive envCosysop who key (env.now + bootSeconds) state event ∧ ¬ state.shouts event who channel)
      booted after →
    let last := run (ChannelStation.step derive envCosysop) booted after
    ((last.sessions who).loggedIn → (last.tunings who).channel ≠ channel) ∧
      ∀ p ∈ emitted (ChannelStation.step derive envCosysop) (fun state event => (state.turn derive envCosysop event).2)
        booted after,
        p.pub.channel = channel → (∀ text, (who, text) ∉ p.heard) ∧ p.sender ≠ some who := by
  intro state channel key booted found clean along last
  have ranged : state.Ranged := run_ranged before
  have some' : channel ≠ 0 := (ranged actor).1
  have start : Barred booted who channel key (env.now + bootSeconds) :=
    cmdBoot_barred ranged found clean.1 clean.2.1 clean.2.2
  constructor
  · have kept : Barred last who channel key (env.now + bootSeconds) := by
      apply along_invariant (fun state => Barred state who channel key (env.now + bootSeconds)) _ start along
      exact fun _ _ barred window => barred.step some' clean.1 window.1
    exact fun _ here => kept.closed (.inl here)
  · exact along_emitted (fun state => Barred state who channel key (env.now + bootSeconds))
      (fun _ _ barred window => barred.step some' clean.1 window.1)
      (fun _ _ barred window p published there => barred.silent some' clean.1 window.1 window.2 published there) start
      along

def plainDerive : Derive := fun _ salt => some ⟨salt.bytes ++ salt.bytes, salt.doubled_length⟩

/-- A station where texts are sent as they are. -/
def plainEnv (now : Int) : Surroundings where
  now := now
  depth := 1
  salt := some (Octets.zero 16)
  chatLinks := 0
  style _ _ raw := (raw, raw)
  joke := []
  ball := []
  gif := none

def types (who : Fin 2) (text : String) (now : Int) (clean : 0 ∉ str text) : ChannelEvent 2 :=
  .line who ⟨str text, clean⟩ (plainEnv now)

def twoMembers : List (ChannelEvent 2) :=
  [.connect 0 1 0, types 0 "Ann" 1 (by decide), types 0 "/signup secret" 1 (by decide), .connect 1 2 1,
    types 1 "Bob" 2 (by decide), types 1 "/signup hidden" 2 (by decide), types 0 "/t5" 3 (by decide)]

/-- Bob comes to channel five, and Ann boots him. -/
def visitEvents : List (ChannelEvent 2) := twoMembers ++ [types 1 "/t5" 5 (by decide)]

/-- Bob wants to come back, and Ann speaks. -/
def returnEvents : List (ChannelEvent 2) := [types 1 "/t5" 11 (by decide), types 0 "hello" 12 (by decide)]

theorem boot_enforced_bob :
    let state := run (ChannelStation.step plainDerive fun _ => false) .empty visitEvents
    let booted := (state.cmdBoot 0 (plainEnv 10) (str "2")).1
    let last := run (ChannelStation.step plainDerive fun _ => false) booted returnEvents
    ((last.sessions 1).loggedIn → (last.tunings 1).channel ≠ (state.tunings 0).channel) ∧
      ∀ p ∈ emitted (ChannelStation.step plainDerive fun _ => false)
        (fun state event => (state.turn plainDerive (fun _ => false) event).2) booted returnEvents,
        p.pub.channel = (state.tunings 0).channel → (∀ text, (1, text) ∉ p.heard) ∧ p.sender ≠ some 1 := by
  have found : (run (ChannelStation.step plainDerive fun _ => false) .empty visitEvents).bootTarget 0 (str "2") =
      some 1 := by decide +kernel
  have clean : ((run (ChannelStation.step plainDerive fun _ => false) .empty visitEvents).tunings 0).channel ≠
        roomChannel ∧
      ((run (ChannelStation.step plainDerive fun _ => false) .empty visitEvents).tunings 0).channel.toUInt32 ∉
        ((run (ChannelStation.step plainDerive fun _ => false) .empty visitEvents).tunings 1).monitored ∧
      ((run (ChannelStation.step plainDerive fun _ => false) .empty visitEvents).tunings 1).lastMonitor ≠
        ((run (ChannelStation.step plainDerive fun _ => false) .empty visitEvents).tunings 0).channel := by
    refine ⟨?_, ?_, ?_⟩ <;> decide +kernel
  refine boot_enforced plainDerive (fun _ => false) visitEvents returnEvents 0 1 (str "2") (plainEnv 10) found clean
    ⟨⟨⟨?_, ?_, ?_⟩, ?_⟩, ⟨⟨?_, ?_, ?_⟩, ?_⟩, trivial⟩
  · decide
  · decide +kernel
  · decide +kernel
  · rintro ⟨-, -, -, ⟨r, asked, -⟩, -⟩
    have tune : askedWord (skipWs (str "/t5")) = some (.tune, str "5") := by decide +kernel
    cases tune.symm.trans asked
  · decide
  · decide +kernel
  · decide +kernel
  · rintro ⟨other, -⟩
    cases other

def monitorEvents : List (ChannelEvent 2) :=
  twoMembers ++ [types 1 "/t+5" 4 (by decide), types 1 "/t5" 5 (by decide)]

/-- Ann speaks, and Bob answers. -/
def leakEvents : List (ChannelEvent 2) := [types 0 "hello" 11 (by decide), types 1 ";hello" 12 (by decide)]

/-- A channel that was monitored before a boot is heard and spoken on after it. -/
theorem monitor_outlives_boot :
    let state := run (ChannelStation.step plainDerive fun _ => false) .empty monitorEvents
    let booted := (state.cmdBoot 0 (plainEnv 10) (str "2")).1
    let lines := emitted (ChannelStation.step plainDerive fun _ => false)
      (fun state event => (state.turn plainDerive (fun _ => false) event).2) booted leakEvents
    state.bootTarget 0 (str "2") = some 1 ∧ (state.tunings 0).channel = 5 ∧
      Along (ChannelStation.step plainDerive fun _ => false)
        (InWindow plainDerive (fun _ => false) 1 (str "bob") (10 + bootSeconds)) booted leakEvents ∧
      handleKey (state.sessions 1).handle.text = str "bob" ∧
      (∃ p ∈ lines, p.pub.channel = 5 ∧ 1 ∈ p.heard.map Prod.fst) ∧
      ∃ p ∈ lines, p.pub.channel = 5 ∧ p.sender = some 1 := by
  refine ⟨?_, ?_, ⟨⟨?_, ?_, ?_⟩, ⟨?_, ?_, ?_⟩, trivial⟩, ?_, ?_, ?_⟩ <;> decide +kernel

end Enforcement

end SshChatter.Ddial
