import SshChatter.Ddial.ChannelDispatch

namespace SshChatter.Ddial
open CString AtomicProgram DdialProtocol LeaseTable List

section Access

variable {n : Nat}

/-- A session may speak or listen on its own channel, on the channels that it monitors and on the last one. -/
def Dial.Open (dial : Dial) (channel : UInt16) : Prop :=
  dial.channel = channel ∨ channel.toUInt32 ∈ dial.monitored ∨ dial.lastMonitor = channel

theorem Dial.tunedTo.open {dial : Dial} {channel : UInt16} (tuned : dial.tunedTo channel) :
    channel = 0 ∨ dial.Open channel := by
  rcases tuned with everywhere | here | monitored
  · exact .inl everywhere
  · exact .inr (.inl here)
  · exact .inr (.inr (.inl monitored))

/-- Only those who are tuned to a line hear it. -/
def Publication.Fair (p : Publication n) (state : ChannelStation n) : Prop :=
  ∀ listener ∈ p.heard, (state.tunings listener.1).tunedTo p.pub.channel

theorem deliver_fair (state : ChannelStation n) (sender : Option (Fin n)) (pub : PublicLine) :
    (state.deliver sender pub).Fair state := by
  intro listener inside
  obtain ⟨who, -, heard⟩ := mem_filterMap.mp inside
  obtain ⟨text, written, rfl⟩ := Option.map_eq_some_iff.mp heard
  rw [heardText] at written
  by_cases hears : (state.sessions who).loggedIn ∧ (state.tunings who).tunedTo pub.channel ∧
      ¬ screened (state.sessions who) (state.tunings who) pub
  · exact hears.2.1
  · rw [if_neg hears] at written
    cases written

/-- A turn that leaves the channels of every session alone, and publishes on some channels only. -/
structure Quiet (state : ChannelStation n) (who : Fin n) (channels : UInt16 → Prop) (turn : Turn n) : Prop where
  dials : ∀ other, (turn.1.tunings other).toDial = (state.tunings other).toDial
  boots : turn.1.boots = state.boots
  fair : ∀ p ∈ turn.2, p.Fair state
  mine : ∀ p ∈ turn.2, p.sender = some who
  said : ∀ p ∈ turn.2, p.pub.channel = 0 ∨ channels p.pub.channel

variable {state next : ChannelStation n} {who other : Fin n} {env : Surroundings} {channels : UInt16 → Prop}
  {turn : Turn n}

theorem retune_self (change : Tuning → Tuning) : (state.retune who change).tunings who = change (state.tunings who) :=
  Function.update_self ..

theorem retune_other (change : Tuning → Tuning) (away : other ≠ who) :
    (state.retune who change).tunings other = state.tunings other := Function.update_of_ne away ..

theorem retune_dial {change : Tuning → Tuning} (kept : ∀ tuning, (change tuning).toDial = tuning.toDial)
    (other : Fin n) : ((state.retune who change).tunings other).toDial = (state.tunings other).toDial := by
  by_cases same : other = who
  · rw [same, retune_self, kept]
  · rw [retune_other change same]

theorem Publication.Fair.same {p : Publication n} (fair : p.Fair next)
    (dials : ∀ other, (next.tunings other).toDial = (state.tunings other).toDial) : p.Fair state := by
  intro listener inside
  have tuned := fair listener inside
  rwa [dials listener.1] at tuned

/-- A change that no channel depends on. -/
theorem Quiet.change (dials : ∀ other, (next.tunings other).toDial = (state.tunings other).toDial)
    (boots : next.boots = state.boots) : Quiet state who channels (next, []) where
  dials := dials
  boots := boots
  fair _ inside := absurd inside not_mem_nil
  mine _ inside := absurd inside not_mem_nil
  said _ inside := absurd inside not_mem_nil

theorem Quiet.nothing : Quiet state who channels (state, []) := .change (fun _ => rfl) rfl

theorem Quiet.retune {change : Tuning → Tuning} (kept : ∀ tuning, (change tuning).toDial = tuning.toDial) :
    Quiet state who channels (state.retune other change, []) := .change (retune_dial kept) rfl

theorem Quiet.publish {p : Publication n} (dials : ∀ other, (next.tunings other).toDial = (state.tunings other).toDial)
    (boots : next.boots = state.boots) (fair : p.Fair next) (mine : p.sender = some who)
    (said : p.pub.channel = 0 ∨ channels p.pub.channel) : Quiet state who channels (next, [p]) where
  dials := dials
  boots := boots
  fair q inside := by
    rw [mem_singleton.mp inside]
    exact fair.same dials
  mine q inside := by
    rw [mem_singleton.mp inside]
    exact mine
  said q inside := by
    rw [mem_singleton.mp inside]
    exact said

theorem Quiet.notice {channel : UInt16} {text : Bytes}
    (dials : ∀ other, (next.tunings other).toDial = (state.tunings other).toDial) (boots : next.boots = state.boots)
    (said : channel = 0 ∨ channels channel) : Quiet state who channels (next, [next.notice who channel text]) :=
  .publish dials boots (deliver_fair next (some who) _) rfl said

/-- Two turns after each other. -/
theorem Quiet.trans {later : Turn n} (first : Quiet state who channels turn)
    (second : Quiet turn.1 who channels later) : Quiet state who channels (later.1, turn.2 ++ later.2) where
  dials other := (second.dials other).trans (first.dials other)
  boots := second.boots.trans first.boots
  fair p inside := by
    rcases mem_append.mp inside with before | after
    · exact first.fair p before
    · exact (second.fair p after).same first.dials
  mine p inside := by
    rcases mem_append.mp inside with before | after
    · exact first.mine p before
    · exact second.mine p after
  said p inside := by
    rcases mem_append.mp inside with before | after
    · exact first.said p before
    · exact second.said p after

theorem Quiet.retuned (quiet : Quiet state who channels turn) {change : Tuning → Tuning}
    (kept : ∀ tuning, (change tuning).toDial = tuning.toDial) :
    Quiet state who channels (turn.1.retune other change, turn.2) :=
  { quiet with dials := fun away => (retune_dial kept away).trans (quiet.dials away) }

theorem Quiet.imp {more : UInt16 → Prop} (quiet : Quiet state who channels turn)
    (weaker : ∀ channel, channels channel → more channel) : Quiet state who more turn :=
  { quiet with said := fun p inside => (quiet.said p inside).imp_right (weaker _) }

end Access

section QuietCommands

variable {n : Nat} {state : ChannelStation n} {who : Fin n} {env : Surroundings} {channels : UInt16 → Prop}
  {derive : Derive} {envCosysop : UInt32 → Bool}

theorem sentryCheck_quiet : Quiet state who channels
    ((state.sentryCheck who env).1, (state.sentryCheck who env).2.toList) := by
  rw [ChannelStation.sentryCheck]
  dsimp only
  by_cases off : state.sentry = false ∨ (state.sessions who).memberNo ≠ 0
  · rw [if_pos off]
    exact .nothing
  rw [if_neg off]
  generalize (if sentryWindow < env.now - (state.tunings who).sentryStart then 0
    else (state.tunings who).sentryCount) + 1 = count
  by_cases flood : sentryLimit < count
  · rw [if_pos flood]
    dsimp only [Option.toList]
    apply Quiet.notice (retune_dial _) rfl (.inl rfl)
    exact fun _ => rfl
  · rw [if_neg flood]
    dsimp only [Option.toList]
    exact .retune fun _ => rfl

/-- A chat is published on its channel only. -/
theorem publicChat_quiet (channel : UInt16) (raw : Bytes) (opts : ChatOpts) :
    Quiet state who (· = channel) (state.publicChat who env channel raw opts) := by
  rw [ChannelStation.publicChat]
  by_cases empty : skipWs raw = []
  · rw [if_pos empty]
    exact .nothing
  rw [if_neg empty]
  by_cases muted : (state.tunings who).fullMuted
  · rw [if_pos muted]
    exact .nothing
  rw [if_neg muted]
  have checked : Quiet state who (· = channel)
      ((state.sentryCheck who env).1, (state.sentryCheck who env).2.toList) := sentryCheck_quiet
  cases check : state.sentryCheck who env with
  | mk next note =>
    rw [check] at checked
    cases note with
    | some => exact checked
    | none => exact .publish checked.dials checked.boots (deliver_fair next (some who) _) rfl (.inr rfl)

theorem chatOn_quiet (raw : Bytes) (state : ChannelStation n) (list : List UInt16) :
    Quiet state who (· ∈ list) (state.chatOn who env raw list) := by
  induction list generalizing state with
  | nil => exact .nothing
  | cons channel rest ih =>
    have first : Quiet state who (· = channel) (state.publicChat who env channel raw .plain) := publicChat_quiet ..
    exact (first.imp fun _ same => by rw [same]; exact mem_cons_self).trans
      ((ih _).imp fun _ => mem_cons_of_mem channel)

theorem codeFinish_quiet : Quiet state who (· = (state.tunings who).channel) (state.codeFinish who env) := by
  rw [ChannelStation.codeFinish]
  have closed : Quiet state who (· = (state.tunings who).channel)
      (state.retune who fun tuning => { tuning with codeCapture := false }, []) := .retune fun _ => rfl
  by_cases empty : (state.tunings who).code = []
  · rw [if_pos empty]
    exact closed
  · rw [if_neg empty]
    have channel : ((state.retune who fun tuning => { tuning with codeCapture := false }).tunings who).channel =
        (state.tunings who).channel := congrArg Dial.channel (closed.dials who)
    rw [channel]
    apply Quiet.retuned (closed.trans (publicChat_quiet ..))
    exact fun _ => rfl

theorem codeAppend_quiet (line : Bytes) :
    Quiet state who (· = (state.tunings who).channel) (state.codeAppend who env line) := by
  rw [ChannelStation.codeAppend]
  by_cases full : codeLimit < line.length + 3 + (state.tunings who).code.length
  · rw [if_pos full]
    exact codeFinish_quiet
  · rw [if_neg full]
    exact .retune fun _ => rfl

theorem cmdFullMute_quiet (arg : Bytes) : Quiet state who channels (state.cmdFullMute who arg) := by
  rw [ChannelStation.cmdFullMute]
  split_ifs
  · exact .nothing
  · cases parseUint arg with
    | none => exact .nothing
    | some parsed =>
      dsimp only
      split_ifs
      · exact .nothing
      · cases state.findSlot parsed.1.toUInt16 with
        | none => exact .nothing
        | some =>
          dsimp only
          split_ifs
          · exact .nothing
          · exact .retune fun _ => rfl

theorem cmdSentry_quiet (arg : Bytes) : Quiet state who channels (state.cmdSentry who arg) := by
  rw [ChannelStation.cmdSentry]
  by_cases set : ((skipWs arg).head? = some (byte '+') ∨ (skipWs arg).head? = some (byte '-')) ∧
      (state.sessions who).cosysop
  · rw [if_pos set]
    exact .notice (fun _ => rfl) rfl (.inl rfl)
  · rw [if_neg set]
    exact .nothing

theorem cmdIgnore_quiet (arg : Bytes) : Quiet state who channels (state.cmdIgnore who arg) := by
  cases arg with
  | nil => exact .nothing
  | cons c rest =>
    rw [ChannelStation.cmdIgnore]
    split_ifs
    · cases parseUint rest with
      | none => exact .nothing
      | some => exact .retune fun _ => rfl
    · cases parseUint rest with
      | none => exact .nothing
      | some => exact .retune fun _ => rfl
    · cases parseUint (c :: rest) with
      | none => exact .nothing
      | some => exact .retune fun _ => rfl

theorem cmdNull_quiet (arg : Bytes) : Quiet state who channels (state.cmdNull who arg) := by
  rw [ChannelStation.cmdNull]
  cases parseUint arg with
  | none => exact .nothing
  | some => exact .retune fun _ => rfl

theorem changeMeta_kept (state : ChannelStation n) (channel : UInt16) (change : ChannelMeta → ChannelMeta) :
    (state.changeMeta channel change).tunings = state.tunings ∧
      (state.changeMeta channel change).boots = state.boots := by
  rw [ChannelStation.changeMeta]
  split_ifs <;> exact ⟨rfl, rfl⟩

/-- A notice behind a change of the topics. -/
theorem meta_quiet (change : ChannelMeta → ChannelMeta) (text : Bytes) :
    let channel := (state.tunings who).channel
    Quiet state who (· = channel)
      (state.changeMeta channel change, [(state.changeMeta channel change).notice who channel text]) := by
  obtain ⟨tunings, boots⟩ := changeMeta_kept state (state.tunings who).channel change
  exact .notice (fun other => by rw [tunings]) boots (.inr rfl)

theorem cmdTopic_quiet (arg : Bytes) : Quiet state who (· = (state.tunings who).channel) (state.cmdTopic who arg) := by
  rw [ChannelStation.cmdTopic]
  split_ifs
  · exact .nothing
  · exact meta_quiet _ _

theorem cmdAsk_quiet (arg : Bytes) : Quiet state who (· = (state.tunings who).channel) (state.cmdAsk who arg) := by
  rw [ChannelStation.cmdAsk]
  split_ifs
  · exact .nothing
  · exact meta_quiet _ _

theorem cmdAnswer_quiet (arg : Bytes) :
    Quiet state who (· = (state.tunings who).channel) (state.cmdAnswer who arg) := by
  rw [ChannelStation.cmdAnswer]
  split_ifs
  · exact .nothing
  · exact .notice (fun _ => rfl) rfl (.inr rfl)

theorem chatCommand_quiet (word : ChatWord) (r : Bytes) :
    Quiet state who (· = (state.tunings who).channel) (state.chatCommand who env word r) := by
  rw [ChannelStation.chatCommand]
  split_ifs
  · exact .nothing
  · cases word.text env r with
    | none => exact .nothing
    | some => exact publicChat_quiet _ _ _

theorem signupCommand_quiet (r : Bytes) :
    Quiet state who (· = (state.tunings who).channel) (state.signupCommand derive envCosysop who env r) := by
  rw [ChannelStation.signupCommand]
  split_ifs
  · cases (memberSignup derive state.members (state.sessions who).handle.text (skipWs r) env.salt env.now).2 with
    | error _ => exact .change (fun _ => rfl) rfl
    | ok => exact .notice (fun _ => rfl) rfl (.inr rfl)
  · exact .change (fun _ => rfl) rfl

theorem handleCommand_quiet (r : Bytes) :
    Quiet state who (· = (state.tunings who).channel) (state.handleCommand derive envCosysop who env r) := by
  rw [ChannelStation.handleCommand]
  split_ifs
  · exact .change (fun _ => rfl) rfl
  · exact .notice (fun _ => rfl) rfl (.inr rfl)

/-- Nobody says anything while muted. -/
theorem chatOn_muted (muted : (state.tunings who).fullMuted) (raw : Bytes) (list : List UInt16) :
    state.chatOn who env raw list = (state, []) := by
  have silent (channel : UInt16) : state.publicChat who env channel raw .plain = (state, []) := by
    rw [ChannelStation.publicChat, if_pos muted, ite_self]
  induction list with
  | nil => rfl
  | cons channel rest ih =>
    rw [ChannelStation.chatOn, silent, ih]
    rfl

theorem cmdSpaces_quiet (arg : Bytes) :
    Quiet state who (fun channel => skipWs arg ≠ [] ∧ (state.sessions who).memberNo ≠ 0 ∧
      (state.tunings who).fullMuted = false ∧ channel ∈ state.spaces env) (state.cmdSpaces who env arg) := by
  rw [ChannelStation.cmdSpaces]
  by_cases empty : skipWs arg = []
  · rw [if_pos empty]
    exact .nothing
  rw [if_neg empty]
  by_cases guest : (state.sessions who).memberNo = 0
  · rw [if_pos guest]
    exact .nothing
  rw [if_neg guest]
  cases muted : (state.tunings who).fullMuted with
  | true =>
    rw [chatOn_muted muted]
    exact .nothing
  | false => exact (chatOn_quiet _ _ _).imp fun channel inside => ⟨empty, guest, rfl, inside⟩

end QuietCommands

end SshChatter.Ddial
