import SshChatter.Ddial.ChannelTuning

namespace SshChatter.Ddial
open CString AtomicProgram DdialProtocol LeaseTable

section Surroundings

/-- This is `mv_chat_opts_t`. -/
structure ChatOpts where
  localOnly : Bool
  membersOnly : Bool
  action : Bool
  uno : Bool
  block : Bool
  noTransform : Bool
  anim : Nat
  paceBaud : UInt16

def ChatOpts.plain : ChatOpts := ⟨false, false, false, false, false, false, 0, 0⟩

/-- What a command meets around the station: the time, the stack, a salt, the Chatter members on the link, how a text
is styled, and the random and fetched texts. -/
structure Surroundings where
  now : Int
  depth : Nat
  salt : Option (Octets 16)
  chatLinks : Nat
  style : UInt16 → ChatOpts → Bytes → Bytes × Bytes
  joke : Bytes
  ball : Bytes
  gif : Option Bytes

variable {n : Nat}

/-- What a command leaves behind and what it publishes. -/
abbrev Turn (n : Nat) := ChannelStation n × List (Publication n)

end Surroundings

section Chat

variable {n : Nat} (state : ChannelStation n) (who : Fin n) (env : Surroundings)

def sentryWindow : Int := 10

def sentryLimit : UInt32 := 6

/-- This is `mv_sentry_check`. A session that floods is muted and everybody is told. -/
def ChannelStation.sentryCheck : ChannelStation n × Option (Publication n) :=
  let sess := state.sessions who
  let tuning := state.tunings who
  if state.sentry = false ∨ sess.memberNo ≠ 0 then (state, none)
  else
    let expired := sentryWindow < env.now - tuning.sentryStart
    let start := if expired then env.now else tuning.sentryStart
    let count := (if expired then 0 else tuning.sentryCount) + 1
    if sentryLimit < count then
      let muted := state.retune who fun tuning =>
        { tuning with sentryStart := start, sentryCount := count, fullMuted := true }
      (muted, some (muted.notice who 0 ((str "* Sentry muted line #" ++ decimal tuning.slot.toNat ++ str " (" ++
        sess.handle.text ++ str ").").take 127)))
    else (state.retune who fun tuning => { tuning with sentryStart := start, sentryCount := count }, none)

def ChannelStation.publicChat (channel : UInt16) (raw : Bytes) (opts : ChatOpts) : Turn n :=
  if skipWs raw = [] then (state, [])
  else if (state.tunings who).fullMuted then (state, [])
  else
    match state.sentryCheck who env with
    | (next, some note) => (next, [note])
    | (next, none) =>
      let sess := next.sessions who
      let (line, plain) := env.style channel opts (skipWs raw)
      let pub : PublicLine :=
        ⟨channel, (next.tunings who).slot, sess.memberNo, line, some plain, opts.membersOnly, false⟩
      let shared := opts.localOnly = false ∧ opts.membersOnly = false
      let wire := if shared ∧ channel ≤ 4 ∧ opts.block = false then
          some ((if opts.action then str "* " else []) ++ plain) else none
      ({ next with toMvStation := next.put who { sess with messagesSent := sess.messagesSent + 1 } },
        [{ next.deliver (some who) pub with room := shared ∧ channel = roomChannel, link := wire }])

def ChannelStation.chatOn (raw : Bytes) : ChannelStation n → List UInt16 → Turn n
  | state, [] => (state, [])
  | state, channel :: rest =>
    let first := state.publicChat who env channel raw .plain
    let later := ChannelStation.chatOn raw first.1 rest
    (later.1, first.2 ++ later.2)

def metaMax : Nat := 64

/-- This is `mv_spaces_add`, without the number of users. -/
def spacesAdd (spaces : List UInt16) (channel : UInt16) : List UInt16 :=
  if channel ∈ spaces then spaces else if spaces.length < metaMax then spaces ++ [channel] else spaces

/-- The channels that `mv_cmd_spaces` finds somebody on. -/
def ChannelStation.spaces : List UInt16 :=
  ((((List.finRange n).filter fun other => (state.sessions other).loggedIn).map fun other =>
    (state.tunings other).channel) ++ List.replicate env.chatLinks roomChannel).foldl spacesAdd []

/-- This is `mv_cmd_spaces`. The list of the channels goes to the caller only. -/
def ChannelStation.cmdSpaces (arg : Bytes) : Turn n :=
  if skipWs arg = [] then (state, [])
  else if (state.sessions who).memberNo = 0 then (state, [])
  else state.chatOn who env (skipWs arg) (state.spaces env)

end Chat

section Channels

variable {n : Nat} (state : ChannelStation n) (who : Fin n) (env : Surroundings)

def ChannelStation.lineName : Bytes :=
  str "* #" ++ decimal (state.tunings who).slot.toNat ++ str " " ++ (state.sessions who).handle.text

def ChannelStation.tune (channel : UInt32) : Turn n :=
  let sess := state.sessions who
  let old := (state.tunings who).channel
  if channel < 1 ∨ maxChannel < channel then (state, [])
  else if sess.memberNo = 0 ∧ guestMaxChannel < channel then (state, [])
  else if state.isBooted channel.toUInt16 sess.handle.text env.now then (state, [])
  else if old.toUInt32 = channel then (state, [])
  else
    let left := state.notice who old ((state.lineName who ++ str " tuned out.").take 127)
    let next := state.retune who fun tuning => { tuning with channel := channel.toUInt16, joinedAt := env.now }
    (next, [left, next.notice who channel.toUInt16 ((state.lineName who ++ str " tuned in.").take 127)])

/-- The commands `/t+` and `/t-`. -/
def ChannelStation.monitor (sign : UInt8) (arg : Bytes) : Turn n :=
  if (state.sessions who).memberNo = 0 then (state, [])
  else
    match parseUint arg with
    | none => (state, [])
    | some (channel, _) =>
      if channel < 1 ∨ maxChannel < channel then (state, [])
      else if sign = byte '+' then
        if state.isBooted channel.toUInt16 (state.sessions who).handle.text env.now then (state, [])
        else
          (state.retune who fun tuning =>
            let added := listAdd tuning.monitored channel
            if added.2 then { tuning with monitored := added.1, lastMonitor := channel.toUInt16 } else tuning, [])
      else
        (state.retune who fun tuning =>
          let monitored := listRemove tuning.monitored channel
          let last := if tuning.lastMonitor.toUInt32 = channel then (monitored.head?.map UInt32.toUInt16).getD 0
            else tuning.lastMonitor
          { tuning with monitored := monitored, lastMonitor := last }, [])

/-- The commands `/t` and `/j`. -/
def ChannelStation.cmdTune (r : Bytes) : Turn n :=
  match r with
  | [] => (state, [])
  | c :: arg =>
    if c = byte '?' then (state, [])
    else if c = byte '+' ∨ c = byte '-' then state.monitor who env c arg
    else
      match parseUint r with
      | some (channel, _) => state.tune who env channel
      | none => (state, [])

/-- The command `/ts`. -/
def ChannelStation.cmdSay (r : Bytes) : Turn n :=
  let tuning := state.tunings who
  match parseUint r with
  | none => (state, [])
  | some (channel, text) =>
    if channel ∉ tuning.monitored ∧ channel ≠ tuning.channel.toUInt32 then (state, [])
    else
      (state.retune who fun tuning => { tuning with lastMonitor := channel.toUInt16 }).publicChat who env
        channel.toUInt16 text .plain

/-- The session on a line, as `mv_boot_cb` and `mv_full_mute_cb` find it. -/
def ChannelStation.findSlot (slot : UInt16) : Option (Fin n) :=
  (List.finRange n).find? fun other => (state.sessions other).loggedIn ∧ (state.tunings other).slot = slot

/-- The session that `mv_is_moderator` finds, the first one on the channel. -/
def ChannelStation.firstOn (channel : UInt16) : Option (Fin n) :=
  (List.finRange n).foldl (fun first other =>
    if (state.sessions other).loggedIn ∧ (state.tunings other).channel = channel then
      match first with
      | none => some other
      | some before =>
        if (state.tunings other).joinedAt < (state.tunings before).joinedAt then some other else some before
    else first) none

def ChannelStation.isModerator (channel : UInt16) : Prop :=
  (state.sessions who).cosysop ∨ state.firstOn channel = some who

instance (channel : UInt16) : Decidable (state.isModerator who channel) := inferInstanceAs (Decidable (_ ∨ _))

/-- The session that `mv_cmd_boot` may boot. -/
def ChannelStation.bootTarget (arg : Bytes) : Option (Fin n) :=
  let channel := (state.tunings who).channel
  match parseUint arg with
  | none => none
  | some (slot, _) =>
    if 0xFFFF < slot ∨ (channel = roomChannel ∧ (state.sessions who).cosysop = false) ∨
        ¬ state.isModerator who channel then none
    else
      (state.findSlot slot.toUInt16).filter fun other =>
        (state.tunings other).channel = channel ∧ other ≠ who ∧ (state.sessions other).cosysop = false

def ChannelStation.cmdBoot (arg : Bytes) : Turn n :=
  match state.bootTarget who arg with
  | none => (state, [])
  | some other =>
    let channel := (state.tunings who).channel
    let moved := state.retune other fun tuning => { tuning with channel := roomChannel, joinedAt := env.now }
    let next := moved.addBoot channel (state.sessions other).handle env.now
    (next, [next.notice who channel ((state.lineName other ++ str " was booted from the channel.").take 127)])

def ChannelStation.cmdFullMute (arg : Bytes) : Turn n :=
  if (state.sessions who).cosysop = false then (state, [])
  else
    match parseUint arg with
    | none => (state, [])
    | some (slot, _) =>
      if 0xFFFF < slot then (state, [])
      else
        match state.findSlot slot.toUInt16 with
        | none => (state, [])
        | some other =>
          if (state.sessions other).memberNo ≠ 0 then (state, [])
          else (state.retune other fun tuning => { tuning with fullMuted := !tuning.fullMuted }, [])

def ChannelStation.cmdSentry (arg : Bytes) : Turn n :=
  let sign := (skipWs arg).head?
  if (sign = some (byte '+') ∨ sign = some (byte '-')) ∧ (state.sessions who).cosysop then
    let next := { state with sentry := sign = some (byte '+') }
    (next, [next.notice who 0 ((str "* Sentry " ++
      (if sign = some (byte '+') then str "activated" else str "deactivated") ++ str " by " ++
      (state.sessions who).handle.text ++ str ".").take 95)])
  else (state, [])

def ChannelStation.cmdIgnore (arg : Bytes) : Turn n :=
  match arg with
  | [] => (state, [])
  | c :: rest =>
    if c = byte '+' ∨ c = byte '-' then
      match parseUint rest with
      | none => (state, [])
      | some (v, _) =>
        if c = byte '+' then
          (state.retune who fun tuning =>
            { tuning with ignoreMembers := (listAdd tuning.ignoreMembers v).1 }, [])
        else
          (state.retune who fun tuning =>
            { tuning with
              ignoreMembers := listRemove tuning.ignoreMembers v
              ignoreSlots := listRemove tuning.ignoreSlots v }, [])
    else
      match parseUint arg with
      | none => (state, [])
      | some (v, _) =>
        (state.retune who fun tuning => { tuning with ignoreSlots := listToggle tuning.ignoreSlots v }, [])

def ChannelStation.cmdNull (arg : Bytes) : Turn n :=
  match parseUint arg with
  | none => (state, [])
  | some (v, _) => (state.retune who fun tuning => { tuning with nullSlots := listToggle tuning.nullSlots v }, [])

def ChannelStation.changeMeta (channel : UInt16) (change : ChannelMeta → ChannelMeta) : ChannelStation n :=
  if state.metas.any fun entry => entry.channel = channel then
    { state with metas := state.metas.map fun entry => if entry.channel = channel then change entry else entry }
  else if state.metas.length < metaMax then
    { state with metas := state.metas ++ [change ⟨channel, .zero, .zero, .zero⟩] }
  else state

def ChannelStation.cmdTopic (arg : Bytes) : Turn n :=
  let channel := (state.tunings who).channel
  if skipWs arg = [] then (state, [])
  else
    let next := state.changeMeta channel fun entry => { entry with topic := .print (skipWs arg) }
    (next, [next.notice who channel
      ((str "* " ++ (state.sessions who).handle.text ++ str " suggests a topic: " ++ skipWs arg).take 255)])

def ChannelStation.cmdAsk (arg : Bytes) : Turn n :=
  let channel := (state.tunings who).channel
  if skipWs arg = [] then (state, [])
  else
    let next := state.changeMeta channel fun entry =>
      { entry with question := .print (skipWs arg), asker := (state.sessions who).handle }
    (next, [next.notice who channel ((str "? " ++ (state.sessions who).handle.text ++ str " asks the channel: " ++
      skipWs arg ++ str "  (/answer <msg>)").take 383)])

def ChannelStation.cmdAnswer (arg : Bytes) : Turn n :=
  let channel := (state.tunings who).channel
  let question := ((state.metas.find? fun entry => entry.channel = channel).map fun entry => entry.question.text).getD
    []
  if question = [] ∨ skipWs arg = [] then (state, [])
  else
    (state, [state.notice who channel ((str "! " ++ (state.sessions who).handle.text ++ str " answers \"" ++ question ++
      str "\": " ++ skipWs arg).take 639)])

def codeLimit : Nat := 2048

def ChannelStation.codeFinish : Turn n :=
  let code := (state.tunings who).code
  let closed := state.retune who fun tuning => { tuning with codeCapture := false }
  if code = [] then (closed, [])
  else
    let said := closed.publicChat who env (closed.tunings who).channel code { ChatOpts.plain with block := true }
    (said.1.retune who fun tuning => { tuning with code := [] }, said.2)

def ChannelStation.codeAppend (line : Bytes) : Turn n :=
  let code := (state.tunings who).code
  if codeLimit < line.length + 3 + code.length then state.codeFinish who env
  else
    (state.retune who fun tuning =>
      { tuning with code := (if code = [] then [] else code ++ [13, 10]) ++ line }, [])

end Channels

end SshChatter.Ddial
