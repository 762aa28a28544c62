import SshChatter.Lib.FixedCodec
import SshChatter.Polls.MainPoll
import SshChatter.Polls.NamedPoll

namespace SshChatter.Polls
open CString FixedCodec RecordStream

def voteStateMagic : Nat := 0x564F5445

def voteStateVersion : Nat := 1

/-- This is `vote_state_header_t`. -/
structure VoteHeader where
  magic : Nat
  version : Nat
  namedCount : Nat
  reserved : Nat

/-- This is `vote_state_poll_entry_t` without the reserved members. All five options are there. -/
structure PollEntry where
  active : Nat
  allowMultiple : Nat
  id : Nat
  optionCount : Nat
  question : Bytes
  options : List PollOption

/-- This is `vote_state_named_entry_t` without the reserved member. All voters are there. -/
structure NamedEntry where
  poll : PollEntry
  label : Bytes
  owner : Bytes
  voterCount : Nat
  voters : List Voter

def PollOption.blank : PollOption := ⟨[], 0⟩

def headerCodec : Codec VoteHeader :=
  ((number 4).pair ((number 4).pair ((number 4).pair (number 4)))).iso
    (fun found => ⟨found.1, found.2.1, found.2.2.1, found.2.2.2⟩)
    fun header => (header.magic, header.version, header.namedCount, header.reserved)

def optionCodec : Codec PollOption :=
  ((text (messageLimit - 1)).pair (number 4)).iso (fun found => ⟨found.1, found.2⟩) fun entry =>
    (entry.text, entry.votes)

/-- The struct has six reserved bytes behind the flags, four behind the count of the options, and four at its end. -/
def pollCodec : Codec PollEntry :=
  ((number 1).pair ((number 1).pair ((padding 6).pair ((number 8).pair ((number 4).pair ((padding 4).pair
    ((text (messageLimit - 1)).pair ((optionCodec.array maxOptions .blank).pair (padding 4))))))))).iso
    (fun found => ⟨found.1, found.2.1, found.2.2.2.1, found.2.2.2.2.1, found.2.2.2.2.2.2.1, found.2.2.2.2.2.2.2.1⟩)
    fun entry => (entry.active, entry.allowMultiple, (), entry.id, entry.optionCount, (), entry.question, entry.options,
      ())

def voterCodec : Codec Voter :=
  ((text (usernameLen - 1)).pair ((signed 4).pair (number 4))).iso
    (fun found => ⟨found.1, found.2.1, BitVec.ofNat 32 found.2.2⟩)
    fun voter => (voter.username, voter.choice, voter.choicesMask.toNat)

def namedCodec : Codec NamedEntry :=
  (pollCodec.pair ((text (pollLabelLen - 1)).pair ((text (usernameLen - 1)).pair ((number 4).pair ((padding 4).pair
    (voterCodec.array maxNamedVoters .blank)))))).iso
    (fun found => ⟨found.1, found.2.1, found.2.2.1, found.2.2.2.1, found.2.2.2.2.2⟩)
    fun entry => (entry.poll, entry.label, entry.owner, entry.voterCount, (), entry.voters)

/-- This is `snprintf` to an array of a size. -/
def printTo (size : Nat) (shown : Bytes) : Bytes := shown.take (size - 1)

/-- An element of an array whose elements behind the used ones are cleared. -/
def PollState.optionAt (poll : PollState) (idx : Nat) : PollOption := poll.options.getD idx .blank

def exportPollEntry (source : PollState) : PollEntry where
  active := if source.active then 1 else 0
  allowMultiple := if source.allowMultiple then 1 else 0
  id := source.id
  optionCount := if maxOptions < source.optionCount % 2 ^ 32 then maxOptions else source.optionCount % 2 ^ 32
  question := printTo messageLimit source.question
  options := (List.range maxOptions).map fun idx =>
    ⟨printTo messageLimit (source.optionAt idx).text, (source.optionAt idx).votes⟩

def importPollEntry (source : PollEntry) : PollState where
  active := source.active ≠ 0
  id := source.id
  question := printTo messageLimit source.question
  options := (source.options.take (if maxOptions < source.optionCount then maxOptions else source.optionCount)).map
    fun entry =>
    ⟨printTo messageLimit entry.text, entry.votes⟩
  allowMultiple := source.allowMultiple ≠ 0

/-- The part of `host_vote_state_save_locked` that fills a record. -/
def exportNamedEntry (source : NamedPoll) : NamedEntry where
  poll := exportPollEntry source.poll
  label := printTo pollLabelLen source.label
  owner := printTo usernameLen source.owner
  voterCount := if maxNamedVoters < source.voters.length % 2 ^ 32 then maxNamedVoters else source.voters.length % 2 ^ 32
  voters := (List.range maxNamedVoters).map fun idx =>
    let voter := source.voters.getD idx .blank
    { voter with username := printTo usernameLen voter.username }

/-- The part of `host_vote_state_load` that fills a slot. -/
def importNamedEntry (source : NamedEntry) : NamedPoll where
  poll := importPollEntry source.poll
  label := printTo pollLabelLen source.label
  owner := printTo usernameLen source.owner
  voters := (source.voters.take (if maxNamedVoters < source.voterCount then maxNamedVoters else source.voterCount)).map
    fun voter =>
    { voter with username := printTo usernameLen voter.username }

/-- The polls of `host_t`. -/
structure VoteHost where
  main : MainHost
  named : NamedHost
  namedPollCount : Nat

def VoteHost.fresh : VoteHost := ⟨.fresh, .fresh, 0⟩

def labelled (named : NamedHost) : List NamedPoll := ((List.finRange maxNamedPolls).map named).filter fun entry =>
    entry.label ≠ []

def recountNamedPolls (named : NamedHost) : Nat :=
  (List.finRange maxNamedPolls).countP fun slot => (named slot).label ≠ [] ∧ (named slot).poll.active

/-- The bytes that `host_vote_state_save_locked` writes. -/
def saveVotes (host : VoteHost) : Bytes :=
  headerCodec.encode ⟨voteStateMagic, voteStateVersion, (labelled host.named).length, 0⟩ ++
    (pollCodec.encode (exportPollEntry host.main.poll) ++
      ((labelled host.named).map exportNamedEntry).flatMap namedCodec.encode)

def VoteHost.reset (host : VoteHost) : VoteHost where
  main := { host.main with poll := host.main.poll.reset }
  named := fun slot => (host.named slot).reset
  namedPollCount := 0

/-- A record goes to the slot of its number. A record without a slot is only read. -/
def placeNamed (idx : Nat) (entry : NamedEntry) (named : NamedHost) : NamedHost :=
  if room : idx < maxNamedPolls then Function.update named ⟨idx, room⟩ (importNamedEntry entry) else named

/-- This is `host_vote_state_load` for a file that can be opened. -/
def loadVotes (file : Bytes) (host : VoteHost) : VoteHost :=
  match readFrame headerCodec file with
  | none => host
  | some (header, file) =>
    if header.magic ≠ voteStateMagic then host
    else if header.version = 0 ∨ voteStateVersion < header.version then host
    else
      let cleared := host.reset
      match readFrame pollCodec file with
      | none => cleared.reset
      | some (entry, file) =>
        let loaded := { cleared with main := { cleared.main with poll := importPollEntry entry } }
        match readLoop (readFrame namedCodec) placeNamed header.namedCount 0 file loaded.named with
        | (named, none) => VoteHost.reset { loaded with named := named }
        | (named, some _) => { loaded with named := named, namedPollCount := recountNamedPolls named }

/-- A command for a poll, or a restart of the host, whose preferences are loaded from another file. -/
inductive VoteEvent where
  | main (command : MainCommand)
  | named (command : NamedCommand)
  | restart (preferences : List Preference)

def VoteHost.step (host : VoteHost) : VoteEvent → VoteHost
  | .main command => { host with main := host.main.step command }
  | .named command =>
    { host with named := host.named.step command, namedPollCount := recountNamedPolls (host.named.step command) }
  | .restart preferences => loadVotes (saveVotes host) ⟨⟨.fresh, preferences⟩, .fresh, 0⟩

end SshChatter.Polls
