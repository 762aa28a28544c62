import SshChatter.Polls.MainTally
import SshChatter.Polls.NamedTally
import SshChatter.Polls.VoteRoundTrip

namespace SshChatter.Polls
open CString EventRun List

section Text

variable {text : Bytes} {c : UInt8}

theorem mem_of_mem_trimSpace (inside : c ∈ trimSpace text) : c ∈ text :=
  (dropWhile_suffix isSpace).mem ((List.rdropWhile_prefix isSpace _).mem inside)

theorem parseOptions_plain {options tokens read : List Bytes} (before : ∀ option ∈ options, 0 ∉ option)
    (plain : ∀ token ∈ tokens, 0 ∉ token) (parsed : parseOptions options tokens = .ok read) :
      ∀ option ∈ read, 0 ∉ option := by
  induction tokens generalizing options with
  | nil =>
    obtain rfl : options = read := Except.ok.inj parsed
    exact before
  | cons token tokens ih =>
    rw [parseOptions] at parsed
    split_ifs at parsed
    obtain ⟨here, later⟩ := forall_mem_cons.mp plain
    refine ih ?_ later parsed
    intro option inside
    rcases mem_append.mp inside with old | new
    · exact before option old
    · rw [mem_singleton.mp new]
      exact fun zero => here (mem_of_mem_trimSpace (mem_of_mem_take zero))

/-- The question and the options of a C string are C strings. -/
theorem parseFields_plain {fields : PollText} (plain : 0 ∉ text) (parsed : parseFields text = .ok fields) :
    0 ∉ fields.question ∧ ∀ option ∈ fields.options, 0 ∉ option := by
  have parts : ∀ part ∈ Segments.segments (byte '|') (text.take (maxInputLen - 1)), 0 ∉ part :=
    fun part inside zero => plain (mem_of_mem_take (Segments.mem_of_mem_segments inside zero))
  rw [parseFields] at parsed
  split at parsed
  · cases parsed
  next token tokens split =>
    rw [split] at parts
    obtain ⟨here, later⟩ := forall_mem_cons.mp parts
    split_ifs at parsed
    split at parsed
    · cases parsed
    next options read =>
      split_ifs at parsed
      cases parsed
      refine ⟨fun zero => here (mem_of_mem_trimSpace (mem_of_mem_take zero)), ?_⟩
      exact parseOptions_plain (fun _ inside => absurd inside not_mem_nil) later read

theorem mem_of_mem_blankToken {token behind : Bytes} (found : blankToken text = some (token, behind))
    (inside : c ∈ behind) : c ∈ text := by
  rw [blankToken] at found
  split at found
  · cases found
  next first rest split =>
    cases found
    apply (dropWhile_suffix (fun c => decide (c = 32 ∨ c = 9))).mem
    rw [split]
    exact (dropWhile_suffix _).mem (mem_of_mem_drop inside)

theorem valid_plain (valid : pollLabelIsValid text) : 0 ∉ text := by
  intro zero
  rw [pollLabelIsValid_eq, Bool.and_eq_true, all_eq_true] at valid
  exact absurd (valid.2 0 zero) (by decide)

end Text

section Polls

variable {poll : PollState} {option : Nat}

theorem PollState.Storable.fresh : PollState.fresh.Storable :=
  ⟨by decide, .empty (by decide), Nat.zero_le _, fun _ inside => absurd inside not_mem_nil⟩

theorem PollState.Storable.reset (storable : poll.Storable) : poll.reset.Storable :=
  ⟨storable.id, .empty (by decide), Nat.zero_le _, fun _ inside => absurd inside not_mem_nil⟩

theorem PollState.Storable.close (storable : poll.Storable) : PollState.Storable { poll with active := false } :=
  ⟨storable.id, storable.question, storable.few, storable.options⟩

theorem PollState.Storable.modify (storable : poll.Storable) {change : PollOption → PollOption}
    (text : ∀ entry, (change entry).text = entry.text)
      (votes : ∀ entry, entry.votes < 2 ^ 32 → (change entry).votes < 2 ^ 32) :
    PollState.Storable { poll with options := poll.options.modify option change } := by
  refine ⟨storable.id, storable.question, ?_, ?_⟩
  · rw [length_modify]
    exact storable.few
  · intro entry inside
    obtain ⟨place, found⟩ := mem_iff_getElem?.mp inside
    rw [getElem?_modify] at found
    obtain ⟨old, there, rfl⟩ := Option.map_eq_some_iff.mp found
    obtain ⟨printed, small⟩ := storable.options old (mem_of_getElem? there)
    split_ifs with here
    · rw [text]
      exact ⟨printed, votes old small⟩
    · exact ⟨printed, small⟩

theorem PollState.Storable.vote (storable : poll.Storable) : (poll.vote option).Storable :=
  storable.modify (fun _ => rfl) fun entry _ => Nat.mod_lt _ (by decide)

theorem PollState.Storable.unvote (storable : poll.Storable) : (poll.unvote option).Storable := by
  apply storable.modify
  · intro entry
    split_ifs <;> rfl
  · intro entry small
    split_ifs
    · exact (Nat.sub_le _ _).trans_lt small
    · exact small

theorem PollState.Storable.start (poll : PollState) {question : Bytes} {options : List Bytes} (allowMultiple : Bool)
    (plain : 0 ∉ question) (few : options.length ≤ maxOptions) (plains : ∀ option ∈ options, 0 ∉ option) :
    (poll.start question options allowMultiple).Storable where
  id := by
    dsimp only [PollState.start, PollState.nextId]
    split_ifs
    · decide
    · exact Nat.mod_lt _ (by decide)
  question := printed_printTo (by decide) plain
  few := by
    dsimp only [PollState.start]
    rw [length_map]
    exact few
  options := by
    intro entry inside
    obtain ⟨option, member, rfl⟩ := mem_map.mp inside
    exact ⟨printed_printTo (by decide) (plains option member), Nat.two_pow_pos 32⟩

end Polls

section Main

variable {host : MainHost}

structure JsonRequest.Plain (request : JsonRequest) : Prop where
  username : 0 ∉ request.username.text
  question : 0 ∉ request.question.text
  options : ∀ option ∈ request.options, 0 ∉ option.text

theorem sessionHandleVote_storable (storable : host.poll.Storable) (user : SessionUser) (optionIndex : Nat) :
    (sessionHandleVote host user optionIndex).host.poll.Storable := by
  rw [sessionHandleVote]
  split_ifs
  · exact storable
  · exact storable
  · cases ensurePreference host.preferences user.name.text user.clientIp.text with
    | none => exact storable
    | some =>
      dsimp only
      split_ifs
      · exact storable.unvote
      · exact storable.unvote
      · exact storable.vote
      · exact storable.vote
  · cases ensurePreference host.preferences user.name.text user.clientIp.text with
    | none => exact storable
    | some =>
      dsimp only
      split_ifs
      · exact storable
      · exact storable.unvote.vote
      · exact storable.vote

theorem sessionHandlePoll_storable (storable : host.poll.Storable) (user : SessionUser) {arguments : Bytes}
    (plain : 0 ∉ arguments) : (sessionHandlePoll host user arguments).host.poll.Storable := by
  have working : 0 ∉ trimSpace (arguments.take (maxInputLen - 1)) :=
    fun zero => plain (mem_of_mem_take (mem_of_mem_trimSpace zero))
  rw [sessionHandlePoll]
  split_ifs
  · exact storable
  · exact storable
  · exact storable
  · exact storable.close
  · exact storable
  · cases parsed : parseFields (trimSpace (arguments.take (maxInputLen - 1))) with
    | error => exact storable
    | ok fields =>
      obtain ⟨question, options⟩ := parseFields_plain working parsed
      exact .start host.poll false question fields.fits options

theorem jsonApiHandlePollRequest_storable (storable : host.poll.Storable) (peerIp : CBuffer 64) {request : JsonRequest}
    (plain : request.Plain) : (jsonApiHandlePollRequest host peerIp request).host.poll.Storable := by
  have few : (request.options.map CBuffer.text).length ≤ maxOptions := by
    rw [length_map]
    exact request.fits
  rw [jsonApiHandlePollRequest]
  split_ifs
  · exact storable
  · exact storable
  · exact storable
  · exact storable.close
  · by_cases choice : request.choice = 0
    · rw [jsonPollVote, if_pos choice]
      exact storable
    · obtain ⟨same, -⟩ := jsonPollVote_eq host ⟨request.username, peerIp, false, false⟩ request choice rfl
      rw [same]
      exact sessionHandleVote_storable storable _ _
  · exact storable
  · exact storable
  · exact .start host.poll false plain.question few (forall_mem_map.mpr plain.options)

def MainCommand.Plain : MainCommand → Prop
  | .sessionPoll _ arguments => 0 ∉ arguments
  | .sessionVote _ _ => True
  | .jsonPoll _ request => request.Plain

theorem main_step_storable (storable : host.poll.Storable) {command : MainCommand} (plain : command.Plain) :
    (host.step command).poll.Storable := by
  cases command with
  | sessionPoll user => exact sessionHandlePoll_storable storable user plain
  | sessionVote user optionIndex => exact sessionHandleVote_storable storable user optionIndex
  | jsonPoll peerIp => exact jsonApiHandlePollRequest_storable storable peerIp plain

end Main

section Named

variable {host : NamedHost} {entry : NamedPoll} {slot : Fin maxNamedPolls}

theorem NamedPoll.Storable.reset (storable : entry.Storable) : entry.reset.Storable :=
  ⟨storable.poll.reset, .empty (by decide), .empty (by decide), Nat.zero_le _, fun _ inside =>
    absurd inside not_mem_nil⟩

theorem NamedPoll.Storable.free : NamedPoll.free.Storable :=
  ⟨.fresh, .empty (by decide), .empty (by decide), Nat.zero_le _, fun _ inside => absurd inside not_mem_nil⟩

theorem NamedPoll.Storable.recast (storable : entry.Storable) {poll : PollState} {voters : List Voter}
    (polls : poll.Storable) (few : voters.length ≤ maxNamedVoters) (all : ∀ voter ∈ voters, voter.Storable) :
    NamedPoll.Storable { entry with poll := poll, voters := voters } :=
  ⟨polls, storable.label, storable.owner, few, all⟩

theorem NamedPoll.Storable.set (storable : entry.Storable) (index : Nat) {voter : Voter} (kept : voter.Storable) :
    ∀ other ∈ entry.voters.set index voter, other.Storable := by
  intro other inside
  rcases mem_or_eq_of_mem_set inside with old | rfl
  · exact storable.voters other old
  · exact kept

theorem NamedPoll.Storable.start (entry : NamedPoll) {label owner question : Bytes} {options : List Bytes}
    (allowMultiple : Bool) (labelPlain : 0 ∉ label) (ownerPrinted : Printed usernameLen owner) (plain : 0 ∉ question)
    (few : options.length ≤ maxOptions) (plains : ∀ option ∈ options, 0 ∉ option) :
    (entry.start label owner question options allowMultiple).Storable :=
  ⟨.start entry.poll allowMultiple plain few plains, printed_printTo (by decide) labelPlain, ownerPrinted,
    Nat.zero_le _, fun _ inside => absurd inside not_mem_nil⟩

theorem update_storable (storable : ∀ slot, (host slot).Storable) (kept : entry.Storable) (other : Fin maxNamedPolls) :
    (Function.update host slot entry other).Storable := by
  by_cases same : other = slot
  · rw [same, Function.update_self]
    exact kept
  · rw [Function.update_of_ne same]
    exact storable other

theorem NamedPoll.Storable.cast (storable : entry.Storable) {optionIndex : Nat}
    (inside : optionIndex < entry.poll.optionCount)
    {username : Bytes} (printed : Printed usernameLen username) (mask : BitVec 32) :
    Voter.Storable ⟨username, optionIndex, mask⟩ := by
  have small : optionIndex < 5 := inside.trans_le storable.poll.few
  exact ⟨printed, by dsimp only; omega, by dsimp only; omega⟩

theorem sessionHandleNamedVote_storable (storable : ∀ slot, (host slot).Storable) (user : SessionUser)
    (plain : 0 ∉ user.name.text) (optionIndex : Nat) (label : Bytes) :
    ∀ slot, ((sessionHandleNamedVote host user optionIndex label).host slot).Storable := by
  have name : Printed usernameLen user.name.text := ⟨user.name.fits, plain⟩
  rw [sessionHandleNamedVote]
  dsimp only
  split_ifs
  · exact storable
  · exact storable
  · cases host.find (trimSpace (label.take (pollLabelLen - 1))) with
    | none => exact storable
    | some slot =>
      dsimp only
      have here := storable slot
      by_cases idle : (host slot).poll.active = false ∨ (host slot).poll.optionCount = 0
      · rw [if_pos idle]
        exact storable
      rw [if_neg idle]
      by_cases missing : (host slot).poll.optionCount ≤ optionIndex
      · rw [if_pos missing]
        exact storable
      have inside : optionIndex < (host slot).poll.optionCount := Nat.lt_of_not_le missing
      have old (index : Nat) : ((host slot).voters.getD index .blank).Storable := voterAt_storable here index
      have joined (mask : BitVec 32) : ∀ voter ∈ (host slot).voters ++ [(⟨user.name.text, optionIndex, mask⟩ : Voter)],
          voter.Storable := by
        intro voter member
        rcases mem_append.mp member with before | new
        · exact here.voters voter before
        · rw [mem_singleton.mp new]
          exact here.cast inside name mask
      have room (mask : BitVec 32) (free : ¬ maxNamedVoters ≤ (host slot).voters.length) :
          ((host slot).voters ++ [(⟨user.name.text, optionIndex, mask⟩ : Voter)]).length ≤ maxNamedVoters := by
        rw [length_append, length_singleton]
        omega
      have recast (index : Nat) (mask : BitVec 32) :
          ∀ voter ∈ (host slot).voters.set index
            { (host slot).voters.getD index .blank with choice := optionIndex, choicesMask := mask }, voter.Storable :=
        here.set index (here.cast inside (old index).username mask)
      have length (index : Nat) (voter : Voter) : ((host slot).voters.set index voter).length ≤ maxNamedVoters := by
        rw [length_set]
        exact here.few
      by_cases kind : (host slot).poll.allowMultiple
      · rw [if_pos kind]
        cases (host slot).voterIndex user.name.text with
        | some =>
          dsimp only
          split_ifs
          · refine update_storable storable (here.recast here.poll.unvote ?_ ?_)
            · exact length_eraseIdx_le .. |>.trans here.few
            · exact fun voter member => here.voters voter (mem_of_mem_eraseIdx member)
          · exact update_storable storable (here.recast here.poll.unvote (length _ _) (recast _ _))
          · exact update_storable storable (here.recast here.poll.vote (length _ _) (recast _ _))
        | none =>
          split_ifs with full
          · exact storable
          · exact update_storable storable (here.recast here.poll.vote (room _ full) (joined _))
      · rw [if_neg kind]
        cases (host slot).voterIndex user.name.text with
        | some =>
          dsimp only
          split_ifs
          · exact storable
          · exact update_storable storable (here.recast here.poll.unvote.vote (length _ _) (recast _ _))
          · exact update_storable storable (here.recast here.poll.vote (length _ _) (recast _ _))
        | none =>
          split_ifs with full
          · exact storable
          · exact update_storable storable (here.recast here.poll.vote (room _ full) (joined _))

/-- A slot that is taken for a label is cleared first. -/
theorem ensure_storable (storable : ∀ slot, (host slot).Storable) {ensured : NamedHost} {label : Bytes}
    (plain : 0 ∉ label) (made : host.ensure label = some (ensured, slot)) : ∀ slot, (ensured slot).Storable := by
  rw [NamedHost.ensure] at made
  split_ifs at made
  cases found : host.find label with
  | some =>
    rw [found] at made
    obtain ⟨rfl, rfl⟩ := Prod.mk.inj (Option.some.inj made)
    exact storable
  | none =>
    rw [found] at made
    obtain ⟨place, -, pair⟩ := Option.map_eq_some_iff.mp made
    obtain ⟨rfl, rfl⟩ := Prod.mk.inj pair
    have cleared := (storable place).reset
    exact update_storable storable ⟨cleared.poll, printed_printTo (by decide) plain, cleared.owner, cleared.few,
      cleared.voters⟩

theorem NamedPoll.Storable.close (storable : entry.Storable) :
    NamedPoll.Storable { entry with poll := { entry.poll with active := false } } :=
  ⟨storable.poll.close, storable.label, storable.owner, storable.few, storable.voters⟩

theorem sessionHandleVoteCommand_storable (storable : ∀ slot, (host slot).Storable) (user : SessionUser)
    (name : 0 ∉ user.name.text) {arguments : Bytes} (plain : 0 ∉ arguments) (allowMultiple : Bool) :
    ∀ slot, ((sessionHandleVoteCommand host user arguments allowMultiple).host slot).Storable := by
  rw [sessionHandleVoteCommand]
  cases tokens : blankToken (trimSpace (arguments.take (maxInputLen - 1))) with
  | none => exact storable
  | some pair =>
    obtain ⟨token, behind⟩ := pair
    have rest : 0 ∉ trimSpace behind := by
      intro zero
      exact plain (mem_of_mem_take (mem_of_mem_trimSpace (mem_of_mem_blankToken tokens (mem_of_mem_trimSpace zero))))
    dsimp only
    split_ifs with _ invalid
    · exact storable
    · exact storable
    · cases host.find (trimSpace token) with
      | none => exact storable
      | some => exact storable
    · rw [sessionNamedClose]
      cases host.find (trimSpace token) with
      | none => exact storable
      | some slot =>
        dsimp only
        split_ifs
        · exact storable
        · exact storable
        · exact update_storable storable (storable slot).close
    · cases parsed : parseFields (trimSpace behind) with
      | error => exact storable
      | ok fields =>
        obtain ⟨question, options⟩ := parseFields_plain rest parsed
        have label : 0 ∉ trimSpace token := valid_plain (Bool.eq_true_of_not_eq_false invalid)
        dsimp only
        rw [sessionNamedStart]
        cases made : host.ensure (trimSpace token) with
        | none => exact storable
        | some =>
          have kept := ensure_storable storable label made
          dsimp only
          split_ifs
          · exact kept
          · exact update_storable kept (.start _ allowMultiple label ⟨user.name.fits, name⟩ question fields.fits
              options)

theorem jsonApiHandleVoteRequest_storable (storable : ∀ slot, (host slot).Storable) {request : JsonRequest}
    (plain : request.Plain) : ∀ slot, ((jsonApiHandleVoteRequest host request).host slot).Storable := by
  have few : (request.options.map CBuffer.text).length ≤ maxOptions := by
    rw [length_map]
    exact request.fits
  rw [jsonApiHandleVoteRequest]
  split_ifs with _ unnamed invalid
  · exact storable
  · exact storable
  · exact storable
  · cases host.find request.label.text with
    | none => exact storable
    | some => exact storable
  · rw [jsonNamedClose]
    cases host.find request.label.text with
    | none => exact storable
    | some slot =>
      dsimp only
      split_ifs
      · exact storable
      · exact storable
      · exact update_storable storable (storable slot).close
  · have valid : pollLabelIsValid request.label.text = true := Bool.eq_true_of_not_eq_false invalid
    by_cases choice : request.choice = 0
    · rw [jsonNamedVote, if_pos choice]
      exact storable
    · have normal : trimSpace (request.label.text.take (pollLabelLen - 1)) = request.label.text := by
        have short : request.label.text.length ≤ pollLabelLen - 1 := Nat.le_sub_one_of_lt request.label.fits
        rw [take_of_length_le short, trimSpace_valid valid]
      obtain ⟨same, -⟩ := jsonNamedVote_eq host ⟨request.username, .zero, false, false⟩ request choice rfl unnamed
        (by rw [normal]; exact valid) (by rw [normal])
      rw [same]
      exact sessionHandleNamedVote_storable storable _ plain.username _ _
  · have label : 0 ∉ request.label.text := valid_plain (Bool.eq_true_of_not_eq_false invalid)
    rw [jsonNamedStart]
    split_ifs
    · exact storable
    · cases made : host.ensure request.label.text with
      | none => exact storable
      | some =>
        have kept := ensure_storable storable label made
        dsimp only
        split_ifs
        · exact kept
        · exact update_storable kept (.start _ request.allowMultiple label ⟨request.username.fits, plain.username⟩
            plain.question few (forall_mem_map.mpr plain.options))

def NamedCommand.Plain : NamedCommand → Prop
  | .sessionPoll user arguments _ => 0 ∉ user.name.text ∧ 0 ∉ arguments
  | .sessionVote user _ _ => 0 ∉ user.name.text
  | .jsonPoll request => request.Plain

theorem named_step_storable (storable : ∀ slot, (host slot).Storable) {command : NamedCommand} (plain : command.Plain) :
    ∀ slot, (host.step command slot).Storable := by
  cases command with
  | sessionPoll user arguments allowMultiple =>
    exact sessionHandleVoteCommand_storable storable user plain.1 plain.2 allowMultiple
  | sessionVote user optionIndex label => exact sessionHandleNamedVote_storable storable user plain optionIndex label
  | jsonPoll => exact jsonApiHandleVoteRequest_storable storable plain

end Named

section Runs

variable {host : VoteHost}

def VoteEvent.Plain : VoteEvent → Prop
  | .main command => command.Plain
  | .named command => command.Plain
  | .restart _ => True

theorem fresh_storable : VoteHost.fresh.Storable := ⟨.fresh, fun _ => .free⟩

theorem restart_storable (storable : host.Storable) (preferences : List Preference) :
    (host.step (.restart preferences)).Storable := by
  rw [VoteHost.step, loadVotes_saveVotes storable]
  refine ⟨storable.main, fun slot => ?_⟩
  change (restoredNamed host _ slot).Storable
  rw [restoredNamed]
  cases found : (labelled host.named)[slot.val]? with
  | none => exact NamedPoll.Storable.free.reset
  | some =>
    obtain ⟨place, -, rfl⟩ := mem_map.mp (mem_filter.mp (mem_of_getElem? found)).1
    exact storable.named place

theorem step_storable (storable : host.Storable) {event : VoteEvent} (plain : event.Plain) :
    (host.step event).Storable := by
  cases event with
  | main => exact ⟨main_step_storable storable.main plain, storable.named⟩
  | named => exact ⟨storable.main, named_step_storable storable.named plain⟩
  | restart preferences => exact restart_storable storable preferences

theorem run_storable {events : List VoteEvent} (plain : ∀ event ∈ events, event.Plain) :
    (run VoteHost.step .fresh events).Storable := by
  induction events using reverseRecOn with
  | nil => exact fresh_storable
  | append_singleton events event ih =>
    rw [run, foldl_append]
    apply step_storable
    · exact ih fun other inside => plain other (mem_append_left _ inside)
    · exact plain event (mem_append_right _ mem_cons_self)

/-- In every run a save and a load give the polls back, the named ones from the first slot on and with the active ones
counted, and a front part of the saved file leaves all polls reset. -/
theorem votes_restored (events : List VoteEvent) (plain : ∀ event ∈ events, event.Plain) (old : VoteHost) :
    let host := run VoteHost.step .fresh events
    let loaded := loadVotes (saveVotes host) old
    loaded.main.poll = host.main.poll ∧
      (∀ slot : Fin maxNamedPolls, loaded.named slot = ((labelled host.named)[slot.val]?).getD (old.named slot).reset) ∧
      loaded.namedPollCount = (labelled host.named).countP (fun entry => entry.poll.active) ∧
      ∀ file, file <+: saveVotes host → file ≠ saveVotes host → headerCodec.size ≤ file.length →
        (loadVotes file old).reset = loadVotes file old := by
  intro host loaded
  have whole : loaded = _ := loadVotes_saveVotes (run_storable plain) old
  refine ⟨?_, ?_, ?_, fun file front cut header => loadVotes_cut front cut header old⟩
  · rw [whole]
  · intro slot
    rw [whole]
    rfl
  · rw [whole]

def closedPoll : List VoteEvent :=
  [.named (.sessionPoll someUser (str "lunch Where?|here|there") true),
    .named (.sessionPoll someUser (str "lunch close") true)]

theorem closedPoll_plain : ∀ event ∈ closedPoll, event.Plain := by
  have first : 0 ∉ someUser.name.text ∧ 0 ∉ str "lunch Where?|here|there" := by decide +kernel
  have second : 0 ∉ someUser.name.text ∧ 0 ∉ str "lunch close" := by decide +kernel
  rw [closedPoll, forall_mem_cons, forall_mem_cons]
  exact ⟨first, second, fun _ inside => absurd inside not_mem_nil⟩

/-- The closed poll is restored with its label but not counted. -/
theorem closed_poll_not_counted :
    let loaded := loadVotes (saveVotes (run VoteHost.step .fresh closedPoll)) .fresh
    (labelled loaded.named).length = 1 ∧ loaded.namedPollCount = 0 := by
  intro loaded
  have whole : loaded = _ := loadVotes_saveVotes (run_storable closedPoll_plain) .fresh
  rw [whole]
  exact ⟨by decide +kernel, by decide +kernel⟩

def votedPoll : List VoteEvent :=
  [.named (.sessionPoll someUser (str "lunch Where?|here|there") true), .named (.sessionVote someUser 0 (str "lunch"))]

theorem votedPoll_plain : ∀ event ∈ votedPoll, event.Plain := by
  have first : 0 ∉ someUser.name.text ∧ 0 ∉ str "lunch Where?|here|there" := by decide +kernel
  rw [votedPoll, forall_mem_cons, forall_mem_cons]
  exact ⟨first, first.1, fun _ inside => absurd inside not_mem_nil⟩

def votedHost : VoteHost := run VoteHost.step .fresh votedPoll

/-- An open poll with a vote is restored and counted, and the header alone leaves all polls reset. -/
theorem voted_poll_restored :
    let loaded := loadVotes (saveVotes votedHost) .fresh
    let header := (saveVotes votedHost).take headerCodec.size
    loaded.main.poll = votedHost.main.poll ∧ (loaded.named ⟨0, by decide⟩).poll.votesOf 0 = 1 ∧
      loaded.namedPollCount = 1 ∧ (loadVotes header .fresh).reset = loadVotes header .fresh := by
  have restored := votes_restored votedPoll votedPoll_plain .fresh
  rw [← votedHost] at restored
  have longer : headerCodec.size < (saveVotes votedHost).length := by
    rw [saveVotes, length_append, length_append, headerCodec.whole, pollCodec.whole]
    exact Nat.lt_add_of_pos_right (Nat.add_pos_left (by decide) _)
  have length := length_take_of_le longer.le
  refine ⟨restored.1, ?_, ?_, restored.2.2.2 _ (List.take_prefix _ _) ?_ length.ge⟩
  · rw [restored.2.1 ⟨0, by decide⟩]
    decide +kernel
  · rw [restored.2.2.1]
    decide +kernel
  · intro same
    rw [same] at length
    exact absurd length longer.ne'

end Runs

end SshChatter.Polls
