import SshChatter.Polls.Poll

namespace SshChatter.Polls
open CString Function

def maxNamedPolls : Nat := 16
def maxNamedVoters : Nat := 256

/-- This is an element of `voters` in `named_poll_state_t`. -/
structure Voter where
  username : Bytes
  choice : Int
  choicesMask : BitVec 32
  deriving DecidableEq

/-- A cleared element. -/
def Voter.blank : Voter := ⟨[], -1, 0⟩

/-- This is `named_poll_state_t`. The voters are those below `voter_count`. -/
structure NamedPoll where
  poll : PollState
  label : Bytes
  owner : Bytes
  voters : List Voter
  deriving DecidableEq

def NamedPoll.free : NamedPoll := ⟨.fresh, [], [], []⟩

def NamedPoll.reset (entry : NamedPoll) : NamedPoll := ⟨entry.poll.reset, [], [], []⟩

def NamedPoll.start (entry : NamedPoll) (label owner question : Bytes) (options : List Bytes) (allowMultiple : Bool) :
    NamedPoll where
  poll := entry.poll.start question options allowMultiple
  label := label.take (pollLabelLen - 1)
  owner := owner
  voters := []

def NamedPoll.voterIndex (entry : NamedPoll) (username : Bytes) : Option Nat :=
  entry.voters.findIdx? fun voter => sameIgnoringCase voter.username username

/-- The slots `named_polls` of `host_t`. -/
abbrev NamedHost := Fin maxNamedPolls → NamedPoll

def NamedHost.fresh : NamedHost := fun _ => .free

def NamedHost.find (host : NamedHost) (label : Bytes) : Option (Fin maxNamedPolls) :=
  if label = [] then none
  else (List.finRange maxNamedPolls).find? fun slot => (host slot).label ≠ [] ∧ sameIgnoringCase (host slot).label label

def NamedHost.ensure (host : NamedHost) (label : Bytes) : Option (NamedHost × Fin maxNamedPolls) :=
  if label = [] then none
  else
    match host.find label with
    | some slot => some (host, slot)
    | none =>
      ((List.finRange maxNamedPolls).find? fun slot => (host slot).label = []).map fun slot =>
        (update host slot { (host slot).reset with label := label.take (pollLabelLen - 1) }, slot)

def labelText : Bytes := str "Poll labels may only contain letters, numbers, '-' or '_'."

def ownerText : Bytes := str "Only the poll owner or an operator may close this poll."

def startText : Bytes :=
  str "Unable to start that poll. Another active poll owns the label or the poll limit has been reached."

def limitText : Bytes := str "That poll has reached its voter limit."

def removedText (optionIndex : Nat) : Bytes := str "Removed your vote for option " ++ decimal (optionIndex + 1) ++
    str "."

def recordedText (optionIndex : Nat) : Bytes := str "Vote recorded for option " ++ decimal (optionIndex + 1) ++ str "."

/-- This is `session_handle_named_vote`. An empty label is not answered. -/
def sessionHandleNamedVote (host : NamedHost) (user : SessionUser) (optionIndex : Nat) (label : Bytes) :
    SessionResult NamedHost :=
  if label = [] then ⟨host, false, .line []⟩
  else
    let normalizedLabel := trimSpace (label.take (pollLabelLen - 1))
    if pollLabelIsValid normalizedLabel = false then ⟨host, false, .line labelText⟩
    else
      match host.find normalizedLabel with
      | none => ⟨host, false, .line (str "That poll is not active.")⟩
      | some slot =>
        let entry := host slot
        let poll := entry.poll
        let voters := entry.voters
        if poll.active = false ∨ poll.optionCount = 0 then ⟨host, false, .line (str "That poll is not active.")⟩
        else if poll.optionCount ≤ optionIndex then ⟨host, false, .line (str "That poll option does not exist.")⟩
        else if poll.allowMultiple then
          let bit := 1#32 <<< optionIndex
          match entry.voterIndex user.name.text with
          | some index =>
            let voter := voters.getD index .blank
            if voter.choicesMask &&& bit ≠ 0 then
              let mask := voter.choicesMask &&& ~~~bit
              let kept :=
                if mask = 0 then voters.eraseIdx index
                else voters.set index { voter with choicesMask := mask, choice := optionIndex }
              ⟨update host slot { entry with poll := poll.unvote optionIndex, voters := kept }, true,
                .line (removedText optionIndex)⟩
            else
              let mask := voter.choicesMask ||| bit
              ⟨update host slot { entry with
                poll := poll.vote optionIndex,
                voters := voters.set index { voter with choicesMask := mask, choice := optionIndex } }, true,
                .line (recordedText optionIndex)⟩
          | none =>
            if maxNamedVoters ≤ voters.length then ⟨host, false, .line limitText⟩
            else
              ⟨update host slot { entry with
                poll := poll.vote optionIndex, voters := voters ++ [⟨user.name.text, optionIndex, bit⟩] }, true,
                .line (recordedText optionIndex)⟩
        else
          match entry.voterIndex user.name.text with
          | some index =>
            let voter := voters.getD index .blank
            let previous := voter.choice
            if previous = optionIndex then ⟨host, false, .line (str "You have already voted for that option.")⟩
            else
              let moved :=
                if 0 ≤ previous ∧ previous < poll.optionCount then poll.unvote previous.toNat else poll
              ⟨update host slot { entry with
                poll := moved.vote optionIndex,
                voters := voters.set index { voter with choice := optionIndex, choicesMask := 0 } }, true,
                .line (recordedText optionIndex)⟩
          | none =>
            if maxNamedVoters ≤ voters.length then ⟨host, false, .line limitText⟩
            else
              ⟨update host slot { entry with
                poll := poll.vote optionIndex, voters := voters ++ [⟨user.name.text, optionIndex, 0⟩] }, true,
                .line (recordedText optionIndex)⟩

/-- The part of `session_handle_vote_command` that closes a poll. -/
def sessionNamedClose (host : NamedHost) (user : SessionUser) (label : Bytes) : SessionResult NamedHost :=
  match host.find label with
  | none => ⟨host, false, .line (str "No poll found for label '" ++ label ++ str "'.")⟩
  | some slot =>
    let entry := host slot
    if (user.mayModerate || sameIgnoringCase entry.owner user.name.text) = false then ⟨host, false, .line ownerText⟩
    else if entry.poll.active = false then ⟨host, false, .line (str "That poll is not active.")⟩
    else
      ⟨update host slot { entry with poll := { entry.poll with active := false } }, true,
        .line (str "Poll closed.")⟩

/-- The part of `session_handle_vote_command` that starts a poll. -/
def sessionNamedStart (host : NamedHost) (user : SessionUser) (label : Bytes) (fields : PollText)
    (allowMultiple : Bool) : SessionResult NamedHost :=
  match host.ensure label with
  | none => ⟨host, false, .line startText⟩
  | some (ensured, slot) =>
    let entry := ensured slot
    if entry.poll.active ∧ (user.mayModerate || sameIgnoringCase entry.owner user.name.text) = false then
      ⟨ensured, false, .line startText⟩
    else
      ⟨update ensured slot
        (entry.start label user.name.text fields.question fields.options allowMultiple), true, .summary⟩

def sessionHandleVoteCommand (host : NamedHost) (user : SessionUser) (arguments : Bytes) (allowMultiple : Bool) :
    SessionResult NamedHost :=
  match blankToken (trimSpace (arguments.take (maxInputLen - 1))) with
  | none => ⟨host, true, .summary⟩
  | some (token, behind) =>
    let label := trimSpace token
    let remainder := trimSpace behind
    if sameIgnoringCase token (str "list") then ⟨host, true, .summary⟩
    else if pollLabelIsValid label = false then ⟨host, false, .line labelText⟩
    else if remainder = [] then
      match host.find label with
      | none => ⟨host, false, .line (str "No poll found for label '" ++ label ++ str "'.")⟩
      | some _ => ⟨host, true, .summary⟩
    else if isCloseWord remainder then sessionNamedClose host user label
    else
      match parseFields remainder with
      | .error text => ⟨host, false, .line text⟩
      | .ok fields => sessionNamedStart host user label fields allowMultiple

/-- The part of `json_api_handle_vote_request` that closes a poll. -/
def jsonNamedClose (host : NamedHost) (request : JsonRequest) : JsonResult NamedHost :=
  match host.find request.label.text with
  | none => ⟨host, false, str "No poll found for that label."⟩
  | some slot =>
    let entry := host slot
    if (request.isOperator || sameIgnoringCase entry.owner request.username.text) = false then
      ⟨host, false, ownerText⟩
    else if entry.poll.active = false then ⟨host, false, str "That poll is not active."⟩
    else
      ⟨update host slot { entry with poll := { entry.poll with active := false } }, true, str "poll closed"⟩

/-- The part of `json_api_handle_vote_request` that votes. -/
def jsonNamedVote (host : NamedHost) (request : JsonRequest) : JsonResult NamedHost :=
  if request.choice = 0 then ⟨host, false, str "Choice must be >= 1."⟩
  else
    match host.find request.label.text with
    | none => ⟨host, false, str "That poll is not active."⟩
    | some slot =>
      let entry := host slot
      let poll := entry.poll
      let voters := entry.voters
      let optionIndex := request.choice - 1
      if poll.active = false ∨ poll.optionCount = 0 then ⟨host, false, str "That poll is not active."⟩
      else if poll.optionCount ≤ optionIndex then ⟨host, false, str "That poll option does not exist."⟩
      else if poll.allowMultiple then
        let bit := 1#32 <<< optionIndex
        match entry.voterIndex request.username.text with
        | some index =>
          let voter := voters.getD index .blank
          if voter.choicesMask &&& bit ≠ 0 then
            let mask := voter.choicesMask &&& ~~~bit
            let kept :=
              if mask = 0 then voters.eraseIdx index
              else voters.set index { voter with choicesMask := mask, choice := optionIndex }
            ⟨update host slot { entry with poll := poll.unvote optionIndex, voters := kept }, true,
              removedText optionIndex⟩
          else
            let mask := voter.choicesMask ||| bit
            ⟨update host slot { entry with
              poll := poll.vote optionIndex,
              voters := voters.set index { voter with choicesMask := mask, choice := optionIndex } }, true,
              recordedText optionIndex⟩
        | none =>
          if maxNamedVoters ≤ voters.length then ⟨host, false, limitText⟩
          else
            ⟨update host slot { entry with
              poll := poll.vote optionIndex, voters := voters ++ [⟨request.username.text, optionIndex, bit⟩] },
              true, recordedText optionIndex⟩
      else
        match entry.voterIndex request.username.text with
        | some index =>
          let voter := voters.getD index .blank
          let previous := voter.choice
          if previous = optionIndex then ⟨host, false, str "You have already voted for that option."⟩
          else
            let moved :=
              if 0 ≤ previous ∧ previous < poll.optionCount then poll.unvote previous.toNat else poll
            ⟨update host slot { entry with
              poll := moved.vote optionIndex,
              voters := voters.set index { voter with choice := optionIndex, choicesMask := 0 } }, true,
              recordedText optionIndex⟩
        | none =>
          if maxNamedVoters ≤ voters.length then ⟨host, false, limitText⟩
          else
            ⟨update host slot { entry with
              poll := poll.vote optionIndex, voters := voters ++ [⟨request.username.text, optionIndex, 0⟩] },
              true, recordedText optionIndex⟩

/-- The part of `json_api_handle_vote_request` that starts a poll. -/
def jsonNamedStart (host : NamedHost) (request : JsonRequest) : JsonResult NamedHost :=
  if request.question.text = [] ∨ request.options.length < 2 then
    ⟨host, false, str "Provide a question and at least two options."⟩
  else
    match host.ensure request.label.text with
    | none => ⟨host, false, startText⟩
    | some (ensured, slot) =>
      let entry := ensured slot
      if entry.poll.active ∧ (request.isOperator || sameIgnoringCase entry.owner request.username.text) = false then
        ⟨ensured, false, startText⟩
      else
        ⟨update ensured slot (entry.start request.label.text request.username.text request.question.text
          (request.options.map CBuffer.text) request.allowMultiple), true, str "poll started"⟩

def jsonApiHandleVoteRequest (host : NamedHost) (request : JsonRequest) : JsonResult NamedHost :=
  if request.action = [] ∨ request.action = str "list" then ⟨host, true, str "poll list"⟩
  else if request.label.text = [] then ⟨host, false, str "Poll label is required."⟩
  else if pollLabelIsValid request.label.text = false then ⟨host, false, labelText⟩
  else if request.action = str "status" then
    match host.find request.label.text with
    | none => ⟨host, false, str "No poll found for that label."⟩
    | some _ => ⟨host, true, str "poll summary"⟩
  else if isCloseAction request.action then jsonNamedClose host request
  else if request.action = str "vote" ∨ request.hasChoice then jsonNamedVote host request
  else jsonNamedStart host request

inductive NamedCommand where
  | sessionPoll (user : SessionUser) (arguments : Bytes) (allowMultiple : Bool)
  | sessionVote (user : SessionUser) (optionIndex : Nat) (label : Bytes)
  | jsonPoll (request : JsonRequest)

def NamedHost.apply (host : NamedHost) : NamedCommand → NamedHost × Bool
  | .sessionPoll user arguments allowMultiple =>
    ((sessionHandleVoteCommand host user arguments allowMultiple).host,
      (sessionHandleVoteCommand host user arguments allowMultiple).accepted)
  | .sessionVote user optionIndex label =>
    ((sessionHandleNamedVote host user optionIndex label).host,
      (sessionHandleNamedVote host user optionIndex label).accepted)
  | .jsonPoll request =>
    ((jsonApiHandleVoteRequest host request).host, (jsonApiHandleVoteRequest host request).accepted)

def NamedHost.step (host : NamedHost) (command : NamedCommand) : NamedHost := (host.apply command).1

end SshChatter.Polls
