import SshChatter.Polls.Poll

namespace SshChatter.Polls
open CString

def maxPreferences : Nat := 1024

/-- The fields of `user_preference_t` that a ballot of the main poll needs. -/
structure Preference where
  inUse : Bool
  username : Bytes
  ip : Bytes
  lastPollId : Nat
  lastPollChoice : BitVec 32
  deriving DecidableEq

/-- The choice `-1` stands for none. -/
def noChoice : BitVec 32 := BitVec.allOnes 32

def Preference.unused : Preference := ⟨false, [], [], 0, 0⟩

/-- The parts of `host_t` that the main poll uses. -/
structure MainHost where
  poll : PollState
  preferences : List Preference
  deriving DecidableEq

def MainHost.fresh : MainHost := ⟨.fresh, List.replicate maxPreferences .unused⟩

/-- A record of a user, whatever its address. -/
def Preference.isOf (username : Bytes) (preference : Preference) : Bool :=
  preference.inUse ∧ preference.username = username

/-- A record of a user with the address that is asked for, or with none when none is asked for. -/
def Preference.matchesIp (username ip : Bytes) (preference : Preference) : Bool :=
  preference.isOf username ∧ preference.ip = ip

/-- This is `host_find_preference_locked`. Another record of the user is taken when none has the address. -/
def findPreference (preferences : List Preference) (username ip : Bytes) : Option Nat :=
  if username = [] then none
  else (preferences.findIdx? (Preference.matchesIp username ip)).or (preferences.findIdx? (Preference.isOf username))

def Preference.new (username ip : Bytes) : Preference := ⟨true, username, ip, 0, noChoice⟩

/-- This is `host_ensure_preference_locked`. The result is the table and the place of the record. -/
def ensurePreference (preferences : List Preference) (username ip : Bytes) : Option (List Preference × Nat) :=
  if username = [] then none
  else
    let existing := findPreference preferences username ip
    let suits := existing.any fun index => ip = [] ∨ (preferences[index]?.map Preference.ip).getD [] ≠ []
    if suits then existing.map fun index => (preferences, index)
    else
      match preferences.findIdx? fun preference => preference.inUse = false with
      | some index => some (preferences.set index (.new username ip), index)
      | none => existing.map fun index => (preferences, index)

def Preference.forPoll (id : Nat) (preference : Preference) : Preference :=
  if preference.lastPollId ≠ id then { preference with lastPollId := id, lastPollChoice := noChoice } else preference

def Preference.mask (preference : Preference) : BitVec 32 :=
  if preference.lastPollChoice.msb then 0 else preference.lastPollChoice

def sessionHandlePoll (host : MainHost) (user : SessionUser) (arguments : Bytes) : SessionResult MainHost :=
  let working := trimSpace (arguments.take (maxInputLen - 1))
  if working = [] ∨ sameIgnoringCase working (str "list") ∨ sameIgnoringCase working (str "status") then
    ⟨host, true, .summary⟩
  else if isCloseWord working then
    if user.mayModerate = false then ⟨host, false, .line (str "Only operators may close global polls.")⟩
    else if host.poll.active = false then ⟨host, false, .line (str "No active poll to close.")⟩
    else ⟨{ host with poll := { host.poll with active := false } }, true, .line (str "Poll closed.")⟩
  else if user.mayModerate = false then ⟨host, false, .line (str "Only operators may start global polls.")⟩
  else
    match parseFields working with
    | .error text => ⟨host, false, .line text⟩
    | .ok fields => ⟨{ host with poll := host.poll.start fields.question fields.options false }, true, .summary⟩

def sessionHandleVote (host : MainHost) (user : SessionUser) (optionIndex : Nat) : SessionResult MainHost :=
  let poll := host.poll
  if poll.active = false ∨ poll.optionCount = 0 then ⟨host, false, .line (str "No active poll right now.")⟩
  else if poll.optionCount ≤ optionIndex then ⟨host, false, .line (str "That poll option does not exist.")⟩
  else
    match ensurePreference host.preferences user.name.text user.clientIp.text with
    | none => ⟨host, false, .line (str "Unable to record your vote.")⟩
    | some (preferences, index) =>
      let pref := (preferences.getD index .unused).forPoll poll.id
      if poll.allowMultiple then
        let bit := 1#32 <<< optionIndex
        if pref.mask &&& bit ≠ 0 then
          let mask := pref.mask &&& ~~~bit
          ⟨⟨poll.unvote optionIndex,
            preferences.set index { pref with lastPollChoice := if mask = 0 then noChoice else mask }⟩, true,
            .line (str "Removed your vote for option " ++ decimal (optionIndex + 1) ++ str ".")⟩
        else
          let mask := pref.mask ||| bit
          ⟨⟨poll.vote optionIndex,
            preferences.set index { pref with lastPollChoice := if mask = 0 then noChoice else mask }⟩, true,
            .line (str "Vote recorded for option " ++ decimal (optionIndex + 1) ++ str ".")⟩
      else
        let previous := pref.lastPollChoice
        if previous = BitVec.ofNat 32 optionIndex then
          ⟨⟨poll, preferences.set index pref⟩, false, .line (str "You have already voted for that option.")⟩
        else
          let moved :=
            if previous.msb = false ∧ previous.toNat < poll.optionCount then poll.unvote previous.toNat else poll
          ⟨⟨moved.vote optionIndex,
            preferences.set index { pref with lastPollChoice := BitVec.ofNat 32 optionIndex }⟩, true,
            .line (str "Vote recorded for option " ++ decimal (optionIndex + 1) ++ str ".")⟩

/-- The vote of `json_api_handle_poll_request`. -/
def jsonPollVote (host : MainHost) (peerIp : CBuffer 64) (request : JsonRequest) : JsonResult MainHost :=
  if request.choice = 0 then ⟨host, false, str "Choice must be >= 1."⟩
  else
    let poll := host.poll
    if poll.active = false ∨ poll.optionCount = 0 then ⟨host, false, str "No active poll right now."⟩
    else
      let optionIndex := request.choice - 1
      if poll.optionCount ≤ optionIndex then ⟨host, false, str "That poll option does not exist."⟩
      else
        match ensurePreference host.preferences request.username.text peerIp.text with
        | none => ⟨host, false, str "Unable to record your vote."⟩
        | some (preferences, index) =>
          let pref := (preferences.getD index .unused).forPoll poll.id
          if poll.allowMultiple then
            let bit := 1#32 <<< optionIndex
            if pref.mask &&& bit ≠ 0 then
              let mask := pref.mask &&& ~~~bit
              ⟨⟨poll.unvote optionIndex,
                preferences.set index { pref with lastPollChoice := if mask = 0 then noChoice else mask }⟩, true,
                str "Removed your vote for option " ++ decimal (optionIndex + 1) ++ str "."⟩
            else
              let mask := pref.mask ||| bit
              ⟨⟨poll.vote optionIndex,
                preferences.set index { pref with lastPollChoice := if mask = 0 then noChoice else mask }⟩, true,
                str "Vote recorded for option " ++ decimal (optionIndex + 1) ++ str "."⟩
          else
            let previous := pref.lastPollChoice
            if previous = BitVec.ofNat 32 optionIndex then
              ⟨⟨poll, preferences.set index pref⟩, false, str "You have already voted for that option."⟩
            else
              let moved :=
                if previous.msb = false ∧ previous.toNat < poll.optionCount then poll.unvote previous.toNat else poll
              ⟨⟨moved.vote optionIndex,
                preferences.set index { pref with lastPollChoice := BitVec.ofNat 32 optionIndex }⟩, true,
                str "Vote recorded for option " ++ decimal (optionIndex + 1) ++ str "."⟩

def jsonApiHandlePollRequest (host : MainHost) (peerIp : CBuffer 64) (request : JsonRequest) : JsonResult MainHost :=
  if request.action = [] ∨ request.action = str "status" ∨ request.action = str "list" then
    ⟨host, true, str "poll summary"⟩
  else if isCloseAction request.action then
    if request.isOperator = false then ⟨host, false, str "Only operators may close polls."⟩
    else if host.poll.active = false then ⟨host, false, str "No active poll to close."⟩
    else ⟨{ host with poll := { host.poll with active := false } }, true, str "poll closed"⟩
  else if request.action = str "vote" ∨ request.hasChoice then jsonPollVote host peerIp request
  else if request.isOperator = false then ⟨host, false, str "Only operators may start global polls."⟩
  else if request.question.text = [] ∨ request.options.length < 2 then
    ⟨host, false, str "Provide a question and at least two options."⟩
  else
    ⟨{ host with poll := host.poll.start request.question.text (request.options.map CBuffer.text) false }, true,
      str "poll started"⟩

inductive MainCommand where
  | sessionPoll (user : SessionUser) (arguments : Bytes)
  | sessionVote (user : SessionUser) (optionIndex : Nat)
  | jsonPoll (peerIp : CBuffer 64) (request : JsonRequest)

def MainHost.apply (host : MainHost) : MainCommand → MainHost × Bool
  | .sessionPoll user arguments =>
    ((sessionHandlePoll host user arguments).host, (sessionHandlePoll host user arguments).accepted)
  | .sessionVote user optionIndex =>
    ((sessionHandleVote host user optionIndex).host, (sessionHandleVote host user optionIndex).accepted)
  | .jsonPoll peerIp request =>
    ((jsonApiHandlePollRequest host peerIp request).host, (jsonApiHandlePollRequest host peerIp request).accepted)

def MainHost.step (host : MainHost) (command : MainCommand) : MainHost := (host.apply command).1

def MainHost.starts (host : MainHost) (command : MainCommand) : Prop := (host.step command).poll.id ≠ host.poll.id

instance mainStarts_decidable (host : MainHost) : DecidablePred host.starts :=
  fun command => inferInstanceAs (Decidable ((host.step command).poll.id ≠ host.poll.id))

end SshChatter.Polls
