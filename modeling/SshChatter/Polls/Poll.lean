import SshChatter.Lib.CString
import SshChatter.Lib.Segments

namespace SshChatter.Polls
open CString

section State

def messageLimit : Nat := 4096
def maxInputLen : Nat := 1024
def usernameLen : Nat := 256
def pollLabelLen : Nat := 32
def maxOptions : Nat := 5

structure PollOption where
  text : Bytes
  votes : Nat
  deriving DecidableEq

/-- This is `poll_state_t`. The options are those below `option_count`. -/
structure PollState where
  active : Bool
  id : Nat
  question : Bytes
  options : List PollOption
  allowMultiple : Bool
  deriving DecidableEq

def PollState.fresh : PollState := ⟨false, 0, [], [], false⟩

def PollState.optionCount (poll : PollState) : Nat := poll.options.length

def PollState.reset (poll : PollState) : PollState := ⟨false, poll.id, [], [], false⟩

def PollState.votesOf (poll : PollState) (option : Nat) : Nat := (poll.options[option]?.map PollOption.votes).getD 0

/-- The counter of an option goes up by one, as a `uint32_t`. -/
def PollState.vote (poll : PollState) (option : Nat) : PollState :=
  { poll with options := poll.options.modify option fun entry => { entry with votes := (entry.votes + 1) % 2 ^ 32 } }

/-- The counter of an option goes down by one unless it is zero. -/
def PollState.unvote (poll : PollState) (option : Nat) : PollState :=
  { poll with
    options := poll.options.modify option fun entry =>
      if 0 < entry.votes then { entry with votes := entry.votes - 1 } else entry }

def PollState.nextId (poll : PollState) : Nat := if (poll.id + 1) % 2 ^ 64 = 0 then 1 else (poll.id + 1) % 2 ^ 64

def PollState.start (poll : PollState) (question : Bytes) (options : List Bytes) (allowMultiple : Bool) :
    PollState where
  active := true
  id := poll.nextId
  question := question.take (messageLimit - 1)
  options := options.map fun text => ⟨text.take (messageLimit - 1), 0⟩
  allowMultiple := allowMultiple

variable (poll : PollState) (option other : Nat)

theorem vote_optionCount : (poll.vote option).optionCount = poll.optionCount := List.length_modify ..

theorem unvote_optionCount : (poll.unvote option).optionCount = poll.optionCount := List.length_modify ..

theorem vote_votesOf (inside : option < poll.optionCount) (room : poll.votesOf option + 1 < 2 ^ 32) :
    (poll.vote option).votesOf other = poll.votesOf other + (if option = other then 1 else 0) := by
  rw [PollState.votesOf, PollState.vote, List.getElem?_modify]
  by_cases same : option = other
  · subst same
    have found : poll.options[option]? = some poll.options[option] := List.getElem?_eq_getElem inside
    rw [PollState.votesOf, found] at room ⊢
    simp only [Option.map_some] at room ⊢
    exact Nat.mod_eq_of_lt room
  · simp [same, PollState.votesOf]

/-- A vote that was counted is taken back. -/
theorem unvote_votesOf (positive : 0 < poll.votesOf option) :
    (poll.unvote option).votesOf other + (if option = other then 1 else 0) = poll.votesOf other := by
  rw [PollState.votesOf, PollState.unvote, List.getElem?_modify]
  by_cases same : option = other
  · subst same
    rw [PollState.votesOf] at positive ⊢
    cases found : poll.options[option]? with
    | none => simp [found] at positive
    | some entry =>
      have counted : 0 < entry.votes := by simpa [found] using positive
      simp [counted, Nat.sub_add_cancel counted]
  · simp [same, PollState.votesOf]

theorem start_votesOf (question : Bytes) (options : List Bytes) (allowMultiple : Bool) :
    (poll.start question options allowMultiple).votesOf other = 0 := by
  rw [PollState.votesOf, PollState.start, List.getElem?_map]
  cases options[other]? <;> rfl

theorem nextId_eq (room : poll.id + 1 < 2 ^ 64) : poll.nextId = poll.id + 1 := by
  rw [PollState.nextId, Nat.mod_eq_of_lt room, if_neg (Nat.succ_ne_zero _)]

end State

inductive SessionReply where
  | line (text : Bytes)
  | summary
  deriving DecidableEq

structure SessionResult (Host : Type) where
  host : Host
  accepted : Bool
  reply : SessionReply

/-- What `json_api_send_response` is told. -/
structure JsonResult (Host : Type) where
  host : Host
  accepted : Bool
  message : Bytes

structure SessionUser where
  name : CBuffer 256
  clientIp : CBuffer 64
  isOperator : Bool
  isLanOperator : Bool

/-- Global and foreign polls are left to operators. -/
def SessionUser.mayModerate (user : SessionUser) : Bool := user.isOperator || user.isLanOperator

/-- The fields of `json_api_request_t` that the poll handlers read. -/
structure JsonRequest where
  username : CBuffer 256
  action : Bytes
  label : CBuffer 32
  question : CBuffer 4096
  options : List (CBuffer 4096)
  choice : Nat
  hasChoice : Bool
  allowMultiple : Bool
  isOperator : Bool
  fits : options.length ≤ maxOptions

/-- This is `strcasecmp` in the C locale. -/
def sameIgnoringCase (first second : Bytes) : Bool := first.map toLower = second.map toLower

def isCloseWord (word : Bytes) : Bool :=
  sameIgnoringCase word (str "close") || sameIgnoringCase word (str "end") || sameIgnoringCase word (str "stop") ||
    sameIgnoringCase word (str "off")

def isCloseAction (action : Bytes) : Bool := action = str "close" ∨ action = str "end" ∨ action = str "stop"

structure PollText where
  question : Bytes
  options : List Bytes
  enough : 2 ≤ options.length
  fits : options.length ≤ maxOptions

/-- The loop over the options of `session_poll_parse_fields`. -/
def parseOptions : List Bytes → List Bytes → Except Bytes (List Bytes)
  | options, [] => .ok options
  | options, token :: tokens =>
    if maxOptions ≤ options.length then .error (str "You may only provide up to 5 options.")
    else if trimSpace token = [] then .error (str "Poll options may not be empty.")
    else parseOptions (options ++ [(trimSpace token).take (messageLimit - 1)]) tokens

theorem parseOptions_fits {options tokens read : List Bytes} (short : options.length ≤ maxOptions)
    (parsed : parseOptions options tokens = .ok read) : read.length ≤ maxOptions := by
  induction tokens generalizing options with
  | nil =>
    obtain rfl : options = read := Except.ok.inj parsed
    exact short
  | cons token tokens ih =>
    rw [parseOptions] at parsed
    split_ifs at parsed with full empty
    exact ih (by rw [List.length_append, List.length_singleton]; omega) parsed

/-- This is `session_poll_parse_fields`. The tokens of `strtok_r` are the parts that are not empty. -/
def parseFields (input : Bytes) : Except Bytes PollText :=
  match Segments.segments (byte '|') (input.take (maxInputLen - 1)) with
  | [] => .error (str "Provide a question and at least two options separated by '|'.")
  | token :: tokens =>
    if trimSpace token = [] then .error (str "Provide a question and at least two options separated by '|'.")
    else
      match parsed : parseOptions [] tokens with
      | .error text => .error text
      | .ok options =>
        if enough : 2 ≤ options.length then
          .ok ⟨(trimSpace token).take (messageLimit - 1), options, enough,
            parseOptions_fits (Nat.zero_le _) parsed⟩
        else .error (str "Provide at least two options separated by '|'.")

/-- This is `strtok_r` with blanks and tabs as delimiters: the first token, if there is one, and the text behind it. -/
def blankToken (text : Bytes) : Option (Bytes × Bytes) :=
  match text.dropWhile fun c => c = 32 ∨ c = 9 with
  | [] => none
  | c :: rest =>
    some ((c :: rest).takeWhile fun c => ¬ (c = 32 ∨ c = 9),
      ((c :: rest).dropWhile fun c => ¬ (c = 32 ∨ c = 9)).drop 1)

def pollLabelIsValid (label : Bytes) : Bool :=
  label ≠ [] ∧ label.all fun c => isDigit c ∨ (65 ≤ c ∧ c ≤ 90) ∨ (97 ≤ c ∧ c ≤ 122) ∨ c = byte '_' ∨ c = byte '-'

end SshChatter.Polls
