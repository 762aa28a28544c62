import SshChatter.Polls.MainPoll
import SshChatter.Lib.BitMask
import SshChatter.Lib.EventRun
import SshChatter.Lib.Tally

namespace SshChatter.Polls
open CString BitMask Tally List

section Records

def chose (poll : PollState) (option : Nat) (preference : Preference) : Bool :=
  preference.inUse ∧ preference.lastPollId = poll.id ∧
    if poll.allowMultiple then preference.mask.getLsbD option = true
    else preference.lastPollChoice = BitVec.ofNat 32 option

variable {preferences preferences' : List Preference} {username ip : Bytes} {index : Nat}

theorem findPreference_inUse (found : findPreference preferences username ip = some index) :
    ∃ old, preferences[index]? = some old ∧ old.inUse := by
  rw [findPreference] at found
  split_ifs at found
  have user : ∀ preference : Preference, preference.isOf username → preference.inUse := by
    intro preference of
    simp only [Preference.isOf, decide_eq_true_eq] at of
    exact of.1
  rcases Option.or_eq_some_iff.mp found with exact' | ⟨-, other⟩
  · obtain ⟨inside, hit, -⟩ := findIdx?_eq_some_iff_getElem.mp exact'
    simp only [Preference.matchesIp, decide_eq_true_eq] at hit
    exact ⟨_, getElem?_eq_getElem inside, user _ hit.1⟩
  · obtain ⟨inside, hit, -⟩ := findIdx?_eq_some_iff_getElem.mp other
    exact ⟨_, getElem?_eq_getElem inside, user _ hit⟩

/-- A record that was found stays where it is. -/
theorem existing_inUse (found : (findPreference preferences username ip).map (fun index => (preferences, index)) =
    some (preferences', index)) :
    ∃ old, preferences[index]? = some old ∧ old.inUse ∧ preferences' = preferences := by
  obtain ⟨place, here, pair⟩ := Option.map_eq_some_iff.mp found
  obtain ⟨rfl, rfl⟩ := Prod.mk.inj pair
  obtain ⟨old, stands, used⟩ := findPreference_inUse here
  exact ⟨old, stands, used, rfl⟩

/-- The record of a user is one that is in use, or a new one in the place of an unused one. -/
theorem ensurePreference_cases (ensured : ensurePreference preferences username ip = some (preferences', index)) :
    ∃ old, preferences[index]? = some old ∧
      (old.inUse ∧ preferences' = preferences ∨
        old.inUse = false ∧ preferences' = preferences.set index (.new username ip)) := by
  rw [ensurePreference] at ensured
  dsimp only at ensured
  split_ifs at ensured with empty suits
  · obtain ⟨old, stands, used⟩ := existing_inUse ensured
    exact ⟨old, stands, .inl used⟩
  · cases free : preferences.findIdx? fun preference => preference.inUse = false with
    | none =>
      simp only [free] at ensured
      obtain ⟨old, stands, used⟩ := existing_inUse ensured
      exact ⟨old, stands, .inl used⟩
    | some =>
      simp only [free] at ensured
      obtain ⟨rfl, rfl⟩ := ensured
      obtain ⟨inside, hit, -⟩ := findIdx?_eq_some_iff_getElem.mp free
      exact ⟨_, getElem?_eq_getElem inside, .inr ⟨by simpa using hit, rfl⟩⟩

/-- The record that a vote changes, and the one that stood in its place before. -/
structure Ballot (poll : PollState) (preferences preferences' : List Preference) (index : Nat)
    (old pref : Preference) : Prop where
  place : preferences[index]? = some old
  inUse : pref.inUse
  current : pref.lastPollId = poll.id
  same : ∀ option < maxOptions, chose poll option old = chose poll option pref
  stored : ∀ preference, preferences'.set index preference = preferences.set index preference
  kept : pref.lastPollChoice ≠ noChoice → preferences' = preferences ∧ pref = old

theorem noChoice_ne {option : Nat} (small : option < maxOptions) : BitVec.ofNat 32 option ≠ noChoice := by
  rw [maxOptions] at small
  interval_cases option <;> decide

theorem chose_none (poll : PollState) {preference : Preference} (none' : preference.lastPollChoice = noChoice)
    {option : Nat} (small : option < maxOptions) : chose poll option preference = false := by
  have mask : preference.mask = 0 := by rw [Preference.mask, none', if_pos (by decide)]
  have other : noChoice ≠ BitVec.ofNat 32 option := (noChoice_ne small).symm
  simp [chose, mask, none', other]

/-- A vote works on the record of its user, less the ballot of another poll. -/
theorem ensurePreference_ballot (poll : PollState)
    (ensured : ensurePreference preferences username ip = some (preferences', index)) :
    ∃ old, Ballot poll preferences preferences' index old ((preferences'.getD index .unused).forPoll poll.id) := by
  obtain ⟨old, here, either⟩ := ensurePreference_cases ensured
  refine ⟨old, ?_⟩
  have inside : index < preferences.length := (List.getElem?_eq_some_iff.mp here).1
  rcases either with ⟨used, rfl⟩ | ⟨unused, rfl⟩
  · have record : preferences'.getD index .unused = old := by rw [getD_eq_getElem?_getD, here]; rfl
    rw [record]
    by_cases now : old.lastPollId = poll.id
    · have same : old.forPoll poll.id = old := by rw [Preference.forPoll, if_neg (not_not.mpr now)]
      rw [same]
      exact ⟨here, used, now, fun _ _ => rfl, fun _ => rfl, fun _ => ⟨rfl, rfl⟩⟩
    · have blank : old.forPoll poll.id = { old with lastPollId := poll.id, lastPollChoice := noChoice } := by
        rw [Preference.forPoll, if_pos now]
      rw [blank]
      constructor
      case place => exact here
      case inUse => exact used
      case current => rfl
      case same =>
        intro option small
        have before : chose poll option old = false := by simp [chose, now]
        rw [before]
        exact (chose_none poll (show { old with lastPollId := poll.id, lastPollChoice := noChoice }.lastPollChoice =
          noChoice from rfl) small).symm
      case stored => exact fun _ => rfl
      case kept => exact fun choice => absurd rfl choice
  · have record : (preferences.set index (.new username ip)).getD index .unused = .new username ip := by
      rw [getD_eq_getElem?_getD, getElem?_set_self inside]
      rfl
    have none' : ((Preference.new username ip).forPoll poll.id).lastPollChoice = noChoice := by
      rw [Preference.forPoll]
      split_ifs <;> rfl
    rw [record]
    constructor
    case place => exact here
    case inUse =>
      rw [Preference.forPoll]
      split_ifs <;> rfl
    case current =>
      rw [Preference.forPoll]
      split_ifs with other
      · rfl
      · exact not_not.mp other
    case same =>
      intro option small
      have before : chose poll option old = false := by simp [chose, unused]
      rw [before, chose_none poll none' small]
    case stored => exact fun preference => set_set ..
    case kept => exact fun choice => absurd none' choice

end Records

section Votes

structure MainSound (host : MainHost) : Prop where
  counted : Counted (chose host.poll) host.poll.optionCount host.poll.votesOf host.preferences
  options : host.poll.optionCount ≤ maxOptions
  table : host.preferences.length = maxPreferences
  older : ∀ preference ∈ host.preferences, preference.lastPollId ≤ host.poll.id

variable {host : MainHost} {preferences' : List Preference} {index option : Nat} {old pref : Preference}

/-- A ballot that is changed together with the tallies keeps them equal. -/
theorem MainSound.recast (sound : MainSound host)
    (ballot : Ballot host.poll host.preferences preferences' index old pref) (poll : PollState)
    (id : poll.id = host.poll.id) (kind : poll.allowMultiple = host.poll.allowMultiple)
    (count : poll.optionCount = host.poll.optionCount) (choice : BitVec 32)
    (moved : ∀ option < host.poll.optionCount,
      poll.votesOf option + (if chose host.poll option pref then 1 else 0) =
        host.poll.votesOf option + (if chose host.poll option { pref with lastPollChoice := choice } then 1 else 0)) :
    MainSound ⟨poll, preferences'.set index { pref with lastPollChoice := choice }⟩ := by
  have sameChose : chose poll = chose host.poll := by
    funext option preference
    rw [chose, chose, id, kind]
  rw [ballot.stored]
  constructor
  case counted =>
    rw [sameChose, count]
    apply sound.counted.set ballot.place
    intro option inside
    rw [ballot.same option (lt_of_lt_of_le inside sound.options)]
    exact moved option inside
  case options =>
    rw [count]
    exact sound.options
  case table =>
    rw [length_set]
    exact sound.table
  case older =>
    intro preference inside
    rw [id]
    rcases mem_or_eq_of_mem_set inside with before | rfl
    · exact sound.older preference before
    · exact ballot.current.le

theorem MainSound.room (sound : MainSound host) (inside : option < host.poll.optionCount) :
    host.poll.votesOf option + 1 < 2 ^ 32 := by
  have bound := sound.counted.le_length inside
  have size : maxPreferences = 1024 := rfl
  rw [sound.table] at bound
  omega

def choiceOf (mask : BitVec 32) : BitVec 32 := if mask = 0 then noChoice else mask

theorem mask_choiceOf {mask : BitVec 32} (sign : mask.getLsbD 31 = false) (pref : Preference) :
    Preference.mask { pref with lastPollChoice := choiceOf mask } = mask := by
  have msb : mask.msb = false := by rw [BitVec.msb_eq_getLsbD_last]; exact sign
  show (if (choiceOf mask).msb then 0 else choiceOf mask) = mask
  rw [choiceOf]
  by_cases empty : mask = 0
  · rw [empty]
    decide
  · rw [if_neg empty, msb]
    rfl

theorem mask_sign (pref : Preference) : pref.mask.getLsbD 31 = false := by
  rw [Preference.mask]
  split_ifs with sign
  · decide
  · rw [BitVec.msb_eq_getLsbD_last] at sign
    simpa using sign

theorem chose_mask (ballot : Ballot host.poll host.preferences preferences' index old pref)
    (multiple : host.poll.allowMultiple) (option : Nat) :
    chose host.poll option pref = pref.mask.getLsbD option := by
  simp [chose, multiple, ballot.inUse, ballot.current]

theorem chose_choiceOf (ballot : Ballot host.poll host.preferences preferences' index old pref)
    (multiple : host.poll.allowMultiple) {mask : BitVec 32} (sign : mask.getLsbD 31 = false) (option : Nat) :
    chose host.poll option { pref with lastPollChoice := choiceOf mask } = mask.getLsbD option := by
  rw [chose, mask_choiceOf sign]
  simp [multiple, ballot.inUse, ballot.current]

theorem chose_single (ballot : Ballot host.poll host.preferences preferences' index old pref)
    (single : host.poll.allowMultiple = false) (choice : BitVec 32) (option : Nat) :
    chose host.poll option { pref with lastPollChoice := choice } = decide (choice = BitVec.ofNat 32 option) := by
  simp [chose, single, ballot.inUse, ballot.current]

/-- A vote that is taken back. -/
theorem MainSound.toggleOff (sound : MainSound host)
    (ballot : Ballot host.poll host.preferences preferences' index old pref)
    (multiple : host.poll.allowMultiple) (inside : option < host.poll.optionCount)
    (has : pref.mask.getLsbD option) :
    MainSound ⟨host.poll.unvote option, preferences'.set index
      { pref with lastPollChoice := choiceOf (pref.mask &&& ~~~(1#32 <<< option)) }⟩ := by
  have counted : 0 < host.poll.votesOf option := by
    apply sound.counted.positive inside ballot.place
    rw [ballot.same option (lt_of_lt_of_le inside sound.options), chose_mask ballot multiple, has]
  have sign : (pref.mask &&& ~~~(1#32 <<< option)).getLsbD 31 = false := by
    rw [getLsbD_clear, mask_sign]
    rfl
  apply sound.recast ballot (host.poll.unvote option) rfl rfl (unvote_optionCount _ _)
  intro other _
  have taken := unvote_votesOf host.poll option other counted
  rw [chose_mask ballot multiple, chose_choiceOf ballot multiple sign, getLsbD_clear]
  by_cases same : option = other
  · subst same
    rw [if_pos rfl] at taken
    simp [has, taken]
  · rw [if_neg same, add_zero] at taken
    simp [taken, Ne.symm same]

/-- A further vote of a ballot with several options. -/
theorem MainSound.toggleOn (sound : MainSound host)
    (ballot : Ballot host.poll host.preferences preferences' index old pref)
    (multiple : host.poll.allowMultiple) (inside : option < host.poll.optionCount)
    (hasNot : pref.mask.getLsbD option = false) :
    MainSound ⟨host.poll.vote option, preferences'.set index
      { pref with lastPollChoice := choiceOf (pref.mask ||| 1#32 <<< option) }⟩ := by
  have small : option < 31 := by
    have limit := sound.options
    rw [maxOptions] at limit
    omega
  have sign : (pref.mask ||| 1#32 <<< option).getLsbD 31 = false := by
    rw [getLsbD_set (by omega), mask_sign]
    simp
    omega
  apply sound.recast ballot (host.poll.vote option) rfl rfl (vote_optionCount _ _)
  intro other _
  rw [chose_mask ballot multiple, chose_choiceOf ballot multiple sign, getLsbD_set (by omega),
    vote_votesOf host.poll option other inside (sound.room inside)]
  by_cases same : option = other
  · subst same
    simp [hasNot]
  · simp [same, Ne.symm same]

/-- A ballot of one option moves to another one. -/
theorem MainSound.move (sound : MainSound host)
    (ballot : Ballot host.poll host.preferences preferences' index old pref)
    (single : host.poll.allowMultiple = false) (inside : option < host.poll.optionCount) :
    MainSound ⟨PollState.vote
        (if pref.lastPollChoice.msb = false ∧ pref.lastPollChoice.toNat < host.poll.optionCount then
          host.poll.unvote pref.lastPollChoice.toNat else host.poll) option,
      preferences'.set index { pref with lastPollChoice := BitVec.ofNat 32 option }⟩ := by
  have limit := sound.options
  rw [maxOptions] at limit
  have index_eq {choice : BitVec 32} {i : Nat} (small : i < 5) : choice = BitVec.ofNat 32 i ↔ choice.toNat = i := by
    rw [← BitVec.toNat_inj, BitVec.toNat_ofNat, Nat.mod_eq_of_lt (by omega)]
  have before (i : Nat) : chose host.poll i pref = decide (pref.lastPollChoice = BitVec.ofNat 32 i) :=
    chose_single ballot single pref.lastPollChoice i
  split_ifs with moves
  · have counted : 0 < host.poll.votesOf pref.lastPollChoice.toNat := by
      apply sound.counted.positive moves.2 ballot.place
      rw [ballot.same _ (by rw [maxOptions]; omega), before, decide_eq_true_eq, index_eq (by omega)]
    have room : (host.poll.unvote pref.lastPollChoice.toNat).votesOf option + 1 < 2 ^ 32 := by
      have taken := unvote_votesOf host.poll pref.lastPollChoice.toNat option counted
      have small := sound.room inside
      omega
    apply sound.recast ballot (PollState.vote (host.poll.unvote pref.lastPollChoice.toNat) option) rfl rfl
    · rw [vote_optionCount, unvote_optionCount]
    · intro i within
      have taken := unvote_votesOf host.poll pref.lastPollChoice.toNat i counted
      rw [vote_votesOf _ _ _ (by rw [unvote_optionCount]; exact inside) room, before, chose_single ballot single]
      simp only [decide_eq_true_eq, index_eq (show i < 5 by omega), BitVec.toNat_ofNat]
      rw [Nat.mod_eq_of_lt (by omega)]
      omega
  · have unmoved {i : Nat} (within : i < host.poll.optionCount) : pref.lastPollChoice ≠ BitVec.ofNat 32 i := by
      intro same
      apply moves
      have value := (index_eq (by omega)).mp same
      refine ⟨?_, by omega⟩
      rw [BitVec.msb_eq_decide]
      simp
      omega
    apply sound.recast ballot (host.poll.vote option) rfl rfl (vote_optionCount _ _)
    intro i within
    rw [vote_votesOf host.poll option i inside (sound.room inside), before, chose_single ballot single]
    simp only [decide_eq_true_eq, unmoved within, index_eq (show i < 5 by omega), BitVec.toNat_ofNat]
    rw [Nat.mod_eq_of_lt (by omega)]
    rfl

end Votes

section Handlers

open EventRun

variable {host : MainHost}

/-- A vote of a session keeps the tallies, and a refused one leaves the host alone. -/
theorem sessionHandleVote_sound (sound : MainSound host) (user : SessionUser) (optionIndex : Nat) :
    MainSound (sessionHandleVote host user optionIndex).host ∧
      (sessionHandleVote host user optionIndex).host.poll.id = host.poll.id ∧
      ((sessionHandleVote host user optionIndex).accepted = false →
        (sessionHandleVote host user optionIndex).host = host) := by
  rw [sessionHandleVote]
  by_cases idle : host.poll.active = false ∨ host.poll.optionCount = 0
  · rw [if_pos idle]
    exact ⟨sound, rfl, fun _ => rfl⟩
  rw [if_neg idle]
  by_cases missing : host.poll.optionCount ≤ optionIndex
  · rw [if_pos missing]
    exact ⟨sound, rfl, fun _ => rfl⟩
  · rw [if_neg missing]
    have inside : optionIndex < host.poll.optionCount := Nat.lt_of_not_le missing
    have small : optionIndex < maxOptions := lt_of_lt_of_le inside sound.options
    cases ensured : ensurePreference host.preferences user.name.text user.clientIp.text with
    | none => exact ⟨sound, rfl, fun _ => rfl⟩
    | some found =>
      obtain ⟨preferences', index⟩ := found
      obtain ⟨old, ballot⟩ := ensurePreference_ballot host.poll ensured
      dsimp only
      generalize (preferences'.getD index .unused).forPoll host.poll.id = pref at ballot ⊢
      have bit := and_single_ne_zero (show optionIndex < 32 by rw [maxOptions] at small; omega) pref.mask
      cases kind : host.poll.allowMultiple with
      | true =>
        by_cases has : pref.mask &&& 1#32 <<< optionIndex ≠ 0
        · rw [if_pos has]
          exact ⟨sound.toggleOff ballot kind inside (bit.mp has), rfl, fun refused => by cases refused⟩
        · rw [if_neg has]
          exact ⟨sound.toggleOn ballot kind inside (by simpa using mt bit.mpr has), rfl,
            fun refused => by cases refused⟩
      | false =>
        rw [if_neg Bool.false_ne_true]
        by_cases again : pref.lastPollChoice = BitVec.ofNat 32 optionIndex
        · -- The record held this ballot before, so it is neither new nor of another poll.
          obtain ⟨rfl, rfl⟩ := ballot.kept (by rw [again]; exact noChoice_ne small)
          have same : host.preferences.set index pref = host.preferences := by
            apply ext_getElem?
            intro place
            rw [getElem?_set]
            split_ifs with here within
            · rw [← here, ballot.place]
            · rw [getElem?_eq_none (by omega)]
            · rfl
          rw [if_pos again, same]
          exact ⟨sound, rfl, fun _ => rfl⟩
        · rw [if_neg again]
          refine ⟨sound.move ballot kind inside, ?_, fun refused => by cases refused⟩
          split_ifs <;> rfl

theorem jsonPollVote_eq (host : MainHost) (user : SessionUser) (request : JsonRequest) (choice : request.choice ≠ 0)
    (name : request.username = user.name) :
    (jsonPollVote host user.clientIp request).host = (sessionHandleVote host user (request.choice - 1)).host ∧
      (jsonPollVote host user.clientIp request).accepted =
        (sessionHandleVote host user (request.choice - 1)).accepted := by
  rw [jsonPollVote, sessionHandleVote, if_neg choice, name]
  cases ensurePreference host.preferences user.name.text user.clientIp.text with
  | none =>
    dsimp only
    split_ifs <;> exact ⟨rfl, rfl⟩
  | some =>
    dsimp only
    split_ifs <;> exact ⟨rfl, rfl⟩

/-- A poll that starts has no votes, because no record is of its id. -/
theorem MainSound.start (sound : MainSound host) (room : host.poll.id + 1 < 2 ^ 64) (question : Bytes)
    {options : List Bytes} (fits : options.length ≤ maxOptions) :
    MainSound { host with poll := host.poll.start question options false } := by
  have id : (host.poll.start question options false).id = host.poll.id + 1 := nextId_eq host.poll room
  constructor
  case counted =>
    intro option _
    rw [start_votesOf]
    symm
    apply countP_eq_zero.mpr
    intro preference inside
    have older := sound.older preference inside
    have other : preference.lastPollId ≠ (host.poll.start question options false).id := by omega
    simp [chose, other]
  case options =>
    show (options.map _).length ≤ maxOptions
    rw [length_map]
    exact fits
  case table => exact sound.table
  case older =>
    intro preference inside
    show preference.lastPollId ≤ (host.poll.start question options false).id
    exact (sound.older preference inside).trans (by omega)

theorem MainSound.close (sound : MainSound host) :
    MainSound { host with poll := { host.poll with active := false } } :=
  ⟨sound.counted, sound.options, sound.table, sound.older⟩

structure StepSound (host : MainHost) (result : MainHost) (accepted : Bool) : Prop where
  sound : result.poll.id = host.poll.id → MainSound result
  started : result.poll.id ≠ host.poll.id → host.poll.id + 1 < 2 ^ 64 →
    MainSound result ∧ result.poll.id = host.poll.id + 1
  refused : accepted = false → result = host

theorem StepSound.keep {result : MainHost} {accepted : Bool} (sound : MainSound result)
    (id : result.poll.id = host.poll.id) (refused : accepted = false → result = host) :
    StepSound host result accepted :=
  ⟨fun _ => sound, fun other => absurd id other, refused⟩

theorem StepSound.start (sound : MainSound host) (below : host.poll.id < 2 ^ 64) (question : Bytes)
    {options : List Bytes} (fits : options.length ≤ maxOptions) :
    StepSound host { host with poll := host.poll.start question options false } true := by
  have next : (host.poll.start question options false).id = host.poll.nextId := rfl
  constructor
  case sound =>
    intro same
    have id : host.poll.nextId = host.poll.id := same
    rw [PollState.nextId] at id
    split_ifs at id with wrapped <;> omega
  case started =>
    intro _ room
    exact ⟨sound.start room question fits, next.trans (nextId_eq host.poll room)⟩
  case refused => exact fun refused => by cases refused

theorem sessionHandlePoll_sound (sound : MainSound host) (below : host.poll.id < 2 ^ 64) (user : SessionUser)
    (arguments : Bytes) :
    StepSound host (sessionHandlePoll host user arguments).host (sessionHandlePoll host user arguments).accepted := by
  rw [sessionHandlePoll]
  split_ifs
  · exact .keep sound rfl fun _ => rfl
  · exact .keep sound rfl fun _ => rfl
  · exact .keep sound rfl fun _ => rfl
  · exact .keep sound.close rfl fun refused => by cases refused
  · exact .keep sound rfl fun _ => rfl
  · cases parseFields (trimSpace (arguments.take (maxInputLen - 1))) with
    | error => exact .keep sound rfl fun _ => rfl
    | ok fields => exact .start sound below fields.question fields.fits

theorem jsonApiHandlePollRequest_sound (sound : MainSound host) (below : host.poll.id < 2 ^ 64) (peerIp : CBuffer 64)
    (request : JsonRequest) :
    StepSound host (jsonApiHandlePollRequest host peerIp request).host
      (jsonApiHandlePollRequest host peerIp request).accepted := by
  rw [jsonApiHandlePollRequest]
  split_ifs
  · exact .keep sound rfl fun _ => rfl
  · exact .keep sound rfl fun _ => rfl
  · exact .keep sound rfl fun _ => rfl
  · exact .keep sound.close rfl fun refused => by cases refused
  · by_cases choice : request.choice = 0
    · rw [jsonPollVote, if_pos choice]
      exact .keep sound rfl fun _ => rfl
    · obtain ⟨same, accepted⟩ := jsonPollVote_eq host ⟨request.username, peerIp, false, false⟩ request choice rfl
      obtain ⟨kept, id, refused⟩ := sessionHandleVote_sound sound ⟨request.username, peerIp, false, false⟩
        (request.choice - 1)
      rw [same, accepted]
      exact .keep kept id refused
  · exact .keep sound rfl fun _ => rfl
  · exact .keep sound rfl fun _ => rfl
  · exact .start sound below request.question.text (by rw [length_map]; exact request.fits)

theorem apply_sound (sound : MainSound host) (below : host.poll.id < 2 ^ 64) (command : MainCommand) :
    StepSound host (host.apply command).1 (host.apply command).2 := by
  cases command with
  | sessionPoll user arguments => exact sessionHandlePoll_sound sound below user arguments
  | sessionVote user optionIndex =>
    obtain ⟨kept, id, refused⟩ := sessionHandleVote_sound sound user optionIndex
    exact .keep kept id refused
  | jsonPoll peerIp request => exact jsonApiHandlePollRequest_sound sound below peerIp request

/-- The tallies are kept in every run that does not use up the ids. -/
theorem run_sound (sound : MainSound host) (commands : List MainCommand)
    (few : host.poll.id + tally MainHost.step MainHost.starts host commands < 2 ^ 64) :
    MainSound (run MainHost.step host commands) ∧ (run MainHost.step host commands).poll.id < 2 ^ 64 := by
  induction commands generalizing host with
  | nil => exact ⟨sound, few⟩
  | cons command commands ih =>
    rw [tally] at few
    have step := apply_sound sound (by omega) command
    by_cases starts : host.starts command
    · rw [if_pos starts] at few
      obtain ⟨next, id⟩ := step.started starts (by omega)
      have id' : (host.step command).poll.id = host.poll.id + 1 := id
      exact ih (show MainSound (host.step command) from next) (by omega)
    · rw [if_neg starts] at few
      have id : (host.step command).poll.id = host.poll.id := not_not.mp starts
      exact ih (show MainSound (host.step command) from step.sound id) (by omega)

theorem fresh_sound : MainSound .fresh where
  counted := fun option inside => absurd inside (Nat.not_lt_zero option)
  options := Nat.zero_le _
  table := length_replicate
  older := by
    intro preference inside
    rw [eq_of_mem_replicate inside]
    exact le_refl 0

/-- In every run from a new host with fewer than 2^64 polls the votes of an option are the records with a ballot for
it, a refused command changes nothing, and the two vote handlers agree. -/
theorem main_poll_tallies (commands : List MainCommand)
    (few : tally MainHost.step MainHost.starts .fresh commands < 2 ^ 64) :
    let host := run MainHost.step .fresh commands
    (∀ option < host.poll.optionCount, host.poll.votesOf option = host.preferences.countP (chose host.poll option)) ∧
      (∀ command, (host.apply command).2 = false → (host.apply command).1 = host) ∧
      ∀ (user : SessionUser) (request : JsonRequest) (optionIndex : Nat),
        host.apply (.jsonPoll user.clientIp
          { request with username := user.name, action := str "vote", choice := optionIndex + 1 }) =
        host.apply (.sessionVote user optionIndex) := by
  intro host
  obtain ⟨sound, below⟩ := run_sound fresh_sound commands (by
    show 0 + _ < _
    omega)
  refine ⟨sound.counted, fun command => (apply_sound sound below command).refused, ?_⟩
  intro user request optionIndex
  obtain ⟨same, accepted⟩ := jsonPollVote_eq host user
    { request with username := user.name, action := str "vote", choice := optionIndex + 1 } (Nat.succ_ne_zero _) rfl
  have routed : jsonApiHandlePollRequest host user.clientIp
      { request with username := user.name, action := str "vote", choice := optionIndex + 1 } =
      jsonPollVote host user.clientIp
        { request with username := user.name, action := str "vote", choice := optionIndex + 1 } := by
    have list : ¬ (str "vote" = [] ∨ str "vote" = str "status" ∨ str "vote" = str "list") := by decide
    have close : ¬ isCloseAction (str "vote") := by decide
    rw [jsonApiHandlePollRequest, if_neg list, if_neg close, if_pos (.inl rfl)]
  rw [MainHost.apply, MainHost.apply, routed, same, accepted]
  rfl

def someOperator : SessionUser := ⟨⟨str "bob", by decide⟩, ⟨str "10.0.0.1", by decide⟩, true, false⟩

def oneVote : List MainCommand := [.sessionPoll someOperator (str "Tea?|yes|no"), .sessionVote someOperator 0]

/-- The one vote is the one ballot. -/
theorem main_poll_tallies_one :
    (run MainHost.step .fresh oneVote).poll.votesOf 0 = 1 ∧
      (run MainHost.step .fresh oneVote).poll.votesOf 0 = (run MainHost.step .fresh oneVote).preferences.countP
        (chose (run MainHost.step .fresh oneVote).poll 0) :=
  ⟨by decide +kernel, (main_poll_tallies oneVote (by decide +kernel)).1 0 (by decide +kernel)⟩

end Handlers

end SshChatter.Polls
