import SshChatter.Polls.NamedPoll
import SshChatter.Lib.BitMask
import SshChatter.Lib.EventRun
import SshChatter.Lib.KeyedList
import SshChatter.Lib.Tally

namespace SshChatter.Polls
open CString BitMask Tally KeyedList List

section Voters

def picked (poll : PollState) (option : Nat) (voter : Voter) : Bool :=
  if poll.allowMultiple then voter.choicesMask.getLsbD option else voter.choice = option

/-- Users are told apart by their names, whatever their case. -/
def Voter.key (voter : Voter) : Bytes := voter.username.map toLower

structure NamedSound (entry : NamedPoll) : Prop where
  counted : Counted (picked entry.poll) entry.poll.optionCount entry.poll.votesOf entry.voters
  distinct : Distinct Voter.key entry.voters
  few : entry.voters.length ≤ maxNamedVoters
  masks : entry.poll.allowMultiple → ∀ voter ∈ entry.voters, voter.choicesMask ≠ 0
  options : entry.poll.optionCount ≤ maxOptions

variable {entry : NamedPoll} {index option : Nat} {username : Bytes} {old voter : Voter}

theorem voterIndex_some (found : entry.voterIndex username = some index) :
    entry.voters[index]? = some (entry.voters.getD index .blank) ∧
      (entry.voters.getD index .blank).key = username.map toLower := by
  obtain ⟨inside, hit, -⟩ := findIdx?_eq_some_iff_getElem.mp found
  have here : entry.voters[index]? = some entry.voters[index] := getElem?_eq_getElem inside
  have value : entry.voters.getD index .blank = entry.voters[index] := by rw [getD_eq_getElem?_getD, here]; rfl
  rw [value]
  exact ⟨here, by simpa [sameIgnoringCase, Voter.key] using hit⟩

theorem voterIndex_none (missing : entry.voterIndex username = none) :
    lookup Voter.key entry.voters (username.map toLower) = none := by
  rw [NamedPoll.voterIndex, findIdx?_eq_none_iff] at missing
  rw [lookup_none]
  intro inside
  obtain ⟨voter, member, same⟩ := mem_map.mp inside
  have differs := missing voter member
  rw [sameIgnoringCase, decide_eq_false_iff_not] at differs
  exact differs same

theorem NamedSound.room (sound : NamedSound entry) (inside : option < entry.poll.optionCount) :
    entry.poll.votesOf option + 1 < 2 ^ 32 := by
  have bound := sound.counted.le_length inside
  have few := sound.few
  have size : maxNamedVoters = 256 := rfl
  omega

/-- A voter who votes again keeps the place among the voters. -/
theorem NamedSound.recast (sound : NamedSound entry) (found : entry.voters[index]? = some old)
    (poll : PollState) (kind : poll.allowMultiple = entry.poll.allowMultiple)
    (count : poll.optionCount = entry.poll.optionCount) (voter : Voter) (name : voter.username = old.username)
    (mask : entry.poll.allowMultiple → voter.choicesMask ≠ 0)
    (moved : ∀ option < entry.poll.optionCount,
      poll.votesOf option + (if picked entry.poll option old then 1 else 0) =
        entry.poll.votesOf option + (if picked entry.poll option voter then 1 else 0)) :
    NamedSound { entry with poll := poll, voters := entry.voters.set index voter } := by
  have samePicked : picked poll = picked entry.poll := by
    funext option voter
    rw [picked, picked, kind]
  constructor
  case counted =>
    rw [samePicked, count]
    exact sound.counted.set found moved
  case distinct =>
    show ((entry.voters.set index voter).map Voter.key).Nodup
    have keys : (entry.voters.set index voter).map Voter.key = entry.voters.map Voter.key := by
      apply ext_getElem?
      intro place
      rw [getElem?_map, getElem?_map, getElem?_set]
      split_ifs with here within
      · rw [← here, found, Option.map_some, Option.map_some, Voter.key, Voter.key, name]
      · rw [getElem?_eq_none (by omega)]
      · rfl
    rw [keys]
    exact sound.distinct
  case few =>
    rw [length_set]
    exact sound.few
  case masks =>
    intro multiple member inside
    have multiple' : entry.poll.allowMultiple := kind.symm.trans multiple
    rcases mem_or_eq_of_mem_set inside with before | rfl
    · exact sound.masks multiple' member before
    · exact mask multiple'
  case options =>
    rw [count]
    exact sound.options

/-- A first vote adds a voter. -/
theorem NamedSound.join (sound : NamedSound entry) (missing : entry.voterIndex username = none)
    (space : ¬ maxNamedVoters ≤ entry.voters.length) (inside : option < entry.poll.optionCount)
    (name : voter.username = username) (mask : entry.poll.allowMultiple → voter.choicesMask ≠ 0)
    (ballot : ∀ other < entry.poll.optionCount, picked entry.poll other voter = decide (option = other)) :
    NamedSound { entry with poll := entry.poll.vote option, voters := entry.voters ++ [voter] } := by
  constructor
  case counted =>
    rw [vote_optionCount]
    apply sound.counted.append
    intro other within
    rw [vote_votesOf entry.poll option other inside (sound.room inside), ballot other within]
    simp
  case distinct =>
    apply sound.distinct.append
    rw [Voter.key, name]
    exact voterIndex_none missing
  case few =>
    rw [length_append, length_singleton]
    omega
  case masks =>
    intro multiple member inside
    rcases mem_append.mp inside with before | last
    · exact sound.masks multiple member before
    · rw [mem_singleton.mp last]
      exact mask multiple
  case options =>
    rw [vote_optionCount]
    exact sound.options

/-- A voter who takes back the last vote is removed. -/
theorem NamedSound.leave (sound : NamedSound entry) (found : entry.voters[index]? = some old)
    (counted : 0 < entry.poll.votesOf option)
    (ballot : ∀ other < entry.poll.optionCount, picked entry.poll other old = decide (option = other)) :
    NamedSound { entry with poll := entry.poll.unvote option, voters := entry.voters.eraseIdx index } := by
  have sublist : List.Sublist (entry.voters.eraseIdx index) entry.voters := eraseIdx_sublist _ _
  constructor
  case counted =>
    rw [unvote_optionCount]
    apply sound.counted.erase found
    intro other within
    have taken := unvote_votesOf entry.poll option other counted
    rw [ballot other within]
    simpa using taken
  case distinct => exact List.Nodup.sublist (sublist.map Voter.key) sound.distinct
  case few => exact sublist.length_le.trans sound.few
  case masks => exact fun multiple member inside => sound.masks multiple member (sublist.subset inside)
  case options =>
    rw [unvote_optionCount]
    exact sound.options

/-- The options are few enough for a mask. -/
theorem NamedSound.small (sound : NamedSound entry) (inside : option < entry.poll.optionCount) : option < 32 := by
  have limit := sound.options
  rw [maxOptions] at limit
  omega

theorem picked_multiple (multiple : entry.poll.allowMultiple) (option : Nat) (voter : Voter) :
    picked entry.poll option voter = voter.choicesMask.getLsbD option := by rw [picked, if_pos multiple]

theorem picked_single (single : entry.poll.allowMultiple = false) (option : Nat) (voter : Voter) :
    picked entry.poll option voter = decide (voter.choice = option) := by
  rw [picked, single, if_neg Bool.false_ne_true]

/-- A vote that is taken back. -/
theorem NamedSound.toggleOff (sound : NamedSound entry) (multiple : entry.poll.allowMultiple)
    (found : entry.voters[index]? = some old) (inside : option < entry.poll.optionCount)
    (has : old.choicesMask.getLsbD option) :
    NamedSound { entry with
      poll := entry.poll.unvote option,
      voters := if old.choicesMask &&& ~~~(1#32 <<< option) = 0 then entry.voters.eraseIdx index
        else entry.voters.set index
          { old with choicesMask := old.choicesMask &&& ~~~(1#32 <<< option), choice := option } } := by
  have counted : 0 < entry.poll.votesOf option :=
    sound.counted.positive inside found ((picked_multiple multiple option old).trans has)
  split_ifs with last
  · apply sound.leave found counted
    intro other _
    rw [picked_multiple multiple]
    by_cases same : option = other
    · subst same
      simp [has]
    · have bit := @getLsbD_clear _ option old.choicesMask other
      rw [last] at bit
      simpa [same, Ne.symm same] using bit
  · apply sound.recast found (entry.poll.unvote option) rfl (unvote_optionCount _ _)
      { old with choicesMask := old.choicesMask &&& ~~~(1#32 <<< option), choice := option } rfl (fun _ => last)
    intro other _
    have taken := unvote_votesOf entry.poll option other counted
    rw [picked_multiple multiple, picked_multiple multiple]
    rw [getLsbD_clear]
    by_cases same : option = other
    · subst same
      rw [if_pos rfl] at taken
      simp [has, taken]
    · rw [if_neg same, add_zero] at taken
      simp [taken, Ne.symm same]

/-- A further vote of a voter with several options. -/
theorem NamedSound.toggleOn (sound : NamedSound entry) (multiple : entry.poll.allowMultiple)
    (found : entry.voters[index]? = some old) (inside : option < entry.poll.optionCount)
    (hasNot : old.choicesMask.getLsbD option = false) :
    NamedSound { entry with
      poll := entry.poll.vote option,
      voters := entry.voters.set index
        { old with choicesMask := old.choicesMask ||| 1#32 <<< option, choice := option } } := by
  have small := sound.small inside
  have bits := getLsbD_set small old.choicesMask
  apply sound.recast found (entry.poll.vote option) rfl (vote_optionCount _ _)
    { old with choicesMask := old.choicesMask ||| 1#32 <<< option, choice := option } rfl
  · intro _ empty
    have bit := bits option
    have zero : old.choicesMask ||| 1#32 <<< option = 0 := empty
    rw [zero] at bit
    simp at bit
  · intro other _
    rw [picked_multiple multiple, picked_multiple multiple, vote_votesOf entry.poll option other inside
      (sound.room inside)]
    rw [bits]
    by_cases same : option = other
    · subst same
      simp [hasNot]
    · simp [same, Ne.symm same]

/-- A ballot of one option moves to another one. -/
theorem NamedSound.move (sound : NamedSound entry) (single : entry.poll.allowMultiple = false)
    (found : entry.voters[index]? = some old) (inside : option < entry.poll.optionCount) :
    NamedSound { entry with
      poll := PollState.vote
        (if 0 ≤ old.choice ∧ old.choice < entry.poll.optionCount then entry.poll.unvote old.choice.toNat
          else entry.poll) option,
      voters := entry.voters.set index { old with choice := option, choicesMask := 0 } } := by
  have noMask : entry.poll.allowMultiple →
      ({ old with choice := option, choicesMask := 0 } : Voter).choicesMask ≠ 0 :=
    fun multiple => absurd multiple (by rw [single]; exact Bool.false_ne_true)
  split_ifs with moves
  · obtain ⟨previous, here⟩ := Int.eq_ofNat_of_zero_le moves.1
    have before : previous < entry.poll.optionCount := by omega
    have place : old.choice.toNat = previous := by omega
    rw [place]
    have counted : 0 < entry.poll.votesOf previous := by
      apply sound.counted.positive before found
      rw [picked_single single, here]
      exact decide_eq_true rfl
    have taken := fun other => unvote_votesOf entry.poll previous other counted
    have room : (entry.poll.unvote previous).votesOf option + 1 < 2 ^ 32 := by
      have less := taken option
      have small := sound.room inside
      omega
    apply sound.recast found (PollState.vote (entry.poll.unvote previous) option) rfl _
      { old with choice := option, choicesMask := 0 } rfl noMask
    · intro other _
      have less := taken other
      rw [vote_votesOf _ _ _ (by rw [unvote_optionCount]; exact inside) room, picked_single single,
        picked_single single, here]
      simp only [decide_eq_true_eq, Nat.cast_inj]
      omega
    · rw [vote_optionCount, unvote_optionCount]
  · apply sound.recast found (entry.poll.vote option) rfl (vote_optionCount _ _)
      { old with choice := option, choicesMask := 0 } rfl noMask
    intro other within
    have unmoved : ¬ old.choice = other := by omega
    rw [vote_votesOf entry.poll option other inside (sound.room inside), picked_single single, picked_single single]
    simp only [decide_eq_true_eq, unmoved, Nat.cast_inj]
    rfl

theorem NamedSound.start (label owner question : Bytes) {options : List Bytes} (fits : options.length ≤ maxOptions)
    (allowMultiple : Bool) : NamedSound (entry.start label owner question options allowMultiple) where
  counted := fun option _ => start_votesOf entry.poll option question options allowMultiple
  distinct := nodup_nil
  few := Nat.zero_le _
  masks := fun _ _ inside => absurd inside not_mem_nil
  options := by
    show (options.map _).length ≤ maxOptions
    rw [length_map]
    exact fits

end Voters

section Handlers

open EventRun

def HostSound (host : NamedHost) : Prop := ∀ slot, NamedSound (host slot)

variable {host : NamedHost} {slot : Fin maxNamedPolls} {entry : NamedPoll}

theorem HostSound.update (sound : HostSound host) (kept : NamedSound entry) :
    HostSound (Function.update host slot entry) := by
  intro other
  rw [Function.update_apply]
  split_ifs
  · exact kept
  · exact sound other

theorem NamedSound.close (sound : NamedSound entry) :
    NamedSound { entry with poll := { entry.poll with active := false } } :=
  ⟨sound.counted, sound.distinct, sound.few, sound.masks, sound.options⟩

structure CommandSound (host result : NamedHost) (accepted : Bool) : Prop where
  sound : HostSound result
  refused : accepted = false → result = host

theorem CommandSound.keep (sound : HostSound host) {accepted : Bool} : CommandSound host host accepted :=
  ⟨sound, fun _ => rfl⟩

theorem CommandSound.update (sound : HostSound host) (kept : NamedSound entry) :
    CommandSound host (Function.update host slot entry) true :=
  ⟨sound.update kept, fun refused => by cases refused⟩

theorem picked_single_bit {option : Nat} (small : option < 32) (username : Bytes) (other : Nat)
    (multiple : entry.poll.allowMultiple) :
    picked entry.poll other ⟨username, option, 1#32 <<< option⟩ = decide (option = other) := by
  rw [picked_multiple multiple]
  rw [getLsbD_single]
  simp [small, eq_comm]

/-- A vote of a session keeps the tallies, and a refused one leaves the host alone. -/
theorem sessionHandleNamedVote_sound (sound : HostSound host) (user : SessionUser) (optionIndex : Nat)
    (label : Bytes) :
    CommandSound host (sessionHandleNamedVote host user optionIndex label).host
      (sessionHandleNamedVote host user optionIndex label).accepted := by
  rw [sessionHandleNamedVote]
  by_cases unnamed : label = []
  · rw [if_pos unnamed]
    exact .keep sound
  rw [if_neg unnamed]
  by_cases invalid : pollLabelIsValid (trimSpace (label.take (pollLabelLen - 1))) = false
  · rw [if_pos invalid]
    exact .keep sound
  rw [if_neg invalid]
  cases host.find (trimSpace (label.take (pollLabelLen - 1))) with
  | none => exact .keep sound
  | some slot =>
    dsimp only
    have here := sound slot
    by_cases idle : (host slot).poll.active = false ∨ (host slot).poll.optionCount = 0
    · rw [if_pos idle]
      exact .keep sound
    rw [if_neg idle]
    by_cases missing : (host slot).poll.optionCount ≤ optionIndex
    · rw [if_pos missing]
      exact .keep sound
    rw [if_neg missing]
    have inside : optionIndex < (host slot).poll.optionCount := Nat.lt_of_not_le missing
    have small := here.small inside
    cases kind : (host slot).poll.allowMultiple with
    | true =>
      cases place : (host slot).voterIndex user.name.text with
      | some index =>
        dsimp only
        obtain ⟨found, -⟩ := voterIndex_some place
        have bit := and_single_ne_zero small ((host slot).voters.getD index .blank).choicesMask
        by_cases has : ((host slot).voters.getD index .blank).choicesMask &&& 1#32 <<< optionIndex ≠ 0
        · rw [if_pos has]
          exact .update sound (here.toggleOff kind found inside (bit.mp has))
        · rw [if_neg has]
          exact .update sound (here.toggleOn kind found inside (by simpa using mt bit.mpr has))
      | none =>
        by_cases full : maxNamedVoters ≤ (host slot).voters.length
        · rw [if_pos full]
          exact .keep sound
        · rw [if_neg full]
          apply CommandSound.update sound
          apply here.join place full inside rfl
          · exact fun _ => single_ne_zero small
          · exact fun other _ => picked_single_bit small user.name.text other kind
    | false =>
      rw [if_neg Bool.false_ne_true]
      cases place : (host slot).voterIndex user.name.text with
      | some index =>
        dsimp only
        obtain ⟨found, -⟩ := voterIndex_some place
        by_cases again : ((host slot).voters.getD index .blank).choice = optionIndex
        · rw [if_pos again]
          exact .keep sound
        · rw [if_neg again]
          exact .update sound (here.move kind found inside)
      | none =>
        by_cases full : maxNamedVoters ≤ (host slot).voters.length
        · rw [if_pos full]
          exact .keep sound
        · rw [if_neg full]
          apply CommandSound.update sound
          apply here.join place full inside rfl
          · exact fun multiple => absurd multiple (by rw [kind]; exact Bool.false_ne_true)
          · intro other _
            rw [picked_single kind]
            simp only [Nat.cast_inj]

theorem HostSound.ensure (sound : HostSound host) {ensured : NamedHost} {label : Bytes}
    (made : host.ensure label = some (ensured, slot)) :
    HostSound ensured ∧ (ensured = host ∨ (ensured slot).poll.active = false) := by
  rw [NamedHost.ensure] at made
  split_ifs at made with empty
  cases found : host.find label with
  | some =>
    rw [found] at made
    obtain ⟨rfl, rfl⟩ := Prod.mk.inj (Option.some.inj made)
    exact ⟨sound, .inl rfl⟩
  | none =>
    rw [found] at made
    obtain ⟨place, -, pair⟩ := Option.map_eq_some_iff.mp made
    obtain ⟨rfl, rfl⟩ := Prod.mk.inj pair
    refine ⟨sound.update ?_, .inr ?_⟩
    · exact ⟨fun option inside => absurd inside (Nat.not_lt_zero option), nodup_nil, Nat.zero_le _,
        fun _ _ inside => absurd inside not_mem_nil, Nat.zero_le _⟩
    · rw [Function.update_self]
      rfl

theorem sessionNamedClose_sound (sound : HostSound host) (user : SessionUser) (label : Bytes) :
    CommandSound host (sessionNamedClose host user label).host (sessionNamedClose host user label).accepted := by
  rw [sessionNamedClose]
  cases host.find label with
  | none => exact .keep sound
  | some slot =>
    dsimp only
    split_ifs
    · exact .keep sound
    · exact .keep sound
    · exact .update sound (sound slot).close

theorem sessionNamedStart_sound (sound : HostSound host) (user : SessionUser) (label : Bytes) (fields : PollText)
    (allowMultiple : Bool) :
    CommandSound host (sessionNamedStart host user label fields allowMultiple).host
      (sessionNamedStart host user label fields allowMultiple).accepted := by
  rw [sessionNamedStart]
  cases made : host.ensure label with
  | none => exact .keep sound
  | some ensured =>
    obtain ⟨ensured, slot⟩ := ensured
    obtain ⟨kept, either⟩ := sound.ensure made
    dsimp only
    split_ifs with taken
    · -- Only a poll that was there before can be active.
      obtain rfl : ensured = host := either.resolve_right (by rw [taken.1]; exact Bool.noConfusion)
      exact .keep sound
    · exact ⟨kept.update (NamedSound.start label _ _ fields.fits allowMultiple), fun refused => by cases refused⟩

theorem sessionHandleVoteCommand_sound (sound : HostSound host) (user : SessionUser) (arguments : Bytes)
    (allowMultiple : Bool) :
    CommandSound host (sessionHandleVoteCommand host user arguments allowMultiple).host
      (sessionHandleVoteCommand host user arguments allowMultiple).accepted := by
  rw [sessionHandleVoteCommand]
  cases blankToken (trimSpace (arguments.take (maxInputLen - 1))) with
  | none => exact .keep sound
  | some tokens =>
    obtain ⟨token, behind⟩ := tokens
    dsimp only
    split_ifs with list invalid status close
    · exact .keep sound
    · exact .keep sound
    · cases host.find (trimSpace token) with
      | none => exact .keep sound
      | some => exact .keep sound
    · exact sessionNamedClose_sound sound user (trimSpace token)
    cases parseFields (trimSpace behind) with
    | error => exact .keep sound
    | ok fields => exact sessionNamedStart_sound sound user (trimSpace token) fields allowMultiple

theorem jsonNamedClose_sound (sound : HostSound host) (request : JsonRequest) :
    CommandSound host (jsonNamedClose host request).host (jsonNamedClose host request).accepted := by
  rw [jsonNamedClose]
  cases host.find request.label.text with
  | none => exact .keep sound
  | some slot =>
    dsimp only
    split_ifs
    · exact .keep sound
    · exact .keep sound
    · exact .update sound (sound slot).close

theorem jsonNamedStart_sound (sound : HostSound host) (request : JsonRequest) :
    CommandSound host (jsonNamedStart host request).host (jsonNamedStart host request).accepted := by
  rw [jsonNamedStart]
  split_ifs with short
  · exact .keep sound
  cases made : host.ensure request.label.text with
  | none => exact .keep sound
  | some ensured =>
    obtain ⟨ensured, slot⟩ := ensured
    obtain ⟨kept, either⟩ := sound.ensure made
    have fits : (request.options.map CBuffer.text).length ≤ maxOptions := by
      rw [length_map]
      exact request.fits
    dsimp only
    split_ifs with taken
    · obtain rfl : ensured = host := either.resolve_right (by rw [taken.1]; exact Bool.noConfusion)
      exact .keep sound
    · exact ⟨kept.update (NamedSound.start _ _ _ fits request.allowMultiple), fun refused => by cases refused⟩

end Handlers

section Agreement

variable {host : NamedHost} {label other : Bytes}

def isLabelByte (c : UInt8) : Bool :=
  isDigit c ∨ (65 ≤ c ∧ c ≤ 90) ∨ (97 ≤ c ∧ c ≤ 122) ∨ c = byte '_' ∨ c = byte '-'

theorem isLabelByte_toLower (c : UInt8) : isLabelByte (toLower c) = isLabelByte c := by
  have every : ∀ n : Fin 256, isLabelByte (toLower (UInt8.ofNat n)) = isLabelByte (UInt8.ofNat n) := by decide +kernel
  have here := every ⟨c.toNat, c.toNat_lt⟩
  rwa [UInt8.ofNat_toNat] at here

theorem isLabelByte_not_space {c : UInt8} (inside : isLabelByte c) : isSpace c = false := by
  have every : ∀ n : Fin 256, isLabelByte (UInt8.ofNat n) → isSpace (UInt8.ofNat n) = false := by decide +kernel
  have here := every ⟨c.toNat, c.toNat_lt⟩
  rw [UInt8.ofNat_toNat] at here
  exact here inside

theorem pollLabelIsValid_eq (label : Bytes) :
    pollLabelIsValid label = (decide (label ≠ []) && label.all isLabelByte) := by
  rw [pollLabelIsValid, Bool.decide_and, Bool.decide_eq_true]
  rfl

theorem trimSpace_valid (valid : pollLabelIsValid label) : trimSpace label = label := by
  rw [pollLabelIsValid_eq, Bool.and_eq_true, all_eq_true] at valid
  have plain : ∀ c ∈ label, isSpace c = false := fun c inside => isLabelByte_not_space (valid.2 c inside)
  have front : label.dropWhile isSpace = label := by
    cases label with
    | nil => rfl
    | cons c => rw [dropWhile_cons_of_neg (by rw [plain c mem_cons_self]; exact Bool.false_ne_true)]
  rw [trimSpace, front, rdropWhile_eq_self_iff]
  intro some'
  rw [plain _ (getLast_mem some')]
  exact Bool.false_ne_true

theorem pollLabelIsValid_case (same : label.map toLower = other.map toLower) :
    pollLabelIsValid label = pollLabelIsValid other := by
  have lower (text : Bytes) : text.all isLabelByte = (text.map toLower).all isLabelByte := by
    rw [all_map]
    congr 1
    funext c
    exact (isLabelByte_toLower c).symm
  have empty : label = [] ↔ other = [] := by
    rw [← map_eq_nil_iff (f := toLower), same, map_eq_nil_iff]
  rw [pollLabelIsValid_eq, pollLabelIsValid_eq, lower label, lower other, same]
  simp only [ne_eq, empty]

theorem find_case (same : label.map toLower = other.map toLower) : host.find label = host.find other := by
  have empty : label = [] ↔ other = [] := by
    rw [← map_eq_nil_iff (f := toLower), same, map_eq_nil_iff]
  rw [NamedHost.find, NamedHost.find]
  by_cases blank : other = []
  · rw [if_pos blank, if_pos (empty.mpr blank)]
  · rw [if_neg blank, if_neg (mt empty.mp blank)]
    have each (text : Bytes) : sameIgnoringCase text label = sameIgnoringCase text other := by
      simp only [sameIgnoringCase, same]
    simp only [each]

theorem jsonNamedVote_eq (host : NamedHost) (user : SessionUser) (request : JsonRequest) (choice : request.choice ≠ 0)
    (name : request.username = user.name) (some' : label ≠ [])
    (valid : pollLabelIsValid (trimSpace (label.take (pollLabelLen - 1))))
    (same : host.find request.label.text = host.find (trimSpace (label.take (pollLabelLen - 1)))) :
    (jsonNamedVote host request).host = (sessionHandleNamedVote host user (request.choice - 1) label).host ∧
      (jsonNamedVote host request).accepted =
        (sessionHandleNamedVote host user (request.choice - 1) label).accepted := by
  rw [jsonNamedVote, sessionHandleNamedVote, if_neg choice, if_neg some', name, same]
  rw [if_neg (by rw [valid]; exact Bool.noConfusion)]
  cases host.find (trimSpace (label.take (pollLabelLen - 1))) with
  | none => exact ⟨rfl, rfl⟩
  | some slot =>
    dsimp only
    cases (host slot).voterIndex user.name.text with
    | some =>
      dsimp only
      split_ifs <;> exact ⟨rfl, rfl⟩
    | none =>
      dsimp only
      split_ifs <;> exact ⟨rfl, rfl⟩

end Agreement

section Runs

open EventRun

variable {host : NamedHost}

theorem jsonNamedVote_sound (sound : HostSound host) (request : JsonRequest)
    (valid : pollLabelIsValid request.label.text) :
    CommandSound host (jsonNamedVote host request).host (jsonNamedVote host request).accepted := by
  by_cases choice : request.choice = 0
  · rw [jsonNamedVote, if_pos choice]
    exact .keep sound
  have some' : request.label.text ≠ [] := by
    intro empty
    rw [empty] at valid
    exact absurd valid (by decide)
  have normal : trimSpace (request.label.text.take (pollLabelLen - 1)) = request.label.text := by
    have short : request.label.text.length ≤ pollLabelLen - 1 := Nat.le_sub_one_of_lt request.label.fits
    rw [take_of_length_le short, trimSpace_valid valid]
  obtain ⟨same, accepted⟩ := jsonNamedVote_eq host ⟨request.username, .zero, false, false⟩ request choice rfl
    some' (by rw [normal]; exact valid) (by rw [normal])
  rw [same, accepted]
  exact sessionHandleNamedVote_sound sound _ _ _

theorem jsonApiHandleVoteRequest_sound (sound : HostSound host) (request : JsonRequest) :
    CommandSound host (jsonApiHandleVoteRequest host request).host
      (jsonApiHandleVoteRequest host request).accepted := by
  rw [jsonApiHandleVoteRequest]
  by_cases list : request.action = [] ∨ request.action = str "list"
  · rw [if_pos list]
    exact .keep sound
  rw [if_neg list]
  by_cases unnamed : request.label.text = []
  · rw [if_pos unnamed]
    exact .keep sound
  rw [if_neg unnamed]
  by_cases invalid : pollLabelIsValid request.label.text = false
  · rw [if_pos invalid]
    exact .keep sound
  rw [if_neg invalid]
  by_cases status : request.action = str "status"
  · rw [if_pos status]
    cases host.find request.label.text with
    | none => exact .keep sound
    | some => exact .keep sound
  split_ifs
  · exact jsonNamedClose_sound sound request
  · exact jsonNamedVote_sound sound request (by simpa using invalid)
  · exact jsonNamedStart_sound sound request

theorem named_apply_sound (sound : HostSound host) (command : NamedCommand) :
    CommandSound host (host.apply command).1 (host.apply command).2 := by
  cases command with
  | sessionPoll user arguments allowMultiple => exact sessionHandleVoteCommand_sound sound user arguments allowMultiple
  | sessionVote user optionIndex label => exact sessionHandleNamedVote_sound sound user optionIndex label
  | jsonPoll request => exact jsonApiHandleVoteRequest_sound sound request

theorem named_fresh_sound : HostSound .fresh := fun _ =>
  ⟨fun option inside => absurd inside (Nat.not_lt_zero option), nodup_nil, Nat.zero_le _,
    fun _ _ inside => absurd inside not_mem_nil, Nat.zero_le _⟩

/-- A vote that a request makes is the one that a session makes, for labels that differ in case and blanks only. -/
theorem vote_agree (host : NamedHost) (user : SessionUser) (request : JsonRequest) (optionIndex : Nat) (label : Bytes)
    (same : sameIgnoringCase (trimSpace (label.take (pollLabelLen - 1))) request.label.text) :
    host.apply (.jsonPoll { request with username := user.name, action := str "vote", choice := optionIndex + 1 }) =
      host.apply (.sessionVote user optionIndex label) := by
  have case' : request.label.text.map toLower = (trimSpace (label.take (pollLabelLen - 1))).map toLower :=
    (of_decide_eq_true same).symm
  have list : ¬ (str "vote" = [] ∨ str "vote" = str "list") := by decide
  have status : str "vote" ≠ str "status" := by decide
  have close : ¬ isCloseAction (str "vote") := by decide
  have validity := pollLabelIsValid_case case'
  generalize asked : { request with username := user.name, action := str "vote", choice := optionIndex + 1 } = vote
  have action : vote.action = str "vote" := by rw [← asked]
  have choice : vote.choice = optionIndex + 1 := by rw [← asked]
  have label' : vote.label = request.label := by rw [← asked]
  rw [NamedHost.apply, NamedHost.apply, jsonApiHandleVoteRequest, action, label', if_neg list]
  cases valid : pollLabelIsValid request.label.text with
  | false =>
    rw [valid] at validity
    have session : (sessionHandleNamedVote host user optionIndex label).host = host ∧
        (sessionHandleNamedVote host user optionIndex label).accepted = false := by
      rw [sessionHandleNamedVote]
      rw [if_pos validity.symm]
      split_ifs <;> exact ⟨rfl, rfl⟩
    rw [session.1, session.2, if_pos rfl]
    split_ifs <;> rfl
  | true =>
    rw [valid] at validity
    have some' : request.label.text ≠ [] := by
      intro empty
      rw [empty] at valid
      exact absurd valid (by decide)
    have named : label ≠ [] := by
      intro empty
      rw [empty] at validity
      exact absurd validity (by decide)
    obtain ⟨hosts, accepted⟩ := jsonNamedVote_eq host user vote (by rw [choice]; exact Nat.succ_ne_zero _)
      (by rw [← asked]) named validity.symm (by rw [label']; exact find_case case')
    rw [if_neg some', if_neg Bool.noConfusion, if_neg status, if_neg close, if_pos (.inl rfl), hosts, accepted,
      choice]
    rfl

/-- In every run from a new host the votes of an option are the voters who chose it, the voters differ in their names
and are few, a refused command changes nothing, and the two vote handlers agree. -/
theorem named_poll_tallies (commands : List NamedCommand) :
    let host := run NamedHost.step .fresh commands
    (∀ slot,
      let entry := host slot
      (∀ option < entry.poll.optionCount, entry.poll.votesOf option = entry.voters.countP (picked entry.poll option)) ∧
        (entry.poll.allowMultiple → ∀ voter ∈ entry.voters, voter.choicesMask ≠ 0) ∧
        entry.voters.Pairwise (fun first second => sameIgnoringCase first.username second.username = false) ∧
        entry.voters.length ≤ maxNamedVoters) ∧
      (∀ command, (host.apply command).2 = false → (host.apply command).1 = host) ∧
      ∀ (user : SessionUser) (request : JsonRequest) (optionIndex : Nat) (label : Bytes),
        sameIgnoringCase (trimSpace (label.take (pollLabelLen - 1))) request.label.text →
        host.apply (.jsonPoll { request with username := user.name, action := str "vote", choice := optionIndex + 1 }) =
          host.apply (.sessionVote user optionIndex label) := by
  intro host
  have sound : HostSound host :=
    run_invariant NamedHost.step HostSound (fun _ command sound => (named_apply_sound sound command).sound)
      named_fresh_sound commands
  refine ⟨?_, fun command => (named_apply_sound sound command).refused, vote_agree host⟩
  intro slot
  have here := sound slot
  refine ⟨here.counted, here.masks, ?_, here.few⟩
  apply (pairwise_map.mp here.distinct).imp
  intro first second differs
  exact decide_eq_false differs

def someUser : SessionUser := ⟨⟨str "ann", by decide⟩, ⟨str "10.0.0.2", by decide⟩, false, false⟩

def someRequest : JsonRequest where
  username := someUser.name
  action := str "vote"
  label := ⟨str "LUNCH", by decide⟩
  question := ⟨[], by decide⟩
  options := []
  choice := 2
  hasChoice := true
  allowMultiple := false
  isOperator := false
  fits := Nat.zero_le _

/-- A vote over the JSON interface is the vote of the session. -/
theorem named_poll_tallies_lunch :
    sameIgnoringCase (trimSpace ((str " lunch").take (pollLabelLen - 1))) someRequest.label.text ∧
      let host := run NamedHost.step .fresh [.sessionPoll someUser (str "lunch Where?|here|there") true]
      host.apply (.jsonPoll { someRequest with username := someUser.name, action := str "vote", choice := 1 + 1 }) =
        host.apply (.sessionVote someUser 1 (str " lunch")) ∧
      (host.step (.sessionVote someUser 1 (str " lunch")) ⟨0, by decide⟩).poll.votesOf 1 = 1 := by
  have same : sameIgnoringCase (trimSpace ((str " lunch").take (pollLabelLen - 1))) someRequest.label.text := by
    decide +kernel
  exact ⟨same, (named_poll_tallies [.sessionPoll someUser (str "lunch Where?|here|there") true]).2.2 someUser
    someRequest 1 (str " lunch") same, by decide +kernel⟩

end Runs

end SshChatter.Polls
