import SshChatter.Lib.SlotCompaction
import SshChatter.Polls.VoteFile

namespace SshChatter.Polls
open CString FixedCodec RecordLayout RecordStream SlotTable List

section Storable

/-- A string that an array of a size holds. -/
def Printed (size : Nat) (shown : Bytes) : Prop := shown.length < size ∧ 0 ∉ shown

/-- The members of a `poll_state_t` are in the range of their types. -/
structure PollState.Storable (poll : PollState) : Prop where
  id : poll.id < 2 ^ 64
  question : Printed messageLimit poll.question
  few : poll.options.length ≤ maxOptions
  options : ∀ entry ∈ poll.options, Printed messageLimit entry.text ∧ entry.votes < 2 ^ 32

structure Voter.Storable (voter : Voter) : Prop where
  username : Printed usernameLen voter.username
  choice : -2 ^ 31 ≤ voter.choice ∧ voter.choice < 2 ^ 31

/-- The members of a `named_poll_state_t` are in the range of their types. -/
structure NamedPoll.Storable (entry : NamedPoll) : Prop where
  poll : entry.poll.Storable
  label : Printed pollLabelLen entry.label
  owner : Printed usernameLen entry.owner
  few : entry.voters.length ≤ maxNamedVoters
  voters : ∀ voter ∈ entry.voters, voter.Storable

structure VoteHost.Storable (host : VoteHost) : Prop where
  main : host.main.poll.Storable
  named : ∀ slot, (host.named slot).Storable

variable {size : Nat} {shown : Bytes}

theorem Printed.empty (positive : 0 < size) : Printed size [] := ⟨positive, not_mem_nil⟩

theorem Printed.printTo (printed : Printed size shown) : printTo size shown = shown :=
  take_of_length_le (Nat.le_sub_one_of_lt printed.1)

theorem printed_printTo (positive : 0 < size) (plain : 0 ∉ shown) : Printed size (Polls.printTo size shown) := by
  refine ⟨?_, fun inside => plain (mem_of_mem_take inside)⟩
  rw [Polls.printTo, length_take]
  omega

theorem Printed.keeps (printed : Printed size shown) : (text (size - 1)).Keeps shown :=
  text_keeps (Nat.le_sub_one_of_lt printed.1) printed.2

theorem Voter.Storable.blank : Voter.Storable .blank := ⟨.empty (by decide), by decide, by decide⟩

end Storable

section Entries

variable {poll : PollState} {entry : NamedPoll}

theorem optionAt_storable (storable : poll.Storable) (idx : Nat) :
    Printed messageLimit (poll.optionAt idx).text ∧ (poll.optionAt idx).votes < 2 ^ 32 := by
  rw [PollState.optionAt, getD_eq_getElem?_getD]
  cases found : poll.options[idx]? with
  | none => exact ⟨.empty (by decide), by decide⟩
  | some entry => exact storable.options entry (mem_of_getElem? found)

theorem voterAt_storable (storable : entry.Storable) (idx : Nat) : (entry.voters.getD idx .blank).Storable := by
  rw [getD_eq_getElem?_getD]
  cases found : entry.voters[idx]? with
  | none => exact .blank
  | some voter => exact storable.voters voter (mem_of_getElem? found)

theorem optionCodec_keeps {option : PollOption} (text : Printed messageLimit option.text)
    (votes : option.votes < 2 ^ 32) : optionCodec.Keeps option := by
  apply Codec.Keeps.iso
  · exact text.keeps.pair (number_keeps votes)
  · rfl

theorem voterCodec_keeps {voter : Voter} (storable : voter.Storable) : voterCodec.Keeps voter := by
  have choice : (signed 4).Keeps voter.choice := by
    have range := storable.choice
    exact signed_keeps (by norm_num; omega) (by norm_num; omega)
  have mask : (number 4).Keeps voter.choicesMask.toNat := number_keeps voter.choicesMask.isLt
  have back : (⟨voter.username, voter.choice, BitVec.ofNat 32 voter.choicesMask.toNat⟩ : Voter) = voter := by
    rw [BitVec.ofNat_toNat, BitVec.setWidth_eq]
  apply Codec.Keeps.iso
  · exact storable.username.keeps.pair (choice.pair mask)
  · exact back

theorem exportPollEntry_keeps (storable : poll.Storable) : pollCodec.Keeps (exportPollEntry poll) := by
  have flag (value : Bool) : (number 1).Keeps (if value then 1 else 0) := by
    cases value <;> exact number_keeps (by decide)
  have count : (number 4).Keeps (exportPollEntry poll).optionCount := by
    have small := Nat.mod_lt poll.optionCount (by decide : 0 < 2 ^ 32)
    apply number_keeps
    dsimp only [exportPollEntry]
    split_ifs
    · decide
    · exact small
  have options : ∀ option ∈ (exportPollEntry poll).options, optionCodec.Keeps option := by
    intro option inside
    obtain ⟨idx, -, rfl⟩ := mem_map.mp inside
    obtain ⟨text, votes⟩ := optionAt_storable storable idx
    rw [text.printTo]
    exact optionCodec_keeps text votes
  have full : (exportPollEntry poll).options.length = maxOptions := by
    rw [exportPollEntry, length_map, length_range]
  have question : (text (messageLimit - 1)).Keeps (exportPollEntry poll).question := by
    rw [exportPollEntry, storable.question.printTo]
    exact storable.question.keeps
  apply Codec.Keeps.iso
  · exact ((flag poll.active).pair ((flag poll.allowMultiple).pair ((padding_keeps 6).pair
    ((number_keeps storable.id).pair (count.pair ((padding_keeps 4).pair (question.pair
      ((array_keeps PollOption.blank full options).pair (padding_keeps 4)))))))))
  · rfl

/-- A poll is copied to a record and back as it is. -/
theorem importPollEntry_export (storable : poll.Storable) : importPollEntry (exportPollEntry poll) = poll := by
  have small : poll.optionCount % 2 ^ 32 = poll.options.length :=
    Nat.mod_eq_of_lt (storable.few.trans_lt (by decide))
  have few : ¬ maxOptions < poll.options.length := Nat.not_lt_of_le storable.few
  have cut : ∀ option ∈ poll.options, (⟨printTo messageLimit option.text, option.votes⟩ : PollOption) = option := by
    intro option inside
    rw [(storable.options option inside).1.printTo]
  have copied : (exportPollEntry poll).options =
      ((range maxOptions).map poll.optionAt).map fun option => ⟨printTo messageLimit option.text, option.votes⟩ := by
    rfl
  have options : ((exportPollEntry poll).options.take poll.options.length).map
      (fun option => (⟨printTo messageLimit option.text, option.votes⟩ : PollOption)) = poll.options := by
    have filled := take_filled PollOption.blank storable.few
    rw [copied, ← map_take]
    unfold PollState.optionAt
    rw [filled, map_congr_left cut, map_id', map_congr_left cut, map_id']
  have count : (exportPollEntry poll).optionCount = poll.options.length := by
    dsimp only [exportPollEntry]
    rw [small, if_neg few]
  have active : (importPollEntry (exportPollEntry poll)).active = poll.active := by
    cases known : poll.active <;> simp [importPollEntry, exportPollEntry, known]
  have multiple : (importPollEntry (exportPollEntry poll)).allowMultiple = poll.allowMultiple := by
    cases known : poll.allowMultiple <;> simp [importPollEntry, exportPollEntry, known]
  have question : (importPollEntry (exportPollEntry poll)).question = poll.question := by
    rw [importPollEntry, exportPollEntry, storable.question.printTo, storable.question.printTo]
  have taken : (importPollEntry (exportPollEntry poll)).options = poll.options := by
    rw [importPollEntry, count, if_neg few, options]
  calc importPollEntry (exportPollEntry poll)
      = ⟨(importPollEntry (exportPollEntry poll)).active, poll.id, (importPollEntry (exportPollEntry poll)).question,
          (importPollEntry (exportPollEntry poll)).options, (importPollEntry (exportPollEntry poll)).allowMultiple⟩ :=
            rfl
    _ = poll := by rw [active, multiple, question, taken]

theorem namedCodec_keeps {record : NamedEntry} (poll : pollCodec.Keeps record.poll)
    (label : (text (pollLabelLen - 1)).Keeps record.label) (owner : (text (usernameLen - 1)).Keeps record.owner)
    (count : (number 4).Keeps record.voterCount)
    (voters : (voterCodec.array maxNamedVoters .blank).Keeps record.voters) : namedCodec.Keeps record := by
  apply Codec.Keeps.iso
  · exact poll.pair (label.pair (owner.pair (count.pair ((padding_keeps 4).pair voters))))
  · rfl

theorem exportNamedEntry_keeps (storable : entry.Storable) : namedCodec.Keeps (exportNamedEntry entry) := by
  have poll : pollCodec.Keeps (exportNamedEntry entry).poll := exportPollEntry_keeps storable.poll
  have count : (number 4).Keeps (exportNamedEntry entry).voterCount := by
    have small := Nat.mod_lt entry.voters.length (by decide : 0 < 2 ^ 32)
    apply number_keeps
    dsimp only [exportNamedEntry]
    split_ifs
    · decide
    · exact small
  have voters : ∀ voter ∈ (exportNamedEntry entry).voters, voterCodec.Keeps voter := by
    intro voter inside
    obtain ⟨idx, -, rfl⟩ := mem_map.mp inside
    dsimp only
    have there := voterAt_storable storable idx
    rw [there.username.printTo]
    exact voterCodec_keeps there
  have full : (exportNamedEntry entry).voters.length = maxNamedVoters := by
    rw [exportNamedEntry, length_map, length_range]
  have label : (text (pollLabelLen - 1)).Keeps (exportNamedEntry entry).label := by
    rw [exportNamedEntry, storable.label.printTo]
    exact storable.label.keeps
  have owner : (text (usernameLen - 1)).Keeps (exportNamedEntry entry).owner := by
    rw [exportNamedEntry, storable.owner.printTo]
    exact storable.owner.keeps
  exact namedCodec_keeps poll label owner count (array_keeps Voter.blank full voters)

theorem importNamedEntry_export (storable : entry.Storable) : importNamedEntry (exportNamedEntry entry) = entry := by
  have small : entry.voters.length % 2 ^ 32 = entry.voters.length :=
    Nat.mod_eq_of_lt (storable.few.trans_lt (by decide))
  have few : ¬ maxNamedVoters < entry.voters.length := Nat.not_lt_of_le storable.few
  have cut : ∀ voter ∈ entry.voters, { voter with username := printTo usernameLen voter.username } = voter := by
    intro voter inside
    rw [(storable.voters voter inside).username.printTo]
  have copied : (exportNamedEntry entry).voters = ((range maxNamedVoters).map fun idx =>
      entry.voters.getD idx .blank).map fun voter => { voter with username := printTo usernameLen voter.username } := by
    rw [map_map]
    rfl
  have voters : ((exportNamedEntry entry).voters.take entry.voters.length).map
      (fun voter => { voter with username := printTo usernameLen voter.username }) = entry.voters := by
    rw [copied, ← map_take, take_filled Voter.blank storable.few, map_congr_left cut, map_id',
      map_congr_left cut, map_id']
  have count : (exportNamedEntry entry).voterCount = entry.voters.length := by
    dsimp only [exportNamedEntry]
    rw [small, if_neg few]
  rw [importNamedEntry, count, if_neg few, voters]
  dsimp only [exportNamedEntry]
  rw [importPollEntry_export storable.poll, storable.label.printTo, storable.label.printTo, storable.owner.printTo,
    storable.owner.printTo]

end Entries

section Load

variable {host old : VoteHost}

theorem labelled_length (named : NamedHost) : (labelled named).length ≤ maxNamedPolls := by
  refine (length_filter_le _ _).trans ?_
  rw [length_map, length_finRange]

/-- Each record goes to the slot of its number, and the other slots stay. -/
theorem handleAll_placeNamed (records : List NamedEntry) (idx : Nat) (named : NamedHost) (slot : Fin maxNamedPolls) :
    handleAll placeNamed idx records named slot =
      if slot.val < idx then named slot else ((records[slot.val - idx]?).map importNamedEntry).getD (named slot) := by
  induction records generalizing idx named with
  | nil =>
    split_ifs <;> rfl
  | cons record records ih =>
    have other (apart : slot.val ≠ idx) : placeNamed idx record named slot = named slot := by
      unfold placeNamed
      split_ifs with room
      · exact Function.update_of_ne (fun same => apart (congrArg Fin.val same)) _ _
      · rfl
    rw [handleAll, ih]
    rcases lt_trichotomy slot.val idx with before | here | behind
    · rw [if_pos (by omega), if_pos before, other (by omega)]
    · have room : idx < maxNamedPolls := here ▸ slot.isLt
      have place : slot = ⟨idx, room⟩ := Fin.ext here
      rw [if_pos (by omega), if_neg (by omega), here, Nat.sub_self, place, placeNamed, dif_pos room,
        Function.update_self]
      rfl
    · have index : slot.val - idx = slot.val - (idx + 1) + 1 := by omega
      rw [if_neg (by omega), if_neg (by omega), other (by omega), index, getElem?_cons_succ]

def restoredNamed (host old : VoteHost) :
    NamedHost := fun slot => ((labelled host.named)[slot.val]?).getD (old.named slot).reset

theorem restored_places (storable : host.Storable) (old : VoteHost) :
    handleAll placeNamed 0 ((labelled host.named).map exportNamedEntry) old.reset.named = restoredNamed host old := by
  funext slot
  rw [handleAll_placeNamed, getElem?_map, restoredNamed]
  cases found : (labelled host.named)[slot.val]? with
  | none => rfl
  | some =>
    have inside := (mem_filter.mp (mem_of_getElem? found)).1
    obtain ⟨place, -, rfl⟩ := mem_map.mp inside
    exact importNamedEntry_export (storable.named place)

theorem recount_restored (host old : VoteHost) :
    recountNamedPolls (restoredNamed host old) = (labelled host.named).countP fun entry => entry.poll.active := by
  have blank : ∀ slot : Fin maxNamedPolls,
      decide ((old.named slot).reset.label ≠ [] ∧ (old.named slot).reset.poll.active = true) = false := fun _ => rfl
  have front := countP_front (fun entry : NamedPoll => decide (entry.label ≠ [] ∧ entry.poll.active = true))
    (labelled_length host.named) (fun slot => (old.named slot).reset) blank
  refine front.trans (countP_congr ?_)
  intro entry inside
  have named : entry.label ≠ [] := by simpa using (mem_filter.mp inside).2
  simp [named]

theorem headerCodec_keeps (count : Nat) (few : count ≤ maxNamedPolls) :
    headerCodec.Keeps ⟨voteStateMagic, voteStateVersion, count, 0⟩ := by
  have magic : (number 4).Keeps voteStateMagic := number_keeps (by decide)
  have version : (number 4).Keeps voteStateVersion := number_keeps (by decide)
  have named : (number 4).Keeps count := number_keeps (few.trans_lt (by decide))
  have reserved : (number 4).Keeps 0 := number_keeps (by decide)
  apply Codec.Keeps.iso
  · exact magic.pair (version.pair (named.pair reserved))
  · rfl

/-- A saved file is loaded. -/
theorem loadVotes_saveVotes (storable : host.Storable) (old : VoteHost) :
    loadVotes (saveVotes host) old =
      ⟨{ old.main with poll := host.main.poll }, restoredNamed host old,
        (labelled host.named).countP fun entry => entry.poll.active⟩ := by
  have keeps : ∀ record ∈ (labelled host.named).map exportNamedEntry, namedCodec.Keeps record := by
    intro record inside
    obtain ⟨entry, member, rfl⟩ := mem_map.mp inside
    obtain ⟨place, -, rfl⟩ := mem_map.mp (mem_filter.mp member).1
    exact exportNamedEntry_keeps (storable.named place)
  have records := readUpTo_encode keeps []
  rw [append_nil, length_map] at records
  rw [loadVotes, saveVotes, readFrame_encode (headerCodec_keeps _ (labelled_length host.named))]
  dsimp only
  rw [readFrame_encode (exportPollEntry_keeps storable.main)]
  dsimp only
  rw [readLoop_eq, records, restored_places storable old, importPollEntry_export storable.main]
  dsimp only
  rw [recount_restored]
  rfl

/-- A front part of a saved file that is too short leaves all polls reset. -/
theorem loadVotes_cut {file : Bytes} (front : file <+: saveVotes host) (cut : file ≠ saveVotes host)
    (header : headerCodec.size ≤ file.length) (old : VoteHost) : (loadVotes file old).reset = loadVotes file old := by
  generalize rest : pollCodec.encode (exportPollEntry host.main.poll) ++
    ((labelled host.named).map exportNamedEntry).flatMap namedCodec.encode = body at *
  have whole : saveVotes host = headerCodec.encode ⟨voteStateMagic, voteStateVersion, (labelled host.named).length,
    0⟩ ++ body := by
    rw [saveVotes, rest]
  have bodyLength : body.length = pollCodec.size + (labelled host.named).length * namedCodec.size := by
    rw [← rest, length_append, pollCodec.whole, flatMap_encode_length, length_map]
  have headerLength := headerCodec.whole ⟨voteStateMagic, voteStateVersion, (labelled host.named).length, 0⟩
  have shorter : file.length < (saveVotes host).length :=
    front.length_le.lt_of_ne fun same => cut (front.eq_of_length same)
  obtain ⟨kept, split⟩ : ∃ kept, file =
      headerCodec.encode ⟨voteStateMagic, voteStateVersion, (labelled host.named).length, 0⟩ ++ kept := by
    have taken := prefix_iff_eq_take.mp front
    rw [whole, take_append, take_of_length_le (by omega)] at taken
    exact ⟨_, taken⟩
  have short : kept.length < pollCodec.size + (labelled host.named).length * namedCodec.size := by
    rw [whole, split, length_append, length_append] at shorter
    omega
  rw [split, loadVotes, readFrame_encode (headerCodec_keeps _ (labelled_length host.named))]
  dsimp only
  by_cases main : kept.length < pollCodec.size
  · rw [readFrame_short main]
    rfl
  · have long : readFrame pollCodec kept = some (pollCodec.decode (kept.take pollCodec.size),
      kept.drop pollCodec.size) :=
      if_neg main
    have missing := ((readFrame_sized namedCodec).readUpTo_complete (labelled host.named).length
      (kept.drop pollCodec.size)).2 (by rw [length_drop]; omega)
    rw [long]
    dsimp only
    rw [readLoop_eq, missing]
    rfl

end Load

end SshChatter.Polls
