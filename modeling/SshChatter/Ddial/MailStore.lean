import SshChatter.Ddial.MemberRoll
import SshChatter.Lib.SlotCompaction

namespace SshChatter.Ddial
open CString List

/-- The array of messages with their count, and the next identifier. -/
structure MailStore where
  cells : List Mail
  count : Nat
  nextId : UInt32
  length : cells.length = mailMax
  within : count ≤ mailMax

def MailStore.mails (store : MailStore) : List Mail := store.cells.take store.count

def MailStore.empty : MailStore := ⟨replicate mailMax Mail.zero, 0, 1, length_replicate, Nat.zero_le _⟩

/-- What a loop over the messages has done: the cells, the write position and the messages that it has seen. -/
structure Sweep where
  cells : List Mail
  keep : Nat
  seen : List Mail

/-- One turn of the loops of `ddial_mail_visit` and `ddial_mail_delete`. A hit is seen, and it is dropped when the loop
consumes. -/
def sweepTurn (hit : Mail → Bool) (consume : Bool) (state : Sweep) (i : Nat) : Sweep :=
  match state.cells[i]? with
  | none => state
  | some m =>
    let seen := if hit m then state.seen ++ [m] else state.seen
    if hit m ∧ consume then { state with seen := seen }
    else
      { cells := if state.keep ≠ i then state.cells.set state.keep m else state.cells
        keep := state.keep + 1
        seen := seen }

/-- The loop over the first cells. -/
def sweep (hit : Mail → Bool) (consume : Bool) (cells : List Mail) (count : Nat) : Sweep :=
  (range count).foldl (sweepTurn hit consume) ⟨cells, 0, []⟩

section Sweeping

variable {hit : Mail → Bool} {consume : Bool} {cells : List Mail} {count : Nat}

theorem sweepTurn_step (state : Sweep) (i : Nat) :
    ((sweepTurn hit consume state i).cells, (sweepTurn hit consume state i).keep) =
      Compaction.step (fun m => !(hit m && consume)) (state.cells, state.keep) i := by
  rw [sweepTurn, Compaction.step]
  cases here : state.cells[i]? with
  | none => rfl
  | some m =>
    by_cases dropped : hit m ∧ consume
    · simp [dropped]
    · have kept : (!(hit m && consume)) := by
        cases taken : hit m <;> simp_all
      simp only [if_neg dropped, kept]
      by_cases moved : state.keep = i
      · obtain ⟨inside, rfl⟩ := List.getElem?_eq_some_iff.mp here
        simp [moved]
      · simp [moved]

theorem sweep_compact : ((sweep hit consume cells count).cells, (sweep hit consume cells count).keep) =
    Compaction.compact (fun m => !(hit m && consume)) cells count := by
  rw [sweep, Compaction.compact]
  induction count with
  | zero => rfl
  | succ count ih =>
    rw [range_succ, foldl_append, foldl_append, ← ih]
    exact sweepTurn_step _ count

theorem sweep_kept (hit : Mail → Bool) (consume : Bool) (within : count ≤ cells.length) :
    (sweep hit consume cells count).cells.take (sweep hit consume cells count).keep =
        (cells.take count).filter (fun m => !(hit m && consume)) ∧
      (sweep hit consume cells count).keep ≤ count ∧ (sweep hit consume cells count).cells.length = cells.length := by
  have progress := Compaction.progress_range (fun m => !(hit m && consume)) cells within
  rw [← sweep_compact] at progress
  exact ⟨progress.written, progress.behind, progress.length⟩

/-- The hits are seen in order, although cells in front of them have moved. -/
theorem sweep_seen (within : count ≤ cells.length) :
    (sweep hit consume cells count).seen = (cells.take count).filter hit := by
  induction count with
  | zero => rfl
  | succ count ih =>
    have earlier := ih (by omega)
    have progress := Compaction.progress_range (fun m => !(hit m && consume)) cells (Nat.le_of_succ_le within)
    rw [← sweep_compact] at progress
    have here : (sweep hit consume cells count).cells[count]? = cells[count]? := by
      have front := congrArg (·[0]?) progress.ahead
      simpa only [getElem?_drop, add_zero] using front
    have inside : count < cells.length := by omega
    rw [getElem?_eq_getElem inside] at here
    have turn : sweep hit consume cells (count + 1) = sweepTurn hit consume (sweep hit consume cells count) count := by
      simp [sweep, range_succ]
    have grown : cells.take (count + 1) = cells.take count ++ [cells[count]] := by simp
    rw [turn, grown, filter_append, ← earlier, sweepTurn, here]
    by_cases found : hit cells[count] <;> cases consume <;> simp [found]

/-- A loop that does not consume writes nothing. -/
theorem sweep_idle (hit : Mail → Bool) (within : count ≤ cells.length) :
    (sweep hit false cells count).cells = cells ∧ (sweep hit false cells count).keep = count := by
  induction count with
  | zero => exact ⟨rfl, rfl⟩
  | succ count ih =>
    obtain ⟨same, place⟩ := ih (by omega)
    have inside : count < cells.length := by omega
    have turn : sweep hit false cells (count + 1) = sweepTurn hit false (sweep hit false cells count) count := by
      simp [sweep, range_succ]
    rw [turn, sweepTurn, same, getElem?_eq_getElem inside]
    simp [place]

end Sweeping

/-- The message that `ddial_mail_send` writes. -/
def newMail (id toNumber fromNumber : UInt32) (fromHandle : Option Bytes) (sent : Int) (text : Bytes) (offline : Bool) :
    Mail :=
  { id := id, toNumber := toNumber, fromNumber := fromNumber, fromHandle := .print (fromHandle.getD (str "?")),
    sent := sent, offline := offline, text := .print text }

/-- This is `ddial_mail_send`. It returns the identifier of the message, or zero. -/
def mailSend (store : MailStore) (members : List Member) (toNumber fromNumber : UInt32) (fromHandle : Option Bytes)
    (text : Bytes) (offline : Bool) (now : Int) : MailStore × UInt32 :=
  if accepts : (findNo members toNumber).isSome ∧ store.count < mailMax then
    ({ cells := store.cells.set store.count (newMail store.nextId toNumber fromNumber fromHandle now text offline)
       count := store.count + 1
       nextId := store.nextId + 1
       length := length_set.trans store.length
       within := accepts.2 }, store.nextId)
  else (store, 0)

/-- The kind of messages that `ddial_mail_visit` looks for. -/
def visits (toNumber : UInt32) (offline : Bool) (m : Mail) : Bool := m.toNumber = toNumber && m.offline = offline

/-- The mailbox messages that `ddial_mail_delete` names. -/
def deletes (toNumber id : UInt32) (m : Mail) : Bool :=
  m.toNumber = toNumber && !m.offline && (id = 0 || m.id = id)

theorem sweep_bounds (store : MailStore) (hit : Mail → Bool) (consume : Bool) :
    (sweep hit consume store.cells store.count).cells.length = mailMax ∧
      (sweep hit consume store.cells store.count).keep ≤ mailMax := by
  have kept := (sweep_kept hit consume (store.within.trans store.length.ge)).2
  exact ⟨kept.2.trans store.length, kept.1.trans store.within⟩

/-- This is `ddial_mail_visit`. It returns the messages that the callback is called with, if there is one, and their
number. -/
def mailVisit (store : MailStore) (toNumber : UInt32) (offline consume callback : Bool) : MailStore × List Mail × Nat :=
  let final := sweep (visits toNumber offline) consume store.cells store.count
  ({ cells := final.cells
     count := if consume ∧ final.keep ≠ store.count then final.keep else store.count
     nextId := store.nextId
     length := (sweep_bounds store _ _).1
     within := by
       split_ifs
       · exact (sweep_bounds store _ _).2
       · exact store.within }, if callback then final.seen else [], final.seen.length)

/-- This is `ddial_mail_delete`. It returns the number of messages that it has removed. -/
def mailDelete (store : MailStore) (toNumber id : UInt32) : MailStore × Nat :=
  let final := sweep (deletes toNumber id) true store.cells store.count
  ({ cells := final.cells
     count := if 0 < final.seen.length then final.keep else store.count
     nextId := store.nextId
     length := (sweep_bounds store _ _).1
     within := by
       split_ifs
       · exact (sweep_bounds store _ _).2
       · exact store.within }, final.seen.length)

section Operations

variable (store : MailStore)

variable {members : List Member}

/-- A message is appended when the recipient is a member and there is room. -/
theorem mailSend_mails {toNumber : UInt32} (accepts : (findNo members toNumber).isSome ∧ store.count < mailMax)
    (fromNumber : UInt32) (fromHandle : Option Bytes) (text : Bytes) (offline : Bool) (now : Int) :
    (mailSend store members toNumber fromNumber fromHandle text offline now).1.mails =
        store.mails ++ [newMail store.nextId toNumber fromNumber fromHandle now text offline] ∧
      (mailSend store members toNumber fromNumber fromHandle text offline now).1.nextId = store.nextId + 1 ∧
      (mailSend store members toNumber fromNumber fromHandle text offline now).2 = store.nextId := by
  have room : store.count < store.cells.length := by
    rw [store.length]
    exact accepts.2
  rw [mailSend, dif_pos accepts]
  refine ⟨?_, rfl, rfl⟩
  show (store.cells.set store.count _).take (store.count + 1) = store.cells.take store.count ++ [_]
  rw [take_add_one, take_set_of_le le_rfl, getElem?_set_self room]
  rfl

theorem mailSend_refused {toNumber : UInt32}
    (refused : ¬ ((findNo members toNumber).isSome ∧ store.count < mailMax)) (fromNumber : UInt32)
    (fromHandle : Option Bytes) (text : Bytes) (offline : Bool) (now : Int) :
    mailSend store members toNumber fromNumber fromHandle text offline now = (store, 0) :=
  dif_neg refused

/-- The messages behind a loop that consumes. The count is left alone when nothing was seen. -/
theorem sweep_mails (hit : Mail → Bool) {count : Nat}
    (counted : count = (sweep hit true store.cells store.count).keep ∨ count = store.count ∧
      (sweep hit true store.cells store.count).keep = store.count) :
    (sweep hit true store.cells store.count).cells.take count = store.mails.filter fun m => !hit m := by
  have kept := (sweep_kept hit true (store.within.trans store.length.ge)).1
  simp only [Bool.and_true] at kept
  rcases counted with rfl | ⟨rfl, same⟩
  · exact kept
  · rw [same] at kept
    exact kept

/-- A loop that consumes and sees nothing keeps every message. -/
theorem sweep_unseen {hit : Mail → Bool} (unseen : (sweep hit true store.cells store.count).seen = []) :
    (sweep hit true store.cells store.count).keep = store.count := by
  have within := store.within.trans store.length.ge
  obtain ⟨kept, behind, size⟩ := sweep_kept hit true within
  rw [sweep_seen within, filter_eq_nil_iff] at unseen
  have all : (store.cells.take store.count).filter (fun m => !(hit m && true)) = store.cells.take store.count := by
    rw [filter_eq_self]
    intro m member
    simpa using unseen m member
  have lengths := congrArg length (kept.trans all)
  simp only [length_take] at lengths
  omega

/-- A visit calls back the messages of its kind. It removes them when it consumes, and otherwise changes nothing. -/
theorem mailVisit_spec (toNumber : UInt32) (offline consume callback : Bool) :
    (mailVisit store toNumber offline consume callback).2 =
        (if callback then store.mails.filter (visits toNumber offline) else [],
          (store.mails.filter (visits toNumber offline)).length) ∧
      (consume → (mailVisit store toNumber offline consume callback).1.mails =
        store.mails.filter fun m => !visits toNumber offline m) ∧
      (consume = false → (mailVisit store toNumber offline consume callback).1 = store) := by
  have within := store.within.trans store.length.ge
  refine ⟨?_, ?_, ?_⟩
  · rw [mailVisit, sweep_seen within]
    rfl
  · rintro rfl
    apply sweep_mails
    by_cases changed : (sweep (visits toNumber offline) true store.cells store.count).keep = store.count
    · exact .inr ⟨if_neg fun both => both.2 changed, changed⟩
    · exact .inl (if_pos ⟨rfl, changed⟩)
  · rintro rfl
    obtain ⟨same, place⟩ := sweep_idle (visits toNumber offline) within
    simp [mailVisit, same]

theorem mailDelete_spec (toNumber id : UInt32) :
    (mailDelete store toNumber id).1.mails = store.mails.filter (fun m => !deletes toNumber id m) ∧
      (mailDelete store toNumber id).2 = (store.mails.filter (deletes toNumber id)).length := by
  have within := store.within.trans store.length.ge
  constructor
  · apply sweep_mails
    by_cases seen : 0 < (sweep (deletes toNumber id) true store.cells store.count).seen.length
    · exact .inl (if_pos seen)
    · refine .inr ⟨if_neg seen, sweep_unseen store ?_⟩
      exact length_eq_zero_iff.mp (Nat.eq_zero_of_not_pos seen)
  · exact congrArg length (sweep_seen within)

end Operations

end SshChatter.Ddial
