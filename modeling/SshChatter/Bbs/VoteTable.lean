import SshChatter.Bbs.Served

namespace SshChatter.Bbs
open CString SlotTable List

section Counts

def Vote.key (vote : Vote) : Nat × Int × UserName := (vote.targetPostId, vote.targetCommentIdx, vote.voter)

def Vote.isFor (id : Nat) (index direction : Int) (vote : Vote) : Bool :=
  vote.targetPostId == id && vote.targetCommentIdx == index && vote.voteType == direction

def countVotes (votes : List Vote) (id : Nat) (index direction : Int) : Int := votes.countP (·.isFor id index direction)

/-- Each user has one vote on a target at most, and the votes have a direction and a position. -/
structure VotesSound (votes : List Vote) : Prop where
  single : (votes.map Vote.key).Nodup
  signs : ∀ vote ∈ votes, vote.voteType = 1 ∨ vote.voteType = -1
  places : ∀ vote ∈ votes, -1 ≤ vote.targetCommentIdx

variable {votes : List Vote} {vote : Vote} {slot id : Nat} {index direction : Int} {voter : UserName}

theorem Vote.isFor_iff : vote.isFor id index direction ↔
    vote.targetPostId = id ∧ vote.targetCommentIdx = index ∧ vote.voteType = direction := by
  rw [isFor, Bool.and_eq_true_iff, Bool.and_eq_true_iff, beq_iff_eq, beq_iff_eq, beq_iff_eq, and_assoc]

theorem countVotes_none (absent : ∀ vote ∈ votes, ¬ (vote.targetPostId = id ∧ vote.targetCommentIdx = index)) :
    countVotes votes id index direction = 0 := by
  have none' : votes.countP (·.isFor id index direction) = 0 := by
    rw [countP_eq_zero]
    intro vote inside counted
    obtain ⟨post, place, -⟩ := Vote.isFor_iff.mp counted
    exact absent vote inside ⟨post, place⟩
  rw [countVotes, none']
  rfl

theorem findVote_key (found : findVote votes id index voter = some slot) (here : votes[slot]? = some vote) :
    vote.key = (id, index, voter) := by
  obtain ⟨inside, same, -⟩ := findIdx?_eq_some_iff_getElem.mp found
  rw [getElem?_eq_getElem inside] at here
  rw [Option.some_inj.mp here, Bool.and_eq_true_iff, Bool.and_eq_true_iff, beq_iff_eq, beq_iff_eq, beq_iff_eq] at same
  rw [Vote.key, same.1.1, same.1.2, same.2]

theorem findVote_none (absent : findVote votes id index voter = none) :
    ∀ vote ∈ votes, vote.key ≠ (id, index, voter) := by
  intro vote inside same
  have unmatched := findIdx?_eq_none_iff.mp absent vote inside
  have post : vote.targetPostId = id := congrArg Prod.fst same
  have place : vote.targetCommentIdx = index := congrArg (fun key => key.2.1) same
  have user : vote.voter = voter := congrArg (fun key => key.2.2) same
  rw [post, place, user, beq_self_eq_true, beq_self_eq_true, beq_self_eq_true] at unmatched
  cases unmatched

end Counts

section Casting

variable {host : BbsHost} {id slot : Nat} {index direction now : Int} {voter : UserName} {before : Option Int}
  {votes : List Vote} {vote : Vote}

/-- What the table of votes holds when a vote was cast. -/
structure Recorded (host : BbsHost) (id : Nat) (index : Int) (voter : UserName) (direction : Int) (before : Option Int)
    (votes : List Vote) : Prop where
  sound : VotesSound votes
  here : ∃ vote ∈ votes, vote.key = (id, index, voter) ∧ vote.voteType = direction
  others : ∀ id' index' direction', ¬ (id' = id ∧ index' = index) →
    countVotes votes id' index' direction' = countVotes host.votes id' index' direction'
  gained : countVotes votes id index direction = countVotes host.votes id index direction + 1
  lost : countVotes votes id index (-direction) =
    countVotes host.votes id index (-direction) - (if before.isSome then 1 else 0)
  earlier : ∀ old, before = some old → old = -direction
  targets : ∀ vote ∈ votes, (vote.targetPostId = id ∧ vote.targetCommentIdx = index) ∨
    ∃ old ∈ host.votes, old.targetPostId = vote.targetPostId ∧ old.targetCommentIdx = vote.targetCommentIdx

theorem recorded_switched (sound : VotesSound host.votes) (sign : direction = 1 ∨ direction = -1)
    (found : findVote host.votes id index voter = some slot) (here : host.votes[slot]? = some vote)
    (other : vote.voteType ≠ direction) : Recorded host id index voter direction (some vote.voteType)
      (host.votes.modify slot fun vote => { vote with voteType := direction }) := by
  have inside := (List.getElem?_eq_some_iff.mp here).1
  obtain ⟨front, middle, back, split, length, modified⟩ :=
    exists_of_modify (fun vote : Vote => { vote with voteType := direction }) inside
  have same : middle = vote := by
    rw [split, getElem?_append_right (Nat.le_of_eq length), length, Nat.sub_self] at here
    exact Option.some_inj.mp here
  rw [same] at split modified
  have key := findVote_key found here
  have post : vote.targetPostId = id := congrArg Prod.fst key
  have place : vote.targetCommentIdx = index := congrArg (fun key => key.2.1) key
  have member : vote ∈ host.votes := mem_of_getElem? here
  have opposite : vote.voteType = -direction := by
    rcases sound.signs vote member with up | down
    · rcases sign with same' | same' <;> omega
    · rcases sign with same' | same' <;> omega
  have counts (id' : Nat) (index' direction' : Int) :
      countVotes (front ++ { vote with voteType := direction } :: back) id' index' direction' +
          (if vote.isFor id' index' direction' then 1 else 0) =
        countVotes host.votes id' index' direction' +
          (if ({ vote with voteType := direction } : Vote).isFor id' index' direction' then 1 else 0) := by
    rw [countVotes, countVotes, split, countP_append, countP_append, countP_cons, countP_cons]
    split_ifs <;> omega
  rw [modified]
  refine ⟨⟨?_, ?_, ?_⟩, ?_, ?_, ?_, ?_, ?_, ?_⟩
  · have single := sound.single
    rw [split, map_append] at single
    rwa [map_append]
  · intro other' member'
    rcases mem_append.mp member' with front' | rest
    · exact sound.signs other' (split ▸ mem_append_left _ front')
    · rcases mem_cons.mp rest with rfl | back'
      · exact sign
      · exact sound.signs other' (split ▸ mem_append_right _ (mem_cons_of_mem _ back'))
  · intro other' member'
    rcases mem_append.mp member' with front' | rest
    · exact sound.places other' (split ▸ mem_append_left _ front')
    · rcases mem_cons.mp rest with rfl | back'
      · exact sound.places vote member
      · exact sound.places other' (split ▸ mem_append_right _ (mem_cons_of_mem _ back'))
  · exact ⟨{ vote with voteType := direction }, mem_append_right _ mem_cons_self, key, rfl⟩
  · intro id' index' direction' away
    have count := counts id' index' direction'
    have unseen (kind : Int) : ({ vote with voteType := kind } : Vote).isFor id' index' direction' ≠ true := by
      intro seen
      obtain ⟨post', place', -⟩ := Vote.isFor_iff.mp seen
      exact away ⟨post'.symm.trans post, place'.symm.trans place⟩
    rw [if_neg (unseen vote.voteType), if_neg (unseen direction)] at count
    omega
  · have count := counts id index direction
    have seen : ({ vote with voteType := direction } : Vote).isFor id index direction :=
      Vote.isFor_iff.mpr ⟨post, place, rfl⟩
    rw [if_neg fun before => other (Vote.isFor_iff.mp before).2.2, if_pos seen] at count
    omega
  · have count := counts id index (-direction)
    have unseen : ({ vote with voteType := direction } : Vote).isFor id index (-direction) ≠ true :=
      fun seen => other (opposite.trans (Vote.isFor_iff.mp seen).2.2.symm)
    rw [if_pos (Vote.isFor_iff.mpr ⟨post, place, opposite⟩), if_neg unseen] at count
    rw [Option.isSome_some, if_pos rfl]
    omega
  · intro old before'
    rw [← Option.some_inj.mp before']
    exact opposite
  · intro other' member'
    rcases mem_append.mp member' with front' | rest
    · exact Or.inr ⟨other', split ▸ mem_append_left _ front', rfl, rfl⟩
    · rcases mem_cons.mp rest with rfl | back'
      · exact Or.inl ⟨post, place⟩
      · exact Or.inr ⟨other', split ▸ mem_append_right _ (mem_cons_of_mem _ back'), rfl, rfl⟩

theorem recorded_added (sound : VotesSound host.votes) (sign : direction = 1 ∨ direction = -1) (atLeast : -1 ≤ index)
    (absent : findVote host.votes id index voter = none) (room : host.votes.length < host.voteCapacity) :
    Recorded host id index voter direction none (addVote host ⟨id, index, voter, direction, now⟩) := by
  have counts (id' : Nat) (index' direction' : Int) :
      countVotes (host.votes ++ [⟨id, index, voter, direction, now⟩]) id' index' direction' =
        countVotes host.votes id' index' direction' +
          (if (⟨id, index, voter, direction, now⟩ : Vote).isFor id' index' direction' then 1 else 0) := by
    rw [countVotes, countVotes, countP_append, countP_singleton]
    split_ifs <;> omega
  rw [addVote, if_pos room]
  refine ⟨⟨?_, ?_, ?_⟩, ?_, ?_, ?_, ?_, ?_, ?_⟩
  · rw [map_append]
    apply List.Nodup.append sound.single (nodup_singleton _)
    rw [disjoint_singleton]
    intro known
    obtain ⟨vote, inside, same⟩ := mem_map.mp known
    exact findVote_none absent vote inside same
  · intro vote inside
    rcases mem_append.mp inside with old | new
    · exact sound.signs vote old
    · rw [mem_singleton.mp new]
      exact sign
  · intro vote inside
    rcases mem_append.mp inside with old | new
    · exact sound.places vote old
    · rw [mem_singleton.mp new]
      exact atLeast
  · exact ⟨_, mem_append_right _ (mem_singleton_self _), rfl, rfl⟩
  · intro id' index' direction' away
    rw [counts, if_neg, add_zero]
    intro seen
    obtain ⟨post, place, -⟩ := Vote.isFor_iff.mp seen
    exact away ⟨post.symm, place.symm⟩
  · have seen : (⟨id, index, voter, direction, now⟩ : Vote).isFor id index direction :=
      Vote.isFor_iff.mpr ⟨rfl, rfl, rfl⟩
    rw [counts, if_pos seen]
  · rw [counts, if_neg, add_zero, Option.isSome_none, if_neg Bool.false_ne_true, sub_zero]
    intro seen
    have opposite : direction = -direction := (Vote.isFor_iff.mp seen).2.2
    rcases sign with same | same <;> omega
  · intro old before'
    cases before'
  · intro vote inside
    rcases mem_append.mp inside with old | new
    · exact Or.inr ⟨vote, old, rfl, rfl⟩
    · rw [mem_singleton.mp new]
      exact Or.inl ⟨rfl, rfl⟩

theorem Balloted.recorded (cast : Balloted host id index voter direction now before votes)
    (sound : VotesSound host.votes) (sign : direction = 1 ∨ direction = -1) (atLeast : -1 ≤ index)
    (room : findVote host.votes id index voter = none → host.votes.length < host.voteCapacity) :
    Recorded host id index voter direction before votes := by
  cases cast with
  | switched slot vote found here other => exact recorded_switched sound sign found here other
  | added absent => exact recorded_added sound sign atLeast absent (room absent)

end Casting

section Dropping

variable {votes : List Vote} {id removed : Nat}

/-- Where the votes on a position come from when a comment is gone. -/
def lifted (removed : Nat) (index : Int) : Int := if index < removed then index else index + 1

def dropVote (id removed : Nat) (vote : Vote) : Option Vote :=
  if vote.targetPostId = id then
    if vote.targetCommentIdx = (removed : Int) then none
    else if (removed : Int) < vote.targetCommentIdx then some
      { vote with targetCommentIdx := vote.targetCommentIdx - 1 }
    else some vote
  else some vote

theorem dropCommentVotes_eq (votes : List Vote) (id removed : Nat) :
    dropCommentVotes votes id removed = votes.filterMap (dropVote id removed) := rfl

/-- A vote that stays is about the same post and the position that its comment has now. -/
theorem dropVote_some {vote after : Vote} (kept : dropVote id removed vote = some after) :
    after.targetPostId = vote.targetPostId ∧ after.voter = vote.voter ∧ after.voteType = vote.voteType ∧
      (vote.targetPostId ≠ id → after.targetCommentIdx = vote.targetCommentIdx) ∧
      (vote.targetPostId = id → vote.targetCommentIdx = lifted removed after.targetCommentIdx) := by
  rw [dropVote] at kept
  split_ifs at kept with here gone behind
  · cases kept
    refine ⟨rfl, rfl, rfl, fun away => absurd here away, fun _ => ?_⟩
    rw [lifted]
    dsimp only
    omega
  · cases kept
    refine ⟨rfl, rfl, rfl, fun away => absurd here away, fun _ => ?_⟩
    rw [lifted, if_pos (by omega)]
  · cases kept
    exact ⟨rfl, rfl, rfl, fun _ => rfl, fun same => absurd same here⟩

theorem dropVote_none {vote : Vote} (gone : dropVote id removed vote = none) :
    vote.targetPostId = id ∧ vote.targetCommentIdx = removed := by
  rw [dropVote] at gone
  split_ifs at gone with here same
  exact ⟨here, same⟩

theorem countVotes_drop_other {id' : Nat} (away : id' ≠ id) (index direction : Int) :
    countVotes (dropCommentVotes votes id removed) id' index direction = countVotes votes id' index direction := by
  rw [dropCommentVotes_eq, countVotes, countP_filterMap]
  congr 1
  apply countP_congr
  intro vote _
  cases kept : dropVote id removed vote with
  | none =>
    have gone := dropVote_none kept
    refine iff_of_false (by simp) fun seen => ?_
    exact away ((Vote.isFor_iff.mp seen).1.symm.trans gone.1)
  | some =>
    obtain ⟨post, -, kind, still, -⟩ := dropVote_some kept
    simp only [Option.map_some, Option.getD_some, Vote.isFor_iff, post, kind]
    constructor
    · rintro ⟨same, place, sign⟩
      exact ⟨same, (still (same ▸ away)).symm.trans place, sign⟩
    · rintro ⟨same, place, sign⟩
      exact ⟨same, (still (same ▸ away)).trans place, sign⟩

/-- The votes on the comments behind move with them. -/
theorem countVotes_drop_here (index direction : Int) :
    countVotes (dropCommentVotes votes id removed) id index direction =
      countVotes votes id (lifted removed index) direction := by
  rw [dropCommentVotes_eq, countVotes, countP_filterMap]
  congr 1
  apply countP_congr
  intro vote _
  cases kept : dropVote id removed vote with
  | none =>
    have gone := (dropVote_none kept).2
    refine iff_of_false (by simp) fun seen => ?_
    have place := (Vote.isFor_iff.mp seen).2.1
    rw [lifted] at place
    split_ifs at place <;> omega
  | some =>
    obtain ⟨post, -, kind, -, moved⟩ := dropVote_some kept
    simp only [Option.map_some, Option.getD_some, Vote.isFor_iff, post, kind]
    constructor
    · rintro ⟨same, place, sign⟩
      exact ⟨same, by rw [moved same, place], sign⟩
    · rintro ⟨same, place, sign⟩
      refine ⟨same, ?_, sign⟩
      have equal := (moved same).symm.trans place
      rw [lifted, lifted] at equal
      split_ifs at equal <;> omega

theorem VotesSound.drop (sound : VotesSound votes) : VotesSound (dropCommentVotes votes id removed) where
  single := by
    rw [dropCommentVotes_eq, map_filterMap]
    have single := sound.single
    rw [List.Nodup, pairwise_map] at single
    rw [List.Nodup, pairwise_filterMap]
    apply single.imp
    intro first second apart after kept after' kept' same
    obtain ⟨a, dropped, rfl⟩ := Option.map_eq_some_iff.mp kept
    obtain ⟨b, dropped', rfl⟩ := Option.map_eq_some_iff.mp kept'
    obtain ⟨post, voter, -, still, moved⟩ := dropVote_some dropped
    obtain ⟨post', voter', -, still', moved'⟩ := dropVote_some dropped'
    have samePost : a.targetPostId = b.targetPostId := congrArg Prod.fst same
    have samePlace : a.targetCommentIdx = b.targetCommentIdx := congrArg (fun key => key.2.1) same
    have sameVoter : a.voter = b.voter := congrArg (fun key => key.2.2) same
    have posts : first.targetPostId = second.targetPostId := by rw [← post, ← post', samePost]
    have places : first.targetCommentIdx = second.targetCommentIdx := by
      by_cases here : first.targetPostId = id
      · rw [moved here, moved' (posts ▸ here), samePlace]
      · rw [← still here, ← still' (posts ▸ here), samePlace]
    exact apart (by rw [Vote.key, Vote.key, posts, places, ← voter, ← voter', sameVoter])
  signs vote inside := by
    obtain ⟨old, member, kept⟩ := mem_filterMap.mp inside
    rw [(dropVote_some kept).2.2.1]
    exact sound.signs old member
  places vote inside := by
    obtain ⟨old, member, kept⟩ := mem_filterMap.mp inside
    obtain ⟨-, -, -, still, moved⟩ := dropVote_some kept
    have atLeast := sound.places old member
    by_cases here : old.targetPostId = id
    · rw [moved here, lifted] at atLeast
      split_ifs at atLeast <;> omega
    · rw [still here]
      exact atLeast

end Dropping

end SshChatter.Bbs
