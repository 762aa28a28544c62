import SshChatter.Ddial.MemberCommand

namespace SshChatter.Ddial
open CString DdialProtocol

/-- The saved handle that a text asks to activate. -/
def reference (text : Bytes) : Option (Fin 9) :=
  match skipWs text with
  | [c] => if 49 ≤ c ∧ c ≤ 57 then some (savedSlot c) else none
  | _ => none

section References

variable {text : Bytes} {slot : Fin 9}

theorem reference_some : reference text = some slot ↔ ∃ c, skipWs text = [c] ∧ 49 ≤ c ∧ c ≤ 57 ∧
    savedSlot c = slot := by
  rw [reference]
  split
  · rename_i c words
    simp only [words, List.cons.injEq, and_true, exists_eq_left', Option.ite_none_right_eq_some, Option.some.injEq,
      and_assoc]
  · rename_i other
    apply iff_of_false
    · simp
    · rintro ⟨c, words, -⟩
      exact other c words

theorem reference_nil : reference [] = none := rfl

/-- A text that is no single saved digit asks for no saved handle. -/
theorem reference_none {c : UInt8} {rest : Bytes} (words : skipWs text = c :: rest)
    (other : ¬ (49 ≤ c ∧ c ≤ 57 ∧ rest = [])) : reference text = none := by
  rw [Option.eq_none_iff_forall_ne_some]
  intro slot asked
  obtain ⟨d, words', low, high, -⟩ := reference_some.mp asked
  rw [words] at words'
  obtain ⟨rfl, rfl⟩ := List.cons.inj words'
  exact other ⟨low, high, rfl⟩

end References

section Steps

/-- The session may take the handle: only a member takes one with colours, it is not empty, and nobody else owns or
carries it. -/
structure Takable (members : List Member) (sess : MvSession) (inUse : Bytes → Bool) (arg : Bytes) : Prop where
  member : arg.head? = some (byte '#') → sess.memberNo ≠ 0
  some' : askedHandle arg ≠ []
  mine : memberOwnerOf members (askedHandle arg) = 0 ∨ memberOwnerOf members (askedHandle arg) = sess.memberNo
  free : inUse (askedHandle arg) = false

def Member.renamed (m : Member) (arg : Bytes) : Member :=
  { m with
    handle := .print (askedHandle arg),
    handleColor := .print (if arg.head? = some (byte '#') then arg else []) }

/-- What taking a handle can do: it is refused, or it is taken, and the record of a member keeps it. -/
inductive TakeStep (members : List Member) (sess : MvSession) (inUse : Bytes → Bool) (arg : Bytes) :
    List Member × CommandResult → Prop where
  | refused (reply : Bytes) : TakeStep members sess inUse arg (members, ⟨.nothing, reply⟩)
  | taken (takable : Takable members sess inUse arg)
      (unkept : sess.memberNo = 0 ∨ sess.memberNo ≠ 0 ∧ findNo members sess.memberNo = none) (reply : Bytes) :
      TakeStep members sess inUse arg (members, ⟨.rename (askedHandle arg), reply⟩)
  | kept (takable : Takable members sess inUse arg) (member : sess.memberNo ≠ 0) (old : Member)
      (found : findNo members sess.memberNo = some old) (reply : Bytes) :
      TakeStep members sess inUse arg ((memberPut members (old.renamed arg)).1, ⟨.rename (askedHandle arg), reply⟩)

def AnswersAtOnce (members : List Member) (sess : MvSession) (arg : Bytes) : Prop :=
  sess.memberNo = 0 ∨ findNo members sess.memberNo = none ∨ reference arg = none ∨
    ∃ m slot, findNo members sess.memberNo = some m ∧ reference arg = some slot ∧ (m.savedHandles slot).text = []

/-- What one call of the command can do: it answers, saves a handle, calls itself with a saved handle, or takes its
argument as the handle. -/
inductive HandleStep (derive : Derive) (members : List Member) (sess : MvSession) (inUse : Bytes → Bool) (depth : Nat)
    (arg : Bytes) : List Member × CommandResult → Prop where
  | answered (atOnce : AnswersAtOnce members sess arg) (reply : Bytes) :
      HandleStep derive members sess inUse depth arg (members, ⟨.nothing, reply⟩)
  | saved (other : reference arg = none) (m : Member) (found : findNo members sess.memberNo = some m)
      (handles : Fin 9 → CText 31) (reply : Bytes) :
      HandleStep derive members sess inUse depth arg
        ((memberPut members { m with savedHandles := handles }).1, ⟨.nothing, reply⟩)
  | again (m : Member) (slot : Fin 9) (member : sess.memberNo ≠ 0) (found : findNo members sess.memberNo = some m)
      (asked : reference arg = some slot) (filled : (m.savedHandles slot).text ≠ []) :
      HandleStep derive members sess inUse depth arg
        ((cmdHandle sess inUse depth (m.savedHandles slot).text).run (memberExec derive) members)
  | taking (other : reference arg = none) :
      HandleStep derive members sess inUse depth arg ((takeHandle sess inUse (skipWs arg)).run
        (memberExec derive) members)

variable (derive : Derive) (members : List Member) (sess : MvSession) (inUse : Bytes → Bool)

theorem takeHandle_step (arg : Bytes) :
    TakeStep members sess inUse arg ((takeHandle sess inUse arg).run (memberExec derive) members) := by
  rw [takeHandle]
  by_cases guest : arg.head? = some (byte '#') ∧ sess.memberNo = 0
  · rw [if_pos guest]
    exact .refused _
  rw [if_neg guest]
  by_cases invalid : askedHandle arg = []
  · rw [if_pos invalid]
    exact .refused _
  rw [if_neg invalid, run_ownerOf]
  by_cases owned : memberOwnerOf members (askedHandle arg) ≠ 0 ∧ memberOwnerOf members (askedHandle arg) ≠ sess.memberNo
  · rw [if_pos owned]
    exact .refused _
  rw [if_neg owned]
  by_cases carried : inUse (askedHandle arg)
  · rw [if_pos carried]
    exact .refused _
  rw [if_neg carried]
  have takable : Takable members sess inUse arg :=
    { member := fun colored none' => guest ⟨colored, none'⟩
      some' := invalid
      mine := by rwa [not_and_or, not_not, not_not] at owned
      free := by simpa using carried }
  by_cases none' : sess.memberNo = 0
  · rw [if_pos none']
    exact .taken takable (.inl none') _
  · rw [if_neg none', run_get]
    cases found : findNo members sess.memberNo with
    | none => exact .taken takable (.inr ⟨none', found⟩) _
    | some old => exact .kept takable none' old found _

theorem cmdHandle_step (depth : Nat) (arg : Bytes) :
    HandleStep derive members sess inUse depth arg
      ((cmdHandle sess inUse (depth + 1) arg).run (memberExec derive) members) := by
  rw [cmdHandle]
  cases words : skipWs arg with
  | nil => exact .answered (.inr (.inr (.inl (by simp [reference, words])))) _
  | cons c rest =>
    dsimp only
    by_cases question : c = byte '?'
    · have other : reference arg = none := reference_none words fun digit => by
        rw [question] at digit
        exact absurd digit.2.1 (by decide)
      split_ifs with guest
      · exact .answered (.inl guest) _
      · rw [run_get]
        cases findNo members sess.memberNo <;> exact .answered (.inr (.inr (.inl other))) _
    rw [if_neg question]
    by_cases saved : 49 ≤ c ∧ c ≤ 57 ∧ (rest = [] ∨ rest.head? = some (byte '='))
    · rw [if_pos saved]
      split_ifs with guest
      · exact .answered (.inl guest) _
      rw [run_get]
      cases found : findNo members sess.memberNo with
      | none => exact .answered (.inr (.inl found)) _
      | some m =>
        cases rest with
        | cons => exact .saved (reference_none words (by simp)) m found _ _
        | nil =>
          have asked : reference arg = some (savedSlot c) := reference_some.mpr ⟨c, words, saved.1, saved.2.1, rfl⟩
          dsimp only
          split_ifs with empty
          · exact .answered (.inr (.inr (.inr ⟨m, savedSlot c, found, asked, empty⟩))) _
          · exact .again m (savedSlot c) guest found asked empty
    · have other : reference arg = none := reference_none words fun digit => saved ⟨digit.1, digit.2.1, .inl digit.2.2⟩
      rw [if_neg saved, ← words]
      exact .taking other

end Steps

end SshChatter.Ddial
