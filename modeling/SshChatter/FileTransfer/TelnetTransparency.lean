import SshChatter.FileTransfer.TelnetBinary

namespace SshChatter.Telnet
open CString List

def calls (stream : Bytes) : List (UInt8 × Bytes) :=
  match _returned : (binaryRead stream).value with
  | none => []
  | some byte => (byte, (binaryRead stream).rest) :: calls (binaryRead stream).rest
termination_by stream.length
decreasing_by exact binaryRead_length stream (by assumption)

/-- The calls return the data, and each of them ends right behind the unit of its byte. -/
structure Transparent (items : List Item) : Prop where
  returned : (calls (streamOf items)).map Prod.fst = dataOf items
  aligned : calls (streamOf items) = expected items

def Command.Consumed (following : List Item) : Command → Prop
  | .wontOption option => option = iac ∧ following = []
  | .subnegotiation content => ∀ before after, content = before ++ iac :: cmdSe :: after → after = []
  | _ => True

def Harmless : List Item → Prop
  | [] => True
  | .data _ :: rest => Harmless rest
  | .command inserted :: rest => inserted.Consumed rest ∧ Harmless rest

section Calls

variable {rest : Bytes}

theorem calls_some {stream : Bytes} {byte : UInt8} (returned : (binaryRead stream).value = some byte) :
    calls stream = (byte, (binaryRead stream).rest) :: calls (binaryRead stream).rest := by
  rw [calls]
  split
  next missing => rw [missing] at returned; cases returned
  next value known =>
    rw [known] at returned
    cases returned
    rfl

theorem calls_none {stream : Bytes} (missing : (binaryRead stream).value = none) : calls stream = [] := by
  rw [calls]
  split
  next => rfl
  next value known => rw [missing] at known; cases known

theorem calls_congr {stream later : Bytes} (sameValue : (binaryRead stream).value = (binaryRead later).value)
    (sameRest : (binaryRead stream).rest = (binaryRead later).rest) : calls stream = calls later := by
  cases value : (binaryRead later).value with
  | none => rw [calls_none value, calls_none (sameValue.trans value)]
  | some => rw [calls_some value, calls_some (sameValue.trans value), sameRest]

theorem calls_unit (byte : UInt8) (rest : Bytes) : calls (binaryWrite [byte] ++ rest) = (byte, rest) :: calls rest := by
  by_cases escaped : byte = iac
  · have unit : binaryWrite [byte] ++ rest = iac :: iac :: rest := by simp [binaryWrite, escaped]
    rw [unit, calls_some (congrArg ReadResult.value (binaryRead_iac rest)), binaryRead_iac, escaped]
  · have unit : binaryWrite [byte] ++ rest = byte :: rest := by simp [binaryWrite, escaped]
    rw [unit, calls_some (congrArg ReadResult.value (binaryRead_data escaped rest)), binaryRead_data escaped]

theorem calls_option {command : UInt8} (negotiates : command ∈ [cmdDo, cmdDont, cmdWill]) (option : UInt8)
    (rest : Bytes) : calls (iac :: command :: option :: rest) = calls rest := by
  obtain ⟨answer, result⟩ := binaryRead_option negotiates option rest
  apply calls_congr
  · rw [result]
    rfl
  · rw [result]
    rfl

theorem calls_other {command : UInt8} (other : command ∉ [iac, cmdDo, cmdDont, cmdWill, cmdSb]) (rest : Bytes) :
    calls (iac :: command :: rest) = calls rest := by
  have result := binaryRead_other other rest
  exact calls_congr (congrArg ReadResult.value result) (congrArg ReadResult.rest result)

theorem calls_subnegotiation (rest : Bytes) : calls (iac :: cmdSb :: rest) = calls (skipSubnegotiation 0 rest) := by
  have result := binaryRead_subnegotiation rest
  exact calls_congr (congrArg ReadResult.value result) (congrArg ReadResult.rest result)

end Calls

section Content

theorem iac_not_end {prev : UInt8} : ¬ (prev = iac ∧ iac = cmdSe) := fun both => absurd both.2 (by decide)

def endsEarly (prev : UInt8) : Bytes → Option Bytes
  | [] => none
  | byte :: more =>
    if prev = iac ∧ byte = cmdSe then some more else endsEarly (if byte = iac then iac else 0) more

theorem binaryWrite_cons (byte : UInt8) (more : Bytes) :
    binaryWrite (byte :: more) = binaryWrite [byte] ++ binaryWrite more := by
  simp [binaryWrite]

variable (prev : UInt8)

theorem skipSubnegotiation_end (rest : Bytes) : skipSubnegotiation prev (iac :: cmdSe :: rest) = rest := by
  rw [skipSubnegotiation, if_neg iac_not_end, skipSubnegotiation, if_pos ⟨rfl, rfl⟩]

theorem skipSubnegotiation_content (content rest : Bytes) :
    skipSubnegotiation prev (binaryWrite content ++ iac :: cmdSe :: rest) =
      ((endsEarly prev content).map fun more => binaryWrite more ++ iac :: cmdSe :: rest).getD rest := by
  induction content generalizing prev with
  | nil => exact skipSubnegotiation_end prev rest
  | cons byte more ih =>
    rw [binaryWrite_cons, append_assoc, endsEarly]
    by_cases escaped : byte = iac
    · have unit : binaryWrite [byte] = [iac, iac] := by simp [binaryWrite, escaped]
      rw [unit, escaped]
      simp only [cons_append, skipSubnegotiation, iac_not_end]
      exact ih iac
    · have unit : binaryWrite [byte] = [byte] := by simp [binaryWrite, escaped]
      rw [unit, singleton_append, skipSubnegotiation]
      by_cases ends : prev = iac ∧ byte = cmdSe
      · rw [if_pos ends, if_pos ends]
        rfl
      · rw [if_neg ends, if_neg ends, if_neg escaped]
        exact ih 0

/-- What is left stands behind an `IAC` and an `SE` of the content. -/
theorem endsEarly_some {prev : UInt8} {content more : Bytes} (early : endsEarly prev content = some more) :
    (prev = iac ∧ content = cmdSe :: more) ∨ ∃ before, content = before ++ iac :: cmdSe :: more := by
  induction content generalizing prev with
  | nil => cases early
  | cons byte rest ih =>
    rw [endsEarly] at early
    by_cases ends : prev = iac ∧ byte = cmdSe
    · rw [if_pos ends] at early
      cases early
      exact .inl ⟨ends.1, by rw [ends.2]⟩
    · rw [if_neg ends] at early
      rcases ih early with ⟨escaped, rfl⟩ | ⟨before, rfl⟩
      · have first : byte = iac := by
          by_contra other
          rw [if_neg other] at escaped
          exact absurd escaped (by decide)
        exact .inr ⟨[], by rw [first]; rfl⟩
      · exact .inr ⟨byte :: before, rfl⟩

theorem endsEarly_of_mem (before after : Bytes) :
    ∃ more, endsEarly prev (before ++ iac :: cmdSe :: after) = some more ∧ after.length ≤ more.length := by
  induction before generalizing prev with
  | nil =>
    refine ⟨after, ?_, le_rfl⟩
    rw [nil_append, endsEarly, if_neg iac_not_end, endsEarly, if_pos ⟨rfl, rfl⟩]
  | cons byte before ih =>
    rw [cons_append, endsEarly]
    by_cases ends : prev = iac ∧ byte = cmdSe
    · refine ⟨_, if_pos ends, ?_⟩
      simp only [length_append, length_cons]
      omega
    · rw [if_neg ends]
      exact ih _

theorem consumed_subnegotiation (following : List Item) (content : Bytes) :
    (Command.subnegotiation content).Consumed following ↔ ∀ more, endsEarly 0 content = some more → more = [] := by
  constructor
  · intro consumed more early
    obtain ⟨zero, _⟩ | ⟨before, shape⟩ := endsEarly_some early
    · exact absurd zero (by decide)
    · exact consumed before more shape
  · rintro rest before after rfl
    obtain ⟨more, early, longer⟩ := endsEarly_of_mem 0 before after
    rw [rest more early] at longer
    exact length_eq_zero_iff.mp (Nat.le_zero.mp longer)

end Content

section Stream

theorem streamOf_cons (item : Item) (items : List Item) : streamOf (item :: items) = item.bytes ++ streamOf items := rfl

/-- The data are the bytes that the calls should return. -/
theorem expected_values (items : List Item) : (expected items).map Prod.fst = dataOf items := by
  induction items with
  | nil => rfl
  | cons item items ih =>
    cases item with
    | data => simp [expected, dataOf, ih]
    | command => simp [expected, dataOf, ih]

variable {more : List (UInt8 × Bytes)}

/-- Each of the expected calls leaves less than the whole stream. -/
theorem expected_shorter {items : List Item} {pair : UInt8 × Bytes} (head : expected items = pair :: more) :
    pair.2.length < (streamOf items).length := by
  induction items with
  | nil => cases head
  | cons item items ih =>
    rw [streamOf_cons, length_append]
    cases item with
    | data byte =>
      cases head
      have unit : 0 < (Item.data byte).bytes.length := by
        simp only [Item.bytes, binaryWrite, flatMap_singleton]
        split_ifs <;> simp
      show (streamOf items).length < _
      omega
    | command =>
      have later := ih head
      omega

theorem calls_ne_expected {items : List Item} {byte : UInt8} {rest : Bytes}
    (long : (streamOf items).length ≤ rest.length) : (byte, rest) :: more ≠ expected items := by
  intro same
  have shorter : rest.length < (streamOf items).length := expected_shorter same.symm
  omega

/-- An option that is left in the stream is taken for data, or it hides what follows. -/
theorem calls_left_option (option : UInt8) (items : List Item) :
    calls (option :: streamOf items) = expected items ↔ (option = iac ∧ items = []) := by
  by_cases escaped : option = iac
  · subst escaped
    simp only [true_and]
    cases items with
    | nil =>
      have ended : (binaryRead [iac]).value = none := by
        rw [binaryRead.eq_def]
        rfl
      exact iff_of_true (calls_none ended) rfl
    | cons item items =>
      refine iff_of_false ?_ (cons_ne_nil _ _)
      rw [streamOf_cons]
      cases item with
      | command inserted =>
        obtain ⟨tail, shape⟩ : ∃ tail, inserted.bytes = iac :: tail := by
          cases inserted <;> exact ⟨_, rfl⟩
        rw [Item.bytes, shape, cons_append, calls_some (congrArg ReadResult.value (binaryRead_iac _)),
          binaryRead_iac]
        show _ ≠ expected items
        apply calls_ne_expected
        rw [length_append]
        omega
      | data byte =>
        by_cases doubled : byte = iac
        · have unit : (Item.data byte).bytes = [iac, iac] := by simp [Item.bytes, binaryWrite, doubled]
          rw [unit, cons_append, calls_some (congrArg ReadResult.value (binaryRead_iac _)), binaryRead_iac]
          intro same
          have lengths := congrArg (fun pair : UInt8 × Bytes => pair.2.length) (cons.inj same).1
          simp at lengths
        · have unit : (Item.data byte).bytes = [byte] := by simp [Item.bytes, binaryWrite, doubled]
          rw [unit, singleton_append]
          -- The byte is taken for a command, and the call that returns goes on behind it.
          intro same
          obtain missing | ⟨later, shorter, sameValue, sameRest⟩ := binaryRead_command doubled (streamOf items)
          · rw [calls_none missing] at same
            cases same
          · cases value : (binaryRead later).value with
            | none =>
              rw [calls_none (sameValue.trans value)] at same
              cases same
            | some =>
              rw [calls_some (sameValue.trans value), sameRest] at same
              have left : (binaryRead later).rest = streamOf items :=
                congrArg Prod.snd (cons.inj same).1
              have consumed := binaryRead_length later value
              rw [left] at consumed
              omega
  · rw [calls_some (congrArg ReadResult.value (binaryRead_data escaped _)), binaryRead_data escaped]
    exact iff_of_false (calls_ne_expected le_rfl) fun both => escaped both.1

theorem calls_content (content : Bytes) (items : List Item) :
    calls (iac :: cmdSb :: (binaryWrite content ++ [iac, cmdSe]) ++ streamOf items) = expected items ↔
      (∀ more, endsEarly 0 content = some more → more = []) ∧ calls (streamOf items) = expected items := by
  have shape : iac :: cmdSb :: (binaryWrite content ++ [iac, cmdSe]) ++ streamOf items =
      iac :: cmdSb :: (binaryWrite content ++ iac :: cmdSe :: streamOf items) := by simp
  rw [shape, calls_subnegotiation, skipSubnegotiation_content]
  cases early : endsEarly 0 content with
  | none => simp
  | some more =>
    simp only [Option.map_some, Option.getD_some, Option.some.injEq, forall_eq']
    cases more with
    | nil =>
      have closed : calls (binaryWrite [] ++ iac :: cmdSe :: streamOf items) = calls (streamOf items) :=
        calls_other (by decide) _
      rw [closed]
      simp
    | cons =>
      rw [binaryWrite_cons, append_assoc, calls_unit]
      refine iff_of_false (calls_ne_expected ?_) fun both => absurd both.1 (cons_ne_nil _ _)
      simp only [length_append, length_cons]
      omega

theorem calls_nil : calls [] = [] := by
  apply calls_none
  rw [binaryRead.eq_def]

theorem calls_command (inserted : Command) (items : List Item) :
    calls (inserted.bytes ++ streamOf items) = expected items ↔
      inserted.Consumed items ∧ calls (streamOf items) = expected items := by
  have passed : calls (inserted.bytes ++ streamOf items) = calls (streamOf items) → inserted.Consumed items →
      (calls (inserted.bytes ++ streamOf items) = expected items ↔
        inserted.Consumed items ∧ calls (streamOf items) = expected items) := by
    intro same consumed
    rw [same, and_iff_right consumed]
  cases inserted with
  | doOption option => exact passed (calls_option (by decide) option _) trivial
  | dontOption option => exact passed (calls_option (by decide) option _) trivial
  | willOption option => exact passed (calls_option (by decide) option _) trivial
  | wontOption option =>
    have left : calls ((Command.wontOption option).bytes ++ streamOf items) = calls (option :: streamOf items) :=
      calls_other (by decide) _
    rw [left, calls_left_option, Command.Consumed, iff_self_and]
    rintro ⟨_, rfl⟩
    exact calls_nil
  | subnegotiation content =>
    rw [consumed_subnegotiation]
    exact calls_content content items
  | other code known =>
    apply passed _ trivial
    apply calls_other
    simp only [mem_cons, not_or] at known ⊢
    exact ⟨known.1, known.2.1, known.2.2.1, known.2.2.2.1, known.2.2.2.2.2⟩

/-- The calls return what they should exactly when every command is consumed whole. -/
theorem calls_expected_iff (items : List Item) : calls (streamOf items) = expected items ↔ Harmless items := by
  induction items with
  | nil => exact iff_of_true calls_nil trivial
  | cons item items ih =>
    rw [streamOf_cons]
    cases item with
    | data =>
      rw [Item.bytes, calls_unit, expected, Harmless, ← ih, cons.injEq]
      exact and_iff_right rfl
    | command inserted =>
      rw [Harmless, ← ih]
      exact calls_command inserted items

end Stream

/-- The channel is transparent exactly when the reader consumes every inserted command whole. -/
theorem binaryRead_transparent_iff (items : List Item) : Transparent items ↔ Harmless items := by
  rw [← calls_expected_iff]
  constructor
  · exact Transparent.aligned
  · intro aligned
    exact ⟨by rw [aligned, expected_values], aligned⟩

/-- The option byte of a refusal comes out as data. -/
theorem binaryRead_wont_option :
    ¬ Transparent [.data 65, .command (.wontOption 3), .data 66] := by
  intro transparent
  have first : calls [65, iac, cmdWont, 3, 66] = (65, [iac, cmdWont, 3, 66]) :: calls [iac, cmdWont, 3, 66] :=
    calls_unit 65 _
  have passed : calls [iac, cmdWont, 3, 66] = calls [3, 66] := calls_other (by decide) _
  have second : calls [3, 66] = (3, [66]) :: calls [66] := calls_unit 3 _
  have third : calls [66] = (66, []) :: calls [] := calls_unit 66 _
  have values : (calls [65, iac, cmdWont, 3, 66]).map Prod.fst = [65, 3, 66] := by
    rw [first, passed, second, third, calls_nil]
    rfl
  have returned : (calls [65, iac, cmdWont, 3, 66]).map Prod.fst = [65, 66] := transparent.returned
  rw [values] at returned
  exact absurd returned (by decide)

end SshChatter.Telnet
