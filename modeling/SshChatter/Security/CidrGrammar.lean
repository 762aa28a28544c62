import SshChatter.Security.VersionBan

namespace SshChatter.VersionBan
open CString List

/-- A family of addresses with the parser of its networks. -/
structure Family where
  Address : Type
  width : Nat
  small : width < 2 ^ 63 - 1
  read : Bytes → Option Address
  meet : Address → Address → Address
  mask : Nat → Address
  bit : Address → Nat → Bool
  parse : Bytes → Option (Address × Address)
  parse_eq : ∀ cidr, parse cidr = (cidrParts width cidr).bind fun parts =>
    (read parts.1).map fun address => (meet address (mask parts.2), mask parts.2)
  bit_mask : ∀ length ≤ width, ∀ index < width, bit (mask length) index = decide (index < length)
  meet_eq_iff : ∀ length ≤ width, ∀ first second,
    meet first (mask length) = meet second (mask length) ↔ ∀ index < length, bit first index = bit second index

/-- A length that is read is one of the family. -/
theorem cidrParts_le {limit : Nat} {cidr : Bytes} {parts : Bytes × Nat} (read : cidrParts limit cidr = some parts) :
    parts.2 ≤ limit := by
  by_cases short : cidr.length < cidrTextLen
  · obtain ⟨rest, -, -, -, fits⟩ := (cidrParts_eq_some short limit parts.1 parts.2).mp read
    exact fits
  · rw [cidrParts, if_pos (Nat.le_of_not_lt short)] at read
    cases read

/-- The family of `host_parse_ipv4_cidr`. -/
def ipv4 (inet : Inet) : Family where
  Address := BitVec 32
  width := 32
  small := by decide
  read := inet.pton4
  meet := (· &&& ·)
  mask := BitMask.first 32
  bit := BitVec.getMsbD
  parse := parseIpv4Cidr inet
  parse_eq cidr := by
    rw [parseIpv4Cidr]
    cases parts : cidrParts 32 cidr with
    | none => rfl
    | some found =>
      dsimp only [Option.bind_some]
      rw [ipv4Mask_eq (cidrParts_le parts)]
      cases inet.pton4 found.1 <;> rfl
  bit_mask length fits index _ := BitMask.getMsbD_first fits index
  meet_eq_iff length fits first second := BitMask.and_first_eq_iff fits first second

theorem maskBytes_sized (length : Nat) : (maskBytes 16 length).length = 16 := maskBytes_length 16 length

theorem parseIpv6Cidr_eq (inet : Inet) (cidr : Bytes) :
    parseIpv6Cidr inet cidr = (cidrParts 128 cidr).bind fun parts => (inet.pton6 parts.1).map fun address =>
      (In6Addr.and address ⟨maskBytes 16 parts.2, maskBytes_sized parts.2⟩,
        ⟨maskBytes 16 parts.2, maskBytes_sized parts.2⟩) := by
  rw [parseIpv6Cidr]
  cases cidrParts 128 cidr with
  | none => rfl
  | some found =>
    dsimp only [Option.bind_some]
    cases inet.pton6 found.1 <;> rfl

theorem bit_maskBytes (length : Nat) {index : Nat} (inside : index < 128) :
    BitMask.bit (maskBytes 16 length) index = decide (index < length) := by
  rw [maskBytes_eq]
  exact BitMask.bit_firsts (by decide) 16 length inside

/-- The family of `host_parse_ipv6_cidr`. -/
def ipv6 (inet : Inet) : Family where
  Address := In6Addr
  width := 128
  small := by decide
  read := inet.pton6
  meet := In6Addr.and
  mask length := ⟨maskBytes 16 length, maskBytes_sized length⟩
  bit address := BitMask.bit address.bytes
  parse := parseIpv6Cidr inet
  parse_eq := parseIpv6Cidr_eq inet
  bit_mask length _ _ inside := bit_maskBytes length inside
  meet_eq_iff length fits first second := and_maskBytes_eq_iff fits first second

def DigitText (text : Bytes) : Prop := text ≠ [] ∧ ∀ c ∈ text, isDigit c

def Spells (family : Family) (cidr : Bytes) (address : family.Address) (length : Nat) : Prop :=
  ∃ text digits, cidr = text ++ byte '/' :: digits ∧ family.read text = some address ∧ DigitText digits ∧
    digitsValue digits = length ∧ length ≤ family.width

def Grammatical (family : Family) (cidr : Bytes) : Prop := ∃ address length, Spells family cidr address length

/-- When `strtol` reads a length of the family behind the first slash, digits and nothing else stand there. -/
def Digital (family : Family) (cidr : Bytes) : Prop :=
  ∀ text rest, ∀ length : Nat, cidr = text ++ byte '/' :: rest → byte '/' ∉ text → strtol rest = some (length : Int) →
    length ≤ family.width → ∀ c ∈ rest, isDigit c

/-- What the parser of a family makes of a text. -/
structure CidrLaw (family : Family) (cidr : Bytes) : Prop where
  accepts : (family.parse cidr).isSome ↔ Grammatical family cidr ∧ cidr.length < cidrTextLen
  masks : ∀ network mask, family.parse cidr = some (network, mask) →
    ∃ address length, Spells family cidr address length ∧
    network = family.meet address mask ∧ ∀ index < family.width, family.bit mask index = decide (index < length)
  nested : ∀ network mask address length, family.parse cidr = some (network, mask) → Spells family cidr address length →
    ∀ wide network' mask' length', family.parse wide = some (network', mask') → Spells family wide address length' →
      length' ≤ length → ∀ ip, family.meet ip mask = network → family.meet ip mask' = network'

/-- `inet_pton` accepts no text with a slash. -/
def SlashFree (inet : Inet) : Prop :=
  ∀ text, (inet.pton4 text).isSome ∨ (inet.pton6 text).isSome → byte '/' ∉ text

section Grammar

/-- `strtol` reads a text of digits up to its largest value. -/
theorem strtol_digits {digits : Bytes} (text : DigitText digits) :
    strtol digits = some (min (digitsValue digits : Int) (2 ^ 63 - 1)) := by
  obtain ⟨some', all⟩ := text
  obtain ⟨c, rest, rfl⟩ := exists_cons_of_ne_nil some'
  obtain ⟨notSpace, notMinus, notPlus⟩ := isDigit_plain (all c mem_cons_self)
  have whole : (c :: rest).takeWhile isDigit = c :: rest := takeWhile_eq_self_iff.mpr all
  rw [strtol, dropWhile_cons_of_neg (by simp [notSpace])]
  simp only [notMinus, notPlus, or_self, if_false, whole]
  rw [if_neg (cons_ne_nil _ _)]

variable {family : Family} {cidr : Bytes}
variable {address : family.Address}

theorem Spells.reads (slashFree : ∀ text, (family.read text).isSome → byte '/' ∉ text) {length : Nat}
    (spells : Spells family cidr address length) :
    ∃ text, CidrReads family.width cidr text length ∧ family.read text = some address := by
  obtain ⟨text, digits, whole, accepted, digital, value, fits⟩ := spells
  have small := family.small
  refine ⟨text, ⟨digits, whole, slashFree text (by rw [accepted]; rfl), ?_, fits⟩, accepted⟩
  rw [strtol_digits digital]
  congr 1
  omega

theorem spells_of_reads (digital : Digital family cidr) {text : Bytes} {length : Nat}
    (reads : CidrReads family.width cidr text length) (accepted : family.read text = some address) :
    Spells family cidr address length := by
  obtain ⟨rest, whole, absent, number, fits⟩ := reads
  have all := digital text rest length whole absent number fits
  have some' : rest ≠ [] := by
    rintro rfl
    cases number
  have small := family.small
  refine ⟨text, rest, whole, accepted, ⟨some', all⟩, ?_, fits⟩
  rw [strtol_digits ⟨some', all⟩] at number
  have same := Option.some.inj number
  omega

/-- A success is a short text with an accepted address and a length. -/
theorem Family.parse_eq_some {network mask : family.Address} :
    family.parse cidr = some (network, mask) ↔ cidr.length < cidrTextLen ∧
      ∃ text length address, CidrReads family.width cidr text length ∧ family.read text = some address ∧
        network = family.meet address (family.mask length) ∧ mask = family.mask length := by
  rw [family.parse_eq]
  by_cases short : cidr.length < cidrTextLen
  · simp only [Option.bind_eq_some_iff, Option.map_eq_some_iff, Prod.exists, Prod.mk.injEq,
      cidrParts_eq_some short, short, true_and]
    constructor
    · rintro ⟨text, length, reads, address, accepted, rfl, rfl⟩
      exact ⟨text, length, address, reads, accepted, rfl, rfl⟩
    · rintro ⟨text, length, address, reads, accepted, rfl, rfl⟩
      exact ⟨text, length, reads, address, accepted, rfl, rfl⟩
  · rw [cidrParts, if_pos (Nat.le_of_not_lt short)]
    simp [short]

theorem Family.law (slashFree : ∀ text, (family.read text).isSome → byte '/' ∉ text)
    (digital : Digital family cidr) : CidrLaw family cidr := by
  -- A spelled text gives the parser's network and mask.
  have spelled {wide : Bytes} {network mask address : family.Address} {length : Nat}
      (parsed : family.parse wide = some (network, mask)) (spells : Spells family wide address length) :
      length ≤ family.width ∧ network = family.meet address (family.mask length) ∧ mask = family.mask length := by
    obtain ⟨-, text, length', address', reads, accepted, rfl, rfl⟩ := Family.parse_eq_some.mp parsed
    obtain ⟨text', reads', accepted'⟩ := spells.reads slashFree
    obtain ⟨rfl, rfl⟩ := reads.unique reads'
    rw [accepted] at accepted'
    cases accepted'
    exact ⟨reads.choose_spec.2.2.2, rfl, rfl⟩
  constructor
  case accepts =>
    rw [Option.isSome_iff_exists]
    constructor
    · rintro ⟨⟨network, mask⟩, parsed⟩
      obtain ⟨short, text, length, address, reads, accepted, -⟩ := Family.parse_eq_some.mp parsed
      exact ⟨⟨address, length, spells_of_reads digital reads accepted⟩, short⟩
    · rintro ⟨⟨address, length, spells⟩, short⟩
      obtain ⟨text, reads, accepted⟩ := spells.reads slashFree
      exact ⟨_, Family.parse_eq_some.mpr ⟨short, text, length, address, reads, accepted, rfl, rfl⟩⟩
  case masks =>
    intro network mask parsed
    obtain ⟨-, text, length, address, reads, accepted, rfl, rfl⟩ := Family.parse_eq_some.mp parsed
    exact ⟨address, length, spells_of_reads digital reads accepted, rfl,
      family.bit_mask length reads.choose_spec.2.2.2⟩
  case nested =>
    intro network mask address length parsed spells wide network' mask' length' parsed' spells' shorter ip inside
    obtain ⟨fits, rfl, rfl⟩ := spelled parsed spells
    obtain ⟨fits', rfl, rfl⟩ := spelled parsed' spells'
    rw [family.meet_eq_iff length fits] at inside
    rw [family.meet_eq_iff length' fits']
    exact fun index low => inside index (lt_of_lt_of_le low shorter)

end Grammar

/-- Both parsers accept exactly the short texts of their grammars among the texts that have only digits behind the
slash. They return the masked address and the mask of the length, and a shorter length of the same address matches
more. -/
theorem cidr_law {inet : Inet} (slashFree : SlashFree inet) (cidr : Bytes) :
    (Digital (ipv4 inet) cidr → CidrLaw (ipv4 inet) cidr) ∧ (Digital (ipv6 inet) cidr → CidrLaw (ipv6 inet) cidr) :=
  ⟨Family.law fun text accepted => slashFree text (.inl accepted),
    Family.law fun text accepted => slashFree text (.inr accepted)⟩

theorem twoAddresses_slashFree : SlashFree twoAddresses := by
  intro text accepted slash
  rcases accepted with four | six
  · simp only [twoAddresses] at four
    split_ifs at four with first second
    · rw [first] at slash
      exact absurd slash (by decide)
    · rw [second] at slash
      exact absurd slash (by decide)
    · cases four
  · cases six

/-- A network of eight bits is read by the digits behind its slash. -/
theorem cidr_law_eight : CidrLaw (ipv4 twoAddresses) (str "10.1.2.3/8") := by
  apply (cidr_law twoAddresses_slashFree (str "10.1.2.3/8")).1
  intro text rest length whole absent _ _
  have cut := strchr_append absent rest
  rw [← whole] at cut
  rw [← (Prod.mk.inj (Option.some.inj cut)).2]
  exact all_eq_true.mp (by decide)

/-- A letter behind the digits is accepted, and many zeros in front of them are refused. -/
theorem cidr_grammar_fails : SlashFree twoAddresses ∧
    ((ipv4 twoAddresses).parse (str "10.0.0.0/8x")).isSome ∧ ¬ Grammatical (ipv4 twoAddresses) (str "10.0.0.0/8x") ∧
    (ipv4 twoAddresses).parse (str "10.0.0.0/" ++ replicate 60 (byte '0') ++ str "8") = none ∧
    Grammatical (ipv4 twoAddresses) (str "10.0.0.0/" ++ replicate 60 (byte '0') ++ str "8") := by
  refine ⟨twoAddresses_slashFree, by decide +kernel, ?_, by decide +kernel, ?_⟩
  · rintro ⟨address, length, text, digits, whole, accepted, ⟨-, all⟩, -⟩
    have absent := twoAddresses_slashFree text (.inl (Option.isSome_iff_exists.mpr ⟨address, accepted⟩))
    have cut := strchr_append absent digits
    rw [← whole] at cut
    rw [← (Prod.mk.inj (Option.some.inj cut)).2] at all
    exact absurd (all (byte 'x') (by decide)) (by decide)
  · have accepted : twoAddresses.pton4 (str "10.0.0.0") = some 0x0A000000#32 := rfl
    exact ⟨0x0A000000#32, 8, str "10.0.0.0", replicate 60 (byte '0') ++ str "8", rfl, accepted,
      ⟨by decide, all_eq_true.mp (by decide +kernel)⟩, by decide +kernel, by decide⟩

end SshChatter.VersionBan
