import SshChatter.Lib.BitMask
import SshChatter.Security.VersionPattern

namespace SshChatter.VersionBan
open CString List

abbrev cidrTextLen : Nat := 64

abbrev versionNoteLen : Nat := 96

def maxVersionIpBans : Nat := 8192

instance cidrTextRoom : NeZero cidrTextLen := ⟨by decide⟩

instance versionNoteRoom : NeZero versionNoteLen := ⟨by decide⟩

/-- A `struct in6_addr` has sixteen bytes. -/
structure In6Addr where
  bytes : List (BitVec 8)
  sized : bytes.length = 16
  deriving DecidableEq

/-- A cleared `struct in6_addr`. -/
def In6Addr.zero : In6Addr := ⟨replicate 16 0, length_replicate⟩

/-- The bytes of two addresses are combined by `&`. -/
def In6Addr.and (address mask : In6Addr) : In6Addr where
  bytes := zipWith (· &&& ·) address.bytes mask.bytes
  sized := by simp [address.sized, mask.sized]

/-- The function `inet_pton` reads an address of one family. An IPv4 address is given in host order. -/
structure Inet where
  pton4 : Bytes → Option (BitVec 32)
  pton6 : Bytes → Option In6Addr
  empty4 : pton4 [] = none
  empty6 : pton6 [] = none
  apart : ∀ text, (pton4 text).isSome → pton6 text = none

/-- Both parsers cut the text at the slash and read a number up to a limit behind it. -/
def cidrParts (limit : Nat) (cidr : Bytes) : Option (Bytes × Nat) :=
  if cidrTextLen ≤ cidr.length then none else
  match strchr (byte '/') cidr with
  | none => none
  | some (buffer, prefixStr) =>
    match strtol prefixStr with
    | none => none
    | some prefixLong => if prefixLong < 0 ∨ (limit : Int) < prefixLong then none else some (buffer, prefixLong.toNat)

/-- This is `host_parse_ipv4_cidr`. It returns the network and the mask. -/
def parseIpv4Cidr (inet : Inet) (cidr : Bytes) : Option (BitVec 32 × BitVec 32) :=
  match cidrParts 32 cidr with
  | none => none
  | some (buffer, length) =>
    match inet.pton4 buffer with
    | none => none
    | some address =>
      let mask : BitVec 32 := if length = 0 then 0 else 0xFFFFFFFF#32 <<< (32 - length)
      some (address &&& mask, mask)

/-- The loop that fills the bytes of an IPv6 mask. -/
def maskBytes : Nat → Nat → List (BitVec 8)
  | 0, _ => []
  | count + 1, remaining =>
    if 8 ≤ remaining then 0xFF#8 :: maskBytes count (remaining - 8)
    else if 0 < remaining then (0xFF#32 <<< (8 - remaining)).setWidth 8 :: maskBytes count 0
    else 0 :: maskBytes count remaining

theorem maskBytes_length (count remaining : Nat) : (maskBytes count remaining).length = count := by
  induction count generalizing remaining with
  | zero => rfl
  | succ count ih =>
    rw [maskBytes]
    split_ifs <;> rw [length_cons, ih]

/-- This is `host_parse_ipv6_cidr`. It returns the network and the mask. -/
def parseIpv6Cidr (inet : Inet) (cidr : Bytes) : Option (In6Addr × In6Addr) :=
  match cidrParts 128 cidr with
  | none => none
  | some (buffer, length) =>
    match inet.pton6 buffer with
    | none => none
    | some address =>
      let mask : In6Addr := ⟨maskBytes 16 length, maskBytes_length 16 length⟩
      some (address.and mask, mask)

/-- This is `version_ip_ban_rule_t`. -/
structure Rule where
  inUse : Bool
  matchMode : MatchMode
  originalPattern : Option Bytes
  normalizedPattern : Option Bytes
  cidrText : CBuffer cidrTextLen
  note : CBuffer versionNoteLen
  isIpv6 : Bool
  ipv4Network : BitVec 32
  ipv4Mask : BitVec 32
  ipv6Network : In6Addr
  ipv6Mask : In6Addr
  deriving DecidableEq

def Rule.zero : Rule := ⟨false, .matchAny, none, none, .zero, .zero, false, 0, 0, .zero, .zero⟩

structure RuleTable where
  slots : List Rule
  count : Nat
  within : count ≤ slots.length

def RuleTable.rules (table : RuleTable) : List Rule := table.slots.take table.count

/-- The doubling loop of `host_version_ip_rules_reserve`. The fuel is larger than the number of doublings. -/
def growCapacity (minCapacity : Nat) : Nat → Nat → Nat
  | 0, capacity => capacity
  | fuel + 1, capacity =>
    if capacity < minCapacity ∧ capacity < maxVersionIpBans then growCapacity minCapacity fuel (capacity * 2)
    else capacity

/-- The capacity that `host_version_ip_rules_reserve` asks for. -/
def newCapacity (capacity minCapacity : Nat) : Nat :=
  min (growCapacity minCapacity 14 (if 0 < capacity then capacity else 16)) maxVersionIpBans

def rulesReserve (table : RuleTable) (minCapacity : Nat) : Option RuleTable :=
  if minCapacity ≤ table.slots.length ∧ table.slots ≠ [] then some table
  else if newCapacity table.slots.length minCapacity < minCapacity then none
  else some ⟨table.rules ++ replicate (newCapacity table.slots.length minCapacity - table.count) Rule.zero,
    table.count, by
    have within := table.within
    simp only [RuleTable.rules, length_append, length_take, length_replicate]
    omega⟩

def rulesPrepare (table : RuleTable) : Option RuleTable :=
  if table.slots = [] then (rulesReserve table 16).map fun table => ⟨table.slots, 0, Nat.zero_le _⟩
  else some ⟨table.slots.map fun _ => Rule.zero, 0, Nat.zero_le _⟩

def Rule.versionMatch (rule : Rule) (version : Option Bytes) : Bool :=
  match rule.normalizedPattern with
  | none => rule.matchMode = .matchAny
  | some normalized => versionMatches rule.matchMode normalized version

/-- The address part of `host_version_ip_rule_matches`. -/
def Rule.addressMatch (inet : Inet) (rule : Rule) (ip : Bytes) : Bool :=
  if rule.isIpv6 then
    match inet.pton6 ip with
    | none => false
    | some address => address.and rule.ipv6Mask = rule.ipv6Network
  else
    match inet.pton4 ip with
    | none => false
    | some address => address &&& rule.ipv4Mask = rule.ipv4Network

def ruleMatches (inet : Inet) (rule : Rule) (version : Option Bytes) (ip : Bytes) : Bool :=
  if rule.inUse = false ∨ ip = [] then false
  else if rule.versionMatch version = false then false
  else rule.addressMatch inet ip

def shouldBan (inet : Inet) (table : RuleTable) (version : Option Bytes) (ip : Bytes) : Option Rule :=
  if ip = [] then none else table.rules.find? fun rule => rule.inUse && ruleMatches inet rule version ip

/-- The arguments of one `host_version_ip_rule_add` call. -/
structure Call where
  pattern : Bytes
  cidr : Bytes
  note : Option Bytes

/-- The local variables of `host_version_ip_rule_add` once the CIDR was read. -/
structure Network where
  isIpv6 : Bool
  ipv4Network : BitVec 32
  ipv4Mask : BitVec 32
  ipv6Network : In6Addr
  ipv6Mask : In6Addr

/-- The IPv4 parser is tried first. -/
def readNetwork (inet : Inet) (cidr : Bytes) : Option Network :=
  match parseIpv4Cidr inet cidr with
  | some (network, mask) => some ⟨false, network, mask, .zero, .zero⟩
  | none =>
    match parseIpv6Cidr inet cidr with
    | some (network, mask) => some ⟨true, 0, 0, network, mask⟩
    | none => none

/-- The comparison of the networks in the loop of `host_version_ip_rule_add`. -/
def Rule.networkMatch (rule : Rule) (network : Network) : Bool :=
  if network.isIpv6 then rule.ipv6Network = network.ipv6Network ∧ rule.ipv6Mask = network.ipv6Mask
  else rule.ipv4Network = network.ipv4Network ∧ rule.ipv4Mask = network.ipv4Mask

/-- The test for an existing rule in the loop of `host_version_ip_rule_add`. -/
def Rule.same (rule : Rule) (parsed : ParsedPattern) (network : Network) : Bool :=
  match rule.normalizedPattern with
  | none => false
  | some normalized =>
    rule.inUse ∧ rule.matchMode = parsed.mode ∧
      normalized.take versionPatternLen = parsed.normalized.text.take versionPatternLen ∧
      rule.isIpv6 = network.isIpv6 ∧ rule.networkMatch network

def noted (old : CBuffer versionNoteLen) : Option Bytes → CBuffer versionNoteLen
  | none => old
  | some note => if note = [] then old else .print note

/-- The rule that `host_version_ip_rule_add` writes into the next slot. -/
def newRule (parsed : ParsedPattern) (cidrTrimmed : Bytes) (network : Network) (note : Option Bytes) : Rule where
  inUse := true
  matchMode := parsed.mode
  originalPattern := some parsed.original.text
  normalizedPattern := some parsed.normalized.text
  cidrText := .print cidrTrimmed
  note := noted .zero note
  isIpv6 := network.isIpv6
  ipv4Network := network.ipv4Network
  ipv4Mask := network.ipv4Mask
  ipv6Network := network.ipv6Network
  ipv6Mask := network.ipv6Mask

def RuleTable.renote (table : RuleTable) (index : Nat) (note : Option Bytes) : RuleTable where
  slots := table.slots.modify index fun rule => { rule with note := noted rule.note note }
  count := table.count
  within := by
    rw [length_modify]
    exact table.within

/-- The next slot is written. -/
def RuleTable.push (table : RuleTable) (rule : Rule) (room : table.count < table.slots.length) : RuleTable where
  slots := table.slots.set table.count rule
  count := table.count + 1
  within := by
    rw [length_set]
    exact room

def readCall (inet : Inet) (call : Call) : Option (ParsedPattern × Network) :=
  match parsePattern call.pattern with
  | none => none
  | some parsed =>
    if cidrTextLen ≤ call.cidr.length then none
    else if trimSpace call.cidr = [] then none
    else (readNetwork inet (trimSpace call.cidr)).map fun network => (parsed, network)

/-- This is `host_version_ip_rule_add` when the allocations succeed. -/
def ruleAdd (inet : Inet) (table : RuleTable) (call : Call) : RuleTable × Bool :=
  if maxVersionIpBans ≤ table.count then (table, false) else
  match rulesReserve table (table.count + 1) with
  | none => (table, false)
  | some reserved =>
    match readCall inet call with
    | none => (reserved, false)
    | some (parsed, network) =>
      match reserved.rules.findIdx? fun rule => rule.same parsed network with
      | some index => (reserved.renote index call.note, true)
      | none =>
        if room : reserved.count < reserved.slots.length then
          (reserved.push (newRule parsed (trimSpace call.cidr) network call.note) room, true)
        else (reserved, false)

/-- The calls are made one after the other. -/
def addAll (inet : Inet) (table : RuleTable) (calls : List Call) : RuleTable :=
  calls.foldl (fun table call => (ruleAdd inet table call).1) table

/-- The calls that returned true. -/
def accepted (inet : Inet) : RuleTable → List Call → List Call
  | _, [] => []
  | table, call :: rest =>
    let next := ruleAdd inet table call
    if next.2 then call :: accepted inet next.1 rest else accepted inet next.1 rest

/-- A CIDR text is an address, a slash and the number of leading bits. -/
def CidrReads (limit : Nat) (cidr buffer : Bytes) (length : Nat) : Prop :=
  ∃ prefixStr, cidr = buffer ++ byte '/' :: prefixStr ∧ byte '/' ∉ buffer ∧ strtol prefixStr = some (length : Int) ∧
    length ≤ limit

def CidrContains (inet : Inet) (cidr ip : Bytes) : Prop :=
  (∃ buffer length network address, CidrReads 32 cidr buffer length ∧
      inet.pton4 buffer = some network ∧ inet.pton4 ip = some address ∧ BitMask.Agree length address network) ∨
    (∃ buffer length network address, CidrReads 128 cidr buffer length ∧
      inet.pton6 buffer = some network ∧ inet.pton6 ip = some address ∧
      BitMask.AgreeWords length address.bytes network.bytes)

def CallMatches (inet : Inet) (call : Call) (version : Option Bytes) (ip : Bytes) : Prop :=
  PatternMatches call.pattern version ∧ CidrContains inet (trimSpace call.cidr) ip

section Cidr

variable {inet : Inet} {cidr : Bytes}

theorem maskBytes_eq (count remaining : Nat) : maskBytes count remaining = BitMask.firsts 8 count remaining := by
  induction count generalizing remaining with
  | zero => rfl
  | succ count ih =>
    rw [maskBytes, BitMask.firsts]
    split_ifs with whole some
    · rw [ih, min_eq_left whole]
      rfl
    · have low : remaining < 8 := by omega
      rw [ih, Nat.sub_eq_zero_of_le low.le]
      congr 1
      interval_cases remaining <;> decide
    · obtain rfl : remaining = 0 := by omega
      rw [ih]
      rfl

theorem ipv4Mask_eq {length : Nat} (fits : length ≤ 32) :
    (if length = 0 then 0 else 0xFFFFFFFF#32 <<< (32 - length)) = BitMask.first 32 length := by
  interval_cases length <;> decide

/-- Masked IPv6 addresses are equal exactly when the first bits agree. -/
theorem and_maskBytes_eq_iff {length : Nat} (fits : length ≤ 128) (address network : In6Addr) :
    address.and ⟨maskBytes 16 length, maskBytes_length 16 length⟩ =
        network.and ⟨maskBytes 16 length, maskBytes_length 16 length⟩ ↔
      BitMask.AgreeWords length address.bytes network.bytes := by
  rw [← BitMask.zipWith_firsts_eq_iff (by decide) length (by omega) address.sized network.sized, ← maskBytes_eq]
  simp only [In6Addr.and, In6Addr.mk.injEq]

theorem cidrParts_eq_some (short : cidr.length < cidrTextLen) (limit : Nat) (buffer : Bytes) (length : Nat) :
    cidrParts limit cidr = some (buffer, length) ↔ CidrReads limit cidr buffer length := by
  rw [cidrParts, if_neg (Nat.not_le_of_lt short)]
  constructor
  · intro parts
    cases cut : strchr (byte '/') cidr with
    | none => simp [cut] at parts
    | some pair =>
      obtain ⟨before, prefixStr⟩ := pair
      obtain ⟨whole, absent⟩ := strchr_some cut
      cases read : strtol prefixStr with
      | none => simp [cut, read] at parts
      | some =>
        simp only [cut, read, Option.ite_none_left_eq_some, not_or, not_lt] at parts
        obtain ⟨⟨low, high⟩, rfl, rfl⟩ := parts
        exact ⟨prefixStr, whole, absent, by rw [read, Int.toNat_of_nonneg low], by omega⟩
  · rintro ⟨prefixStr, rfl, absent, read, high⟩
    have inRange : ¬ ((length : Int) < 0 ∨ (limit : Int) < length) := by omega
    simp only [strchr_append absent, read, if_neg inRange, Int.toNat_natCast]

/-- A text has one address and one number of bits. -/
theorem CidrReads.unique {limit limit' : Nat} {buffer buffer' : Bytes} {length length' : Nat}
    (one : CidrReads limit cidr buffer length) (other : CidrReads limit' cidr buffer' length') :
    buffer' = buffer ∧ length' = length := by
  obtain ⟨prefixStr, whole, absent, read, _⟩ := one
  obtain ⟨prefixStr', whole', absent', read', _⟩ := other
  have cut := strchr_append absent prefixStr
  rw [← whole, whole', strchr_append absent' prefixStr'] at cut
  obtain ⟨rfl, rfl⟩ := Prod.mk.inj (Option.some.inj cut)
  rw [read] at read'
  exact ⟨rfl, (Int.ofNat.inj (Option.some.inj read')).symm⟩

/-- What the two parsers leave of a text that can be read. -/
theorem readNetwork_some (short : cidr.length < cidrTextLen) {network : Network}
    (read : readNetwork inet cidr = some network) :
    (∃ buffer length address, CidrReads 32 cidr buffer length ∧ inet.pton4 buffer = some address ∧
      network = ⟨false, address &&& BitMask.first 32 length, BitMask.first 32 length, .zero, .zero⟩) ∨
    (∃ buffer length address, CidrReads 128 cidr buffer length ∧ inet.pton6 buffer = some address ∧
      network = ⟨true, 0, 0, address.and ⟨maskBytes 16 length, maskBytes_length 16 length⟩,
        ⟨maskBytes 16 length, maskBytes_length 16 length⟩⟩) := by
  rw [readNetwork] at read
  split at read
  next ipv4Network mask first =>
    rw [parseIpv4Cidr] at first
    split at first
    next => cases first
    next buffer length parts =>
      have reads := (cidrParts_eq_some short 32 buffer length).mp parts
      split at first
      next => cases first
      next address isAddress =>
        obtain ⟨rfl, rfl⟩ := Prod.mk.inj (Option.some.inj first)
        have fits : length ≤ 32 := reads.choose_spec.2.2.2
        rw [ipv4Mask_eq fits] at read
        exact .inl ⟨buffer, length, address, reads, isAddress, (Option.some.inj read).symm⟩
  next =>
    split at read
    next ipv6Network mask second =>
      rw [parseIpv6Cidr] at second
      split at second
      next => cases second
      next buffer length parts =>
        have reads := (cidrParts_eq_some short 128 buffer length).mp parts
        split at second
        next => cases second
        next address isAddress =>
          obtain ⟨rfl, rfl⟩ := Prod.mk.inj (Option.some.inj second)
          exact .inr ⟨buffer, length, address, reads, isAddress, (Option.some.inj read).symm⟩
    next => cases read

theorem newRule_addressMatch (short : cidr.length < cidrTextLen) {network : Network}
    (read : readNetwork inet cidr = some network) (parsed : ParsedPattern) (note : Option Bytes) (ip : Bytes) :
    (newRule parsed cidr network note).addressMatch inet ip ↔ CidrContains inet cidr ip := by
  obtain ⟨buffer, length, address, reads, isAddress, rfl⟩ | ⟨buffer, length, address, reads, isAddress, rfl⟩ :=
    readNetwork_some short read
  · have fits : length ≤ 32 := reads.choose_spec.2.2.2
    simp only [Rule.addressMatch, newRule, CidrContains]
    constructor
    · intro hit
      cases client : inet.pton4 ip with
      | none => simp [client] at hit
      | some clientAddress =>
        simp only [client] at hit
        exact .inl ⟨buffer, length, address, clientAddress, reads, isAddress, rfl,
          (BitMask.and_first_eq_iff fits _ _).mp (of_decide_eq_true hit)⟩
    · rintro (⟨buffer', length', network, client, reads', isNetwork, isClient, agree⟩ |
        ⟨buffer', length', network, client, reads', isNetwork, _⟩)
      · obtain ⟨rfl, rfl⟩ := reads.unique reads'
        rw [isAddress] at isNetwork
        cases isNetwork
        simp only [isClient]
        exact decide_eq_true ((BitMask.and_first_eq_iff fits _ _).mpr agree)
      · obtain ⟨rfl, rfl⟩ := reads.unique reads'
        rw [inet.apart _ (by rw [isAddress]; rfl)] at isNetwork
        cases isNetwork
  · have fits : length ≤ 128 := reads.choose_spec.2.2.2
    simp only [Rule.addressMatch, newRule, CidrContains]
    constructor
    · intro hit
      cases client : inet.pton6 ip with
      | none => simp [client] at hit
      | some clientAddress =>
        simp only [client] at hit
        exact .inr ⟨buffer, length, address, clientAddress, reads, isAddress, rfl,
          (and_maskBytes_eq_iff fits _ _).mp (of_decide_eq_true hit)⟩
    · rintro (⟨buffer', length', network, client, reads', isNetwork, _⟩ |
        ⟨buffer', length', network, client, reads', isNetwork, isClient, agree⟩)
      · obtain ⟨rfl, rfl⟩ := reads.unique reads'
        rw [inet.apart _ (by rw [isNetwork]; rfl)] at isAddress
        cases isAddress
      · obtain ⟨rfl, rfl⟩ := reads.unique reads'
        rw [isAddress] at isNetwork
        cases isNetwork
        simp only [isClient]
        exact decide_eq_true ((and_maskBytes_eq_iff fits _ _).mpr agree)

end Cidr

section Rules

variable {inet : Inet} {table : RuleTable} {call : Call} {parsed : ParsedPattern} {network : Network}

/-- An empty address lies in no network. -/
theorem CidrContains.ip_ne_nil {cidr ip : Bytes} (inside : CidrContains inet cidr ip) : ip ≠ [] := by
  rintro rfl
  obtain ⟨_, _, _, _, _, _, isClient, _⟩ | ⟨_, _, _, _, _, _, isClient, _⟩ := inside
  · rw [inet.empty4] at isClient
    cases isClient
  · rw [inet.empty6] at isClient
    cases isClient

theorem readCall_some (read : readCall inet call = some (parsed, network)) :
    parsePattern call.pattern = some parsed ∧ (trimSpace call.cidr).length < cidrTextLen ∧
      readNetwork inet (trimSpace call.cidr) = some network := by
  rw [readCall] at read
  split at read
  next => cases read
  next parsed' isPattern =>
    split_ifs at read with long empty
    obtain ⟨network', isNetwork, same⟩ := Option.map_eq_some_iff.mp read
    obtain ⟨rfl, rfl⟩ := Prod.mk.inj same
    have bound := trimSpace_length call.cidr
    exact ⟨isPattern, by omega, isNetwork⟩

theorem newRule_matches (read : readCall inet call = some (parsed, network)) (version : Option Bytes) (ip : Bytes) :
    ruleMatches inet (newRule parsed (trimSpace call.cidr) network call.note) version ip ↔
      CallMatches inet call version ip := by
  obtain ⟨isPattern, short, isNetwork⟩ := readCall_some read
  have address := newRule_addressMatch short isNetwork parsed call.note ip
  have versions := parsePattern_matches isPattern version
  rw [ruleMatches, CallMatches, ← address, ← versions]
  by_cases empty : ip = []
  · have outside : ¬ CidrContains inet (trimSpace call.cidr) ip := fun inside => inside.ip_ne_nil empty
    rw [← address] at outside
    simp [outside]
  · cases hit : versionMatches parsed.mode parsed.normalized.text version <;>
      simp [newRule, Rule.versionMatch, empty, hit]

theorem Rule.same_matches {rule : Rule} (found : rule.same parsed network) (cidrTrimmed : Bytes)
    (note : Option Bytes) (version : Option Bytes) (ip : Bytes) :
    ruleMatches inet rule version ip = ruleMatches inet (newRule parsed cidrTrimmed network note) version ip := by
  rw [Rule.same] at found
  split at found
  next => cases found
  next normalized pattern =>
    simp only [decide_eq_true_eq] at found
    obtain ⟨used, mode, text, family, networks⟩ := found
    -- The new pattern ends within the compared bytes, so the whole patterns are equal.
    have fits := parsed.normalized.fits
    rw [take_of_length_le fits.le] at text
    have whole : normalized.length ≤ versionPatternLen := by
      have cut := congrArg length text
      rw [length_take] at cut
      omega
    rw [take_of_length_le whole] at text
    have address : rule.addressMatch inet ip = (newRule parsed cidrTrimmed network note).addressMatch inet ip := by
      have newFamily : (newRule parsed cidrTrimmed network note).isIpv6 = network.isIpv6 := rfl
      by_cases kind : network.isIpv6
      · obtain ⟨sameNetwork, sameMask⟩ := of_decide_eq_true ((if_pos kind).symm.trans networks)
        rw [Rule.addressMatch, Rule.addressMatch, if_pos (family.trans kind), if_pos (newFamily.trans kind),
          sameNetwork, sameMask]
        rfl
      · obtain ⟨sameNetwork, sameMask⟩ := of_decide_eq_true ((if_neg kind).symm.trans networks)
        rw [Rule.addressMatch, Rule.addressMatch, if_neg (family ▸ kind), if_neg (newFamily ▸ kind),
          sameNetwork, sameMask]
        rfl
    have versions : rule.versionMatch version = (newRule parsed cidrTrimmed network note).versionMatch version := by
      rw [Rule.versionMatch, pattern, mode, text]
      rfl
    rw [ruleMatches, used, versions, address]
    rfl

/-- The decision asks for a rule below the count that matches. -/
theorem shouldBan_isSome (table : RuleTable) (version : Option Bytes) (ip : Bytes) :
    (shouldBan inet table version ip).isSome ↔ ∃ rule ∈ table.rules, ruleMatches inet rule version ip := by
  rw [shouldBan]
  split_ifs with empty
  · simp [ruleMatches, empty]
  · rw [find?_isSome]
    constructor
    · rintro ⟨rule, member, hit⟩
      exact ⟨rule, member, (Bool.and_eq_true_iff.mp hit).2⟩
    · rintro ⟨rule, member, hit⟩
      have used : rule.inUse := by
        by_contra unused
        simp [ruleMatches, unused] at hit
      exact ⟨rule, member, Bool.and_eq_true_iff.mpr ⟨used, hit⟩⟩

variable {minCapacity : Nat}

theorem rulesReserve_rules {reserved : RuleTable} (grown : rulesReserve table minCapacity = some reserved) :
    reserved.rules = table.rules ∧ reserved.count = table.count ∧ minCapacity ≤ reserved.slots.length := by
  rw [rulesReserve] at grown
  split_ifs at grown with enough full
  · cases grown
    exact ⟨rfl, rfl, enough.1⟩
  · cases grown
    have within := table.within
    refine ⟨?_, rfl, ?_⟩
    · have length : table.rules.length = table.count := by
        rw [RuleTable.rules, length_take, min_eq_left within]
      exact take_left' length
    · simp only [RuleTable.rules, length_append, length_take, length_replicate]
      omega

/-- The doubling reaches every capacity up to the limit. -/
theorem growCapacity_le (within : minCapacity ≤ maxVersionIpBans) (fuel capacity : Nat)
    (enough : maxVersionIpBans ≤ capacity * 2 ^ fuel) : minCapacity ≤ growCapacity minCapacity fuel capacity := by
  induction fuel generalizing capacity with
  | zero =>
    rw [growCapacity]
    omega
  | succ fuel ih =>
    rw [growCapacity]
    split_ifs with more
    · apply ih
      calc maxVersionIpBans ≤ capacity * (2 ^ fuel * 2) := enough
        _ = capacity * 2 * 2 ^ fuel := by ring
    · omega

/-- There is room for one more rule below the limit. -/
theorem rulesReserve_isSome (table : RuleTable) (within : minCapacity ≤ maxVersionIpBans) :
    ∃ reserved, rulesReserve table minCapacity = some reserved := by
  rw [rulesReserve]
  split_ifs with enough full
  · exact ⟨table, rfl⟩
  · exfalso
    have reached := growCapacity_le within 14 (if 0 < table.slots.length then table.slots.length else 16) (by
      split_ifs <;> rw [maxVersionIpBans] <;> omega)
    rw [newCapacity] at full
    omega
  · exact ⟨_, rfl⟩

/-- A new note changes no decision. -/
theorem renote_matches (index : Nat) (note version : Option Bytes) (ip : Bytes) :
    (∃ rule ∈ (table.renote index note).rules, ruleMatches inet rule version ip) ↔
      ∃ rule ∈ table.rules, ruleMatches inet rule version ip := by
  have same : (table.renote index note).rules.map (ruleMatches inet · version ip) =
      table.rules.map (ruleMatches inet · version ip) := by
    rw [RuleTable.rules, RuleTable.rules, RuleTable.renote, map_take, map_take]
    congr 1
    apply ext_getElem?
    intro position
    rw [getElem?_map, getElem?_map, getElem?_modify]
    cases table.slots[position]? with
    | none => rfl
    | some rule =>
      have unread : ruleMatches inet { rule with note := noted rule.note note } version ip =
          ruleMatches inet rule version ip := rfl
      by_cases here : index = position
      · simp [here, unread]
      · simp [here]
  have inside := congrArg (true ∈ ·) same
  simpa only [mem_map, eq_iff_iff] using inside

theorem push_rules (rule : Rule) (room : table.count < table.slots.length) :
    (table.push rule room).rules = table.rules ++ [rule] := by
  rw [RuleTable.rules, RuleTable.push, take_add_one, take_set_of_le le_rfl,
    getElem?_set_self room]
  rfl

/-- What one call does to the decision. It is accepted exactly when it can be read and the table is not full. -/
theorem ruleAdd_spec (inet : Inet) (table : RuleTable) (call : Call) (version : Option Bytes) (ip : Bytes) :
    ((ruleAdd inet table call).2 ↔ table.count < maxVersionIpBans ∧ (readCall inet call).isSome) ∧
      ((∃ rule ∈ (ruleAdd inet table call).1.rules, ruleMatches inet rule version ip) ↔
        (∃ rule ∈ table.rules, ruleMatches inet rule version ip) ∨
          ((ruleAdd inet table call).2 ∧ CallMatches inet call version ip)) := by
  rw [ruleAdd]
  split_ifs with full
  · simp [full]
  have below : table.count < maxVersionIpBans := Nat.lt_of_not_le full
  obtain ⟨reserved, grown⟩ := rulesReserve_isSome table below
  obtain ⟨sameRules, sameCount, enough⟩ := rulesReserve_rules grown
  simp only [grown]
  cases read : readCall inet call with
  | none => simp [sameRules]
  | some pair =>
    obtain ⟨parsed, network⟩ := pair
    have clients := newRule_matches read version ip
    simp only [below, Option.isSome_some, and_self, iff_true]
    cases found : reserved.rules.findIdx? fun rule => rule.same parsed network with
    | some =>
      refine ⟨rfl, ?_⟩
      simp only [renote_matches, sameRules, true_and]
      -- The rule that was found already bans the clients of the call.
      obtain ⟨inside, hit, _⟩ := findIdx?_eq_some_iff_getElem.mp found
      have already : ruleMatches inet _ version ip = _ :=
        Rule.same_matches hit (trimSpace call.cidr) call.note version ip
      constructor
      · exact .inl
      · rintro (old | new)
        · exact old
        · rw [← sameRules]
          exact ⟨_, getElem_mem inside, already.trans (clients.mpr new)⟩
    | none =>
      have room : reserved.count < reserved.slots.length := by omega
      simp only [dif_pos room, push_rules, sameRules, true_and]
      simp only [mem_append, mem_singleton, or_and_right, exists_or, exists_eq_left, clients]

end Rules

def WithinCapacity (inet : Inet) : RuleTable → List Call → Prop
  | _, [] => True
  | table, call :: rest =>
    (table.count < maxVersionIpBans ∨ ∀ parsed network, readCall inet call = some (parsed, network) →
        ∃ rule ∈ table.rules, rule.same parsed network) ∧
      WithinCapacity inet (ruleAdd inet table call).1 rest

def Equivalent (inet : Inet) (call call' : Call) : Prop :=
  ((readCall inet call).isSome ↔ (readCall inet call').isSome) ∧
    ∀ version ip, CallMatches inet call version ip ↔ CallMatches inet call' version ip

section Runs

variable {inet : Inet}

/-- The decision after a run asks the old rules and the accepted calls. -/
theorem addAll_matches (table : RuleTable) (calls : List Call) (version : Option Bytes) (ip : Bytes) :
    (∃ rule ∈ (addAll inet table calls).rules, ruleMatches inet rule version ip) ↔
      (∃ rule ∈ table.rules, ruleMatches inet rule version ip) ∨
        ∃ call ∈ accepted inet table calls, CallMatches inet call version ip := by
  induction calls generalizing table with
  | nil => simp [addAll, accepted]
  | cons call rest ih =>
    have unfolded : addAll inet table (call :: rest) = addAll inet (ruleAdd inet table call).1 rest := rfl
    rw [unfolded, ih, (ruleAdd_spec inet table call version ip).2, accepted]
    cases result : (ruleAdd inet table call).2
    · simp
    · simp [or_assoc]

/-- Within the capacity the decision asks the old rules and the calls that can be read. -/
theorem addAll_matches_read {table : RuleTable} {calls : List Call} (within : WithinCapacity inet table calls)
    (version : Option Bytes) (ip : Bytes) :
    (∃ rule ∈ (addAll inet table calls).rules, ruleMatches inet rule version ip) ↔
      (∃ rule ∈ table.rules, ruleMatches inet rule version ip) ∨
        ∃ call ∈ calls, (readCall inet call).isSome ∧ CallMatches inet call version ip := by
  induction calls generalizing table with
  | nil => simp [addAll]
  | cons call rest ih =>
    have unfolded : addAll inet table (call :: rest) = addAll inet (ruleAdd inet table call).1 rest := rfl
    obtain ⟨returned, step⟩ := ruleAdd_spec inet table call version ip
    rw [unfolded, ih within.2, step, returned, exists_mem_cons_iff, ← or_assoc]
    apply or_congr_left
    by_cases below : table.count < maxVersionIpBans
    · rw [and_iff_right below]
    · -- The table is full, but a rule for the same clients is in it.
      constructor
      · rintro (old | ⟨⟨room, _⟩, _⟩)
        · exact .inl old
        · exact absurd room below
      · rintro (old | ⟨readable, new⟩)
        · exact .inl old
        · obtain ⟨⟨parsed, network⟩, read⟩ := Option.isSome_iff_exists.mp readable
          obtain ⟨rule, member, hit⟩ := within.1.resolve_left below parsed network read
          have clients := newRule_matches read version ip
          exact .inl ⟨rule, member, (Rule.same_matches hit _ call.note version ip).trans (clients.mpr new)⟩

end Runs

theorem rulesPrepare_rules {old start : RuleTable} (prepared : rulesPrepare old = some start) : start.rules = [] := by
  rw [rulesPrepare] at prepared
  split_ifs at prepared with missing
  · obtain ⟨reserved, _, rfl⟩ := Option.map_eq_some_iff.mp prepared
    rfl
  · cases prepared
    rfl

/-- The ban decision asks whether an accepted pair matches, and only the set of pairs counts. -/
theorem shouldBan_iff_pair_matches (inet : Inet) {old start : RuleTable} (prepared : rulesPrepare old = some start) :
    (∀ calls version ip, (shouldBan inet (addAll inet start calls) version ip).isSome ↔
      ∃ call ∈ accepted inet start calls, CallMatches inet call version ip) ∧
    (∀ calls calls', WithinCapacity inet start calls → WithinCapacity inet start calls' →
      (∀ call ∈ calls, ∃ call' ∈ calls', Equivalent inet call call') →
      (∀ call' ∈ calls', ∃ call ∈ calls, Equivalent inet call call') →
      ∀ version ip, (shouldBan inet (addAll inet start calls) version ip).isSome =
        (shouldBan inet (addAll inet start calls') version ip).isSome) ∧
    (∀ table minCapacity reserved, rulesReserve table minCapacity = some reserved →
      ∀ version ip, shouldBan inet reserved version ip = shouldBan inet table version ip) ∧
    (∀ pattern, parsePattern pattern = none ↔
      versionPatternLen ≤ pattern.length ∨ trimSpace pattern = [] ∨ InnerStar (trimSpace pattern)) := by
  have empty := rulesPrepare_rules prepared
  refine ⟨?_, ?_, ?_, parsePattern_eq_none⟩
  · intro calls version ip
    rw [shouldBan_isSome, addAll_matches, empty]
    simp
  · intro calls calls' within within' covered covered' version ip
    rw [Bool.eq_iff_iff, shouldBan_isSome, shouldBan_isSome, addAll_matches_read within,
      addAll_matches_read within', empty]
    simp only [not_mem_nil, false_and, exists_false, false_or]
    constructor
    · rintro ⟨call, member, readable, hit⟩
      obtain ⟨call', member', alike, clients⟩ := covered call member
      exact ⟨call', member', alike.mp readable, (clients version ip).mp hit⟩
    · rintro ⟨call', member', readable, hit⟩
      obtain ⟨call, member, alike, clients⟩ := covered' call' member'
      exact ⟨call, member, alike.mpr readable, (clients version ip).mpr hit⟩
  · intro table minCapacity reserved grown version ip
    rw [shouldBan, shouldBan, (rulesReserve_rules grown).1]

/-- The answers of `inet_pton` on two dotted addresses. -/
def twoAddresses : Inet where
  pton4 text :=
    if text = str "10.0.0.0" then some 0x0A000000#32
    else if text = str "10.1.2.3" then some 0x0A010203#32
    else none
  pton6 _ := none
  empty4 := by decide
  empty6 := rfl
  apart _ _ := rfl

/-- A client of a banned network is refused for either order of the pairs, also when one pair is repeated. -/
theorem shouldBan_iff_pair_matches_two_orders :
    let start : RuleTable := ⟨replicate 16 Rule.zero, 0, Nat.zero_le _⟩
    let wide : Call := ⟨str " SSH-2.0-Go* ", str "10.0.0.0/8", none⟩
    let narrow : Call := ⟨str "*", str "10.1.2.3/32", some (str "scanner")⟩
    let banned := fun calls =>
      (shouldBan twoAddresses (addAll twoAddresses start calls) (some (str "SSH-2.0-Go")) (str "10.1.2.3")).isSome
    banned [wide, narrow] ∧ banned [wide, narrow] = banned [narrow, wide, narrow] := by
  intro start wide narrow banned
  have prepared : rulesPrepare ⟨[], 0, Nat.zero_le _⟩ = some start := by rfl
  have result := (shouldBan_iff_pair_matches twoAddresses prepared).2.1 [wide, narrow] [narrow, wide, narrow]
    ⟨.inl (by decide), .inl (by decide +kernel), trivial⟩
    ⟨.inl (by decide), .inl (by decide +kernel), .inl (by decide +kernel), trivial⟩
  have same : ∀ call, Equivalent twoAddresses call call := fun call => ⟨Iff.rfl, fun _ _ => Iff.rfl⟩
  refine ⟨by decide +kernel, result ?_ ?_ _ _⟩
  · intro call member
    exact ⟨call, by simp only [mem_cons] at member ⊢; tauto, same call⟩
  · intro call member
    exact ⟨call, by simp only [mem_cons] at member ⊢; tauto, same call⟩

end SshChatter.VersionBan
