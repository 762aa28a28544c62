import SshChatter.Ddial.Roster
import SshChatter.Lib.KeyedList

namespace SshChatter.DdialRoster
open CString OpenAddressing List

/-- This is `strcasecmp` in the C locale. -/
def sameName (first second : Bytes) : Prop := first.map toLower = second.map toLower

instance (first second : Bytes) : Decidable (sameName first second) := inferInstanceAs (Decidable (_ = _))

def isEntry (p : Bytes) : Bool :=
  match p with
  | hash :: digits =>
    if hash = byte '#' ∧ digits.head?.any isDigit then
      match digits.dropWhile isDigit with
      | bracket :: letter :: digit :: _ =>
        (bracket = byte '(' ∨ bracket = byte '[' ∨ bracket = byte '<') ∧ letter = byte 'T' ∧ isDigit digit
      | _ => false
    else false
  | [] => false

def nextEntryFrom (before : Option UInt8) : Bytes → Option Bytes
  | [] => none
  | c :: rest =>
    if c = byte '#' ∧ (before = none ∨ before = some (byte ' ') ∨ before = some (byte '^')) ∧ isEntry (c :: rest) then
      some (c :: rest)
    else nextEntryFrom (some c) rest

def nextEntry (p : Bytes) : Option Bytes := nextEntryFrom none p

/-- The results of `ddial_roster_parse_identity`. -/
structure RosterIdentity where
  linkSlot : UInt16
  slot : UInt16
  isLink : Bool
  handle : Bytes

def endsHandle (c : UInt8) : Bool :=
  c = byte '^' ∨ c = byte ':' ∨ c = byte '*' ∨ c = byte ')' ∨ c = byte ']' ∨ c = byte '>'

/-- A number in front of a text, when the text starts with one. A number that is no slot has no result. -/
def leadingSlot (p : Bytes) : Option (UInt16 × Bytes) :=
  if p.head?.any isDigit then
    if 65535 < (strtoul p).1 then none else some (UInt16.ofNat (strtoul p).1, (strtoul p).2)
  else some (0, p)

/-- The part of `ddial_roster_parse_identity` behind the link slot. -/
def parseEntry (p : Bytes) (limit : Option Bytes) (cap : Nat) (linkSlot : UInt16) : Option RosterIdentity :=
  if isEntry p = false then none
  else if 65535 < (strtoul p.tail).1 then none
  else
    match ((strtoul p.tail).2.drop 2).dropWhile isDigit with
    | kind :: start =>
      if kind ≠ byte ':' ∧ kind ≠ byte '=' then none
      else
        let before := match limit with
          | some limit => start.take (start.length - limit.length)
          | none => start
        let handle := (before.takeWhile fun c => !endsHandle c).rdropWhile fun c => c = byte ' '
        if handle = [] then none
        else some ⟨linkSlot, UInt16.ofNat (strtoul p.tail).1, kind = byte '=', handle.take (cap - 1)⟩
    | [] => none

def parseIdentity (p : Bytes) (limit : Option Bytes) (cap : Nat) : Option RosterIdentity :=
  (leadingSlot p).bind fun link =>
    if p.head?.any isDigit ∧ link.2.head? ≠ some (byte '#') then none else parseEntry link.2 limit cap link.1

/-- The head of a station list: the link slot, the name of the station and the first entry. -/
structure Heading where
  linkSlot : UInt16
  station : Bytes
  first : Option Bytes
  deriving DecidableEq

def entryUser (q : Bytes) : Option RosterIdentity :=
  (parseIdentity q (nextEntry q.tail) 32).filter fun user => !user.isLink

def Gone (station : Bytes) (listed : List Key) (entry : Entry) : Prop :=
  sameName entry.station.text station ∧ entry.key ∉ listed

instance (station : Bytes) (listed : List Key) (entry : Entry) : Decidable (Gone station listed entry) :=
  inferInstanceAs (Decidable (_ ∧ _))

def sweep (station : Bytes) (listed : List Key) : List (Fin buckets) → Roster → Roster
  | [], roster => roster
  | i :: rest, roster =>
    sweep station listed rest
      (if roster.state i = .used ∧ Gone station listed (roster.entries i) then roster.removeAtLocked i else roster)

def left : Option Bytes → Nat
  | some q => q.length + 1
  | none => 0

section Scanning

variable {p q : Bytes} {before : Option UInt8}

theorem nextEntryFrom_some (found : nextEntryFrom before p = some q) : q <:+ p ∧ isEntry q := by
  induction p generalizing before with
  | nil => cases found
  | cons c rest ih =>
    rw [nextEntryFrom] at found
    split_ifs at found with entry
    · cases found
      exact ⟨suffix_rfl, entry.2.2⟩
    · obtain ⟨suffix, isEntry'⟩ := ih found
      exact ⟨suffix.trans (suffix_cons _ _), isEntry'⟩

theorem left_next (q : Bytes) : left (nextEntry q.tail) < left (some q) := by
  cases found : nextEntry q.tail with
  | none => exact Nat.succ_pos _
  | some next =>
    obtain ⟨suffix, isEntry'⟩ := nextEntryFrom_some found
    have shorter := suffix.length_le
    have some' : next ≠ [] := by
      rintro rfl
      cases isEntry'
    have positive := length_pos_iff.mpr some'
    rw [length_tail] at shorter
    simp only [left]
    omega

end Scanning

def listedUsers : Option Bytes → List RosterIdentity
  | none => []
  | some q => (entryUser q).toList ++ listedUsers (nextEntry q.tail)
termination_by q => left q
decreasing_by exact left_next q

namespace Heading

def keyOf (heading : Heading) (user : RosterIdentity) : Key := makeKey user.handle heading.linkSlot user.slot

def entryOf (heading : Heading) (user : RosterIdentity) : Entry :=
  ⟨heading.keyOf user, .print user.handle, .print heading.station, heading.linkSlot, user.slot⟩

end Heading

def Roster.Holds (roster : Roster) (entry : Entry) : Prop := ∃ idx, roster.state idx = .used ∧
    roster.entries idx = entry

structure RoomFor (map : RosterMap) (heading : Heading) : Prop where
  users : (map.keys ∪ ((listedUsers heading.first).map heading.keyOf).toFinset).card ≤ maxUsers
  keys : (listedUsers heading.first).length ≤ maxUsers

section Puts

variable {roster : Roster} {map : RosterMap} {handle : Bytes} {linkSlot slot : UInt16} {station : Bytes} {key : Key}

end Puts

section Lists

variable {heading : Heading} {q : Option Bytes} {user : RosterIdentity}

variable {roster : Roster} {map : RosterMap}

end Lists

section Sweeping

variable (station : Bytes) (listed : List Key)

end Sweeping

section Noting

variable {roster : Roster} {map : RosterMap} {heading : Heading}

end Noting

section Lengths

variable {p q next : Bytes} {before : Option UInt8} {user : RosterIdentity}

end Lengths

end SshChatter.DdialRoster
