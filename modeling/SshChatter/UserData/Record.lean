import SshChatter.Lib.CString

namespace SshChatter.UserData
open CString List

/-- The fields of `user_data_record_t` that the load and the save read or write. -/
structure Record where
  magic : UInt32
  version : UInt32
  username : CBuffer 256
  hasUserTheme : UInt8
  userIsBold : UInt8
  lastIp : CBuffer 64
  mailboxCount : UInt32
  profilePicture : CBuffer 20480
  flagHistoryCount : UInt32
  lastUpdated : UInt64
  passwordHash : List UInt8
  reservedIpWide : UInt8
  deriving DecidableEq

instance lastIpRoom : NeZero 64 := ⟨by decide⟩

instance usernameRoom : NeZero 256 := ⟨by decide⟩

instance profilePictureRoom : NeZero 20480 := ⟨by decide⟩

def userDataMagic : UInt32 := 0x4D424F58

def userDataVersion : UInt32 := 7

def variantLimit : Nat := 32

def hasPassword (record : Record) : Bool := record.passwordHash.any fun c => c ≠ 0

def isIpWide (record : Record) : Bool := record.reservedIpWide ≠ 0

/-- This is `isalnum` in the C locale. -/
def isAlnum (c : UInt8) : Bool := isDigit c ∨ (65 ≤ c ∧ c ≤ 90) ∨ (97 ≤ c ∧ c ≤ 122)

/-- A letter, a digit and three signs stay, a blank is dropped, and any other byte becomes an underscore. -/
def sanitizeByte (c : UInt8) : Option UInt8 :=
  if isAlnum c then some c
  else if c = byte '-' ∨ c = byte '_' ∨ c = byte '.' then some c
  else if isSpace c then none
  else some (byte '_')

def sanitizeUsername (username : Bytes) : Option Bytes :=
  if username = [] then none
  else
    let sanitized := ((username.take 256).map toLower).filterMap sanitizeByte
    some (if sanitized = [] then str "user" else sanitized)

def variantName (base : Bytes) (index : Nat) : Bytes :=
  if index = 0 then base else base ++ byte '-' :: decimal index

def stripColumnReset : Bytes → Bytes
  | [] => []
  | 27 :: 91 :: 49 :: 71 :: text => stripColumnReset text
  | 91 :: 49 :: 71 :: text => stripColumnReset text
  | c :: text => c :: stripColumnReset text

def normalizeRecord (record : Record) (username : Bytes) : Record :=
  { record with
    mailboxCount := if 32 < record.mailboxCount then 32 else record.mailboxCount
    flagHistoryCount := if 16 < record.flagHistoryCount then 16 else record.flagHistoryCount
    hasUserTheme := if record.hasUserTheme ≠ 0 then 1 else 0
    userIsBold := if record.userIsBold ≠ 0 then 1 else 0
    profilePicture := .print (stripColumnReset record.profilePicture.text)
    username := if username = [] then record.username else .print username }

section Names

theorem sanitizeUsername_isSome {username : Bytes} (nonEmpty : username ≠ []) :
    ∃ base, sanitizeUsername username = some base := by
  rw [sanitizeUsername, if_neg nonEmpty]
  exact ⟨_, rfl⟩

theorem decimal_inj {n n' : Nat} (same : decimal n = decimal n') : n = n' := by
  rw [← digitsValue_decimal n, same, digitsValue_decimal]

variable {index index' : Nat}

theorem numbered_inj {base base' : Bytes}
    (same : base ++ byte '-' :: decimal index = base' ++ byte '-' :: decimal index') :
    base = base' ∧ index = index' := by
  -- The digits hold no dash, so the last dash is found from the end.
  have found (text : Bytes) (n : Nat) :
      strchr (byte '-') (text ++ byte '-' :: decimal n).reverse =
        some ((decimal n).reverse, text.reverse) := by
    have absent : byte '-' ∉ (decimal n).reverse := by
      intro member
      have digit := decimal_isDigit n _ (mem_reverse.mp member)
      exact absurd digit (by decide)
    rw [reverse_append, reverse_cons, append_assoc]
    exact strchr_append absent text.reverse
  have cut := found base index
  rw [same, found base' index'] at cut
  obtain ⟨digits, front⟩ := Prod.mk.inj (Option.some.inj cut)
  exact ⟨(reverse_inj.mp front).symm, (decimal_inj (reverse_inj.mp digits)).symm⟩

theorem variantName_inj {base : Bytes} (same : variantName base index = variantName base index') :
    index = index' := by
  have longer (n : Nat) : base ≠ base ++ byte '-' :: decimal n := by
    intro equal
    have length := congrArg length equal
    rw [length_append, length_cons] at length
    omega
  unfold variantName at same
  split at same <;> split at same
  next first second => rw [first, second]
  next => exact absurd same (longer _)
  next => exact absurd same.symm (longer _)
  next => exact (numbered_inj same).2

def Apart (base base' : Bytes) : Prop :=
  base ≠ base' ∧ ∀ index < variantLimit, 0 < index →
    base ≠ variantName base' index ∧ base' ≠ variantName base index

theorem Apart.variants {base base' : Bytes} (apart : Apart base base') (inside : index < variantLimit)
    (inside' : index' < variantLimit) :
    variantName base index ≠ variantName base' index' := by
  intro same
  by_cases first : index = 0
  · by_cases second : index' = 0
    · rw [first, second] at same
      exact apart.1 same
    · rw [first] at same
      exact (apart.2 index' inside' (pos_of_ne_zero second)).1 same
  · by_cases second : index' = 0
    · rw [second] at same
      exact (apart.2 index inside (pos_of_ne_zero first)).2 same.symm
    · rw [variantName, if_neg first, variantName, if_neg second] at same
      exact apart.1 (numbered_inj same).1

end Names

end SshChatter.UserData
