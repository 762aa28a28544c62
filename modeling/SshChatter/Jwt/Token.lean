import SshChatter.Jwt.Base64Url

namespace SshChatter.Jwt
open CString List

def headerJson : Bytes := str "\x7b\"alg\":\"HS256\",\"typ\":\"JWT\"\x7d"

/-- The payload as `snprintf` would write it into a buffer without end. The expiry wraps like `time_t`. -/
def payloadText (username : Bytes) (now expirySeconds : Int64) : Bytes :=
  str "\x7b\"sub\":\"" ++ (username ++ (str "\",\"iat\":" ++ (decimalInt now.toInt ++ (str ",\"exp\":" ++
    (decimalInt (now + expirySeconds).toInt ++ str "\x7d")))))

def payloadJson (username : Bytes) (now expirySeconds : Int64) : Bytes :=
  (payloadText username now expirySeconds).take 255

section Token

variable (hmac : Bytes → Bytes → Bytes)

def jwtGenerate (secret username : Bytes) (expirySeconds now : Int64) : Bytes :=
  let headerB64 := base64urlEncode headerJson
  let payloadB64 := base64urlEncode (payloadJson username now expirySeconds)
  let signatureInput := headerB64 ++ byte '.' :: payloadB64
  signatureInput ++ byte '.' :: base64urlEncode (hmac secret signatureInput)

def expired (json : Bytes) (now : Int64) : Bool :=
  match strstr (str "\"exp\":") json with
  | some (_, expKey) => atol (expKey.drop 6) < now.toInt
  | none => false

def subject (json : Bytes) : Option Bytes :=
  match strstr (str "\"sub\":\"") json with
  | some (_, subKey) => (strchr (byte '"') (subKey.drop 7)).map Prod.fst
  | none => none

/-- This is `jwt_verify` at the given time. It also returns the username that it writes. -/
def jwtVerify (secret token : Bytes) (wantsUsername : Bool) (now : Int64) : Bool × Option Bytes :=
  match strchr (byte '.') token with
  | none => (false, none)
  | some (headerB64, rest) =>
    match strchr (byte '.') rest with
    | none => (false, none)
    | some (payloadB64, signature) =>
      if base64urlEncode (hmac secret (headerB64 ++ byte '.' :: payloadB64)) ≠ signature then (false, none)
      else
        let json := (base64urlDecode payloadB64).takeWhile (· ≠ 0)
        if expired json now then (false, none)
        else (true, if wantsUsername then subject json else none)

def TokenSound (secret username : Bytes) (expirySeconds made : Int64) : Prop :=
  ∀ now : Int64, made ≤ now →
    let result := jwtVerify hmac secret (jwtGenerate hmac secret username expirySeconds made) true now
    (result.1 ↔ now.toInt ≤ made.toInt + expirySeconds.toInt) ∧
      (result.1 → result.2 = some username)

end Token

def expiryKeyEnd (username : Bytes) (made : Int64) : Nat :=
  23 + username.length + (decimalInt made.toInt).length

/-- The username has no quote, and the cut payload keeps the digits of the expiry or needs none of them. -/
def TokenFits (username : Bytes) (expirySeconds made : Int64) : Prop :=
  byte '"' ∉ username ∧
    ((made.toInt + expirySeconds.toInt < 2 ^ 63 ∧ expiryKeyEnd username made ≤ 255 ∧
        (expiryKeyEnd username made + (decimalInt (made + expirySeconds).toInt).length ≤ 255 ∨
          made.toInt + expirySeconds.toInt = 0)) ∨
      (2 ^ 63 - 1 ≤ made.toInt + expirySeconds.toInt ∧ username.length ≤ 246 ∧
        255 < expiryKeyEnd username made))

section Payload

variable {username : Bytes} {made expirySeconds : Int64}

theorem payloadJson_nulFree (nulFree : 0 ∉ username) : 0 ∉ payloadJson username made expirySeconds := by
  have digits (value : Int) : (0 : UInt8) ∉ decimalInt value := fun member =>
    absurd (decimalInt_plain value 0 member) (by decide)
  intro member
  have inside := mem_of_mem_take member
  simp only [payloadText, mem_append] at inside
  rcases inside with h | h | h | h | h | h | h
  · exact absurd h (by decide)
  · exact nulFree h
  · exact absurd h (by decide)
  · exact digits _ h
  · exact absurd h (by decide)
  · exact digits _ h
  · exact absurd h (by decide)

variable (hmac : Bytes → Bytes → Bytes)

theorem jwtVerify_generate (secret : Bytes) (nulFree : 0 ∉ username) (now : Int64) :
    jwtVerify hmac secret (jwtGenerate hmac secret username expirySeconds made) true now =
      if expired (payloadJson username made expirySeconds) now then (false, none)
      else (true, subject (payloadJson username made expirySeconds)) := by
  have dotFree (input : Bytes) : byte '.' ∉ base64urlEncode input := fun member =>
    (base64urlEncode_ne input _ member).1 rfl
  have payload : (base64urlDecode (base64urlEncode (payloadJson username made expirySeconds))).takeWhile
      (· ≠ 0) = payloadJson username made expirySeconds :=
    base64urlDecode_encode (payloadJson_nulFree nulFree)
  simp only [jwtVerify, jwtGenerate, append_assoc, cons_append, strchr_append (dotFree _), payload]
  simp

/-- The subject is read behind its key, from the part of the username and its quote that is kept. -/
theorem subject_payload :
    ∃ tail, subject (payloadJson username made expirySeconds) =
      (strchr (byte '"') ((username ++ byte '"' :: tail).take 247)).map Prod.fst := by
  refine ⟨str ",\"iat\":" ++ (decimalInt made.toInt ++ (str ",\"exp\":" ++
    (decimalInt (made + expirySeconds).toInt ++ str "\x7d"))), ?_⟩
  generalize tailText : str ",\"iat\":" ++ (decimalInt made.toInt ++ (str ",\"exp\":" ++
    (decimalInt (made + expirySeconds).toInt ++ str "\x7d"))) = tail
  have payload : payloadJson username made expirySeconds =
      [byte '\x7b'] ++ (str "\"sub\":\"" ++ (username ++ byte '"' :: tail).take 247) := by
    rw [← tailText]
    rfl
  have key : strstr (str "\"sub\":\"") (payloadJson username made expirySeconds) =
      some ([byte '\x7b'], str "\"sub\":\"" ++ (username ++ byte '"' :: tail).take 247) := by
    rw [payload]
    rfl
  rw [subject, key]
  rfl

/-- The subject is the username exactly when it has no quote and its closing quote is kept. -/
theorem subject_payload_iff :
    subject (payloadJson username made expirySeconds) = some username ↔
      byte '"' ∉ username ∧ username.length ≤ 246 := by
  obtain ⟨tail, read⟩ : ∃ tail, subject (payloadJson username made expirySeconds) =
      (strchr (byte '"') ((username ++ byte '"' :: tail).take 247)).map Prod.fst := subject_payload
  rw [read]
  constructor
  · intro same
    obtain ⟨⟨name, rest⟩, hit, same⟩ := Option.map_eq_some_iff.mp same
    dsimp only at same
    rw [same] at hit
    obtain ⟨cut, quoteFree⟩ := strchr_some hit
    have length := congrArg length cut
    rw [length_take, length_append, length_append, length_cons, length_cons] at length
    exact ⟨quoteFree, by omega⟩
  · rintro ⟨quoteFree, short⟩
    have kept : (username ++ byte '"' :: tail).take 247 =
        username ++ byte '"' :: tail.take (246 - username.length) := by
      rw [take_append, take_of_length_le (by omega),
        show 247 - username.length = 246 - username.length + 1 by omega, take_succ_cons]
    rw [kept, strchr_append quoteFree]
    rfl

theorem username_not_expiry (quoteFree : byte '"' ∉ username) (text : Bytes) :
    ¬ str "exp\":" <+: username ++ byte '"' :: (str "," ++ text) := by
  rintro ⟨rest, same⟩
  have absent : byte '"' ∉ str "exp" := by decide
  have key : strchr (byte '"') (str "exp\":" ++ rest) = some (str "exp", str ":" ++ rest) :=
    strchr_append absent (str ":" ++ rest)
  rw [same, strchr_append quoteFree] at key
  have behind := (Prod.mk.inj (Option.some.inj key)).2
  exact absurd (cons.inj behind).1 (by decide)

/-- The first expiry key of the whole payload is the one that the generator writes. -/
theorem strstr_payloadText (quoteFree : byte '"' ∉ username) :
    (strstr (str "\"exp\":") (payloadText username made expirySeconds)).map Prod.snd =
      some (str "\"exp\":" ++ (decimalInt (made + expirySeconds).toInt ++ str "\x7d")) := by
  have other (segment text : Bytes) (different : segment.head?.getD (byte 'e') ≠ byte 'e') :
      ¬ str "exp\":" <+: segment ++ text := by
    cases segment with
    | nil => exact absurd rfl different
    | cons => exact fun starts => different (cons_prefix_cons.mp starts).1.symm
  have digits : byte '"' ∉ str ":" ++ (decimalInt made.toInt ++ str ",") := by
    rw [mem_append, mem_append, not_or, not_or]
    exact ⟨by decide, fun member => absurd (decimalInt_plain _ _ member) (by decide), by decide⟩
  generalize expiry : decimalInt (made + expirySeconds).toInt ++ str "\x7d" = rest
  have payload : payloadText username made expirySeconds = str "\x7b" ++ (byte '"' :: (str "sub" ++
      (byte '"' :: (str ":" ++ (byte '"' :: (username ++ (byte '"' :: (str "," ++ (byte '"' :: (str "iat" ++
        (byte '"' :: ((str ":" ++ (decimalInt made.toInt ++ str ",")) ++
          (str "\"exp\":" ++ rest))))))))))))) := by
    rw [← expiry, append_assoc, append_assoc]
    rfl
  rw [payload, show str "\"exp\":" = byte '"' :: str "exp\":" from rfl, strstr_skip (by decide), Option.map_map]
  calc (strstr (byte '"' :: str "exp\":") _).map Prod.snd
      = _ := strstr_segment (by decide) (other (str "sub") _ (by decide))
    _ = _ := strstr_segment (by decide) (other (str ":") _ (by decide))
    _ = _ := strstr_segment quoteFree (username_not_expiry quoteFree _)
    _ = _ := strstr_segment (by decide) (other (str ",") _ (by decide))
    _ = _ := strstr_segment (by decide) (other (str "iat") _ (by decide))
    _ = _ := strstr_segment digits (other _ _ (show byte ':' ≠ byte 'e' by decide))
    _ = some (str "\"exp\":" ++ rest) := by rw [strstr_self (by decide)]; rfl

def keptExpiry (username : Bytes) (made expirySeconds : Int64) : Int :=
  atol ((decimalInt (made + expirySeconds).toInt ++ str "\x7d").take (255 - expiryKeyEnd username made))

theorem expired_payload (quoteFree : byte '"' ∉ username) (now : Int64) :
    expired (payloadJson username made expirySeconds) now =
      decide (expiryKeyEnd username made ≤ 255 ∧ keptExpiry username made expirySeconds < now.toInt) := by
  have search : (strstr (str "\"exp\":") (payloadText username made expirySeconds)).map Prod.snd =
      some (str "\"exp\":" ++ (decimalInt (made + expirySeconds).toInt ++ str "\x7d")) :=
    strstr_payloadText quoteFree
  obtain ⟨⟨front, found⟩, hit, same⟩ := Option.map_eq_some_iff.mp search
  subst same
  have key : front.length + 6 = expiryKeyEnd username made := by
    have length := congrArg length (strstr_some hit).1
    simp only [payloadText, length_append, show (str "\x7b\"sub\":\"").length = 8 from rfl,
      show (str "\",\"iat\":").length = 8 from rfl, show (str ",\"exp\":").length = 7 from rfl,
      show (str "\"exp\":").length = 6 from rfl] at length
    unfold expiryKeyEnd
    omega
  have cut := strstr_take hit 255
  rw [show (str "\"exp\":").length = 6 from rfl, key] at cut
  rw [expired, payloadJson, cut]
  by_cases fits : expiryKeyEnd username made ≤ 255
  · have digits : ((str "\"exp\":" ++ (decimalInt (made + expirySeconds).toInt ++ str "\x7d")).take
        (255 - front.length)).drop 6 =
        (decimalInt (made + expirySeconds).toInt ++ str "\x7d").take (255 - expiryKeyEnd username made) := by
      rw [drop_take, ← key]
      rfl
    rw [if_pos fits]
    simp only [digits, keptExpiry, fits, true_and]
  · rw [if_neg fits]
    simp only [fits, false_and, decide_false]

/-- The kept expiry is the written one exactly when the cut leaves all its digits, or it is zero. -/
theorem keptExpiry_eq_iff (fits : expiryKeyEnd username made ≤ 255) :
    keptExpiry username made expirySeconds = (made + expirySeconds).toInt ↔
      expiryKeyEnd username made + (decimalInt (made + expirySeconds).toInt).length ≤ 255 ∨
        (made + expirySeconds).toInt = 0 := by
  unfold keptExpiry
  generalize expiryKeyEnd username made = key at fits ⊢
  by_cases whole : (decimalInt (made + expirySeconds).toInt).length ≤ 255 - key
  · have stops : ∀ c, ((str "\x7d").take (255 - key - (decimalInt (made + expirySeconds).toInt).length)).head? =
        some c → isDigit c = false := by
      intro c first
      have member := mem_of_mem_take (mem_of_mem_head? first)
      rw [mem_singleton.mp member]
      decide
    rw [take_append, take_of_length_le whole,
      atol_decimalInt (Int64.le_toInt _) (Int64.toInt_lt _) stops]
    exact ⟨fun _ => .inl (by omega), fun _ => rfl⟩
  · rw [take_append_of_le_length (by omega), atol_decimalInt_take (by omega)]
    exact ⟨.inr, fun either => either.resolve_left (by omega)⟩

theorem tokenSound_iff (secret : Bytes) (nulFree : 0 ∉ username) :
    TokenSound hmac secret username expirySeconds made ↔
      ∀ now : Int64, made ≤ now →
        (expired (payloadJson username made expirySeconds) now = false ↔
          now.toInt ≤ made.toInt + expirySeconds.toInt) ∧
        (expired (payloadJson username made expirySeconds) now = false →
          subject (payloadJson username made expirySeconds) = some username) := by
  apply forall₂_congr
  intro now _
  rw [jwtVerify_generate hmac secret nulFree now]
  cases expired (payloadJson username made expirySeconds) now <;> simp

end Payload

section Soundness

variable {username : Bytes} {made expirySeconds : Int64}

/-- The written expiry is the sum when the sum is a `time_t`. -/
theorem expiry_toInt (natural : 0 ≤ expirySeconds) (small : made.toInt + expirySeconds.toInt < 2 ^ 63) :
    (made + expirySeconds).toInt = made.toInt + expirySeconds.toInt := by
  have low := Int64.le_toInt made
  have positive := Int64.le_iff_toInt_le.mp natural
  rw [Int64.toInt_zero] at positive
  rw [Int64.toInt_add, Int.bmod_eq_of_le (by omega) (by omega)]

theorem expiry_negative (large : 2 ^ 63 ≤ made.toInt + expirySeconds.toInt) :
    (made + expirySeconds).toInt < 0 := by
  have highMade := Int64.toInt_lt made
  have highExpiry := Int64.toInt_lt expirySeconds
  rw [Int64.toInt_add, Int.bmod_def]
  split <;> omega

theorem fits_of_sound (natural : 0 ≤ expirySeconds)
    (sound : ∀ now : Int64, made ≤ now →
      (expired (payloadJson username made expirySeconds) now = false ↔
        now.toInt ≤ made.toInt + expirySeconds.toInt) ∧
      (expired (payloadJson username made expirySeconds) now = false →
        subject (payloadJson username made expirySeconds) = some username)) :
    TokenFits username expirySeconds made := by
  have positive := Int64.le_iff_toInt_le.mp natural
  rw [Int64.toInt_zero] at positive
  -- The token is accepted when it is made, so the name is intact.
  have fresh := sound made (Int64.le_iff_toInt_le.mpr (Int.le_refl _))
  obtain ⟨quoteFree, short⟩ := subject_payload_iff.mp (fresh.2 (fresh.1.mpr (by omega)))
  have accepted (now : Int64) (since : made.toInt ≤ now.toInt) :
      ¬ (expiryKeyEnd username made ≤ 255 ∧ keptExpiry username made expirySeconds < now.toInt) ↔
        now.toInt ≤ made.toInt + expirySeconds.toInt := by
    rw [← (sound now (Int64.le_iff_toInt_le.mpr since)).1, expired_payload quoteFree, decide_eq_false_iff_not]
  refine ⟨quoteFree, ?_⟩
  by_cases fits : expiryKeyEnd username made ≤ 255
  · left
    have small : made.toInt + expirySeconds.toInt < 2 ^ 63 := by
      by_contra large
      have highExpiry := Int64.toInt_lt expirySeconds
      have kept : keptExpiry username made expirySeconds ≤ 0 := atol_nonpos (expiry_negative (by omega)) _ _
      have rejected := (accepted made (Int.le_refl _)).mpr (by omega)
      exact rejected ⟨fits, by omega⟩
    have sum := expiry_toInt natural small
    -- The sum is the last time that is accepted, and so is the kept expiry.
    have atSum := (accepted (made + expirySeconds) (by omega)).mpr (by omega)
    have range := atol_range ((decimalInt (made + expirySeconds).toInt ++ str "\x7d").take
      (255 - expiryKeyEnd username made))
    have time : (Int64.ofInt (keptExpiry username made expirySeconds)).toInt =
        keptExpiry username made expirySeconds := Int64.toInt_ofInt_of_le range.1 range.2
    have atKept := (accepted (Int64.ofInt (keptExpiry username made expirySeconds))
      (by rw [time]; omega)).mp (by rw [time]; omega)
    have same : keptExpiry username made expirySeconds = (made + expirySeconds).toInt := by omega
    have digits := (keptExpiry_eq_iff fits).mp same
    rw [sum] at digits ⊢
    exact ⟨small, fits, digits⟩
  · right
    have last := (accepted Int64.maxValue (Int64.toInt_le made)).mp fun both => fits both.1
    exact ⟨last, short, by omega⟩

theorem sound_of_fits (natural : 0 ≤ expirySeconds) (fits : TokenFits username expirySeconds made)
    (now : Int64) :
    (expired (payloadJson username made expirySeconds) now = false ↔
      now.toInt ≤ made.toInt + expirySeconds.toInt) ∧
    subject (payloadJson username made expirySeconds) = some username := by
  obtain ⟨quoteFree, kept⟩ := fits
  rw [expired_payload quoteFree, decide_eq_false_iff_not, subject_payload_iff]
  rcases kept with ⟨small, key, digits⟩ | ⟨large, short, cut⟩
  · have sum := expiry_toInt natural small
    have same : keptExpiry username made expirySeconds = (made + expirySeconds).toInt := by
      rw [keptExpiry_eq_iff key, sum, ← sum]
      rw [← sum] at digits
      exact digits
    have longer : username.length ≤ 246 := by
      unfold expiryKeyEnd at key
      omega
    exact ⟨by omega, quoteFree, longer⟩
  · have high := Int64.toInt_lt now
    exact ⟨by omega, quoteFree, short⟩

end Soundness

/-- The token is sound exactly when the username has no quote and the payload fits. -/
theorem token_sound_iff_fits (hmac : Bytes → Bytes → Bytes) (secret : Bytes) {username : Bytes}
    (nulFree : 0 ∉ username) {expirySeconds : Int64} (natural : 0 ≤ expirySeconds) (made : Int64) :
    TokenSound hmac secret username expirySeconds made ↔ TokenFits username expirySeconds made := by
  rw [tokenSound_iff hmac secret nulFree]
  refine ⟨fits_of_sound natural, fun fits now _ => ?_⟩
  obtain ⟨accepted, named⟩ := sound_of_fits natural fits now
  exact ⟨accepted, fun _ => named⟩

/-- The value of HMAC-SHA256 for the token of alice under the secret of this sample. -/
def sampleHmac : Bytes → Bytes → Bytes := fun _ _ =>
  [193, 129, 85, 124, 235, 7, 155, 216, 93, 230, 195, 151, 210, 254, 128, 208, 228, 92, 251, 85, 124, 9, 65,
    173, 157, 236, 103, 85, 40, 160, 87, 98]

/-- A short name and a date of today fit, so the token of alice is sound. -/
theorem token_sound_iff_fits_alice :
    TokenSound sampleHmac (str "key") (str "alice") 3600 1700000000 :=
  (token_sound_iff_fits sampleHmac (str "key") (by decide) (by decide) 1700000000).mpr
    ⟨by decide, .inl ⟨by decide, by decide +kernel, .inl (by decide +kernel)⟩⟩

/-- The value of HMAC-SHA256 for the token of a name with a quote. -/
def quotedHmac : Bytes → Bytes → Bytes := fun _ _ =>
  [233, 39, 204, 33, 118, 146, 108, 102, 20, 64, 184, 99, 129, 184, 175, 148, 204, 9, 16, 83, 140, 247, 141,
    133, 21, 187, 20, 173, 138, 166, 222, 116]

/-- A quote in the username ends the subject early. -/
theorem token_quoted_username :
    ¬ ∀ (hmac : Bytes → Bytes → Bytes) (secret username : Bytes) (expirySeconds made : Int64),
      0 ∉ username → 0 ≤ expirySeconds → TokenSound hmac secret username expirySeconds made := by
  intro claim
  have sound := claim quotedHmac (str "key") (str "a\"b") 3600 1700000000 (by decide) (by decide)
  have named := (sound 1700000000 (by decide)).2 (by decide +kernel)
  exact absurd named (by decide +kernel)

end SshChatter.Jwt
