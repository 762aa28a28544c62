import SshChatter.Ddial.ClientLine
import SshChatter.Ddial.LinkRoundTrip

namespace SshChatter.Ddial
open CString DdialProtocol List

/-- This is the format `(%03u:%s) %s` behind the numbers of an e-mail line. -/
def mailSender (fromAccount : UInt16) (fromHandle message : Bytes) : Bytes :=
  byte '(' :: decimalPadded fromAccount.toNat ++ byte ':' :: sanitizeHandle fromHandle maxHandleLen ++
    byte ')' :: byte ' ' :: cleanBody message (maxBodyLen + 1)

/-- This is the format `/E~%03u(%03u:%s) %s`. The station stands alone in front of the bracket. -/
def linkEmailLine (toStation fromAccount : UInt16) (fromHandle message : Bytes) : Bytes :=
  str "/E~" ++ decimalPadded toStation.toNat ++ mailSender fromAccount fromHandle message

def formatLinkEmail (dstCap : Nat) (toStation fromAccount : UInt16) (fromHandle message : Bytes) : Option Bytes :=
  snprintf dstCap (linkEmailLine toStation fromAccount fromHandle message ++ crlf)

theorem decimalPadded_length {n places : Nat} (small : n < 10 ^ places) (three : 3 ≤ places) :
    3 ≤ (decimalPadded n).length ∧ (decimalPadded n).length ≤ places := by
  have short := decimal_length small (lt_of_lt_of_le (by decide) three)
  rw [decimalPadded, length_append, length_replicate]
  omega

section Parse

variable {dstCap : Nat} {toStation fromAccount : UInt16} {fromHandle message wire : Bytes}

theorem parseIncomingEmail_digits {handleCap : Nat} {line : Bytes}
    (accepted : (parseIncomingEmail handleCap line).isSome) : ∀ c ∈ (line.drop 3).take 6, isDigit c := by
  rw [parseIncomingEmail.eq_def] at accepted
  split at accepted
  next slash letter tilde a b c d e f p =>
    split_ifs at accepted with mark digits
    · cases accepted
    · exact all_eq_true.mp digits
    · cases accepted
  next => cases accepted

theorem parseIncomingEmail_linkEmailLine (handleCap : Nat) (toStation fromAccount : UInt16)
    (fromHandle message : Bytes) :
    parseIncomingEmail handleCap (linkEmailLine toStation fromAccount fromHandle message) = none := by
  rw [← Option.not_isSome_iff_eq_none]
  intro accepted
  have digits := parseIncomingEmail_digits accepted
  have bound := toStation.toNat_lt
  have length := (decimalPadded_length (by omega : toStation.toNat < 10 ^ 5) (by decide)).2
  have bracket : byte '(' ∈ (decimalPadded toStation.toNat ++ mailSender fromAccount fromHandle message).take 6 := by
    rw [take_append]
    apply mem_append_right
    obtain ⟨room, six⟩ : ∃ room, 6 - (decimalPadded toStation.toNat).length = room + 1 :=
      ⟨5 - (decimalPadded toStation.toNat).length, by omega⟩
    rw [six]
    exact mem_cons_self
  exact absurd (digits _ bracket) (by decide)

def EmailRoundTrip (wire : Bytes) (fromAccount : UInt16) (fromHandle message : Bytes) : Prop :=
  ∃ line mail, wire = line ++ crlf ∧ parseIncomingEmail maxHandleLen line = some mail ∧
    mail.fromId = fromAccount.toNat ∧ mail.handle = sanitizeHandle fromHandle maxHandleLen ∧
      mail.message = cleanBody message (maxBodyLen + 1)

/-- No e-mail line that is sent is accepted. -/
theorem link_email_refused (sent : formatLinkEmail dstCap toStation fromAccount fromHandle message = some wire) :
    ¬ EmailRoundTrip wire fromAccount fromHandle message := by
  rintro ⟨line, mail, terminated, accepted, -⟩
  rw [snprintf_eq_some sent] at terminated
  rw [← append_cancel_right terminated, parseIncomingEmail_linkEmailLine] at accepted
  cases accepted

/-- A line of the documented form, as it is sent for a small station. -/
def sampleMail : { wire : Bytes // formatLinkEmail 512 1 2 (str "User") (str "hello") = some wire } :=
  ⟨str "/E~001(002:User) hello" ++ crlf, by decide +kernel⟩

/-- A mail of the documented form is refused. -/
theorem sample_email_refused :
    ¬ EmailRoundTrip (str "/E~001(002:User) hello" ++ crlf) 2 (str "User") (str "hello") :=
      link_email_refused sampleMail.2

/-- The encoder and the decoder do not agree on a small station. -/
theorem email_codec_disagrees : ¬ ∀ (dstCap : Nat) (toStation fromAccount : UInt16) (fromHandle message wire : Bytes),
    toStation < 1000 → fromAccount < 1000 → formatLinkEmail dstCap toStation fromAccount fromHandle message =
    some wire → EmailRoundTrip wire fromAccount fromHandle message := by
  intro agrees
  have sent : formatLinkEmail 512 1 2 (str "User") (str "hello") = some (str "/E~001(002:User) hello" ++ crlf) :=
    sampleMail.2
  obtain ⟨line, mail, terminated, accepted, -⟩ := agrees _ 1 2 _ _ _ (by decide) (by decide) sent
  rw [← append_cancel_right terminated] at accepted
  have refused : parseIncomingEmail maxHandleLen (str "/E~001(002:User) hello") = none := by decide +kernel
  rw [refused] at accepted
  cases accepted

end Parse

end SshChatter.Ddial
