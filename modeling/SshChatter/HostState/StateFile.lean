import SshChatter.HostState.PreferenceEntry
import SshChatter.Lib.RecordStream
import SshChatter.Lib.LineStream

namespace SshChatter.HostState
open CString RecordLayout

def littleEndianInt (bytes : Bytes) : Int :=
  if 2 * unsigned bytes < 256 ^ bytes.length then unsigned bytes
  else (unsigned bytes : Int) - 256 ^ bytes.length

def hostStateMagic : Nat := 0x53484354
def hostStateVersion : Nat := 16

/-- This is `host_state_header_v1_t` less its magic number. -/
structure BaseHeader where
  version : Nat
  historyCount : Nat
  preferenceCount : Nat

def readBaseHeader (file : Bytes) : Option (BaseHeader × Bytes) :=
  match fread 16 file with
  | none => none
  | some (bytes, rest) =>
    let header : BaseHeader := ⟨unsigned ((bytes.drop 4).take 4), unsigned ((bytes.drop 8).take 4),
      unsigned ((bytes.drop 12).take 4)⟩
    if unsigned (bytes.take 4) ≠ hostStateMagic then none
    else if header.version = 0 ∨ hostStateVersion < header.version then none
    else some (header, rest)

/-- What `host_state_read_metadata` returns. -/
structure Metadata where
  nextMessageId : Nat
  grantCount : Nat
  captchaEnabledRaw : UInt8
  geoLanguageEnabledRaw : UInt8

/-- The second part of the header: two counts, of which the first is unused, and the next id. -/
def readCounts (version : Nat) (file : Bytes) : Option (Metadata × Bytes) :=
  if 2 ≤ version then
    (fread 16 file).map fun found =>
      (⟨unsigned ((found.1.drop 8).take 8),
        if 5 ≤ version then unsigned ((found.1.drop 4).take 4) else 0, 0, 0⟩, found.2)
  else some (⟨1, 0, 0, 0⟩, file)

def readMetadata (version : Nat) (file : Bytes) : Option (Metadata × Bytes) :=
  match readCounts version file with
  | none => none
  | some (metadata, rest) =>
    if 8 ≤ version then
      (fread 8 rest).map fun found =>
        ({ metadata with
            captchaEnabledRaw := found.1.getD 0 0
            geoLanguageEnabledRaw := if 13 ≤ version then found.1.getD 1 0 else 0 }, found.2)
    else some (metadata, rest)

section History

/-- The fields of `host_state_history_entry_t`. -/
inductive HistoryField where
  | isUserMessage | userIsBold | username | message | userColorName | userHighlightName | rawUsername | messageId
  | createdAt | attachmentType | reserved | attachmentTarget | attachmentCaption | userColorCode | userHighlightCode
  | reactionCounts
  deriving DecidableEq

open HistoryField

def messageLimit : Nat := 4096
def attachmentTargetLen : Nat := 256
def attachmentCaptionLen : Nat := 256

def historyEntry : List (Member HistoryField) :=
  [⟨isUserMessage, 1, 1⟩, ⟨userIsBold, 1, 1⟩, ⟨username, usernameLen, 1⟩, ⟨message, messageLimit, 1⟩,
    ⟨userColorName, colorNameLen, 1⟩, ⟨userHighlightName, colorNameLen, 1⟩, ⟨rawUsername, usernameLen, 1⟩,
    ⟨messageId, 8, 8⟩, ⟨createdAt, 8, 8⟩, ⟨attachmentType, 1, 1⟩, ⟨reserved, 7, 1⟩,
    ⟨attachmentTarget, attachmentTargetLen, 1⟩, ⟨attachmentCaption, attachmentCaptionLen, 1⟩,
    ⟨userColorCode, colorCodeLen, 1⟩, ⟨userHighlightCode, colorCodeLen, 1⟩, ⟨reactionCounts, 28, 4⟩]

/-- The fields of `chat_history_entry_t` that are loaded. -/
structure ChatHistoryEntry where
  isUserMessage : Bool
  preserveWhitespace : Bool
  message : Bytes
  username : Bytes
  rawUsername : Bytes
  userColorCode : Bytes
  userHighlightCode : Bytes
  userIsBold : Bool
  userColorName : Bytes
  userHighlightName : Bytes
  messageId : Nat
  attachmentType : Nat
  attachmentTarget : Bytes
  attachmentCaption : Bytes
  createdAt : Int
  reactionCounts : Bytes
  deriving DecidableEq

section Fields

variable {Field : Type} [DecidableEq Field] (members : List (Member Field)) (record : Memory) (field : Field)

/-- A string as `snprintf` copies it to an array of the same size. -/
def printed : Bytes :=
  (textOf (valueOf members record field)).take (((slot members field).map Slot.size).getD 0 - 1)

def isSet : Bool := valueOf members record field ≠ [0]

end Fields

def attachmentFile : Nat := 4

/-- What `host_state_read_history_entry_from_stream` makes of a record. -/
def decodeHistoryEntry (record : Memory) : ChatHistoryEntry :=
  let text := printed historyEntry record
  let kind := unsigned (valueOf historyEntry record attachmentType)
  { isUserMessage := isSet historyEntry record isUserMessage
    preserveWhitespace := (valueOf historyEntry record reserved).take 1 ≠ [0]
    message := text message
    username := text username
    rawUsername := if text rawUsername = [] then text username else text rawUsername
    userColorCode := text userColorCode
    userHighlightCode := text userHighlightCode
    userIsBold := isSet historyEntry record userIsBold
    userColorName := text userColorName
    userHighlightName := text userHighlightName
    messageId := unsigned (valueOf historyEntry record messageId)
    attachmentType := if attachmentFile < kind then 0 else kind
    attachmentTarget := text attachmentTarget
    attachmentCaption := text attachmentCaption
    createdAt := littleEndianInt (valueOf historyEntry record createdAt)
    reactionCounts := valueOf historyEntry record reactionCounts }

def readHistoryEntry (version : Nat) (file : Bytes) : Option (ChatHistoryEntry × Bytes) :=
  if version ≠ hostStateVersion then none
  else (fread (structSize historyEntry) file).map fun found => (decodeHistoryEntry (ofBytes found.1), found.2)

def keepLine (cleaned line : Bytes) (ended : Bool) : Bytes :=
  if line.all isSpace then cleaned
  else
    let copied := cleaned ++
      line.take (if messageLimit ≤ cleaned.length + line.length then messageLimit - 1 - cleaned.length else line.length)
    if ended ∧ copied.length + 1 < messageLimit then copied ++ [10] else copied

def stripEmptyLines (text : Bytes) : Bytes :=
  let lines := LineStream.splitLines (10 : UInt8) text
  let cleaned := lines.1.foldl (fun cleaned line => keepLine cleaned line true) []
  if lines.2 = [] then cleaned else keepLine cleaned lines.2 false

structure Palette where
  lookupUserColor : Bytes → Option Bytes
  lookupHighlight : Bytes → Option Bytes
  themeUserColor : Bytes
  themeHighlight : Bytes
  defaultUserColorName : Bytes
  defaultUserHighlightName : Bytes

def ChatHistoryEntry.hasContent (entry : ChatHistoryEntry) : Bool :=
  entry.message ≠ [] ∨ entry.attachmentType ≠ 0 ∧ entry.attachmentTarget ≠ []

def ChatHistoryEntry.withColor (palette : Palette) (entry : ChatHistoryEntry) : ChatHistoryEntry :=
  if entry.userColorCode ≠ [] then entry
  else
    match palette.lookupUserColor entry.userColorName with
    | some code => { entry with userColorCode := code.take (colorCodeLen - 1) }
    | none =>
      { entry with
        userColorName := palette.defaultUserColorName.take (colorNameLen - 1)
        userColorCode := palette.themeUserColor.take (colorCodeLen - 1) }

def ChatHistoryEntry.withHighlight (palette : Palette) (entry : ChatHistoryEntry) : ChatHistoryEntry :=
  if entry.userHighlightCode ≠ [] then entry
  else
    match palette.lookupHighlight entry.userHighlightName with
    | some code => { entry with userHighlightCode := code.take (colorCodeLen - 1) }
    | none =>
      { entry with
        userHighlightName := palette.defaultUserHighlightName.take (colorNameLen - 1)
        userHighlightCode := palette.themeHighlight.take (colorCodeLen - 1) }

def normalizeEntry (palette : Palette) (entry : ChatHistoryEntry) : Option ChatHistoryEntry :=
  let entry := { entry with message := stripEmptyLines entry.message }
  if entry.hasContent = false then none
  else if entry.isUserMessage = false then
    some { entry with
      userColorCode := [], userHighlightCode := [], userIsBold := false, userColorName := [], userHighlightName := [] }
  else some ((entry.withColor palette).withHighlight palette)

end History

section Preferences

open PreferenceField

/-- The fields of `user_preference_t` that are loaded. -/
structure UserPreference where
  hasUserTheme : Bool
  hasSystemTheme : Bool
  userIsBold : Bool
  systemIsBold : Bool
  texts : PreferenceField → Bytes
  dailyYear : Int
  dailyYday : Int
  lastPollId : Nat
  lastPollChoice : Int
  hasBirthday : Bool
  translationCaptionSpacing : Nat
  translationMasterEnabled : Bool
  translationMasterExplicit : Bool
  outputTranslationEnabled : Bool
  inputTranslationEnabled : Bool
  breakingAlertsEnabled : Bool

/-- The strings that are copied. The interface language has a file of its own. -/
def loadedTexts : List PreferenceField :=
  [username, ip, userColorCode, userHighlightCode, userColorName, userHighlightName, systemFgName, systemBgName,
    systemHighlightName, osName, dailyFunction, birthday, outputTranslationLanguage, inputTranslationLanguage,
    providerLabel]

/-- What `host_state_apply_preference_entry` makes of a record. -/
def decodePreference (record : Memory) : UserPreference :=
  { hasUserTheme := isSet entry record hasUserTheme
    hasSystemTheme := isSet entry record hasSystemTheme
    userIsBold := isSet entry record userIsBold
    systemIsBold := isSet entry record systemIsBold
    texts := fun field => if field ∈ loadedTexts then printed entry record field else []
    dailyYear := littleEndianInt (valueOf entry record dailyYear)
    dailyYday := littleEndianInt (valueOf entry record dailyYday)
    lastPollId := unsigned (valueOf entry record lastPollId)
    lastPollChoice := littleEndianInt (valueOf entry record lastPollChoice)
    hasBirthday := isSet entry record hasBirthday
    translationCaptionSpacing := unsigned (valueOf entry record translationCaptionSpacing)
    translationMasterEnabled := isSet entry record translationEnabled
    translationMasterExplicit := isSet entry record translationMasterExplicit
    outputTranslationEnabled := isSet entry record outputTranslationEnabled
    inputTranslationEnabled := isSet entry record inputTranslationEnabled
    breakingAlertsEnabled := isSet entry record breakingAlertsEnabled }

/-- One `host_state_grant_entry_t`. The result is its address. -/
def readGrantEntry (file : Bytes) : Option (Bytes × Bytes) :=
  (fread ipLen file).map fun found => ((textOf found.1).take (ipLen - 1), found.2)

end Preferences

section Sizes

open RecordStream

theorem fread_some {size : Nat} {file : Bytes} (long : size ≤ file.length) :
    fread size file = some (file.take size, file.drop size) := by
  rw [fread, if_pos long]

theorem fread_none {size : Nat} {file : Bytes} (short : file.length < size) : fread size file = none := by
  rw [fread, if_neg (by omega)]

/-- A record that is read at once. -/
theorem fread_sized {Record : Type} (size : Nat) (decode : Bytes → Record) :
    Sized (fun file => (fread size file).map fun found => (decode found.1, found.2)) size := by
  constructor
  case short =>
    intro file cut
    rw [fread_none cut]
    rfl
  case long =>
    intro file enough
    rw [fread_some enough]
    exact ⟨decode (file.take size), rfl⟩

theorem readGrantEntry_sized : Sized readGrantEntry ipLen :=
  fread_sized ipLen fun bytes => (textOf bytes).take (ipLen - 1)

def preferenceSize (version : Nat) : Nat :=
  if 14 ≤ version then structSize entry
  else if 12 ≤ version then
    offsetOf entry .userColorCode + (structSize entry - offsetOf entry .userColorName)
  else structSize (legacyLayout version)

theorem readPreferenceEntry_sized (version : Nat) : Sized (readPreferenceEntry version) (preferenceSize version) := by
  by_cases present : 14 ≤ version
  · rw [preferenceSize, if_pos present]
    have whole := fread_sized (structSize entry) ofBytes
    constructor
    case short =>
      intro file cut
      rw [readPreferenceEntry, if_pos present]
      exact whole.short file cut
    case long =>
      intro file enough
      rw [readPreferenceEntry, if_pos present]
      exact whole.long file enough
  · by_cases split : 12 ≤ version
    · rw [preferenceSize, if_neg present, if_pos split]
      constructor
      case short =>
        intro file cut
        rw [readPreferenceEntry, if_neg present, if_pos split]
        by_cases first : offsetOf entry .userColorCode ≤ file.length
        · rw [fread_some first, Option.bind_eq_bind, Option.bind_some, fread_none]
          · rfl
          · rw [List.length_drop]
            omega
        · rw [fread_none (by omega)]
          rfl
      case long =>
        intro file enough
        rw [readPreferenceEntry, if_neg present, if_pos split, fread_some (by omega), Option.bind_eq_bind,
          Option.bind_some, fread_some (by rw [List.length_drop]; omega), ← List.drop_drop]
        simp only [Option.bind_some]
        exact ⟨_, rfl⟩
    · rw [preferenceSize, if_neg present, if_neg split]
      have whole := fread_sized (structSize (legacyLayout version)) (fun bytes => migrate version (ofBytes bytes))
      constructor
      case short =>
        intro file cut
        rw [readPreferenceEntry, if_neg present, if_neg split]
        exact whole.short file cut
      case long =>
        intro file enough
        rw [readPreferenceEntry, if_neg present, if_neg split]
        exact whole.long file enough

end Sizes

end SshChatter.HostState
