import SshChatter.Lib.RecordLayout

namespace SshChatter.HostState
open CString RecordLayout

section Layouts

/-- The fields of `host_state_preference_entry_t` and of its older versions. -/
inductive PreferenceField where
  | hasUserTheme | hasSystemTheme | userIsBold | systemIsBold
  | username | ip | userColorCode | userHighlightCode
  | userColorName | userHighlightName | systemFgName | systemBgName | systemHighlightName
  | osName | dailyYear | dailyYday | dailyFunction | lastPollId | lastPollChoice
  | hasBirthday | translationCaptionSpacing | translationEnabled | outputTranslationEnabled
  | inputTranslationEnabled | translationMasterExplicit | reserved
  | birthday | outputTranslationLanguage | inputTranslationLanguage | uiLanguage
  | breakingAlertsEnabled | providerLabel | reserved2
  deriving DecidableEq

open PreferenceField

/-- A `uint8_t`. -/
def flag (field : PreferenceField) : Member PreferenceField := ⟨field, 1, 1⟩

def array (field : PreferenceField) (size : Nat) : Member PreferenceField := ⟨field, size, 1⟩

def number (field : PreferenceField) (size : Nat) : Member PreferenceField := ⟨field, size, size⟩

def usernameLen : Nat := 256
def ipLen : Nat := 64
def colorCodeLen : Nat := 256
def colorNameLen : Nat := 32
def osNameLen : Nat := 16
def langNameLen : Nat := 64
def providerLabelLen : Nat := 64

/-- The four flags and the name in front of every version. -/
def headMembers : List (Member PreferenceField) :=
  [flag hasUserTheme, flag hasSystemTheme, flag userIsBold, flag systemIsBold, array username usernameLen]

def colorMembers : List (Member PreferenceField) :=
  [array userColorName colorNameLen, array userHighlightName colorNameLen, array systemFgName colorNameLen,
    array systemBgName colorNameLen, array systemHighlightName colorNameLen]

def dailyMembers : List (Member PreferenceField) :=
  [array osName osNameLen, number dailyYear 4, number dailyYday 4, array dailyFunction 64, number lastPollId 8,
    number lastPollChoice 4]

def translationMembers : List (Member PreferenceField) :=
  [flag translationCaptionSpacing, flag translationEnabled, flag outputTranslationEnabled, flag inputTranslationEnabled]

def languageMembers : List (Member PreferenceField) :=
  [array birthday 16, array outputTranslationLanguage langNameLen, array inputTranslationLanguage langNameLen]

def entryV3 : List (Member PreferenceField) := headMembers ++ colorMembers

def entryV4 : List (Member PreferenceField) := entryV3 ++ dailyMembers

def entryV5 : List (Member PreferenceField) := entryV4 ++ [flag hasBirthday, array reserved 3, array birthday 16]

def entryV6 : List (Member PreferenceField) :=
  entryV4 ++ [flag hasBirthday] ++ translationMembers ++ [array reserved 3] ++ languageMembers

def entryV7 : List (Member PreferenceField) :=
  entryV4 ++ [flag hasBirthday] ++ translationMembers ++ [flag translationMasterExplicit, array reserved 2] ++
    languageMembers

def entryV8 : List (Member PreferenceField) := entryV7 ++ [array uiLanguage langNameLen]

def entryV9 : List (Member PreferenceField) := entryV8 ++ [flag breakingAlertsEnabled, array reserved2 7]

def entry : List (Member PreferenceField) :=
  headMembers ++
    [array ip ipLen, array userColorCode colorCodeLen, array userHighlightCode colorCodeLen] ++
    colorMembers ++ dailyMembers ++ [flag hasBirthday] ++ translationMembers ++
    [flag translationMasterExplicit, array reserved 2] ++ languageMembers ++
    [array uiLanguage langNameLen, flag breakingAlertsEnabled, array providerLabel providerLabelLen, array reserved2 7]

end Layouts

section Conversion

open PreferenceField

/-- The assignments that every conversion starts with. -/
def copyTheme : List (Assign PreferenceField) :=
  [.move hasUserTheme hasUserTheme, .move hasSystemTheme hasSystemTheme, .move userIsBold userIsBold,
    .move systemIsBold systemIsBold, .print username, .print userColorName, .print userHighlightName,
    .print systemFgName, .print systemBgName, .print systemHighlightName]

/-- The assignments from version four on. -/
def copyDaily : List (Assign PreferenceField) :=
  [.print osName, .move dailyYear dailyYear, .move dailyYday dailyYday, .print dailyFunction,
    .move lastPollId lastPollId, .move lastPollChoice lastPollChoice]

/-- The flags from version six on, less the last one. -/
def copyTranslation : List (Assign PreferenceField) :=
  [.move hasBirthday hasBirthday, .move translationCaptionSpacing translationCaptionSpacing,
    .move translationEnabled translationEnabled, .move outputTranslationEnabled outputTranslationEnabled,
    .move inputTranslationEnabled inputTranslationEnabled]

/-- The texts from version six on. -/
def copyLanguages : List (Assign PreferenceField) :=
  [.print birthday, .print outputTranslationLanguage, .print inputTranslationLanguage]

def clearText (field : PreferenceField) : Assign PreferenceField := .put field [0]

def clearTail : List (Assign PreferenceField) := [.put breakingAlertsEnabled [0], .put reserved2 (List.replicate 7 0)]

def convertV3 : List (Assign PreferenceField) :=
  copyTheme ++
    [clearText osName, .put dailyYear (List.replicate 4 0), .put dailyYday (List.replicate 4 0),
      clearText dailyFunction, .put lastPollId (List.replicate 8 0), .put lastPollChoice (List.replicate 4 0xFF),
      .put hasBirthday [0], .put translationCaptionSpacing [0], .put translationEnabled [0],
      .put outputTranslationEnabled [0], .put inputTranslationEnabled [0], .put translationMasterExplicit [0],
      clearText birthday, clearText outputTranslationLanguage, clearText inputTranslationLanguage,
      clearText uiLanguage] ++ clearTail

def convertV4 : List (Assign PreferenceField) :=
  copyTheme ++ copyDaily ++
    [.put hasBirthday [0], .put translationCaptionSpacing [0], .put translationEnabled [0],
      .put outputTranslationEnabled [0], .put inputTranslationEnabled [0], .put translationMasterExplicit [0],
      clearText birthday, clearText outputTranslationLanguage, clearText inputTranslationLanguage,
      clearText uiLanguage] ++ clearTail

def convertV5 : List (Assign PreferenceField) :=
  copyTheme ++ copyDaily ++
    [.move hasBirthday hasBirthday, .move translationCaptionSpacing reserved, .put translationEnabled [0],
      .put outputTranslationEnabled [0], .put inputTranslationEnabled [0], .put translationMasterExplicit [0],
      .print birthday, clearText outputTranslationLanguage, clearText inputTranslationLanguage,
      clearText uiLanguage] ++ clearTail

def convertV6 : List (Assign PreferenceField) :=
  copyTheme ++ copyDaily ++ copyTranslation ++ [.move translationMasterExplicit translationEnabled] ++ copyLanguages ++
    [clearText uiLanguage] ++ clearTail

def convertV7 : List (Assign PreferenceField) :=
  copyTheme ++ copyDaily ++ copyTranslation ++ [.move translationMasterExplicit translationMasterExplicit] ++
    copyLanguages ++ [clearText uiLanguage] ++ clearTail

def convertV8 : List (Assign PreferenceField) :=
  copyTheme ++ copyDaily ++ copyTranslation ++ [.move translationMasterExplicit translationMasterExplicit] ++
    copyLanguages ++ [.print uiLanguage] ++ clearTail

/-- The fields that versions ten and eleven clear behind their `memcpy`. -/
def clearV9 : List (Assign PreferenceField) :=
  [clearText ip, clearText userColorCode, clearText userHighlightCode, clearText providerLabel,
    .put reserved2 (List.replicate 7 0)]

/-- The struct that is read for a version. -/
def legacyLayout (version : Nat) : List (Member PreferenceField) :=
  if 10 ≤ version then entryV9
  else if 9 ≤ version then entryV8
  else if 7 ≤ version then entryV7
  else if version = 6 then entryV6
  else if version = 5 then entryV5
  else if version = 4 then entryV4
  else entryV3

def legacyAssigns (version : Nat) : List (Assign PreferenceField) :=
  if 9 ≤ version then convertV8
  else if 7 ≤ version then convertV7
  else if version = 6 then convertV6
  else if version = 5 then convertV5
  else if version = 4 then convertV4
  else convertV3

def ofBytes (bytes : Bytes) : Memory := fun index => bytes.getD index 0

/-- This is `fread` of one object. The result is the object and the rest of the file. -/
def fread (size : Nat) (file : Bytes) : Option (Bytes × Bytes) :=
  if size ≤ file.length then some (file.take size, file.drop size) else none

def memcpy (out legacy : Memory) (size : Nat) : Memory := fun index => if index < size then legacy index else out index

/-- The record of a version below twelve in the present layout. -/
def migrate (version : Nat) (legacy : Memory) : Memory :=
  if 10 ≤ version then convert entry entry cleared clearV9 (memcpy cleared legacy (structSize entryV9))
  else convert (legacyLayout version) entry legacy (legacyAssigns version) cleared

def readPreferenceEntry (version : Nat) (file : Bytes) : Option (Memory × Bytes) :=
  if 14 ≤ version then (fread (structSize entry) file).map fun found => (ofBytes found.1, found.2)
  else if 12 ≤ version then do
    let first ← fread (offsetOf entry userColorCode) file
    let second ← fread (structSize entry - offsetOf entry userColorName) first.2
    let out := convert entry entry cleared [clearText userColorCode, clearText userHighlightCode]
      (writeRange cleared 0 first.1)
    return (writeRange out (offsetOf entry userColorName) second.1, second.2)
  else (fread (structSize (legacyLayout version)) file).map fun found => (migrate version (ofBytes found.1), found.2)

end Conversion

end SshChatter.HostState
