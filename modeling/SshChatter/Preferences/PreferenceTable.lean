import SshChatter.Lib.CString
import SshChatter.Lib.SlotTable

namespace SshChatter.Preferences
open CString SlotTable

abbrev maxPreferences : Nat := 1024

/-- The fields of `user_preference_t` that the store functions write. -/
structure Settings where
  hasUserTheme : Bool
  userColorCode : CText 255
  userHighlightCode : CText 255
  userColorName : CText 31
  userHighlightName : CText 31
  userIsBold : Bool
  hasSystemTheme : Bool
  systemFgName : CText 31
  systemBgName : CText 31
  systemHighlightName : CText 31
  systemIsBold : Bool
  osName : CText 15
  lastPollChoice : Int
  hasBirthday : Bool
  birthday : CText 15
  translationCaptionSpacing : UInt8
  translationMasterEnabled : Bool
  translationMasterExplicit : Bool
  outputTranslationEnabled : Bool
  inputTranslationEnabled : Bool
  outputTranslationLanguage : CText 63
  inputTranslationLanguage : CText 63
  uiLanguage : CText 63
  breakingAlertsEnabled : Bool
  providerLabel : CText 63
  camouflageLanguage : CText 63
  deriving DecidableEq

/-- This is `user_preference_t`. -/
structure Preference where
  inUse : Bool
  username : CText 255
  ip : CText 63
  settings : Settings
  deriving DecidableEq

abbrev PreferenceTable := Fin maxPreferences → Preference

structure PreferenceHost where
  preferences : PreferenceTable
  preferenceCount : Nat

/-- A cleared record. -/
def Settings.zero : Settings where
  hasUserTheme := false
  userColorCode := .zero
  userHighlightCode := .zero
  userColorName := .zero
  userHighlightName := .zero
  userIsBold := false
  hasSystemTheme := false
  systemFgName := .zero
  systemBgName := .zero
  systemHighlightName := .zero
  systemIsBold := false
  osName := .zero
  lastPollChoice := 0
  hasBirthday := false
  birthday := .zero
  translationCaptionSpacing := 0
  translationMasterEnabled := false
  translationMasterExplicit := false
  outputTranslationEnabled := false
  inputTranslationEnabled := false
  outputTranslationLanguage := .zero
  inputTranslationLanguage := .zero
  uiLanguage := .zero
  breakingAlertsEnabled := false
  providerLabel := .zero
  camouflageLanguage := .zero

def Preference.created (username : CText 255) (ip : CText 63) : Preference where
  inUse := true
  username := username
  ip := ip
  settings := { Settings.zero with lastPollChoice := -1, camouflageLanguage := .print (str "c") }

def Preference.isOf (username : CText 255) (pref : Preference) : Bool := pref.inUse && pref.username = username

/-- The record of a user for an address, or for no address. -/
def Preference.matches (username : CText 255) (ip : CText 63) (pref : Preference) : Bool :=
  pref.isOf username && pref.ip = ip

/-- This is `host_find_preference_locked`. The loop ends at the record of the address and falls back on the first record
of the user. -/
def findPreference (host : PreferenceHost) (username : CText 255) (ip : CText 63) : Option (Fin maxPreferences) :=
  if username.text = [] then none
  else
    match firstWith (Preference.matches username ip) host.preferences with
    | some place => some place
    | none => firstWith (Preference.isOf username) host.preferences

def PreferenceHost.put (host : PreferenceHost) (place : Fin maxPreferences) (pref : Preference) : PreferenceHost :=
  { host with preferences := Function.update host.preferences place pref }

def countUp (count : Nat) : Nat := if count < maxPreferences then count + 1 else count

/-- The second loop of `host_ensure_preference_locked`. -/
def createPreference (host : PreferenceHost) (username : CText 255) (ip : CText 63)
    (existing : Option (Fin maxPreferences)) : PreferenceHost × Option (Fin maxPreferences) :=
  match firstFree Preference.inUse host.preferences with
  | none => (host, existing)
  | some place =>
    ({ host.put place (.created username ip) with preferenceCount := countUp host.preferenceCount }, some place)

def ensurePreference (host : PreferenceHost) (username : CText 255) (ip : CText 63) :
    PreferenceHost × Option (Fin maxPreferences) :=
  if username.text = [] then (host, none)
  else
    match findPreference host username ip with
    | some existing =>
      if ip.text = [] ∨ (host.preferences existing).ip.text ≠ [] then (host, some existing)
      else createPreference host username ip (some existing)
    | none => createPreference host username ip none

def storeAt (host : PreferenceHost) (username : CText 255) (ip : CText 63) (change : Preference → Preference) :
    PreferenceHost :=
  match ensurePreference host username ip with
  | (host, none) => host
  | (host, some place) => host.put place (change (host.preferences place))

/-- The fields of the session that the store functions read. The code is what `session_ui_language_code` gives for the
language of the session. -/
structure Session where
  name : CText 255
  clientIp : CText 63
  userColorCode : CText 255
  userHighlightCode : CText 255
  userColorName : CText 31
  userHighlightName : CText 31
  userIsBold : Bool
  systemFgName : CText 31
  systemBgName : CText 31
  systemHighlightName : CText 31
  systemIsBold : Bool
  osName : CText 15
  translationCaptionSpacing : Nat
  translationEnabled : Bool
  outputTranslationEnabled : Bool
  inputTranslationEnabled : Bool
  outputTranslationLanguage : CText 63
  inputTranslationLanguage : CText 63
  uiLanguageCode : Bytes
  breakingAlertsEnabled : Bool

def Preference.set (change : Settings → Settings) (pref : Preference) : Preference :=
  { pref with settings := change pref.settings }

def storeUserTheme (host : PreferenceHost) (ctx : Session) : PreferenceHost :=
  storeAt host ctx.name .zero <| Preference.set fun settings =>
    { settings with
      hasUserTheme := true
      userColorCode := ctx.userColorCode
      userHighlightCode := ctx.userHighlightCode
      userColorName := ctx.userColorName
      userHighlightName := ctx.userHighlightName
      userIsBold := ctx.userIsBold }

def storeSystemTheme (host : PreferenceHost) (ctx : Session) : PreferenceHost :=
  storeAt host ctx.name .zero <| Preference.set fun settings =>
    { settings with
      hasSystemTheme := true
      systemFgName := ctx.systemFgName
      systemBgName := ctx.systemBgName
      systemHighlightName := ctx.systemHighlightName
      systemIsBold := ctx.systemIsBold }

def storeUserOs (host : PreferenceHost) (ctx : Session) : PreferenceHost :=
  storeAt host ctx.name .zero <| Preference.set fun settings => { settings with osName := ctx.osName }

def storeBirthday (host : PreferenceHost) (ctx : Session) (birthday : Bytes) : PreferenceHost :=
  storeAt host ctx.name .zero <| Preference.set fun settings =>
    { settings with hasBirthday := true, birthday := .print birthday }

def storeChatSpacing (host : PreferenceHost) (ctx : Session) : PreferenceHost :=
  storeAt host ctx.name .zero <| Preference.set fun settings =>
    { settings with translationCaptionSpacing := UInt8.ofNat (min ctx.translationCaptionSpacing 255) }

def storeTranslationPreferences (host : PreferenceHost) (ctx : Session) : PreferenceHost :=
  storeAt host ctx.name .zero <| Preference.set fun settings =>
    { settings with
      translationMasterEnabled := ctx.translationEnabled
      translationMasterExplicit := true
      outputTranslationEnabled := ctx.outputTranslationEnabled
      inputTranslationEnabled := ctx.inputTranslationEnabled
      outputTranslationLanguage := ctx.outputTranslationLanguage
      inputTranslationLanguage := ctx.inputTranslationLanguage }

def storeBreakingAlerts (host : PreferenceHost) (ctx : Session) : PreferenceHost :=
  storeAt host ctx.name .zero <| Preference.set fun settings =>
    { settings with breakingAlertsEnabled := ctx.breakingAlertsEnabled }

def detectProviderIp (providers : List (Bytes × Bytes)) (ip : CText 63) : Option (CText 63) :=
  if ip.text = [] then none
  else
    (providers.find? fun provider =>
      (ip.text.map toLower).take provider.1.length = provider.1.map toLower).map fun provider => .print provider.2

/-- This is `host_store_ui_language`. The record takes the address of the session. -/
def storeUiLanguage (providers : List (Bytes × Bytes)) (host : PreferenceHost) (ctx : Session) : PreferenceHost :=
  storeAt host ctx.name ctx.clientIp fun pref =>
    { pref with
      ip := if ctx.clientIp.text ≠ [] then ctx.clientIp else pref.ip
      settings :=
        { pref.settings with
          uiLanguage := .print ctx.uiLanguageCode
          providerLabel := (detectProviderIp providers ctx.clientIp).getD .zero } }

/-- A record is ensured or a setting of a session is stored. -/
inductive PreferenceEvent where
  | ensure (username : CText 255) (ip : CText 63)
  | userTheme (ctx : Session)
  | systemTheme (ctx : Session)
  | userOs (ctx : Session)
  | birthday (ctx : Session) (birthday : Bytes)
  | chatSpacing (ctx : Session)
  | translationPreferences (ctx : Session)
  | breakingAlerts (ctx : Session)
  | uiLanguage (ctx : Session)

/-- One call under the lock of the host. -/
def preferenceStep (providers : List (Bytes × Bytes)) (host : PreferenceHost) : PreferenceEvent → PreferenceHost
  | .ensure username ip => (ensurePreference host username ip).1
  | .userTheme ctx => storeUserTheme host ctx
  | .systemTheme ctx => storeSystemTheme host ctx
  | .userOs ctx => storeUserOs host ctx
  | .birthday ctx birthday => storeBirthday host ctx birthday
  | .chatSpacing ctx => storeChatSpacing host ctx
  | .translationPreferences ctx => storeTranslationPreferences host ctx
  | .breakingAlerts ctx => storeBreakingAlerts host ctx
  | .uiLanguage ctx => storeUiLanguage providers host ctx

end SshChatter.Preferences
