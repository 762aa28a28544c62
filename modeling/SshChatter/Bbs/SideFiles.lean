import SshChatter.Lib.RowsRoundTrip
import SshChatter.Bbs.Board

namespace SshChatter.BbsFiles
open CString DelimitedRows
open Bbs (UserName Notification Report Mute maxNotifications maxReports maxMutes)

abbrev maxReadMarks : Nat := 512

abbrev maxModlog : Nat := 512

abbrev maxIpaudit : Nat := 512

abbrev ipauditRetention : Int := 5 * 24 * 60 * 60

abbrev readMarkRetention : Int := 30 * 24 * 60 * 60

structure ReadMark where
  username : UserName
  lastReadAt : Int
  deriving DecidableEq

structure ModlogEntry where
  createdAt : Int
  actor : UserName
  action : CText 23
  target : UserName
  deriving DecidableEq

structure IpauditEntry where
  username : UserName
  ip : CText 63
  connectEpoch : Int
  disconnectEpoch : Int
  deriving DecidableEq

/-- A value of the type `int32_t`. -/
def IsInt32 (value : Int) : Prop := -2 ^ 31 ≤ value ∧ value < 2 ^ 31

/-- A value of the type `time_t`. -/
def IsTime (value : Int) : Prop := -2 ^ 63 ≤ value ∧ value < 2 ^ 63

theorem print_held {room : Nat} (value : CText room) : (CText.print value.text : CText room) = value := value.print_text

/-- A line is `kind|to|from|post|comment|time`. -/
def notificationTable : Table Notification where
  format := ⟨256, [.int, .text 255, .text 255, .unsignedLong, .int], .long, 6, false⟩
  room := maxNotifications
  cells n := [.number n.kind, .text n.toName.text, .text n.fromName.text, .number n.postId, .number n.commentIdx,
    .number n.createdAt]
  build
    | [.number kind, .text toName, .text fromName, .number postId, .number commentIdx, .number createdAt] =>
      ⟨kind, .print toName, .print fromName, postId.toNat, commentIdx, createdAt⟩
    | _ => ⟨0, .zero, .zero, 0, 0, 0⟩
  Typed n := IsInt32 n.kind ∧ n.postId < 2 ^ 64 ∧ IsInt32 n.commentIdx ∧ IsTime n.createdAt
  sound := ⟨by decide, by decide, by decide, .inl rfl, .inr ⟨rfl, rfl⟩⟩
  held n typed := .cons typed.1 (.cons (holds_text _) (.cons (holds_text _)
    (.cons ⟨Int.natCast_nonneg _, Int.ofNat_lt.mpr typed.2.1⟩ (.cons typed.2.2.1 (.cons typed.2.2.2 .nil)))))
  back n typed := by
    dsimp only
    rw [print_held, print_held, Int.toNat_natCast]
  again row held := by
    rcases held with _ | ⟨kind, _ | ⟨toName, _ | ⟨fromName, _ | ⟨post, _ | ⟨index, _ | ⟨made, _ | _⟩⟩⟩⟩⟩⟩
    obtain ⟨kind, rfl⟩ := kind.toInt
    obtain ⟨toName, rfl⟩ := toName.toText
    obtain ⟨fromName, rfl⟩ := fromName.toText
    obtain ⟨post, rfl⟩ := post.toNat
    obtain ⟨index, rfl⟩ := index.toInt
    obtain ⟨made, rfl⟩ := made.toLong
    dsimp only
    rw [print_held, print_held, Int.toNat_natCast]

/-- A line is `name|time`. -/
def readMarkTable : Table ReadMark where
  format := ⟨128, [.text 255], .long, 2, false⟩
  room := maxReadMarks
  cells mark := [.text mark.username.text, .number mark.lastReadAt]
  build
    | [.text username, .number lastReadAt] => ⟨.print username, lastReadAt⟩
    | _ => ⟨.zero, 0⟩
  Typed mark := IsTime mark.lastReadAt
  sound := ⟨by decide, by decide, by decide, .inl rfl, .inr ⟨rfl, rfl⟩⟩
  held mark typed := .cons (holds_text _) (.cons typed .nil)
  back mark _ := by
    dsimp only
    rw [print_held]
  again row held := by
    rcases held with _ | ⟨name, _ | ⟨last, _ | _⟩⟩
    obtain ⟨name, rfl⟩ := name.toText
    obtain ⟨last, rfl⟩ := last.toLong
    dsimp only
    rw [print_held]

/-- A line is `post|reporter|time|status|reason`. The reason may be missing. -/
def reportTable : Table Report where
  format := ⟨512, [.unsignedLong, .text 255, .long, .int], .text 127, 4, true⟩
  room := maxReports
  cells report := [.number report.postId, .text report.reporter.text, .number report.createdAt, .number report.status,
    .text report.reason.text]
  build
    | [.number postId, .text reporter, .number createdAt, .number status, .text reason] =>
      ⟨postId.toNat, .print reporter, .print reason, status, createdAt⟩
    | _ => ⟨0, .zero, .zero, 0, 0⟩
  Typed report := report.postId < 2 ^ 64 ∧ IsTime report.createdAt ∧ IsInt32 report.status
  sound := by
    refine ⟨by decide, by decide, by decide, .inr ⟨rfl, fun row held => ?_⟩, .inl ⟨rfl, 127, rfl⟩⟩
    exact (printRow_length held).trans_lt (by decide)
  held report typed := .cons ⟨Int.natCast_nonneg _, Int.ofNat_lt.mpr typed.1⟩ (.cons (holds_text _) (.cons typed.2.1
    (.cons typed.2.2 (.cons (holds_text _) .nil))))
  back report _ := by
    dsimp only
    rw [print_held, print_held, Int.toNat_natCast]
  again row held := by
    rcases held with _ | ⟨post, _ | ⟨reporter, _ | ⟨made, _ | ⟨status, _ | ⟨reason, _ | _⟩⟩⟩⟩⟩
    obtain ⟨post, rfl⟩ := post.toNat
    obtain ⟨reporter, rfl⟩ := reporter.toText
    obtain ⟨made, rfl⟩ := made.toLong
    obtain ⟨status, rfl⟩ := status.toInt
    obtain ⟨reason, rfl⟩ := reason.toText
    dsimp only
    rw [print_held, print_held, Int.toNat_natCast]

/-- A line is `name|until|by|time`. -/
def muteTable : Table Mute where
  format := ⟨256, [.text 255, .long, .text 255], .long, 4, false⟩
  room := maxMutes
  cells mute := [.text mute.username.text, .number mute.mutedUntil, .text mute.mutedBy.text, .number mute.createdAt]
  build
    | [.text username, .number mutedUntil, .text mutedBy, .number createdAt] =>
      ⟨.print username, mutedUntil, .print mutedBy, createdAt⟩
    | _ => ⟨.zero, 0, .zero, 0⟩
  Typed mute := IsTime mute.mutedUntil ∧ IsTime mute.createdAt
  sound := ⟨by decide, by decide, by decide, .inl rfl, .inr ⟨rfl, rfl⟩⟩
  held mute typed := .cons (holds_text _) (.cons typed.1 (.cons (holds_text _) (.cons typed.2 .nil)))
  back mute _ := by
    dsimp only
    rw [print_held, print_held]
  again row held := by
    rcases held with _ | ⟨name, _ | ⟨limit, _ | ⟨muter, _ | ⟨made, _ | _⟩⟩⟩⟩
    obtain ⟨name, rfl⟩ := name.toText
    obtain ⟨limit, rfl⟩ := limit.toLong
    obtain ⟨muter, rfl⟩ := muter.toText
    obtain ⟨made, rfl⟩ := made.toLong
    dsimp only
    rw [print_held, print_held]

/-- A line is `time|actor|action|target`. -/
def modlogTable : Table ModlogEntry where
  format := ⟨256, [.long, .text 255, .text 23], .text 255, 4, true⟩
  room := maxModlog
  cells entry := [.number entry.createdAt, .text entry.actor.text, .text entry.action.text, .text entry.target.text]
  build
    | [.number createdAt, .text actor, .text action, .text target] =>
      ⟨createdAt, .print actor, .print action, .print target⟩
    | _ => ⟨0, .zero, .zero, .zero⟩
  Typed entry := IsTime entry.createdAt
  sound := ⟨by decide, by decide, by decide, .inl rfl, .inl ⟨rfl, 255, rfl⟩⟩
  held entry typed := .cons typed (.cons (holds_text _) (.cons (holds_text _) (.cons (holds_text _) .nil)))
  back entry _ := by
    dsimp only
    rw [print_held, print_held, print_held]
  again row held := by
    rcases held with _ | ⟨made, _ | ⟨actor, _ | ⟨action, _ | ⟨target, _ | _⟩⟩⟩⟩
    obtain ⟨made, rfl⟩ := made.toLong
    obtain ⟨actor, rfl⟩ := actor.toText
    obtain ⟨action, rfl⟩ := action.toText
    obtain ⟨target, rfl⟩ := target.toText
    dsimp only
    rw [print_held, print_held, print_held]

/-- A line is `name|ip|connect|disconnect`. -/
def ipauditTable : Table IpauditEntry where
  format := ⟨256, [.text 255, .text 63, .long], .long, 4, false⟩
  room := maxIpaudit
  cells entry :=
    [.text entry.username.text, .text entry.ip.text, .number entry.connectEpoch, .number entry.disconnectEpoch]
  build
    | [.text username, .text ip, .number connectEpoch, .number disconnectEpoch] =>
      ⟨.print username, .print ip, connectEpoch, disconnectEpoch⟩
    | _ => ⟨.zero, .zero, 0, 0⟩
  Typed entry := IsTime entry.connectEpoch ∧ IsTime entry.disconnectEpoch
  sound := ⟨by decide, by decide, by decide, .inl rfl, .inr ⟨rfl, rfl⟩⟩
  held entry typed := .cons (holds_text _) (.cons (holds_text _) (.cons typed.1 (.cons typed.2 .nil)))
  back entry _ := by
    dsimp only
    rw [print_held, print_held]
  again row held := by
    rcases held with _ | ⟨name, _ | ⟨ip, _ | ⟨connect, _ | ⟨disconnect, _ | _⟩⟩⟩⟩
    obtain ⟨name, rfl⟩ := name.toText
    obtain ⟨ip, rfl⟩ := ip.toText
    obtain ⟨connect, rfl⟩ := connect.toLong
    obtain ⟨disconnect, rfl⟩ := disconnect.toLong
    dsimp only
    rw [print_held, print_held]

/-- This is `host_bbs_notifications_save_locked`. -/
def saveNotifications (notifications : List Notification) : Bytes := notificationTable.save notifications

/-- This is `host_bbs_notifications_load`. -/
def loadNotifications (file : Bytes) : List Notification := notificationTable.load file

/-- A stamp that is older than 30 days is not saved. -/
def ReadMark.fresh (now : Int) (mark : ReadMark) : Bool :=
  ¬(0 < mark.lastReadAt ∧ readMarkRetention < now - mark.lastReadAt)

/-- This is `host_bbs_readmarks_save_locked`. -/
def saveReadMarks (now : Int) (marks : List ReadMark) : Bytes := readMarkTable.save (marks.filter (·.fresh now))

/-- This reader looks for one bar only. -/
def parseReadMark (line : Bytes) : Option ReadMark :=
  (strchr bar line).map fun found => ⟨.print found.1, atol found.2⟩

/-- This is `host_bbs_readmarks_load`. -/
def loadReadMarks (file : Bytes) : List ReadMark :=
  ((chunks 128 file).filterMap parseReadMark).foldl (pushNewest maxReadMarks) []

/-- This is `host_bbs_reports_save_locked`. -/
def saveReports (reports : List Report) : Bytes := reportTable.save reports

/-- This is `host_bbs_reports_load`. -/
def loadReports (file : Bytes) : List Report := reportTable.load file

/-- This is `host_bbs_mutes_save_locked`. -/
def saveMutes (mutes : List Mute) : Bytes := muteTable.save mutes

/-- This is `host_bbs_mutes_load`. -/
def loadMutes (file : Bytes) : List Mute := muteTable.load file

/-- This is `host_bbs_modlog_save_locked`. -/
def saveModlog (entries : List ModlogEntry) : Bytes := modlogTable.save entries

/-- This is `host_bbs_modlog_load`. -/
def loadModlog (file : Bytes) : List ModlogEntry := modlogTable.load file

def IpauditEntry.anchor (entry : IpauditEntry) : Int :=
  if 0 < entry.disconnectEpoch then entry.disconnectEpoch else entry.connectEpoch

/-- This is `host_ipaudit_sweep_locked`. -/
def sweepIpaudit (now : Int) (entries : List IpauditEntry) : List IpauditEntry :=
  if now ≤ 0 then entries
  else entries.filter fun entry => ¬(0 < entry.anchor ∧ ipauditRetention < now - entry.anchor)

/-- This is `host_bbs_ipaudit_save_locked`. -/
def saveIpaudit (entries : List IpauditEntry) : Bytes := ipauditTable.save entries

/-- This is `host_bbs_ipaudit_load`. -/
def loadIpaudit (now : Int) (file : Bytes) : List IpauditEntry := sweepIpaudit now (ipauditTable.load file)

def recordConnect (entries : List IpauditEntry) (username : UserName) (ip : CText 63) (now : Int) : List IpauditEntry :=
  if username.text = [] ∨ ip.text = [] then entries else pushNewest maxIpaudit entries ⟨username, ip, now, 0⟩

/-- The name that `session_telnet_login_prompt` takes from a line. -/
def loginName (line : Bytes) : Option UserName :=
  let name : UserName := .print (trimSpace (.take 255 (trimSpace line)))
  if name.text = [] then none else some name

section RoundTrip

theorem parseReadMark_eq (line : Bytes) :
    parseReadMark line = (readMarkTable.format.parseLine line).map readMarkTable.build := by
  rw [parseReadMark]
  change _ =
    (if (splitFields 2 line).length < 2 then none else some (readCells [.text 255, .long] (splitFields 2 line))).map _
  rw [splitFields]
  cases hit : strchr bar line with
  | none => rfl
  | some found =>
    obtain ⟨name, rest⟩ := found
    have built (field : Bytes) : readMarkTable.build [.text ((name.takeWhile (· ≠ 0)).take 255), .number (atol field)] =
        ⟨.print name, atol field⟩ := congrArg (ReadMark.mk · (atol field)) (print_held (.print name))
    change _ = (if (name :: splitFields 1 rest).length < 2 then none
      else some (readCells [.text 255, .long] (name :: splitFields 1 rest))).map _
    rw [splitFields]
    cases second : strchr bar rest with
    | none => exact congrArg some (built rest).symm
    | some later =>
      obtain ⟨field, behind⟩ := later
      have same : atol rest = atol field := by
        rw [(strchr_some second).1]
        exact atol_bar field behind
      rw [Option.map_some, same]
      exact congrArg some (built field).symm

theorem loadReadMarks_eq (file : Bytes) : loadReadMarks file = readMarkTable.load file := by
  have parse : parseReadMark = fun line => (readMarkTable.format.parseLine line).map readMarkTable.build :=
    funext parseReadMark_eq
  rw [loadReadMarks, Table.load, Format.readRows, parse, List.map_filterMap]
  rfl

/-- The tables of the board beside its posts. They have room for their entries, and the numbers have the types of the
source. -/
structure SideTables where
  notifications : List Notification
  readMarks : List ReadMark
  reports : List Report
  mutes : List Mute
  modlog : List ModlogEntry
  ipaudit : List IpauditEntry
  notificationsFit : notifications.length ≤ maxNotifications ∧ ∀ entry ∈ notifications, notificationTable.Typed entry
  readMarksFit : readMarks.length ≤ maxReadMarks ∧ ∀ entry ∈ readMarks, readMarkTable.Typed entry
  reportsFit : reports.length ≤ maxReports ∧ ∀ entry ∈ reports, reportTable.Typed entry
  mutesFit : mutes.length ≤ maxMutes ∧ ∀ entry ∈ mutes, muteTable.Typed entry
  modlogFit : modlog.length ≤ maxModlog ∧ ∀ entry ∈ modlog, modlogTable.Typed entry
  ipauditFit : ipaudit.length ≤ maxIpaudit ∧ ∀ entry ∈ ipaudit, ipauditTable.Typed entry

variable (tables : SideTables)

theorem readMarks_restored (now : Int) :
    loadReadMarks (saveReadMarks now tables.readMarks) = tables.readMarks.filter (·.fresh now) ↔
      ∀ mark ∈ tables.readMarks.filter (·.fresh now), readMarkTable.Plain mark := by
  obtain ⟨within, typed⟩ := tables.readMarksFit
  rw [loadReadMarks_eq]
  exact Table.restored ((List.length_filter_le _ _).trans within) fun mark inside =>
    typed mark (List.mem_filter.mp inside).1

/-- The audit entries come back at each time, apart from the old ones, exactly when their lines are plain. -/
theorem ipaudit_restored :
    (∀ now, loadIpaudit now (saveIpaudit tables.ipaudit) = sweepIpaudit now tables.ipaudit) ↔
      ∀ entry ∈ tables.ipaudit, ipauditTable.Plain entry := by
  have whole := Table.restored tables.ipauditFit.1 tables.ipauditFit.2
  constructor
  · intro each
    exact whole.mp (each 0)
  · intro plain now
    rw [loadIpaudit, saveIpaudit, whole.mpr plain]

/-- Each table comes back from its file, apart from the entries that are too old, exactly when its lines are plain. -/
theorem side_files_restored :
    (loadNotifications (saveNotifications tables.notifications) = tables.notifications ↔
      ∀ entry ∈ tables.notifications, notificationTable.Plain entry) ∧
    (∀ now, loadReadMarks (saveReadMarks now tables.readMarks) = tables.readMarks.filter (·.fresh now) ↔
      ∀ mark ∈ tables.readMarks.filter (·.fresh now), readMarkTable.Plain mark) ∧
    (loadReports (saveReports tables.reports) = tables.reports ↔ ∀ entry ∈ tables.reports, reportTable.Plain entry) ∧
    (loadMutes (saveMutes tables.mutes) = tables.mutes ↔ ∀ entry ∈ tables.mutes, muteTable.Plain entry) ∧
    (loadModlog (saveModlog tables.modlog) = tables.modlog ↔ ∀ entry ∈ tables.modlog, modlogTable.Plain entry) ∧
    ((∀ now, loadIpaudit now (saveIpaudit tables.ipaudit) = sweepIpaudit now tables.ipaudit) ↔
      ∀ entry ∈ tables.ipaudit, ipauditTable.Plain entry) :=
  ⟨Table.restored tables.notificationsFit.1 tables.notificationsFit.2, readMarks_restored tables,
    Table.restored tables.reportsFit.1 tables.reportsFit.2, Table.restored tables.mutesFit.1 tables.mutesFit.2,
    Table.restored tables.modlogFit.1 tables.modlogFit.2, ipaudit_restored tables⟩

/-- A user logs in with the name `ann|bob`. After a restart the connection belongs to `ann` and to an address that is
no address. -/
theorem audit_attributed :
    ∃ name : UserName, loginName (str "ann|bob") = some name ∧
      (recordConnect [] name (.print (str "10.0.0.1")) 1000).map (·.username) = [.print (str "ann|bob")] ∧
      loadIpaudit 1000 (saveIpaudit (recordConnect [] name (.print (str "10.0.0.1")) 1000)) =
        [⟨.print (str "ann"), .print (str "bob"), 10, 1000⟩] ∧
      sweepIpaudit 1000 (recordConnect [] name (.print (str "10.0.0.1")) 1000) =
        recordConnect [] name (.print (str "10.0.0.1")) 1000 :=
  ⟨.print (str "ann|bob"), by decide +kernel, by decide +kernel, by decide +kernel, by decide +kernel⟩

end RoundTrip

end SshChatter.BbsFiles
