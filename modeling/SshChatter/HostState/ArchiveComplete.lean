import SshChatter.HostState.Archive

namespace SshChatter.HostState
open CString RecordLayout RecordStream CivilDate EventRun List

theorem digitsValue_zeros (count n : Nat) : digitsValue (replicate count 48 ++ decimal n) = n := by
  have zeros : digitsValue (replicate count 48) = 0 := by
    induction count with
    | zero => rfl
    | succ count ih =>
      rw [replicate_succ', digitsValue_append, ih]
      rfl
  rw [digitsValue_append, zeros, digitsValue_decimal, zero_mul, zero_add]

theorem zeros_isDigit (count n : Nat) : ∀ c ∈ replicate count 48 ++ decimal n, isDigit c := by
  intro c inside
  rcases mem_append.mp inside with zero | digit
  · rw [eq_of_mem_replicate zero]
    rfl
  · exact decimal_isDigit n c digit

theorem scanInt_digits {digits rest : Bytes} (all : ∀ c ∈ digits, isDigit c = true) (nonEmpty : digits ≠ [])
    (stops : ∀ c, rest.head? = some c → isDigit c = false) :
    scanInt (digits ++ rest) = some ((digitsValue digits : Int), rest) ∧
      scanInt (byte '-' :: (digits ++ rest)) = some (-(digitsValue digits : Int), rest) := by
  have run := takeWhile_isDigit all stops
  have left : (digits ++ rest).dropWhile isDigit = rest := by
    have whole := takeWhile_append_dropWhile (p := isDigit) (l := digits ++ rest)
    rw [run] at whole
    exact append_cancel_left whole
  constructor
  · obtain ⟨c, digits', rfl⟩ := exists_cons_of_ne_nil nonEmpty
    obtain ⟨notSpace, notMinus, notPlus⟩ := isDigit_plain (all c mem_cons_self)
    have start : ((c :: digits') ++ rest).dropWhile isSpace = (c :: digits') ++ rest :=
      dropWhile_cons_of_neg (by simp [notSpace])
    have unsigned : ¬ (((c :: digits') ++ rest).head? = some (byte '-') ∨
        ((c :: digits') ++ rest).head? = some (byte '+')) := by
      simp [notMinus, notPlus]
    have positive : ¬ ((c :: digits') ++ rest).head? = some (byte '-') := by simp [notMinus]
    simp only [scanInt, start, if_neg unsigned, run, left, if_neg nonEmpty, if_neg positive]
  · have start : (byte '-' :: (digits ++ rest)).dropWhile isSpace = byte '-' :: (digits ++ rest) :=
      dropWhile_cons_of_neg (by decide)
    simp only [scanInt, start, head?_cons, true_or, if_true, drop_succ_cons, drop_zero, run, left,
      if_neg nonEmpty]

theorem nil_stops : ∀ c, ([] : Bytes).head? = some c → isDigit c = false := fun _ head => absurd head (by simp)

theorem scanInt_zeroPadded (width : Nat) (value : Int) {rest : Bytes}
    (stops : ∀ c, rest.head? = some c → isDigit c = false) :
    scanInt (zeroPadded width value ++ rest) = some (value, rest) := by
  have nonEmpty : ∀ count, replicate count 48 ++ decimal value.natAbs ≠ [] := by
    intro count empty
    exact decimal_ne_nil _ (append_eq_nil_iff.mp empty).2
  rw [zeroPadded]
  split_ifs with negative
  · have scanned := (scanInt_digits (zeros_isDigit (width - 1 - (decimal value.natAbs).length) value.natAbs)
      (nonEmpty _) stops).2
    rw [digitsValue_zeros] at scanned
    rw [cons_append, scanned]
    congr 2
    omega
  · have scanned := (scanInt_digits (zeros_isDigit (width - (decimal value.natAbs).length) value.natAbs)
      (nonEmpty _) stops).1
    rw [digitsValue_zeros] at scanned
    rw [scanned]
    congr 2
    omega

theorem zeroPadded_injective (width : Nat) {first second : Int}
    (same : zeroPadded width first = zeroPadded width second) : first = second := by
  have scanned := scanInt_zeroPadded width first nil_stops
  rw [same, scanInt_zeroPadded width second nil_stops] at scanned
  exact (Prod.mk.inj (Option.some.inj scanned)).1.symm

/-- A number with no more digits than the width fills it. -/
theorem zeroPadded_length {width : Nat} {value : Int} (positive : 0 < width) (low : 0 ≤ value)
    (high : value < 10 ^ width) : (zeroPadded width value).length = width := by
  have short : (decimal value.natAbs).length ≤ width := by
    apply decimal_length _ positive
    zify
    rw [abs_of_nonneg low]
    exact high
  rw [zeroPadded, if_neg (by omega), length_append, length_replicate]
  omega

theorem scanDate_dateText (year month day : Int) : scanDate (dateText year month day) = some (year, month, day) := by
  have dash : ∀ {text : Bytes} c, (byte '-' :: text).head? = some c → isDigit c = false := by
    intro text c head
    cases head
    rfl
  have last := scanInt_zeroPadded 2 day nil_stops
  rw [append_nil] at last
  simp only [scanDate, dateText, scanInt_zeroPadded 4 year dash, scanInt_zeroPadded 2 month dash, last, scanDash,
    if_true, Option.bind_eq_bind, Option.bind_some]
  rfl

/-- Dates with two digits for the month and the day are written differently. -/
theorem dateText_injective {year year' month month' day day' : Int}
    (monthLow : 0 ≤ month) (monthHigh : month < 10 ^ 2) (dayLow : 0 ≤ day) (dayHigh : day < 10 ^ 2)
    (monthLow' : 0 ≤ month') (monthHigh' : month' < 10 ^ 2) (dayLow' : 0 ≤ day') (dayHigh' : day' < 10 ^ 2)
    (same : dateText year month day = dateText year' month' day') : year = year' ∧ month = month' ∧ day = day' := by
  have dayLength := zeroPadded_length (by decide : 0 < 2) dayLow dayHigh
  have dayLength' := zeroPadded_length (by decide : 0 < 2) dayLow' dayHigh'
  have monthLength := zeroPadded_length (by decide : 0 < 2) monthLow monthHigh
  have monthLength' := zeroPadded_length (by decide : 0 < 2) monthLow' monthHigh'
  obtain ⟨years, tails⟩ := append_inj' same (by simp [dayLength, dayLength', monthLength, monthLength'])
  obtain ⟨months, days⟩ := append_inj' (cons.inj tails).2 (by simp [dayLength, dayLength'])
  exact ⟨zeroPadded_injective 4 years, zeroPadded_injective 2 months, zeroPadded_injective 2 (cons.inj days).2⟩

section Paths

variable {settings : ArchiveSettings} {date : Date} {time : Int}

/-- A date that is written as `YYYY-MM-DD`. -/
structure Written (date : Date) : Prop where
  valid : date.Valid
  low : 0 ≤ date.year
  high : date.year < 10000

def FallsOn (date : Date) (time : Int) : Prop :=
  date.dayNumber * 86400 ≤ time ∧ time < (date.dayNumber + 1) * 86400

instance (date : Date) (time : Int) : Decidable (FallsOn date time) := inferInstanceAs (Decidable (_ ∧ _))

def textOfDate (date : Date) : Bytes := dateText date.year (date.month + 1) (date.day + 1)

def Roomy (settings : ArchiveSettings) : Prop := settings.baseDir.length + 28 < pathMax

instance (settings : ArchiveSettings) : Decidable (Roomy settings) := inferInstanceAs (Decidable (_ < _))

theorem fallsOn_iff (valid : date.Valid) : FallsOn date time ↔ ofDayNumber (time / 86400) = date := by
  constructor
  · intro falls
    have day : time / 86400 = date.dayNumber := by
      rw [FallsOn] at falls
      omega
    rw [day, ofDayNumber_dayNumber valid]
  · intro same
    have day := dayNumber_ofDayNumber (time / 86400)
    rw [same] at day
    rw [FallsOn]
    omega

def archivePath (settings : ArchiveSettings) (text : Bytes) : Bytes :=
  let file := str "chat_archive_" ++ (text ++ str ".dat")
  if settings.baseDir = [] then file else settings.baseDir ++ (byte '/' :: file)

theorem archivePath_injective {text text' : Bytes} (same : archivePath settings text = archivePath settings text') :
    text = text' := by
  have file : str "chat_archive_" ++ (text ++ str ".dat") = str "chat_archive_" ++ (text' ++ str ".dat") := by
    rw [archivePath, archivePath] at same
    split_ifs at same with root
    · exact same
    · exact (cons.inj (append_cancel_left same)).2
  exact append_cancel_right (append_cancel_left file)

def nameOfTime (time : Int) : Bytes :=
  match gmtime time with
  | some date => textOfDate date
  | none => dateText 1900 1 0

theorem resolvePath_eq (settings : ArchiveSettings) (time : Int) :
    resolvePath settings time =
      if (archivePath settings (nameOfTime time)).length < pathMax then some (archivePath settings (nameOfTime time))
      else none := by
  rw [resolvePath, nameOfTime]
  cases gmtime time with
  | none => rfl
  | some => rfl

theorem textOfDate_length (written : Written date) : (textOfDate date).length = 10 := by
  obtain ⟨month, day⟩ := written.valid.small
  have years := zeroPadded_length (by decide : 0 < 4) written.low written.high
  have months : (zeroPadded 2 ((date.month : Int) + 1)).length = 2 :=
    zeroPadded_length (by decide) (by omega) (by omega)
  have days : (zeroPadded 2 ((date.day : Int) + 1)).length = 2 := zeroPadded_length (by decide) (by omega) (by omega)
  simp only [textOfDate, dateText, length_append, length_cons, years, months, days]

theorem archivePath_fits (roomy : Roomy settings) (written : Written date) :
    (archivePath settings (textOfDate date)).length < pathMax := by
  have name : (str "chat_archive_").length = 13 ∧ (str ".dat").length = 4 := by decide
  rw [Roomy] at roomy
  rw [archivePath]
  split_ifs with root
  · simp only [length_append, textOfDate_length written]
    decide
  · simp only [length_append, length_cons, textOfDate_length written]
    omega

theorem nameOfTime_iff (written : Written date) : nameOfTime time = textOfDate date ↔ FallsOn date time := by
  rw [fallsOn_iff written.valid]
  obtain ⟨month, day⟩ := written.valid.small
  have low := written.low
  have high := written.high
  constructor
  · intro same
    rw [nameOfTime, gmtime] at same
    split_ifs at same with inRange
    · obtain ⟨month', day'⟩ := (ofDayNumber_valid (time / 86400)).small
      obtain ⟨years, months, days⟩ := dateText_injective (by omega) (by omega) (by omega) (by omega) (by omega)
        (by omega) (by omega) (by omega) same
      cases date with
      | mk =>
        generalize ofDayNumber (time / 86400) = other at *
        cases other with
        | mk =>
          simp only [Date.mk.injEq]
          dsimp only at years months days
          omega
    · obtain ⟨-, -, days⟩ := dateText_injective (by decide) (by decide) (by decide) (by decide) (by omega) (by omega)
        (by omega) (by omega) same
      omega
  · intro same
    rw [nameOfTime, gmtime]
    rw [same, if_pos (by omega)]

theorem resolvePath_iff (roomy : Roomy settings) (written : Written date) :
    resolvePath settings time = some (archivePath settings (textOfDate date)) ↔ FallsOn date time := by
  rw [← nameOfTime_iff written, resolvePath_eq]
  constructor
  · intro found
    split_ifs at found
    exact archivePath_injective (Option.some.inj found)
  · intro same
    rw [same, if_pos (archivePath_fits roomy written)]

theorem timegm_date (written : Written date) :
    timegm date.year (date.month + 1) (date.day + 1) = date.dayNumber * 86400 := by
  obtain ⟨month, -⟩ := written.valid.small
  have carry : ((date.month : Int) + 1 - 1) / 12 = 0 := by omega
  have rest : (((date.month : Int) + 1 - 1) % 12).toNat = date.month := by omega
  rw [timegm, carry, rest, Date.dayNumber, add_zero]
  ring

end Paths

section Header

theorem fread_append {size : Nat} {front : Bytes} (whole : front.length = size) (back : Bytes) :
    fread size (front ++ back) = some (front, back) := by
  rw [fread_some (by rw [length_append]; omega), take_left' whole, drop_left' whole]

def StateHeader.base (header : StateHeader) : Bytes :=
  fixed 4 hostStateMagic ++ (fixed 4 hostStateVersion ++ (fixed 4 (header.historyCount % 2 ^ 32) ++
    fixed 4 (header.preferenceCount % 2 ^ 32)))

def StateHeader.metadata (header : StateHeader) : Bytes :=
  (fixed 4 0 ++ (fixed 4 (header.grantCount % 2 ^ 32) ++ fixed 8 (header.nextMessageId % 2 ^ 64))) ++
    (flagByte header.captchaEnabled :: flagByte header.geoLanguageEnabled :: replicate 6 0)

variable (header : StateHeader) (rest : Bytes)

theorem StateHeader.bytes_eq : header.bytes ++ rest = header.base ++ (header.metadata ++ rest) := by
  simp only [StateHeader.bytes, StateHeader.base, StateHeader.metadata, append_assoc]

theorem StateHeader.base_length : header.base.length = 16 := by
  simp only [StateHeader.base, length_append, fixed_length]

theorem StateHeader.base_numbers :
    unsigned (header.base.take 4) = hostStateMagic ∧ unsigned ((header.base.drop 4).take 4) = hostStateVersion ∧
      unsigned ((header.base.drop 8).take 4) = header.historyCount % 2 ^ 32 := by
  have magic : unsigned (fixed 4 hostStateMagic) = hostStateMagic := unsigned_fixed (by decide)
  have version : unsigned (fixed 4 hostStateVersion) = hostStateVersion := unsigned_fixed (by decide)
  have count : unsigned (fixed 4 (header.historyCount % 2 ^ 32)) = header.historyCount % 2 ^ 32 :=
    unsigned_fixed (Nat.mod_lt _ (by decide))
  refine ⟨?_, ?_, ?_⟩
  · rw [StateHeader.base, fixed_take, magic]
  · rw [StateHeader.base, fixed_drop 4 _ _ 0, drop_zero, fixed_take, version]
  · rw [StateHeader.base, fixed_drop 4 _ _ 4, fixed_drop 4 _ _ 0, drop_zero, fixed_take, count]

theorem streamOpen_header :
    streamOpen (header.bytes ++ rest) = some (hostStateVersion, header.historyCount % 2 ^ 32, rest) := by
  obtain ⟨magic, version, count⟩ := header.base_numbers
  have first := fread_append header.base_length (header.metadata ++ rest)
  have second : fread 16 (header.metadata ++ rest) = some (fixed 4 0 ++ (fixed 4 (header.grantCount % 2 ^ 32) ++
      fixed 8 (header.nextMessageId % 2 ^ 64)),
      (flagByte header.captchaEnabled :: flagByte header.geoLanguageEnabled :: replicate 6 0) ++ rest) := by
    rw [StateHeader.metadata, append_assoc]
    exact fread_append (by simp only [length_append, fixed_length]) _
  have third : fread 8 ((flagByte header.captchaEnabled :: flagByte header.geoLanguageEnabled :: replicate 6 0) ++
      rest) = some (flagByte header.captchaEnabled :: flagByte header.geoLanguageEnabled :: replicate 6 0, rest) :=
    fread_append (by simp) _
  rw [streamOpen, StateHeader.bytes_eq, first]
  dsimp only
  rw [if_neg (not_not.mpr magic), if_neg (not_not.mpr version), second]
  dsimp only
  rw [third, count]

theorem presentCount_header : presentCount (header.bytes ++ rest) = header.historyCount % 2 ^ 32 := by
  obtain ⟨magic, version, count⟩ := header.base_numbers
  rw [presentCount, StateHeader.bytes_eq, fread_append header.base_length]
  dsimp only
  rw [if_pos ⟨magic, version⟩, count]

theorem overwrite_middle {front middle new back : Bytes} {offset : Nat} (place : front.length = offset)
    (same : new.length = middle.length) :
      overwrite (front ++ (middle ++ back)) offset new = front ++ (new ++ back) := by
  rw [overwrite, take_left' place, same, ← drop_drop, drop_left' place, drop_left' rfl]

theorem overwrite_count (count : Nat) : overwrite (header.bytes ++ rest) 8 (fixed 4 (count % 2 ^ 32)) =
    ({ header with historyCount := count } : StateHeader).bytes ++ rest := by
  have split : ∀ number, ({ header with historyCount := number } : StateHeader).bytes ++ rest =
      (fixed 4 hostStateMagic ++ fixed 4 hostStateVersion) ++
        (fixed 4 (number % 2 ^ 32) ++ (fixed 4 (header.preferenceCount % 2 ^ 32) ++ (header.metadata ++ rest))) := by
    intro number
    simp only [StateHeader.bytes, StateHeader.metadata, append_assoc]
  refine (congrArg (overwrite · 8 (fixed 4 (count % 2 ^ 32))) (split header.historyCount)).trans ?_
  apply overwrite_middle
  · simp only [length_append, fixed_length]
  · rw [fixed_length, fixed_length]

end Header

section Files

variable {settings : ArchiveSettings}

def archiveBytes (entries : List ChatHistoryEntry) : Bytes :=
  ({ archiveHeader with historyCount := entries.length } : StateHeader).bytes ++ (entries.map writeHistoryEntry).flatten

def archiveFile (entries : List ChatHistoryEntry) : Option Bytes :=
  if entries = [] then none else some (archiveBytes entries)

theorem appendRecord_archiveFile (entries : List ChatHistoryEntry) (entry : ChatHistoryEntry) :
    some (appendRecord (archiveFile entries) entry) = archiveFile (entries ++ [entry]) := by
  have grown : archiveBytes (entries ++ [entry]) =
      ({ archiveHeader with historyCount := (entries ++ [entry]).length } : StateHeader).bytes ++
        ((entries.map writeHistoryEntry).flatten ++ writeHistoryEntry entry) := by
    simp [archiveBytes]
  rw [archiveFile, archiveFile, if_neg (append_ne_nil_of_right_ne_nil _ (cons_ne_nil _ _)), grown]
  by_cases first : entries = []
  · subst first
    rw [if_pos rfl, appendRecord, Option.getD_none]
    rw [overwrite_count, nil_append, length_singleton, map_nil, flatten_nil,
      nil_append]
  · have count : (presentCount (archiveBytes entries) + 1) % 2 ^ 32 = (entries ++ [entry]).length % 2 ^ 32 := by
      rw [archiveBytes, presentCount_header, length_append, length_singleton, Nat.mod_add_mod]
    rw [if_neg first, appendRecord]
    rw [count, Option.getD_some, archiveBytes, append_assoc]
    exact congrArg some (overwrite_count { archiveHeader with historyCount := entries.length } _ _)

theorem storeEntry_full {Entry : Type} {evicted : Entry} {rest : List Entry}
    (full : historyCacheLimit ≤ (evicted :: rest).length) (entry : Entry) :
    storeEntry (evicted :: rest) entry = (rest ++ [entry], some evicted) := if_neg (not_lt.mpr full)

def Archived (settings : ArchiveSettings) (files : Files) (log : List TypedEntry) : Prop :=
  ∀ path, files path =
    archiveFile ((log.filter fun entry => resolvePath settings entry.val.createdAt = some path).map Subtype.val)

variable {log : List TypedEntry}

theorem Archived.append {files : Files} (archived : Archived settings files log) (entry : TypedEntry) :
    Archived settings (archiveAppendEntry settings true files entry).1 (log ++ [entry]) := by
  intro path
  rw [archiveAppendEntry, if_neg (by decide)]
  cases resolved : resolvePath settings entry.val.createdAt with
  | none =>
    simp [resolved, archived path]
  | some own =>
    by_cases same : path = own
    · subst same
      simp only [archived path, appendRecord_archiveFile]
      simp [resolved]
    · simp only [Function.update_of_ne same, archived path]
      simp [resolved, Ne.symm same]

theorem Archived.step {host : ArchiveHost} (archived : Archived settings host.files log) (event : ArchiveEvent) :
    Archived settings (archiveStep settings host event).files (log ++ evictedBy host event) := by
  cases event with
  | append entry =>
    rw [archiveStep, evictedBy]
    cases (storeEntry host.cache entry).2 with
    | none =>
      rw [Option.toList_none, append_nil]
      exact archived
    | some evicted => exact archived.append evicted
  | restart =>
    rw [evictedBy, append_nil]
    exact archived

theorem archived_run (settings : ArchiveSettings) (host : ArchiveHost) (archived : Archived settings host.files log)
    (events : List ArchiveEvent) :
    Archived settings (run (archiveStep settings) host events).files
      (log ++ emitted (archiveStep settings) evictedBy host events) := by
  induction events generalizing host log with
  | nil =>
    rw [emitted, append_nil]
    exact archived
  | cons event rest ih =>
    have later := ih _ (archived.step event)
    rw [append_assoc] at later
    exact later

end Files

section Complete

variable {settings : ArchiveSettings} {files : Files} {log : List TypedEntry}

/-- A date reads back the entries of its path. -/
theorem archiveReadDate_eq (archived : Archived settings files log) (roomy : Roomy settings) {date : Date}
    (written : Written date)
    (few : (log.filter fun entry => FallsOn date entry.val.createdAt).length < 2 ^ 32) :
    archiveReadDate settings files (textOfDate date) =
      (log.filter fun entry => FallsOn date entry.val.createdAt).map fun entry => entry.val.reread := by
  have start : FallsOn date (date.dayNumber * 86400) := ⟨le_refl _, by omega⟩
  have path := (resolvePath_iff roomy written).mpr start
  have own : ∀ entry : TypedEntry, resolvePath settings entry.val.createdAt =
      some (archivePath settings (textOfDate date)) ↔ FallsOn date entry.val.createdAt :=
    fun entry => resolvePath_iff roomy written
  have file := archived (archivePath settings (textOfDate date))
  simp only [own] at file
  rw [archiveReadDate, textOfDate, scanDate_dateText]
  dsimp only
  rw [timegm_date written, if_neg (by omega), path, Option.bind_some, file]
  generalize log.filter (fun entry => FallsOn date entry.val.createdAt) = entries at few ⊢
  rw [archiveFile]
  by_cases empty : entries = []
  · subst empty
    rfl
  · have typed : ∀ entry ∈ entries.map Subtype.val, entry.Typed := by
      intro entry inside
      obtain ⟨held, _, rfl⟩ := mem_map.mp inside
      exact held.property
    have records := readUpTo_write typed []
    rw [append_nil, length_map] at records
    rw [if_neg (fun none' => empty (map_eq_nil_iff.mp none')), archiveBytes]
    dsimp only
    rw [streamOpen_header]
    dsimp only
    rw [length_map, Nat.mod_eq_of_lt few, records, map_map]
    rfl

theorem flatten_records_length (entries : List ChatHistoryEntry) :
    ((entries.map writeHistoryEntry).flatten).length = entries.length * structSize historyEntry := by
  induction entries with
  | nil => rw [map_nil, flatten_nil, length_nil, length_nil, zero_mul]
  | cons entry entries ih =>
    rw [map_cons, flatten_cons, length_append, ih, writeHistoryEntry_length, length_cons,
      Nat.succ_mul, add_comm]

/-- The count of a file is that of its records, as a 32-bit number. -/
theorem archived_counted (archived : Archived settings files log) {path file : Bytes}
    (present : files path = some file) : ∃ count rest, streamOpen file = some (hostStateVersion, count % 2 ^ 32, rest) ∧
      rest.length = count * structSize historyEntry := by
  rw [archived path, archiveFile] at present
  split_ifs at present
  cases present
  exact ⟨_, _, streamOpen_header _ _, flatten_records_length _⟩

/-- What the archive owes to the evicted entries. -/
structure ArchiveComplete (settings : ArchiveSettings) (files : Files) (log : List TypedEntry) : Prop where
  readBack : ∀ date, Written date → (log.filter fun entry => FallsOn date entry.val.createdAt).length < 2 ^ 32 →
    archiveReadDate settings files (textOfDate date) =
      (log.filter fun entry => FallsOn date entry.val.createdAt).map fun entry => entry.val.reread
  counted : ∀ path file, files path = some file →
    ∃ count rest, streamOpen file = some (hostStateVersion, count % 2 ^ 32, rest) ∧
      rest.length = count * structSize historyEntry

/-- After every run from an empty archive each date reads back its evicted entries in the order of eviction. -/
theorem archive_complete (settings : { settings // Roomy settings }) (cache : List TypedEntry)
    (events : List ArchiveEvent) :
    ArchiveComplete settings (run (archiveStep settings) ⟨cache, fun _ => none⟩ events).files
      (emitted (archiveStep settings) evictedBy ⟨cache, fun _ => none⟩ events) := by
  have none' : Archived settings (fun _ => none) [] := fun path => rfl
  have archived := archived_run settings.val ⟨cache, fun _ => none⟩ none' events
  constructor
  case readBack => exact fun date written few => archiveReadDate_eq archived settings.property written few
  case counted => exact fun path file present => archived_counted archived present

def postedEntry : ChatHistoryEntry where
  isUserMessage := true
  preserveWhitespace := false
  message := str "hi"
  username := str "bob"
  rawUsername := []
  userColorCode := []
  userHighlightCode := []
  userIsBold := false
  userColorName := str "red"
  userHighlightName := str "default"
  messageId := 1
  attachmentType := 0
  attachmentTarget := []
  attachmentCaption := []
  createdAt := 7
  reactionCounts := replicate 28 0

instance (size : Nat) (text : Bytes) : Decidable (HeldBy size text) := inferInstanceAs (Decidable (_ ∧ _))

theorem postedEntry_typed : postedEntry.Typed := by
  constructor <;> decide +kernel

/-- The name of a message that was posted without a raw name comes back as its raw name. -/
theorem archive_names : ¬ ∀ (settings : { settings // Roomy settings }) (cache : List TypedEntry)
    (events : List ArchiveEvent) (date : Date), Written date →
    archiveReadDate settings (run (archiveStep settings) ⟨cache, fun _ => none⟩ events).files (textOfDate date) =
      ((emitted (archiveStep settings) evictedBy ⟨cache, fun _ => none⟩ events).filter
        fun entry => FallsOn date entry.val.createdAt).map Subtype.val := by
  intro claim
  let posted : TypedEntry := ⟨postedEntry, postedEntry_typed⟩
  let settings : ArchiveSettings := ⟨none, none, []⟩
  have roomy : Roomy settings := by decide +kernel
  have written : Written ⟨1970, 0, 0⟩ := ⟨by decide +kernel, by decide, by decide⟩
  have falls : FallsOn ⟨1970, 0, 0⟩ posted.val.createdAt := by decide +kernel
  have cache : replicate historyCacheLimit posted = posted :: replicate 32767 posted := replicate_succ
  have evicted : emitted (archiveStep settings) evictedBy
      ⟨replicate historyCacheLimit posted, fun _ => none⟩ [.append posted] = [posted] := by
    have full : historyCacheLimit ≤ (posted :: replicate 32767 posted).length := by
      rw [← cache, length_replicate]
    rw [emitted, emitted, append_nil, evictedBy, cache, storeEntry_full full, Option.toList_some]
  have none' : Archived settings (fun _ => none) [] := fun path => rfl
  have archived := archived_run settings ⟨replicate historyCacheLimit posted, fun _ => none⟩ none' [.append posted]
  rw [nil_append, evicted] at archived
  have said := claim ⟨settings, roomy⟩ (replicate historyCacheLimit posted) [.append posted] ⟨1970, 0, 0⟩ written
  have one : [posted].filter (fun entry => FallsOn ⟨1970, 0, 0⟩ entry.val.createdAt) = [posted] :=
    filter_cons_of_pos (decide_eq_true falls)
  have read := archiveReadDate_eq archived roomy written (by rw [one]; decide)
  rw [evicted] at said
  have same : [postedEntry.reread] = [postedEntry] := read.symm.trans said
  have different : postedEntry.reread ≠ postedEntry := by decide +kernel
  exact different (cons.inj same).1

end Complete

end SshChatter.HostState
