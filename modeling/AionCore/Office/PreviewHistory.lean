import AionCore.Lib.Dict
import AionCore.Lib.Machine
import AionCore.Lib.Registry

/-!
# Office previews: the history of snapshots

`SnapshotService` with its directories. A save is split at the creation of its directory, the
write of its file, the read of the index, each removal of an old file and the write of the
index; `get_content` at its two reads. Every read and write may fail. An index file is taken as
a list of entries, or as nothing that can be read.
-/

namespace AionCore.Office

/-- `MAX_SNAPSHOTS`. -/
def maxSnapshots : ℕ := 50

inductive PreviewContentType where
  | markdown
  | diff
  | code
  | html
  | pdf
  | ppt
  | word
  | excel
  | image
  | url
  deriving DecidableEq

/-- The serialized name. -/
def PreviewContentType.name : PreviewContentType → String
  | .markdown => "markdown"
  | .diff => "diff"
  | .code => "code"
  | .html => "html"
  | .pdf => "pdf"
  | .ppt => "ppt"
  | .word => "word"
  | .excel => "excel"
  | .image => "image"
  | .url => "url"

/-- `PreviewHistoryTargetDto`. -/
structure PreviewHistoryTarget where
  contentType : PreviewContentType
  filePath : Option String
  workspace : Option String
  fileName : Option String
  title : Option String
  language : Option String
  conversationId : Option String
  deriving DecidableEq

/-- `PreviewSnapshotInfoDto`. -/
structure PreviewSnapshotInfo where
  id : String
  label : String
  createdAt : ℤ
  size : ℕ
  contentType : PreviewContentType
  fileName : Option String
  filePath : Option String
  deriving DecidableEq

/-- SHA-1 in hexadecimal digits, taken as injective. -/
structure Sha1 where
  hex : List UInt8 → String
  injective : Function.Injective hex

/-- The bytes that `compute_target_hash` feeds to the hasher. -/
def hashInput (target : PreviewHistoryTarget) : List UInt8 :=
  target.contentType.name.toUTF8.toList ++ [0] ++
    [target.filePath, target.workspace, target.fileName, target.title, target.language,
      target.conversationId].flatMap fun field => (field.getD "").toUTF8.toList ++ [0]

def computeTargetHash (sha : Sha1) (target : PreviewHistoryTarget) : String :=
  sha.hex (hashInput target)

/-- `current_timestamp_ms`. The clock gives nanoseconds since the epoch, or none before it. -/
def currentTimestampMs (clock : Option ℕ) : ℤ :=
  Int.bmod ((clock.getD 0) / 1000000) 18446744073709551616

def hex8 (n : ℕ) : String :=
  let digits := Nat.toDigits 16 n
  String.ofList (List.replicate (8 - digits.length) '0' ++ digits)

/-- `random_hex`. -/
def randomHex (pid : UInt32) (clock : Option ℕ) : String :=
  hex8 (UInt32.ofNat (clock.getD 0 % 1000000000) ^^^ pid).toNat

/-- A number in decimal, with `width` characters at least. -/
def padded (width : ℕ) (n : ℤ) : String :=
  let digits := (toString n.natAbs).toList
  let sign := if n < 0 then ['-'] else []
  String.ofList (sign ++ List.replicate (width - sign.length - digits.length) '0' ++ digits)

def isLeapYear (year : ℤ) : Bool :=
  (year.tmod 4 = 0 && year.tmod 100 ≠ 0) || year.tmod 400 = 0

def daysInYear (year : ℤ) : ℤ := if isLeapYear year then 366 else 365

/-- The first loop of `format_label`; `rounds` bounds it. -/
def yearLoop : ℕ → ℤ → ℤ → ℤ × ℤ
  | 0, year, days => (year, days)
  | rounds + 1, year, days =>
    if days < daysInYear year then (year, days)
    else yearLoop rounds (year + 1) (days - daysInYear year)

/-- The second loop of `format_label`. -/
def monthLoop (year : ℤ) : ℕ → ℤ → List ℤ → ℤ × ℤ
  | _, day, [] => (0, day)
  | i, day, md :: rest =>
    let md := if i = 1 && isLeapYear year then md + 1 else md
    if day < md then (i + 1, day) else monthLoop year (i + 1) (day - md) rest

def monthDays : List ℤ := [31, 28, 31, 30, 31, 30, 31, 31, 30, 31, 30, 31]

def formatLabel (timestampMs : ℤ) : String :=
  let secs := timestampMs.tdiv 1000
  let minutes := (secs.tdiv 60).tmod 60
  let hours := (secs.tdiv 3600).tmod 24
  let (year, days) := yearLoop ((secs.tdiv 86400).toNat + 1) 1970 (secs.tdiv 86400)
  let (month, day) := monthLoop year 0 days monthDays
  let month := if month = 0 then 12 else month
  padded 4 year ++ "-" ++ padded 2 month ++ "-" ++ padded 2 (day + 1) ++ " " ++ padded 2 hours ++
    ":" ++ padded 2 minutes

/-- What the text of an index file says. -/
inductive IndexFile where
  | listed (snapshots : List PreviewSnapshotInfo)
  | broken

/-- The directory of a target, empty before it is created: the index, the snapshot files by
their ids, and the number of times that a save has written the index. -/
structure TargetDir where
  index : Option IndexFile
  files : Dict String String
  writes : ℕ

/-- `read_index`; a failed read gives no entries. -/
def TargetDir.readIndex (dir : TargetDir) (ok : Bool) : List PreviewSnapshotInfo :=
  match dir.index, ok with
  | some (.listed snapshots), true => snapshots
  | _, _ => []

theorem TargetDir.readIndex_of_listed {dir : TargetDir} {snapshots : List PreviewSnapshotInfo}
    (h : dir.index = some (.listed snapshots)) : dir.readIndex true = snapshots := by
  simp [readIndex, h]

theorem TargetDir.mem_readIndex {dir : TargetDir} {ok : Bool} {info : PreviewSnapshotInfo}
    (h : info ∈ dir.readIndex ok) :
    ∃ snapshots, dir.index = some (.listed snapshots) ∧ info ∈ snapshots := by
  obtain ⟨index, files, writes⟩ := dir
  rcases index with _ | snapshots | _
  · cases h
  · cases ok with
    | true => exact ⟨snapshots, rfl, h⟩
    | false => cases h
  · cases h

def TargetDir.readable (dir : TargetDir) (ok : Bool) : Bool :=
  match dir.index with
  | none => true
  | some (.listed _) => ok
  | some .broken => false

def sortByCreatedAt (snapshots : List PreviewSnapshotInfo) : List PreviewSnapshotInfo :=
  snapshots.insertionSort fun a b => a.createdAt ≤ b.createdAt

/-- Where a save stands. -/
inductive SaveStage where
  | opened
  | written (info : PreviewSnapshotInfo)
  | trimming (info : PreviewSnapshotInfo) (snapshots : List PreviewSnapshotInfo)
  | returned (result : Option PreviewSnapshotInfo)
  deriving DecidableEq

def SaveStage.inProgress : SaveStage → Option PreviewSnapshotInfo
  | .written info => some info
  | .trimming info _ => some info
  | _ => none

def SaveStage.oldest : SaveStage → Option PreviewSnapshotInfo
  | .trimming _ (oldest :: rest) =>
    if maxSnapshots < (oldest :: rest).length then some oldest else none
  | _ => none

def SaveStage.isOk : SaveStage → Bool
  | .returned (some _) => true
  | _ => false

/-- A call of `save`: what it left in its file, how often the index had been written when it
read it, and the ids whose files it has removed. -/
structure SaveCall where
  target : PreviewHistoryTarget
  content : String
  stage : SaveStage
  wrote : Option String
  readAt : ℕ
  removed : List String

/-- A save that returned Ok. -/
structure Saved where
  target : PreviewHistoryTarget
  info : PreviewSnapshotInfo
  content : String
  deriving DecidableEq

/-- A call of `get_content` that found its entry; `since` is the number of saves that had
returned Ok when it was called. -/
structure GetCall where
  target : PreviewHistoryTarget
  id : String
  info : PreviewSnapshotInfo
  since : ℕ
  done : Bool

/-- What `list` returned, none for an error. -/
structure ListAnswer where
  target : PreviewHistoryTarget
  since : ℕ
  result : Option (List PreviewSnapshotInfo)

/-- What `get_content` returned, none for an error; `upTo` is the number of saves that had
returned Ok by then. -/
structure GetAnswer where
  target : PreviewHistoryTarget
  id : String
  since : ℕ
  upTo : ℕ
  result : Option (Option (PreviewSnapshotInfo × String))

/-- The service with its calls; `confirmed` lists the saves in the order in which they
returned Ok. -/
structure PreviewHistory where
  dirs : String → TargetDir
  saves : List SaveCall
  gets : List GetCall
  confirmed : List Saved
  lists : List ListAnswer
  answers : List GetAnswer

/-- How a write of the index ends; a failed one may leave a text that is not one. -/
inductive IndexWrite where
  | ok
  | failed (broken : Bool)
  deriving DecidableEq

/-- A step. A failed write of a snapshot file leaves a text there, or the file as it was. -/
inductive HistoryStep where
  | save (target : PreviewHistoryTarget) (content : String) (dirOk : Bool)
  | writeFile (k : ℕ) (clock suffixClock : Option ℕ) (failure : Option (Option String))
  | readIndex (k : ℕ) (ok : Bool)
  | removeOldest (k : ℕ) (ok : Bool)
  | writeIndex (k : ℕ) (outcome : IndexWrite)
  | list (target : PreviewHistoryTarget) (found ok : Bool)
  | getContent (target : PreviewHistoryTarget) (id : String) (ok : Bool)
  | readFile (k : ℕ) (found ok : Bool)

/-- The service with its process id. -/
structure SnapshotService where
  sha : Sha1
  pid : UInt32

namespace PreviewHistory

variable (svc : SnapshotService)

/-- A data directory without any history. -/
def fresh : PreviewHistory where
  dirs _ := ⟨none, ∅, 0⟩
  saves := []
  gets := []
  confirmed := []
  lists := []
  answers := []

def dir (w : PreviewHistory) (target : PreviewHistoryTarget) : TargetDir :=
  w.dirs (computeTargetHash svc.sha target)

def setDir (w : PreviewHistory) (target : PreviewHistoryTarget) (dir : TargetDir) :
    PreviewHistory :=
  { w with dirs := Function.update w.dirs (computeTargetHash svc.sha target) dir }

def setSave (w : PreviewHistory) (k : ℕ) (call : SaveCall) : PreviewHistory :=
  { w with saves := w.saves.set k call }

/-- The creation of the directory, the first step of `save`. -/
def save (w : PreviewHistory) (target : PreviewHistoryTarget) (content : String) (dirOk : Bool) :
    PreviewHistory :=
  let stage := if dirOk then .opened else .returned none
  { w with saves := w.saves ++ [⟨target, content, stage, none, 0, []⟩] }

def snapshotId (clock suffixClock : Option ℕ) : String :=
  toString (currentTimestampMs clock) ++ "-" ++ randomHex svc.pid suffixClock

def newInfo (call : SaveCall) (clock suffixClock : Option ℕ) : PreviewSnapshotInfo where
  id := snapshotId svc clock suffixClock
  label := formatLabel (currentTimestampMs clock)
  createdAt := currentTimestampMs clock
  size := call.content.utf8ByteSize
  contentType := call.target.contentType
  fileName := call.target.fileName
  filePath := call.target.filePath

/-- The write of the snapshot file. -/
def writeFile (w : PreviewHistory) (k : ℕ) (clock suffixClock : Option ℕ)
    (failure : Option (Option String)) : PreviewHistory :=
  match w.saves[k]? with
  | some call =>
    match call.stage with
    | .opened =>
      let info := newInfo svc call clock suffixClock
      let dir := w.dir svc call.target
      match failure with
      | none =>
        let dir := { dir with files := dir.files.insert info.id call.content }
        (w.setDir svc call.target dir).setSave k
          { call with stage := .written info, wrote := some call.content }
      | some (some left) =>
        let dir := { dir with files := dir.files.insert info.id left }
        (w.setDir svc call.target dir).setSave k
          { call with stage := .returned none, wrote := some left }
      | some none => w.setSave k { call with stage := .returned none }
    | _ => w
  | none => w

/-- The read of the index, with the first lines of `trim_and_write_index`. -/
def readIndex (w : PreviewHistory) (k : ℕ) (ok : Bool) : PreviewHistory :=
  match w.saves[k]? with
  | some call =>
    match call.stage with
    | .written info =>
      let dir := w.dir svc call.target
      let snapshots := sortByCreatedAt (dir.readIndex ok ++ [info])
      w.setSave k { call with stage := .trimming info snapshots, readAt := dir.writes }
    | _ => w
  | none => w

/-- One round of the loop of `trim_and_write_index`. A file that cannot be removed stays. -/
def removeOldest (w : PreviewHistory) (k : ℕ) (ok : Bool) : PreviewHistory :=
  match w.saves[k]? with
  | some call =>
    match call.stage with
    | .trimming info (oldest :: rest) =>
      if maxSnapshots < (oldest :: rest).length then
        let dir := w.dir svc call.target
        if ok then
          (w.setDir svc call.target { dir with files := dir.files.erase oldest.id }).setSave k
            { call with stage := .trimming info rest, removed := call.removed ++ [oldest.id] }
        else w.setSave k { call with stage := .trimming info rest }
      else w
    | _ => w
  | none => w

/-- The write of the index, after which `save` returns. -/
def writeIndex (w : PreviewHistory) (k : ℕ) (outcome : IndexWrite) : PreviewHistory :=
  match w.saves[k]? with
  | some call =>
    match call.stage with
    | .trimming info snapshots =>
      if maxSnapshots < snapshots.length then w
      else
        let dir := w.dir svc call.target
        match outcome with
        | .ok =>
          { (w.setDir svc call.target
              { dir with index := some (.listed snapshots), writes := dir.writes + 1 }).setSave k
                { call with stage := .returned (some info) } with
            confirmed := w.confirmed ++ [⟨call.target, info, call.content⟩] }
        | .failed true =>
          (w.setDir svc call.target { dir with index := some .broken }).setSave k
            { call with stage := .returned none }
        | .failed false => w.setSave k { call with stage := .returned none }
    | _ => w
  | none => w

/-- What `list` returns; `found` is what `exists` says of an index that is there. -/
def listResult (w : PreviewHistory) (target : PreviewHistoryTarget) (found ok : Bool) :
    Option (List PreviewSnapshotInfo) :=
  match (w.dir svc target).index with
  | none => some []
  | some file =>
    if !found then some []
    else
      match file, ok with
      | .listed snapshots, true => some (sortByCreatedAt snapshots)
      | _, _ => none

def list (w : PreviewHistory) (target : PreviewHistoryTarget) (found ok : Bool) : PreviewHistory :=
  { w with lists := w.lists ++ [⟨target, w.confirmed.length, w.listResult svc target found ok⟩] }

/-- The first read of `get_content`. -/
def getContent (w : PreviewHistory) (target : PreviewHistoryTarget) (id : String) (ok : Bool) :
    PreviewHistory :=
  let since := w.confirmed.length
  match ((w.dir svc target).readIndex ok).find? (fun s => s.id = id) with
  | none => { w with answers := w.answers ++ [⟨target, id, since, since, some none⟩] }
  | some info => { w with gets := w.gets ++ [⟨target, id, info, since, false⟩] }

/-- What `get_content` returns for an entry that it found. -/
def contentResult (w : PreviewHistory) (call : GetCall) (found ok : Bool) :
    Option (Option (PreviewSnapshotInfo × String)) :=
  match (w.dir svc call.target).files.lookup call.id with
  | none => some none
  | some text =>
    if !found then some none else if ok then some (some (call.info, text)) else none

/-- The second read of `get_content`. -/
def readFile (w : PreviewHistory) (k : ℕ) (found ok : Bool) : PreviewHistory :=
  match w.gets[k]? with
  | some call =>
    if call.done then w
    else
      { w with
        gets := w.gets.set k { call with done := true }
        answers := w.answers ++ [⟨call.target, call.id, call.since, w.confirmed.length,
          w.contentResult svc call found ok⟩] }
  | none => w

def fire (w : PreviewHistory) : HistoryStep → PreviewHistory
  | .save target content dirOk => w.save target content dirOk
  | .writeFile k clock suffixClock failure => w.writeFile svc k clock suffixClock failure
  | .readIndex k ok => w.readIndex svc k ok
  | .removeOldest k ok => w.removeOldest svc k ok
  | .writeIndex k outcome => w.writeIndex svc k outcome
  | .list target found ok => w.list svc target found ok
  | .getContent target id ok => w.getContent svc target id ok
  | .readFile k found ok => w.readFile svc k found ok

def machine : Machine PreviewHistory HistoryStep where
  start w := w = fresh
  admits _ _ := True
  fire := fire svc

/-- The last `n` saves of a target that returned Ok, the youngest first. -/
def lastSaves (n : ℕ) (target : PreviewHistoryTarget) (confirmed : List Saved) : List Saved :=
  (confirmed.filter (·.target = target)).reverse.take n

/-- The last saves of every target are listed and their contents are returned, and nothing
else's. Each answer is held against the saves that had returned Ok when it was asked for. -/
structure Keeps (w : PreviewHistory) : Prop where
  indexed : ∀ target, ∀ r ∈ lastSaves maxSnapshots target w.confirmed,
    ∃ file, (w.dir svc target).index = some file ∧
      ∀ snapshots, file = .listed snapshots → r.info ∈ snapshots
  listed : ∀ a ∈ w.lists, ∀ snapshots, a.result = some snapshots →
    (∀ r ∈ lastSaves maxSnapshots a.target (w.confirmed.take a.since), r.info ∈ snapshots) ∧
      ∀ info ∈ snapshots, ∃ r ∈ w.confirmed, r.target = a.target ∧ r.info = info
  returned : ∀ a ∈ w.answers, ∀ found, a.result = some found →
    ∀ r ∈ w.confirmed.take a.since, r.info.id = a.id →
      r ∈ lastSaves maxSnapshots a.target (w.confirmed.take a.upTo) →
      ∃ info, found = some (info, r.content)
  shown : ∀ a ∈ w.answers, ∀ info text, a.result = some (some (info, text)) →
    (∃ r ∈ w.confirmed, r.target = a.target ∧ r.info = info) ∧
      ∃ call ∈ w.saves, call.target = a.target ∧ call.wrote = some text

/-- No save has been called for another target with the same bytes to hash. -/
def Apart (w : PreviewHistory) (target : PreviewHistoryTarget) : Prop :=
  ∀ call ∈ w.saves, hashInput call.target = hashInput target → call.target = target

instance (w : PreviewHistory) (target : PreviewHistoryTarget) : Decidable (w.Apart target) := by
  unfold Apart
  infer_instance

/-- The id is neither that of one of the last `n` saves of the target nor that of a save of it in
progress. -/
def Unused (w : PreviewHistory) (n : ℕ) (target : PreviewHistoryTarget) (id : String) : Prop :=
  (∀ r ∈ lastSaves n target w.confirmed, r.info.id ≠ id) ∧
    ∀ call ∈ w.saves, call.target = target → ∀ info ∈ call.stage.inProgress, info.id ≠ id

instance (w : PreviewHistory) (n : ℕ) (target : PreviewHistoryTarget) (id : String) :
    Decidable (w.Unused n target id) := by
  unfold Unused
  infer_instance

/-- What keeps the promise: reads of the index succeed, its writes do not cross, ids are new,
the clock does not make a save trim what is young, no entry is asked for while its file is
already removed, and targets differ in what is hashed. -/
def Careful (w : PreviewHistory) : HistoryStep → Prop
  | .save target _ _ => w.Apart target
  | .writeFile k clock suffixClock _ => ∀ call ∈ w.saves[k]?, call.stage = .opened →
    w.Unused maxSnapshots call.target (snapshotId svc clock suffixClock)
  | .readIndex k ok => ∀ call ∈ w.saves[k]?, call.stage.inProgress.isSome →
    (w.dir svc call.target).readable ok = true
  | .removeOldest k _ => ∀ call ∈ w.saves[k]?, ∀ oldest ∈ call.stage.oldest,
    w.Unused (maxSnapshots - 1) call.target oldest.id
  | .writeIndex k outcome => ∀ call ∈ w.saves[k]?, call.stage.inProgress.isSome →
    outcome = .ok → call.readAt = (w.dir svc call.target).writes
  | .list target found _ => w.Apart target ∧ ((w.dir svc target).index.isNone ∨ found = true)
  | .getContent target _ ok => w.Apart target ∧ (w.dir svc target).readable ok = true
  | .readFile k found _ => ∀ call ∈ w.gets[k]?, call.done = false →
    found = true ∧ ∀ save ∈ w.saves, save.target = call.target → save.stage.isOk = false →
      call.id ∉ save.removed

variable {svc : SnapshotService} {w : PreviewHistory} {k n : ℕ} {target : PreviewHistoryTarget}
  {r : Saved}

theorem lastSaves_sublist (n : ℕ) (target : PreviewHistoryTarget) (confirmed : List Saved)
    (h : r ∈ lastSaves n target confirmed) : r ∈ confirmed ∧ r.target = target := by
  have hmem := List.mem_reverse.mp (List.mem_of_mem_take h)
  obtain ⟨hin, ht⟩ := List.mem_filter.mp hmem
  exact ⟨hin, by simpa using ht⟩

variable {confirmed : List Saved}

theorem lastSaves_mono {m n : ℕ} (h : m ≤ n) (hr : r ∈ lastSaves m target confirmed) :
    r ∈ lastSaves n target confirmed :=
  (List.take_sublist_take_left h).mem hr

theorem lastSaves_self (n : ℕ) (confirmed : List Saved) (r : Saved) :
    lastSaves (n + 1) r.target (confirmed ++ [r]) = r :: lastSaves n r.target confirmed := by
  simp [lastSaves, List.filter_append]

theorem lastSaves_other (n : ℕ) (confirmed : List Saved) (h : r.target ≠ target) :
    lastSaves n target (confirmed ++ [r]) = lastSaves n target confirmed := by
  simp [lastSaves, List.filter_append, h]

/-- What a save that trims holds. -/
structure Held (svc : SnapshotService) (w : PreviewHistory) (call : SaveCall)
    (info : PreviewSnapshotInfo) (snapshots : List PreviewSnapshotInfo) : Prop where
  own : info ∈ snapshots
  ownFile : info.id ∉ call.removed
  entries : ∀ e ∈ snapshots, e = info ∨
    ∃ r ∈ w.confirmed, hashInput r.target = hashInput call.target ∧ r.info = e
  readAt : call.readAt ≤ (w.dir svc call.target).writes
  last : call.readAt = (w.dir svc call.target).writes →
    ∀ r ∈ lastSaves (maxSnapshots - 1) call.target w.confirmed,
      r.info ∈ snapshots ∧ r.info.id ∉ call.removed

/-- What the disk holds of the saves. -/
structure Kept (svc : SnapshotService) (w : PreviewHistory) : Prop where
  apart : ∀ c ∈ w.saves, ∀ c' ∈ w.saves, hashInput c.target = hashInput c'.target →
    c.target = c'.target
  saved : ∀ r ∈ w.confirmed, ∃ c ∈ w.saves, c.target = r.target
  indexed : ∀ target, ∀ r ∈ lastSaves maxSnapshots target w.confirmed,
    ∃ file, (w.dir svc target).index = some file ∧
      ∀ snapshots, file = .listed snapshots → r.info ∈ snapshots
  entries : ∀ target snapshots, (w.dir svc target).index = some (.listed snapshots) →
    ∀ info ∈ snapshots,
      ∃ r ∈ w.confirmed, hashInput r.target = hashInput target ∧ r.info = info
  files : ∀ target, ∀ r ∈ lastSaves maxSnapshots target w.confirmed,
    (w.dir svc target).files.lookup r.info.id = some r.content ∨
      ∃ c ∈ w.saves, c.target = target ∧ c.stage.isOk = false ∧ r.info.id ∈ c.removed
  progress : ∀ c ∈ w.saves, ∀ info, c.stage.inProgress = some info →
    (w.dir svc c.target).files.lookup info.id = some c.content ∧
      ∀ r ∈ lastSaves maxSnapshots c.target w.confirmed, r.info.id ≠ info.id
  distinct : ∀ (j k : ℕ) (c c' : SaveCall), w.saves[j]? = some c → w.saves[k]? = some c' → j ≠ k →
    c.target = c'.target → ∀ info info', c.stage.inProgress = some info →
    c'.stage.inProgress = some info' → info.id ≠ info'.id
  held : ∀ c ∈ w.saves, ∀ info snapshots, c.stage = .trimming info snapshots →
    Held svc w c info snapshots
  early : ∀ c ∈ w.saves, ∀ info, c.stage = .opened ∨ c.stage = .written info → c.removed = []

variable {target' : PreviewHistoryTarget}

theorem dir_congr (h : hashInput target = hashInput target') :
    w.dir svc target = w.dir svc target' :=
  congrArg (fun bytes => w.dirs (svc.sha.hex bytes)) h

theorem dir_setDir (dir : TargetDir) (target' : PreviewHistoryTarget) :
    (w.setDir svc target dir).dir svc target' =
      if hashInput target' = hashInput target then dir else w.dir svc target' := by
  show Function.update w.dirs (svc.sha.hex (hashInput target)) dir
    (svc.sha.hex (hashInput target')) = _
  rw [Function.update_apply]
  by_cases h : hashInput target' = hashInput target
  · rw [if_pos h, if_pos (congrArg svc.sha.hex h)]
  · rw [if_neg h, if_neg fun he => h (svc.sha.injective he)]
    rfl

/-- What a write leaves as it was in its directory it leaves so everywhere. -/
theorem setDir_same {α : Type} (f : TargetDir → α) {dir : TargetDir}
    (h : f dir = f (w.dir svc target)) (target' : PreviewHistoryTarget) :
    f ((w.setDir svc target dir).dir svc target') = f (w.dir svc target') := by
  rw [dir_setDir]
  split
  · rename_i he
    rw [h, dir_congr he]
  · rfl

variable {call : SaveCall}

theorem Kept.target_eq (h : w.Kept svc) (hcall : call ∈ w.saves) (hr : r ∈ w.confirmed)
    (hsame : hashInput r.target = hashInput call.target) :
    r.target = call.target := by
  obtain ⟨c, hc, htarget⟩ := h.saved r hr
  have := h.apart c hc call hcall (by rw [htarget, hsame])
  rw [← htarget, this]

theorem Kept.fresh : (fresh.Kept svc) := by
  constructor <;> simp [PreviewHistory.fresh, lastSaves, PreviewHistory.dir]

/-- Other files of a directory change: none of the last saves, none of a save in progress. -/
theorem Kept.setFiles (h : w.Kept svc) (hcall : call ∈ w.saves) {files : Dict String String}
    (hlast : ∀ r ∈ lastSaves maxSnapshots call.target w.confirmed,
      files.lookup r.info.id = (w.dir svc call.target).files.lookup r.info.id ∨
        ∃ c ∈ w.saves, c.target = call.target ∧ c.stage.isOk = false ∧ r.info.id ∈ c.removed)
    (hprogress : ∀ c ∈ w.saves, c.target = call.target → ∀ info, c.stage.inProgress = some info →
      files.lookup info.id = (w.dir svc call.target).files.lookup info.id) :
    (w.setDir svc call.target { w.dir svc call.target with files := files }).Kept svc := by
  have hindex := @setDir_same svc w call.target _ TargetDir.index
    { w.dir svc call.target with files := files } rfl
  have hwrites := @setDir_same svc w call.target _ TargetDir.writes
    { w.dir svc call.target with files := files } rfl
  constructor
  case apart => exact h.apart
  case saved => exact h.saved
  case indexed =>
    intro target r hr
    rw [hindex]
    exact h.indexed target r hr
  case entries =>
    intro target snapshots hsnapshots
    rw [hindex] at hsnapshots
    exact h.entries target snapshots hsnapshots
  case files =>
    intro target r hr
    rw [dir_setDir]
    split
    · rename_i he
      obtain ⟨hin, ht⟩ := lastSaves_sublist _ _ _ hr
      have htarget : target = call.target := ht ▸ h.target_eq hcall hin (ht ▸ he)
      subst htarget
      rcases hlast r hr with hsame | hremoved
      · rcases h.files _ r hr with hfile | hremoved
        · exact .inl (hsame.trans hfile)
        · exact .inr hremoved
      · exact .inr hremoved
    · exact h.files target r hr
  case progress =>
    intro c hc info hinfo
    obtain ⟨hfile, hids⟩ := h.progress c hc info hinfo
    refine ⟨?_, hids⟩
    rw [dir_setDir]
    split
    · rename_i he
      have htarget := h.apart c hc call hcall he
      rw [htarget] at hfile
      exact (hprogress c hc htarget info hinfo).trans hfile
    · exact hfile
  case distinct => exact h.distinct
  case held =>
    intro c hc info snapshots hstage
    obtain ⟨hown, hfile, hentries, hread, hlast⟩ := h.held c hc info snapshots hstage
    exact ⟨hown, hfile, hentries, by rwa [hwrites], by rwa [hwrites]⟩
  case early => exact h.early

/-- The index is overwritten by a text that is none. -/
theorem Kept.setBroken (h : w.Kept svc) (target : PreviewHistoryTarget) :
    (w.setDir svc target { w.dir svc target with index := some .broken }).Kept svc := by
  have hfiles := @setDir_same svc w target _ TargetDir.files
    { w.dir svc target with index := some .broken } rfl
  have hwrites := @setDir_same svc w target _ TargetDir.writes
    { w.dir svc target with index := some .broken } rfl
  have hindex : ∀ target', ((w.setDir svc target
      { w.dir svc target with index := some .broken }).dir svc target').index = some .broken ∨
        ((w.setDir svc target
      { w.dir svc target with index := some .broken }).dir svc target').index =
        (w.dir svc target').index := by
    intro target'
    rw [dir_setDir]
    split
    · exact .inl rfl
    · exact .inr rfl
  constructor
  case apart => exact h.apart
  case saved => exact h.saved
  case indexed =>
    intro target' r hr
    rcases hindex target' with hi | hi
    · exact ⟨.broken, hi, by simp⟩
    · rw [hi]
      exact h.indexed target' r hr
  case entries =>
    intro target' snapshots hs
    rcases hindex target' with hi | hi
    · rw [hi] at hs
      cases Option.some.inj hs
    · rw [hi] at hs
      exact h.entries target' snapshots hs
  case files =>
    intro target' r hr
    rw [hfiles]
    exact h.files target' r hr
  case progress =>
    intro c hc info hinfo
    rw [hfiles]
    exact h.progress c hc info hinfo
  case distinct => exact h.distinct
  case held =>
    intro c hc info snapshots hstage
    obtain ⟨hown, hfile, hentries, hread, hlast⟩ := h.held c hc info snapshots hstage
    exact ⟨hown, hfile, hentries, by rwa [hwrites], by rwa [hwrites]⟩
  case early => exact h.early

variable {call' : SaveCall}

theorem mem_set_or {l : List SaveCall} {call c : SaveCall} (hk : l[k]? = some call) (hc : c ∈ l) :
    c ∈ l.set k call' ∨ c = call := by
  obtain ⟨j, hj⟩ := List.getElem?_of_mem hc
  by_cases hjk : j = k
  · subst hjk
    exact .inr (Option.some.inj (hj.symm.trans hk))
  · exact .inl (List.mem_of_getElem? ((Registry.getElem?_replace hk).mpr (.inr ⟨hjk, hj⟩)))

theorem mem_setSave (hk : w.saves[k]? = some call) (call' : SaveCall) :
    call' ∈ (w.setSave k call').saves :=
  List.mem_of_getElem? ((Registry.getElem?_replace hk).mpr (.inl ⟨rfl, rfl⟩))

/-- A save goes on, without having returned Ok. -/
theorem Kept.setSave (h : w.Kept svc) {call : SaveCall} (hk : w.saves[k]? = some call)
    (htarget : call'.target = call.target) (hcontent : call'.content = call.content)
    (hremoved : call.removed ⊆ call'.removed) (hok : call'.stage.isOk = false)
    (hprogress : ∀ info, call'.stage.inProgress = some info →
      call.stage.inProgress = some info ∨
        (w.dir svc call.target).files.lookup info.id = some call.content ∧
          w.Unused maxSnapshots call.target info.id)
    (hheld : ∀ info snapshots, call'.stage = .trimming info snapshots →
      Held svc w call' info snapshots)
    (hearly : ∀ info, call'.stage = .opened ∨ call'.stage = .written info → call'.removed = []) :
    (w.setSave k call').Kept svc := by
  have hmem : call ∈ w.saves := List.mem_of_getElem? hk
  have hnew : call' ∈ (w.setSave k call').saves := mem_setSave hk call'
  have htargets : ∀ c ∈ (w.setSave k call').saves, ∃ c₀ ∈ w.saves, c₀.target = c.target := by
    intro c hc
    rcases List.mem_or_eq_of_mem_set hc with hc | rfl
    · exact ⟨c, hc, rfl⟩
    · exact ⟨call, hmem, htarget.symm⟩
  constructor
  case apart =>
    intro c hc c' hc' hsame
    obtain ⟨c₀, hc₀, ht⟩ := htargets c hc
    obtain ⟨c₁, hc₁, ht'⟩ := htargets c' hc'
    rw [← ht, ← ht'] at hsame ⊢
    exact h.apart c₀ hc₀ c₁ hc₁ hsame
  case saved =>
    intro r hr
    obtain ⟨c, hc, ht⟩ := h.saved r hr
    rcases mem_set_or hk hc with hc | rfl
    · exact ⟨c, hc, ht⟩
    · exact ⟨call', hnew, htarget.trans ht⟩
  case indexed => exact h.indexed
  case entries => exact h.entries
  case files =>
    intro target r hr
    rcases h.files target r hr with hfile | ⟨c, hc, ht, hc', hid⟩
    · exact .inl hfile
    · rcases mem_set_or hk hc with hc | rfl
      · exact .inr ⟨c, hc, ht, hc', hid⟩
      · exact .inr ⟨call', hnew, htarget.trans ht, hok, hremoved hid⟩
  case progress =>
    intro c hc info hinfo
    rcases List.mem_or_eq_of_mem_set hc with hc | rfl
    · exact h.progress c hc info hinfo
    · rw [htarget, hcontent]
      rcases hprogress info hinfo with hold | ⟨hfile, hids, -⟩
      · exact h.progress call hmem info hold
      · exact ⟨hfile, hids⟩
  case distinct =>
    intro i j c c' hi hj hij hsame info info' hinfo hinfo'
    -- the call that goes on is one of the two, or neither
    rcases (Registry.getElem?_replace hk).mp hi with ⟨rfl, rfl⟩ | ⟨-, hi₀⟩
    · rcases (Registry.getElem?_replace hk).mp hj with ⟨rfl, rfl⟩ | ⟨-, hj₀⟩
      · exact absurd rfl hij
      · rcases hprogress info hinfo with hold | ⟨-, -, hids⟩
        · exact h.distinct _ _ call c' hk hj₀ hij (htarget.symm.trans hsame) info info' hold hinfo'
        · exact (hids c' (List.mem_of_getElem? hj₀) (hsame.symm.trans htarget) info' hinfo').symm
    · rcases (Registry.getElem?_replace hk).mp hj with ⟨rfl, rfl⟩ | ⟨-, hj₀⟩
      · rcases hprogress info' hinfo' with hold | ⟨-, -, hids⟩
        · exact h.distinct _ _ c call hi₀ hk hij (hsame.trans htarget) info info' hinfo hold
        · exact hids c (List.mem_of_getElem? hi₀) (hsame.trans htarget) info hinfo
      · exact h.distinct i j c c' hi₀ hj₀ hij hsame info info' hinfo hinfo'
  case held =>
    intro c hc info snapshots hstage
    rcases List.mem_or_eq_of_mem_set hc with hc | rfl
    · exact { h.held c hc info snapshots hstage with }
    · exact { hheld info snapshots hstage with }
  case early =>
    intro c hc info hstage
    rcases List.mem_or_eq_of_mem_set hc with hc | rfl
    · exact h.early c hc info hstage
    · exact hearly info hstage

theorem Kept.giveUp (h : w.Kept svc) (hk : w.saves[k]? = some call) (wrote : Option String) :
    (w.setSave k { call with stage := .returned none, wrote := wrote }).Kept svc :=
  h.setSave hk rfl rfl (List.Subset.refl _) rfl (by simp [SaveStage.inProgress]) (by simp)
    (by simp)

theorem Kept.save (h : w.Kept svc) (hapart : w.Apart target) (content : String) (dirOk : Bool) :
    (w.save target content dirOk).Kept svc := by
  have hstage : ∀ info, (if dirOk = true then SaveStage.opened else .returned none).inProgress ≠
      some info := by
    intro info
    split <;> simp [SaveStage.inProgress]
  have hnew : ∀ c ∈ (w.save target content dirOk).saves, c ∈ w.saves ∨
      c = ⟨target, content, if dirOk then .opened else .returned none, none, 0, []⟩ := by
    intro c hc
    rcases List.mem_append.mp hc with hc | hc
    · exact .inl hc
    · exact .inr (List.mem_singleton.mp hc)
  constructor
  case apart =>
    intro c hc c' hc' hsame
    rcases hnew c hc with hc | rfl
    · rcases hnew c' hc' with hc' | rfl
      · exact h.apart c hc c' hc' hsame
      · exact hapart c hc hsame
    · rcases hnew c' hc' with hc' | rfl
      · exact (hapart c' hc' hsame.symm).symm
      · rfl
  case saved =>
    intro r hr
    obtain ⟨c, hc, ht⟩ := h.saved r hr
    exact ⟨c, List.mem_append_left _ hc, ht⟩
  case indexed => exact h.indexed
  case entries => exact h.entries
  case files =>
    intro target' r hr
    rcases h.files target' r hr with hfile | ⟨c, hc, hrest⟩
    · exact .inl hfile
    · exact .inr ⟨c, List.mem_append_left _ hc, hrest⟩
  case progress =>
    intro c hc info hinfo
    rcases hnew c hc with hc | rfl
    · exact h.progress c hc info hinfo
    · exact absurd hinfo (hstage info)
  case distinct =>
    intro i j c c' hi hj hij hsame info info' hinfo hinfo'
    rcases Registry.getElem?_add.mp hi with hi | ⟨-, rfl⟩
    · rcases Registry.getElem?_add.mp hj with hj | ⟨-, rfl⟩
      · exact h.distinct i j c c' hi hj hij hsame info info' hinfo hinfo'
      · exact absurd hinfo' (hstage info')
    · exact absurd hinfo (hstage info)
  case held =>
    intro c hc info snapshots hs
    rcases hnew c hc with hc | rfl
    · exact { h.held c hc info snapshots hs with }
    · split at hs <;> cases hs
  case early =>
    intro c hc info hs
    rcases hnew c hc with hc | rfl
    · exact h.early c hc info hs
    · rfl

theorem lookup_insert_ne {files : Dict String String} {id id' text : String} (h : id' ≠ id) :
    (files.insert id text).lookup id' = files.lookup id' := by
  rw [Dict.lookup_insert', if_neg h]

theorem Kept.insertFile (h : w.Kept svc) (hcall : call ∈ w.saves) {id : String}
    (hid : w.Unused maxSnapshots call.target id) (text : String) :
    (w.setDir svc call.target { w.dir svc call.target with
      files := (w.dir svc call.target).files.insert id text }).Kept svc :=
  h.setFiles hcall (fun r hr => .inl (lookup_insert_ne (hid.1 r hr)))
    fun c hc ht info hinfo => lookup_insert_ne (hid.2 c hc ht info hinfo)

theorem Kept.writeFile (h : w.Kept svc) {clock suffixClock : Option ℕ}
    {failure : Option (Option String)} (hstep : ∀ call ∈ w.saves[k]?, call.stage = .opened →
      w.Unused maxSnapshots call.target (snapshotId svc clock suffixClock)) :
    (w.writeFile svc k clock suffixClock failure).Kept svc := by
  rw [PreviewHistory.writeFile]
  split
  · rename_i call hk
    split
    · rename_i hstage
      have hmem : call ∈ w.saves := List.mem_of_getElem? hk
      have hunused := hstep call hk hstage
      cases failure with
      | none =>
        refine (h.insertFile hmem hunused call.content).setSave hk rfl rfl
          (List.Subset.refl _) rfl (fun info hinfo => .inr ⟨?_, ?_⟩) (by simp) (fun info _ => ?_)
        · obtain rfl := Option.some.inj hinfo
          rw [dir_setDir, if_pos rfl]
          exact AList.lookup_insert _
        · obtain rfl := Option.some.inj hinfo
          exact hunused
        · exact h.early call hmem info (.inl hstage)
      | some left =>
        cases left with
        | none => exact h.giveUp hk call.wrote
        | some text => exact (h.insertFile hmem hunused text).giveUp hk (some text)
    · exact h
  · exact h

variable {snapshots : List PreviewSnapshotInfo} {info : PreviewSnapshotInfo}

theorem mem_sortByCreatedAt :
    info ∈ sortByCreatedAt snapshots ↔ info ∈ snapshots :=
  (List.perm_insertionSort _ snapshots).mem_iff

variable {ok : Bool}

theorem Kept.readIndex (h : w.Kept svc)
    (hstep : ∀ call ∈ w.saves[k]?,
      call.stage.inProgress.isSome → (w.dir svc call.target).readable ok = true) :
    (w.readIndex svc k ok).Kept svc := by
  rw [PreviewHistory.readIndex]
  split
  · rename_i call hk
    split
    · rename_i info hstage
      have hmem : call ∈ w.saves := List.mem_of_getElem? hk
      have hreadable := hstep call hk (by rw [hstage]; rfl)
      have hnone : call.removed = [] := h.early call hmem info (.inr hstage)
      refine h.setSave hk rfl rfl (List.Subset.refl _) rfl (fun i hi => .inl ?_)
        (fun i snapshots hs => ?_) (by simp)
      · rw [hstage]
        exact hi
      obtain ⟨rfl, rfl⟩ := SaveStage.trimming.inj hs
      constructor
      case own =>
        exact mem_sortByCreatedAt.mpr (List.mem_append_right _ (List.mem_singleton_self _))
      case ownFile => simp [hnone]
      case entries =>
        intro e he
        rcases List.mem_append.mp (mem_sortByCreatedAt.mp he) with he | he
        · right
          obtain ⟨snapshots, hindex, he⟩ := TargetDir.mem_readIndex he
          exact h.entries call.target snapshots hindex e he
        · exact .inl (List.mem_singleton.mp he)
      case readAt => exact le_rfl
      case last =>
        intro _ r hr
        refine ⟨mem_sortByCreatedAt.mpr (List.mem_append_left _ ?_), by simp [hnone]⟩
        obtain ⟨file, hindex, hlisted⟩ :=
          h.indexed call.target r (lastSaves_mono (Nat.sub_le _ _) hr)
        rw [TargetDir.readable, hindex] at hreadable
        cases file with
        | broken => cases hreadable
        | listed snapshots =>
          obtain rfl : ok = true := hreadable
          rw [TargetDir.readIndex_of_listed hindex]
          exact hlisted snapshots rfl
    · exact h
  · exact h

theorem Kept.removeOldest (h : w.Kept svc)
    (hstep : ∀ call ∈ w.saves[k]?,
      ∀ oldest ∈ call.stage.oldest, w.Unused (maxSnapshots - 1) call.target oldest.id) :
    (w.removeOldest svc k ok).Kept svc := by
  rw [PreviewHistory.removeOldest]
  split
  · rename_i call hk
    split
    · rename_i info oldest rest hstage
      split
      · rename_i hlong
        have hmem : call ∈ w.saves := List.mem_of_getElem? hk
        obtain ⟨hids, hothers⟩ := hstep call hk oldest (by rw [hstage]; exact if_pos hlong)
        obtain ⟨hown, hfile, hentries, hread, hlast⟩ := h.held call hmem info _ hstage
        have hinfo : info.id ≠ oldest.id := hothers call hmem rfl info (by rw [hstage]; rfl)
        have hrest : ∀ e ∈ oldest :: rest, e.id ≠ oldest.id → e ∈ rest := by
          intro e he hne
          rcases List.mem_cons.mp he with rfl | he
          · exact absurd rfl hne
          · exact he
        -- the call goes on first, and is then the one that has removed the file
        have hgoes : ∀ removed, (∀ id ∈ removed, id ∈ call.removed ∨ id = oldest.id) →
            call.removed ⊆ removed →
            (w.setSave k
              { call with stage := .trimming info rest, removed := removed }).Kept svc := by
          intro removed hnew hsub
          refine h.setSave hk rfl rfl hsub rfl (fun i hi => .inl ?_) (fun i snapshots hs => ?_)
            (by simp)
          · rw [hstage]
            exact hi
          · obtain ⟨rfl, rfl⟩ := SaveStage.trimming.inj hs
            refine ⟨hrest info hown hinfo, fun hid => ?_, fun e he =>
              hentries e (List.mem_cons_of_mem _ he), hread, fun hat r hr => ?_⟩
            · rcases hnew info.id hid with hid | hid
              · exact hfile hid
              · exact hinfo hid
            · obtain ⟨hin, hnot⟩ := hlast hat r hr
              refine ⟨hrest r.info hin (hids r hr), fun hid => ?_⟩
              rcases hnew r.info.id hid with hid | hid
              · exact hnot hid
              · exact hids r hr hid
        cases ok with
        | false => exact hgoes call.removed (fun id hid => .inl hid) (List.Subset.refl _)
        | true =>
          have hgone := hgoes (call.removed ++ [oldest.id]) (fun id hid => by
            rcases List.mem_append.mp hid with hid | hid
            · exact .inl hid
            · exact .inr (List.mem_singleton.mp hid)) (List.subset_append_left _ _)
          have hnew := mem_setSave hk
            { call with stage := .trimming info rest, removed := call.removed ++ [oldest.id] }
          refine hgone.setFiles hnew (fun r _ => ?_) fun c hc ht i hi => ?_
          · by_cases hid : r.info.id = oldest.id
            · exact .inr ⟨_, hnew, rfl, rfl, by simp [hid]⟩
            · refine .inl ?_
              rw [Dict.lookup_erase', if_neg hid]
              rfl
          · rw [Dict.lookup_erase', if_neg]
            · rfl
            · rcases List.mem_or_eq_of_mem_set hc with hc | rfl
              · exact hothers c hc ht i hi
              · obtain rfl := Option.some.inj hi
                exact hinfo
      · exact h
    · exact h
  · exact h

/-- The last saves after one more: the new one and the last but one, or those of before. -/
theorem lastSaves_concat {r' : Saved} (hr : r ∈ lastSaves maxSnapshots target (confirmed ++ [r'])) :
    r = r' ∧ r'.target = target ∨
      r'.target = target ∧ r ∈ lastSaves (maxSnapshots - 1) target confirmed ∨
      r'.target ≠ target ∧ r ∈ lastSaves maxSnapshots target confirmed := by
  by_cases ht : r'.target = target
  · subst ht
    have hself := lastSaves_self (maxSnapshots - 1) confirmed r'
    rw [show maxSnapshots - 1 + 1 = maxSnapshots from rfl] at hself
    rw [hself] at hr
    rcases List.mem_cons.mp hr with rfl | hr
    · exact .inl ⟨rfl, rfl⟩
    · exact .inr (.inl ⟨rfl, hr⟩)
  · rw [lastSaves_other _ _ ht] at hr
    exact .inr (.inr ⟨ht, hr⟩)

/-- A save writes the index and returns Ok. -/
theorem Kept.confirm (h : w.Kept svc) (hk : w.saves[k]? = some call)
    (hstage : call.stage = .trimming info snapshots)
    (hat : call.readAt = (w.dir svc call.target).writes) :
    Kept svc { (w.setDir svc call.target { w.dir svc call.target with
        index := some (.listed snapshots)
        writes := (w.dir svc call.target).writes + 1 }).setSave k
          { call with stage := .returned (some info) } with
      confirmed := w.confirmed ++ [⟨call.target, info, call.content⟩] } := by
  have hmem : call ∈ w.saves := List.mem_of_getElem? hk
  obtain ⟨hown, hownFile, hentries, -, hlast⟩ := h.held call hmem info snapshots hstage
  have hlast := hlast hat
  obtain ⟨hfile, hids⟩ := h.progress call hmem info (by rw [hstage]; rfl)
  have hfiles := @setDir_same svc w call.target _ TargetDir.files
    { w.dir svc call.target with
      index := some (.listed snapshots), writes := (w.dir svc call.target).writes + 1 } rfl
  -- the calls in progress are those of before, less this one
  have hother : ∀ {j : ℕ} {c : SaveCall},
      (w.saves.set k { call with stage := .returned (some info) })[j]? = some c →
      c = { call with stage := .returned (some info) } ∨ j ≠ k ∧ w.saves[j]? = some c := by
    intro j c hj
    rcases (Registry.getElem?_replace hk).mp hj with ⟨-, rfl⟩ | hold
    · exact .inl rfl
    · exact .inr hold
  have hkeep : ∀ c ∈ w.saves,
      ∃ c' ∈ w.saves.set k { call with stage := .returned (some info) }, c'.target = c.target := by
    intro c hc
    rcases mem_set_or hk hc with hc | rfl
    · exact ⟨c, hc, rfl⟩
    · exact ⟨_, mem_setSave hk _, rfl⟩
  have hapart : ∀ {target : PreviewHistoryTarget} {r : Saved}, r ∈ w.confirmed →
      r.target = target → call.target ≠ target → hashInput target ≠ hashInput call.target :=
    fun hr ht hne he => hne ((h.target_eq hmem hr (ht ▸ he)).symm.trans ht)
  constructor
  case apart =>
    have htargets : ∀ c ∈ w.saves.set k { call with stage := .returned (some info) },
        ∃ c₀ ∈ w.saves, c₀.target = c.target := by
      intro c hc
      rcases List.mem_or_eq_of_mem_set hc with hc | rfl
      · exact ⟨c, hc, rfl⟩
      · exact ⟨call, hmem, rfl⟩
    intro c hc c' hc' hsame
    obtain ⟨c₀, hc₀, ht⟩ := htargets c hc
    obtain ⟨c₁, hc₁, ht'⟩ := htargets c' hc'
    rw [← ht, ← ht'] at hsame ⊢
    exact h.apart c₀ hc₀ c₁ hc₁ hsame
  case saved =>
    intro r hr
    rcases List.mem_append.mp hr with hr | hr
    · obtain ⟨c, hc, ht⟩ := h.saved r hr
      obtain ⟨c', hc', ht'⟩ := hkeep c hc
      exact ⟨c', hc', ht'.trans ht⟩
    · rw [List.mem_singleton.mp hr]
      exact hkeep call hmem
  case indexed =>
    intro target r hr
    show ∃ file, ((w.setDir svc call.target _).dir svc target).index = some file ∧ _
    rw [dir_setDir]
    rcases lastSaves_concat hr with ⟨rfl, ht⟩ | ⟨ht, hr⟩ | ⟨ht, hr⟩
    · rw [if_pos (congrArg hashInput ht.symm)]
      exact ⟨_, rfl, fun s hs => by rw [← IndexFile.listed.inj hs]; exact hown⟩
    · rw [if_pos (congrArg hashInput ht.symm)]
      obtain rfl : call.target = target := ht
      exact ⟨_, rfl, fun s hs => by rw [← IndexFile.listed.inj hs]; exact (hlast r hr).1⟩
    · obtain ⟨hin, hrt⟩ := lastSaves_sublist _ _ _ hr
      rw [if_neg (hapart hin hrt ht)]
      exact h.indexed target r hr
  case entries =>
    intro target l hl e he
    have hl : ((w.setDir svc call.target _).dir svc target).index = some (.listed l) := hl
    rw [dir_setDir] at hl
    split at hl
    · rename_i hsame
      rw [← IndexFile.listed.inj (Option.some.inj hl)] at he
      rcases hentries e he with rfl | ⟨r, hr, hrt, rfl⟩
      · exact ⟨_, List.mem_append_right _ (List.mem_singleton_self _), hsame.symm, rfl⟩
      · exact ⟨r, List.mem_append_left _ hr, hrt.trans hsame.symm, rfl⟩
    · obtain ⟨r, hr, hrest⟩ := h.entries target l hl e he
      exact ⟨r, List.mem_append_left _ hr, hrest⟩
  case files =>
    intro target r hr
    show AList.lookup _ ((w.setDir svc call.target _).dir svc target).files = _ ∨ _
    rw [hfiles]
    -- a file that has been removed was removed by another call
    have hold : ∀ {r : Saved}, r ∈ lastSaves maxSnapshots target w.confirmed →
        (call.target = target → r.info.id ∉ call.removed) →
        (w.dir svc target).files.lookup r.info.id = some r.content ∨
          ∃ c ∈ w.saves.set k { call with stage := .returned (some info) },
            c.target = target ∧ c.stage.isOk = false ∧ r.info.id ∈ c.removed := by
      intro r hr hnot
      rcases h.files target r hr with hfile | ⟨c, hc, ht, hok, hid⟩
      · exact .inl hfile
      · rcases mem_set_or hk hc with hc | rfl
        · exact .inr ⟨c, hc, ht, hok, hid⟩
        · exact absurd hid (hnot ht)
    rcases lastSaves_concat hr with ⟨rfl, ht⟩ | ⟨ht, hr⟩ | ⟨ht, hr⟩
    · obtain rfl : call.target = target := ht
      exact .inl hfile
    · obtain rfl : call.target = target := ht
      exact hold (lastSaves_mono (Nat.sub_le _ _) hr) fun _ => (hlast r hr).2
    · exact hold hr fun he => absurd he ht
  case progress =>
    intro c hc i hi
    obtain ⟨j, hj⟩ := List.getElem?_of_mem hc
    rcases hother hj with rfl | ⟨hjk, hj⟩
    · cases hi
    obtain ⟨hcfile, hcids⟩ := h.progress c (List.mem_of_getElem? hj) i hi
    refine ⟨?_, fun r hr => ?_⟩
    · show AList.lookup _ ((w.setDir svc call.target _).dir svc c.target).files = _
      rwa [hfiles]
    · rcases lastSaves_concat hr with ⟨rfl, ht⟩ | ⟨ht, hr⟩ | ⟨ht, hr⟩
      · exact h.distinct k j call c hk hj (Ne.symm hjk) ht info i (by rw [hstage]; rfl) hi
      · exact hcids r (lastSaves_mono (Nat.sub_le _ _) hr)
      · exact hcids r hr
  case distinct =>
    intro i j c c' hi hj hij hsame e e' he he'
    rcases hother hi with rfl | ⟨-, hi⟩
    · cases he
    rcases hother hj with rfl | ⟨-, hj⟩
    · cases he'
    exact h.distinct i j c c' hi hj hij hsame e e' he he'
  case held =>
    intro c hc i l hl
    obtain ⟨j, hj⟩ := List.getElem?_of_mem hc
    rcases hother hj with rfl | ⟨hjk, hj⟩
    · cases hl
    obtain ⟨hown, hownFile, hentries, hread, hlast⟩ := h.held c (List.mem_of_getElem? hj) i l hl
    have hwrites : (((w.setDir svc call.target { w.dir svc call.target with
        index := some (.listed snapshots)
        writes := (w.dir svc call.target).writes + 1 }).dir svc c.target).writes =
          if hashInput c.target = hashInput call.target then (w.dir svc c.target).writes + 1
          else (w.dir svc c.target).writes) := by
      rw [dir_setDir]
      split
      · rename_i hsame
        rw [dir_congr hsame]
      · rfl
    constructor
    case own => exact hown
    case ownFile => exact hownFile
    case entries =>
      intro e he
      rcases hentries e he with rfl | ⟨r, hr, hrest⟩
      · exact .inl rfl
      · exact .inr ⟨r, List.mem_append_left _ hr, hrest⟩
    case readAt =>
      show c.readAt ≤ ((w.setDir svc call.target _).dir svc c.target).writes
      rw [hwrites]
      split <;> omega
    case last =>
      intro hat r hr
      have hat : c.readAt = ((w.setDir svc call.target _).dir svc c.target).writes := hat
      rw [hwrites] at hat
      split at hat
      · omega
      · rename_i hne
        have ht : call.target ≠ c.target := fun he => hne (congrArg hashInput he.symm)
        exact hlast hat r (by rwa [lastSaves_other _ _ ht] at hr)
  case early =>
    intro c hc i hi
    obtain ⟨j, hj⟩ := List.getElem?_of_mem hc
    rcases hother hj with rfl | ⟨-, hj⟩
    · rcases hi with hi | hi <;> cases hi
    · exact h.early c (List.mem_of_getElem? hj) i hi

theorem Kept.writeIndex (h : w.Kept svc) {outcome : IndexWrite} (hstep : ∀ call ∈ w.saves[k]?,
      call.stage.inProgress.isSome → outcome = .ok →
        call.readAt = (w.dir svc call.target).writes) :
    (w.writeIndex svc k outcome).Kept svc := by
  rw [PreviewHistory.writeIndex]
  split
  · rename_i call hk
    split
    · rename_i info snapshots hstage
      split
      · exact h
      · cases outcome with
        | ok => exact h.confirm hk hstage (hstep call hk (by rw [hstage]; rfl) rfl)
        | failed broken =>
          cases broken with
          | true => exact (h.setBroken call.target).giveUp hk call.wrote
          | false => exact h.giveUp hk call.wrote
    · exact h
  · exact h

/-- Calls, returns and answers stay on record. -/
structure Grows (w w' : PreviewHistory) : Prop where
  confirmed : w.confirmed <+: w'.confirmed
  saves : ∀ c ∈ w.saves, ∃ c' ∈ w'.saves, c'.target = c.target ∧
    ∀ text, c.wrote = some text → c'.wrote = some text
  gets : w'.gets = w.gets
  lists : w'.lists = w.lists
  answers : w'.answers = w.answers

/-- The texts in the files were written by saves for the directory. -/
structure Sources (svc : SnapshotService) (w : PreviewHistory) : Prop where
  opened : ∀ c ∈ w.saves, c.stage = .opened → c.wrote = none
  wrote : ∀ target id text, (w.dir svc target).files.lookup id = some text →
    ∃ c ∈ w.saves, hashInput c.target = hashInput target ∧ c.wrote = some text

theorem Grows.refl (w : PreviewHistory) : w.Grows w :=
  ⟨List.prefix_rfl, fun c hc => ⟨c, hc, rfl, fun _ ht => ht⟩, rfl, rfl, rfl⟩

variable {w' : PreviewHistory}

/-- Files change by removals and by what saves have written. -/
theorem Sources.grow (h : w.Sources svc) (hgrows : w.Grows w')
    (hopened : ∀ c ∈ w'.saves, c.stage = .opened → c.wrote = none)
    (hfiles : ∀ target id text, (w'.dir svc target).files.lookup id = some text →
      (w.dir svc target).files.lookup id = some text ∨
        ∃ c ∈ w'.saves, hashInput c.target = hashInput target ∧ c.wrote = some text) :
    w'.Sources svc := by
  refine ⟨hopened, fun target id text htext => ?_⟩
  rcases hfiles target id text htext with hold | hnew
  · obtain ⟨c, hc, hsame, hwrote⟩ := h.wrote target id text hold
    obtain ⟨c', hc', ht, hkeep⟩ := hgrows.saves c hc
    exact ⟨c', hc', by rw [ht, hsame], hkeep text hwrote⟩
  · exact hnew

theorem grows_set {call : SaveCall} (hk : w.saves[k]? = some call)
    (htarget : call'.target = call.target)
    (hwrote : ∀ text, call.wrote = some text → call'.wrote = some text)
    (dirs : String → TargetDir) (hconfirmed : w.confirmed <+: confirmed) :
    w.Grows { w with dirs := dirs, saves := w.saves.set k call', confirmed := confirmed } := by
  refine ⟨hconfirmed, fun c hc => ?_, rfl, rfl, rfl⟩
  rcases mem_set_or hk hc with hc | rfl
  · exact ⟨c, hc, rfl, fun _ ht => ht⟩
  · exact ⟨call', mem_setSave hk call', htarget, hwrote⟩

/-- One call goes on to a stage after its write. -/
theorem Sources.set (h : w.Sources svc) {call : SaveCall} (hk : w.saves[k]? = some call)
    (htarget : call'.target = call.target)
    (hwrote : ∀ text, call.wrote = some text → call'.wrote = some text)
    (hstage : call'.stage ≠ .opened) {dirs : String → TargetDir}
    (hconfirmed : w.confirmed <+: confirmed)
    (hfiles : ∀ target id text,
      (dirs (computeTargetHash svc.sha target)).files.lookup id = some text →
      (w.dir svc target).files.lookup id = some text ∨
        hashInput call'.target = hashInput target ∧ call'.wrote = some text) :
    Sources svc { w with dirs := dirs, saves := w.saves.set k call', confirmed := confirmed } ∧
      w.Grows { w with dirs := dirs, saves := w.saves.set k call', confirmed := confirmed } := by
  have hgrows := grows_set hk htarget hwrote dirs hconfirmed
  refine ⟨h.grow hgrows (fun c hc ho => ?_) fun target id text ht => ?_, hgrows⟩
  · rcases List.mem_or_eq_of_mem_set hc with hc | rfl
    · exact h.opened c hc ho
    · exact absurd ho hstage
  · rcases hfiles target id text ht with hold | hnew
    · exact .inl hold
    · exact .inr ⟨call', mem_setSave hk call', hnew⟩

theorem lookup_setDir {dir : TargetDir} {id text : String}
    (h : ((w.setDir svc target dir).dir svc target').files.lookup id = some text) :
    hashInput target = hashInput target' ∧ dir.files.lookup id = some text ∨
      (w.dir svc target').files.lookup id = some text := by
  rw [dir_setDir] at h
  split at h
  · rename_i he
    exact .inl ⟨he.symm, h⟩
  · exact .inr h

section

variable (h : w.Sources svc)
include h

theorem Sources.save (content : String) (dirOk : Bool) :
    (w.save target content dirOk).Sources svc ∧ w.Grows (w.save target content dirOk) := by
  have hgrows : w.Grows (w.save target content dirOk) :=
    ⟨List.prefix_rfl, fun c hc => ⟨c, List.mem_append_left _ hc, rfl, fun _ ht => ht⟩, rfl, rfl,
      rfl⟩
  refine ⟨h.grow hgrows (fun c hc ho => ?_) fun _ _ _ ht => .inl ht, hgrows⟩
  rcases List.mem_append.mp hc with hc | hc
  · exact h.opened c hc ho
  · rw [List.mem_singleton.mp hc]

theorem Sources.writeFile (clock suffixClock : Option ℕ) (failure : Option (Option String)) :
    (w.writeFile svc k clock suffixClock failure).Sources svc ∧
      w.Grows (w.writeFile svc k clock suffixClock failure) := by
  have hself : w.Sources svc ∧ w.Grows w := ⟨h, .refl w⟩
  rw [PreviewHistory.writeFile]
  split
  · rename_i call hk
    split
    · rename_i hstage
      have hnone : call.wrote = none := h.opened call (List.mem_of_getElem? hk) hstage
      -- whichever text is written, the call has it on record
      have hwrites : ∀ id text (target : PreviewHistoryTarget) (id' text' : String),
          ((w.setDir svc call.target { w.dir svc call.target with
            files := (w.dir svc call.target).files.insert id text }).dir svc
              target).files.lookup id' = some text' →
          (w.dir svc target).files.lookup id' = some text' ∨
            hashInput call.target = hashInput target ∧ some text = some text' := by
        intro id text target id' text' ht
        rcases lookup_setDir ht with ⟨hsame, ht⟩ | ht
        · rw [Dict.lookup_insert'] at ht
          split at ht
          · exact .inr ⟨hsame, ht⟩
          · rw [dir_congr hsame] at ht
            exact .inl ht
        · exact .inl ht
      cases failure with
      | none =>
        exact h.set hk (by rfl) (by simp [hnone]) (by simp) List.prefix_rfl (hwrites _ call.content)
      | some left =>
        cases left with
        | none =>
          exact h.set hk (by rfl) (by simp) (by simp) List.prefix_rfl fun _ _ _ ht => .inl ht
        | some text =>
          exact h.set hk (by rfl) (by simp [hnone]) (by simp) List.prefix_rfl (hwrites _ text)
    · exact hself
  · exact hself

theorem Sources.readIndex (ok : Bool) :
    (w.readIndex svc k ok).Sources svc ∧ w.Grows (w.readIndex svc k ok) := by
  have hself : w.Sources svc ∧ w.Grows w := ⟨h, .refl w⟩
  rw [PreviewHistory.readIndex]
  split
  · rename_i call hk
    split
    · exact h.set hk (by rfl) (by simp) (by simp) List.prefix_rfl fun _ _ _ ht => .inl ht
    · exact hself
  · exact hself

theorem Sources.removeOldest (ok : Bool) :
    (w.removeOldest svc k ok).Sources svc ∧ w.Grows (w.removeOldest svc k ok) := by
  have hself : w.Sources svc ∧ w.Grows w := ⟨h, .refl w⟩
  rw [PreviewHistory.removeOldest]
  split
  · rename_i call hk
    split
    · rename_i info oldest rest hstage
      split
      · cases ok with
        | false =>
          exact h.set hk (by rfl) (by simp) (by simp) List.prefix_rfl fun _ _ _ ht => .inl ht
        | true =>
          refine h.set hk (by rfl) (by simp) (by simp) List.prefix_rfl fun target id text ht => ?_
          rcases lookup_setDir (w := w) ht with ⟨hsame, ht⟩ | ht
          · rw [Dict.lookup_erase'] at ht
            split at ht
            · cases ht
            · rw [dir_congr hsame] at ht
              exact .inl ht
          · exact .inl ht
      · exact hself
    · exact hself
  · exact hself

theorem Sources.writeIndex (outcome : IndexWrite) :
    (w.writeIndex svc k outcome).Sources svc ∧ w.Grows (w.writeIndex svc k outcome) := by
  have hself : w.Sources svc ∧ w.Grows w := ⟨h, .refl w⟩
  rw [PreviewHistory.writeIndex]
  split
  · rename_i call hk
    have hfiles : ∀ (dir : TargetDir), dir.files = (w.dir svc call.target).files →
        ∀ (target : PreviewHistoryTarget) (id text : String),
          ((w.setDir svc call.target dir).dir svc target).files.lookup id = some text →
          (w.dir svc target).files.lookup id = some text := by
      intro dir hdir target id text ht
      rcases lookup_setDir ht with ⟨hsame, ht⟩ | ht
      · rw [hdir, dir_congr hsame] at ht
        exact ht
      · exact ht
    split
    · rename_i info snapshots hstage
      split
      · exact hself
      · cases outcome with
        | ok =>
          exact h.set hk (by rfl) (by simp) (by simp) (List.prefix_append _ _)
            fun target id text ht => .inl (hfiles _ (by rfl) target id text ht)
        | failed broken =>
          cases broken with
          | true =>
            exact h.set hk (by rfl) (by simp) (by simp) List.prefix_rfl
              fun target id text ht => .inl (hfiles _ (by rfl) target id text ht)
          | false =>
            exact h.set hk (by rfl) (by simp) (by simp) List.prefix_rfl fun _ _ _ ht => .inl ht
    · exact hself
  · exact hself

end

/-- What the answers and the calls of `get_content` rest on. -/
structure Answered (w : PreviewHistory) : Prop where
  gets : ∀ g ∈ w.gets, g.since ≤ w.confirmed.length ∧
    ∃ r ∈ w.confirmed, r.target = g.target ∧ r.info = g.info
  listed : ∀ a ∈ w.lists, a.since ≤ w.confirmed.length ∧ ∀ snapshots, a.result = some snapshots →
    (∀ r ∈ lastSaves maxSnapshots a.target (w.confirmed.take a.since), r.info ∈ snapshots) ∧
      ∀ info ∈ snapshots, ∃ r ∈ w.confirmed, r.target = a.target ∧ r.info = info
  returned : ∀ a ∈ w.answers, (a.since ≤ w.confirmed.length ∧ a.upTo ≤ w.confirmed.length) ∧
    ∀ found, a.result = some found → ∀ r ∈ w.confirmed.take a.since, r.info.id = a.id →
      r ∈ lastSaves maxSnapshots a.target (w.confirmed.take a.upTo) →
      ∃ info, found = some (info, r.content)
  shown : ∀ a ∈ w.answers, ∀ info text, a.result = some (some (info, text)) →
    (∃ r ∈ w.confirmed, r.target = a.target ∧ r.info = info) ∧
      ∃ call ∈ w.saves, call.target = a.target ∧ call.wrote = some text

theorem Answered.grow (h : w.Answered) (hgrows : w.Grows w') :
    w'.Answered := by
  obtain ⟨⟨more, hmore⟩, hsaves, hgets, hlists, hanswers⟩ := hgrows
  have hmem : ∀ {r : Saved}, r ∈ w.confirmed → r ∈ w'.confirmed := by
    intro r hr
    rw [← hmore]
    exact List.mem_append_left _ hr
  have hle : w.confirmed.length ≤ w'.confirmed.length := by
    rw [← hmore, List.length_append]
    omega
  have htake : ∀ {n : ℕ}, n ≤ w.confirmed.length → w'.confirmed.take n = w.confirmed.take n := by
    intro n hn
    rw [← hmore, List.take_append_of_le_length hn]
  constructor
  case gets =>
    intro g hg
    obtain ⟨hsince, r, hr, hrest⟩ := h.gets g (hgets ▸ hg)
    exact ⟨by omega, r, hmem hr, hrest⟩
  case listed =>
    intro a ha
    obtain ⟨hsince, hresult⟩ := h.listed a (hlists ▸ ha)
    refine ⟨by omega, fun snapshots hs => ?_⟩
    obtain ⟨hlast, hother⟩ := hresult snapshots hs
    rw [htake hsince]
    refine ⟨hlast, fun info hinfo => ?_⟩
    obtain ⟨r, hr, hrest⟩ := hother info hinfo
    exact ⟨r, hmem hr, hrest⟩
  case returned =>
    intro a ha
    obtain ⟨⟨hsince, hupTo⟩, hresult⟩ := h.returned a (hanswers ▸ ha)
    rw [htake hsince, htake hupTo]
    exact ⟨⟨by omega, by omega⟩, hresult⟩
  case shown =>
    intro a ha info text ht
    obtain ⟨⟨r, hr, hrest⟩, c, hc, htarget, hwrote⟩ := h.shown a (hanswers ▸ ha) info text ht
    obtain ⟨c', hc', htarget', hwrote'⟩ := hsaves c hc
    exact ⟨⟨r, hmem hr, hrest⟩, c', hc', htarget'.trans htarget, hwrote' text hwrote⟩

theorem Kept.listed_of_apart (h : w.Kept svc) (hapart : w.Apart target)
    (hindex : (w.dir svc target).index = some (.listed snapshots)) (hinfo : info ∈ snapshots) :
    ∃ r ∈ w.confirmed, r.target = target ∧ r.info = info := by
  obtain ⟨r, hr, hsame, he⟩ := h.entries target snapshots hindex info hinfo
  obtain ⟨c, hc, ht⟩ := h.saved r hr
  exact ⟨r, hr, ht.symm.trans (hapart c hc (by rw [ht, hsame])), he⟩

theorem Answered.list (h : w.Answered) (hkept : w.Kept svc) {found : Bool}
    (hapart : w.Apart target) (hfound : (w.dir svc target).index.isNone ∨ found = true) :
    (w.list svc target found ok).Answered := by
  refine { h with listed := fun a ha => ?_ }
  rcases List.mem_append.mp ha with ha | ha
  · exact h.listed a ha
  rw [List.mem_singleton.mp ha]
  refine ⟨le_rfl, fun snapshots hs => ?_⟩
  have hs : w.listResult svc target found ok = some snapshots := hs
  show (∀ r ∈ lastSaves maxSnapshots target (w.confirmed.take w.confirmed.length),
    r.info ∈ snapshots) ∧ _
  rw [List.take_length]
  rw [listResult] at hs
  cases hindex : (w.dir svc target).index with
  | none =>
    rw [hindex] at hs
    rw [← Option.some.inj hs]
    refine ⟨fun r hr => ?_, by simp⟩
    obtain ⟨file, hfile, -⟩ := hkept.indexed target r hr
    rw [hindex] at hfile
    cases hfile
  | some file =>
    obtain rfl : found = true := by simpa [hindex] using hfound
    rw [hindex] at hs
    cases file with
    | broken => cases ok <;> cases hs
    | listed l =>
      cases ok with
      | false => cases hs
      | true =>
        rw [← show sortByCreatedAt l = snapshots from Option.some.inj hs]
        refine ⟨fun r hr => ?_, fun info hinfo => ?_⟩
        · obtain ⟨file, hfile, hlisted⟩ := hkept.indexed target r hr
          rw [hindex] at hfile
          exact mem_sortByCreatedAt.mpr (hlisted l (Option.some.inj hfile).symm)
        · exact hkept.listed_of_apart hapart hindex (mem_sortByCreatedAt.mp hinfo)

theorem Answered.getContent (h : w.Answered) (hkept : w.Kept svc) (id : String)
    (hapart : w.Apart target) (hreadable : (w.dir svc target).readable ok = true) :
    (w.getContent svc target id ok).Answered := by
  rw [PreviewHistory.getContent]
  split
  · rename_i hnone
    refine { h with returned := fun a ha => ?_, shown := fun a ha info text ht => ?_ }
    · rcases List.mem_append.mp ha with ha | ha
      · exact h.returned a ha
      rw [List.mem_singleton.mp ha]
      refine ⟨⟨le_rfl, le_rfl⟩, fun found _ r _ hid hr => ?_⟩
      have hr : r ∈ lastSaves maxSnapshots target (w.confirmed.take w.confirmed.length) := hr
      rw [List.take_length] at hr
      obtain ⟨file, hindex, hlisted⟩ := hkept.indexed target r hr
      rw [TargetDir.readable, hindex] at hreadable
      cases file with
      | broken => cases hreadable
      | listed l =>
        obtain rfl : ok = true := hreadable
        rw [TargetDir.readIndex_of_listed hindex, List.find?_eq_none] at hnone
        exact absurd hid (by simpa using hnone r.info (hlisted l rfl))
    · rcases List.mem_append.mp ha with ha | ha
      · exact h.shown a ha info text ht
      · rw [List.mem_singleton.mp ha] at ht
        cases Option.some.inj ht
  · rename_i info hsome
    refine { h with gets := fun g hg => ?_ }
    rcases List.mem_append.mp hg with hg | hg
    · exact h.gets g hg
    rw [List.mem_singleton.mp hg]
    obtain ⟨l, hindex, hinfo⟩ := TargetDir.mem_readIndex (List.mem_of_find?_eq_some hsome)
    exact ⟨le_rfl, hkept.listed_of_apart hapart hindex hinfo⟩

theorem Answered.readFile (h : w.Answered) (hkept : w.Kept svc) (hsources : w.Sources svc)
    {found : Bool}
    (hstep : ∀ call ∈ w.gets[k]?, call.done = false →
      found = true ∧ ∀ save ∈ w.saves, save.target = call.target → save.stage.isOk = false →
        call.id ∉ save.removed) : (w.readFile svc k found ok).Answered := by
  rw [PreviewHistory.readFile]
  split
  · rename_i call hk
    by_cases hdone : call.done = true
    · rw [if_pos hdone]
      exact h
    rw [if_neg hdone]
    obtain ⟨rfl, hremoved⟩ := hstep call hk (by simpa using hdone)
    obtain ⟨hsince, r₀, hr₀, ht₀, hinfo₀⟩ := h.gets call (List.mem_of_getElem? hk)
    refine { h with gets := fun g hg => ?_, returned := fun a ha => ?_,
                    shown := fun a ha info text ht => ?_ }
    · rcases List.mem_or_eq_of_mem_set hg with hg | rfl
      · exact h.gets g hg
      · exact h.gets call (List.mem_of_getElem? hk)
    · rcases List.mem_append.mp ha with ha | ha
      · exact h.returned a ha
      rw [List.mem_singleton.mp ha]
      refine ⟨⟨hsince, le_rfl⟩, fun result hresult r _ hid hr => ?_⟩
      have hresult : w.contentResult svc call true ok = some result := hresult
      have hr : r ∈ lastSaves maxSnapshots call.target (w.confirmed.take w.confirmed.length) := hr
      rw [List.take_length] at hr
      rcases hkept.files call.target r hr with hfile | ⟨c, hc, ht, hok, hgone⟩
      · rw [contentResult, ← show r.info.id = call.id from hid, hfile] at hresult
        cases ok with
        | false => cases hresult
        | true => exact ⟨call.info, (Option.some.inj hresult).symm⟩
      · rw [show r.info.id = call.id from hid] at hgone
        exact absurd hgone (hremoved c hc ht hok)
    · rcases List.mem_append.mp ha with ha | ha
      · exact h.shown a ha info text ht
      rw [List.mem_singleton.mp ha] at ht ⊢
      have ht : w.contentResult svc call true ok = some (some (info, text)) := ht
      rw [contentResult] at ht
      cases hfile : (w.dir svc call.target).files.lookup call.id with
      | none =>
        rw [hfile] at ht
        cases Option.some.inj ht
      | some text' =>
        rw [hfile] at ht
        cases ok with
        | false => cases ht
        | true =>
          obtain ⟨rfl, rfl⟩ := Prod.mk.inj (Option.some.inj (Option.some.inj ht))
          obtain ⟨c, hc, hsame, hwrote⟩ := hsources.wrote call.target call.id _ hfile
          refine ⟨⟨r₀, hr₀, ht₀, hinfo₀⟩, c, hc, ?_, hwrote⟩
          have := hkept.target_eq hc hr₀ (by rw [ht₀, hsame])
          exact this.symm.trans ht₀
  · exact h

/-- What a step keeps. -/
structure Recorded (svc : SnapshotService) (w : PreviewHistory) : Prop where
  kept : w.Kept svc
  sources : w.Sources svc
  answered : w.Answered

theorem Recorded.keeps (h : w.Recorded svc) : w.Keeps svc where
  indexed := h.kept.indexed
  listed a ha := (h.answered.listed a ha).2
  returned a ha := (h.answered.returned a ha).2
  shown := h.answered.shown

theorem Recorded.fresh : fresh.Recorded svc where
  kept := Kept.fresh
  sources := ⟨by simp [PreviewHistory.fresh], by simp [PreviewHistory.fresh, PreviewHistory.dir]⟩
  answered := by constructor <;> simp [PreviewHistory.fresh]

/-- A step that leaves the disk and the saves as they are. -/
theorem Recorded.answer (h : w.Recorded svc) (hdirs : w'.dirs = w.dirs)
    (hsaves : w'.saves = w.saves) (hconfirmed : w'.confirmed = w.confirmed)
    (hanswered : w'.Answered) : w'.Recorded svc := by
  obtain ⟨dirs, saves, gets, confirmed, lists, answers⟩ := w'
  obtain rfl : dirs = w.dirs := hdirs
  obtain rfl : saves = w.saves := hsaves
  obtain rfl : confirmed = w.confirmed := hconfirmed
  refine ⟨⟨h.kept.apart, h.kept.saved, h.kept.indexed, h.kept.entries, h.kept.files,
    h.kept.progress, h.kept.distinct, fun c hc info l hl => ?_, h.kept.early⟩,
    ⟨h.sources.opened, h.sources.wrote⟩, hanswered⟩
  exact { h.kept.held c hc info l hl with }

theorem Recorded.grow (h : w.Recorded svc) (hkept : w'.Kept svc)
    (hgrows : w'.Sources svc ∧ w.Grows w') : w'.Recorded svc :=
  ⟨hkept, hgrows.1, h.answered.grow hgrows.2⟩

theorem Recorded.fire (h : w.Recorded svc) (step : HistoryStep) (hstep : w.Careful svc step) :
    (w.fire svc step).Recorded svc := by
  cases step with
  | save target content dirOk =>
    exact h.grow (h.kept.save hstep content dirOk) (h.sources.save content dirOk)
  | writeFile k clock suffixClock failure =>
    exact h.grow (h.kept.writeFile hstep) (h.sources.writeFile clock suffixClock failure)
  | readIndex k ok => exact h.grow (h.kept.readIndex hstep) (h.sources.readIndex ok)
  | removeOldest k ok => exact h.grow (h.kept.removeOldest hstep) (h.sources.removeOldest ok)
  | writeIndex k outcome => exact h.grow (h.kept.writeIndex hstep) (h.sources.writeIndex outcome)
  | list target found ok =>
    exact h.answer rfl rfl rfl (h.answered.list h.kept hstep.1 hstep.2)
  | getContent target id ok =>
    have hsame : (w.getContent svc target id ok).dirs = w.dirs ∧
        (w.getContent svc target id ok).saves = w.saves ∧
        (w.getContent svc target id ok).confirmed = w.confirmed := by
      rw [PreviewHistory.getContent]
      split <;> exact ⟨rfl, rfl, rfl⟩
    exact h.answer hsame.1 hsame.2.1 hsame.2.2 (h.answered.getContent h.kept id hstep.1 hstep.2)
  | readFile k found ok =>
    have hsame : (w.readFile svc k found ok).dirs = w.dirs ∧
        (w.readFile svc k found ok).saves = w.saves ∧
        (w.readFile svc k found ok).confirmed = w.confirmed := by
      rw [PreviewHistory.readFile]
      split
      · split <;> exact ⟨rfl, rfl, rfl⟩
      · exact ⟨rfl, rfl, rfl⟩
    exact h.answer hsame.1 hsame.2.1 hsame.2.2 (h.answered.readFile h.kept h.sources hstep)

instance (svc : SnapshotService) : ∀ w step, Decidable (Careful svc w step) := by
  intro w step
  cases step <;> dsimp only [Careful] <;> infer_instance

instance (svc : SnapshotService) : ∀ w step, Decidable ((machine svc).admits w step) :=
  fun _ _ => .isTrue trivial

/-- Every byte as a character, with a process id. -/
def sampleService : SnapshotService where
  sha := {
    hex := fun bytes => String.ofList (bytes.map Char.ofUInt8)
    injective := fun a b h => by
      have hbyte : Function.Injective Char.ofUInt8 := fun x y hxy =>
        UInt8.toUInt32_inj.mp (congrArg Char.val hxy)
      exact List.map_injective_iff.mpr hbyte (String.ofList_injective h) }
  pid := 4711

def sampleTarget : PreviewHistoryTarget := ⟨.markdown, some "/a.md", none, none, none, none, none⟩

/-- Two saves of a target one after the other, a list and a read of the first. -/
def sampleSteps : List HistoryStep :=
  [.save sampleTarget "one" true, .writeFile 0 (some 5000000) (some 5000100) none,
    .readIndex 0 true, .writeIndex 0 .ok,
    .save sampleTarget "two" true, .writeFile 1 (some 7000000) (some 7000100) none,
    .readIndex 1 true, .writeIndex 1 .ok, .list sampleTarget true true,
    .getContent sampleTarget "5-004c59c3" true, .readFile 0 true true]

def crossedSteps : List HistoryStep :=
  [.save sampleTarget "one" true, .writeFile 0 (some 5000000) (some 5000100) none,
    .save sampleTarget "two" true, .writeFile 1 (some 7000000) (some 7000100) none,
    .readIndex 0 true, .readIndex 1 true, .writeIndex 0 .ok, .writeIndex 1 .ok]

def lostSave : Saved where
  target := sampleTarget
  info := newInfo sampleService ⟨sampleTarget, "one", .opened, none, 0, []⟩ (some 5000000)
    (some 5000100)
  content := "one"

end PreviewHistory

end AionCore.Office
