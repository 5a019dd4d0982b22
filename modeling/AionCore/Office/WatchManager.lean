import AionCore.Lib.Dict
import AionCore.Lib.Machine
import AionCore.Lib.Registry

/-!
# Office previews: the watch manager

`OfficecliWatchManager` with the preview processes it spawns. A call of `start` is split at
the lookup, the spawns, the polls of the port and the version check, a call of `stop` at its
delay. The processes stay in the list after they have ended, with what ended them.
-/

namespace AionCore.Office

/-- `START_PORT_MAX_ATTEMPTS`. -/
def startPortMaxAttempts : ℕ := 3

/-- `POLL_MAX_ATTEMPTS`. -/
def pollMaxAttempts : ℕ := 150

/-- `VERSION_CHECK_INTERVAL`, in milliseconds. -/
def versionCheckInterval : ℕ := 24 * 60 * 60 * 1000

inductive DocType where
  | word
  | excel
  | ppt
  deriving DecidableEq

/-- `Display` of `DocType`. -/
def DocType.display : DocType → String
  | .word => "word"
  | .excel => "excel"
  | .ppt => "ppt"

def DocType.eventPrefix : DocType → String
  | .word => "word-preview"
  | .excel => "excel-preview"
  | .ppt => "ppt-preview"

inductive OfficeError where
  | officecliNotFound
  | installFailed (message : String)
  | startFailed (message : String)
  | portTimeout (file : String)
  | io (message : String)
  | snapshot (message : String)
  | json (message : String)
  | conversion (message : String)
  | toolNotFound (tool : String)

/-- `Display` of `OfficeError`. -/
def OfficeError.display : OfficeError → String
  | .officecliNotFound => "officecli not found"
  | .installFailed m => "officecli install failed: " ++ m
  | .startFailed m => "preview start failed: " ++ m
  | .portTimeout file => "port readiness timeout for " ++ file
  | .io m => "IO error: " ++ m
  | .snapshot m => "snapshot error: " ++ m
  | .json m => "JSON error: " ++ m
  | .conversion m => "conversion error: " ++ m
  | .toolNotFound tool => "external tool not found: " ++ tool

def publicPreviewErrorMessage : OfficeError → String
  | .installFailed _ => "officecli install failed"
  | .officecliNotFound => "officecli not found"
  | e => e.display

/-- The error that `start` returns when `try_start` fails. -/
def OfficeError.ofStart : OfficeError → OfficeError
  | .officecliNotFound => .officecliNotFound
  | .installFailed m => .installFailed m
  | .startFailed m => .startFailed m
  | .portTimeout file => .portTimeout file
  | .io m => .startFailed ("IO error: " ++ m)
  | .snapshot m => .startFailed m
  | .json m => .startFailed ("JSON error: " ++ m)
  | .conversion m => .startFailed m
  | .toolNotFound m => .startFailed m

def isPortInUseMessage (message : String) : Bool :=
  ["Address already in use", "Only one usage of each socket address", "os error 98",
    "os error 48", "os error 10048"].any fun text =>
      message.toList.tails.any fun rest => text.toList.isPrefixOf rest

def isPortInUseStartFailure : OfficeError → Bool
  | .startFailed message => isPortInUseMessage message
  | _ => false

inductive PreviewState where
  | starting
  | installing
  | ready
  | error

/-- A broadcast `PreviewStatusEvent` with the name of its event. -/
structure StatusEvent where
  name : String
  state : PreviewState
  message : Option String

/-- What a spawner promises about the handles that it gives out. -/
structure ProcessSpawner where
  /-- Dropping a handle ends its process. -/
  killOnDrop : Bool

/-- `DefaultProcessSpawner`: the builder of its commands sets `kill_on_drop`. -/
def defaultProcessSpawner : ProcessSpawner := ⟨true⟩

/-- What ended a process: itself, the call of `stop` with this number, a `stop_all`, or the
drop of its handle. -/
inductive Ending where
  | exited
  | stopped (k : ℕ)
  | stoppedAll
  | dropped
  deriving DecidableEq

/-- A preview process, with the call of `start` that spawned it. -/
structure Process where
  file : String
  docType : DocType
  port : UInt16
  spawnedBy : ℕ
  ended : Option Ending
  deriving DecidableEq

def Process.endBy (e : Ending) (p : Process) : Process := { p with ended := p.ended.or (some e) }

structure WatchSession where
  port : UInt16
  process : ℕ
  filePath : String
  docType : DocType
  aborted : Bool

/-- Where a call of `start` stands. -/
inductive StartStage where
  | starting
  | spawning (attempt : ℕ) (port : UInt16)
  | installing (attempt : ℕ) (port : UInt16)
  | respawning (attempt : ℕ) (port : UInt16)
  | polling (port : UInt16) (process polls : ℕ)
  | updating (port : UInt16)
  | returned (result : Except OfficeError UInt16)

def StartStage.polled : StartStage → Option (ℕ × ℕ)
  | .polling _ p polls => some (p, polls)
  | _ => none

/-- A call of `start` after the resolution of its path. -/
structure StartCall where
  resolved : String
  docType : DocType
  stage : StartStage

/-- A call of `stop`: the process of the session stored under its key when it was called, and
the processes for which sessions had been created by then. -/
structure StopCall where
  key : String
  seen : Option ℕ
  known : List ℕ
  returned : Bool
  deriving DecidableEq

def sessionKey (resolvedPath : String) (docType : DocType) : String :=
  docType.display ++ ":" ++ resolvedPath

/-- The manager with its processes and calls. `canonical` is what `canonicalize` says about
a path now, `created` lists the processes for which a session has been stored. -/
structure WatchManager where
  sessions : Dict String WatchSession
  lastVersionCheck : Option ℕ
  versionChecks : ℕ
  events : List StatusEvent
  canonical : String → Option String
  processes : List Process
  created : List ℕ
  starts : List StartCall
  stops : List StopCall

/-- A step. What the environment decides is part of it: the ports that are free, how a spawn
or an installation ends, whether the port listens, the clock. -/
inductive WatchStep where
  | start (filePath : String) (docType : DocType) (port : Except String UInt16)
  | spawn (k : ℕ) (outcome : Except OfficeError Unit) (nextPort : Except String UInt16)
  | install (k : ℕ) (outcome : Except OfficeError Unit) (nextPort : Except String UInt16)
  | poll (k : ℕ) (listening : Bool)
  | checkUpdate (k now : ℕ)
  | stop (filePath : String) (docType : DocType)
  | finishStop (k : ℕ)
  | stopAll
  | exit (p : ℕ)
  | relink (canonical : String → Option String)

namespace WatchManager

/-- A manager that has just been made. -/
def new (canonical : String → Option String) : WatchManager where
  sessions := ∅
  lastVersionCheck := none
  versionChecks := 0
  events := []
  canonical := canonical
  processes := []
  created := []
  starts := []
  stops := []

def resolvePath (w : WatchManager) (filePath : String) : String :=
  (w.canonical filePath).getD filePath

/-- `is_alive` of the handle of a process. -/
def isAlive (w : WatchManager) (p : ℕ) : Bool :=
  match w.processes[p]? with
  | some process => process.ended.isNone
  | none => false

def endProcess (w : WatchManager) (p : ℕ) (e : Ending) : WatchManager :=
  { w with processes := w.processes.modify p (Process.endBy e) }

def dropHandle (sp : ProcessSpawner) (w : WatchManager) (p : ℕ) : WatchManager :=
  if sp.killOnDrop then w.endProcess p .dropped else w

def dropSession (sp : ProcessSpawner) (w : WatchManager) (key : String) : WatchManager :=
  match w.sessions.lookup key with
  | some session => w.dropHandle sp session.process
  | none => w

def broadcastStatus (w : WatchManager) (docType : DocType) (state : PreviewState)
    (message : Option String) : WatchManager :=
  { w with events := w.events ++ [⟨docType.eventPrefix ++ ".status", state, message⟩] }

def setStage (w : WatchManager) (k : ℕ) (stage : StartStage) : WatchManager :=
  { w with starts := w.starts.modify k fun call => { call with stage := stage } }

/-- A call of `start` begins. -/
def addStart (w : WatchManager) (call : StartCall) : WatchManager :=
  { w with starts := w.starts ++ [call] }

def addProcess (w : WatchManager) (process : Process) : WatchManager :=
  { w with processes := w.processes ++ [process] }

def addSession (sp : ProcessSpawner) (w : WatchManager) (key : String) (session : WatchSession) :
    WatchManager :=
  { w.dropSession sp key with
    sessions := w.sessions.insert key session
    created := w.created ++ [session.process] }

def removeSession (sp : ProcessSpawner) (w : WatchManager) (key : String) : WatchManager :=
  { w.dropSession sp key with sessions := w.sessions.erase key }

/-- `try_start` has failed: the status is broadcast and `start` returns the error. -/
def fail (w : WatchManager) (k : ℕ) (docType : DocType) (e : OfficeError) : WatchManager :=
  (w.broadcastStatus docType .error (some (publicPreviewErrorMessage e))).setStage k
    (.returned (.error e.ofStart))

/-- The first lines of a round of `try_start`: a port is allocated for the spawn. -/
def tryPort (w : WatchManager) (k : ℕ) (docType : DocType) (attempt : ℕ) :
    Except String UInt16 → WatchManager
  | .ok port => w.setStage k (.spawning attempt port)
  | .error e => w.fail k docType (.io e)

/-- A spawn has failed: `try_start` goes on with the next round or fails. -/
def retry (w : WatchManager) (k : ℕ) (docType : DocType) (attempt : ℕ) (e : OfficeError)
    (nextPort : Except String UInt16) : WatchManager :=
  if isPortInUseStartFailure e ∧ attempt < startPortMaxAttempts then
    w.tryPort k docType (attempt + 1) nextPort
  else w.fail k docType e

/-- The first lines of `start`, up to the first spawn. -/
def start (sp : ProcessSpawner) (w : WatchManager) (filePath : String) (docType : DocType)
    (port : Except String UInt16) : WatchManager :=
  let resolved := w.resolvePath filePath
  let key := sessionKey resolved docType
  let launch := fun w : WatchManager =>
    ((w.addStart ⟨resolved, docType, .starting⟩).broadcastStatus docType .starting none).tryPort
      w.starts.length docType 1 port
  match w.sessions.lookup key with
  | some session =>
    if !session.aborted && w.isAlive session.process then
      w.addStart ⟨resolved, docType, .returned (.ok session.port)⟩
    else launch (w.removeSession sp key)
  | none => launch w

/-- A process has been spawned for a call. -/
def spawned (w : WatchManager) (k : ℕ) (call : StartCall) (port : UInt16) : WatchManager :=
  (w.addProcess ⟨call.resolved, call.docType, port, k, none⟩).setStage k
    (.polling port w.processes.length 0)

/-- `spawn_officecli` returns. -/
def spawn (w : WatchManager) (k : ℕ) (outcome : Except OfficeError Unit)
    (nextPort : Except String UInt16) : WatchManager :=
  match w.starts[k]? with
  | some call =>
    match call.stage, outcome with
    | .spawning _ port, .ok () => w.spawned k call port
    | .spawning attempt port, .error .officecliNotFound =>
      (w.broadcastStatus call.docType .installing none).setStage k (.installing attempt port)
    | .spawning attempt _, .error e => w.retry k call.docType attempt e nextPort
    | .respawning _ port, .ok () => w.spawned k call port
    | .respawning attempt _, .error e => w.retry k call.docType attempt e nextPort
    | _, _ => w
  | none => w

/-- `install_officecli` returns. -/
def install (w : WatchManager) (k : ℕ) (outcome : Except OfficeError Unit)
    (nextPort : Except String UInt16) : WatchManager :=
  match w.starts[k]? with
  | some call =>
    match call.stage, outcome with
    | .installing attempt port, .ok () => w.setStage k (.respawning attempt port)
    | .installing attempt _, .error e => w.retry k call.docType attempt e nextPort
    | _, _ => w
  | none => w

/-- The port listens: the session is stored and `start` is ready. -/
def ready (sp : ProcessSpawner) (w : WatchManager) (k : ℕ) (call : StartCall) (port : UInt16)
    (p : ℕ) : WatchManager :=
  let session := ⟨port, p, call.resolved, call.docType, false⟩
  ((w.addSession sp (sessionKey call.resolved call.docType) session).broadcastStatus call.docType
    .ready none).setStage k
    (if call.docType = .ppt then .updating port else .returned (.ok port))

/-- One round of `poll_port_ready`. -/
def poll (sp : ProcessSpawner) (w : WatchManager) (k : ℕ) (listening : Bool) : WatchManager :=
  match w.starts[k]? with
  | some call =>
    match call.stage with
    | .polling port p polls =>
      if listening then w.ready sp k call port p
      else if polls + 1 < pollMaxAttempts then w.setStage k (.polling port p (polls + 1))
      else (w.dropHandle sp p).fail k call.docType (.portTimeout call.resolved)
    | _ => w
  | none => w

/-- `maybe_check_update`. -/
def checkUpdate (w : WatchManager) (k now : ℕ) : WatchManager :=
  match w.starts[k]? with
  | some call =>
    match call.stage with
    | .updating port =>
      let due : Bool := match w.lastVersionCheck with
        | some t => decide (versionCheckInterval ≤ now - t)
        | none => true
      let w := if due then
          { w with lastVersionCheck := some now, versionChecks := w.versionChecks + 1 }
        else w
      w.setStage k (.returned (.ok port))
    | _ => w
  | none => w

/-- The first lines of `stop`, up to its delay. -/
def stop (w : WatchManager) (filePath : String) (docType : DocType) : WatchManager :=
  let key := sessionKey (w.resolvePath filePath) docType
  let seen := (w.sessions.lookup key).map WatchSession.process
  { w with stops := w.stops ++ [⟨key, seen, w.created, false⟩] }

/-- The delay of a `stop` is over. -/
def finishStop (w : WatchManager) (k : ℕ) : WatchManager :=
  match w.stops[k]? with
  | some call =>
    if call.returned then w
    else
      let w := { w with stops := w.stops.set k { call with returned := true } }
      match w.sessions.lookup call.key with
      | some session =>
        { w.endProcess session.process (.stopped k) with sessions := w.sessions.erase call.key }
      | none => w
  | none => w

def stopAll (w : WatchManager) : WatchManager :=
  { w.sessions.values.foldl (fun w session => w.endProcess session.process .stoppedAll) w with
    sessions := ∅ }

def fire (sp : ProcessSpawner) (w : WatchManager) : WatchStep → WatchManager
  | .start filePath docType port => w.start sp filePath docType port
  | .spawn k outcome nextPort => w.spawn k outcome nextPort
  | .install k outcome nextPort => w.install k outcome nextPort
  | .poll k listening => w.poll sp k listening
  | .checkUpdate k now => w.checkUpdate k now
  | .stop filePath docType => w.stop filePath docType
  | .finishStop k => w.finishStop k
  | .stopAll => w.stopAll
  | .exit p => w.endProcess p .exited
  | .relink canonical => { w with canonical := canonical }

def machine (sp : ProcessSpawner) : Machine WatchManager WatchStep where
  start w := ∃ canonical, w = new canonical
  admits _ _ := True
  fire := fire sp

def Ended (w : WatchManager) (p : ℕ) : Prop :=
  ∃ process, w.processes[p]? = some process ∧ process.ended ≠ none

def Stored (w : WatchManager) (p : ℕ) (process : Process) : Prop :=
  ∃ session, w.sessions.lookup (sessionKey process.file process.docType) = some session ∧
    session.process = p

def Quiet (w : WatchManager) : Prop :=
  (∀ call ∈ w.starts, ∃ result, call.stage = .returned result) ∧
    ∀ call ∈ w.stops, call.returned = true

/-- No process is leaked, and a stop stops what it was called for and nothing younger. -/
structure Tidy (w : WatchManager) : Prop where
  stored : w.Quiet → ∀ (p : ℕ) (process : Process), w.processes[p]? = some process →
    process.ended = none → w.Stored p process
  single : w.Quiet → ∀ (p q : ℕ) (process process' : Process), w.processes[p]? = some process →
    w.processes[q]? = some process' → process.ended = none → process'.ended = none →
    process.file = process'.file → process.docType = process'.docType → p = q
  failed : ∀ (k : ℕ) (call : StartCall) (e : OfficeError), w.starts[k]? = some call →
    call.stage = .returned (.error e) → ∀ (p : ℕ) (process : Process),
      w.processes[p]? = some process → process.spawnedBy = k → process.ended ≠ none
  stopped : ∀ (k : ℕ) (call : StopCall) (p : ℕ), w.stops[k]? = some call →
    call.returned = true → call.seen = some p → w.Ended p
  spared : ∀ (k : ℕ) (call : StopCall) (p : ℕ) (process : Process),
    w.stops[k]? = some call → w.processes[p]? = some process →
    process.ended = some (.stopped k) → p ∈ call.known

/-- A poll that finds the port listening finds no live session under its key, and the last poll
that does not finds its process ended. -/
def PollFits (w : WatchManager) (k : ℕ) (listening : Bool) : Prop :=
  ∀ call ∈ w.starts[k]?, ∀ q ∈ call.stage.polled,
    if listening then
      ∀ session ∈ w.sessions.lookup (sessionKey call.resolved call.docType),
        w.isAlive session.process = false
    else q.2 + 1 < pollMaxAttempts ∨ w.isAlive q.1 = false

/-- A stop whose delay is over finds a session that was created before it was called, or one
whose process has ended. -/
def StopFits (w : WatchManager) (k : ℕ) : Prop :=
  ∀ call ∈ w.stops[k]?, call.returned = false → ∀ session ∈ w.sessions.lookup call.key,
    w.isAlive session.process = false ∨ session.process ∈ call.known

instance (w : WatchManager) (k : ℕ) (listening : Bool) : Decidable (w.PollFits k listening) := by
  unfold PollFits
  infer_instance

instance (w : WatchManager) (k : ℕ) : Decidable (w.StopFits k) := by
  unfold StopFits
  infer_instance

/-- No handle of a live process is dropped, unless that ends it, and no stop is too late. -/
def Careful (sp : ProcessSpawner) (w : WatchManager) : WatchStep → Prop
  | .poll k listening => sp.killOnDrop = true ∨ w.PollFits k listening
  | .finishStop k => w.StopFits k
  | _ => True

variable {sp : ProcessSpawner} {w : WatchManager} {k p : ℕ} {key : String} {e : Ending} {q : ℕ}

theorem getElem?_endProcess {process' : Process}
    (h : (w.endProcess p e).processes[q]? = some process') :
    ∃ process, w.processes[q]? = some process ∧
      (process' = process ∨ q = p ∧ process' = process.endBy e) := by
  rcases Registry.getElem?_change.mp h with ⟨rfl, process, hq, rfl⟩ | ⟨-, hq⟩
  · exact ⟨process, hq, .inr ⟨rfl, rfl⟩⟩
  · exact ⟨process', hq, .inl rfl⟩

variable {process : Process}

theorem exists_endProcess (h : w.processes[q]? = some process) :
    ∃ process', (w.endProcess p e).processes[q]? = some process' ∧
      process'.file = process.file ∧ process'.docType = process.docType := by
  by_cases hq : q = p
  · subst hq
    exact ⟨process.endBy e, Registry.getElem?_change.mpr (.inl ⟨rfl, process, h, rfl⟩), rfl, rfl⟩
  · exact ⟨process, Registry.getElem?_change.mpr (.inr ⟨hq, h⟩), rfl, rfl⟩

theorem endBy_ended (process : Process) : (process.endBy e).ended ≠ none := by
  cases h : process.ended <;> simp [Process.endBy, h]

theorem Ended.endProcess (h : w.Ended p) (q : ℕ) (e : Ending) : (w.endProcess q e).Ended p := by
  obtain ⟨process, hp, hended⟩ := h
  by_cases hpq : p = q
  · subst hpq
    exact ⟨process.endBy e, Registry.getElem?_change.mpr (.inl ⟨rfl, process, hp, rfl⟩),
      endBy_ended process⟩
  · exact ⟨process, Registry.getElem?_change.mpr (.inr ⟨hpq, hp⟩), hended⟩

theorem ended_endProcess (h : w.processes[p]? = some process) :
    (w.endProcess p e).Ended p :=
  ⟨process.endBy e, Registry.getElem?_change.mpr (.inl ⟨rfl, process, h, rfl⟩), endBy_ended process⟩

theorem ended_of_not_isAlive (h : w.processes[p]? = some process) (ha : w.isAlive p = false) :
    w.Ended p := by
  refine ⟨process, h, fun hnone => ?_⟩
  rw [isAlive, h] at ha
  simp [hnone] at ha

/-- What a call at this stage says about a process that it spawned. -/
def Owns (p : ℕ) (process : Process) : StartStage → Prop
  | .polling _ q _ => p = q
  | .updating _ => True
  | .returned (.ok _) => True
  | .returned (.error _) => process.ended ≠ none
  | _ => False

/-- What every step keeps: a live process is stored or polled for. -/
structure Kept (w : WatchManager) : Prop where
  live : ∀ (p : ℕ) (process : Process), w.processes[p]? = some process → process.ended = none →
    w.Stored p process ∨ ∃ call ∈ w.starts, ∃ polls, call.stage.polled = some (p, polls)
  sessions : ∀ (key : String) (session : WatchSession), w.sessions.lookup key = some session →
    session.aborted = false ∧ session.process ∈ w.created ∧
    ∃ process, w.processes[session.process]? = some process ∧
      key = sessionKey process.file process.docType
  polled : ∀ call ∈ w.starts, ∀ p polls, call.stage.polled = some (p, polls) →
    ∃ process, w.processes[p]? = some process ∧
      process.file = call.resolved ∧ process.docType = call.docType
  spawned : ∀ (p : ℕ) (process : Process), w.processes[p]? = some process →
    ∃ call, w.starts[process.spawnedBy]? = some call ∧ Owns p process call.stage
  stops : ∀ call ∈ w.stops, ∀ p, call.seen = some p → w.Ended p ∨ call.returned = false ∧
    ∃ session, w.sessions.lookup call.key = some session ∧ session.process = p
  spared : ∀ (k p : ℕ) (process : Process), w.processes[p]? = some process →
    process.ended = some (.stopped k) →
    ∃ call, w.stops[k]? = some call ∧ p ∈ call.known

variable {stage : StartStage}

theorem Owns.endBy (h : Owns p process stage) :
    Owns p (process.endBy e) stage := by
  cases stage with
  | returned result =>
    cases result with
    | error _ => exact endBy_ended process
    | ok _ => trivial
  | _ => exact h

theorem Kept.new (canonical : String → Option String) : (WatchManager.new canonical).Kept := by
  constructor <;> simp [WatchManager.new]

theorem Kept.broadcastStatus (h : w.Kept) (docType : DocType) (state : PreviewState)
    (message : Option String) : (w.broadcastStatus docType state message).Kept :=
  ⟨h.live, h.sessions, h.polled, h.spawned, h.stops, h.spared⟩

/-- A process ends; a stop may only end what it knew. -/
theorem Kept.endProcess (h : w.Kept) (he : ∀ k, e = .stopped k → w.Ended p ∨
      ∃ call, w.stops[k]? = some call ∧ p ∈ call.known) : (w.endProcess p e).Kept := by
  constructor
  case live =>
    intro q process' hq hlive
    obtain ⟨process, hq', rfl | ⟨rfl, rfl⟩⟩ := getElem?_endProcess hq
    · exact h.live q process' hq' hlive
    · exact absurd hlive (endBy_ended process)
  case sessions =>
    intro key session hs
    obtain ⟨ha, hc, process, hp, hkey⟩ := h.sessions key session hs
    obtain ⟨process', hp', hfile, hdoc⟩ := exists_endProcess (p := p) (e := e) hp
    refine ⟨ha, hc, process', hp', ?_⟩
    rw [hfile, hdoc]
    exact hkey
  case polled =>
    intro call hcall q polls hpoll
    obtain ⟨process, hp, hfile, hdoc⟩ := h.polled call hcall q polls hpoll
    obtain ⟨process', hp', hfile', hdoc'⟩ := exists_endProcess (p := p) (e := e) hp
    exact ⟨process', hp', hfile'.trans hfile, hdoc'.trans hdoc⟩
  case spawned =>
    intro q process' hq
    obtain ⟨process, hq', rfl | ⟨rfl, rfl⟩⟩ := getElem?_endProcess hq
    · exact h.spawned q process' hq'
    · obtain ⟨call, hcall, howns⟩ := h.spawned q process hq'
      exact ⟨call, hcall, howns.endBy⟩
  case stops =>
    intro call hcall q hseen
    rcases h.stops call hcall q hseen with hended | hstored
    · exact .inl (hended.endProcess p e)
    · exact .inr hstored
  case spared =>
    intro k q process' hq hended
    obtain ⟨process, hq', rfl | ⟨rfl, rfl⟩⟩ := getElem?_endProcess hq
    · exact h.spared k q process' hq' hended
    · cases hnone : process.ended with
      | some e' =>
        rw [Process.endBy, hnone] at hended
        exact h.spared k q process hq' (hnone.trans hended)
      | none =>
        rw [Process.endBy, hnone] at hended
        rcases he k (Option.some.inj hended) with ⟨process₂, hp₂, hended₂⟩ | hknown
        · rw [hq'] at hp₂
          rw [← Option.some.inj hp₂] at hended₂
          exact absurd hnone hended₂
        · exact hknown

theorem Kept.dropHandle (h : w.Kept) (p : ℕ) : (w.dropHandle sp p).Kept := by
  rw [WatchManager.dropHandle]
  split
  · exact h.endProcess (by simp)
  · exact h

theorem ended_dropHandle (hp : w.processes[p]? = some process)
    (h : sp.killOnDrop = true ∨ w.isAlive p = false) : (w.dropHandle sp p).Ended p := by
  rw [dropHandle]
  split
  · exact ended_endProcess hp
  · rename_i hno
    exact ended_of_not_isAlive hp (h.resolve_left hno)

theorem exists_dropHandle (sp : ProcessSpawner) (p : ℕ) (h : w.processes[q]? = some process) :
    ∃ process', (w.dropHandle sp p).processes[q]? = some process' ∧
      process'.file = process.file ∧ process'.docType = process.docType := by
  rw [dropHandle]
  split
  · exact exists_endProcess h
  · exact ⟨process, h, rfl, rfl⟩

theorem dropHandle_sessions : (w.dropHandle sp p).sessions = w.sessions := by
  rw [dropHandle]
  split <;> rfl

theorem dropHandle_starts : (w.dropHandle sp p).starts = w.starts := by
  rw [dropHandle]
  split <;> rfl

theorem dropHandle_created : (w.dropHandle sp p).created = w.created := by
  rw [dropHandle]
  split <;> rfl

variable {call : StartCall}

section

variable (h : w.Kept)
include h

/-- A call of `start` goes on. A process that it gives up is stored or has ended. -/
theorem Kept.setStage (hk : w.starts[k]? = some call)
    (howns : ∀ (p : ℕ) (process : Process), w.processes[p]? = some process →
      process.spawnedBy = k → Owns p process stage)
    (hpolled : ∀ p polls, stage.polled = some (p, polls) → ∃ process,
      w.processes[p]? = some process ∧ process.file = call.resolved ∧
        process.docType = call.docType)
    (hleft : ∀ (p polls : ℕ) (process : Process), call.stage.polled = some (p, polls) →
      w.processes[p]? = some process → process.ended = none →
      w.Stored p process ∨ ∃ polls, stage.polled = some (p, polls)) :
    (w.setStage k stage).Kept := by
  have hnew : ({ call with stage := stage } : StartCall) ∈ (w.setStage k stage).starts :=
    List.mem_of_getElem? (Registry.getElem?_change.mpr (.inl ⟨rfl, call, hk, rfl⟩))
  refine { h with live := fun p process hp hlive => ?_, polled := fun c hc p polls hpoll => ?_,
                  spawned := fun p process hp => ?_ }
  · rcases h.live p process hp hlive with hstored | ⟨c, hc, polls, hpoll⟩
    · exact .inl hstored
    obtain ⟨j, hj⟩ := List.getElem?_of_mem hc
    by_cases hjk : j = k
    · subst hjk
      obtain rfl : call = c := Option.some.inj (hk.symm.trans hj)
      rcases hleft p polls process hpoll hp hlive with hstored | hgoes
      · exact .inl hstored
      · exact .inr ⟨_, hnew, hgoes⟩
    · have hj' : (w.setStage k stage).starts[j]? = some c :=
        Registry.getElem?_change.mpr (.inr ⟨hjk, hj⟩)
      exact .inr ⟨c, List.mem_of_getElem? hj', polls, hpoll⟩
  · obtain ⟨j, hj⟩ := List.getElem?_of_mem hc
    rcases Registry.getElem?_change.mp hj with ⟨rfl, c, hj₀, rfl⟩ | ⟨-, hj⟩
    · obtain rfl : call = c := Option.some.inj (hk.symm.trans hj₀)
      exact hpolled p polls hpoll
    · exact h.polled c (List.mem_of_getElem? hj) p polls hpoll
  · obtain ⟨c, hc, hown⟩ := h.spawned p process hp
    by_cases hjk : process.spawnedBy = k
    · exact ⟨{ call with stage := stage }, Registry.getElem?_change.mpr (.inl ⟨hjk, call, hk, rfl⟩),
        howns p process hp hjk⟩
    · exact ⟨c, Registry.getElem?_change.mpr (.inr ⟨hjk, hc⟩), hown⟩

/-- A call that polls for no process goes on to a stage where it polls for none. -/
theorem Kept.setStage_idle (hk : w.starts[k]? = some call) (hcall : call.stage.polled = none)
    (hstage : stage.polled = none)
    (howns : ∀ (p : ℕ) (process : Process), Owns p process call.stage → Owns p process stage) :
    (w.setStage k stage).Kept := by
  refine h.setStage hk (fun p process hp hby => ?_) (by simp [hstage]) (by simp [hcall])
  obtain ⟨c, hc, hown⟩ := h.spawned p process hp
  rw [hby, hk] at hc
  rw [← Option.some.inj hc] at hown
  exact howns p process hown

theorem Kept.addStart (hcall : call.stage.polled = none) :
    (w.addStart call).Kept := by
  refine { h with live := fun p process hp hlive => ?_, polled := fun c hc p polls hpoll => ?_,
                  spawned := fun p process hp => ?_ }
  · rcases h.live p process hp hlive with hstored | ⟨c, hc, hpoll⟩
    · exact .inl hstored
    · exact .inr ⟨c, List.mem_append_left _ hc, hpoll⟩
  · rcases List.mem_append.mp hc with hc | hc
    · exact h.polled c hc p polls hpoll
    · rw [List.mem_singleton.mp hc, hcall] at hpoll
      cases hpoll
  · obtain ⟨c, hc, hown⟩ := h.spawned p process hp
    exact ⟨c, Registry.getElem?_add_of_some hc, hown⟩

/-- A session goes, and its process with it. -/
theorem Kept.erase
    (hold : ∀ session, w.sessions.lookup key = some session → w.Ended session.process) :
    ({ w with sessions := w.sessions.erase key } : WatchManager).Kept := by
  have hother : ∀ {k : String} {session : WatchSession}, w.sessions.lookup k = some session →
      w.Ended session.process ∨ (w.sessions.erase key).lookup k = some session := by
    intro k session hs
    by_cases hkey : k = key
    · exact .inl (hold session (hkey ▸ hs))
    · exact .inr (by rw [Dict.lookup_erase', if_neg hkey, hs])
  refine { h with live := fun p process hp hlive => ?_, sessions := fun k session hs => ?_,
                  stops := fun call hcall p hseen => ?_ }
  · rcases h.live p process hp hlive with ⟨session, hs, rfl⟩ | hpoll
    · rcases hother hs with ⟨process', hp', hended⟩ | hs
      · rw [hp] at hp'
        rw [← Option.some.inj hp'] at hended
        exact absurd hlive hended
      · exact .inl ⟨session, hs, rfl⟩
    · exact .inr hpoll
  · rw [Dict.lookup_erase'] at hs
    split at hs
    · cases hs
    · exact h.sessions k session hs
  · rcases h.stops call hcall p hseen with hended | ⟨hret, session, hs, rfl⟩
    · exact .inl hended
    · rcases hother hs with hended | hs
      · exact .inl hended
      · exact .inr ⟨hret, session, hs, rfl⟩

variable {session : WatchSession}

/-- A session is stored; the one it replaces has ended. -/
theorem Kept.insert (hnew : session.aborted = false)
    (hp : ∃ process, w.processes[session.process]? = some process ∧
      key = sessionKey process.file process.docType)
    (hold : ∀ s, w.sessions.lookup key = some s → w.Ended s.process) :
    ({ w with sessions := w.sessions.insert key session,
              created := w.created ++ [session.process] } : WatchManager).Kept := by
  have hother : ∀ {k : String} {s : WatchSession}, w.sessions.lookup k = some s →
      w.Ended s.process ∨ (w.sessions.insert key session).lookup k = some s := by
    intro k s hs
    by_cases hkey : k = key
    · exact .inl (hold s (hkey ▸ hs))
    · exact .inr (by rw [Dict.lookup_insert', if_neg hkey, hs])
  refine { h with live := fun p process hp hlive => ?_, sessions := fun k s hs => ?_,
                  stops := fun call hcall p hseen => ?_ }
  · rcases h.live p process hp hlive with ⟨s, hs, rfl⟩ | hpoll
    · rcases hother hs with ⟨process', hp', hended⟩ | hs
      · rw [hp] at hp'
        rw [← Option.some.inj hp'] at hended
        exact absurd hlive hended
      · exact .inl ⟨s, hs, rfl⟩
    · exact .inr hpoll
  · rw [Dict.lookup_insert'] at hs
    split at hs
    · rename_i hkey
      obtain rfl := Option.some.inj hs
      exact ⟨hnew, List.mem_append_right _ (List.mem_singleton_self _), hkey ▸ hp⟩
    · obtain ⟨ha, hc, hex⟩ := h.sessions k s hs
      exact ⟨ha, List.mem_append_left _ hc, hex⟩
  · rcases h.stops call hcall p hseen with hended | ⟨hret, s, hs, rfl⟩
    · exact .inl hended
    · rcases hother hs with hended | hs
      · exact .inl hended
      · exact .inr ⟨hret, s, hs, rfl⟩

/-- The handle of a stored session goes: nothing else changes, and its process has ended. -/
theorem Kept.dropSession
    (hend : sp.killOnDrop = true ∨
      ∀ session, w.sessions.lookup key = some session → w.isAlive session.process = false) :
    (w.dropSession sp key).Kept ∧ (w.dropSession sp key).sessions = w.sessions ∧
      (w.dropSession sp key).starts = w.starts ∧ (w.dropSession sp key).created = w.created ∧
      ∀ session, w.sessions.lookup key = some session →
        (w.dropSession sp key).Ended session.process := by
  rw [WatchManager.dropSession]
  cases hs : w.sessions.lookup key with
  | none => exact ⟨h, rfl, rfl, rfl, by simp⟩
  | some session =>
    obtain ⟨-, -, process, hp, -⟩ := h.sessions key session hs
    refine ⟨h.dropHandle session.process, dropHandle_sessions, dropHandle_starts,
      dropHandle_created, fun s he => ?_⟩
    obtain rfl := Option.some.inj he
    exact ended_dropHandle hp (hend.imp_right fun hdead => hdead session hs)

theorem Kept.removeSession
    (hend : sp.killOnDrop = true ∨
      ∀ session, w.sessions.lookup key = some session → w.isAlive session.process = false) :
    (w.removeSession sp key).Kept := by
  obtain ⟨hkept, hsessions, -, -, hended⟩ := h.dropSession hend
  have herase : ({ w.dropSession sp key with
      sessions := (w.dropSession sp key).sessions.erase key } : WatchManager).Kept :=
    hkept.erase (by rwa [hsessions])
  rw [hsessions] at herase
  exact herase

theorem Kept.addSession (hnew : session.aborted = false)
    (hp : w.processes[session.process]? = some process)
    (hkey : key = sessionKey process.file process.docType)
    (hend : sp.killOnDrop = true ∨
      ∀ s, w.sessions.lookup key = some s → w.isAlive s.process = false) :
    (w.addSession sp key session).Kept := by
  obtain ⟨hkept, hsessions, -, hcreated, hended⟩ := h.dropSession hend
  have hp' : ∃ process, (w.dropSession sp key).processes[session.process]? = some process ∧
      key = sessionKey process.file process.docType := by
    rw [WatchManager.dropSession]
    cases w.sessions.lookup key with
    | none => exact ⟨process, hp, hkey⟩
    | some s =>
      obtain ⟨process', hp', hfile, hdoc⟩ := exists_dropHandle sp s.process hp
      exact ⟨process', hp', by rw [hfile, hdoc, hkey]⟩
  have hinsert := hkept.insert hnew hp' (by rwa [hsessions])
  rw [hsessions, hcreated] at hinsert
  exact hinsert

theorem Kept.fail (hk : w.starts[k]? = some call) (hcall : call.stage.polled = none)
    (hidle : ∀ p process, ¬Owns p process call.stage) (docType : DocType) (err : OfficeError) :
    (w.fail k docType err).Kept :=
  (h.broadcastStatus _ _ _).setStage_idle hk hcall rfl fun p process hown =>
    absurd hown (hidle p process)

theorem Kept.tryPort (hk : w.starts[k]? = some call) (hcall : call.stage.polled = none)
    (hidle : ∀ p process, ¬Owns p process call.stage) (docType : DocType) (attempt : ℕ)
    (port : Except String UInt16) :
    (w.tryPort k docType attempt port).Kept := by
  cases port with
  | ok port =>
    exact h.setStage_idle hk hcall rfl fun p process hown => absurd hown (hidle p process)
  | error message => exact h.fail hk hcall hidle docType _

theorem Kept.retry (hk : w.starts[k]? = some call) (hcall : call.stage.polled = none)
    (hidle : ∀ p process, ¬Owns p process call.stage) (docType : DocType) (attempt : ℕ)
    (err : OfficeError) (port : Except String UInt16) :
    (w.retry k docType attempt err port).Kept := by
  rw [WatchManager.retry]
  split
  · exact h.tryPort hk hcall hidle docType (attempt + 1) port
  · exact h.fail hk hcall hidle docType err

theorem Kept.start (filePath : String) (docType : DocType) (port : Except String UInt16) :
    (w.start sp filePath docType port).Kept := by
  have hlaunch : ∀ (w : WatchManager) (resolved : String), w.Kept →
      (((w.addStart ⟨resolved, docType, .starting⟩).broadcastStatus docType .starting none).tryPort
        w.starts.length docType 1 port).Kept := by
    intro w resolved hw
    have hk : ((w.addStart ⟨resolved, docType, .starting⟩).broadcastStatus docType
        .starting none).starts[w.starts.length]? = some ⟨resolved, docType, .starting⟩ := by
      show (w.starts ++ [_])[w.starts.length]? = _
      simp
    exact ((hw.addStart rfl).broadcastStatus _ _ _).tryPort hk rfl (by simp [Owns]) docType 1 port
  rw [WatchManager.start]
  split
  · rename_i session hs
    obtain ⟨habort, -, process, hp, -⟩ := h.sessions _ session hs
    by_cases halive : w.isAlive session.process = true
    · rw [if_pos (by simp [habort, halive])]
      exact h.addStart rfl
    · rw [if_neg (by simp [halive])]
      have hremoved : (w.removeSession sp _).Kept := h.removeSession (.inr fun s hs' => by
        obtain rfl := Option.some.inj (hs.symm.trans hs')
        simpa using halive)
      exact hlaunch _ _ hremoved
  · exact hlaunch w _ h

/-- The process of a call that has none yet. -/
theorem Kept.addProcess (hk : w.starts[k]? = some call) (hcall : call.stage.polled = none)
    (hidle : ∀ p process, ¬Owns p process call.stage) (port : UInt16) :
    (w.spawned k call port).Kept := by
  have hold : ∀ {p : ℕ} {process : Process},
      (w.spawned k call port).processes[p]? = some process →
      w.processes[p]? = some process ∨
        p = w.processes.length ∧ process = ⟨call.resolved, call.docType, port, k, none⟩ :=
    fun hp => Registry.getElem?_add.mp hp
  have hmine : (w.spawned k call port).starts[k]? =
      some { call with stage := .polling port w.processes.length 0 } :=
    Registry.getElem?_change.mpr (.inl ⟨rfl, call, hk, rfl⟩)
  have hother : ∀ {j : ℕ} {c : StartCall}, w.starts[j]? = some c → c.stage ≠ call.stage →
      (w.spawned k call port).starts[j]? = some c := by
    intro j c hj hne
    refine Registry.getElem?_change.mpr (.inr ⟨fun he => hne ?_, hj⟩)
    subst he
    rw [Option.some.inj (hj.symm.trans hk)]
  constructor
  case live =>
    intro p process hp hlive
    rcases hold hp with hp | ⟨rfl, rfl⟩
    · rcases h.live p process hp hlive with hstored | ⟨c, hc, polls, hpoll⟩
      · exact .inl hstored
      · obtain ⟨j, hj⟩ := List.getElem?_of_mem hc
        have hne : c.stage ≠ call.stage := fun he => by
          rw [he, hcall] at hpoll
          cases hpoll
        exact .inr ⟨c, List.mem_of_getElem? (hother hj hne), polls, hpoll⟩
    · exact .inr ⟨_, List.mem_of_getElem? hmine, 0, rfl⟩
  case sessions =>
    intro key session hs
    obtain ⟨ha, hc, process, hp, hkey⟩ := h.sessions key session hs
    exact ⟨ha, hc, process, Registry.getElem?_add_of_some hp, hkey⟩
  case polled =>
    intro c hc p polls hpoll
    obtain ⟨j, hj⟩ := List.getElem?_of_mem hc
    rcases Registry.getElem?_change.mp hj with ⟨rfl, c, hj₀, rfl⟩ | ⟨-, hj⟩
    · obtain rfl : call = c := Option.some.inj (hk.symm.trans hj₀)
      obtain ⟨rfl, -⟩ := Prod.mk.inj (Option.some.inj hpoll)
      exact ⟨_, Registry.getElem?_add.mpr (.inr ⟨rfl, rfl⟩), rfl, rfl⟩
    · obtain ⟨process, hp, hfile⟩ := h.polled c (List.mem_of_getElem? hj) p polls hpoll
      exact ⟨process, Registry.getElem?_add_of_some hp, hfile⟩
  case spawned =>
    intro p process hp
    rcases hold hp with hp | ⟨rfl, rfl⟩
    · obtain ⟨c, hc, hown⟩ := h.spawned p process hp
      exact ⟨c, hother hc fun he => hidle p process (he ▸ hown), hown⟩
    · exact ⟨_, hmine, rfl⟩
  case stops =>
    intro c hc p hseen
    rcases h.stops c hc p hseen with ⟨process, hp, hended⟩ | hstored
    · exact .inl ⟨process, Registry.getElem?_add_of_some hp, hended⟩
    · exact .inr hstored
  case spared =>
    intro j p process hp hended
    rcases hold hp with hp | ⟨rfl, rfl⟩
    · exact h.spared j p process hp hended
    · cases hended

theorem Kept.spawn (k : ℕ) (outcome : Except OfficeError Unit) (port : Except String UInt16) :
    (w.spawn k outcome port).Kept := by
  rw [WatchManager.spawn]
  split
  · rename_i call hk
    split
    · rename_i hstage
      exact h.addProcess hk (by rw [hstage]; rfl) (by simp [hstage, Owns]) _
    · rename_i hstage
      exact (h.broadcastStatus _ _ _).setStage_idle hk (by rw [hstage]; rfl) rfl
        (by simp [hstage, Owns])
    · rename_i hstage
      exact h.retry hk (by rw [hstage]; rfl) (by simp [hstage, Owns]) _ _ _ _
    · rename_i hstage
      exact h.addProcess hk (by rw [hstage]; rfl) (by simp [hstage, Owns]) _
    · rename_i hstage
      exact h.retry hk (by rw [hstage]; rfl) (by simp [hstage, Owns]) _ _ _ _
    · exact h
  · exact h

theorem Kept.install (k : ℕ) (outcome : Except OfficeError Unit) (port : Except String UInt16) :
    (w.install k outcome port).Kept := by
  rw [WatchManager.install]
  split
  · rename_i call hk
    split
    · rename_i hstage
      exact h.setStage_idle hk (by rw [hstage]; rfl) rfl (by simp [hstage, Owns])
    · rename_i hstage
      exact h.retry hk (by rw [hstage]; rfl) (by simp [hstage, Owns]) _ _ _ _
    · exact h
  · exact h

theorem Kept.ready {port : UInt16} {polls : ℕ} (hk : w.starts[k]? = some call)
    (hstage : call.stage = .polling port p polls)
    (hend : sp.killOnDrop = true ∨
      ∀ s, w.sessions.lookup (sessionKey call.resolved call.docType) = some s →
        w.isAlive s.process = false) :
    (w.ready sp k call port p).Kept := by
  obtain ⟨process, hp, hfile, hdoc⟩ :=
    h.polled call (List.mem_of_getElem? hk) p polls (by rw [hstage]; rfl)
  have hadd : (w.addSession sp (sessionKey call.resolved call.docType)
      ⟨port, p, call.resolved, call.docType, false⟩).Kept :=
    h.addSession rfl hp (by rw [hfile, hdoc]) hend
  have hstarts : (w.addSession sp (sessionKey call.resolved call.docType)
      ⟨port, p, call.resolved, call.docType, false⟩).starts = w.starts := (h.dropSession hend).2.2.1
  refine (hadd.broadcastStatus _ _ _).setStage (hstarts ▸ hk) (fun q process _ _ => ?_) ?_ ?_
  · split <;> trivial
  · split <;> simp [StartStage.polled]
  · intro q polls' process' hpoll hq _
    rw [hstage] at hpoll
    obtain ⟨rfl, -⟩ := Prod.mk.inj (Option.some.inj hpoll)
    obtain ⟨process₂, hp₂, hfile₂, hdoc₂⟩ := hadd.polled call
      (List.mem_of_getElem? (hstarts ▸ hk)) p polls (by rw [hstage]; rfl)
    obtain rfl : process₂ = process' := Option.some.inj (hp₂.symm.trans hq)
    refine .inl ⟨⟨port, p, call.resolved, call.docType, false⟩, ?_, rfl⟩
    rw [hfile₂, hdoc₂]
    exact AList.lookup_insert _

theorem Kept.poll {listening : Bool} (hfits : sp.killOnDrop = true ∨ w.PollFits k listening) :
    (w.poll sp k listening).Kept := by
  rw [WatchManager.poll]
  split
  · rename_i call hk
    split
    · rename_i port p polls hstage
      have hfits : sp.killOnDrop = true ∨ if listening then
          ∀ s ∈ w.sessions.lookup (sessionKey call.resolved call.docType),
            w.isAlive s.process = false
          else polls + 1 < pollMaxAttempts ∨ w.isAlive p = false :=
        hfits.imp_right fun hf => hf call hk (p, polls) (by rw [hstage]; rfl)
      obtain ⟨process, hp, hfile, hdoc⟩ :=
        h.polled call (List.mem_of_getElem? hk) p polls (by rw [hstage]; rfl)
      by_cases hl : listening = true
      · rw [if_pos hl]
        rw [if_pos hl] at hfits
        exact h.ready hk hstage hfits
      rw [if_neg hl]
      rw [if_neg hl] at hfits
      by_cases hmore : polls + 1 < pollMaxAttempts
      · rw [if_pos hmore]
        refine h.setStage hk (fun q process' hq hby => ?_) (fun q polls' hpoll => ?_)
          fun q polls' process' hpoll _ _ => ?_
        · obtain ⟨c, hc, hown⟩ := h.spawned q process' hq
          rw [hby, hk] at hc
          rw [← Option.some.inj hc, hstage] at hown
          exact hown
        · obtain ⟨rfl, -⟩ := Prod.mk.inj (Option.some.inj hpoll)
          exact ⟨process, hp, hfile, hdoc⟩
        · rw [hstage] at hpoll
          obtain ⟨rfl, -⟩ := Prod.mk.inj (Option.some.inj hpoll)
          exact .inr ⟨polls + 1, rfl⟩
      · rw [if_neg hmore]
        obtain ⟨process', hp', hended⟩ : (w.dropHandle sp p).Ended p :=
          ended_dropHandle hp (hfits.imp_right fun hf => hf.resolve_left hmore)
        have hdrop : (w.dropHandle sp p).Kept := h.dropHandle p
        have hk' : (w.dropHandle sp p).starts[k]? = some call := by rw [dropHandle_starts, hk]
        refine (hdrop.broadcastStatus _ _ _).setStage hk' (fun q process₂ hq hby => ?_)
          (by simp [StartStage.polled]) fun q polls' process₂ hpoll hq hlive => ?_
        · obtain ⟨c, hc, hown⟩ := hdrop.spawned q process₂ hq
          rw [hby, hk'] at hc
          rw [← Option.some.inj hc, hstage] at hown
          obtain rfl : q = p := hown
          obtain rfl : process' = process₂ := Option.some.inj (hp'.symm.trans hq)
          exact hended
        · rw [hstage] at hpoll
          obtain ⟨rfl, -⟩ := Prod.mk.inj (Option.some.inj hpoll)
          obtain rfl : process' = process₂ := Option.some.inj (hp'.symm.trans hq)
          exact absurd hlive hended
    · exact h
  · exact h

theorem Kept.checkUpdate (k now : ℕ) : (w.checkUpdate k now).Kept := by
  rw [WatchManager.checkUpdate]
  split
  · rename_i call hk
    split
    · rename_i port hstage
      have hchecked : ∀ t n,
          ({ w with lastVersionCheck := t, versionChecks := n } : WatchManager).Kept :=
        fun _ _ => ⟨h.live, h.sessions, h.polled, h.spawned, h.stops, h.spared⟩
      dsimp only
      split <;> split
      all_goals
        exact (hchecked _ _).setStage_idle hk (by rw [hstage]; rfl) rfl fun _ _ _ => trivial
    · exact h
  · exact h

theorem Kept.stop (filePath : String) (docType : DocType) :
    (w.stop filePath docType).Kept := by
  refine { h with stops := fun call hcall p hseen => ?_,
                  spared := fun k p process hp hended => ?_ }
  · rcases List.mem_append.mp hcall with hcall | hcall
    · exact h.stops call hcall p hseen
    · rw [List.mem_singleton.mp hcall] at hseen ⊢
      obtain ⟨session, hs, rfl⟩ := Option.map_eq_some_iff.mp hseen
      exact .inr ⟨rfl, session, hs, rfl⟩
  · obtain ⟨call, hcall, hknown⟩ := h.spared k p process hp hended
    exact ⟨call, Registry.getElem?_add_of_some hcall, hknown⟩

/-- A stop returns once nothing is stored under its key. -/
theorem Kept.returnStop {call : StopCall} (hk : w.stops[k]? = some call)
    (hnone : w.sessions.lookup call.key = none) :
    ({ w with stops := w.stops.set k { call with returned := true } } : WatchManager).Kept := by
  refine { h with stops := fun c hc p hseen => ?_, spared := fun j p process hp hended => ?_ }
  · rcases List.mem_or_eq_of_mem_set hc with hc | rfl
    · exact h.stops c hc p hseen
    · rcases h.stops call (List.mem_of_getElem? hk) p hseen with hended | ⟨-, session, hs, -⟩
      · exact .inl hended
      · rw [hnone] at hs
        cases hs
  · obtain ⟨c, hc, hknown⟩ := h.spared j p process hp hended
    by_cases hjk : j = k
    · subst hjk
      obtain rfl : call = c := Option.some.inj (hk.symm.trans hc)
      exact ⟨_, (Registry.getElem?_replace hk).mpr (.inl ⟨rfl, rfl⟩), hknown⟩
    · exact ⟨c, (Registry.getElem?_replace hk).mpr (.inr ⟨hjk, hc⟩), hknown⟩

theorem Kept.finishStop (hfits : w.StopFits k) : (w.finishStop k).Kept := by
  rw [WatchManager.finishStop]
  split
  · rename_i call hk
    split
    · exact h
    · rename_i hret
      have hfits := hfits call hk (by simpa using hret)
      dsimp only
      cases hs : w.sessions.lookup call.key with
      | none => exact h.returnStop hk hs
      | some session =>
        obtain ⟨-, -, process, hp, -⟩ := h.sessions call.key session hs
        have hkill : (w.endProcess session.process (.stopped k)).Kept := by
          refine h.endProcess fun j he => ?_
          obtain rfl := Ending.stopped.inj he
          rcases hfits session hs with hdead | hknown
          · exact .inl (ended_of_not_isAlive hp hdead)
          · exact .inr ⟨call, hk, hknown⟩
        have herase : ({ w.endProcess session.process (.stopped k) with
            sessions := w.sessions.erase call.key } : WatchManager).Kept := by
          refine hkill.erase fun s hs' => ?_
          obtain rfl := Option.some.inj (hs.symm.trans hs')
          exact ended_endProcess hp
        have hnone : AList.lookup call.key (AList.erase call.key w.sessions) = none :=
          AList.lookup_erase _ _
        exact herase.returnStop hk hnone
  · exact h

end

/-- The loop of `stop_all`. -/
theorem Kept.endAll (sessions : List WatchSession) (h : w.Kept)
    (hs : ∀ s ∈ sessions, ∃ process, w.processes[s.process]? = some process) :
    let w' := sessions.foldl (fun w s => w.endProcess s.process .stoppedAll) w
    w'.Kept ∧ w'.sessions = w.sessions ∧ (∀ p, w.Ended p → w'.Ended p) ∧
      ∀ s ∈ sessions, w'.Ended s.process := by
  induction sessions generalizing w with
  | nil => exact ⟨h, rfl, fun _ hp => hp, by simp⟩
  | cons s sessions ih =>
    have hnext : (w.endProcess s.process .stoppedAll).Kept := h.endProcess (by simp)
    obtain ⟨hkept, hsame, hmono, hended⟩ := ih hnext fun s' hs' => by
      obtain ⟨process, hp⟩ := hs s' (List.mem_cons_of_mem s hs')
      obtain ⟨process', hp', -⟩ := exists_endProcess hp
      exact ⟨process', hp'⟩
    refine ⟨hkept, hsame, fun p hp => hmono p (hp.endProcess _ _), fun s' hs' => ?_⟩
    rcases List.mem_cons.mp hs' with rfl | hs'
    · obtain ⟨process, hp⟩ := hs s' List.mem_cons_self
      exact hmono _ (ended_endProcess hp)
    · exact hended s' hs'

theorem Kept.stopAll (h : w.Kept) : w.stopAll.Kept := by
  obtain ⟨hkept, hsame, -, hended⟩ := h.endAll w.sessions.values fun s hs => by
    obtain ⟨key, hkey⟩ := Dict.mem_values.mp hs
    obtain ⟨-, -, process, hp, -⟩ := h.sessions key s hkey
    exact ⟨process, hp⟩
  refine { hkept with live := fun p process hp hlive => ?_, sessions := fun key s hs => ?_,
                      stops := fun call hcall p hseen => ?_ }
  · rcases hkept.live p process hp hlive with ⟨s, hs, rfl⟩ | hpoll
    · rw [hsame] at hs
      obtain ⟨process', hp', hend⟩ := hended s (Dict.mem_values.mpr ⟨_, hs⟩)
      obtain rfl : process' = process := Option.some.inj (hp'.symm.trans hp)
      exact absurd hlive hend
    · exact .inr hpoll
  · cases hs
  · rcases hkept.stops call hcall p hseen with hend | ⟨-, s, hs, rfl⟩
    · exact .inl hend
    · rw [hsame] at hs
      exact .inl (hended s (Dict.mem_values.mpr ⟨_, hs⟩))

theorem Kept.fire (h : w.Kept) (step : WatchStep) (hstep : Careful sp w step) :
    (w.fire sp step).Kept := by
  cases step with
  | start filePath docType port => exact h.start filePath docType port
  | spawn k outcome port => exact h.spawn k outcome port
  | install k outcome port => exact h.install k outcome port
  | poll k listening => exact h.poll hstep
  | checkUpdate k now => exact h.checkUpdate k now
  | stop filePath docType => exact h.stop filePath docType
  | finishStop k => exact h.finishStop hstep
  | stopAll => exact h.stopAll
  | exit p => exact h.endProcess (by simp)
  | relink canonical => exact ⟨h.live, h.sessions, h.polled, h.spawned, h.stops, h.spared⟩

theorem Kept.tidy (h : w.Kept) : w.Tidy := by
  have hstored : w.Quiet → ∀ (p : ℕ) (process : Process), w.processes[p]? = some process →
      process.ended = none → w.Stored p process := by
    rintro ⟨hstarts, -⟩ p process hp hlive
    rcases h.live p process hp hlive with hs | ⟨call, hcall, polls, hpoll⟩
    · exact hs
    · obtain ⟨result, hresult⟩ := hstarts call hcall
      rw [hresult] at hpoll
      cases hpoll
  constructor
  case stored => exact hstored
  case single =>
    intro hquiet p q process process' hp hq hlive hlive' hfile hdoc
    obtain ⟨s, hs, rfl⟩ := hstored hquiet p process hp hlive
    obtain ⟨s', hs', rfl⟩ := hstored hquiet q process' hq hlive'
    rw [hfile, hdoc, hs'] at hs
    rw [Option.some.inj hs]
  case failed =>
    intro k call e hk hstage p process hp hby
    obtain ⟨c, hc, hown⟩ := h.spawned p process hp
    rw [hby, hk] at hc
    rw [← Option.some.inj hc, hstage] at hown
    exact hown
  case stopped =>
    intro k call p hk hret hseen
    rcases h.stops call (List.mem_of_getElem? hk) p hseen with hended | ⟨hno, -⟩
    · exact hended
    · rw [hret] at hno
      cases hno
  case spared =>
    intro k call p process hk hp hended
    obtain ⟨c, hc, hknown⟩ := h.spared k p process hp hended
    rw [hk] at hc
    rw [Option.some.inj hc]
    exact hknown

/-- While no handle of a live process is dropped and no stop comes too late, no process is
leaked and a stop stops just what it was called for. -/
theorem no_process_leaked (h : ((machine sp).restrict (Careful sp)).Reachable w) : w.Tidy := by
  have hkept : w.Kept := h.invariant (M := (machine sp).restrict (Careful sp)) (P := Kept)
    (by rintro _ ⟨canonical, rfl⟩; exact Kept.new canonical)
    fun w step hw hstep => hw.fire step hstep.2
  exact hkept.tidy

instance (sp : ProcessSpawner) : ∀ w step, Decidable (Careful sp w step) := by
  intro w step
  cases step <;> dsimp only [Careful] <;> infer_instance

instance (sp : ProcessSpawner) : ∀ w step, Decidable ((machine sp).admits w step) :=
  fun _ _ => .isTrue trivial

/-- A preview is started, found again and stopped. -/
def sampleSteps : List WatchStep :=
  [.start "/a.docx" .word (.ok 4100), .spawn 0 (.ok ()) (.ok 4101), .poll 0 false, .poll 0 true,
    .start "/a.docx" .word (.ok 4102), .stop "/a.docx" .word, .finishStop 0]

theorem no_process_leaked_sample :
    ((machine ⟨false⟩).run (new fun _ => none) sampleSteps).Tidy :=
  no_process_leaked
    (Machine.reachable_run (M := (machine ⟨false⟩).restrict (Careful ⟨false⟩)) ⟨_, rfl⟩
      (by decide +kernel))

def lateStopSteps : List WatchStep :=
  [.stop "/a.docx" .word, .start "/a.docx" .word (.ok 4100), .spawn 0 (.ok ()) (.ok 4101),
    .poll 0 true, .finishStop 0]

theorem stop_kills_later_session :
    (∃ w, (machine ⟨false⟩).Reachable w ∧ ¬w.Tidy) ∧
      ∃ w, (machine defaultProcessSpawner).Reachable w ∧ ¬w.Tidy := by
  have hlate : ∀ sp : ProcessSpawner, sp = ⟨false⟩ ∨ sp = defaultProcessSpawner →
      ∃ w, (machine sp).Reachable w ∧ ¬w.Tidy := by
    intro sp hsp
    refine ⟨(machine sp).run (new fun _ => none) lateStopSteps,
      Machine.reachable_run ⟨_, rfl⟩ (by rcases hsp with rfl | rfl <;> decide +kernel),
      fun htidy => ?_⟩
    have hspared := htidy.spared 0 ⟨"word:/a.docx", none, [], true⟩ 0
      ⟨"/a.docx", .word, 4100, 0, some (.stopped 0)⟩
      (by rcases hsp with rfl | rfl <;> decide +kernel)
      (by rcases hsp with rfl | rfl <;> decide +kernel) rfl
    simp at hspared
  exact ⟨hlate _ (.inl rfl), hlate _ (.inr rfl)⟩

end WatchManager

end AionCore.Office
