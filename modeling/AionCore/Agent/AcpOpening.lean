import AionCore.Agent.AcpSession

/-!
# ACP sessions: opening

`ensure_session_opened` and what it calls, one call to the CLI a step, under `session_lock`. The CLI
answers whatever it likes. Between two steps notifications arrive, config options are set, the
user cancels, and the future that opens the session may be dropped.
-/

namespace AionCore.Agent

open AionCore.Conversation (trim)

/-- The errors of a protocol call that the opening tells apart. -/
inductive AcpError where
  | sessionNotFound
  | resourceNotFound (resource : Option String)
  | other
  deriving DecidableEq

def isAcpSessionNotFound (err : AcpError) : Bool := err = .sessionNotFound

def isMissingResumedSession (err : AcpError) (resumedSessionId : String) : Bool :=
  isAcpSessionNotFound err || err = .resourceNotFound (some resumedSessionId)

/-- What the responses to session/new and session/load report. -/
structure SessionReport where
  models : Option SessionCatalog
  modes : Option SessionCatalog
  configOptions : Option (List SessionConfigOption)

structure NewSessionResponse extends SessionReport where
  sessionId : String

/-- The updates of a `SessionNotification` that reach the fields of the model. -/
inductive SessionNotice where
  | modes (modes : SessionCatalog)
  | currentMode (mode : String)
  | models (models : SessionCatalog)
  | configOptions (options : List SessionConfigOption)

structure AcpSessionParams where
  metadata : AgentMetadata
  sessionMode : Option String
  currentModelId : Option String
  thoughtLevel : Option String
  sessionSnapshot : Option PersistedSessionState

namespace AcpSession

variable (s : AcpSession)

def applyReportedModels (models : Option SessionCatalog) : AcpSession :=
  match models with
  | none => s
  | some models => s.applyAdvertised .model models

def applyReportedModes (modes : Option SessionCatalog) : AcpSession :=
  match modes with
  | none => s
  | some modes => s.applyAdvertised .mode modes

def applyReportedConfigOptions (options : Option (List SessionConfigOption)) : AcpSession :=
  match options with
  | none => s
  | some options => s.applyAdvertisedConfigOptions options

def applyReport (report : SessionReport) : AcpSession :=
  ((s.applyReportedModels report.models).applyReportedModes report.modes).applyReportedConfigOptions
    report.configOptions

def applyNotice : SessionNotice → AcpSession
  | .modes modes => s.applyAdvertised .mode modes
  | .currentMode mode => s.applyObserved .mode mode
  | .models models => s.applyAdvertised .model models
  | .configOptions options => s.applyAdvertisedConfigOptions options

end AcpSession

/-- `modes.current_mode_id` of a loaded session becomes the preloaded one. -/
def SessionReport.withMode (report : SessionReport) (preloadedMode : Option String) :
    SessionReport :=
  match preloadedMode with
  | none => report
  | some mode => { report with modes := report.modes.map fun modes => { modes with current := mode } }

section Build

namespace AcpSessionParams

variable (params : AcpSessionParams)

def initialMode : Option String :=
  (((params.sessionSnapshot.bind fun state => state.current.mode).map
      (normalizeRequestedMode params.metadata)).or
    (params.sessionMode.map (normalizeRequestedMode params.metadata))).filter (· ≠ "")

def initialModel : Option String :=
  (params.sessionSnapshot.bind fun state => state.current.model).or
    (params.currentModelId.filter (· ≠ ""))

def initialConfig : Dict String String :=
  (params.sessionSnapshot.map PersistedSessionState.configSelections).getD ∅

def hasPersistedConfigForCategory (initialConfig : Dict String String) :
    SessionConfigOptionCategory → Bool
  | .mode => "mode" ∈ initialConfig.keys
  | .model => "model" ∈ initialConfig.keys
  | .thoughtLevel =>
    initialConfig.keys.any fun key =>
      key ∈ ["thought_level", "reasoning_effort", "effort", "thinking_budget", "thinking"]
  | .other _ => false

/-- One preference of `seed_startup_config_preferences`. -/
def seedPreference (s : AcpSession) (category : SessionConfigOptionCategory)
    (preference : Option String) : AcpSession :=
  match (preference.map trim).filter (· ≠ "") with
  | none => s
  | some value =>
    if hasPersistedConfigForCategory params.initialConfig category then s
    else s.seedPendingStartupConfig category value

def seedStartupConfigPreferences (s : AcpSession) : AcpSession :=
  let s := params.seedPreference s .mode params.sessionMode
  let s := params.seedPreference s .model params.currentModelId
  params.seedPreference s .thoughtLevel params.thoughtLevel

/-- The aggregate after `AcpAgentManager::new` and `init`. -/
def session (loadSession : Bool) : AcpSession :=
  let s := AcpSession.new ⟨params.initialMode, params.initialModel⟩ params.initialConfig
  let s := params.seedStartupConfigPreferences
    (s.preloadAdvertisedCatalogs params.metadata.handshake)
  let s := match params.sessionSnapshot with
    | none => s
    | some state => s.preloadPersisted state
  { s with loadSession }

end AcpSessionParams

end Build

/-- Where the holder of `session_lock` is. `asked` is the id that a resume asked for. -/
inductive Opening where
  | closed
  | newSession
  | resumeSession (asked : String)
  | loadSession (asked : String) (preloadedMode : Option String)
  | planning (asked : Option String) (sid : String)
  | reconciling (asked : Option String) (sid : String) (actions : List ReconcileAction)
      (executed : ℕ)
  | calling (asked : Option String) (sid : String) (action : ReconcileAction) (value : String)
      (actions : List ReconcileAction) (executed : ℕ)
  | ready (asked : Option String) (sid : String)
  deriving DecidableEq

/-- A call of `set_config_option_confirmed_inner` that awaits the CLI, or its confirmation. -/
structure ConfigCall where
  sid : String
  path : ConfigSetPath
  optionId : String
  value : String
  acked : Bool

/-- `ensure_session_opened` returns `Ok(sid)`: the session that the CLI opened or loaded last, the
aggregate, and the id that was returned before, if there was one. -/
structure OpenReturn where
  sid : String
  latest : Option String
  stored : Option String
  opened : Bool
  promised : Option String
  deriving DecidableEq

/-- The id that `set_config_option` or `cancel` uses, and the one that was returned before. -/
structure SessionUse where
  sid : Option String
  promised : Option String

/-- `latest` is the session that the CLI opened or loaded last; one that was persisted counts until
then. `promised` is the id last returned. -/
structure SessionWorld where
  params : AcpSessionParams
  session : AcpSession
  connected : Bool
  opening : Opening
  configCall : Option ConfigCall
  latest : Option String
  promised : Option String
  returns : List OpenReturn
  uses : List SessionUse

inductive SessionStep where
  | ensure
  | replyNew (reply : Except AcpError NewSessionResponse)
  | replyLoad (reply : Except AcpError SessionReport)
  | plan (order : IterOrder (String × String))
  | next
  | replyAction (reply : Except AcpError (List SessionConfigOption))
      (order : IterOrder (String × String))
  | mark
  | abandon
  | connection (up : Bool)
  | notify (notice : SessionNotice)
  | setConfigOption (optionId value : String)
  | replyConfig (reply : Except AcpError (List SessionConfigOption))
  | confirmConfig (timedOut : Bool)
  | cancel

def maxReconcileActions : ℕ := 8

namespace SessionWorld

/-- A manager that was just built, with the session id that was persisted. -/
def build (params : AcpSessionParams) (loadSession : Bool) (persisted : Option String) :
    SessionWorld :=
  let session := params.session loadSession
  { params
    session := match persisted with
      | none => session
      | some sid => session.setSessionId sid
    connected := true, opening := .closed, configCall := none, latest := persisted
    promised := none, returns := [], uses := [] }

variable (w : SessionWorld)

def modeNormalizer : String → List String → String :=
  normalizeRequestedModeForAvailableValues w.params.metadata

section Opening

/-- `open_session_resume` up to its call, if it makes one. -/
def openSessionResume (sid : String) : SessionWorld :=
  if w.params.metadata.sessionLoadViaMetaField then { w with opening := .resumeSession sid }
  else if w.session.loadSession then
    { w with opening := .loadSession sid (w.session.advertised.mode.map SessionCatalog.current) }
  else
    -- the legacy path: nothing is opened
    { w with session := w.session.setSessionId sid, opening := .planning (some sid) sid }

def ensureSessionOpened : SessionWorld :=
  if w.connected then
    match w.session.sessionId with
    | none => { w with opening := .newSession }
    | some sid =>
      if w.session.opened then { w with opening := .ready none sid } else w.openSessionResume sid
  else w

/-- `rebuild_after_session_not_found`, up to its call. -/
def rebuildAfterSessionNotFound : SessionWorld :=
  { w with session := w.session.clearSessionId, opening := .newSession }

def sessionOpened (asked : Option String) (report : SessionReport) (sid : String) : SessionWorld :=
  { w with
    session := (w.session.applyReport report).setSessionId sid
    latest := some sid
    opening := .planning asked sid }

def replyNewSession (reply : Except AcpError NewSessionResponse) : SessionWorld :=
  match w.opening with
  | .newSession =>
    match reply with
    | .error _ => { w with opening := .closed }
    | .ok response => w.sessionOpened none response.toSessionReport response.sessionId
  | .resumeSession asked =>
    match reply with
    | .error err =>
      if isMissingResumedSession err asked then w.rebuildAfterSessionNotFound
      else { w with opening := .closed }
    | .ok response => w.sessionOpened (some asked) response.toSessionReport response.sessionId
  | _ => w

def replyLoadSession (reply : Except AcpError SessionReport) : SessionWorld :=
  match w.opening with
  | .loadSession asked preloadedMode =>
    match reply with
    | .error err =>
      if isAcpSessionNotFound err then w.rebuildAfterSessionNotFound
      else { w with opening := .closed }
    | .ok report => w.sessionOpened (some asked) (report.withMode preloadedMode) asked
  | _ => w

def prepared : AcpSession :=
  ((w.session.resolvePendingStartupConfigSeeds w.modeNormalizer).clearInvalidDesired
    .mode).clearInvalidDesired .model

def planActions (order : IterOrder (String × String)) : SessionWorld :=
  match w.opening with
  | .planning asked sid =>
    { w with
      session := w.prepared
      opening := .reconciling asked sid (w.prepared.planReconcile order) 0 }
  | _ => w

def selectableMode (mode : String) : String :=
  w.modeNormalizer mode (ConfigSnapshot.selectableValues w.session.configSnapshot "mode")

def resolvedValue : ReconcileAction → String
  | .setMode mode => w.selectableMode mode
  | .setModel model => model
  | .setConfigOption key value => if key = "mode" then w.selectableMode value else trim value

def keepResolved (action : ReconcileAction) : AcpSession :=
  match action with
  | .setConfigOption key value =>
    if key = "mode" ∧ w.resolvedValue action ≠ value then
      w.session.setDesiredConfig key (w.resolvedValue action)
    else w.session
  | _ => w.session

def nextAction : SessionWorld :=
  match w.opening with
  | .reconciling asked sid [] _ => { w with opening := .ready asked sid }
  | .reconciling asked sid (action :: actions) executed =>
    if maxReconcileActions < executed + 1 then { w with opening := .ready asked sid }
    else if action.setsMode ∧ w.resolvedValue action = "" then
      { w with opening := .reconciling asked sid actions (executed + 1) }
    else
      { w with
        session := w.keepResolved action
        opening := .calling asked sid action (w.resolvedValue action) actions (executed + 1) }
  | _ => w

def planFollowup (asked : Option String) (sid : String) (executedAction : ReconcileAction)
    (executed : ℕ) (options : List SessionConfigOption) (order : IterOrder (String × String)) :
    SessionWorld :=
  let applied := { w with session := w.session.applyAdvertisedConfigOptions options }
  { applied with
    session := applied.prepared
    opening := .reconciling asked sid
      ((applied.prepared.planReconcile order).filter (· ≠ executedAction)) executed }

def replyToAction (reply : Except AcpError (List SessionConfigOption))
    (order : IterOrder (String × String)) : SessionWorld :=
  match w.opening with
  | .calling asked sid action _ actions executed =>
    match reply with
    | .error err =>
      if isAcpSessionNotFound err then
        match asked with
        | none => { w with opening := .closed }
        | some _ => w.rebuildAfterSessionNotFound
      else { w with opening := .reconciling asked sid actions executed }
    | .ok options =>
      match action with
      | .setConfigOption .. => w.planFollowup asked sid action executed options order
      | _ => { w with opening := .reconciling asked sid actions executed }
  | _ => w

/-- `mark_session_opened_after_protocol_ready`, and the return. -/
def markOpened : SessionWorld :=
  match w.opening with
  | .ready _ sid =>
    if w.connected then
      { w with
        session := w.session.markOpened
        opening := .closed
        promised := some sid
        returns := w.returns ++ [⟨sid, w.latest, w.session.sessionId, true, w.promised⟩] }
    else { w with opening := .closed }
  | _ => w

end Opening

section Uses

def use (sid : Option String) : SessionWorld :=
  { w with uses := w.uses ++ [⟨sid, w.promised⟩] }

/-- `normalize_config_option_request_value`. -/
def requestValue (optionId value : String) : String :=
  if optionId = "mode" then w.selectableMode (trim value) else trim value

/-- `set_config_option_confirmed`, up to the call to the CLI. -/
def setConfigOption (optionId value : String) : SessionWorld :=
  let optionId := trim optionId
  let value := trim value
  if optionId = "" ∨ value = "" ∨ w.session.configSetInFlight ∨ !w.connected then w
  else
    let resolved := w.requestValue optionId value
    match resolveSetPath w.session.configSnapshot optionId resolved, w.session.sessionId with
    | .ok path, some sid =>
      let s := { w.session with configSetInFlight := true }
      { w.use (some sid) with
        session := s, configCall := some ⟨sid, path, optionId, resolved, false⟩ }
    | _, _ => w

def endConfigSet : SessionWorld :=
  { w with session := { w.session with configSetInFlight := false }, configCall := none }

def replyConfigOption (reply : Except AcpError (List SessionConfigOption)) : SessionWorld :=
  match w.configCall with
  | none => w
  | some call =>
    match reply with
    | .error _ => w.endConfigSet
    | .ok options =>
      if w.session.sessionId ≠ some call.sid then w.endConfigSet
      else
        match call.path with
        | .configOption _ =>
          { w with
            session := w.session.applyAdvertisedConfigOptions options
            configCall := some { call with acked := true } }
        | .legacyMode => { w with session := w.session.confirm .mode call.value }.endConfigSet
        | .legacyModel => { w with session := w.session.confirm .model call.value }.endConfigSet

end Uses

def admits : SessionStep → Prop
  | .ensure => w.opening = .closed
  | .replyConfig _ => ∃ call, w.configCall = some call ∧ call.acked = false
  | .confirmConfig timedOut => ∃ call, w.configCall = some call ∧ call.acked = true ∧
      (timedOut = true ∨
        ConfigSnapshot.observedMatches w.session.configSnapshot call.optionId call.value = true)
  | _ => True

def fire : SessionStep → SessionWorld
  | .ensure => w.ensureSessionOpened
  | .replyNew reply => w.replyNewSession reply
  | .replyLoad reply => w.replyLoadSession reply
  | .plan order => w.planActions order
  | .next => w.nextAction
  | .replyAction reply order => w.replyToAction reply order
  | .mark => w.markOpened
  | .abandon => { w with opening := .closed }
  | .connection up => { w with connected := up }
  | .notify notice => { w with session := w.session.applyNotice notice }
  | .setConfigOption optionId value => w.setConfigOption optionId value
  | .replyConfig reply => w.replyConfigOption reply
  | .confirmConfig _ => w.endConfigSet
  | .cancel => w.use w.session.sessionId

end SessionWorld

/-- A manager and its CLI, over any run. -/
def sessionMachine : Machine SessionWorld SessionStep where
  start w := ∃ params loadSession persisted, w = .build params loadSession persisted
  admits := SessionWorld.admits
  fire := SessionWorld.fire

end AionCore.Agent
