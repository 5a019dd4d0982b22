import AionCore.Agent.AcpConfig

/-!
# ACP sessions: the aggregate

`AcpSession` of `session.rs`: what the user wants, what was observed of the CLI and what it
advertises. Of a hash map the order of iteration is an input of the function that iterates.
-/

namespace AionCore.Agent

open AionCore.Conversation (trim)

structure PendingStartupConfigSeed where
  category : SessionConfigOptionCategory
  value : String
  deriving DecidableEq

/-- `PersistedSessionState`, without the context usage. -/
structure PersistedSessionState where
  current : PerSetting (Option String)
  configSelections : Dict String String

inductive ReconcileAction where
  | setMode (mode : String)
  | setModel (model : String)
  | setConfigOption (key value : String)
  deriving DecidableEq

def ReconcileAction.ofSetting : Setting → String → ReconcileAction
  | .mode => .setMode
  | .model => .setModel

def ReconcileAction.setsMode : ReconcileAction → Bool
  | .setMode _ => true
  | _ => false

/-- The fields of `Desired`, `Observed` and `Advertised` are side by side: `desired`,
`configSelections` and `pendingStartupConfig`, `observed` and `configCurrent`, then the rest. -/
structure AcpSession where
  sessionId : Option String
  opened : Bool
  desired : PerSetting (Option String)
  configSelections : Dict String String
  pendingStartupConfig : List PendingStartupConfigSeed
  observed : PerSetting (Option String)
  configCurrent : Dict String String
  advertised : PerSetting (Option SessionCatalog)
  configOptions : Option (List SessionConfigOption)
  loadSession : Bool
  configSetInFlight : Bool

namespace AcpSession

def new (initial : PerSetting (Option String)) (configSelections : Dict String String) :
    AcpSession :=
  { sessionId := none, opened := false, desired := initial, configSelections
    pendingStartupConfig := [], observed := ⟨none, none⟩, configCurrent := ∅
    advertised := ⟨none, none⟩, configOptions := none, loadSession := false
    configSetInFlight := false }

variable (s : AcpSession)

section SessionId

def setSessionId (sid : String) : AcpSession :=
  match s.sessionId with
  | some _ => s
  | none => { s with sessionId := some sid }

def clearSessionId : AcpSession := { s with sessionId := none, opened := false }

def markOpened : AcpSession := { s with opened := true }

end SessionId

section Desired

/-- `is_mode_valid` and `is_model_valid`. -/
def isValid (x : Setting) (id : String) : Bool :=
  match s.advertised.get x with
  | none => true
  | some catalog => catalog.available = [] ∨ id ∈ catalog.available

/-- `clear_invalid_desired_mode` and `clear_invalid_desired_model`. -/
def clearInvalidDesired (x : Setting) : AcpSession :=
  match s.desired.get x with
  | none => s
  | some id => if s.isValid x id then s else { s with desired := s.desired.set none x }

def setDesiredConfig (key value : String) : AcpSession :=
  { s with configSelections := s.configSelections.insert key value }

def seedPendingStartupConfig (category : SessionConfigOptionCategory) (value : String) :
    AcpSession :=
  if value = "" ∨ ⟨category, value⟩ ∈ s.pendingStartupConfig then s
  else { s with pendingStartupConfig := s.pendingStartupConfig ++ [⟨category, value⟩] }

def clearLegacyDesiredForConfigCategory : SessionConfigOptionCategory → AcpSession
  | .mode => { s with desired := s.desired.set none .mode }
  | .model => { s with desired := s.desired.set none .model }
  | _ => s

def handleUnresolvedStartupConfigSeed (seed : PendingStartupConfigSeed)
    (optionWasAdvertised : Bool) : AcpSession :=
  match seed.category with
  | .mode | .model =>
    if optionWasAdvertised then s.clearLegacyDesiredForConfigCategory seed.category else s
  | .thoughtLevel =>
    if optionWasAdvertised then s else s.seedPendingStartupConfig seed.category seed.value
  | .other _ => s

def configOptionAliasesForCategory : SessionConfigOptionCategory → List String
  | .mode => ["mode", "modes"]
  | .model => ["model", "models"]
  | .thoughtLevel => ["thought_level", "reasoning_effort", "effort", "thinking_budget", "thinking"]
  | .other _ => []

def selectOptionForStartupSeed (options : List SessionConfigOption)
    (category : SessionConfigOptionCategory) : Option SessionConfigOption :=
  (options.find? fun option => option.category = some category).or
    (options.find? fun option => option.id ∈ configOptionAliasesForCategory category)

def resolvedSeedValue (modeNormalizer : String → List String → String)
    (seed : PendingStartupConfigSeed) (option : SessionConfigOption) : String :=
  if seed.category = .mode then modeNormalizer seed.value option.kind.values else seed.value

/-- One seed of `resolve_pending_startup_config_seeds_with_mode_normalizer`. -/
def resolveStartupConfigSeed (modeNormalizer : String → List String → String)
    (seed : PendingStartupConfigSeed) : AcpSession :=
  match s.configOptions.bind (selectOptionForStartupSeed · seed.category) with
  | none => s.handleUnresolvedStartupConfigSeed seed false
  | some option =>
    let resolved := resolvedSeedValue modeNormalizer seed option
    if resolved ∈ option.kind.values then
      (s.clearLegacyDesiredForConfigCategory seed.category).setDesiredConfig option.id resolved
    else s.handleUnresolvedStartupConfigSeed seed true

def resolvePendingStartupConfigSeeds (modeNormalizer : String → List String → String) :
    AcpSession :=
  s.pendingStartupConfig.foldl (fun s seed => s.resolveStartupConfigSeed modeNormalizer seed)
    { s with pendingStartupConfig := [] }

end Desired

section Observed

/-- `apply_observed_mode` and `apply_observed_model`. -/
def applyObserved (x : Setting) (id : String) : AcpSession :=
  let available := ((s.advertised.get x).map SessionCatalog.available).getD []
  { s with
    observed := s.observed.set (some id) x
    advertised := s.advertised.set (some ⟨id, available⟩) x }

/-- `confirm_mode` and `confirm_model`. -/
def confirm (x : Setting) (id : String) : AcpSession :=
  applyObserved { s with desired := s.desired.set (some id) x } x id

/-- `preserve_existing_mode_catalog_if_empty` and its like: an empty catalog leaves the known one. -/
def preserveExistingCatalogIfEmpty (x : Setting) (catalog : SessionCatalog) : SessionCatalog :=
  if catalog.available = [] then
    { catalog with available := ((s.advertised.get x).map SessionCatalog.available).getD [] }
  else catalog

/-- `apply_advertised_modes` and `apply_advertised_models`. -/
def applyAdvertised (x : Setting) (catalog : SessionCatalog) : AcpSession :=
  { s with
    observed := s.observed.set (some catalog.current) x
    advertised := s.advertised.set (some (s.preserveExistingCatalogIfEmpty x catalog)) x }

def preserveDesiredModelInCatalog (models : SessionCatalog) : SessionCatalog :=
  match s.desired.model with
  | none => models
  | some model => if model ∈ models.available then { models with current := model } else models

def observeConfigOptions (options : List SessionConfigOption) : AcpSession :=
  let observe (current : Dict String String) (option : SessionConfigOption) :=
    match option.kind.selection with
    | none => current
    | some select => current.insert option.id select.currentValue
  { s with configCurrent := options.foldl observe s.configCurrent }

def applyDerivedModes (options : List SessionConfigOption) : AcpSession :=
  match deriveModesFromConfigOptions options with
  | none => s
  | some modes => s.applyAdvertised .mode modes

def applyDerivedModels (options : List SessionConfigOption) : AcpSession :=
  match deriveModelsFromConfigOptions options with
  | none => s
  | some models => s.applyAdvertised .model (s.preserveDesiredModelInCatalog models)

def applyAdvertisedConfigOptions (incoming : List SessionConfigOption) : AcpSession :=
  let options := mergeConfigOptions s.configOptions incoming
  { ((s.applyDerivedModes options).applyDerivedModels options).observeConfigOptions options with
    configOptions := some options }

/-- The mode or the model of the snapshot, as `preload_persisted` takes it over. -/
def preload (x : Setting) (id : Option String) : AcpSession :=
  match id with
  | none => s
  | some id => s.applyObserved x id

def preloadPersisted (state : PersistedSessionState) : AcpSession :=
  let s := (s.preload .mode state.current.mode).preload .model state.current.model
  if state.configSelections.entries = [] then s
  else { s with configCurrent := state.configSelections }

/-- `mode_catalog_with_session_current` and its like. -/
def catalogWithSessionCurrent (x : Setting) (catalog : SessionCatalog) : SessionCatalog :=
  match (s.observed.get x).or (s.desired.get x) with
  | none => catalog
  | some id => if id ∈ catalog.available then { catalog with current := id } else catalog

def preloadAdvertisedCatalog (x : Setting) : Option SessionCatalog → AcpSession
  | none => s
  | some catalog =>
    if catalog.available ≠ [] ∧ (s.advertised.get x).all fun known => known.available = [] then
      { s with advertised := s.advertised.set (some (s.catalogWithSessionCurrent x catalog)) x }
    else s

def preloadAdvertisedCatalogs (catalogs : PerSetting (Option SessionCatalog)) : AcpSession :=
  (s.preloadAdvertisedCatalog .mode catalogs.mode).preloadAdvertisedCatalog .model catalogs.model

def configSnapshot : ConfigSnapshot :=
  match s.configOptions with
  | some options =>
    ConfigSnapshot.fromRealOptionsWithRuntimeSupplements options s.advertised.mode
      s.advertised.model
  | none => ConfigSnapshot.fromLegacyCatalogs s.advertised.mode s.advertised.model

end Observed

section Reconcile

def planSetting (x : Setting) : List ReconcileAction :=
  match s.desired.get x with
  | none => []
  | some id => if s.observed.get x = some id then [] else [.ofSetting x id]

def planConfig (entry : String × String) : Option ReconcileAction :=
  if s.configCurrent.lookup entry.1 = some entry.2 then none
  else some (.setConfigOption entry.1 entry.2)

def planReconcile (order : IterOrder (String × String)) : List ReconcileAction :=
  s.planSetting .mode ++ s.planSetting .model ++
    (order.arrange (s.configSelections.entries.map fun e => (e.1, e.2))).filterMap s.planConfig

end Reconcile

section Frame

variable {s} (x : Setting)

/-- An update that leaves the id and whether the session is opened. -/
structure SameSession (s s' : AcpSession) : Prop where
  sessionId : s'.sessionId = s.sessionId
  opened : s'.opened = s.opened

theorem SameSession.refl (s : AcpSession) : s.SameSession s := ⟨rfl, rfl⟩

theorem SameSession.trans {s s' s'' : AcpSession} (h : s.SameSession s') (h' : s'.SameSession s'') :
    s.SameSession s'' :=
  ⟨h'.sessionId.trans h.sessionId, h'.opened.trans h.opened⟩

theorem sameSession_clearInvalidDesired : s.SameSession (s.clearInvalidDesired x) := by
  unfold clearInvalidDesired
  cases s.desired.get x with
  | none => exact .refl s
  | some id =>
    by_cases h : s.isValid x id = true
    · simpa [h] using SameSession.refl s
    · simpa [h] using (⟨rfl, rfl⟩ : s.SameSession { s with desired := s.desired.set none x })

theorem sameSession_seedPendingStartupConfig (category : SessionConfigOptionCategory)
    (value : String) : s.SameSession (s.seedPendingStartupConfig category value) := by
  unfold seedPendingStartupConfig
  split
  · exact .refl s
  · exact ⟨rfl, rfl⟩

theorem sameSession_clearLegacyDesired (category : SessionConfigOptionCategory) :
    s.SameSession (s.clearLegacyDesiredForConfigCategory category) := by
  cases category <;> exact ⟨rfl, rfl⟩

theorem sameSession_handleUnresolved (seed : PendingStartupConfigSeed) (advertised : Bool) :
    s.SameSession (s.handleUnresolvedStartupConfigSeed seed advertised) := by
  obtain ⟨category, value⟩ := seed
  cases category with
  | mode => cases advertised <;> exact ⟨rfl, rfl⟩
  | model => cases advertised <;> exact ⟨rfl, rfl⟩
  | thoughtLevel =>
    cases advertised with
    | true => exact .refl s
    | false => exact sameSession_seedPendingStartupConfig .thoughtLevel value
  | other name => exact .refl s

theorem sameSession_resolveStartupConfigSeed (modeNormalizer : String → List String → String)
    (seed : PendingStartupConfigSeed) :
    s.SameSession (s.resolveStartupConfigSeed modeNormalizer seed) := by
  unfold resolveStartupConfigSeed
  cases s.configOptions.bind (selectOptionForStartupSeed · seed.category) with
  | none => exact sameSession_handleUnresolved seed false
  | some option =>
    simp only
    split
    · exact (sameSession_clearLegacyDesired seed.category).trans ⟨rfl, rfl⟩
    · exact sameSession_handleUnresolved seed true

theorem sameSession_resolvePendingStartupConfigSeeds
    (modeNormalizer : String → List String → String) :
    s.SameSession (s.resolvePendingStartupConfigSeeds modeNormalizer) := by
  unfold resolvePendingStartupConfigSeeds
  have fold : ∀ (seeds : List PendingStartupConfigSeed) (t : AcpSession), s.SameSession t →
      s.SameSession (seeds.foldl (fun s seed => s.resolveStartupConfigSeed modeNormalizer seed)
        t) := by
    intro seeds
    induction seeds with
    | nil => exact fun _ h => h
    | cons seed seeds ih =>
      exact fun t h => ih _ (h.trans (sameSession_resolveStartupConfigSeed modeNormalizer seed))
  exact fold _ _ ⟨rfl, rfl⟩

theorem sameSession_applyDerivedModes (options : List SessionConfigOption) :
    s.SameSession (s.applyDerivedModes options) := by
  unfold applyDerivedModes
  split
  · exact .refl s
  · exact ⟨rfl, rfl⟩

theorem sameSession_applyDerivedModels (options : List SessionConfigOption) :
    s.SameSession (s.applyDerivedModels options) := by
  unfold applyDerivedModels
  split
  · exact .refl s
  · exact ⟨rfl, rfl⟩

theorem sameSession_applyAdvertisedConfigOptions (incoming : List SessionConfigOption) :
    s.SameSession (s.applyAdvertisedConfigOptions incoming) := by
  let options := mergeConfigOptions s.configOptions incoming
  have modes : s.SameSession (s.applyDerivedModes options) := sameSession_applyDerivedModes options
  have models := modes.trans (sameSession_applyDerivedModels options)
  exact models.trans ⟨rfl, rfl⟩

theorem sameSession_preload (id : Option String) : s.SameSession (s.preload x id) := by
  cases id <;> exact ⟨rfl, rfl⟩

theorem sameSession_preloadPersisted (state : PersistedSessionState) :
    s.SameSession (s.preloadPersisted state) := by
  have settings : s.SameSession
      ((s.preload .mode state.current.mode).preload .model state.current.model) :=
    (sameSession_preload .mode _).trans (sameSession_preload .model _)
  unfold preloadPersisted
  simp only
  split
  · exact settings
  · exact settings.trans ⟨rfl, rfl⟩

theorem sameSession_preloadAdvertisedCatalog (catalog : Option SessionCatalog) :
    s.SameSession (s.preloadAdvertisedCatalog x catalog) := by
  unfold preloadAdvertisedCatalog
  split
  · exact .refl s
  · split
    · exact ⟨rfl, rfl⟩
    · exact .refl s

theorem sameSession_preloadAdvertisedCatalogs (catalogs : PerSetting (Option SessionCatalog)) :
    s.SameSession (s.preloadAdvertisedCatalogs catalogs) :=
  (sameSession_preloadAdvertisedCatalog .mode _).trans
    (sameSession_preloadAdvertisedCatalog .model _)

end Frame

end AcpSession

end AionCore.Agent
