import AionCore.Conversation.StreamRelay

/-!
# ACP sessions: configuration options and modes

What a CLI advertises: catalogs of modes and models, and configuration options. The definitions of
`config_option_catalog.rs`, `config_options.rs` and `mode_normalize.rs` that a session uses.
-/

namespace AionCore.Agent

open AionCore.Conversation (trim)

/-- What is kept twice, for the mode and for the model. -/
inductive Setting where
  | mode
  | model
  deriving DecidableEq

structure PerSetting (α : Type*) where
  mode : α
  model : α
  deriving DecidableEq

namespace PerSetting

variable {α : Type*} (p : PerSetting α)

def get : Setting → α
  | .mode => p.mode
  | .model => p.model

def set (a : α) : Setting → PerSetting α
  | .mode => { p with mode := a }
  | .model => { p with model := a }

@[simp] theorem get_set (a : α) (x y : Setting) :
    (p.set a x).get y = if y = x then a else p.get y := by
  cases x <;> cases y <;> rfl

end PerSetting

/-- `SessionModeState` and `SessionModelState`. -/
structure SessionCatalog where
  current : String
  available : List String

inductive SessionConfigOptionCategory where
  | mode
  | model
  | thoughtLevel
  | other (name : String)
  deriving DecidableEq

/-- `Setting`s are categories of options as well. -/
def Setting.category : Setting → SessionConfigOptionCategory
  | .mode => .mode
  | .model => .model

/-- `SessionConfigSelectOptions`, by the values. -/
inductive SessionConfigSelectOptions where
  | ungrouped (options : List String)
  | grouped (groups : List (List String))
  deriving DecidableEq

/-- `flatten_select_options`. -/
def SessionConfigSelectOptions.flatten : SessionConfigSelectOptions → List String
  | .ungrouped options => options
  | .grouped groups => groups.flatten

structure SessionConfigSelect where
  currentValue : String
  options : SessionConfigSelectOptions
  deriving DecidableEq

/-- `SessionConfigKind`; a kind that is no selection is never read. -/
inductive SessionConfigKind where
  | select (select : SessionConfigSelect)
  | other
  deriving DecidableEq

/-- `select_from_kind`. -/
def SessionConfigKind.selection : SessionConfigKind → Option SessionConfigSelect
  | .select s => some s
  | .other => none

/-- `select_option_values`. -/
def SessionConfigKind.values (kind : SessionConfigKind) : List String :=
  (kind.selection.map fun s => s.options.flatten).getD []

structure SessionConfigOption where
  id : String
  category : Option SessionConfigOptionCategory
  kind : SessionConfigKind
  deriving DecidableEq

section Catalog

/-- `find_select`: by the category, then by the id. -/
def findSelect (options : List SessionConfigOption) (ids : List String)
    (category : SessionConfigOptionCategory) : Option SessionConfigSelect :=
  (options.findSome? fun option =>
    if option.category = some category then option.kind.selection else none).or
  (options.findSome? fun option => if option.id ∈ ids then option.kind.selection else none)

def nonEmptyOrFirst (current first : String) : String := if current = "" then first else current

/-- `derive_modes_from_config_options` and `derive_models_from_config_options`. -/
def deriveFromConfigOptions (ids : List String) (category : SessionConfigOptionCategory)
    (options : List SessionConfigOption) : Option SessionCatalog :=
  match findSelect options ids category with
  | none => none
  | some select =>
    match select.options.flatten with
    | [] => none
    | first :: rest => some ⟨nonEmptyOrFirst select.currentValue first, first :: rest⟩

def deriveModesFromConfigOptions : List SessionConfigOption → Option SessionCatalog :=
  deriveFromConfigOptions ["mode", "modes"] .mode

def deriveModelsFromConfigOptions : List SessionConfigOption → Option SessionCatalog :=
  deriveFromConfigOptions ["model", "models"] .model

def mergeConfigOption : List SessionConfigOption → SessionConfigOption → List SessionConfigOption
  | [], option => [option]
  | existing :: rest, option =>
    if existing.id = option.id then option :: rest
    else existing :: mergeConfigOption rest option

def mergeConfigOptions (existing : Option (List SessionConfigOption))
    (incoming : List SessionConfigOption) : List SessionConfigOption :=
  match existing with
  | none => incoming
  | some existing => incoming.foldl mergeConfigOption existing

end Catalog

section Snapshot

inductive ConfigOptionOrigin where
  | real
  | syntheticLegacyMode
  | syntheticLegacyModel

/-- An `AcpConfigOptionDto` with its origin. -/
structure ConfigSnapshotOption where
  id : String
  currentValue : Option String
  options : List String
  origin : ConfigOptionOrigin

abbrev ConfigSnapshot := List ConfigSnapshotOption

/-- `dto_from_sdk_option`. -/
def SessionConfigOption.dto (option : SessionConfigOption) : ConfigSnapshotOption :=
  ⟨option.id, option.kind.selection.map SessionConfigSelect.currentValue, option.kind.values, .real⟩

/-- `dto_from_modes`. -/
def dtoFromModes (modes : SessionCatalog) : ConfigSnapshotOption :=
  ⟨"mode", some modes.current, modes.available, .syntheticLegacyMode⟩

/-- `dto_from_models`. -/
def dtoFromModels (models : SessionCatalog) : ConfigSnapshotOption :=
  ⟨"model", some models.current, models.available, .syntheticLegacyModel⟩

namespace ConfigSnapshot

def fromLegacyCatalogs (modes models : Option SessionCatalog) : ConfigSnapshot :=
  (modes.map dtoFromModes).toList ++ (models.map dtoFromModels).toList

/-- `supplement_summary_for_real_options`, for one of the two categories. -/
def supplements (options : List SessionConfigOption) (category : SessionConfigOptionCategory)
    (id : String) (catalog : Option SessionCatalog) : Bool :=
  !(options.any fun option => option.category = some category ∨ option.id = id) &&
    catalog.any fun c => c.available ≠ []

def fromRealOptionsWithRuntimeSupplements (options : List SessionConfigOption)
    (modes models : Option SessionCatalog) : ConfigSnapshot :=
  options.map SessionConfigOption.dto ++
    (if supplements options .mode "mode" modes then (modes.map dtoFromModes).toList else []) ++
    (if supplements options .model "model" models then (models.map dtoFromModels).toList else [])

variable (snapshot : ConfigSnapshot)

def option (optionId : String) : Option ConfigSnapshotOption :=
  snapshot.find? fun option => option.id = optionId

def selectableValues (optionId : String) : List String :=
  ((ConfigSnapshot.option snapshot optionId).map ConfigSnapshotOption.options).getD []

def observedMatches (optionId requested : String) : Bool :=
  (ConfigSnapshot.option snapshot optionId).bind ConfigSnapshotOption.currentValue = some requested

end ConfigSnapshot

inductive ConfigSetPath where
  | configOption (optionId : String)
  | legacyMode
  | legacyModel

inductive ConfigSetPathError where
  | optionNotFound
  | valueNotSelectable

def resolveSetPath (snapshot : ConfigSnapshot) (optionId requested : String) :
    Except ConfigSetPathError ConfigSetPath :=
  match ConfigSnapshot.option snapshot optionId with
  | none => .error .optionNotFound
  | some option =>
    if option.options ≠ [] ∧ requested ∉ option.options then .error .valueNotSelectable
    else
      match option.origin with
      | .real => .ok (.configOption option.id)
      | .syntheticLegacyMode => .ok .legacyMode
      | .syntheticLegacyModel => .ok .legacyModel

end Snapshot

/-- What the session uses of `AgentMetadata`. -/
structure AgentMetadata where
  backend : Option String
  yoloId : Option String
  /-- `behavior_policy.session_load_via_meta_field`. -/
  sessionLoadViaMetaField : Bool
  /-- The catalogs of the handshake, read by `extract_modes_from_value` and its like. -/
  handshake : PerSetting (Option SessionCatalog)

section Normalization

def codexCanonicalFullAccessMode : String := "agent-full-access"

def codexLegacyFullAccessMode : String := "full-access"

def isCodexFullAccessSemanticValue (mode : String) : Bool :=
  mode ∈ [codexCanonicalFullAccessMode, codexLegacyFullAccessMode, "yolo", "yoloNoSandbox"]

variable (metadata : AgentMetadata) (mode : String)

def AgentMetadata.isCodex : Bool := metadata.backend = some "codex"

def normalizeRequestedMode : String :=
  let trimmed := trim mode
  if trimmed = "" then ""
  else if metadata.isCodex ∧ isCodexFullAccessSemanticValue trimmed then
    metadata.yoloId.getD codexCanonicalFullAccessMode
  else if trimmed ∈ ["yolo", "yoloNoSandbox"] ∧ metadata.yoloId.isSome then
    metadata.yoloId.getD trimmed
  else if metadata.isCodex ∧ trimmed ∈ ["default", "autoEdit"] then "auto"
  else trimmed

def normalizeRequestedModeForAvailableValues (availableValues : List String) : String :=
  let trimmed := trim mode
  if metadata.isCodex ∧ isCodexFullAccessSemanticValue trimmed then
    if codexCanonicalFullAccessMode ∈ availableValues then codexCanonicalFullAccessMode
    else if codexLegacyFullAccessMode ∈ availableValues then codexLegacyFullAccessMode
    else normalizeRequestedMode metadata mode
  else normalizeRequestedMode metadata mode

end Normalization

end AionCore.Agent
