import AionCore.Cron.JobRecords
import AionCore.Lib.Table

/-!
# Cron: what an update of a job stores

`update_job` and `get_job` on all the data of a job: the job that is edited in memory, the columns
that are set for it and the job that is read afterwards. The agents' metadata, the file system and
the crates are parameters.
-/

namespace AionCore.Cron.Records

open AionCore.Team (TimestampMs trim)

/-- The schedule of a request; its numbers are `i64`s. -/
abbrev CronScheduleDto := { schedule : CronSchedule // schedule.Fits }

structure CronAgentConfigWriteDto where
  name : String
  cliPath : Option String
  assistantId : Option String
  mode : Option String
  modelId : Option String
  model : Option ProviderWithModel
  configOptions : Option StringMap
  workspace : Option String

structure UpdateCronJobRequest where
  name : Option String
  description : Option String
  enabled : Option Bool
  schedule : Option CronScheduleDto
  message : Option String
  executionMode : Option String
  agentConfig : Option CronAgentConfigWriteDto
  conversationTitle : Option String
  maxRetries : Option Int
  queueEnabled : Option Bool

structure UpdateCronJobParams where
  name : Option String := none
  enabled : Option Bool := none
  scheduleKind : Option String := none
  scheduleValue : Option String := none
  scheduleTz : Option (Option String) := none
  scheduleDescription : Option (Option String) := none
  payloadMessage : Option String := none
  executionMode : Option String := none
  agentConfig : Option (Option JsonValue) := none
  conversationId : Option String := none
  conversationTitle : Option (Option String) := none
  skillContent : Option (Option String) := none
  description : Option (Option String) := none
  nextRunAt : Option (Option TimestampMs) := none
  lastRunAt : Option (Option TimestampMs) := none
  lastStatus : Option (Option String) := none
  lastError : Option (Option String) := none
  runCount : Option Int := none
  retryCount : Option Int := none
  queueEnabled : Option Bool := none

/-- The columns that are set. -/
def UpdateCronJobParams.setParts (params : UpdateCronJobParams) : List String :=
  [("enabled", params.enabled.isSome), ("queue_enabled", params.queueEnabled.isSome),
    ("name", params.name.isSome), ("schedule_kind", params.scheduleKind.isSome),
    ("schedule_value", params.scheduleValue.isSome), ("schedule_tz", params.scheduleTz.isSome),
    ("schedule_description", params.scheduleDescription.isSome),
    ("payload_message", params.payloadMessage.isSome),
    ("execution_mode", params.executionMode.isSome), ("agent_config", params.agentConfig.isSome),
    ("conversation_id", params.conversationId.isSome),
    ("conversation_title", params.conversationTitle.isSome),
    ("skill_content", params.skillContent.isSome), ("description", params.description.isSome),
    ("next_run_at", params.nextRunAt.isSome), ("last_run_at", params.lastRunAt.isSome),
    ("last_status", params.lastStatus.isSome), ("last_error", params.lastError.isSome),
    ("run_count", params.runCount.isSome), ("retry_count", params.retryCount.isSome)].filterMap
    fun part => if part.2 then some part.1 else none

/-- A row with the columns set. -/
def CronJobRow.update (row : CronJobRow) (params : UpdateCronJobParams) (now : TimestampMs) :
    CronJobRow :=
  { row with
    name := params.name.getD row.name
    enabled := params.enabled.getD row.enabled
    scheduleKind := params.scheduleKind.getD row.scheduleKind
    scheduleValue := params.scheduleValue.getD row.scheduleValue
    scheduleTz := params.scheduleTz.getD row.scheduleTz
    scheduleDescription := params.scheduleDescription.getD row.scheduleDescription
    payloadMessage := params.payloadMessage.getD row.payloadMessage
    executionMode := params.executionMode.getD row.executionMode
    agentConfig := params.agentConfig.getD row.agentConfig
    conversationId := params.conversationId.getD row.conversationId
    conversationTitle := params.conversationTitle.getD row.conversationTitle
    skillContent := params.skillContent.getD row.skillContent
    description := params.description.getD row.description
    updatedAt := now
    nextRunAt := params.nextRunAt.getD row.nextRunAt
    lastRunAt := params.lastRunAt.getD row.lastRunAt
    lastStatus := params.lastStatus.getD row.lastStatus
    lastError := params.lastError.getD row.lastError
    runCount := params.runCount.getD row.runCount
    retryCount := params.retryCount.getD row.retryCount
    queueEnabled := params.queueEnabled.getD row.queueEnabled }

def getById (rows : List CronJobRow) (id : String) : Except CronError CronJobRow :=
  match Table.find CronJobRow.id rows id with
  | some row => .ok row
  | none => .error (.jobNotFound id)

/-- `SqliteCronRepository::update`. -/
def updateRow (rows : List CronJobRow) (id : String) (params : UpdateCronJobParams)
    (now : TimestampMs) : Except CronError (List CronJobRow) :=
  if params.setParts = [] then .ok rows
  else
    match Table.find CronJobRow.id rows id with
    | none => .error (.database ("cron job '" ++ id ++ "'"))
    | some _ => .ok (Table.modify CronJobRow.id rows id fun row => row.update params now)

variable {row : CronJobRow} {rows rows' : List CronJobRow} {id : String}
  {params : UpdateCronJobParams} {now : TimestampMs}

/-- With no column to set, a row is left as it is. -/
theorem update_of_setParts_eq_nil (h : params.setParts = []) :
    row.update params now = { row with updatedAt := now } := by
  simp only [UpdateCronJobParams.setParts, List.filterMap_eq_nil_iff, List.forall_mem_cons,
    ite_eq_right_iff, reduceCtorEq, imp_false, Bool.not_eq_true, Option.isSome_eq_false_iff,
    Option.isNone_iff_eq_none, List.not_mem_nil, false_implies, implies_true, and_true] at h
  obtain ⟨h₁, h₂, h₃, h₄, h₅, h₆, h₇, h₈, h₉, h₁₀, h₁₁, h₁₂, h₁₃, h₁₄, h₁₅, h₁₆, h₁₇, h₁₈, h₁₉, h₂₀⟩ :=
    h
  rw [CronJobRow.update, h₁, h₂, h₃, h₄, h₅, h₆, h₇, h₈, h₉, h₁₀, h₁₁, h₁₂, h₁₃, h₁₄, h₁₅, h₁₆, h₁₇,
    h₁₈, h₁₉, h₂₀]
  rfl

/-- The row with the id after an update has the columns that were set. -/
theorem find_updateRow (hrow : Table.find CronJobRow.id rows id = some row)
    (h : updateRow rows id params now = .ok rows') :
    ∃ time, Table.find CronJobRow.id rows' id = some (row.update params time) := by
  rw [updateRow] at h
  split at h
  · next hempty =>
    cases h
    exact ⟨row.updatedAt, hrow.trans (congrArg some (update_of_setParts_eq_nil hempty).symm)⟩
  · rw [hrow] at h
    cases h
    refine ⟨now, ?_⟩
    have hid : ∀ r : CronJobRow, r.id = id → (r.update params now).id = id := fun _ hr => hr
    rw [Table.find_modify hid, hrow]
    rfl

structure AssistantDefinition where
  id : String
  agentId : String

structure AssistantOverlay where
  agentIdOverride : Option String

/-- A row of `conversations`; the extra is the JSON of its text, if it is JSON. -/
structure ConversationRow where
  extra : Option JsonValue

/-- What `CronService` reads beside the jobs, none of which an update of a job writes. -/
structure CronService where
  crates : CronCrates
  /-- The definition of an assistant id. -/
  assistants : String → Option AssistantDefinition
  /-- The overlay of the id of a definition. -/
  overlays : String → Option AssistantOverlay
  /-- The `runtime_backend_for_agent_id`, which the metadata of the agents decide. -/
  runtimeBackend : String → String
  /-- The `resolve_cron_full_auto_mode` of a runtime type, an assistant id and a backend. -/
  fullAutoMode : String → String → String → String
  conversations : String → Option ConversationRow
  /-- The `auto_workspace_to_delete_for_conversation`; a failure is none. -/
  autoWorkspaceToDelete : String → Option String
  workspaceMatchesPath : String → String → Bool
  /-- The path that `validate_workspace_path_availability` fails on, if it does. -/
  unavailableWorkspace : String → Option String

def runtimeAgentTypeForBackend (backend : String) : String :=
  if backend = "aionrs" then "aionrs" else "acp"

def normalizeModel (model : Option ProviderWithModel) (runtimeAgentType : String) :
    Except CronError (Option ProviderWithModel) :=
  match model with
  | none => .ok none
  | some model =>
    let providerId := trim model.providerId
    let name := trim model.model
    let useModel := (model.useModel.map trim).filter fun value => value ≠ ""
    if runtimeAgentType = "aionrs" ∧ (providerId = "" ∨ name = "") then
      .error (.invalidAgentConfig
        "aionrs cron jobs require agent_config.model.provider_id and agent_config.model.model")
    else if providerId = "" ∨ name = "" then .ok none
    else .ok (some { providerId, model := name, useModel })

def validateAionrsAgentConfig (agentType : String) (agentConfig : Option CronAgentConfigWriteDto) :
    Except CronError Unit :=
  if agentType ≠ "aionrs" then .ok ()
  else if (agentConfig.bind fun config => config.model).any fun model =>
      trim model.providerId ≠ "" ∧ trim model.model ≠ "" then .ok ()
  else
    .error (.invalidAgentConfig
      "aionrs cron jobs require agent_config.model.provider_id and agent_config.model.model")

def parseExecutionMode (mode : Option String) : Except CronError ExecutionMode :=
  match mode with
  | none => .ok .existing
  | some s => if s = "existing" then .ok .existing else ExecutionMode.fromStr s

def sanitizeAgentConfigDto (config : CronAgentConfigWriteDto) : CronAgentConfigWriteDto :=
  { config with assistantId := (config.assistantId.map trim).filter fun value => value ≠ "" }

def validateSchedule (crates : CronCrates) (schedule : CronSchedule) : Except CronError Unit :=
  match schedule with
  | .atTime _ _ => .ok ()
  | .every everyMs _ =>
    if everyMs ≤ 0 then .error (.invalidSchedule "every_ms must be positive") else .ok ()
  | .cron expr tz _ =>
    if trim expr = "" then .ok ()
    else if crates.valid expr tz then .ok ()
    else .error (.invalidCron expr tz)

namespace CronService

variable (svc : CronService)

def effectiveAgentId (definition : AssistantDefinition) : String :=
  ((svc.overlays definition.id).bind AssistantOverlay.agentIdOverride).getD definition.agentId

def resolveAgentTypeForAssistantId (assistantId : String) : Except CronError String :=
  match svc.assistants assistantId with
  | none => .error (.assistantNotFound assistantId)
  | some definition =>
    .ok (runtimeAgentTypeForBackend (svc.runtimeBackend (svc.effectiveAgentId definition)))

def resolveNewJobAgentType (agentConfig : Option CronAgentConfigWriteDto) :
    Except CronError String :=
  match agentConfig.bind fun config => config.assistantId with
  | none => .error (.invalidAgentConfig "assistant_id is required for new cron jobs")
  | some assistantId => svc.resolveAgentTypeForAssistantId assistantId

def resolveJobAgentType (job : CronJob) : Except CronError String :=
  if trim job.agentType ≠ "" then .ok job.agentType
  else
    match (job.agentConfig.bind fun config => config.assistantId.or config.customAgentId).filter
        fun value => trim value ≠ "" with
    | none => .error (.invalidAgentConfig "assistant_id is required for cron jobs")
    | some assistantId => svc.resolveAgentTypeForAssistantId assistantId

def isTeamConversationJob (job : CronJob) : Except CronError Bool :=
  let conversationId := trim job.conversationId
  if conversationId = "" then .ok false
  else
    match svc.conversations conversationId with
    | none => .ok false
    | some row =>
      match row.extra with
      | none => .error .json
      | some extra =>
        .ok ((((extra.get "team_id").or (extra.get "teamId")).bind readString).any
          fun value => trim value ≠ "")

def resolveAssistantBackend (assistantId : String) : Option String :=
  (svc.assistants assistantId).map fun definition =>
    svc.runtimeBackend (svc.effectiveAgentId definition)

def buildCronAgentConfig (runtimeAgentType : String) (config : CronAgentConfigWriteDto) :
    Except CronError CronAgentConfig :=
  match config.assistantId.filter fun value => trim value ≠ "" with
  | none => .error (.invalidAgentConfig "assistant_id is required for cron jobs")
  | some assistantId =>
    match svc.resolveAssistantBackend assistantId with
    | none =>
      .error (.invalidAgentConfig
        ("assistant '" ++ assistantId ++ "' could not resolve a runtime backend"))
    | some backend =>
      (normalizeModel config.model runtimeAgentType).map fun model =>
        { name := config.name
          cliPath := config.cliPath
          isPreset := none
          assistantId := config.assistantId
          customAgentId := none
          mode := some (svc.fullAutoMode runtimeAgentType assistantId backend)
          modelId := config.modelId
          model
          configOptions := config.configOptions
          workspace := config.workspace }

def resolveJobWorkspaceRaw (job : CronJob) : String :=
  match job.agentConfig.bind fun config => config.workspace with
  | some workspace => workspace
  | none =>
    match svc.conversations job.conversationId with
    | none => ""
    | some row => ((row.extra.bind fun extra => extra.get "workspace").bind readString).getD ""

def validateJobWorkspace (job : CronJob) : Except CronError Unit :=
  match svc.unavailableWorkspace (svc.resolveJobWorkspaceRaw job) with
  | some path => .error (.workspacePathUnavailable path)
  | none => .ok ()

/-- The job without its workspace, and whether it had one that is to be deleted with the
conversation. -/
def clearAutoWorkspaceFromJobConfig (job : CronJob) (conversationId : String) : CronJob × Bool :=
  match job.agentConfig with
  | none => (job, false)
  | some config =>
    match config.workspace, svc.autoWorkspaceToDelete conversationId with
    | some workspace, some target =>
      if svc.workspaceMatchesPath workspace target then
        ({ job with agentConfig := some { config with workspace := none } }, true)
      else (job, false)
    | _, _ => (job, false)

def getJob (rows : List CronJobRow) (jobId : String) : Except CronError CronJob := do
  let row ← getById rows jobId
  let job ← cronJobFromRow row
  let agentType ← svc.resolveJobAgentType job
  .ok { job with agentType }

end CronService

namespace UpdateCronJobRequest

variable (req : UpdateCronJobRequest)

def Leaves (job : CronJob) : Prop :=
  job.executionMode = .existing ∧ req.executionMode = some "new_conversation"

instance (job : CronJob) : Decidable (req.Leaves job) := by unfold Leaves; infer_instance

def Unbinds (job : CronJob) : Prop := req.Leaves job ∧ trim job.conversationId ≠ ""

instance (job : CronJob) : Decidable (req.Unbinds job) := by unfold Unbinds; infer_instance

def newSchedule (existing : CronSchedule) : CronSchedule :=
  match req.schedule with
  | none => existing
  | some dto => dto.1.fromDtoWithExistingTimezone existing

end UpdateCronJobRequest

/-- The times that are read in the course of an update. -/
structure UpdateTimes where
  nextRun : TimestampMs
  updated : TimestampMs
  stored : TimestampMs

/-- The job after the edits, and what they have done beside what the request says. -/
structure JobEdit where
  job : CronJob
  clearConversationBinding : Bool
  agentConfigChanged : Bool

namespace CronService

variable (svc : CronService) (req : UpdateCronJobRequest)

def editSchedule (job : CronJob) : Except CronError CronJob :=
  match req.schedule with
  | none => .ok job
  | some dto => do
    let schedule := dto.1.fromDtoWithExistingTimezone job.schedule
    validateSchedule svc.crates schedule
    .ok { job with schedule }

def changesTeamJob (requested : ExecutionMode) (job : CronJob) : Except CronError Bool :=
  if requested ≠ job.executionMode then svc.isTeamConversationJob job else .ok false

/-- The execution mode with what a change of it clears, and whether a binding is cleared. -/
def editExecutionMode (job : CronJob) : Except CronError (CronJob × Bool) :=
  match req.executionMode with
  | none => .ok (job, false)
  | some mode => do
    let requested ← parseExecutionMode (some mode)
    let team ← svc.changesTeamJob requested job
    if team then
      .error (.invalidExecutionMode
        "Team cron jobs must keep running in their owning Team conversation")
    else if requested ≠ job.executionMode ∧ requested = .newConversation then
      .ok
        ({ job with executionMode := requested, conversationId := "", conversationTitle := none },
          trim job.conversationId ≠ "")
    else .ok ({ job with executionMode := requested }, false)

def editAgentConfig (originalExecutionMode : ExecutionMode) (job : CronJob) :
    Except CronError CronJob :=
  match req.agentConfig with
  | none => .ok job
  | some config =>
    if originalExecutionMode = .existing ∨ job.executionMode = .existing then
      .error (.invalidAgentConfig "ongoing conversation jobs must keep their original assistant")
    else do
      let config := sanitizeAgentConfigDto config
      let agentType ← svc.resolveNewJobAgentType (some config)
      validateAionrsAgentConfig agentType (some config)
      let agentConfig ← svc.buildCronAgentConfig agentType config
      .ok { job with agentType, agentConfig := some agentConfig }

/-- The fields that are set one after the other once the config is there. -/
def editRest (times : UpdateTimes) (clearConversationBinding : Bool) (job : CronJob) : CronJob :=
  { job with
    conversationTitle :=
      if clearConversationBinding then job.conversationTitle
      else req.conversationTitle.or job.conversationTitle
    maxRetries := req.maxRetries.getD job.maxRetries
    queueEnabled := req.queueEnabled.getD job.queueEnabled
    nextRunAt :=
      if req.schedule.isSome ∨ req.enabled.isSome then
        job.schedule.computeNextRun svc.crates times.nextRun
      else job.nextRunAt }

/-- The edits of `update_job` in the order of the source. -/
def edit (times : UpdateTimes) (original : CronJob) : Except CronError JobEdit := do
  let job :=
    { original with
      name := req.name.getD original.name
      description := req.description.or original.description
      enabled := req.enabled.getD original.enabled }
  let job ← svc.editSchedule req job
  let job := { job with message := req.message.getD job.message }
  let (job, clearConversationBinding) ← svc.editExecutionMode req job
  let job ← svc.editAgentConfig req original.executionMode job
  let job := svc.editRest req times clearConversationBinding job
  let (job, agentConfigChanged) :=
    if clearConversationBinding then
      svc.clearAutoWorkspaceFromJobConfig job original.conversationId
    else (job, false)
  let job := { job with updatedAt := times.updated }
  svc.validateJobWorkspace job
  .ok { job, clearConversationBinding, agentConfigChanged }

end CronService

def buildUpdateParams (job : CronJob) (req : UpdateCronJobRequest) : UpdateCronJobParams where
  name := req.name
  enabled := req.enabled
  scheduleKind := req.schedule.map fun _ => job.schedule.toRowFields.kind
  scheduleValue := req.schedule.map fun _ => job.schedule.toRowFields.value
  scheduleTz := req.schedule.map fun _ => job.schedule.toRowFields.tz
  scheduleDescription := req.schedule.map fun _ => job.schedule.toRowFields.description
  payloadMessage := req.message
  executionMode := req.executionMode
  agentConfig := req.agentConfig.bind fun _ => job.agentConfig.map fun config => some config.json
  conversationTitle := req.conversationTitle.map some
  description := req.description.map some
  nextRunAt :=
    if req.schedule.isSome ∨ req.enabled.isSome then some job.nextRunAt else none
  queueEnabled := req.queueEnabled

/-- The columns that `update_job` sets for its edits. -/
def JobEdit.updateParams (edit : JobEdit) (req : UpdateCronJobRequest) : UpdateCronJobParams :=
  let params := buildUpdateParams edit.job req
  { params with
    conversationId := if edit.clearConversationBinding then some "" else params.conversationId
    conversationTitle :=
      if edit.clearConversationBinding then some none else params.conversationTitle
    agentConfig :=
      if edit.agentConfigChanged then some (edit.job.agentConfig.map CronAgentConfig.json)
      else params.agentConfig }

/-- `update_job`, with the rows that it leaves and the job that it returns. Conversations that are
bound or unbound and the timer that is set afterwards are no part of them. -/
def CronService.updateJob (svc : CronService) (rows : List CronJobRow) (jobId : String)
    (req : UpdateCronJobRequest) (times : UpdateTimes) :
    Except CronError (List CronJobRow × CronJob) := do
  let original ← svc.getJob rows jobId
  let edit ← svc.edit req times original
  let rows ← updateRow rows jobId (edit.updateParams req) times.stored
  .ok (rows, edit.job)

end AionCore.Cron.Records
