import AionCore.Cron.Service
import AionCore.Lib.MergePatch

/-!
# Cron: jobs and their rows

The jobs of `types.rs` with all their data, the rows of `cron_jobs`, and how one is made of the
other. The agent config of a row is the JSON of its text.
-/

namespace AionCore.Cron

inductive CronError where
  | jobNotFound (id : String)
  | invalidSchedule (message : String)
  /-- The text of a field of a schedule is no `i64`. -/
  | invalidNumber (field value : String)
  /-- The crates do not read the expression or its time zone. -/
  | invalidCron (expr : String) (tz : Option String)
  | invalidExecutionMode (message : String)
  | invalidCreatedBy (value : String)
  | invalidJobStatus (value : String)
  | invalidAgentConfig (message : String)
  | assistantNotFound (id : String)
  | workspacePathUnavailable (path : String)
  | database (message : String)
  | json

theorem bind_eq_ok {α β : Type} {x : Except CronError α} {f : α → Except CronError β} {b : β} :
    x >>= f = .ok b ↔ ∃ a, x = .ok a ∧ f a = .ok b := by
  constructor
  · intro h
    cases x with
    | error e => cases h
    | ok a => exact ⟨a, rfl, h⟩
  · rintro ⟨a, rfl, h⟩
    exact h

inductive ExecutionMode where
  | existing
  | newConversation
  deriving DecidableEq

def ExecutionMode.asStr : ExecutionMode → String
  | existing => "existing"
  | newConversation => "new_conversation"

def ExecutionMode.fromStr (s : String) : Except CronError ExecutionMode :=
  if s = "existing" then .ok existing
  else if s = "new_conversation" then .ok newConversation
  else .error (.invalidExecutionMode s)

inductive CreatedBy where
  | user
  | agent

def CreatedBy.asStr : CreatedBy → String
  | user => "user"
  | agent => "agent"

def CreatedBy.fromStr (s : String) : Except CronError CreatedBy :=
  if s = "user" then .ok user else if s = "agent" then .ok agent else .error (.invalidCreatedBy s)

def JobStatus.asStr : JobStatus → String
  | ok => "ok"
  | error => "error"
  | skipped => "skipped"
  | missed => "missed"

def JobStatus.fromStr (s : String) : Except CronError JobStatus :=
  if s = "ok" then .ok ok
  else if s = "error" then .ok error
  else if s = "skipped" then .ok skipped
  else if s = "missed" then .ok missed
  else .error (.invalidJobStatus s)

theorem ExecutionMode.fromStr_asStr (mode : ExecutionMode) : fromStr mode.asStr = .ok mode := by
  cases mode with
  | existing => rfl
  | newConversation => rfl

theorem ExecutionMode.asStr_of_fromStr {s : String} {mode : ExecutionMode}
    (h : fromStr s = .ok mode) : mode.asStr = s := by
  rw [fromStr] at h
  split at h
  · next hs =>
    cases h
    exact hs.symm
  · split at h
    · next hs =>
      cases h
      exact hs.symm
    · cases h

theorem CreatedBy.fromStr_asStr (createdBy : CreatedBy) : fromStr createdBy.asStr = .ok createdBy := by
  cases createdBy with
  | user => rfl
  | agent => rfl

theorem JobStatus.fromStr_asStr (status : JobStatus) : fromStr status.asStr = .ok status := by
  cases status with
  | ok => rfl
  | error => rfl
  | skipped => rfl
  | missed => rfl

def digits (cs : List Char) : Option ℕ :=
  if cs ≠ [] ∧ cs.all Char.isDigit = true then some (Nat.ofDigitChars 10 cs 0) else none

/-- `str::parse::<i64>`. -/
def parseI64 (s : String) : Option Int :=
  match s.toList with
  | [] => none
  | c :: cs =>
    if c = '-' then (digits cs).bind fun n => CronSchedule.checked (-n)
    else if c = '+' then (digits cs).bind fun n => CronSchedule.checked n
    else (digits (c :: cs)).bind fun n => CronSchedule.checked n

theorem all_isDigit_repr (n : ℕ) : ∀ c ∈ n.repr.toList, c.isDigit = true := by
  intro c hc
  rw [Nat.toList_repr] at hc
  exact Nat.isDigit_of_mem_toDigits (by omega) (by omega) hc

theorem digits_repr (n : ℕ) : digits n.repr.toList = some n := by
  have hne : n.repr.toList ≠ [] := fun hnil => Nat.repr_ne_empty (String.toList_eq_nil_iff.mp hnil)
  have hall : n.repr.toList.all Char.isDigit = true := List.all_eq_true.mpr (all_isDigit_repr n)
  rw [digits, if_pos ⟨hne, hall⟩, Nat.toList_repr, Nat.ofDigitChars_ten_toDigits]

/-- A number that is an `i64` is read as it is written. -/
theorem parseI64_repr {n : Int} (h : CronSchedule.checked n = some n) : parseI64 n.repr = some n := by
  cases n with
  | ofNat m =>
    have hdigits := digits_repr m
    have hall := all_isDigit_repr m
    show parseI64 m.repr = _
    unfold parseI64
    cases hlist : m.repr.toList with
    | nil =>
      rw [hlist] at hdigits
      cases hdigits
    | cons c cs =>
      rw [hlist] at hdigits hall
      have hc : c.isDigit = true := hall c (List.mem_cons_self ..)
      have hminus : c ≠ '-' := fun heq => by rw [heq] at hc; cases hc
      have hplus : c ≠ '+' := fun heq => by rw [heq] at hc; cases hc
      dsimp only
      rw [if_neg hminus, if_neg hplus, hdigits]
      exact h
  | negSucc m =>
    have hlist : (Int.negSucc m).repr.toList = '-' :: (m + 1).repr.toList := String.toList_append
    rw [parseI64, hlist]
    show (digits (m + 1).repr.toList).bind _ = _
    have hneg : -((m + 1 : ℕ) : Int) = Int.negSucc m := rfl
    rw [digits_repr, Option.bind_some, hneg, h]

structure ProviderWithModel where
  providerId : String
  model : String
  useModel : Option String

/-- A map from texts to texts. -/
structure StringMap where
  keys : Finset String
  value : { k // k ∈ keys } → String

structure CronAgentConfig where
  name : String
  cliPath : Option String
  isPreset : Option Bool
  assistantId : Option String
  customAgentId : Option String
  mode : Option String
  modelId : Option String
  model : Option ProviderWithModel
  configOptions : Option StringMap
  workspace : Option String

def readString : JsonValue → Option String
  | .string s => some s
  | _ => none

def readBool : JsonValue → Option Bool
  | .bool b => some b
  | _ => none

def readOptional {α : Type} (read : JsonValue → Option α) : Option JsonValue → Option (Option α)
  | none => some none
  | some .null => some none
  | some v => (read v).map some

/-- What is written under a key, if anything, is read from there. -/
theorem readOptional_map {α : Type} {read : JsonValue → Option α} {write : α → JsonValue}
    (hread : ∀ a, read (write a) = some a) (hnull : read .null = none) (o : Option α) :
    readOptional read (o.map write) = some o := by
  cases o with
  | none => rfl
  | some a =>
    have ha := hread a
    show readOptional read (some (write a)) = _
    cases hwrite : write a with
    | null =>
      rw [hwrite, hnull] at ha
      cases ha
    | _ =>
      rw [hwrite] at ha
      exact congrArg (Option.map some) ha

namespace StringMap

def json (m : StringMap) : JsonValue := .object m.keys fun k => .string (m.value k)

def read : JsonValue → Option StringMap
  | .object keys value =>
    if (keys.attach.filter fun k => (readString (value k)).isNone = true).card = 0 then
      some ⟨keys, fun k => (readString (value k)).getD ""⟩
    else none
  | _ => none

theorem read_json (m : StringMap) : read m.json = some m := by
  have hnone : (m.keys.attach.filter fun k =>
      (readString (.string (m.value k))).isNone = true).card = 0 := by
    rw [Finset.card_eq_zero, Finset.filter_eq_empty_iff]
    exact fun _ _ => Bool.false_ne_true
  exact if_pos hnone

end StringMap

namespace ProviderWithModel

def json (m : ProviderWithModel) : JsonValue :=
  .record
    [("provider_id", some (.string m.providerId)), ("model", some (.string m.model)),
      ("use_model", some ((m.useModel.map .string).getD .null))]

def read (j : JsonValue) : Option ProviderWithModel := do
  let providerId ← (j.get "provider_id").bind readString
  let model ← (j.get "model").bind readString
  let useModel ← readOptional readString (j.get "use_model")
  some { providerId, model, useModel }

theorem read_json (m : ProviderWithModel) : read m.json = some m := by
  have hget : ∀ k, m.json.get k = (List.lookup k _).join := JsonValue.get_record _
  rw [read, hget, hget, hget]
  cases huse : m.useModel with
  | none | some useModel =>
    obtain ⟨providerId, model, useModel⟩ := m
    cases huse
    rfl

end ProviderWithModel

namespace CronAgentConfig

/-- The text that a config is stored as; what is none is left out. -/
def json (config : CronAgentConfig) : JsonValue :=
  .record
    [("name", some (.string config.name)), ("cli_path", config.cliPath.map .string),
      ("is_preset", config.isPreset.map .bool), ("assistant_id", config.assistantId.map .string),
      ("custom_agent_id", config.customAgentId.map .string), ("mode", config.mode.map .string),
      ("model_id", config.modelId.map .string), ("model", config.model.map ProviderWithModel.json),
      ("config_options", config.configOptions.map StringMap.json),
      ("workspace", config.workspace.map .string)]

def read (j : JsonValue) : Option CronAgentConfig := do
  let name ← (j.get "name").bind readString
  let cliPath ← readOptional readString (j.get "cli_path")
  let isPreset ← readOptional readBool (j.get "is_preset")
  let assistantId ← readOptional readString (j.get "assistant_id")
  let customAgentId ← readOptional readString (j.get "custom_agent_id")
  let mode ← readOptional readString (j.get "mode")
  let modelId ← readOptional readString (j.get "model_id")
  let model ← readOptional ProviderWithModel.read (j.get "model")
  let configOptions ← readOptional StringMap.read (j.get "config_options")
  let workspace ← readOptional readString (j.get "workspace")
  some
    { name
      cliPath
      isPreset
      assistantId
      customAgentId
      mode
      modelId
      model
      configOptions
      workspace }

/-- A config is read as it was stored. -/
theorem read_json (config : CronAgentConfig) : read config.json = some config := by
  have hget : ∀ k, config.json.get k = (List.lookup k _).join := JsonValue.get_record _
  have hname : config.json.get "name" = some (.string config.name) := hget "name"
  have hstring : ∀ o : Option String, readOptional readString (o.map .string) = some o :=
    readOptional_map (fun _ => rfl) rfl
  have hbool : ∀ o : Option Bool, readOptional readBool (o.map .bool) = some o :=
    readOptional_map (fun _ => rfl) rfl
  have hcliPath : readOptional readString (config.json.get "cli_path") = some config.cliPath :=
    (congrArg _ (hget "cli_path")).trans (hstring _)
  have hisPreset : readOptional readBool (config.json.get "is_preset") = some config.isPreset :=
    (congrArg _ (hget "is_preset")).trans (hbool _)
  have hassistantId : readOptional readString (config.json.get "assistant_id") =
      some config.assistantId := (congrArg _ (hget "assistant_id")).trans (hstring _)
  have hcustomAgentId : readOptional readString (config.json.get "custom_agent_id") =
      some config.customAgentId := (congrArg _ (hget "custom_agent_id")).trans (hstring _)
  have hmode : readOptional readString (config.json.get "mode") = some config.mode :=
    (congrArg _ (hget "mode")).trans (hstring _)
  have hmodelId : readOptional readString (config.json.get "model_id") = some config.modelId :=
    (congrArg _ (hget "model_id")).trans (hstring _)
  have hmodel : readOptional ProviderWithModel.read (config.json.get "model") =
      some config.model :=
    (congrArg _ (hget "model")).trans (readOptional_map ProviderWithModel.read_json rfl _)
  have hconfigOptions : readOptional StringMap.read (config.json.get "config_options") =
      some config.configOptions :=
    (congrArg _ (hget "config_options")).trans (readOptional_map StringMap.read_json rfl _)
  have hworkspace : readOptional readString (config.json.get "workspace") =
      some config.workspace := (congrArg _ (hget "workspace")).trans (hstring _)
  rw [read, hname, hcliPath, hisPreset, hassistantId, hcustomAgentId, hmode, hmodelId, hmodel,
    hconfigOptions, hworkspace]
  rfl

end CronAgentConfig

namespace CronSchedule

/-- The numbers of a schedule are `i64`s. -/
def Fits : CronSchedule → Prop
  | atTime atMs _ => checked atMs = some atMs
  | every everyMs _ => checked everyMs = some everyMs
  | cron _ _ _ => True

instance (schedule : CronSchedule) : Decidable schedule.Fits := by
  cases schedule with
  | atTime atMs _ => exact inferInstanceAs (Decidable (checked atMs = some atMs))
  | every everyMs _ => exact inferInstanceAs (Decidable (checked everyMs = some everyMs))
  | cron _ _ _ => exact instDecidableTrue

/-- `parse_schedule`. -/
def parse (kind value : String) (tz description : Option String) : Except CronError CronSchedule :=
  if kind = "at" then
    match parseI64 value with
    | some atMs => .ok (.atTime atMs description)
    | none => .error (.invalidNumber "at_ms" value)
  else if kind = "every" then
    match parseI64 value with
    | some everyMs => .ok (.every everyMs description)
    | none => .error (.invalidNumber "every_ms" value)
  else if kind = "cron" then .ok (.cron value tz description)
  else .error (.invalidSchedule ("unknown schedule kind: " ++ kind))

/-- The columns of a schedule. -/
structure RowFields where
  kind : String
  value : String
  tz : Option String
  description : Option String

/-- `schedule_to_row_fields`. -/
def toRowFields : CronSchedule → RowFields
  | atTime atMs description => ⟨"at", atMs.repr, none, description⟩
  | every everyMs description => ⟨"every", everyMs.repr, none, description⟩
  | cron expr tz description => ⟨"cron", expr, tz, description⟩

/-- A schedule is read as it was stored. -/
theorem parse_toRowFields {schedule : CronSchedule} (h : schedule.Fits) :
    parse schedule.toRowFields.kind schedule.toRowFields.value schedule.toRowFields.tz
      schedule.toRowFields.description = .ok schedule := by
  cases schedule with
  | atTime atMs description =>
    show (parse "at" atMs.repr none description) = _
    rw [parse, if_pos rfl, parseI64_repr h]
  | every everyMs description =>
    show (parse "every" everyMs.repr none description) = _
    rw [parse, if_neg (by decide), if_pos rfl, parseI64_repr h]
  | cron expr tz description => rfl

theorem fits_fromDtoWithExistingTimezone {dto : CronSchedule} (h : dto.Fits)
    (existing : CronSchedule) : (fromDtoWithExistingTimezone dto existing).Fits := by
  cases dto with
  | atTime atMs description => exact h
  | every everyMs description => exact h
  | cron expr tz description => exact trivial

end CronSchedule

namespace Records

open AionCore.Team (TimestampMs)

/-- A row of `cron_jobs`. -/
structure CronJobRow where
  id : String
  name : String
  enabled : Bool
  scheduleKind : String
  scheduleValue : String
  scheduleTz : Option String
  scheduleDescription : Option String
  payloadMessage : String
  executionMode : String
  agentConfig : Option JsonValue
  conversationId : String
  conversationTitle : Option String
  createdBy : String
  skillContent : Option String
  description : Option String
  createdAt : TimestampMs
  updatedAt : TimestampMs
  nextRunAt : Option TimestampMs
  lastRunAt : Option TimestampMs
  lastStatus : Option String
  lastError : Option String
  runCount : Int
  retryCount : Int
  maxRetries : Int
  queueEnabled : Bool

@[ext]
structure CronJob where
  id : String
  name : String
  enabled : Bool
  schedule : CronSchedule
  message : String
  executionMode : ExecutionMode
  agentConfig : Option CronAgentConfig
  conversationId : String
  conversationTitle : Option String
  agentType : String
  createdBy : CreatedBy
  skillContent : Option String
  description : Option String
  createdAt : TimestampMs
  updatedAt : TimestampMs
  nextRunAt : Option TimestampMs
  lastRunAt : Option TimestampMs
  lastStatus : Option JobStatus
  lastError : Option String
  runCount : Int
  retryCount : Int
  maxRetries : Int
  queueEnabled : Bool

def readConfig : Option JsonValue → Except CronError (Option CronAgentConfig)
  | none => .ok none
  | some j =>
    match CronAgentConfig.read j with
    | some config => .ok (some config)
    | none => .error .json

def readStatus : Option String → Except CronError (Option JobStatus)
  | none => .ok none
  | some s => (JobStatus.fromStr s).map some

theorem readConfig_json (config : Option CronAgentConfig) :
    readConfig (config.map CronAgentConfig.json) = .ok config := by
  cases config with
  | none => rfl
  | some config =>
    show readConfig (some config.json) = _
    rw [readConfig, CronAgentConfig.read_json]

theorem readStatus_asStr (status : Option JobStatus) :
    readStatus (status.map JobStatus.asStr) = .ok status := by
  cases status with
  | none => rfl
  | some status =>
    show (JobStatus.fromStr status.asStr).map some = _
    rw [JobStatus.fromStr_asStr]
    rfl

/-- `cron_job_from_row`. -/
def cronJobFromRow (row : CronJobRow) : Except CronError CronJob := do
  let schedule ←
    CronSchedule.parse row.scheduleKind row.scheduleValue row.scheduleTz row.scheduleDescription
  let executionMode ← ExecutionMode.fromStr row.executionMode
  let createdBy ← CreatedBy.fromStr row.createdBy
  let agentConfig ← readConfig row.agentConfig
  let lastStatus ← readStatus row.lastStatus
  .ok
    { id := row.id
      name := row.name
      enabled := row.enabled
      schedule
      message := row.payloadMessage
      executionMode
      agentConfig
      conversationId := row.conversationId
      conversationTitle := row.conversationTitle
      agentType := ""
      createdBy
      skillContent := row.skillContent
      description := row.description
      createdAt := row.createdAt
      updatedAt := row.updatedAt
      nextRunAt := row.nextRunAt
      lastRunAt := row.lastRunAt
      lastStatus
      lastError := row.lastError
      runCount := row.runCount
      retryCount := row.retryCount
      maxRetries := row.maxRetries
      queueEnabled := row.queueEnabled }

/-- `cron_job_to_row`. -/
def cronJobToRow (job : CronJob) : CronJobRow where
  id := job.id
  name := job.name
  enabled := job.enabled
  scheduleKind := job.schedule.toRowFields.kind
  scheduleValue := job.schedule.toRowFields.value
  scheduleTz := job.schedule.toRowFields.tz
  scheduleDescription := job.schedule.toRowFields.description
  payloadMessage := job.message
  executionMode := job.executionMode.asStr
  agentConfig := job.agentConfig.map CronAgentConfig.json
  conversationId := job.conversationId
  conversationTitle := job.conversationTitle
  createdBy := job.createdBy.asStr
  skillContent := job.skillContent
  description := job.description
  createdAt := job.createdAt
  updatedAt := job.updatedAt
  nextRunAt := job.nextRunAt
  lastRunAt := job.lastRunAt
  lastStatus := job.lastStatus.map JobStatus.asStr
  lastError := job.lastError
  runCount := job.runCount
  retryCount := job.retryCount
  maxRetries := job.maxRetries
  queueEnabled := job.queueEnabled

/-- A row and the job that is read from it. -/
structure Holds (row : CronJobRow) (job : CronJob) : Prop where
  schedule : CronSchedule.parse row.scheduleKind row.scheduleValue row.scheduleTz
    row.scheduleDescription = .ok job.schedule
  executionMode : ExecutionMode.fromStr row.executionMode = .ok job.executionMode
  createdBy : CreatedBy.fromStr row.createdBy = .ok job.createdBy
  agentConfig : readConfig row.agentConfig = .ok job.agentConfig
  lastStatus : readStatus row.lastStatus = .ok job.lastStatus
  eq : job =
    { job with
      id := row.id
      name := row.name
      enabled := row.enabled
      message := row.payloadMessage
      conversationId := row.conversationId
      conversationTitle := row.conversationTitle
      agentType := ""
      skillContent := row.skillContent
      description := row.description
      createdAt := row.createdAt
      updatedAt := row.updatedAt
      nextRunAt := row.nextRunAt
      lastRunAt := row.lastRunAt
      lastError := row.lastError
      runCount := row.runCount
      retryCount := row.retryCount
      maxRetries := row.maxRetries
      queueEnabled := row.queueEnabled }

theorem cronJobFromRow_eq_ok {row : CronJobRow} {job : CronJob} :
    cronJobFromRow row = .ok job ↔ Holds row job := by
  constructor
  · intro h
    obtain ⟨schedule, hschedule, h⟩ := bind_eq_ok.mp h
    obtain ⟨executionMode, hexecutionMode, h⟩ := bind_eq_ok.mp h
    obtain ⟨createdBy, hcreatedBy, h⟩ := bind_eq_ok.mp h
    obtain ⟨agentConfig, hagentConfig, h⟩ := bind_eq_ok.mp h
    obtain ⟨lastStatus, hlastStatus, h⟩ := bind_eq_ok.mp h
    cases h
    exact ⟨hschedule, hexecutionMode, hcreatedBy, hagentConfig, hlastStatus, rfl⟩
  · intro h
    refine bind_eq_ok.mpr ⟨_, h.schedule, bind_eq_ok.mpr ⟨_, h.executionMode, bind_eq_ok.mpr
      ⟨_, h.createdBy, bind_eq_ok.mpr ⟨_, h.agentConfig, bind_eq_ok.mpr ⟨_, h.lastStatus, ?_⟩⟩⟩⟩⟩
    exact congrArg Except.ok h.eq.symm

/-- A job is read back from its row, but for the agent type, which has no column of its own. -/
theorem cronJobFromRow_cronJobToRow {job : CronJob} (h : job.schedule.Fits) :
    cronJobFromRow (cronJobToRow job) = .ok { job with agentType := "" } :=
  cronJobFromRow_eq_ok.mpr
    ⟨CronSchedule.parse_toRowFields h, ExecutionMode.fromStr_asStr _, CreatedBy.fromStr_asStr _,
      readConfig_json _, readStatus_asStr _, rfl⟩

theorem cronJobFromRow_cronJobToRow_every :
    let job : CronJob := ⟨"id", "n", true, .every 1000 none, "m", .existing, none, "c", none, "acp",
      .user, none, none, 0, 0, none, none, some .ok, none, 1, 0, 3, true⟩
    cronJobFromRow (cronJobToRow job) = .ok { job with agentType := "" } :=
  cronJobFromRow_cronJobToRow (by decide)

end Records

end AionCore.Cron
