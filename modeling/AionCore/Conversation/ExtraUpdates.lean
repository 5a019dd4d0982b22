import AionCore.Conversation.StoredConversations
import AionCore.Conversation.StreamRelay
import AionCore.Lib.Overlay

/-!
# Conversations: the writers of `extra`

Each of them reads the row of a conversation, changes the JSON document of the column `extra` in
memory and writes the whole column back. The column is what `serde_json` reads of its text, and
`none` for a text that it does not read.
-/

namespace AionCore.Conversation

/-- The values in an extra, as far as the writers look into them. -/
inductive ExtraValue where
  | text (value : String)
  | texts (values : List String)
  | other (json : String)
  deriving DecidableEq

abbrev ExtraObject := Dict String ExtraValue

inductive ExtraJson where
  | object (entries : ExtraObject)
  | null
  | other (json : String)
  deriving DecidableEq

abbrev ExtraColumn := Option ExtraJson

abbrev ExtraChanges := Changes String ExtraValue

/-- `Value::as_str`. -/
def ExtraValue.asStr : ExtraValue → Option String
  | .text value => some value
  | _ => none

namespace ExtraJson

/-- The entries, of which there are none if it is no object. -/
def entries : ExtraJson → ExtraObject
  | .object entries => entries
  | _ => ∅

/-- `Value::get`. -/
def get (extra : ExtraJson) (key : String) : Option ExtraValue := extra.entries.lookup key

def isObject : ExtraJson → Bool
  | .object _ => true
  | _ => false

def mapObject (f : ExtraObject → ExtraObject) : ExtraJson → ExtraJson
  | .object entries => .object (f entries)
  | extra => extra

end ExtraJson

namespace ExtraColumn

variable (column : ExtraColumn)

/-- `unwrap_or_else(|_| json!({}))`. -/
def orEmpty : ExtraJson := column.getD (.object ∅)

def entries : ExtraObject := (orEmpty column).entries

end ExtraColumn

open ExtraColumn

def AgentType.serdeName : AgentType → String
  | .acp => "acp"
  | .openclawGateway => "openclaw-gateway"
  | .nanobot => "nanobot"
  | .remote => "remote"
  | .aionrs => "aionrs"
  | .gemini => "gemini"
  | .codex => "codex"

def AgentType.all : List AgentType :=
  [.acp, .openclawGateway, .nanobot, .remote, .aionrs, .gemini, .codex]

/-- `string_to_enum`. -/
def AgentType.ofName (name : String) : Option AgentType :=
  AgentType.all.find? fun agentType => agentType.serdeName = name

/-- How a writer ends without a write; an index into JSON that is no object panics. -/
inductive ExtraWriteError where
  | notFound (id : String)
  | badRequest (reason : String)
  | internal (reason : String)
  | workspacePathUnavailable (path : String)
  | panicked

/-- What a writer is told by the file system. -/
inductive PathMetadata where
  | directory
  | notDirectory
  | notFound
  | notAccessible

/-- What the writers ask of their surroundings: the file system, and the text of an error of
`serde_json` for a name of an enumeration. -/
structure ExtraContext where
  metadata : String → PathMetadata
  enumError : String → String

structure UpdateConversationRequest where
  name : Option String := none
  pinned : Option Bool := none
  /-- The model as JSON. -/
  model : Option String := none
  extra : Option ExtraJson := none

section Documents

variable (context : ExtraContext)

/-- `merge_json`: the keys of the patch are overwritten. -/
def mergeJson (base patch : ExtraJson) : ExtraJson :=
  match base, patch with
  | .object entries, .object patched => .object (patched ∪ entries)
  | base, _ => base

def normalizeWorkspacePath (workspace : String) : Except ExtraWriteError String :=
  if trim workspace = "" then .error (.badRequest "Workspace directory is empty")
  else
    match context.metadata workspace with
    | .directory => .ok workspace
    | _ => .error (.workspacePathUnavailable workspace)

def normalizeWorkspaceExtra (extra : ExtraJson) : Except ExtraWriteError ExtraJson :=
  match (extra.get "workspace").bind ExtraValue.asStr with
  | none => .ok extra
  | some workspace =>
    if workspace = "" then .ok extra
    else
      (normalizeWorkspacePath context workspace).map fun normalized =>
        if normalized = workspace then extra
        else extra.mapObject fun o => o.insert "workspace" (.text normalized)

/-- `take_string_array`, the array that is taken. -/
def takeStringArray (o : ExtraObject) (key : String) : List String :=
  match o.lookup key with
  | some (.texts values) => values
  | _ => []

def computeInitialSkills (autoInject presetEnabled excludeAutoInject : List String) :
    List String :=
  (autoInject.filter (· ∉ excludeAutoInject) ++ presetEnabled).dedup.insertionSort (· ≤ ·)

def withoutLegacy (o : ExtraObject) : ExtraObject :=
  ((o.erase "enabled_skills").erase "exclude_builtin_skills").erase "loaded_skills"

/-- `backfill_skills_if_missing`, the object and whether it changed. -/
def backfillSkillsIfMissing (autoInject : List String) (o : ExtraObject) : ExtraObject × Bool :=
  let legacyEnabled := takeStringArray o "enabled_skills"
  let legacyExcluded := takeStringArray o "exclude_builtin_skills"
  let hadLegacy : Bool :=
    legacyEnabled ≠ [] ∨ legacyExcluded ≠ [] ∨ (o.lookup "loaded_skills").isSome
  if (o.lookup "skills").isSome then (withoutLegacy o, hadLegacy)
  else
    ((withoutLegacy o).insert "skills"
      (.texts (computeInitialSkills autoInject legacyEnabled legacyExcluded)), true)

def boundCronJob (o : ExtraObject) : Option String :=
  ((o.lookup "cron_job_id").bind ExtraValue.asStr).or
    ((o.lookup "cronJobId").bind ExtraValue.asStr)

/-- `backfill_cron_job_id_alias`, the object and whether it changed. -/
def backfillCronJobIdAlias (o : ExtraObject) : ExtraObject × Bool :=
  match boundCronJob o with
  | none => (o, false)
  | some job =>
    let snake := (o.lookup "cron_job_id").bind ExtraValue.asStr = some job
    let camel := (o.lookup "cronJobId").bind ExtraValue.asStr = some job
    let o := if snake then o else o.insert "cron_job_id" (.text job)
    let o := if camel then o else o.insert "cronJobId" (.text job)
    (o, ¬(snake ∧ camel))

end Documents

section Writers

variable (context : ExtraContext) (now : ℤ) (row : ConversationRow ExtraColumn)

def immutableKeys : List String :=
  ["skills", "mcp_server_ids", "mcp_servers", "mcp_statuses", "session_mcp_servers"]

def currentStateKeys : List String := ["current_model_id", "current_mode_id"]

/-- The extra that `update` writes. -/
def mergedExtra (existingType : AgentType) (newExtra : ExtraJson) :
    Except ExtraWriteError ExtraJson :=
  let merged := mergeJson (orEmpty row.extra) newExtra
  let stripped :=
    if existingType = .aionrs then merged.mapObject fun o => o.erase "model" else merged
  if (newExtra.get "workspace").isSome then normalizeWorkspaceExtra context stripped
  else .ok stripped

/-- The column that `update` writes, if the request has an extra. -/
def requestedExtra (existingType : AgentType) :
    Option ExtraJson → Except ExtraWriteError (Option ExtraColumn)
  | none => .ok none
  | some newExtra =>
    (mergedExtra context row existingType newExtra).map fun extra => some (some extra)

def update (userId : String) (req : UpdateConversationRequest) :
    Except ExtraWriteError (ConversationRowUpdate ExtraColumn) :=
  if row.userId ≠ userId then .error (.notFound row.id)
  else
    match AgentType.ofName row.type with
    | none => .error (.internal ("Invalid enum value '" ++ row.type ++ "': " ++
        context.enumError row.type))
    | some existingType =>
      if ∃ incoming ∈ req.extra, ∃ key ∈ immutableKeys, (incoming.get key).isSome then
        .error (.badRequest "extra.skills and MCP snapshots are immutable post-creation")
      else if existingType = .acp ∧
          ∃ incoming ∈ req.extra, ∃ key ∈ currentStateKeys, (incoming.get key).isSome then
        .error (.badRequest ("ACP runtime current mode/model must be changed via " ++
          "/config-options, not conversation.extra"))
      else if existingType ≠ .aionrs ∧ req.model.isSome then
        .error (.badRequest ("top-level `model` is only accepted for aionrs conversations; " ++
          "pass model via `extra` for " ++ row.type))
      else
        (requestedExtra context row existingType req.extra).map fun extra =>
          { name := req.name
            pinned := req.pinned
            pinnedAt := req.pinned.map fun pinned => if pinned then some now else none
            model := req.model.map some
            extra
            updatedAt := some now }

def extraUpdate (extra : ExtraJson) : ConversationRowUpdate ExtraColumn :=
  { extra := some (some extra), updatedAt := some now }

def updateExtra (patch : ExtraJson) :
    Except ExtraWriteError (ConversationRowUpdate ExtraColumn) :=
  let merged := mergeJson (orEmpty row.extra) patch
  (if (patch.get "workspace").isSome then normalizeWorkspaceExtra context merged
    else .ok merged).map (extraUpdate now)

/-- Whether the runtime of the conversation `allows` the write is asked before the row is read. -/
def maybePersistWorkspace (allows : Bool) (storedWorkspace resolvedWorkspace : String) :
    Except ExtraWriteError (Option (ConversationRowUpdate ExtraColumn)) :=
  if resolvedWorkspace = "" ∨ resolvedWorkspace = storedWorkspace then .ok none
  else if !allows then .ok none
  else
    match orEmpty row.extra with
    | .object o =>
      .ok (some (extraUpdate now (.object (o.insert "workspace" (.text resolvedWorkspace)))))
    | .null =>
      .ok (some (extraUpdate now
        (.object (AList.insert "workspace" (.text resolvedWorkspace) ∅))))
    | .other _ => .error .panicked

def backfillExtraInplace (autoInject : List String) :
    Option (ConversationRowUpdate ExtraColumn) :=
  match row.extra with
  | some (.object o) =>
    let (o, mutated) := backfillSkillsIfMissing autoInject o
    let (o, mutated') := backfillCronJobIdAlias o
    if mutated || mutated' then some { extra := some (some (.object o)) } else none
  | _ => none

def bindCronJobToConversation (cronJobId : String) :
    Option (ConversationRowUpdate ExtraColumn) :=
  let o := entries row.extra
  if boundCronJob o = some cronJobId then none
  else
    some (extraUpdate now
      (.object ((o.insert "cron_job_id" (.text cronJobId)).insert "cronJobId" (.text cronJobId))))

def unbindCronJobFromConversation (cronJobId : String) :
    Option (ConversationRowUpdate ExtraColumn) :=
  match orEmpty row.extra with
  | .object o =>
    let snakeMatches := (o.lookup "cron_job_id").bind ExtraValue.asStr = some cronJobId
    let camelMatches := (o.lookup "cronJobId").bind ExtraValue.asStr = some cronJobId
    if ¬snakeMatches ∧ ¬camelMatches then none
    else
      let o := if snakeMatches then o.erase "cron_job_id" else o
      let o := if camelMatches then o.erase "cronJobId" else o
      some (extraUpdate now (.object o))
  | _ => none

def persistWorkspaceIfMissing (resolvedWorkspace : String) :
    Option (ConversationRowUpdate ExtraColumn) :=
  let resolved := trim resolvedWorkspace
  if resolved = "" then none
  else
    match orEmpty row.extra with
    | .object o =>
      let current := trim (((o.lookup "workspace").bind ExtraValue.asStr).getD "")
      if current ≠ "" then none
      else some (extraUpdate now (.object (o.insert "workspace" (.text resolved))))
    | _ => some (extraUpdate now (.object (AList.insert "workspace" (.text resolved) ∅)))

end Writers

end AionCore.Conversation
