import AionCore.Agent.RuntimeToken

/-!
# Agents: the task manager

`WorkerTaskManagerImpl` of `task_manager.rs`, with the send path of the conversation service that
issues a runtime token before it asks for an agent. A call is a stage and its steps come in any
order with those of the others; `kill` awaits nothing and is one step. Whoever waits for an
`OnceCell` may be the next to initialise it, in whatever order tokio wakes them.
-/

namespace AionCore.Agent

open AionCore.Conversation (AgentType ConversationStatus)

inductive AgentKillReason where
  | idleTimeout
  | agentErrorRecovery
  | teamMcpRebuild
  | teamDeleted
  | conversationDeleted
  | userCancelTimeout
  | runtimeCapabilityChanged
  deriving DecidableEq

def aionuiUserIdEnv : String := "AIONUI_USER_ID"
def aionuiConversationIdEnv : String := "AIONUI_CONVERSATION_ID"
def aionuiHelperBinEnv : String := "AIONUI_HELPER_BIN"
def aionuiBaseUrlEnv : String := "AIONUI_BASE_URL"
def aionuiRuntimeTokenEnv : String := "AIONUI_RUNTIME_TOKEN"

def conversationRuntimeContextVersion : UInt32 := 2

structure RuntimeCapabilities where
  conversationRuntimeContextVersion : Option UInt32
  deriving DecidableEq

def RuntimeCapabilities.satisfies (capabilities requested : RuntimeCapabilities) : Bool :=
  match requested.conversationRuntimeContextVersion with
  | some version => capabilities.conversationRuntimeContextVersion.any fun actual => version ≤ actual
  | none => true

/-- Of the session context what the manager reads: `team` says whether there is a team. -/
structure AgentSessionContext where
  userId : String
  conversationId : String
  team : Bool
  runtimeEnv : List (String × String)
  deriving DecidableEq

structure BuildTaskOptions where
  context : AgentSessionContext
  runtimeCapabilities : RuntimeCapabilities
  deriving DecidableEq

/-- What the services are configured with. -/
structure TaskSetup where
  source : TokenSource
  runtimeHelperBin : Option String
  runtimeBaseUrl : Option String

/-- Tokens that grow by a letter, and neither a helper nor a base URL. -/
def TaskSetup.tally : TaskSetup := ⟨.tally, none, none⟩

namespace BuildTaskOptions

def applyConversationRuntimeContext (options : BuildTaskOptions)
    (userId conversationId : String) (helperBin baseUrl runtimeToken : Option String) :
    BuildTaskOptions where
  context :=
    { options.context with
      runtimeEnv := (options.context.runtimeEnv.filter fun entry =>
        entry.1 ∉ [aionuiUserIdEnv, aionuiConversationIdEnv, aionuiHelperBinEnv, aionuiBaseUrlEnv,
          aionuiRuntimeTokenEnv]) ++
        [(aionuiUserIdEnv, userId), (aionuiConversationIdEnv, conversationId)] ++
        (helperBin.map (aionuiHelperBinEnv, ·)).toList ++
        (baseUrl.map (aionuiBaseUrlEnv, ·)).toList ++
        (runtimeToken.map (aionuiRuntimeTokenEnv, ·)).toList }
  runtimeCapabilities := ⟨some conversationRuntimeContextVersion⟩

def withRuntimeToken (options : BuildTaskOptions) (token : String) : BuildTaskOptions :=
  { options with
    context := { options.context with
      runtimeEnv := options.context.runtimeEnv.filter (·.1 ≠ aionuiRuntimeTokenEnv) ++
        [(aionuiRuntimeTokenEnv, token)] } }

def runtimeToken (options : BuildTaskOptions) : Option String :=
  (options.context.runtimeEnv.find? (·.1 = aionuiRuntimeTokenEnv)).map (·.2)

@[simp] theorem runtimeToken_withRuntimeToken (options : BuildTaskOptions) (token : String) :
    (options.withRuntimeToken token).runtimeToken = some token := by
  have hnone : (options.context.runtimeEnv.filter (·.1 ≠ aionuiRuntimeTokenEnv)).find?
      (·.1 = aionuiRuntimeTokenEnv) = none := by
    simp
  unfold runtimeToken withRuntimeToken
  rw [List.find?_append, hnone]
  simp

theorem runtimeToken_applyConversationRuntimeContext (options : BuildTaskOptions)
    (userId conversationId : String) (helperBin baseUrl runtimeToken : Option String) :
    (options.applyConversationRuntimeContext userId conversationId helperBin baseUrl
      runtimeToken).runtimeToken = runtimeToken := by
  unfold BuildTaskOptions.runtimeToken applyConversationRuntimeContext
  rw [List.find?_append, List.find?_append, List.find?_append, List.find?_append]
  have hkept : (options.context.runtimeEnv.filter fun entry =>
      entry.1 ∉ [aionuiUserIdEnv, aionuiConversationIdEnv, aionuiHelperBinEnv, aionuiBaseUrlEnv,
        aionuiRuntimeTokenEnv]).find? (·.1 = aionuiRuntimeTokenEnv) = none := by
    rw [List.find?_eq_none]
    intro entry hentry
    have := (List.mem_filter.mp hentry).2
    simp only [List.mem_cons, not_or, decide_eq_true_eq] at this
    simpa using this.2.2.2.2.1
  rw [hkept]
  cases helperBin <;> cases baseUrl <;> cases runtimeToken <;>
    simp [aionuiUserIdEnv, aionuiConversationIdEnv, aionuiHelperBinEnv, aionuiBaseUrlEnv,
      aionuiRuntimeTokenEnv]

end BuildTaskOptions

/-- An agent that a factory call has returned, with the reasons of the kills it was sent. -/
structure AgentInstance where
  conversationId : String
  options : BuildTaskOptions
  agentType : AgentType
  status : Option ConversationStatus
  lastActivityAt : ℤ
  kills : List (Option AgentKillReason)
  deriving DecidableEq

/-- The agent is given by its place among the agents built. -/
structure ManagedAgentTask where
  agent : ℕ
  runtimeCapabilities : RuntimeCapabilities
  deriving DecidableEq

/-- An `OnceCell` and the call that is initialising it. -/
structure TaskSlot where
  cell : Option ManagedAgentTask
  initialiser : Option ℕ

inductive BuildStage where
  | check
  | rebuild
  | refresh
  | enter
  | waiting (slot : ℕ)
  | building (slot : ℕ)
  | returned (agent : ℕ)
  | failed
  deriving DecidableEq

def BuildStage.building? : BuildStage → Option ℕ
  | .building slot => some slot
  | _ => none

/-- A call of `get_or_build_task`. Of its history, how many tasks had been removed when the token
of its options was issued. -/
structure BuildCall where
  conversationId : String
  options : BuildTaskOptions
  stage : BuildStage
  since : ℕ
  deriving DecidableEq

/-- The future of `kill_and_wait` for a slot that was not initialised. -/
structure KillWait where
  slot : ℕ
  reason : Option AgentKillReason
  done : Bool

/-- The manager, its calls, the runtime tokens, and as history whose tasks have been removed. -/
structure TaskWorld where
  tasks : Dict String ℕ
  slots : List TaskSlot
  agents : List AgentInstance
  calls : List BuildCall
  waits : List KillWait
  clears : List (List String)
  tokens : RuntimeTokenService
  removed : List String

/-- What a factory call has come to. -/
inductive FactoryReply where
  | pending
  | built (agentType : AgentType) (status : Option ConversationStatus) (lastActivityAt : ℤ)
  | failed

inductive TaskStep where
  | call (conversationId : String) (options : BuildTaskOptions)
  | send (options : BuildTaskOptions)
  | advance (k : ℕ) (reply : FactoryReply)
  | kill (conversationId : String) (reason : Option AgentKillReason)
  | killAndWait (conversationId : String) (reason : Option AgentKillReason)
  | poll (j : ℕ)
  | clear (order : IterOrder String)
  | clearNext (j : ℕ)
  | report (a : ℕ) (status : Option ConversationStatus) (lastActivityAt : ℤ)

namespace TaskWorld

def empty : TaskWorld := ⟨∅, [], [], [], [], [], .new, []⟩

variable (setup : TaskSetup) (w : TaskWorld)

def cellAt (slot : ℕ) : Option ManagedAgentTask := w.slots[slot]?.bind (·.cell)

def initialisedManagedTask (conversationId : String) : Option ManagedAgentTask :=
  (w.tasks.lookup conversationId).bind w.cellAt

def killAgent (a : ℕ) (reason : Option AgentKillReason) : TaskWorld :=
  { w with agents := w.agents.modify a fun agent =>
      { agent with kills := agent.kills ++ [reason] } }

/-- `kill`. Either manager's own `kill` succeeds. -/
def kill (conversationId : String) (reason : Option AgentKillReason) : TaskWorld :=
  match w.tasks.lookup conversationId with
  | none => w
  | some slot =>
    let w' := { w with
      tasks := w.tasks.erase conversationId
      tokens := w.tokens.invalidateConversationId conversationId
      removed := w.removed ++ [conversationId] }
    match w.cellAt slot with
    | some managed => w'.killAgent managed.agent reason
    | none => w'

/-- `on_conversation_deleted`. -/
def onConversationDeleted (conversationId : String) : TaskWorld :=
  w.kill conversationId (some .conversationDeleted)

def killAndWait (conversationId : String) (reason : Option AgentKillReason) : TaskWorld :=
  match w.tasks.lookup conversationId with
  | none => w
  | some slot =>
    let w' := w.kill conversationId reason
    match w.cellAt slot with
    | some _ => w'
    | none => { w' with waits := w'.waits ++ [⟨slot, reason, false⟩] }

/-- What the future of `kill_and_wait` does when it is polled. -/
def poll (j : ℕ) : TaskWorld :=
  match w.waits[j]? with
  | none => w
  | some wait =>
    if wait.done then w
    else
      match w.slots[wait.slot]? with
      | none => w
      | some slot =>
        let w' := { w with waits := w.waits.set j { wait with done := true } }
        match slot.cell, slot.initialiser with
        | some managed, _ => w'.killAgent managed.agent wait.reason
        | none, none => w'
        | none, some _ => w

def clearNext (j : ℕ) : TaskWorld :=
  match w.clears[j]? with
  | some (key :: rest) => { w.kill key none with clears := w.clears.set j rest }
  | some [] | none => w

def openSlot (conversationId : String) : TaskWorld :=
  { w with
    tasks := w.tasks.insert conversationId w.slots.length
    slots := w.slots ++ [⟨none, none⟩] }

def setCall (k : ℕ) (call : BuildCall) : TaskWorld := { w with calls := w.calls.set k call }

def setSlot (slot : ℕ) (value : TaskSlot) : TaskWorld :=
  { w with slots := w.slots.set slot value }

def issueTeamToken (userId conversationId : String) : RuntimeTokenService × RuntimeTokenIssue :=
  w.tokens.issue setup.source userId conversationId teamRuntimeTokenSessionGeneration
    {.teamContext, .teamCall}

/-- `apply_conversation_runtime_context` and the call of `get_or_build_task` after it. -/
def send (options : BuildTaskOptions) : TaskWorld :=
  let context := options.context
  let apply := options.applyConversationRuntimeContext context.userId context.conversationId
    setup.runtimeHelperBin setup.runtimeBaseUrl
  if context.team then
    let (tokens, issue) := w.issueTeamToken setup context.userId context.conversationId
    { w with
      tokens
      calls := w.calls ++
        [⟨context.conversationId, apply (some issue.token), .check, w.removed.length⟩] }
  else
    { w with
      calls := w.calls ++ [⟨context.conversationId, apply none, .check, w.removed.length⟩] }

/-- `refresh_runtime_token_for_new_task`. -/
def refreshRuntimeTokenForNewTask (options : BuildTaskOptions) :
    RuntimeTokenService × BuildTaskOptions :=
  if options.context.team then
    let (tokens, issue) :=
      w.issueTeamToken setup options.context.userId options.context.conversationId
    (tokens, options.withRuntimeToken issue.token)
  else (w.tokens, options)

/-- The next step of a call of `get_or_build_task`. -/
def advance (k : ℕ) (call : BuildCall) (reply : FactoryReply) : TaskWorld :=
  match call.stage with
  | .check =>
    match w.initialisedManagedTask call.conversationId with
    | some existing =>
      if existing.runtimeCapabilities.satisfies call.options.runtimeCapabilities then
        w.setCall k { call with stage := .enter }
      else w.setCall k { call with stage := .rebuild }
    | none => w.setCall k { call with stage := .enter }
  | .rebuild =>
    (w.kill call.conversationId (some .runtimeCapabilityChanged)).setCall k
      { call with stage := .refresh }
  | .refresh =>
    let (tokens, options) := w.refreshRuntimeTokenForNewTask setup call.options
    { w with tokens }.setCall k { call with options, stage := .enter, since := w.removed.length }
  | .enter =>
    match w.tasks.lookup call.conversationId with
    | some slot => w.setCall k { call with stage := .waiting slot }
    | none =>
      (w.openSlot call.conversationId).setCall k { call with stage := .waiting w.slots.length }
  | .waiting slot =>
    match w.slots[slot]? with
    | none => w
    | some value =>
      match value.cell, value.initialiser with
      | some managed, _ => w.setCall k { call with stage := .returned managed.agent }
      | none, some _ => w
      | none, none => (w.setSlot slot ⟨none, some k⟩).setCall k { call with stage := .building slot }
  | .building slot =>
    match reply with
    | .pending => w
    | .failed => (w.setSlot slot ⟨none, none⟩).setCall k { call with stage := .failed }
    | .built agentType status lastActivityAt =>
      let managed : ManagedAgentTask := ⟨w.agents.length, call.options.runtimeCapabilities⟩
      let agent : AgentInstance :=
        ⟨call.conversationId, call.options, agentType, status, lastActivityAt, []⟩
      ({ w with agents := w.agents ++ [agent] }.setSlot slot ⟨some managed, none⟩).setCall k
        { call with stage := .returned w.agents.length }
  | .returned _ | .failed => w

def fire (w : TaskWorld) : TaskStep → TaskWorld
  | .call conversationId options =>
    { w with calls := w.calls ++ [⟨conversationId, options, .check, w.removed.length⟩] }
  | .send options => w.send setup options
  | .advance k reply =>
    match w.calls[k]? with
    | none => w
    | some call => w.advance setup k call reply
  | .kill conversationId reason => w.kill conversationId reason
  | .killAndWait conversationId reason => w.killAndWait conversationId reason
  | .poll j => w.poll j
  | .clear order => { w with clears := w.clears ++ [order.arrange w.tasks.keys] }
  | .clearNext j => w.clearNext j
  | .report a status lastActivityAt =>
    { w with agents := w.agents.modify a fun agent => { agent with status, lastActivityAt } }

/-- Any number of calls of the manager, their steps in any order. -/
def machine : Machine TaskWorld TaskStep where
  start w := w = empty
  admits _ _ := True
  fire := fire setup

instance decidableAdmits : ∀ w step, Decidable ((machine setup).admits w step) :=
  fun _ _ => .isTrue trivial

end TaskWorld

end AionCore.Agent
