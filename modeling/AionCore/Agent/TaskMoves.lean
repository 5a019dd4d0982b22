import AionCore.Agent.TaskManager
import AionCore.Lib.Registry

/-!
# Agents: what a step of the task manager can do

Every step is one of a few moves. The invariants of the manager are proved by the cases of
`TaskMove` and never unfold a step.
-/

namespace AionCore.Agent

/-- No task has been removed, and nobody waits for a slot for which nobody waited. -/
structure TaskWorld.KeepsPast (w w' : TaskWorld) : Prop where
  waits : ∀ wait ∈ w'.waits, ∃ old ∈ w.waits, wait.slot = old.slot
  removed : w'.removed = w.removed

/-- Slots, agents and who has which slot are as they were. -/
structure TaskWorld.SameTasks (w w' : TaskWorld) : Prop where
  tasks : w'.tasks = w.tasks
  slots : w'.slots = w.slots
  agents : w'.agents = w.agents
  past : w.KeepsPast w'

/-- The next stage of a call that neither enters nor leaves a slot. -/
inductive BuildStage.Turns : BuildStage → BuildStage → Prop
  | passed : Turns .check .enter
  | outdated : Turns .check .rebuild
  | killed : Turns .rebuild .refresh

def TaskWorld.CallsAfterKill (w w' : TaskWorld) : Prop :=
  w'.calls = w.calls ∨ ∃ k call, w.calls[k]? = some call ∧ call.stage = .rebuild ∧
    w'.calls = w.calls.set k { call with stage := .refresh }

open TaskWorld in
inductive TaskMove (setup : TaskSetup) (w : TaskWorld) (step : TaskStep) (w' : TaskWorld) : Prop
  | kept (same : SameTasks w w') (calls : w'.calls = w.calls) (tokens : w'.tokens = w.tokens)
  | called (conversationId : String) (options : BuildTaskOptions)
    (shape : step = .call conversationId options) (same : SameTasks w w')
    (calls : w'.calls = w.calls ++ [⟨conversationId, options, .check, w.removed.length⟩])
    (tokens : w'.tokens = w.tokens)
  | sent (options : BuildTaskOptions) (shape : step = .send options) (same : SameTasks w w')
    (eq : w' = w.send setup options)
  | staged (k : ℕ) (call : BuildCall) (stage : BuildStage) (found : w.calls[k]? = some call)
    (turns : call.stage.Turns stage) (same : SameTasks w w')
    (calls : w'.calls = w.calls.set k { call with stage }) (tokens : w'.tokens = w.tokens)
  | refreshed (k : ℕ) (call : BuildCall) (found : w.calls[k]? = some call)
    (stage : call.stage = .refresh) (same : SameTasks w w')
    (calls : w'.calls = w.calls.set k
      { call with
        options := (w.refreshRuntimeTokenForNewTask setup call.options).2
        stage := .enter
        since := w.removed.length })
    (tokens : w'.tokens = (w.refreshRuntimeTokenForNewTask setup call.options).1)
  | removed (conversationId : String) (slot : ℕ) (reason : Option AgentKillReason)
    (stored : w.tasks.lookup conversationId = some slot)
    (tasks : w'.tasks = w.tasks.erase conversationId) (slots : w'.slots = w.slots)
    (agents : w'.agents = (w.cellAt slot).elim w.agents fun managed =>
      (w.killAgent managed.agent reason).agents)
    (calls : CallsAfterKill w w')
    (tokens : w'.tokens = w.tokens.invalidateConversationId conversationId)
    (waits : ∀ wait ∈ w'.waits, (∃ old ∈ w.waits, wait.slot = old.slot) ∨ wait.slot = slot)
    (removed : w'.removed = w.removed ++ [conversationId])
  | joined (k : ℕ) (call : BuildCall) (slot : ℕ) (reply : FactoryReply)
    (shape : step = .advance k reply) (found : w.calls[k]? = some call)
    (stage : call.stage = .enter) (stored : w.tasks.lookup call.conversationId = some slot)
    (same : SameTasks w w')
    (calls : w'.calls = w.calls.set k { call with stage := .waiting slot })
    (tokens : w'.tokens = w.tokens)
  | opened (k : ℕ) (call : BuildCall) (found : w.calls[k]? = some call)
    (stage : call.stage = .enter) (free : w.tasks.lookup call.conversationId = none)
    (tasks : w'.tasks = w.tasks.insert call.conversationId w.slots.length)
    (slots : w'.slots = w.slots ++ [⟨none, none⟩]) (agents : w'.agents = w.agents)
    (calls : w'.calls = w.calls.set k { call with stage := .waiting w.slots.length })
    (tokens : w'.tokens = w.tokens) (past : KeepsPast w w')
  | received (k : ℕ) (call : BuildCall) (slot : ℕ) (managed : ManagedAgentTask)
    (found : w.calls[k]? = some call) (stage : call.stage = .waiting slot)
    (cell : w.cellAt slot = some managed) (same : SameTasks w w')
    (calls : w'.calls = w.calls.set k { call with stage := .returned managed.agent })
    (tokens : w'.tokens = w.tokens)
  | started (k : ℕ) (call : BuildCall) (slot : ℕ) (found : w.calls[k]? = some call)
    (stage : call.stage = .waiting slot) (empty : w.slots[slot]? = some ⟨none, none⟩)
    (tasks : w'.tasks = w.tasks) (slots : w'.slots = w.slots.set slot ⟨none, some k⟩)
    (agents : w'.agents = w.agents)
    (calls : w'.calls = w.calls.set k { call with stage := .building slot })
    (tokens : w'.tokens = w.tokens) (past : KeepsPast w w')
  | failed (k : ℕ) (call : BuildCall) (slot : ℕ) (found : w.calls[k]? = some call)
    (stage : call.stage = .building slot) (tasks : w'.tasks = w.tasks)
    (slots : w'.slots = w.slots.set slot ⟨none, none⟩) (agents : w'.agents = w.agents)
    (calls : w'.calls = w.calls.set k { call with stage := .failed })
    (tokens : w'.tokens = w.tokens) (past : KeepsPast w w')
  | built (k : ℕ) (call : BuildCall) (slot : ℕ) (agent : AgentInstance)
    (reply : FactoryReply) (shape : step = .advance k reply)
    (built : ∃ agentType status at', reply = .built agentType status at' ∧
      agent = ⟨call.conversationId, call.options, agentType, status, at', []⟩)
    (found : w.calls[k]? = some call) (stage : call.stage = .building slot)
    (tasks : w'.tasks = w.tasks)
    (slots : w'.slots =
      w.slots.set slot ⟨some ⟨w.agents.length, call.options.runtimeCapabilities⟩, none⟩)
    (agents : w'.agents = w.agents ++ [agent])
    (calls : w'.calls = w.calls.set k { call with stage := .returned w.agents.length })
    (tokens : w'.tokens = w.tokens) (past : KeepsPast w w')
  | killed (wait : KillWait) (managed : ManagedAgentTask) (reason : Option AgentKillReason)
    (cell : w.cellAt wait.slot = some managed) (tasks : w'.tasks = w.tasks)
    (slots : w'.slots = w.slots) (agents : w'.agents = (w.killAgent managed.agent reason).agents)
    (calls : w'.calls = w.calls) (tokens : w'.tokens = w.tokens) (waiting : wait ∈ w.waits)
    (past : KeepsPast w w')
  | reported (a : ℕ) (status : Option AionCore.Conversation.ConversationStatus)
    (lastActivityAt : ℤ) (tasks : w'.tasks = w.tasks) (slots : w'.slots = w.slots)
    (agents : w'.agents = w.agents.modify a fun agent => { agent with status, lastActivityAt })
    (calls : w'.calls = w.calls) (tokens : w'.tokens = w.tokens) (past : KeepsPast w w')
    (shape : step = .report a status lastActivityAt)

namespace TaskWorld

variable {setup : TaskSetup} {w w' : TaskWorld} {step : TaskStep}

theorem KeepsPast.of_eq (hwaits : w'.waits = w.waits) (hremoved : w'.removed = w.removed) :
    w.KeepsPast w' :=
  ⟨fun wait hwait => ⟨wait, hwaits ▸ hwait, rfl⟩, hremoved⟩

theorem SameTasks.refl (w : TaskWorld) : SameTasks w w := ⟨rfl, rfl, rfl, .of_eq rfl rfl⟩

theorem cellAt_eq_some {slot : ℕ} {managed : ManagedAgentTask} :
    w.cellAt slot = some managed ↔ ∃ initialiser, w.slots[slot]? = some ⟨some managed, initialiser⟩ := by
  unfold cellAt
  rw [Option.bind_eq_some_iff]
  constructor
  · rintro ⟨⟨cell, initialiser⟩, hslot, hcell⟩
    obtain rfl : cell = some managed := hcell
    exact ⟨initialiser, hslot⟩
  · rintro ⟨initialiser, hslot⟩
    exact ⟨_, hslot, rfl⟩

/-- `kill` removes the task of the conversation, if it has one, and kills its agent, if there is
one. -/
theorem kill_cases (w : TaskWorld) (conversationId : String) (reason : Option AgentKillReason) :
    w.tasks.lookup conversationId = none ∧ w.kill conversationId reason = w ∨
      ∃ slot, w.tasks.lookup conversationId = some slot ∧
        w.kill conversationId reason =
          { w with
            tasks := w.tasks.erase conversationId
            tokens := w.tokens.invalidateConversationId conversationId
            removed := w.removed ++ [conversationId]
            agents := (w.cellAt slot).elim w.agents fun managed =>
              (w.killAgent managed.agent reason).agents } := by
  cases hstored : w.tasks.lookup conversationId with
  | none =>
    left
    refine ⟨rfl, ?_⟩
    simp only [kill, hstored]
  | some slot =>
    right
    refine ⟨slot, rfl, ?_⟩
    simp only [kill, hstored]
    cases w.cellAt slot <;> rfl

theorem move_kill (conversationId : String) (reason : Option AgentKillReason)
    {clears : List (List String)} :
    TaskMove setup w step { w.kill conversationId reason with clears } := by
  obtain ⟨-, hkill⟩ | ⟨slot, hstored, hkill⟩ := w.kill_cases conversationId reason
  · rw [hkill]
    exact .kept ⟨rfl, rfl, rfl, .of_eq rfl rfl⟩ rfl rfl
  · rw [hkill]
    exact .removed conversationId slot reason hstored rfl rfl rfl (.inl rfl) rfl
      (fun wait hwait => .inl ⟨wait, hwait, rfl⟩) rfl

theorem move_killAndWait (conversationId : String) (reason : Option AgentKillReason) :
    TaskMove setup w step (w.killAndWait conversationId reason) := by
  unfold killAndWait
  split
  · exact .kept (.refl w) rfl rfl
  · rename_i slot hslot
    obtain ⟨hnone, -⟩ | ⟨slot', hstored, hkill⟩ := w.kill_cases conversationId reason
    · rw [hnone] at hslot
      cases hslot
    · rw [hkill]
      obtain rfl : slot = slot' := Option.some.inj (hslot.symm.trans hstored)
      split
      · exact .removed conversationId slot reason hstored rfl rfl rfl (.inl rfl) rfl
          (fun wait hwait => .inl ⟨wait, hwait, rfl⟩) rfl
      · refine .removed conversationId slot reason hstored rfl rfl rfl (.inl rfl) rfl ?_ rfl
        intro wait hwait
        obtain hold | hnew := List.mem_append.mp hwait
        · exact .inl ⟨wait, hold, rfl⟩
        · rw [List.mem_singleton.mp hnew]
          exact .inr rfl

theorem move_poll (j : ℕ) : TaskMove setup w step (w.poll j) := by
  unfold poll
  split
  · exact .kept (.refl w) rfl rfl
  · rename_i wait hwait
    have hmem : wait ∈ w.waits := List.mem_of_getElem? hwait
    have hslots : ∀ other ∈ w.waits.set j { wait with done := true },
        ∃ old ∈ w.waits, other.slot = old.slot := by
      intro other hother
      obtain hold | rfl := List.mem_or_eq_of_mem_set hother
      · exact ⟨other, hold, rfl⟩
      · exact ⟨wait, hmem, rfl⟩
    split
    · exact .kept (.refl w) rfl rfl
    · split
      · exact .kept (.refl w) rfl rfl
      · rename_i slot hslot
        split
        · rename_i managed hcell
          have hmanaged : w.cellAt wait.slot = some managed := by
            unfold cellAt
            rw [hslot]
            exact hcell
          exact .killed wait managed wait.reason hmanaged rfl rfl rfl rfl rfl hmem ⟨hslots, rfl⟩
        · exact .kept ⟨rfl, rfl, rfl, hslots, rfl⟩ rfl rfl
        · exact .kept (.refl w) rfl rfl

theorem move_advance {k : ℕ} {call : BuildCall} (hk : w.calls[k]? = some call)
    (reply : FactoryReply) :
    TaskMove setup w (.advance k reply) (w.advance setup k call reply) := by
  unfold advance
  split
  · rename_i hstage
    split
    · split
      · exact .staged k call _ hk (hstage ▸ .passed) ⟨rfl, rfl, rfl, .of_eq rfl rfl⟩ rfl rfl
      · exact .staged k call _ hk (hstage ▸ .outdated) ⟨rfl, rfl, rfl, .of_eq rfl rfl⟩ rfl rfl
    · exact .staged k call _ hk (hstage ▸ .passed) ⟨rfl, rfl, rfl, .of_eq rfl rfl⟩ rfl rfl
  · rename_i hstage
    obtain ⟨-, hkill⟩ | ⟨slot, hstored, hkill⟩ :=
      w.kill_cases call.conversationId (some .runtimeCapabilityChanged)
    · rw [hkill]
      exact .staged k call _ hk (hstage ▸ .killed) ⟨rfl, rfl, rfl, .of_eq rfl rfl⟩ rfl rfl
    · rw [hkill]
      exact .removed call.conversationId slot (some .runtimeCapabilityChanged) hstored rfl rfl rfl
        (.inr ⟨k, call, hk, hstage, rfl⟩) rfl (fun wait hwait => .inl ⟨wait, hwait, rfl⟩) rfl
  · rename_i hstage
    exact .refreshed k call hk hstage ⟨rfl, rfl, rfl, .of_eq rfl rfl⟩ rfl rfl
  · rename_i hstage
    split
    · rename_i slot hslot
      exact .joined k call slot reply rfl hk hstage hslot ⟨rfl, rfl, rfl, .of_eq rfl rfl⟩ rfl rfl
    · rename_i hfree
      exact .opened k call hk hstage hfree rfl rfl rfl rfl rfl (.of_eq rfl rfl)
  · rename_i slot hstage
    split
    · exact .kept (.refl w) rfl rfl
    · rename_i value hvalue
      split
      · rename_i managed hcell
        have hmanaged : w.cellAt slot = some managed := by
          unfold cellAt
          rw [hvalue]
          exact hcell
        exact .received k call slot managed hk hstage hmanaged ⟨rfl, rfl, rfl, .of_eq rfl rfl⟩ rfl rfl
      · exact .kept (.refl w) rfl rfl
      · rename_i hcell hinitialiser
        obtain ⟨cell, initialiser⟩ := value
        obtain rfl : cell = none := hcell
        obtain rfl : initialiser = none := hinitialiser
        exact .started k call slot hk hstage hvalue rfl rfl rfl rfl rfl (.of_eq rfl rfl)
  · rename_i slot hstage
    split
    · exact .kept (.refl w) rfl rfl
    · exact .failed k call slot hk hstage rfl rfl rfl rfl rfl (.of_eq rfl rfl)
    · rename_i agentType status at'
      exact .built k call slot _ _ rfl ⟨agentType, status, at', rfl, rfl⟩ hk hstage rfl rfl rfl rfl
        rfl (.of_eq rfl rfl)
  · exact .kept (.refl w) rfl rfl
  · exact .kept (.refl w) rfl rfl

theorem sameTasks_send (options : BuildTaskOptions) : SameTasks w (w.send setup options) := by
  unfold send
  dsimp only
  split
  · exact ⟨rfl, rfl, rfl, .of_eq rfl rfl⟩
  · exact ⟨rfl, rfl, rfl, .of_eq rfl rfl⟩

theorem move_fire (setup : TaskSetup) (w : TaskWorld) (step : TaskStep) :
    TaskMove setup w step (w.fire setup step) := by
  cases step with
  | call conversationId options =>
    exact .called conversationId options rfl ⟨rfl, rfl, rfl, .of_eq rfl rfl⟩ rfl rfl
  | send options => exact .sent options rfl (sameTasks_send options) rfl
  | advance k reply =>
    simp only [fire]
    split
    · exact .kept (.refl w) rfl rfl
    · rename_i call hk
      exact move_advance hk reply
  | kill conversationId reason => exact move_kill conversationId reason
  | killAndWait conversationId reason => exact move_killAndWait conversationId reason
  | poll j => exact move_poll j
  | clear order => exact .kept ⟨rfl, rfl, rfl, .of_eq rfl rfl⟩ rfl rfl
  | clearNext j =>
    simp only [fire, clearNext]
    split
    · exact move_kill _ none
    · exact .kept (.refl w) rfl rfl
    · exact .kept (.refl w) rfl rfl
  | report a status lastActivityAt =>
    exact .reported a status lastActivityAt rfl rfl rfl rfl rfl (.of_eq rfl rfl) rfl

end TaskWorld

end AionCore.Agent
