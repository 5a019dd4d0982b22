import AionCore.Agent.TaskMoves

/-!
# Agents: who owns an agent

A factory call that outlives its slot returns an agent which is in no map. As long as every agent
is returned to a slot that is still in place, each agent is stored or killed, and so there is one
of a conversation at most.
-/

namespace AionCore.Agent

open Registry
open AionCore.Conversation (AgentType ConversationStatus)

theorem BuildStage.Turns.ne_building {stage stage' : BuildStage} {slot : ℕ}
    (h : stage.Turns stage') : stage' ≠ .building slot := by
  cases h with
  | passed | outdated | killed => simp

namespace TaskWorld

def Stores (w : TaskWorld) (conversationId : String) (a : ℕ) : Prop :=
  ∃ managed, w.initialisedManagedTask conversationId = some managed ∧ managed.agent = a

def Accounted (w : TaskWorld) : Prop :=
  ∀ (a : ℕ) (agent : AgentInstance), w.agents[a]? = some agent →
    w.Stores agent.conversationId a ∨ agent.kills ≠ []

def FactoryInProgress (w : TaskWorld) : Prop :=
  ∃ (k : ℕ) (call : BuildCall) (slot : ℕ), w.calls[k]? = some call ∧ call.stage = .building slot

def OneAlive (w : TaskWorld) : Prop :=
  ∀ (a b : ℕ) (agent agent' : AgentInstance), w.agents[a]? = some agent →
    w.agents[b]? = some agent' → agent.conversationId = agent'.conversationId →
    agent.kills = [] → agent'.kills = [] → a = b

/-- A factory call that returns an agent initialises the slot that its conversation has. -/
def ReturnsInPlace (w : TaskWorld) : TaskStep → Prop
  | .advance k (.built _ _ _) =>
    ∀ call ∈ w.calls[k]?, ∀ slot ∈ call.stage.building?,
      w.tasks.lookup call.conversationId = some slot
  | _ => True

instance decidableReturnsInPlace (w : TaskWorld) : ∀ step, Decidable (w.ReturnsInPlace step)
  | .advance k (.built _ _ _) => inferInstanceAs (Decidable (∀ call ∈ w.calls[k]?,
      ∀ slot ∈ call.stage.building?, w.tasks.lookup call.conversationId = some slot))
  | .advance _ .pending | .advance _ .failed | .call _ _ | .send _ | .kill _ _ | .killAndWait _ _
  | .poll _ | .clear _ | .clearNext _ | .report _ _ _ => .isTrue trivial

def SlotsHeld (w : TaskWorld) : Prop :=
  ∀ (k : ℕ) (call : BuildCall) (slot : ℕ), w.calls[k]? = some call → call.stage = .building slot →
    w.slots[slot]? = some ⟨none, some k⟩

variable {setup : TaskSetup} {w w' : TaskWorld} {step : TaskStep} {conversationId : String}
  {a j k slot : ℕ} {agent : AgentInstance} {call new old : BuildCall}

theorem building_of_replace (hk : w.calls[k]? = some old) (hcalls : w'.calls = w.calls.set k new)
    (hnew : ∀ slot, new.stage ≠ .building slot) (hj : w'.calls[j]? = some call)
    (hstage : call.stage = .building slot) : j ≠ k ∧ w.calls[j]? = some call := by
  rw [hcalls, getElem?_replace hk] at hj
  obtain ⟨-, rfl⟩ | h := hj
  · exact absurd hstage (hnew slot)
  · exact h

theorem building_of_add (hcalls : w'.calls = w.calls ++ [new]) (hnew : new.stage = .check)
    (hj : w'.calls[j]? = some call) (hstage : call.stage = .building slot) :
    w.calls[j]? = some call := by
  rw [hcalls, getElem?_add] at hj
  obtain hj | ⟨-, rfl⟩ := hj
  · exact hj
  · rw [hnew] at hstage
    cases hstage

theorem CallsAfterKill.building (hcalls : CallsAfterKill w w') (hj : w'.calls[j]? = some call)
    (hstage : call.stage = .building slot) : w.calls[j]? = some call := by
  obtain hsame | ⟨k, old, hk, -, hset⟩ := hcalls
  · rwa [hsame] at hj
  · exact (building_of_replace hk hset (by simp) hj hstage).2

theorem calls_send (setup : TaskSetup) (w : TaskWorld) (options : BuildTaskOptions) :
    ∃ new : BuildCall, new.stage = .check ∧
      new.conversationId = options.context.conversationId ∧
      (w.send setup options).calls = w.calls ++ [new] := by
  unfold send
  dsimp only
  split
  · exact ⟨_, rfl, rfl, rfl⟩
  · exact ⟨_, rfl, rfl, rfl⟩

variable {slot' : ℕ} {value : TaskSlot}

/-- A builder keeps its slot while another slot, or one of another builder, is set. -/
theorem SlotsHeld.set {new : TaskSlot} (held : w.SlotsHeld)
    (hslot' : w.slots[slot']? = some value) (hother : value.initialiser ≠ some j)
    (hslots : w'.slots = w.slots.set slot' new) (hj : w.calls[j]? = some call)
    (hstage : call.stage = .building slot) : w'.slots[slot]? = some ⟨none, some j⟩ := by
  have hheld := held j call slot hj hstage
  rw [hslots, getElem?_replace hslot']
  refine .inr ⟨?_, hheld⟩
  rintro rfl
  rw [hslot'] at hheld
  rw [Option.some.inj hheld] at hother
  exact hother rfl

theorem SlotsHeld.move (held : w.SlotsHeld) (move : TaskMove setup w step w') : w'.SlotsHeld := by
  intro j call slot hj hstage
  cases move with
  | kept same calls _ =>
    rw [same.slots]
    rw [calls] at hj
    exact held j call slot hj hstage
  | called _ _ _ same calls _ =>
    rw [same.slots]
    exact held j call slot (building_of_add calls rfl hj hstage) hstage
  | sent options _ same heq =>
    rw [same.slots]
    obtain ⟨new, hcheck, -, hcalls⟩ := calls_send setup w options
    rw [← heq] at hcalls
    exact held j call slot (building_of_add hcalls hcheck hj hstage) hstage
  | staged k old stage hk turns same calls _ =>
    rw [same.slots]
    exact held j call slot
      (building_of_replace hk calls (fun _ => turns.ne_building) hj hstage).2 hstage
  | refreshed k old hk _ same calls _ | joined k old _ _ _ hk _ _ same calls _ =>
    rw [same.slots]
    exact held j call slot (building_of_replace hk calls (by simp) hj hstage).2 hstage
  | removed _ _ _ _ _ slots _ calls _ =>
    rw [slots]
    exact held j call slot (calls.building hj hstage) hstage
  | opened k old hk _ _ _ slots _ calls _ =>
    rw [slots]
    exact getElem?_add_of_some
      (held j call slot (building_of_replace hk calls (by simp) hj hstage).2 hstage)
  | received k old _ _ hk _ _ same calls _ =>
    rw [same.slots]
    exact held j call slot (building_of_replace hk calls (by simp) hj hstage).2 hstage
  | started k old slot' hk _ hempty _ slots _ calls _ =>
    rw [calls, getElem?_replace hk] at hj
    obtain ⟨rfl, rfl⟩ | ⟨-, hj⟩ := hj
    · obtain rfl := BuildStage.building.inj hstage
      rw [slots, getElem?_replace hempty]
      exact .inl ⟨rfl, rfl⟩
    · exact held.set hempty (by simp) slots hj hstage
  | failed k old slot' hk hbuilding _ slots _ calls _ =>
    obtain ⟨hne, hj⟩ := building_of_replace hk calls (by simp) hj hstage
    exact held.set (held k old slot' hk hbuilding) (by simp [Ne.symm hne]) slots hj hstage
  | built k old slot' _ _ _ _ hk hbuilding _ slots _ calls _ =>
    obtain ⟨hne, hj⟩ := building_of_replace hk calls (by simp) hj hstage
    exact held.set (held k old slot' hk hbuilding) (by simp [Ne.symm hne]) slots hj hstage
  | killed _ _ _ _ _ slots _ calls _ | reported _ _ _ _ slots _ calls _ =>
    rw [slots]
    rw [calls] at hj
    exact held j call slot hj hstage

theorem slotsHeld_of_reachable (h : (machine setup).Reachable w) : w.SlotsHeld :=
  h.invariant (P := SlotsHeld)
    (fun _ hs k call slot hk => (by subst hs; cases hk))
    fun w step held _ => held.move (move_fire setup w step)

variable {reason : Option AgentKillReason}

theorem getElem?_killAgent {b : ℕ} {agent : AgentInstance}
    (h : (w.killAgent a reason).agents[b]? = some agent) :
    agent.kills ≠ [] ∧ b = a ∧ (∃ old, w.agents[b]? = some old ∧
      agent.conversationId = old.conversationId ∧ agent.options = old.options) ∨
      b ≠ a ∧ w.agents[b]? = some agent := by
  obtain ⟨rfl, old, hold, rfl⟩ | h := getElem?_change.mp h
  · exact .inl ⟨by simp, rfl, old, hold, rfl, rfl⟩
  · exact .inr h

variable {managed : ManagedAgentTask}

/-- The cell of a slot is not lost when another slot is set. -/
theorem cellAt_set {new : TaskSlot} (hslot' : w.slots[slot']? = some value)
    (hempty : value.cell = none) (hslots : w'.slots = w.slots.set slot' new)
    (h : w.cellAt slot = some managed) :
    w'.cellAt slot = some managed := by
  obtain ⟨initialiser, hslot⟩ := cellAt_eq_some.mp h
  refine cellAt_eq_some.mpr ⟨initialiser, ?_⟩
  rw [hslots, getElem?_replace hslot']
  refine .inr ⟨?_, hslot⟩
  rintro rfl
  rw [hslot] at hslot'
  rw [← Option.some.inj hslot'] at hempty
  cases hempty

theorem stores_iff : w.Stores conversationId a ↔
    ∃ slot managed, w.tasks.lookup conversationId = some slot ∧ w.cellAt slot = some managed ∧
      managed.agent = a := by
  unfold Stores initialisedManagedTask
  constructor
  · rintro ⟨managed, h, rfl⟩
    obtain ⟨slot, hslot, hcell⟩ := Option.bind_eq_some_iff.mp h
    exact ⟨slot, managed, hslot, hcell, rfl⟩
  · rintro ⟨slot, managed, hslot, hcell, rfl⟩
    exact ⟨managed, Option.bind_eq_some_iff.mpr ⟨slot, hslot, hcell⟩, rfl⟩

theorem Stores.mono (h : w.Stores conversationId a)
    (htasks : ∀ slot, w.tasks.lookup conversationId = some slot →
      w'.tasks.lookup conversationId = some slot)
    (hcells : ∀ slot managed, w.cellAt slot = some managed → w'.cellAt slot = some managed) :
    w'.Stores conversationId a := by
  obtain ⟨slot, managed, hslot, hcell, rfl⟩ := stores_iff.mp h
  exact stores_iff.mpr ⟨slot, managed, htasks slot hslot, hcells slot managed hcell, rfl⟩

theorem SameTasks.cellAt (same : SameTasks w w') (slot : ℕ) : w'.cellAt slot = w.cellAt slot := by
  unfold TaskWorld.cellAt
  rw [same.slots]

/-- A conversation keeps its slot until its task is removed. -/
theorem tasks_move (move : TaskMove setup w step w') {c : String} {slot : ℕ}
    (h : w.tasks.lookup c = some slot) :
    w'.tasks.lookup c = some slot ∨ w'.removed = w.removed ++ [c] := by
  cases move with
  | kept same _ _ => exact .inl (same.tasks ▸ h)
  | called _ _ _ same _ _ => exact .inl (same.tasks ▸ h)
  | sent _ _ same _ => exact .inl (same.tasks ▸ h)
  | staged _ _ _ _ _ same _ _ => exact .inl (same.tasks ▸ h)
  | refreshed _ _ _ _ same _ _ => exact .inl (same.tasks ▸ h)
  | removed conversationId _ _ _ tasks _ _ _ _ _ removed =>
    by_cases hc : c = conversationId
    · subst hc
      exact .inr removed
    · left
      rw [tasks, Dict.lookup_erase', if_neg hc]
      exact h
  | joined _ _ _ _ _ _ _ _ same _ _ => exact .inl (same.tasks ▸ h)
  | opened _ call _ _ hfree tasks _ _ _ _ =>
    left
    have hc : c ≠ call.conversationId := by
      rintro rfl
      rw [hfree] at h
      cases h
    rw [tasks, Dict.lookup_insert', if_neg hc]
    exact h
  | received _ _ _ _ _ _ _ same _ _ => exact .inl (same.tasks ▸ h)
  | started _ _ _ _ _ _ tasks _ _ _ _ => exact .inl (tasks ▸ h)
  | failed _ _ _ _ _ tasks _ _ _ _ => exact .inl (tasks ▸ h)
  | built _ _ _ _ _ _ _ _ _ tasks _ _ _ _ => exact .inl (tasks ▸ h)
  | killed _ _ _ _ tasks _ _ _ _ => exact .inl (tasks ▸ h)
  | reported _ _ _ tasks _ _ _ _ => exact .inl (tasks ▸ h)

/-- A full cell stays as it is. -/
theorem cells_move (held : w.SlotsHeld) (move : TaskMove setup w step w')
    (h : w.cellAt slot = some managed) :
    w'.cellAt slot = some managed := by
  have hsame : SameTasks w w' → w'.cellAt slot = some managed := fun same =>
    (same.cellAt slot).trans h
  have hkept : w'.slots = w.slots → w'.cellAt slot = some managed := by
    intro heq
    unfold cellAt at h ⊢
    rwa [heq]
  cases move with
  | kept same _ _ => exact hsame same
  | called _ _ _ same _ _ => exact hsame same
  | sent _ _ same _ => exact hsame same
  | staged _ _ _ _ _ same _ _ => exact hsame same
  | refreshed _ _ _ _ same _ _ => exact hsame same
  | removed _ _ _ _ _ slots _ _ _ => exact hkept slots
  | joined _ _ _ _ _ _ _ _ same _ _ => exact hsame same
  | opened _ _ _ _ _ _ slots _ _ _ =>
    obtain ⟨initialiser, hslot⟩ := cellAt_eq_some.mp h
    refine cellAt_eq_some.mpr ⟨initialiser, ?_⟩
    rw [slots]
    exact getElem?_add_of_some hslot
  | received _ _ _ _ _ _ _ same _ _ => exact hsame same
  | started _ _ _ _ _ hempty _ slots _ _ _ => exact cellAt_set hempty rfl slots h
  | failed k call slot hk hbuilding _ slots _ _ _ =>
    exact cellAt_set (held k call slot hk hbuilding) rfl slots h
  | built k call slot _ _ _ _ hk hbuilding _ slots _ _ _ =>
    exact cellAt_set (held k call slot hk hbuilding) rfl slots h
  | killed _ _ _ _ _ slots _ _ _ => exact hkept slots
  | reported _ _ _ _ slots _ _ _ => exact hkept slots

theorem stores_move (held : w.SlotsHeld) (move : TaskMove setup w step w')
    (h : w.Stores conversationId a) :
    w'.Stores conversationId a ∨ w'.removed = w.removed ++ [conversationId] := by
  obtain ⟨slot, managed, hslot, hcell, rfl⟩ := stores_iff.mp h
  obtain hkept | hremoved := tasks_move move hslot
  · exact .inl (stores_iff.mpr ⟨slot, managed, hkept, cells_move held move hcell, rfl⟩)
  · exact .inr hremoved

def Condemned (w w' : TaskWorld) (slot : ℕ) : Prop :=
  (∃ conversationId, w.tasks.lookup conversationId = some slot ∧
    w'.removed = w.removed ++ [conversationId]) ∨ ∃ wait ∈ w.waits, wait.slot = slot

/-- What has become of an agent: it is killed when it is no longer stored where it was, and only if
it sits in a slot that is condemned. -/
structure AgentAfter (w w' : TaskWorld) (a : ℕ) (agent agent' : AgentInstance) : Prop where
  conversation : agent'.conversationId = agent.conversationId
  options : agent'.options = agent.options
  killed : agent.kills ≠ [] → agent'.kills ≠ []
  stored : w.Stores agent.conversationId a →
    w'.Stores agent.conversationId a ∨ agent'.kills ≠ []
  hit : agent'.kills ≠ [] → agent.kills ≠ [] ∨
    ∃ slot managed, w.cellAt slot = some managed ∧ managed.agent = a ∧ Condemned w w' slot

/-- The move is the return of the agent by the factory that the call has run. -/
structure BuiltBy (w w' : TaskWorld) (step : TaskStep) (k : ℕ) (call : BuildCall) (slot a : ℕ)
    (agent : AgentInstance) : Prop where
  step : ∃ agentType status at', step = .advance k (.built agentType status at') ∧
    agent = ⟨call.conversationId, call.options, agentType, status, at', []⟩
  found : w.calls[k]? = some call
  stage : call.stage = .building slot
  place : a = w.agents.length
  tasks : w'.tasks = w.tasks
  cell : w'.cellAt slot = some ⟨a, call.options.runtimeCapabilities⟩
  tokens : w'.tokens = w.tokens
  removed : w'.removed = w.removed

theorem AgentAfter.frame (htasks : ∀ slot, w.tasks.lookup agent.conversationId = some slot →
      w'.tasks.lookup agent.conversationId = some slot)
    (hcells : ∀ slot managed, w.cellAt slot = some managed → w'.cellAt slot = some managed) :
    AgentAfter w w' a agent agent :=
  ⟨rfl, rfl, id, fun h => .inl (h.mono htasks hcells), .inl⟩

variable {agent' : AgentInstance}

/-- A removal kills the agent that it takes out of the map. -/
theorem agentAfter_removed (hstored : w.tasks.lookup conversationId = some slot)
    (htasks : w'.tasks = w.tasks.erase conversationId) (hslots : w'.slots = w.slots)
    (hagents : w'.agents = (w.cellAt slot).elim w.agents fun managed =>
      (w.killAgent managed.agent reason).agents)
    (hremoved : w'.removed = w.removed ++ [conversationId]) (ha : w'.agents[a]? = some agent') :
    ∃ agent, w.agents[a]? = some agent ∧ AgentAfter w w' a agent agent' := by
  have hkept : ∀ agent : AgentInstance,
      (∀ managed, w.cellAt slot = some managed → a ≠ managed.agent) →
      w.Stores agent.conversationId a → w'.Stores agent.conversationId a := by
    intro agent hother hstores
    obtain ⟨slot', managed, hslot', hcell, rfl⟩ := stores_iff.mp hstores
    have hne : agent.conversationId ≠ conversationId := by
      intro he
      rw [he, hstored] at hslot'
      obtain rfl := Option.some.inj hslot'
      exact hother managed hcell rfl
    refine stores_iff.mpr ⟨slot', managed, ?_, ?_, rfl⟩
    · rw [htasks, Dict.lookup_erase', if_neg hne]
      exact hslot'
    · unfold cellAt at hcell ⊢
      rw [hslots]
      exact hcell
  rw [hagents] at ha
  cases hcell : w.cellAt slot with
  | none =>
    rw [hcell] at ha
    exact ⟨agent', ha, rfl, rfl, id, fun h => .inl
      (hkept agent' (fun managed h => (by rw [hcell] at h; cases h)) h), .inl⟩
  | some managed =>
    rw [hcell] at ha
    obtain ⟨hkilled, rfl, old, hold, hconversation, hoptions⟩ | ⟨hne, ha⟩ := getElem?_killAgent ha
    · exact ⟨old, hold, hconversation, hoptions, fun _ => hkilled, fun _ => .inr hkilled,
        fun _ => .inr ⟨slot, managed, hcell, rfl, .inl ⟨conversationId, hstored, hremoved⟩⟩⟩
    · refine ⟨agent', ha, rfl, rfl, id, fun h => .inl (hkept agent' (fun managed' h => ?_) h), .inl⟩
      rw [hcell] at h
      rw [← Option.some.inj h]
      exact hne

/-- An agent was there before the move, or the move has built it. -/
theorem agent_move (held : w.SlotsHeld) (move : TaskMove setup w step w')
    (ha : w'.agents[a]? = some agent') :
    (∃ agent, w.agents[a]? = some agent ∧ AgentAfter w w' a agent agent') ∨
      ∃ k call slot, BuiltBy w w' step k call slot a agent' := by
  have hkept : w'.removed = w.removed → w.agents[a]? = some agent' →
      ∃ agent, w.agents[a]? = some agent ∧ AgentAfter w w' a agent agent' := by
    intro hremoved ha
    refine ⟨agent', ha, .frame (fun slot h => ?_) fun _ _ h => cells_move held move h⟩
    exact (tasks_move move h).resolve_right (by simp [hremoved])
  have hsame : SameTasks w w' →
      ∃ agent, w.agents[a]? = some agent ∧ AgentAfter w w' a agent agent' := fun same =>
    hkept same.past.removed (same.agents ▸ ha)
  have hstores : w'.removed = w.removed → ∀ c, w.Stores c a → w'.Stores c a := by
    intro hremoved c h
    exact (stores_move held move h).resolve_right (by simp [hremoved])
  cases move with
  | kept same _ _ => exact .inl (hsame same)
  | called _ _ _ same _ _ => exact .inl (hsame same)
  | sent _ _ same _ => exact .inl (hsame same)
  | staged _ _ _ _ _ same _ _ => exact .inl (hsame same)
  | refreshed _ _ _ _ same _ _ => exact .inl (hsame same)
  | removed _ _ _ hstored tasks slots agents _ _ _ removed =>
    exact .inl (agentAfter_removed hstored tasks slots agents removed ha)
  | joined _ _ _ _ _ _ _ _ same _ _ => exact .inl (hsame same)
  | opened _ _ _ _ _ _ _ agents _ _ past => exact .inl (hkept past.removed (agents ▸ ha))
  | received _ _ _ _ _ _ _ same _ _ => exact .inl (hsame same)
  | started _ _ _ _ _ _ _ _ agents _ _ past => exact .inl (hkept past.removed (agents ▸ ha))
  | failed _ _ _ _ _ _ _ agents _ _ past => exact .inl (hkept past.removed (agents ▸ ha))
  | built k call slot agent reply shape built hk hbuilding tasks slots agents _ tokens past =>
    obtain ⟨agentType, status, at', rfl, rfl⟩ := built
    rw [agents] at ha
    obtain ha | ⟨rfl, rfl⟩ := getElem?_add.mp ha
    · exact .inl (hkept past.removed ha)
    · refine .inr ⟨k, call, slot, ⟨agentType, status, at', shape, rfl⟩, hk, hbuilding, rfl, tasks,
        cellAt_eq_some.mpr ⟨none, ?_⟩, tokens, past.removed⟩
      rw [slots, getElem?_replace (held k call slot hk hbuilding)]
      exact .inl ⟨rfl, rfl⟩
  | killed wait managed _ hcell tasks slots agents _ _ hwait past =>
    rw [agents] at ha
    obtain ⟨hkilled, rfl, old, hold, hconversation, hoptions⟩ | ⟨-, ha⟩ := getElem?_killAgent ha
    · exact .inl ⟨old, hold, hconversation, hoptions, fun _ => hkilled, fun _ => .inr hkilled,
        fun _ => .inr ⟨wait.slot, managed, hcell, rfl, .inr ⟨wait, hwait, rfl⟩⟩⟩
    · exact .inl (hkept past.removed ha)
  | reported b status lastActivityAt tasks slots agents _ _ past =>
    rw [agents] at ha
    obtain ⟨rfl, old, hold, rfl⟩ | ⟨-, ha⟩ := getElem?_change.mp ha
    · exact .inl ⟨old, hold, rfl, rfl, id, fun h => .inl (hstores past.removed _ h), .inl⟩
    · exact .inl (hkept past.removed ha)

theorem Accounted.move (hw : w.Accounted) (held : w.SlotsHeld) (hplace : w.ReturnsInPlace step)
    (move : TaskMove setup w step w') : w'.Accounted := by
  intro a agent' ha'
  obtain ⟨agent, ha, after⟩ | ⟨k, call, slot, built⟩ := agent_move held move ha'
  · rw [after.conversation]
    obtain hstores | hkilled := hw a agent ha
    · exact after.stored hstores
    · exact .inr (after.killed hkilled)
  · obtain ⟨agentType, status, at', rfl, rfl⟩ := built.step
    have hslot : w.tasks.lookup call.conversationId = some slot :=
      hplace call built.found slot (by rw [built.stage]; rfl)
    exact .inl (stores_iff.mpr ⟨slot, _, built.tasks ▸ hslot, built.cell, rfl⟩)

def CellsRecord (w : TaskWorld) : Prop :=
  ∀ slot managed, w.cellAt slot = some managed →
    ∃ agent : AgentInstance, w.agents[managed.agent]? = some agent ∧
      agent.options.runtimeCapabilities = managed.runtimeCapabilities

def OptionsKept (w w' : TaskWorld) : Prop :=
  ∀ (a : ℕ) (agent : AgentInstance), w.agents[a]? = some agent →
    ∃ agent' : AgentInstance, w'.agents[a]? = some agent' ∧ agent'.options = agent.options

theorem cellAt_of_set {new : TaskSlot} (hslot' : w.slots[slot']? = some value)
    (hslots : w'.slots = w.slots.set slot' new) (h : w'.cellAt slot = some managed) :
    w.cellAt slot = some managed ∨ slot = slot' ∧ new.cell = some managed := by
  obtain ⟨initialiser, hslot⟩ := cellAt_eq_some.mp h
  rw [hslots, getElem?_replace hslot'] at hslot
  obtain ⟨rfl, rfl⟩ | ⟨-, hslot⟩ := hslot
  · exact .inr ⟨rfl, rfl⟩
  · exact .inl (cellAt_eq_some.mpr ⟨initialiser, hslot⟩)

theorem CellsRecord.frame (hw : w.CellsRecord)
    (hcells : ∀ slot managed, w'.cellAt slot = some managed → w.cellAt slot = some managed)
    (hagents : OptionsKept w w') : w'.CellsRecord := by
  intro slot managed h
  obtain ⟨agent, ha, hcapabilities⟩ := hw slot managed (hcells slot managed h)
  obtain ⟨agent', ha', hoptions⟩ := hagents _ agent ha
  exact ⟨agent', ha', hoptions ▸ hcapabilities⟩

theorem optionsKept_of_modify {f : AgentInstance → AgentInstance}
    (hagents : w'.agents = w.agents.modify a f)
    (hf : ∀ agent, (f agent).options = agent.options) : OptionsKept w w' := by
  intro b agent hb
  rw [hagents]
  by_cases he : b = a
  · subst he
    exact ⟨f agent, getElem?_change.mpr (.inl ⟨rfl, agent, hb, rfl⟩), hf agent⟩
  · exact ⟨agent, getElem?_change.mpr (.inr ⟨he, hb⟩), rfl⟩

theorem CellsRecord.move (hw : w.CellsRecord) (held : w.SlotsHeld)
    (move : TaskMove setup w step w') : w'.CellsRecord := by
  have hsame : SameTasks w w' → w'.CellsRecord := fun same =>
    hw.frame (fun slot _ h => (same.cellAt slot).symm.trans h)
      fun a agent ha => ⟨agent, by rw [same.agents]; exact ha, rfl⟩
  have hslots : w'.slots = w.slots →
      ∀ slot managed, w'.cellAt slot = some managed → w.cellAt slot = some managed := by
    intro heq slot managed h
    unfold cellAt at h ⊢
    rwa [heq] at h
  have hkept : w'.agents = w.agents → OptionsKept w w' :=
    fun heq a agent ha => ⟨agent, by rw [heq]; exact ha, rfl⟩
  cases move with
  | kept same _ _ => exact hsame same
  | called _ _ _ same _ _ => exact hsame same
  | sent _ _ same _ => exact hsame same
  | staged _ _ _ _ _ same _ _ => exact hsame same
  | refreshed _ _ _ _ same _ _ => exact hsame same
  | removed _ slot _ _ _ slots agents _ _ =>
    refine hw.frame (hslots slots) ?_
    cases hcell : w.cellAt slot with
    | none =>
      rw [hcell] at agents
      exact hkept agents
    | some managed =>
      rw [hcell] at agents
      exact optionsKept_of_modify agents fun _ => rfl
  | joined _ _ _ _ _ _ _ _ same _ _ => exact hsame same
  | opened _ _ _ _ _ _ slots agents _ _ =>
    refine hw.frame (fun slot managed h => ?_) (hkept agents)
    obtain ⟨initialiser, hslot⟩ := cellAt_eq_some.mp h
    rw [slots, getElem?_add] at hslot
    obtain hslot | ⟨-, hslot⟩ := hslot
    · exact cellAt_eq_some.mpr ⟨initialiser, hslot⟩
    · cases hslot
  | received _ _ _ _ _ _ _ same _ _ => exact hsame same
  | started _ _ _ _ _ hempty _ slots agents _ _ =>
    exact hw.frame (fun _ _ h => (cellAt_of_set hempty slots h).resolve_right (by simp))
      (hkept agents)
  | failed k call slot hk hbuilding _ slots agents _ _ =>
    exact hw.frame (fun _ _ h =>
      (cellAt_of_set (held k call slot hk hbuilding) slots h).resolve_right (by simp))
      (hkept agents)
  | built k call slot agent _ _ built hk hbuilding _ slots agents _ _ =>
    obtain ⟨_, _, _, -, rfl⟩ := built
    intro slot' managed h
    rw [agents]
    obtain h | ⟨-, h⟩ := cellAt_of_set (held k call slot hk hbuilding) slots h
    · obtain ⟨agent, ha, hcapabilities⟩ := hw slot' managed h
      exact ⟨agent, getElem?_add_of_some ha, hcapabilities⟩
    · obtain rfl := Option.some.inj h
      exact ⟨_, getElem?_add.mpr (.inr ⟨rfl, rfl⟩), rfl⟩
  | killed _ _ _ _ _ slots agents _ _ | reported _ _ _ _ slots agents _ _ =>
    exact hw.frame (hslots slots) (optionsKept_of_modify agents fun _ => rfl)

theorem cellsRecord_of_reachable (h : (machine setup).Reachable w) : w.CellsRecord :=
  h.invariant_of_reachable (P := CellsRecord)
    (fun _ hs slot managed hcell => (by subst hs; cases hcell))
    fun w step hr hw _ => hw.move (slotsHeld_of_reachable hr) (move_fire setup w step)

/-- Each conversation has a slot of its own and each agent a cell of its own, and nobody waits for a
slot that is in place. -/
structure SlotsDistinct (w : TaskWorld) : Prop where
  bound : ∀ c slot, w.tasks.lookup c = some slot → slot < w.slots.length
  tasks : ∀ c c' slot, w.tasks.lookup c = some slot → w.tasks.lookup c' = some slot → c = c'
  cells : ∀ slot slot' managed managed', w.cellAt slot = some managed →
    w.cellAt slot' = some managed' → managed.agent = managed'.agent → slot = slot'
  waits : ∀ wait ∈ w.waits, wait.slot < w.slots.length ∧ ∀ c, w.tasks.lookup c ≠ some wait.slot

theorem SlotsDistinct.frame (hw : w.SlotsDistinct) (htasks : w'.tasks = w.tasks)
    (hslots : w'.slots.length = w.slots.length)
    (hcells : ∀ slot managed, w'.cellAt slot = some managed → w.cellAt slot = some managed)
    (hpast : w.KeepsPast w') : w'.SlotsDistinct where
  bound c slot h := by
    rw [htasks] at h
    rw [hslots]
    exact hw.bound c slot h
  tasks c c' slot h h' := by
    rw [htasks] at h h'
    exact hw.tasks c c' slot h h'
  cells slot slot' managed managed' h h' :=
    hw.cells slot slot' managed managed' (hcells _ _ h) (hcells _ _ h')
  waits wait hwait := by
    obtain ⟨old, hold, heq⟩ := hpast.waits wait hwait
    rw [heq, htasks, hslots]
    exact hw.waits old hold

theorem SlotsDistinct.move (hw : w.SlotsDistinct) (held : w.SlotsHeld) (hrecord : w.CellsRecord)
    (move : TaskMove setup w step w') : w'.SlotsDistinct := by
  have hsame : SameTasks w w' → w'.SlotsDistinct := fun same =>
    hw.frame same.tasks (by rw [same.slots])
      (fun slot _ h => (same.cellAt slot).symm.trans h) same.past
  have hcells : w'.slots = w.slots →
      ∀ slot managed, w'.cellAt slot = some managed → w.cellAt slot = some managed := by
    intro heq slot managed h
    unfold cellAt at h ⊢
    rwa [heq] at h
  cases move with
  | kept same _ _ => exact hsame same
  | called _ _ _ same _ _ => exact hsame same
  | sent _ _ same _ => exact hsame same
  | staged _ _ _ _ _ same _ _ => exact hsame same
  | refreshed _ _ _ _ same _ _ => exact hsame same
  | removed conversationId slot _ hstored tasks slots _ _ _ waits _ =>
    have hold : ∀ c slot', w'.tasks.lookup c = some slot' →
        c ≠ conversationId ∧ w.tasks.lookup c = some slot' := by
      intro c slot' h
      rw [tasks, Dict.lookup_erase'] at h
      split at h
      · cases h
      · rename_i hne
        exact ⟨hne, h⟩
    refine ⟨fun c slot' h => ?_, fun c c' slot' h h' => ?_, fun slot₁ slot₂ m₁ m₂ h h' => ?_,
      fun wait hwait => ?_⟩
    · rw [slots]
      exact hw.bound c slot' (hold c slot' h).2
    · exact hw.tasks c c' slot' (hold c slot' h).2 (hold c' slot' h').2
    · exact hw.cells slot₁ slot₂ m₁ m₂ (hcells slots _ _ h) (hcells slots _ _ h')
    · rw [slots]
      obtain ⟨old, hmem, heq⟩ | heq := waits wait hwait
      · rw [heq]
        have hdetached := hw.waits old hmem
        exact ⟨hdetached.1, fun c h => hdetached.2 c (hold c _ h).2⟩
      · rw [heq]
        refine ⟨hw.bound _ _ hstored, fun c h => ?_⟩
        obtain ⟨hne, h⟩ := hold c _ h
        exact hne (hw.tasks _ _ _ h hstored)
  | joined _ _ _ _ _ _ _ _ same _ _ => exact hsame same
  | opened _ call _ _ hfree tasks slots _ _ _ past =>
    have hlength : w'.slots.length = w.slots.length + 1 := by
      rw [slots, List.length_append, List.length_singleton]
    have hlookup : ∀ c slot, w'.tasks.lookup c = some slot →
        c = call.conversationId ∧ slot = w.slots.length ∨ w.tasks.lookup c = some slot := by
      intro c slot h
      rw [tasks, Dict.lookup_insert'] at h
      split at h
      · rename_i hc
        exact .inl ⟨hc, (Option.some.inj h).symm⟩
      · exact .inr h
    have hcell : ∀ slot managed, w'.cellAt slot = some managed → w.cellAt slot = some managed := by
      intro slot managed h
      obtain ⟨initialiser, hslot⟩ := cellAt_eq_some.mp h
      rw [slots, getElem?_add] at hslot
      obtain hslot | ⟨-, hslot⟩ := hslot
      · exact cellAt_eq_some.mpr ⟨initialiser, hslot⟩
      · cases hslot
    refine ⟨fun c slot h => ?_, fun c c' slot h h' => ?_, fun slot₁ slot₂ m₁ m₂ h h' => ?_,
      fun wait hwait => ?_⟩
    · obtain ⟨-, rfl⟩ | h := hlookup c slot h
      · omega
      · have := hw.bound c slot h
        omega
    · obtain ⟨rfl, rfl⟩ | h := hlookup c slot h
      · obtain ⟨rfl, -⟩ | h' := hlookup c' _ h'
        · rfl
        · have := hw.bound c' _ h'
          omega
      · obtain ⟨-, rfl⟩ | h' := hlookup c' _ h'
        · have := hw.bound c _ h
          omega
        · exact hw.tasks c c' slot h h'
    · exact hw.cells slot₁ slot₂ m₁ m₂ (hcell _ _ h) (hcell _ _ h')
    · obtain ⟨old, hold, heq⟩ := past.waits wait hwait
      obtain ⟨hlt, hdetached⟩ := hw.waits old hold
      rw [heq]
      refine ⟨by omega, fun c h => ?_⟩
      obtain ⟨-, hslot⟩ | h := hlookup c _ h
      · omega
      · exact hdetached c h
  | received _ _ _ _ _ _ _ same _ _ => exact hsame same
  | started _ _ _ _ _ hempty tasks slots _ _ _ past =>
    exact hw.frame tasks (by rw [slots, List.length_set])
      (fun _ _ h => (cellAt_of_set hempty slots h).resolve_right (by simp)) past
  | failed k call slot hk hbuilding tasks slots _ _ _ past =>
    exact hw.frame tasks (by rw [slots, List.length_set])
      (fun _ _ h => (cellAt_of_set (held k call slot hk hbuilding) slots h).resolve_right (by simp))
      past
  | built k call slot _ _ _ _ hk hbuilding tasks slots _ _ _ past =>
    have hempty := held k call slot hk hbuilding
    have hcell : ∀ slot₁ m₁, w'.cellAt slot₁ = some m₁ → w.cellAt slot₁ = some m₁ ∨
        slot₁ = slot ∧ some ⟨w.agents.length, call.options.runtimeCapabilities⟩ = some m₁ :=
      fun _ _ h => cellAt_of_set hempty slots h
    have hfresh : ∀ slot₁ m₁, w.cellAt slot₁ = some m₁ → m₁.agent ≠ w.agents.length := by
      intro slot₁ m₁ h
      obtain ⟨agent, ha, -⟩ := hrecord slot₁ m₁ h
      have := lt_of_getElem? ha
      omega
    refine ⟨fun c slot' h => ?_, fun c c' slot' h h' => ?_, fun slot₁ slot₂ m₁ m₂ h h' he => ?_,
      fun wait hwait => ?_⟩
    · rw [tasks] at h
      rw [slots, List.length_set]
      exact hw.bound c slot' h
    · rw [tasks] at h h'
      exact hw.tasks c c' slot' h h'
    · obtain h | ⟨rfl, h⟩ := hcell slot₁ m₁ h
      · obtain h' | ⟨rfl, h'⟩ := hcell slot₂ m₂ h'
        · exact hw.cells slot₁ slot₂ m₁ m₂ h h' he
        · rw [← Option.some.inj h'] at he
          exact absurd he (hfresh slot₁ m₁ h)
      · obtain h' | ⟨rfl, h'⟩ := hcell slot₂ m₂ h'
        · rw [← Option.some.inj h] at he
          exact absurd he.symm (hfresh slot₂ m₂ h')
        · rfl
    · obtain ⟨old, hold, heq⟩ := past.waits wait hwait
      rw [heq, tasks, slots, List.length_set]
      exact hw.waits old hold
  | killed _ _ _ _ tasks slots _ _ _ _ past | reported _ _ _ tasks slots _ _ _ past =>
    exact hw.frame tasks (by rw [slots]) (hcells slots) past

theorem slotsDistinct_of_reachable (h : (machine setup).Reachable w) : w.SlotsDistinct :=
  h.invariant_of_reachable (P := SlotsDistinct)
    (fun _ hs => by
      subst hs
      exact ⟨fun _ _ h => (by cases h), fun _ _ _ h => (by cases h), fun _ _ _ _ h => (by cases h),
        fun _ h => (by cases h)⟩)
    fun w step hr hw _ => hw.move (slotsHeld_of_reachable hr) (cellsRecord_of_reachable hr)
      (move_fire setup w step)

theorem Accounted.oneAlive (hw : w.Accounted) : w.OneAlive := by
  intro a b agent agent' ha hb hconversation halive halive'
  have hstores := (hw a agent ha).resolve_right (not_not_intro halive)
  have hstores' := (hw b agent' hb).resolve_right (not_not_intro halive')
  obtain ⟨managed, hmanaged, rfl⟩ := hstores
  obtain ⟨managed', hmanaged', rfl⟩ := hstores'
  rw [hconversation, hmanaged'] at hmanaged
  rw [Option.some.inj hmanaged]

/-- A factory call that returns an agent has built it. -/
theorem builtBy_of_returns (setup : TaskSetup) (agentType : AgentType)
    (status : Option ConversationStatus) (lastActivityAt : ℤ) (held : w.SlotsHeld)
    (hk : w.calls[k]? = some call) (hslot : call.stage.building? = some slot) :
    ∃ agent, (w.fire setup (.advance k (.built agentType status lastActivityAt))).agents[
        w.agents.length]? = some agent ∧
      BuiltBy w (w.fire setup (.advance k (.built agentType status lastActivityAt)))
        (.advance k (.built agentType status lastActivityAt)) k call slot w.agents.length agent := by
  have hbuilding : call.stage = .building slot := by
    cases hstage : call.stage with
    | building slot' =>
      rw [hstage] at hslot
      rw [Option.some.inj hslot]
    | check | rebuild | refresh | enter | waiting _ | returned _ | failed =>
      rw [hstage] at hslot
      cases hslot
  have hempty := held k call slot hk hbuilding
  refine ⟨⟨call.conversationId, call.options, agentType, status, lastActivityAt, []⟩, ?_, ?_⟩
  · simp only [fire, hk, advance, hbuilding]
    exact getElem?_add.mpr (.inr ⟨rfl, rfl⟩)
  · simp only [fire, hk, advance, hbuilding]
    refine ⟨⟨agentType, status, lastActivityAt, rfl, rfl⟩, hk, hbuilding, rfl, rfl, ?_, rfl, rfl⟩
    refine cellAt_eq_some.mpr ⟨none, (getElem?_replace hempty).mpr (.inl ⟨rfl, rfl⟩)⟩

/-- An agent that is returned to a slot out of place is stored nowhere and never killed. -/
theorem not_accounted_of_out_of_place (held : w.SlotsHeld)
    (distinct : (w.fire setup step).SlotsDistinct) (hplace : ¬w.ReturnsInPlace step) :
    ¬(w.fire setup step).Accounted := by
  cases step with
  | advance k reply =>
    cases reply with
    | built agentType status lastActivityAt =>
      simp only [ReturnsInPlace, not_forall] at hplace
      obtain ⟨call, hk, slot, hslot, hout⟩ := hplace
      obtain ⟨agent, ha, built⟩ :=
        builtBy_of_returns setup agentType status lastActivityAt held hk hslot
      obtain ⟨_, _, _, -, rfl⟩ := built.step
      intro haccounted
      obtain hstores | hkilled := haccounted _ _ ha
      · obtain ⟨slot', managed, hslot', hcell, hagent⟩ := stores_iff.mp hstores
        obtain rfl : slot' = slot := distinct.cells _ _ _ _ hcell built.cell hagent
        rw [built.tasks] at hslot'
        exact hout hslot'
      · exact hkilled rfl
    | pending | failed => exact absurd trivial hplace
  | call _ _ | send _ | kill _ _ | killAndWait _ _ | poll _ | clear _ | clearNext _ | report _ _ _ =>
    exact absurd trivial hplace

/-- Nothing is leaked: while no factory call runs, every agent is accounted for, and at no time
are two agents of a conversation alive. -/
def NothingLeaked (w : TaskWorld) : Prop :=
  (¬w.FactoryInProgress → w.Accounted) ∧ w.OneAlive

theorem accounted_of_in_place (h : ((machine setup).restrict ReturnsInPlace).Reachable w) :
    w.Accounted :=
  h.invariant_of_reachable (P := Accounted)
    (fun _ hs a agent ha => (by subst hs; cases ha))
    fun w _ hr hw hadmits =>
      hw.move (slotsHeld_of_reachable hr.of_restrict) hadmits.2 (move_fire setup w _)

/-- As long as factory calls return in place nothing is leaked, and the next return that is out of
place leaks as soon as no other factory call runs. -/
theorem agents_never_leak_in_place
    (h : ((machine setup).restrict ReturnsInPlace).Reachable w) :
    w.NothingLeaked ∧ ∀ step, ¬(w.fire setup step).FactoryInProgress →
      ((w.fire setup step).NothingLeaked ↔ w.ReturnsInPlace step) := by
  have hreachable := h.of_restrict
  have held := slotsHeld_of_reachable hreachable
  have hw := accounted_of_in_place h
  refine ⟨⟨fun _ => hw, hw.oneAlive⟩, fun step hquiet => ⟨fun hnext => ?_, fun hplace => ?_⟩⟩
  · by_contra hplace
    have distinct := slotsDistinct_of_reachable (hreachable.fire (i := step) trivial)
    exact not_accounted_of_out_of_place held distinct hplace (hnext.1 hquiet)
  · have hnext := hw.move held hplace (move_fire setup w step)
    exact ⟨fun _ => hnext, hnext.oneAlive⟩

def plainOptions (conversationId : String) : BuildTaskOptions :=
  ⟨⟨"u", conversationId, false, []⟩, ⟨none⟩⟩

def overtakenBuild : List TaskStep :=
  [.call "c" (plainOptions "c"), .advance 0 .pending, .advance 0 .pending, .advance 0 .pending,
    .kill "c" (some .teamMcpRebuild), .call "c" (plainOptions "c"), .advance 1 .pending,
    .advance 1 .pending, .advance 1 .pending, .advance 0 (.built .acp none 0),
    .advance 1 (.built .acp none 0)]

theorem overtaken_agent_leaks :
    ¬∀ w, (machine .tally).Reachable w → w.NothingLeaked := by
  intro hclaim
  have haccepts : (machine .tally).Accepts empty overtakenBuild := by decide +kernel
  have h := hclaim _ (Machine.reachable_run rfl haccepts)
  let agent : AgentInstance := ⟨"c", plainOptions "c", .acp, none, 0, []⟩
  have hagents : ((machine .tally).run empty overtakenBuild).agents = [agent, agent] := by
    decide +kernel
  have h01 := h.2 0 1 agent agent (by rw [hagents]; rfl) (by rw [hagents]; rfl) rfl rfl rfl
  cases h01

/-- A build, a kill of what it has built, and another build. -/
def orderlyRebuild : List TaskStep :=
  [.call "c" (plainOptions "c"), .advance 0 .pending, .advance 0 .pending, .advance 0 .pending,
    .advance 0 (.built .acp none 0), .kill "c" (some .teamMcpRebuild),
    .call "c" (plainOptions "c"), .advance 1 .pending, .advance 1 .pending, .advance 1 .pending,
    .advance 1 (.built .acp none 0)]

theorem agents_never_leak_in_orderlyRebuild :
    ((machine .tally).run empty orderlyRebuild).NothingLeaked := by
  have haccepts : ((machine .tally).restrict ReturnsInPlace).Accepts empty orderlyRebuild := by
    decide +kernel
  exact (agents_never_leak_in_place (Machine.reachable_run rfl haccepts)).1

end TaskWorld

end AionCore.Agent
