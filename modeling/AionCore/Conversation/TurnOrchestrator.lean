import AionCore.Conversation.RelaySummary

/-!
# Conversations: the turn orchestrator

`run_user_turn` and `run_attempt` of `turn_orchestrator.rs`, cut at their awaits. An attempt builds
the agent, and sends until the continuation policy stops; the recovery policy may replay the first
attempt once. Each send is spawned, and starts on its own.
-/

namespace AionCore.Conversation

/-- What the orchestrator waits for next. -/
inductive TurnStage where
  /-- `get_or_build_task`. -/
  | build
  /-- `maybe_persist_workspace`. -/
  | workspace
  /-- Nothing: the head of the loop, where the lifecycle is sampled for the send. -/
  | head
  /-- `apply_required_runtime_mode`. -/
  | mode
  /-- `consume_with_send_error`. -/
  | relay
  /-- `persist_session_key`, and the decision whether the turn continues. -/
  | decide
  /-- Nothing: the end of the attempt, where the lifecycle is sampled for the recovery. -/
  | settle
  /-- `evict_acp_task_after_terminal_error`, before the replay. -/
  | evict
  /-- `persist_and_broadcast_send_failure_tip`, for a deferred error or for another failure. -/
  | tip (deferred : Bool)
  /-- `release_for_turn`. -/
  | release
  | done
  deriving DecidableEq

inductive TurnFailure where
  | build
  | workspace
  | mode
  /-- The stream of the agent has ended in an error. -/
  | stream
  deriving DecidableEq

/-- What stays the same through a turn. -/
structure TurnStartInput where
  /-- `first_turn_msg_id`. -/
  firstMsgId : String
  /-- A runtime mode is required. -/
  requiresMode : Bool
  ids : Supply String
  process : String → MiddlewareResult
  patch : String → String → String

/-- A turn without a required mode whose middleware changes nothing. -/
def plainTurn : TurnStartInput where
  firstMsgId := "m"
  requiresMode := false
  ids := Supply.tallyOf 'x'
  process text := ⟨text, []⟩
  patch _ json := json

/-- A send that has been relayed: in the replay or before it, the lifecycle that was sampled for it,
and its relay with what it received and what came of it. -/
structure RelayedSend where
  replay : Bool
  lifecycle : RuntimeLifecycleState
  relay : StreamRelay
  stream : List Received
  state : RelayState
  outcome : RelayOutcome

/-- The local variables of the turn and of its attempt, and the record of what it has done: `spawned`
has the number of the attempt for each send that was spawned, `pending` counts those that have not
started. -/
structure UserTurn where
  stage : TurnStage
  replayed : Bool
  agentType : AgentType
  msgId : String
  nextId : ℕ
  continuationCount : ℕ
  lifecycle : RuntimeLifecycleState
  deferCleanTerminalErrors : Bool
  summary : TurnAttemptSummary
  outcome : RelayOutcome
  failure : Option TurnFailure
  attempts : ℕ
  spawned : List ℕ
  pending : ℕ
  sends : List RelayedSend
  tips : ℕ
  releases : ℕ

inductive TurnStep where
  /-- The reply is the type of the agent, unless it could not be built. -/
  | built (reply : Option AgentType)
  | workspacePersisted (ok : Bool)
  | sampled (lifecycle : RuntimeLifecycleState)
  | modeApplied (ok : Bool)
  /-- A spawned task calls `send_message`. -/
  | startSend
  | relayed (stream : List Received)
  | decided
  | settled (lifecycle : RuntimeLifecycleState)
  | evicted
  /-- The lifecycle that the write of the tip reads, and whether its statement runs. -/
  | tipped (lifecycle : RuntimeLifecycleState) (ok : Bool)
  | released

/-- The stage in which the step comes; a pending send starts in any. -/
def TurnStep.comesIn (stage : TurnStage) : TurnStep → Prop
  | built _ => stage = .build
  | workspacePersisted _ => stage = .workspace
  | sampled _ => stage = .head
  | modeApplied _ => stage = .mode
  | startSend => True
  | relayed _ => stage = .relay
  | decided => stage = .decide
  | settled _ => stage = .settle
  | evicted => stage = .evict
  | tipped _ _ => ∃ deferred, stage = .tip deferred
  | released => stage = .release

namespace UserTurn

variable (input : TurnStartInput)

def start (nextId : ℕ) : UserTurn where
  stage := .build
  replayed := false
  agentType := .acp
  msgId := input.firstMsgId
  nextId := nextId
  continuationCount := 0
  lifecycle := .active
  deferCleanTerminalErrors := false
  summary := {}
  outcome := ⟨[], .channelClosed, {}⟩
  failure := none
  attempts := 1
  spawned := []
  pending := 0
  sends := []
  tips := 0
  releases := 0

def fail (t : UserTurn) (failure : TurnFailure) : UserTurn :=
  { t with stage := .tip false, failure := some failure }

def spawnSend (t : UserTurn) : UserTurn :=
  { t with stage := .relay, spawned := t.spawned ++ [t.attempts], pending := t.pending + 1 }

/-- The lifecycle and the flag of the relay, for the next send. -/
def sample (t : UserTurn) (lifecycle : RuntimeLifecycleState) : UserTurn :=
  { t with
    lifecycle
    deferCleanTerminalErrors := !t.replayed && t.agentType = .acp && lifecycle = .active &&
      t.summary.safeToAutoReplay }

def relayOf (t : UserTurn) : StreamRelay :=
  ⟨t.msgId, t.deferCleanTerminalErrors, input.ids, input.process, input.patch⟩

/-- The relay has returned. -/
def relayed (t : UserTurn) (stream : List Received) : UserTurn :=
  match (t.relayOf input).consume stream (.start t.nextId) with
  | (_, none) => t
  | (state, some outcome) =>
    { t with
      stage := .decide
      nextId := state.nextId
      summary := t.summary.merge outcome.attempt
      outcome
      sends := t.sends ++
        [⟨t.replayed, t.lifecycle, t.relayOf input, stream, state, outcome⟩] }

/-- The continuation policy decides from the lifecycle that was sampled for the send. -/
def decided (t : UserTurn) : UserTurn :=
  match decideContinuation MAX_SYSTEM_RESPONSE_CONTINUATIONS_PER_TURN t.continuationCount t.outcome
      t.lifecycle with
  | .continue _ nextCount =>
    { t with
      stage := .head
      continuationCount := nextCount
      msgId := input.ids.draw t.nextId
      nextId := t.nextId + 1 }
  | .stop _ => { t with stage := .settle }

def replays (t : UserTurn) (lifecycle : RuntimeLifecycleState) : Bool :=
  decideRecovery t.agentType { t.outcome with attempt := t.summary } lifecycle t.replayed

/-- The turn ends or is replayed. -/
def settled (t : UserTurn) (lifecycle : RuntimeLifecycleState) : UserTurn :=
  if !t.outcome.terminal.isError then { t with stage := .release, failure := none }
  else if t.replays lifecycle then { t with stage := .evict }
  else if t.outcome.attempt.terminalErrorDeferred && t.outcome.attempt.terminalError.isSome then
    { t with stage := .tip true, failure := some .stream }
  else { t with stage := .release, failure := some .stream }

def evicted (t : UserTurn) : UserTurn :=
  { t with
    stage := .build
    replayed := true
    msgId := input.firstMsgId
    continuationCount := 0
    summary := {}
    attempts := t.attempts + 1 }

def tipped (t : UserTurn) (lifecycle : RuntimeLifecycleState) (ok : Bool) : UserTurn :=
  { t with
    stage := .release
    tips := if t.stage = .tip true ∧ lifecycle.allows .sendFailureTip ∧ ok then t.tips + 1
      else t.tips }

def fire (t : UserTurn) : TurnStep → UserTurn
  | .built reply =>
    match reply with
    | some agentType => { t with stage := .workspace, agentType }
    | none => t.fail .build
  | .workspacePersisted ok => if ok then { t with stage := .head } else t.fail .workspace
  | .sampled lifecycle =>
    let t := t.sample lifecycle
    if input.requiresMode then { t with stage := .mode } else t.spawnSend
  | .modeApplied ok => if ok then t.spawnSend else t.fail .mode
  | .startSend => { t with pending := t.pending - 1 }
  | .relayed stream => t.relayed input stream
  | .decided => t.decided input
  | .settled lifecycle => t.settled lifecycle
  | .evicted => t.evicted input
  | .tipped lifecycle ok => t.tipped lifecycle ok
  | .released => { t with stage := .done, releases := t.releases + 1 }

/-- A step comes in its stage. A send that starts is pending, and a relay that returns has received
its stream up to the signal that ends it. -/
def admits (t : UserTurn) (step : TurnStep) : Prop :=
  step.comesIn t.stage ∧
    match step with
    | .startSend => 0 < t.pending
    | .relayed stream => (t.relayOf input).Ends stream t.nextId
    | _ => True

/-- A turn with any replies, streams and lifecycles. -/
def machine : Machine UserTurn TurnStep where
  start t := ∃ nextId, t = .start input nextId
  admits := admits input
  fire := fire input

instance (stage : TurnStage) : ∀ step : TurnStep, Decidable (step.comesIn stage) := by
  intro step
  cases step <;> dsimp only [TurnStep.comesIn] <;> infer_instance

instance (t : UserTurn) : ∀ step, Decidable ((machine input).admits t step)
  | .startSend => inferInstanceAs (Decidable (_ ∧ 0 < t.pending))
  | .relayed stream => inferInstanceAs (Decidable (_ ∧ (t.relayOf input).Ends stream t.nextId))
  | .built _ | .workspacePersisted _ | .sampled _ | .modeApplied _ | .decided | .settled _
  | .evicted | .tipped _ _ | .released => inferInstanceAs (Decidable (_ ∧ True))

variable {input} {t : UserTurn}

/-- The turn after a send whose relay has returned. -/
def after (t : UserTurn) (send : RelayedSend) : UserTurn :=
  { t with
    stage := .decide
    nextId := send.state.nextId
    summary := t.summary.merge send.outcome.attempt
    outcome := send.outcome
    sends := t.sends ++ [send] }

/-- The send is the turn's, and its outcome reports its stream. -/
structure SentBy (t : UserTurn) (send : RelayedSend) : Prop where
  replay : send.replay = t.replayed
  lifecycle : send.lifecycle = t.lifecycle
  defers : send.relay.deferCleanTerminalErrors = t.deferCleanTerminalErrors
  reports : Reports send.relay send.stream send.state send.outcome

theorem relayed_cases {stream : List Received} (hends : (t.relayOf input).Ends stream t.nextId) :
    t.relayed input stream = t ∨
      ∃ send, t.relayed input stream = t.after send ∧ t.SentBy send ∧
        send.stream = stream := by
  unfold relayed
  split
  · exact .inl rfl
  · rename_i state outcome hconsume
    refine .inr ⟨⟨t.replayed, t.lifecycle, t.relayOf input, stream, state, outcome⟩, rfl, ?_, rfl⟩
    exact ⟨rfl, rfl, rfl, reports_of_consume hends hconsume⟩

def continued (input : TurnStartInput) (t : UserTurn) : UserTurn :=
  { t with
    stage := .head
    continuationCount := t.continuationCount + 1
    msgId := input.ids.draw t.nextId
    nextId := t.nextId + 1 }

/-- The continuation policy lets the turn go on. -/
structure GoesOn (t : UserTurn) : Prop where
  lifecycle : t.lifecycle = .active
  terminal : t.outcome.terminal.isError = false
  responses : t.outcome.systemResponses ≠ []
  count : t.continuationCount < MAX_SYSTEM_RESPONSE_CONTINUATIONS_PER_TURN

instance (t : UserTurn) : Decidable t.GoesOn :=
  decidable_of_iff (_ ∧ _ ∧ _ ∧ _) ⟨fun h => ⟨h.1, h.2.1, h.2.2.1, h.2.2.2⟩,
      fun h => ⟨h.lifecycle, h.terminal, h.responses, h.count⟩⟩

theorem decided_eq (input : TurnStartInput) (t : UserTurn) :
    t.decided input = if t.GoesOn then t.continued input else { t with stage := .settle } := by
  unfold decided decideContinuation
  by_cases hlifecycle : t.lifecycle = .active
  · by_cases hterminal : t.outcome.terminal.isError = true
    · have hnot : ¬t.GoesOn := fun h => by
        rw [h.terminal] at hterminal
        cases hterminal
      rw [if_neg hnot]
      simp [hlifecycle, hterminal]
    · by_cases hresponses : t.outcome.systemResponses = []
      · have hnot : ¬t.GoesOn := fun h => h.responses hresponses
        rw [if_neg hnot]
        simp [hlifecycle, hterminal, hresponses]
      · by_cases hcount : t.continuationCount < MAX_SYSTEM_RESPONSE_CONTINUATIONS_PER_TURN
        · have hgoes : t.GoesOn :=
            ⟨hlifecycle, by simpa using hterminal, hresponses, hcount⟩
          rw [if_pos hgoes]
          simp [hlifecycle, hterminal, hresponses, Nat.not_le.2 hcount, continued]
        · have hnot : ¬t.GoesOn := fun h => hcount h.count
          rw [if_neg hnot]
          simp [hlifecycle, hterminal, hresponses, Nat.not_lt.1 hcount]
  · have hnot : ¬t.GoesOn := fun h => hlifecycle h.lifecycle
    rw [if_neg hnot]
    simp [hlifecycle]

/-- The ways an attempt is settled. -/
inductive Settles (t : UserTurn) (lifecycle : RuntimeLifecycleState) : UserTurn → Prop
  | completes (terminal : t.outcome.terminal.isError = false) :
    Settles t lifecycle { t with stage := .release, failure := none }
  | replays (terminal : t.outcome.terminal.isError = true) (replays : t.replays lifecycle = true) :
    Settles t lifecycle { t with stage := .evict }
  | tips (terminal : t.outcome.terminal.isError = true) (stays : t.replays lifecycle = false)
    (deferred : t.outcome.attempt.terminalErrorDeferred = true)
    (error : t.outcome.attempt.terminalError.isSome = true) :
    Settles t lifecycle { t with stage := .tip true, failure := some .stream }
  | fails (terminal : t.outcome.terminal.isError = true) (stays : t.replays lifecycle = false)
    (shown : t.outcome.attempt.terminalErrorDeferred = false ∨
      t.outcome.attempt.terminalError.isSome = false) :
    Settles t lifecycle { t with stage := .release, failure := some .stream }

theorem settles (t : UserTurn) (lifecycle : RuntimeLifecycleState) :
    Settles t lifecycle (t.settled lifecycle) := by
  unfold settled
  split
  · rename_i hterminal
    exact .completes (by simpa using hterminal)
  · rename_i hterminal
    rw [Bool.not_eq_true, Bool.not_eq_false'] at hterminal
    split
    · rename_i hreplays
      exact .replays hterminal hreplays
    · rename_i hreplays
      rw [Bool.not_eq_true] at hreplays
      split
      · rename_i hdeferred
        rw [Bool.and_eq_true] at hdeferred
        exact .tips hterminal hreplays hdeferred.1 hdeferred.2
      · rename_i hdeferred
        rw [Bool.and_eq_true, not_and_or, Bool.not_eq_true, Bool.not_eq_true] at hdeferred
        exact .fails hterminal hreplays hdeferred

theorem replays_iff (t : UserTurn) (lifecycle : RuntimeLifecycleState) :
    t.replays lifecycle = true ↔ lifecycle = .active ∧ t.agentType = .acp ∧
      t.outcome.terminal.isError = true ∧ t.outcome.terminal.retryable = some true ∧
      t.outcome.terminal.code ≠ some .userLlmProviderModelNotFound ∧
      t.summary.safeToAutoReplay = true ∧ t.replayed = false := by
  simp [replays, decideRecovery, and_assoc]

end UserTurn

namespace TurnStage

def beforeSend : TurnStage → Bool
  | build | workspace | head | mode => true
  | relay | decide | settle | evict | tip _ | release | done => false

def afterRelay : TurnStage → Bool
  | decide | settle | evict => true
  | build | workspace | head | mode | relay | tip _ | release | done => false

theorem afterRelay_of_beforeSend {stage : TurnStage} (h : stage.beforeSend = true) :
    stage.afterRelay = false := by
  cases stage <;> first | rfl | cases h

end TurnStage

namespace UserTurn

variable {input : TurnStartInput} {t : UserTurn}

/-- The sends of the turn: as long as a replay is safe there is one at most, and its relay defers
errors exactly if it was told to. -/
structure Recorded (t : UserTurn) : Prop where
  reports : ∀ send ∈ t.sends, Reports send.relay send.stream send.state send.outcome
  first : t.replayed = false → ∀ send ∈ t.sends, send.replay = false
  defers : t.stage = .mode ∨ t.stage = .relay →
    t.deferCleanTerminalErrors = (!t.replayed && t.agentType = .acp && t.lifecycle = .active &&
      t.summary.safeToAutoReplay)
  fresh : t.stage.beforeSend = true ∨ t.stage = .relay → t.replayed = false →
    t.summary.safeToAutoReplay = true → t.sends = []
  last : t.stage.afterRelay = true → ∃ front send, t.sends = front ++ [send] ∧
    send.replay = t.replayed ∧ send.outcome = t.outcome ∧ send.lifecycle = t.lifecycle ∧
    (t.summary.safeToAutoReplay = true → t.outcome.attempt.safeToAutoReplay = true) ∧
    (t.replayed = false → t.summary.safeToAutoReplay = true → front = [] ∧
      (send.relay.deferCleanTerminalErrors = true ↔
        t.agentType = .acp ∧ t.lifecycle = .active)) ∧
    (send.relay.deferCleanTerminalErrors = true → t.replayed = false ∧
      t.agentType = .acp ∧ t.lifecycle = .active ∧
      (t.outcome.attempt.safeToAutoReplay = true → t.summary.safeToAutoReplay = true))
  evict : t.stage = .evict → t.replayed = false

theorem recorded_start (nextId : ℕ) : (start input nextId).Recorded where
  reports send hmem := absurd hmem List.not_mem_nil
  first _ send hmem := absurd hmem List.not_mem_nil
  defers h := by obtain h | h := h <;> cases h
  fresh _ _ _ := rfl
  last h := by cases h
  evict h := by cases h

section

variable (h : t.Recorded)
include h

/-- A step to a stage in which the record asks for nothing. -/
theorem Recorded.leave {t' : UserTurn} (hsends : t'.sends = t.sends)
    (hreplayed : t'.replayed = t.replayed)
    (hstage : t'.stage.beforeSend = false ∧ t'.stage ≠ .relay ∧ t'.stage.afterRelay = false) :
    t'.Recorded := by
  obtain ⟨hbefore, hrelay, hafter⟩ := hstage
  refine ⟨hsends ▸ h.reports, ?_, ?_, ?_, ?_, ?_⟩
  · rw [hsends, hreplayed]
    exact h.first
  · rintro (hmode | hrelay')
    · rw [hmode] at hbefore
      cases hbefore
    · exact absurd hrelay' hrelay
  · rintro (hbefore' | hrelay')
    · rw [hbefore] at hbefore'
      cases hbefore'
    · exact absurd hrelay' hrelay
  · intro hafter'
    rw [hafter] at hafter'
    cases hafter'
  · intro hevict
    rw [hevict] at hafter
    cases hafter

/-- A step to a stage before the next relay. -/
theorem Recorded.advance {t' : UserTurn} (hsends : t'.sends = t.sends)
    (hreplayed : t'.replayed = t.replayed) (hsummary : t'.summary = t.summary)
    (hstage : t.stage.beforeSend = true)
    (hstage' : t'.stage.beforeSend = true ∨ t'.stage = .relay)
    (hdefers : t'.stage = .mode ∨ t'.stage = .relay → t'.deferCleanTerminalErrors =
      (!t'.replayed && t'.agentType = .acp && t'.lifecycle = .active &&
        t'.summary.safeToAutoReplay)) : t'.Recorded := by
  refine ⟨hsends ▸ h.reports, ?_, hdefers, ?_, ?_, ?_⟩
  · rw [hsends, hreplayed]
    exact h.first
  · intro _
    rw [hsends, hreplayed, hsummary]
    exact h.fresh (.inl hstage)
  · intro hafter
    obtain hbefore | hrelay := hstage'
    · rw [TurnStage.afterRelay_of_beforeSend hbefore] at hafter
      cases hafter
    · rw [hrelay] at hafter
      cases hafter
  · intro hevict
    rw [hevict] at hstage'
    obtain hbefore | hrelay := hstage'
    · cases hbefore
    · cases hrelay

/-- A send is relayed. -/
theorem Recorded.after {send : RelayedSend} (hstage : t.stage = .relay) (hsend : t.SentBy send) :
    (t.after send).Recorded := by
  have hdefers := h.defers (.inr hstage)
  rw [← hsend.defers] at hdefers
  have hflag : send.relay.deferCleanTerminalErrors = true ↔ t.replayed = false ∧
      t.agentType = .acp ∧ t.lifecycle = .active ∧ t.summary.safeToAutoReplay = true := by
    rw [hdefers]
    simp [and_assoc]
  refine ⟨?_, ?_, ?_, ?_, ?_, ?_⟩
  · intro send' hmem
    obtain hmem | hmem := List.mem_append.1 hmem
    · exact h.reports send' hmem
    · rw [List.mem_singleton.1 hmem]
      exact hsend.reports
  · intro hreplayed send' hmem
    obtain hmem | hmem := List.mem_append.1 hmem
    · exact h.first hreplayed send' hmem
    · rw [List.mem_singleton.1 hmem]
      exact hsend.replay.trans hreplayed
  · rintro (hmode | hrelay)
    · cases hmode
    · cases hrelay
  · rintro (hbefore | hrelay)
    · cases hbefore
    · cases hrelay
  · intro _
    have hmerge := TurnAttemptSummary.safeToAutoReplay_merge t.summary send.outcome.attempt
    refine ⟨t.sends, send, rfl, hsend.replay, rfl, hsend.lifecycle, ?_, ?_, ?_⟩
    · intro hsafe
      rw [UserTurn.after, hmerge, Bool.and_eq_true] at hsafe
      exact hsafe.2
    · intro hreplayed hsafe
      rw [UserTurn.after, hmerge, Bool.and_eq_true] at hsafe
      refine ⟨h.fresh (.inr hstage) hreplayed hsafe.1, ?_⟩
      rw [hflag]
      exact ⟨fun hall => ⟨hall.2.1, hall.2.2.1⟩, fun hall => ⟨hreplayed, hall.1, hall.2, hsafe.1⟩⟩
    · intro hdefer
      obtain ⟨hreplayed, hagent, hlifecycle, hsafe⟩ := hflag.1 hdefer
      refine ⟨hreplayed, hagent, hlifecycle, fun houtcome => ?_⟩
      rw [UserTurn.after, hmerge, Bool.and_eq_true]
      exact ⟨hsafe, houtcome⟩
  · intro hevict
    cases hevict

theorem Recorded.lastSend (hstage : t.stage.afterRelay = true) :
    ∃ send ∈ t.sends, Reports send.relay send.stream send.state t.outcome := by
  obtain ⟨front, send, hsends, -, houtcome, -⟩ := h.last hstage
  have hmem : send ∈ t.sends := by
    rw [hsends]
    exact List.mem_append_right _ (List.mem_singleton_self send)
  exact ⟨send, hmem, houtcome ▸ h.reports send hmem⟩

/-- A replay is decided over a deferred error exactly if the lifecycle before the send was
active. -/
theorem deferred_iff (hstage : t.stage = .settle) {lifecycle : RuntimeLifecycleState}
    (hreplays : t.replays lifecycle = true) :
    t.outcome.attempt.terminalErrorDeferred = true ↔ t.lifecycle = .active := by
  obtain ⟨-, hagent, herror, hretryable, hcode, hsafe, hreplayed⟩ :=
    (replays_iff t lifecycle).1 hreplays
  obtain ⟨front, send, hsends, -, houtcome, -, hsafe', hdefers, -⟩ :=
    h.last (by rw [hstage]; rfl)
  have hflag := (hdefers hreplayed hsafe).2
  have hmem : send ∈ t.sends := by
    rw [hsends]
    exact List.mem_append_right _ (List.mem_singleton_self send)
  have hdeferred := (h.reports send hmem).deferred
  rw [houtcome, hflag] at hdeferred
  rw [hdeferred]
  exact ⟨fun hall => hall.1.2,
    fun hactive => ⟨⟨hagent, hactive⟩, herror, hretryable, hcode, hsafe' hsafe⟩⟩

/-- A turn that continues has shown output. -/
theorem Recorded.summary_of_goesOn (hstage : t.stage = .decide) (hgoes : t.GoesOn) :
    t.summary.safeToAutoReplay = false := by
  have hafter : t.stage.afterRelay = true := by rw [hstage]; rfl
  obtain ⟨-, -, -, -, -, -, hsafe, -⟩ := h.last hafter
  obtain ⟨send, -, hreports⟩ := h.lastSend hafter
  rw [Bool.eq_false_iff]
  intro hsummary
  have hunsafe := hreports.responses hgoes.responses
  rw [hsafe hsummary] at hunsafe
  cases hunsafe

end

variable {step : TurnStep}

theorem Recorded.fire (h : t.Recorded) (hadmits : (machine input).admits t step) :
    (t.fire input step).Recorded := by
  obtain ⟨hstage, henabled⟩ := hadmits
  cases step with
  | built reply =>
    have hbuild : t.stage = .build := hstage
    cases reply with
    | none => exact h.leave rfl rfl ⟨rfl, nofun, rfl⟩
    | some agentType =>
      refine h.advance rfl rfl rfl (by rw [hbuild]; rfl) (.inl rfl) ?_
      rintro (hmode | hrelay)
      · cases hmode
      · cases hrelay
  | workspacePersisted ok =>
    have hworkspace : t.stage = .workspace := hstage
    cases ok with
    | false => exact h.leave rfl rfl ⟨rfl, nofun, rfl⟩
    | true =>
      refine h.advance rfl rfl rfl (by rw [hworkspace]; rfl) (.inl rfl) ?_
      rintro (hmode | hrelay)
      · cases hmode
      · cases hrelay
  | sampled lifecycle =>
    have hhead : t.stage = .head := hstage
    simp only [UserTurn.fire]
    split
    · exact h.advance rfl rfl rfl (by rw [hhead]; rfl) (.inl rfl) fun _ => rfl
    · exact h.advance rfl rfl rfl (by rw [hhead]; rfl) (.inr rfl) fun _ => rfl
  | modeApplied ok =>
    have hmode : t.stage = .mode := hstage
    cases ok with
    | false => exact h.leave rfl rfl ⟨rfl, nofun, rfl⟩
    | true =>
      exact h.advance rfl rfl rfl (by rw [hmode]; rfl) (.inr rfl) fun _ => h.defers (.inl hmode)
  | startSend => exact ⟨h.reports, h.first, h.defers, h.fresh, h.last, h.evict⟩
  | relayed stream =>
    obtain hsame | ⟨send, hafter, hsend, -⟩ := relayed_cases henabled
    · simp only [UserTurn.fire, hsame]
      exact h
    · simp only [UserTurn.fire, hafter]
      exact h.after hstage hsend
  | decided =>
    simp only [UserTurn.fire, decided_eq]
    split
    · rename_i hgoes
      have hunsafe := h.summary_of_goesOn hstage hgoes
      refine ⟨h.reports, h.first, ?_, ?_, fun hafter => (by cases hafter),
        fun hevict => (by cases hevict)⟩
      · rintro (hmode | hrelay)
        · cases hmode
        · cases hrelay
      · intro _ _ hsafe
        rw [show t.summary.safeToAutoReplay = true from hsafe] at hunsafe
        cases hunsafe
    · refine ⟨h.reports, h.first, ?_, ?_, fun _ => h.last (by rw [hstage]; rfl),
        fun hevict => (by cases hevict)⟩
      · rintro (hmode | hrelay)
        · cases hmode
        · cases hrelay
      · rintro (hbefore | hrelay)
        · cases hbefore
        · cases hrelay
  | settled lifecycle =>
    have hsettle : t.stage = .settle := hstage
    have hsettles := t.settles lifecycle
    simp only [UserTurn.fire]
    generalize t.settled lifecycle = t' at hsettles ⊢
    cases hsettles with
    | completes | tips | fails => exact h.leave rfl rfl ⟨rfl, nofun, rfl⟩
    | replays terminal replays =>
      have hreplayed := ((replays_iff t lifecycle).1 replays).2.2.2.2.2.2
      refine ⟨h.reports, h.first, ?_, ?_, fun _ => h.last (by rw [hsettle]; rfl),
        fun _ => hreplayed⟩
      · rintro (hmode | hrelay)
        · cases hmode
        · cases hrelay
      · rintro (hbefore | hrelay)
        · cases hbefore
        · cases hrelay
  | evicted =>
    refine ⟨h.reports, fun hreplayed => (by cases hreplayed), ?_, fun _ hreplayed => (by
      cases hreplayed), fun hafter => (by cases hafter), fun hevict => (by cases hevict)⟩
    rintro (hmode | hrelay)
    · cases hmode
    · cases hrelay
  | tipped lifecycle ok => exact h.leave rfl rfl ⟨rfl, nofun, rfl⟩
  | released => exact h.leave rfl rfl ⟨rfl, nofun, rfl⟩

theorem recorded_of_reachable (h : (machine input).Reachable t) : t.Recorded := by
  refine h.invariant ?_ fun _ _ hrecorded hadmits => hrecorded.fire hadmits
  rintro _ ⟨nextId, rfl⟩
  exact recorded_start nextId

def Replays (t : UserTurn) : Prop := t.stage = .evict ∨ t.replayed = true

instance (t : UserTurn) : Decidable t.Replays := inferInstanceAs (Decidable (_ ∨ _))

/-- If the turn is replayed, the sends of its first attempt meet `P`. -/
def FirstAttempt (P : RelayedSend → Prop) (t : UserTurn) : Prop :=
  t.Replays → ∀ send ∈ t.sends, send.replay = false → P send

/-- What a step does to the sends and to the replay. -/
inductive ReplayStep (t : UserTurn) (step : TurnStep) (t' : UserTurn) : Prop
  | kept (sends : t'.sends = t.sends) (replays : t'.Replays → t.Replays)
    (decides : ∀ lifecycle, step = .settled lifecycle → t.replays lifecycle = false)
  | sent (send : RelayedSend) (sends : t'.sends = t.sends ++ [send])
    (replay : send.replay = t.replayed) (replays : t'.Replays → t.replayed = true)
    (relayed : ∃ stream, step = .relayed stream)
  | replays (lifecycle : RuntimeLifecycleState) (settled : step = .settled lifecycle)
    (replays : t.replays lifecycle = true) (evict : t' = { t with stage := .evict })

theorem replayStep_of_admits (hadmits : (machine input).admits t step) :
    t.ReplayStep step (t.fire input step) := by
  obtain ⟨hstage, henabled⟩ := hadmits
  have hkept : ∀ t' : UserTurn,
      (∀ lifecycle, step = .settled lifecycle → t.replays lifecycle = false) →
      t'.sends = t.sends → t'.replayed = t.replayed → (t'.stage = .evict → t.stage = .evict) →
      t.ReplayStep step t' := by
    intro t' hdecides hsends hreplayed hevict
    refine .kept hsends ?_ hdecides
    rintro (hr | hr)
    · exact .inl (hevict hr)
    · exact .inr (hreplayed ▸ hr)
  cases step with
  | built reply | workspacePersisted reply | modeApplied reply =>
    cases reply <;> exact hkept _ (by simp) rfl rfl fun hevict => (by cases hevict)
  | sampled lifecycle =>
    simp only [fire]
    split <;> exact hkept _ (by simp) rfl rfl fun hevict => (by cases hevict)
  | startSend => exact hkept _ (by simp) rfl rfl id
  | relayed stream =>
    obtain hsame | ⟨send, hafter, hsend, -⟩ := relayed_cases henabled
    · simp only [fire, hsame]
      exact hkept _ (by simp) rfl rfl id
    · simp only [fire, hafter]
      refine .sent send rfl hsend.replay ?_ ⟨stream, rfl⟩
      rintro (hr | hr)
      · cases hr
      · exact hr
  | decided =>
    simp only [fire, decided_eq]
    split <;> exact hkept _ (by simp) rfl rfl fun hevict => (by cases hevict)
  | settled lifecycle =>
    have hsettles := t.settles lifecycle
    simp only [fire]
    generalize t.settled lifecycle = t' at hsettles ⊢
    cases hsettles with
    | completes terminal =>
      refine hkept _ ?_ rfl rfl fun hevict => (by cases hevict)
      rintro _ ⟨⟩
      rw [Bool.eq_false_iff]
      intro hreplays
      rw [((replays_iff t lifecycle).1 hreplays).2.2.1] at terminal
      cases terminal
    | tips terminal stays | fails terminal stays =>
      refine hkept _ ?_ rfl rfl fun hevict => (by cases hevict)
      rintro _ ⟨⟩
      exact stays
    | replays terminal replays => exact .replays lifecycle rfl replays rfl
  | evicted => exact .kept rfl (fun _ => .inl hstage) (by simp)
  | tipped lifecycle ok | released =>
    exact hkept _ (by simp) rfl rfl fun hevict => (by cases hevict)

/-- All depends on the step that decides on the replay. -/
theorem firstAttempt_fire_iff {P : RelayedSend → Prop} (h : t.Recorded)
    (hfirst : t.FirstAttempt P) (hadmits : (machine input).admits t step) :
    (t.fire input step).FirstAttempt P ↔ ∀ lifecycle, step = .settled lifecycle →
      t.replays lifecycle = true → ∀ send ∈ t.sends, P send := by
  have hstep := replayStep_of_admits hadmits
  generalize t.fire input step = t' at hstep ⊢
  cases hstep with
  | kept sends replays decides =>
    apply iff_of_true
    · intro hreplays
      rw [sends]
      exact hfirst (replays hreplays)
    · intro lifecycle hsettled hreplays
      rw [decides lifecycle hsettled] at hreplays
      cases hreplays
  | sent send sends replay replays relayed =>
    obtain ⟨stream, hrelayed⟩ := relayed
    apply iff_of_true
    · intro hreplays send' hmem hbefore
      have hreplayed := replays hreplays
      rw [sends] at hmem
      obtain hmem | hmem := List.mem_append.1 hmem
      · exact hfirst (.inr hreplayed) send' hmem hbefore
      · rw [List.mem_singleton.1 hmem, replay, hreplayed] at hbefore
        cases hbefore
    · intro lifecycle hsettled
      rw [hrelayed] at hsettled
      cases hsettled
  | replays lifecycle settled replays evict =>
    have hbefore := h.first ((replays_iff t lifecycle).1 replays).2.2.2.2.2.2
    rw [evict]
    constructor
    · intro hfirst' lifecycle' _ _ send hmem
      exact hfirst' (.inl rfl) send hmem (hbefore send hmem)
    · intro hall _ send hmem _
      exact hall lifecycle settled replays send hmem

end UserTurn

end AionCore.Conversation
