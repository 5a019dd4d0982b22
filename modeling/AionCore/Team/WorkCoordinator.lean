import AionCore.Team.WorkState

/-!
# Team work: the slot work coordinator

The sixteen operations of `SlotWorkCoordinator` in `work_coordinator/coordinator.rs`. Each
runs under the coordinator's lock: it maps the state to the next state and a result,
together with the calls on the `RunCausalityPort` that it makes once the lock is
released. The clock, the answer of `bind_enqueue` and the iteration order of the
intents' hash map are arguments.
-/

namespace AionCore.Team

/-- What an operation leaves behind: the state when the lock is released, the
result, and the calls on the port that follow, in order. -/
structure Outcome (ρ : Type) where
  state : CoordinatorState
  result : ρ
  calls : List PortCall

/-- `SlotWorkCoordinator`: the session it belongs to and its source of identifiers. -/
structure SlotWorkCoordinator where
  sessionGeneration : String
  generateId : Supply String

/-- `publish_run_summaries`. -/
def publishRunSummaries (summaries : List RunWorkSummary) : List PortCall :=
  summaries.map .applyWorkSummary

namespace SlotWorkCoordinator

open CoordinatorState (sortedSet)

def validateEnqueueConstraint (slotId : String) (slot : SlotState) : Except TeamError Unit :=
  if slot.removed then .error (.invalidRequest ("Team slot was removed: " ++ slotId))
  else
    match slot.runtimeConstraint with
    | .ready | .starting _ => .ok ()
    | .failed _ classification =>
      .error (.invalidRequest ("Team slot runtime failed (" ++ classification ++ "): " ++ slotId))
    | .removing _ => .error (.invalidRequest ("Team slot is being removed: " ++ slotId))
    | .sessionStopped => .error (.invalidRequest ("Team session stopped for slot: " ++ slotId))

variable (c : SlotWorkCoordinator)

def isCurrentBatch (s : CoordinatorState) (batch : WorkBatch) : Bool :=
  batch.sessionGeneration = c.sessionGeneration ∧
    (s.activeOf batch.slotId).any fun active =>
      active.batch.batchId = batch.batchId ∧ active.batch.operationId = batch.operationId ∧
        active.batch.sessionGeneration = batch.sessionGeneration

/-- The binding that `acquire_enqueue` computes for a request; `bindEnqueue` is the
port's answer, asked for user-visible and active-run bindings only. -/
def requestBinding (s : CoordinatorState) (bindEnqueue : EnqueueRequest → RunBinding)
    (request : EnqueueRequest) : RunBinding :=
  match request.binding with
  | .background => ⟨none, false, false⟩
  | .inheritRunningBatch callerSlotId =>
    ⟨(s.activeOf callerSlotId).bind (·.batch.teamRunIds.head?), false, false⟩
  | .userVisible | .activeRunOrBackground => bindEnqueue request

def acquireEnqueue (s : CoordinatorState) (bindEnqueue : EnqueueRequest → RunBinding)
    (request : EnqueueRequest) : Outcome (Except TeamError EnqueueLease) :=
  let slot := { s.entrySlot request.slotId request.role with role := request.role }
  -- the slot and its role stay, even if the request is refused
  let s := s.putSlot request.slotId slot
  match validateEnqueueConstraint request.slotId slot with
  | .error e => ⟨s, .error e, []⟩
  | .ok () =>
    let binding := requestBinding s bindEnqueue request
    let lease : EnqueueLease :=
      { leaseId := c.generateId.draw s.generated
        sessionGeneration := c.sessionGeneration
        slotId := request.slotId
        role := request.role
        source := request.source
        teamRunId := binding.teamRunId }
    ⟨{ s with
        enqueueLeases := s.enqueueLeases.insert lease.leaseId ⟨lease, binding⟩
        generated := s.generated + 1 }, .ok lease, []⟩

/-- The checks that `commit_enqueue` makes before it changes anything. -/
def checkCommit (s : CoordinatorState) (lease : EnqueueLease)
    (mailboxMessageId : Option String) : Except TeamError SlotState :=
  match s.enqueueLeases.lookup lease.leaseId with
  | none => .error (.invalidRequest "enqueue lease is no longer active")
  | some record =>
    if record.lease ≠ lease ∨ lease.sessionGeneration ≠ c.sessionGeneration then
      .error (.invalidRequest "stale enqueue lease owner")
    else if lease.source.requiresMailboxMessage ∧ mailboxMessageId.isNone then
      .error (.invalidRequest (lease.source.debugName ++ " requires a mailbox message"))
    else
      match s.slots.lookup lease.slotId with
      | none => .error (.agentNotFound lease.slotId)
      | some slot =>
        match validateEnqueueConstraint lease.slotId slot with
        | .error e => .error e
        | .ok () => .ok slot

def enqueueDisposition (slot : SlotState) : EnqueueDisposition :=
  match slot.runtimeConstraint with
  | .starting _ => .blockedRuntimeStarting
  | .ready => if slot.active.isNone ∧ slot.queuedIds = [] then .accepted else .queued
  -- `unreachable!`: the constraint has been validated
  | .failed _ _ | .removing _ | .sessionStopped => .queued

/-- The intent that `commit_enqueue` creates. -/
def committedIntent (s : CoordinatorState) (lease : EnqueueLease)
    (mailboxMessageId : Option String) (now : TimestampMs) : WorkIntent where
  intentId := c.generateId.draw s.generated
  sessionGeneration := c.sessionGeneration
  slotId := lease.slotId
  role := lease.role
  source := lease.source
  priority := lease.source.priority
  mailboxMessageId := mailboxMessageId
  teamRunId := lease.teamRunId
  createdAtMs := now
  state := .queued

def commitEnqueue (s : CoordinatorState) (lease : EnqueueLease)
    (mailboxMessageId : Option String) (now : TimestampMs) :
    Outcome (Except TeamError EnqueueCommit) :=
  match c.checkCommit s lease mailboxMessageId with
  | .error e => ⟨s, .error e, []⟩
  | .ok slot =>
    let disposition := enqueueDisposition slot
    let intent := c.committedIntent s lease mailboxMessageId now
    let slot := if lease.source.resumesPausedSlot then { slot with paused := false } else slot
    let slot := { slot with
      knownUnreadMessageIds := slot.knownUnreadMessageIds ∪ mailboxMessageId.toList.toFinset }
    let slot := slot.pushBack intent.priority intent.intentId
    let s : CoordinatorState :=
      { s with
        enqueueLeases := s.enqueueLeases.erase lease.leaseId
        intents := s.intents.insert intent.intentId intent
        slots := s.slots.insert lease.slotId slot
        generated := s.generated + 1 }
    ⟨s, .ok ⟨intent.intentId, lease.teamRunId, disposition, s.snapshotOf lease.slotId slot⟩,
      publishRunSummaries (s.runSummariesLocked lease.teamRunId.toList)⟩

def abortEnqueue (s : CoordinatorState) (lease : EnqueueLease) : Outcome CommitResult :=
  match s.enqueueLeases.lookup lease.leaseId with
  | none => ⟨s, .staleOwner, []⟩
  | some record =>
    let s := { s with enqueueLeases := s.enqueueLeases.erase lease.leaseId }
    if record.lease ≠ lease ∨ lease.sessionGeneration ≠ c.sessionGeneration then
      ⟨{ s with enqueueLeases := s.enqueueLeases.insert record.lease.leaseId record },
        .staleOwner, []⟩
    else
      -- ended intents count too: a run that ever had an intent is not empty
      let removeEmptyRun := lease.teamRunId.any fun teamRunId =>
        !(s.intents.values.any fun intent => intent.teamRunId = some teamRunId) &&
          !(s.enqueueLeases.values.any fun candidate =>
            candidate.lease.teamRunId = some teamRunId)
      ⟨s, .committed,
        (if removeEmptyRun then [.abortBinding record.binding] else []) ++
          publishRunSummaries (s.runSummariesLocked lease.teamRunId.toList)⟩

def isStale (s : CoordinatorState) (unread : List String) (intentId : String) : Bool :=
  (s.intents.lookup intentId).any fun intent =>
    intent.mailboxMessageId.any fun messageId => messageId ∉ unread

def alreadyOwned (s : CoordinatorState) (slotId messageId : String) : Bool :=
  s.intents.values.any fun intent =>
    intent.slotId = slotId ∧ intent.mailboxMessageId = some messageId ∧ !intent.state.isTerminal

/-- The intent that `reconcile_mailbox` creates for an unread message without owner. -/
def recoveryIntent (s : CoordinatorState) (slotId messageId : String) (role : TeamRunTargetRole)
    (now : TimestampMs) : WorkIntent where
  intentId := c.generateId.draw s.generated
  sessionGeneration := c.sessionGeneration
  slotId := slotId
  role := role
  source := .recoveryDrain
  priority := .background
  mailboxMessageId := some messageId
  teamRunId := none
  createdAtMs := now
  state := .queued

/-- One turn of the recovery loop of `reconcile_mailbox`. -/
def recoverMessage (slotId : String) (role : TeamRunTargetRole) (now : TimestampMs)
    (acc : CoordinatorState × List String) (messageId : String) :
    CoordinatorState × List String :=
  let s := acc.1
  if alreadyOwned s slotId messageId then acc
  else
    let intent := c.recoveryIntent s slotId messageId role now
    let s : CoordinatorState :=
      { s with
        intents := s.intents.insert intent.intentId intent
        generated := s.generated + 1 }
    (s.modifySlot slotId fun slot => slot.pushBack .background intent.intentId,
      acc.2 ++ [intent.intentId])

def reconcileMailbox (s : CoordinatorState) (slotId : String) (unreadMessageIds : List String)
    (role : TeamRunTargetRole) (now : TimestampMs) : Outcome ReconcileProjection :=
  let slot := { s.entrySlot slotId role with
    role := role, knownUnreadMessageIds := unreadMessageIds.toFinset }
  let s := s.putSlot slotId slot
  let candidates := slot.queuedIds.filter fun id => (s.intents.lookup id).isSome
  let cleared := candidates.filter (isStale s unreadMessageIds)
  let retained := candidates.filter fun id => !isStale s unreadMessageIds id
  -- what is cleared is Completed, and no run hears of it
  let s := s.setIntentStates cleared .completed
  let s := s.removeAllQueued slotId cleared
  let (s, created) := unreadMessageIds.foldl (c.recoverMessage slotId role now) (s, [])
  ⟨s, ⟨created, retained, cleared⟩, []⟩

/-- The batch that `next` builds from the claimable intents of one queue. -/
def claimedBatch (s : CoordinatorState) (slotId : String) (priority : WorkPriority)
    (intentIds : List String) : WorkBatch where
  batchId := c.generateId.draw s.generated
  sessionGeneration := c.sessionGeneration
  slotId := slotId
  intentIds := intentIds
  mailboxMessageIds := intentIds.filterMap fun id => (s.intents.lookup id).bind (·.mailboxMessageId)
  highestPriority := priority
  teamRunIds := (intentIds.filterMap fun id => (s.intents.lookup id).bind (·.teamRunId)).foldl
    (fun ids id => if id ∈ ids then ids else ids ++ [id]) []
  operationId := saturatingAdd s.nextOperationId 1

def bearsMessage (s : CoordinatorState) (intentId : String) : Bool :=
  (s.intents.lookup intentId).any (·.mailboxMessageId.isSome)

/-- The last part of `next`: the intents leave their queue and start as one batch. -/
def claimBatch (s : CoordinatorState) (slotId : String) (priority : WorkPriority)
    (messageIntentIds : List String) : Outcome ReconcileDecision :=
  let batch := c.claimedBatch s slotId priority messageIntentIds
  let s := { s with nextOperationId := batch.operationId, generated := s.generated + 1 }
  let s := s.setIntentStates messageIntentIds (.starting batch.batchId batch.operationId)
  let s := s.modifySlot slotId fun slot =>
    { messageIntentIds.foldl .removeQueued slot with active := some ⟨batch, none, none⟩ }
  ⟨s, .claim batch, publishRunSummaries (s.runSummariesLocked batch.teamRunIds)⟩

def next (s : CoordinatorState) (slotId : String) : Outcome ReconcileDecision :=
  match s.slots.lookup slotId with
  | none => ⟨s, .quiescent, []⟩
  | some slot =>
    if slot.active.isSome then ⟨s, .waitingForCompletion, []⟩
    else if slot.runtimeConstraint ≠ .ready then ⟨s, .blocked slot.runtimeConstraint, []⟩
    else if slot.paused then ⟨s, .quiescent, []⟩
    else
      match [WorkPriority.foreground, .control, .background].find?
          fun priority => slot.queue priority ≠ [] with
      | none => ⟨s, .quiescent, []⟩
      | some priority =>
        let queuedIds := slot.queue priority
        let messageIntentIds := queuedIds.filter (bearsMessage s)
        if messageIntentIds = [] then ⟨s, .settleSignals queuedIds, []⟩
        else c.claimBatch s slotId priority messageIntentIds

def markStarted (s : CoordinatorState) (batch : WorkBatch) (turnId : String)
    (now : TimestampMs) : Outcome StartCommitResult :=
  if ¬c.isCurrentBatch s batch then
    -- the slot has another batch or none; what is left of this one is in its intents
    let wasCancelled := batch.intentIds.all fun id =>
      (s.intents.lookup id).any (·.state.isCancelled)
    ⟨s, if wasCancelled then .cancelImmediately else .staleOwner, []⟩
  else
    let cancelImmediately := (s.slots.lookup batch.slotId).any fun slot =>
      slot.paused ∨ slot.runtimeConstraint ≠ .ready
    -- the turn runs even if the caller is told to cancel it
    let s := s.setIntentStates batch.intentIds (.running batch.batchId batch.operationId turnId)
    let s := s.modifySlot batch.slotId fun slot =>
      { slot with active := slot.active.map fun active =>
          { active with turnId := some turnId, startedAtMs := some now } }
    ⟨s, if cancelImmediately then .cancelImmediately else .accepted,
      publishRunSummaries (s.runSummariesLocked batch.teamRunIds)⟩

def retryStart (s : CoordinatorState) (batch : WorkBatch) : Outcome CommitResult :=
  if ¬c.isCurrentBatch s batch then ⟨s, .staleOwner, []⟩
  else
    let s := s.setIntentStates batch.intentIds .queued
    let s := s.modifySlot batch.slotId fun slot =>
      -- pushed in reverse, so the batch keeps its order
      batch.intentIds.reverse.foldl (fun slot id => slot.pushFront batch.highestPriority id)
        { slot with active := none }
    ⟨s, .committed, publishRunSummaries (s.runSummariesLocked batch.teamRunIds)⟩

def terminalizeBatch (s : CoordinatorState) (batch : WorkBatch)
    (terminalState : WorkIntentState) : Outcome CommitResult :=
  if ¬c.isCurrentBatch s batch then ⟨s, .staleOwner, []⟩
  else
    let s := s.setIntentStates batch.intentIds terminalState
    let s := s.modifySlot batch.slotId fun slot => { slot with active := none }
    ⟨s, .committed, publishRunSummaries (s.runSummariesLocked batch.teamRunIds)⟩

def completeBatch (s : CoordinatorState) (batch : WorkBatch) : Outcome CommitResult :=
  c.terminalizeBatch s batch .completed

def failBatch (s : CoordinatorState) (batch : WorkBatch) (classification : String) :
    Outcome CommitResult :=
  c.terminalizeBatch s batch (.failed classification)

def cancelBatch (s : CoordinatorState) (batch : WorkBatch) (classification : String) :
    Outcome CommitResult :=
  c.terminalizeBatch s batch (.cancelled classification)

def intentOfRun (s : CoordinatorState) (teamRunId intentId : String) : Bool :=
  (s.intents.lookup intentId).any (·.teamRunId = some teamRunId)

def activeSlotsOfRun (s : CoordinatorState) (teamRunId : String) : List (String × ActiveBatch) :=
  s.slots.sortedKeys.filterMap fun slotId =>
    (s.activeOf slotId).bind fun active =>
      if active.batch.intentIds.any (intentOfRun s teamRunId) then some (slotId, active) else none

/-- One turn of the first loop of `cancel_run`: the intents of the run end, the others
return to the front of their queues. -/
def cancelActive (teamRunId : String) (s : CoordinatorState) (target : String × ActiveBatch) :
    CoordinatorState :=
  let ids := target.2.batch.intentIds
  let retained := ids.filter fun id => !intentOfRun s teamRunId id
  let requeued := retained.filterMap fun id =>
    (s.intents.lookup id).map fun intent => (intent.priority, id)
  let s := s.setIntentStates (ids.filter (intentOfRun s teamRunId)) (.cancelled "run_cancelled")
  let s := s.setIntentStates retained .queued
  s.modifySlot target.1 fun slot =>
    requeued.reverse.foldl (fun slot entry => slot.pushFront entry.1 entry.2)
      { slot with active := none }

/-- One turn of the second loop of `cancel_run`. -/
def cancelQueued (s : CoordinatorState) (intentId : String) : CoordinatorState :=
  match s.intents.lookup intentId with
  | none => s
  | some intent =>
    (s.setIntentStates [intentId] (.cancelled "run_cancelled")).modifySlot intent.slotId
      fun slot => slot.removeQueued intentId

def cancelRun (s : CoordinatorState) (teamRunId : String) (order : IterOrder WorkIntent) :
    Outcome CancelRunWorkResult :=
  let targets := activeSlotsOfRun s teamRunId
  let activeMessages := targets.flatMap fun target =>
    (target.2.batch.intentIds.filter (intentOfRun s teamRunId)).filterMap fun id =>
      (s.intents.lookup id).bind (·.mailboxMessageId)
  let s := targets.foldl (cancelActive teamRunId) s
  let queued := (order.arrange s.intents.values).filter fun intent =>
    intent.teamRunId = some teamRunId ∧ intent.state = .queued
  let s := (queued.map (·.intentId)).foldl cancelQueued s
  -- the bindings of these leases are not dropped
  let leaseIds := (s.runLeases teamRunId).map (·.lease.leaseId)
  let s := { s with
    enqueueLeases := leaseIds.foldl (fun leases id => AList.erase id leases) s.enqueueLeases }
  let summary := s.runSummaryLocked teamRunId
  ⟨s, ⟨targets.map fun target => ⟨target.2.batch, target.2.turnId⟩,
    activeMessages ++ queued.filterMap (·.mailboxMessageId), summary⟩,
    [.applyWorkSummary summary]⟩

/-- A signal that `complete_signals` may settle. -/
def isQueuedSignal (s : CoordinatorState) (slotId intentId : String) : Bool :=
  (s.intents.lookup intentId).any fun intent =>
    intent.slotId = slotId ∧ intent.mailboxMessageId.isNone ∧ intent.state = .queued

def completeSignals (s : CoordinatorState) (slotId : String) (intentIds : List String) :
    Outcome CommitResult :=
  if ¬intentIds.all (isQueuedSignal s slotId) then ⟨s, .rejected, []⟩
  else
    let runIds := intentIds.filterMap fun id => (s.intents.lookup id).bind (·.teamRunId)
    let s := s.setIntentStates intentIds .completed
    let s := s.removeAllQueued slotId intentIds
    ⟨s, .committed, publishRunSummaries (s.runSummariesLocked runIds)⟩

def pauseSlot (s : CoordinatorState) (slotId : String) : Outcome PauseWorkResult :=
  let slot := { s.entrySlot slotId .teammate with paused := true }
  let s := s.putSlot slotId slot
  ⟨s, ⟨slot.active.map fun active => ⟨active.batch, active.turnId⟩, s.snapshotOf slotId slot⟩, []⟩

/-- How `set_runtime_constraint` ends the work of a slot under this constraint, if it
ends it at all. -/
def constraintTerminalState : RuntimeConstraint → Option WorkIntentState
  | .failed _ classification => some (.failed classification)
  | .sessionStopped => some (.cancelled "session_stopped")
  | _ => none

def liveIntents (s : CoordinatorState) (order : IterOrder WorkIntent) (slotId : String) :
    List WorkIntent :=
  (order.arrange s.intents.values).filter fun intent =>
    intent.slotId = slotId ∧ !intent.state.isTerminal

def survives (constraint : RuntimeConstraint) (intent : WorkIntent) : Bool :=
  intent.teamRunId.isNone ∧ constraint ≠ .sessionStopped

def setRuntimeConstraint (s : CoordinatorState) (slotId : String) (constraint : RuntimeConstraint)
    (order : IterOrder WorkIntent) : Outcome RuntimeConstraintUpdate :=
  let slot := { s.entrySlot slotId .teammate with runtimeConstraint := constraint }
  let s := s.putSlot slotId slot
  match constraintTerminalState constraint with
  | none => ⟨s, ⟨s.snapshotOf slotId slot, [], []⟩, []⟩
  | some terminalState =>
    let kept := (liveIntents s order slotId).filter (survives constraint)
    let ended := (liveIntents s order slotId).filter fun intent => !survives constraint intent
    let s := s.setIntentStates (kept.map (·.intentId)) .queued
    let s := s.setIntentStates (ended.map (·.intentId)) terminalState
    -- the queues are filled anew in the order of the iteration
    let slot := kept.foldl (fun slot intent => slot.pushBack intent.priority intent.intentId)
      slot.clearWork
    let s := s.putSlot slotId slot
    let summaries := (sortedSet (ended.filterMap (·.teamRunId))).map s.runSummaryLocked
    ⟨s, ⟨s.snapshotOf slotId slot, ended.filterMap (·.mailboxMessageId), summaries⟩,
      publishRunSummaries summaries⟩

/-- The order in which `remove_slot` sorts intents it finds in no queue and no batch. -/
def createdBefore (a b : WorkIntent) : Prop :=
  a.createdAtMs < b.createdAtMs ∨ a.createdAtMs = b.createdAtMs ∧ a.intentId ≤ b.intentId

instance : DecidableRel createdBefore := fun a b =>
  inferInstanceAs (Decidable (a.createdAtMs < b.createdAtMs ∨
    a.createdAtMs = b.createdAtMs ∧ a.intentId ≤ b.intentId))

/-- The intents that `remove_slot` cancels: active, queued, then all other live ones. -/
def removedIntentIds (s : CoordinatorState) (slotId : String) : List String :=
  let ordered := ((s.activeOf slotId).elim [] (·.batch.intentIds)) ++
    ((s.slots.lookup slotId).elim [] (·.queuedIds))
  let remaining := (s.intents.values.filter fun intent =>
    intent.slotId = slotId ∧ !intent.state.isTerminal ∧ intent.intentId ∉ ordered)
  ordered ++ (remaining.insertionSort createdBefore).map (·.intentId)

/-- The loop of `remove_slot`. It stops with a panic (`false`) at an unknown intent. -/
def cancelListed : CoordinatorState → List String → CoordinatorState × Bool
  | s, [] => (s, true)
  | s, id :: ids =>
    match s.intents.lookup id with
    | none => (s, false)
    | some _ => cancelListed (s.setIntentStates [id] (.cancelled "slot_removed")) ids

/-- `remove_slot`; without result it panicked and left the lock poisoned, which the
next operation ignores. -/
def removeSlot (s : CoordinatorState) (slotId : String) : Outcome (Option RemoveWorkResult) :=
  let cancelTarget := (s.activeOf slotId).map fun active => ⟨active.batch, active.turnId⟩
  let ids := removedIntentIds s slotId
  let messages := ids.filterMap fun id => (s.intents.lookup id).bind (·.mailboxMessageId)
  let runIds := ids.filterMap fun id => (s.intents.lookup id).bind (·.teamRunId)
  match cancelListed s ids with
  | (s, false) => ⟨s, none, []⟩
  | (s, true) =>
    let s := s.modifySlot slotId fun slot => { slot.clearWork with removed := true }
    let summaries := (sortedSet runIds).map s.runSummaryLocked
    ⟨s, some ⟨cancelTarget, messages, summaries⟩, publishRunSummaries summaries⟩

def stop (s : CoordinatorState) : Outcome (List RunWorkSummary) :=
  -- collected before the leases are gone
  let runIds := s.allRunIds
  let s : CoordinatorState :=
    { s with
      intents := s.intents.mapValues fun _ intent =>
        if intent.state.isTerminal then intent
        else { intent with state := .cancelled "session_stopped" }
      slots := s.slots.mapValues fun _ slot =>
        { slot.clearWork with runtimeConstraint := .sessionStopped }
      enqueueLeases := ∅ }
  let summaries := runIds.map s.runSummaryLocked
  ⟨s, summaries, publishRunSummaries summaries⟩

/-- Whether a run still has work, as `snapshot` looks for it. -/
def hasWork (summary : RunWorkSummary) : Bool :=
  summary.queuedIntentCount > 0 ∨ summary.startingBatchCount > 0 ∨
    summary.runningBatchCount > 0 ∨ summary.activeEnqueueLeaseCount > 0 ∨
    summary.pausedIntentCount > 0

def snapshot (s : CoordinatorState) : CoordinatorSnapshot where
  sessionGeneration := c.sessionGeneration
  slots := s.slots.sortedKeys.filterMap s.slotSnapshotLocked
  activeRunSummary := (s.allRunIds.map s.runSummaryLocked).find? hasWork

end SlotWorkCoordinator

end AionCore.Team
