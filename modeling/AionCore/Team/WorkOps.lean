import AionCore.Lib.Machine
import AionCore.Team.WorkCoordinator

/-!
# Team work: runs of the coordinator

One input type for the sixteen operations, and the machine that feeds them to a
coordinator in any order with any arguments. The machine keeps as history the batches
that `next` has handed out, the intents in the order in which they were enqueued, and the
batches that were given back.
-/

namespace AionCore.Team

/-- A call of one of the coordinator's operations. -/
inductive Op where
  | acquireEnqueue (request : EnqueueRequest)
  | commitEnqueue (lease : EnqueueLease) (mailboxMessageId : Option String) (now : TimestampMs)
  | abortEnqueue (lease : EnqueueLease)
  | reconcileMailbox (slotId : String) (unreadMessageIds : List String)
      (role : TeamRunTargetRole) (now : TimestampMs)
  | next (slotId : String)
  | markStarted (batch : WorkBatch) (turnId : String) (now : TimestampMs)
  | retryStart (batch : WorkBatch)
  | completeBatch (batch : WorkBatch)
  | failBatch (batch : WorkBatch) (classification : String)
  | cancelBatch (batch : WorkBatch) (classification : String)
  | cancelRun (teamRunId : String) (order : IterOrder WorkIntent)
  | completeSignals (slotId : String) (intentIds : List String)
  | pauseSlot (slotId : String)
  | setRuntimeConstraint (slotId : String) (constraint : RuntimeConstraint)
      (order : IterOrder WorkIntent)
  | removeSlot (slotId : String)
  | stop

/-- The result of a call. -/
inductive Reply where
  | lease (result : Except TeamError EnqueueLease)
  | commit (result : Except TeamError EnqueueCommit)
  | settled (result : CommitResult)
  | reconciled (result : ReconcileProjection)
  | decision (result : ReconcileDecision)
  | started (result : StartCommitResult)
  | runCancelled (result : CancelRunWorkResult)
  | paused (result : PauseWorkResult)
  | constrained (result : RuntimeConstraintUpdate)
  | removed (result : Option RemoveWorkResult)
  | stopped (result : List RunWorkSummary)

def Op.batch? : Op → Option WorkBatch
  | .markStarted batch _ _ | .retryStart batch | .completeBatch batch | .failBatch batch _
  | .cancelBatch batch _ => some batch
  | _ => none

def Op.settlesBatch : Op → Bool
  | .retryStart _ | .completeBatch _ | .failBatch _ _ | .cancelBatch _ _ => true
  | _ => false

def Outcome.map {ρ σ : Type} (f : ρ → σ) (o : Outcome ρ) : Outcome σ :=
  ⟨o.state, f o.result, o.calls⟩

/-- Execute a call; `bindEnqueue` is what the port answers, if it is asked. -/
def SlotWorkCoordinator.exec (c : SlotWorkCoordinator) (bindEnqueue : EnqueueRequest → RunBinding)
    (s : CoordinatorState) : Op → Outcome Reply
  | .acquireEnqueue request => (c.acquireEnqueue s bindEnqueue request).map .lease
  | .commitEnqueue lease messageId now => (c.commitEnqueue s lease messageId now).map .commit
  | .abortEnqueue lease => (c.abortEnqueue s lease).map .settled
  | .reconcileMailbox slotId unread role now =>
    (c.reconcileMailbox s slotId unread role now).map .reconciled
  | .next slotId => (c.next s slotId).map .decision
  | .markStarted batch turnId now => (c.markStarted s batch turnId now).map .started
  | .retryStart batch => (c.retryStart s batch).map .settled
  | .completeBatch batch => (c.completeBatch s batch).map .settled
  | .failBatch batch classification => (c.failBatch s batch classification).map .settled
  | .cancelBatch batch classification => (c.cancelBatch s batch classification).map .settled
  | .cancelRun teamRunId order => (cancelRun s teamRunId order).map .runCancelled
  | .completeSignals slotId intentIds => (completeSignals s slotId intentIds).map .settled
  | .pauseSlot slotId => (pauseSlot s slotId).map .paused
  | .setRuntimeConstraint slotId constraint order =>
    (setRuntimeConstraint s slotId constraint order).map .constrained
  | .removeSlot slotId => (removeSlot s slotId).map .removed
  | .stop => (stop s).map .stopped

/-- A call with the port's answer to it. -/
structure Call where
  op : Op
  bindEnqueue : EnqueueRequest → RunBinding

/-- A coordinator state with its history: the batches that `next` returned, the intents in the
order of their creation, and the batch id of every call that has given one back. -/
structure Tracked where
  state : CoordinatorState
  handed : List WorkBatch
  enqueued : List String
  settled : List String

namespace Tracked

def empty : Tracked := ⟨.empty, [], [], []⟩

end Tracked

/-- The batch that a reply hands out. -/
def Reply.handed : Reply → List WorkBatch
  | .decision (.claim batch) => [batch]
  | _ => []

/-- The intents that a reply reports as created. -/
def Reply.enqueued : Reply → List String
  | .commit (.ok result) => [result.intentId]
  | .reconciled projection => projection.createdRecoveryIntentIds
  | _ => []

def settledBatch (op : Op) (reply : Reply) : List String :=
  match reply with
  | .settled .committed => if op.settlesBatch then (op.batch?.map (·.batchId)).toList else []
  | _ => []

namespace SlotWorkCoordinator

variable (c : SlotWorkCoordinator)

/-- Execute a call and record it in the history. -/
def fire (w : Tracked) (call : Call) : Tracked :=
  let outcome := c.exec call.bindEnqueue w.state call.op
  { state := outcome.state
    handed := w.handed ++ outcome.result.handed
    enqueued := w.enqueued ++ outcome.result.enqueued
    settled := w.settled ++ settledBatch call.op outcome.result }

/-- The coordinator under callers that pass on batches as `next` returned them,
possibly stale ones; every other argument is arbitrary. -/
def machine : Machine Tracked Call where
  start w := w = .empty
  admits w call := ∀ batch ∈ call.op.batch?, batch ∈ w.handed
  fire := c.fire

/-- The coordinator under callers that may also pass batches of another session or
altered ones. -/
def openMachine : Machine Tracked Call where
  start w := w = .empty
  admits _ _ := True
  fire := c.fire

instance (w : Tracked) (call : Call) : Decidable (c.machine.admits w call) :=
  inferInstanceAs (Decidable (∀ batch ∈ call.op.batch?, batch ∈ w.handed))

theorem reachable_open {w : Tracked} (h : c.machine.Reachable w) : c.openMachine.Reachable w :=
  h.map (M := c.machine) (N := c.openMachine) id (fun _ hs => .start hs)
    fun _ i _ => .single ⟨i, trivial, rfl⟩

/-- A coordinator whose identifiers are `x`, `xx`, `xxx` and so on. -/
def sample : SlotWorkCoordinator := ⟨"session", .tally⟩

/-- A call whose binding request the port answers with this run. -/
def bound (teamRunId : Option String) (op : Op) : Call := ⟨op, fun _ => ⟨teamRunId, false, false⟩⟩

/-- A request to send the lead a message on behalf of the active run, if there is one. -/
def sampleRequest : EnqueueRequest := ⟨"lead", .lead, .mcpSendMessage, .activeRunOrBackground⟩

def sampleLease (leaseId : String) (teamRunId : Option String) : EnqueueLease :=
  ⟨leaseId, "session", "lead", .lead, .mcpSendMessage, teamRunId⟩

/-- Enqueue the message `m` in the lead's ready slot: the lease is `x`, the intent `xx`. -/
def enqueueSample (teamRunId : Option String) : List Call :=
  [bound none (.setRuntimeConstraint "lead" .ready .stored),
    bound teamRunId (.acquireEnqueue sampleRequest),
    bound none (.commitEnqueue (sampleLease "x" teamRunId) (some "m") 0)]

/-- Enqueue the messages `m` and then `n` without run: the intents are `xxx` and `xxxx`. -/
def enqueueTwo : List Call :=
  [bound none (.setRuntimeConstraint "lead" .ready .stored),
    bound none (.acquireEnqueue sampleRequest), bound none (.acquireEnqueue sampleRequest),
    bound none (.commitEnqueue (sampleLease "x" none) (some "m") 0),
    bound none (.commitEnqueue (sampleLease "xx" none) (some "n") 0)]

def sampleIntent (intentId messageId : String) (teamRunId : Option String)
    (state : WorkIntentState) : WorkIntent :=
  ⟨intentId, "session", "lead", .lead, .mcpSendMessage, .background, some messageId, teamRunId, 0,
    state⟩

/-- The batch `xxx` that `next` hands out after `enqueueSample`. -/
def sampleBatch (teamRunIds : List String) : WorkBatch :=
  ⟨"xxx", "session", "lead", ["xx"], ["m"], .background, teamRunIds, 1⟩

def userRequest : EnqueueRequest := ⟨"lead", .lead, .userMessage, .userVisible⟩

/-- The lease that the sample coordinator grants for it, if the port answers with run `r`. -/
def userLease : EnqueueLease := ⟨"x", "session", "lead", .lead, .userMessage, some "r"⟩

/-- The batch `xxx` that `next` hands out when the message `m` has been committed. -/
def userBatch : WorkBatch := ⟨"xxx", "session", "lead", ["xx"], ["m"], .foreground, ["r"], 1⟩

end SlotWorkCoordinator

end AionCore.Team
