import AionCore.Lib.Dict
import Mathlib.Data.Finset.Basic

/-!
# Team work: the data model

The types of `work_coordinator/model.rs` and `work_source.rs`, and the errors that
the modelled functions raise. Identifiers and classifications are strings, `TimestampMs` is
an integer, the 64-bit operation counter is a natural number that saturates.
-/

namespace AionCore.Team

abbrev TimestampMs := Int

/-- `char::is_whitespace`. -/
def isWhitespace (c : Char) : Bool :=
  (9 ≤ c.toNat ∧ c.toNat ≤ 13) ∨ (0x2000 ≤ c.toNat ∧ c.toNat ≤ 0x200a) ∨
    c.toNat ∈ [0x20, 0x85, 0xa0, 0x1680, 0x2028, 0x2029, 0x202f, 0x205f, 0x3000]

/-- `str::trim`. -/
def trim (s : String) : String :=
  String.ofList ((s.toList.dropWhile isWhitespace).reverse.dropWhile isWhitespace).reverse

def u64Max : ℕ := 0xFFFFFFFFFFFFFFFF

/-- `u64::saturating_add`. -/
def saturatingAdd (a b : ℕ) : ℕ := min (a + b) u64Max

/-- What a repository call reports when it fails. -/
inductive DbError where
  | query (message : String)
  | notFound (message : String)
  deriving DecidableEq

inductive TeamError where
  | teamNotFound (teamId : String)
  | agentNotFound (slotId : String)
  | taskNotFound (taskId : String)
  | invalidRequest (message : String)
  | leaderOnly (action : String)
  | forbidden (message : String)
  | sessionNotFound (teamId : String)
  | blockedTaskNotFound (taskId : String)
  | duplicateAgentName (name : String)
  | memberRuntimeFailed (teamId slotId conversationId publicReason : String)
  | database (error : DbError)
  deriving DecidableEq

inductive TeamRunTargetRole where
  | lead
  | teammate
  deriving DecidableEq

inductive WorkPriority where
  | foreground
  | control
  | background
  deriving DecidableEq

inductive WorkSource where
  | userMessage
  | userIntervention
  | mcpSendMessage
  | mcpShutdownRequest
  | spawnWelcome
  | teamMembershipChanged
  | spawnAttachFailure
  | idleNotification
  | interruptedNotification
  | shutdownRejected
  | recoveryDrain
  deriving DecidableEq

namespace WorkSource

def priority : WorkSource → WorkPriority
  | userMessage | userIntervention => .foreground
  | mcpShutdownRequest | shutdownRejected => .control
  | mcpSendMessage | spawnWelcome | teamMembershipChanged | spawnAttachFailure
  | idleNotification | interruptedNotification | recoveryDrain => .background

def resumesPausedSlot : WorkSource → Bool
  | userMessage | userIntervention => true
  | _ => false

def requiresMailboxMessage : WorkSource → Bool
  | userMessage | userIntervention | mcpSendMessage | mcpShutdownRequest | spawnWelcome
  | spawnAttachFailure | interruptedNotification | shutdownRejected | recoveryDrain => true
  | teamMembershipChanged | idleNotification => false

/-- The variant's name, as the derived `Debug` prints it. -/
def debugName : WorkSource → String
  | userMessage => "UserMessage"
  | userIntervention => "UserIntervention"
  | mcpSendMessage => "McpSendMessage"
  | mcpShutdownRequest => "McpShutdownRequest"
  | spawnWelcome => "SpawnWelcome"
  | teamMembershipChanged => "TeamMembershipChanged"
  | spawnAttachFailure => "SpawnAttachFailure"
  | idleNotification => "IdleNotification"
  | interruptedNotification => "InterruptedNotification"
  | shutdownRejected => "ShutdownRejected"
  | recoveryDrain => "RecoveryDrain"

end WorkSource

inductive RuntimeConstraint where
  | ready
  | starting (operationId : ℕ)
  | failed (operationId : ℕ) (classification : String)
  | removing (operationId : ℕ)
  | sessionStopped
  deriving DecidableEq

inductive SlotPhase where
  | idle
  | queued
  | starting
  | running
  | paused
  | blocked

inductive WorkIntentState where
  | queued
  | starting (batchId : String) (operationId : ℕ)
  | running (batchId : String) (operationId : ℕ) (turnId : String)
  | completed
  | failed (classification : String)
  | cancelled (classification : String)
  deriving DecidableEq

namespace WorkIntentState

def isTerminal : WorkIntentState → Bool
  | completed | failed _ | cancelled _ => true
  | _ => false

def isCancelled : WorkIntentState → Bool
  | cancelled _ => true
  | _ => false

end WorkIntentState

structure WorkIntent where
  intentId : String
  sessionGeneration : String
  slotId : String
  role : TeamRunTargetRole
  source : WorkSource
  priority : WorkPriority
  mailboxMessageId : Option String
  teamRunId : Option String
  createdAtMs : TimestampMs
  state : WorkIntentState
  deriving DecidableEq

inductive CausalBinding where
  | userVisible
  | inheritRunningBatch (callerSlotId : String)
  | activeRunOrBackground
  | background

structure EnqueueRequest where
  slotId : String
  role : TeamRunTargetRole
  source : WorkSource
  binding : CausalBinding

structure EnqueueLease where
  leaseId : String
  sessionGeneration : String
  slotId : String
  role : TeamRunTargetRole
  source : WorkSource
  teamRunId : Option String
  deriving DecidableEq

structure WorkBatch where
  batchId : String
  sessionGeneration : String
  slotId : String
  intentIds : List String
  mailboxMessageIds : List String
  highestPriority : WorkPriority
  teamRunIds : List String
  operationId : ℕ
  deriving DecidableEq

inductive ReconcileDecision where
  | claim (batch : WorkBatch)
  | waitingForCompletion
  | blocked (constraint : RuntimeConstraint)
  | settleSignals (intentIds : List String)
  | quiescent

inductive CommitResult where
  | committed
  | staleOwner
  | rejected

inductive StartCommitResult where
  | accepted
  | cancelImmediately
  | staleOwner
  deriving DecidableEq

inductive EnqueueDisposition where
  | accepted
  | queued
  | blockedRuntimeStarting

structure SlotWorkSnapshot where
  slotId : String
  role : TeamRunTargetRole
  state : SlotPhase
  queuedForegroundCount : ℕ
  queuedBackgroundCount : ℕ
  activeBatch : Option WorkBatch
  activeTurnId : Option String
  activeTurnStartedAtMs : Option TimestampMs
  runtimeConstraint : RuntimeConstraint
  teamRunId : Option String

structure EnqueueCommit where
  intentId : String
  teamRunId : Option String
  disposition : EnqueueDisposition
  slot : SlotWorkSnapshot

structure RunWorkSummary where
  teamRunId : String
  queuedIntentCount : ℕ
  startingBatchCount : ℕ
  runningBatchCount : ℕ
  activeEnqueueLeaseCount : ℕ
  pausedIntentCount : ℕ
  failedIntentCount : ℕ
  slots : List SlotWorkSnapshot

structure CoordinatorSnapshot where
  sessionGeneration : String
  slots : List SlotWorkSnapshot
  activeRunSummary : Option RunWorkSummary

structure ReconcileProjection where
  createdRecoveryIntentIds : List String
  retainedIntentIds : List String
  clearedStaleIntentIds : List String

structure BatchCancelTarget where
  batch : WorkBatch
  turnId : Option String

structure PauseWorkResult where
  cancelTarget : Option BatchCancelTarget
  slot : SlotWorkSnapshot

structure RemoveWorkResult where
  cancelTarget : Option BatchCancelTarget
  terminalMessageIds : List String
  affectedRunSummaries : List RunWorkSummary

structure CancelRunWorkResult where
  cancelTargets : List BatchCancelTarget
  terminalMessageIds : List String
  summary : RunWorkSummary

structure RuntimeConstraintUpdate where
  slot : SlotWorkSnapshot
  terminalMessageIds : List String
  affectedRunSummaries : List RunWorkSummary

structure RunBinding where
  teamRunId : Option String
  createdNewRun : Bool
  userIntervention : Bool
  deriving DecidableEq

/-- A call that the coordinator makes on its `RunCausalityPort` after it has
released its lock. -/
inductive PortCall where
  | abortBinding (binding : RunBinding)
  | applyWorkSummary (summary : RunWorkSummary)

end AionCore.Team
