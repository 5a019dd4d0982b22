import AionCore.Team.WorkModel
import Mathlib.Data.List.Dedup
import Mathlib.Data.String.Basic

/-!
# Team work: slots, coordinator state and snapshots

`SlotState` and `CoordinatorState` of `work_coordinator/coordinator.rs` with the
run summaries and slot snapshots of `work_coordinator/snapshot.rs`. Where the iteration
order of a hash map can be observed, the operation takes it as an argument.
-/

namespace AionCore.Team

structure EnqueueLeaseRecord where
  lease : EnqueueLease
  binding : RunBinding
  deriving DecidableEq

structure ActiveBatch where
  batch : WorkBatch
  turnId : Option String
  startedAtMs : Option TimestampMs
  deriving DecidableEq

structure SlotState where
  role : TeamRunTargetRole
  foreground : List String
  control : List String
  background : List String
  active : Option ActiveBatch
  paused : Bool
  runtimeConstraint : RuntimeConstraint
  knownUnreadMessageIds : Finset String
  removed : Bool

namespace SlotState

/-- `SlotState::new`. -/
def new (role : TeamRunTargetRole) : SlotState where
  role := role
  foreground := []
  control := []
  background := []
  active := none
  paused := false
  runtimeConstraint := .starting 0
  knownUnreadMessageIds := ∅
  removed := false

def queue (slot : SlotState) : WorkPriority → List String
  | .foreground => slot.foreground
  | .control => slot.control
  | .background => slot.background

/-- An edit through `queue_mut`. -/
def modifyQueue (slot : SlotState) (priority : WorkPriority) (f : List String → List String) :
    SlotState :=
  match priority with
  | .foreground => { slot with foreground := f slot.foreground }
  | .control => { slot with control := f slot.control }
  | .background => { slot with background := f slot.background }

def pushBack (slot : SlotState) (priority : WorkPriority) (intentId : String) : SlotState :=
  slot.modifyQueue priority fun q => q ++ [intentId]

def pushFront (slot : SlotState) (priority : WorkPriority) (intentId : String) : SlotState :=
  slot.modifyQueue priority fun q => intentId :: q

def queuedIds (slot : SlotState) : List String :=
  slot.foreground ++ slot.control ++ slot.background

def removeQueued (slot : SlotState) (intentId : String) : SlotState :=
  { slot with
    foreground := slot.foreground.filter (· ≠ intentId)
    control := slot.control.filter (· ≠ intentId)
    background := slot.background.filter (· ≠ intentId) }

/-- `foreground.clear(); control.clear(); background.clear(); active = None`. -/
def clearWork (slot : SlotState) : SlotState :=
  { slot with foreground := [], control := [], background := [], active := none }

end SlotState

/-- `CoordinatorState`; `generated` counts the identifiers that `generate_id` has
handed out to the coordinator. -/
structure CoordinatorState where
  slots : Dict String SlotState
  intents : Dict String WorkIntent
  enqueueLeases : Dict String EnqueueLeaseRecord
  nextOperationId : ℕ
  generated : ℕ

namespace CoordinatorState

/-- `CoordinatorState::default()`. -/
def empty : CoordinatorState := ⟨∅, ∅, ∅, 0, 0⟩

/-- `slots.get_mut(slot_id)` followed by an edit. -/
def modifySlot (s : CoordinatorState) (slotId : String) (f : SlotState → SlotState) :
    CoordinatorState :=
  { s with slots := Dict.modify slotId f s.slots }

/-- `slots.entry(slot_id).or_insert_with(|| SlotState::new(role))`. -/
def entrySlot (s : CoordinatorState) (slotId : String) (role : TeamRunTargetRole) : SlotState :=
  (s.slots.lookup slotId).getD (.new role)

def putSlot (s : CoordinatorState) (slotId : String) (slot : SlotState) : CoordinatorState :=
  { s with slots := s.slots.insert slotId slot }

/-- `for id in intent_ids { if let Some(intent) = intents.get_mut(id) { intent.state = .. } }`. -/
def setIntentStates (s : CoordinatorState) (intentIds : List String) (state : WorkIntentState) :
    CoordinatorState :=
  { s with
    intents := intentIds.foldl
      (fun intents id => Dict.modify id (fun intent => { intent with state }) intents) s.intents }

/-- `for id in intent_ids { slot.remove_queued(id) }`. -/
def removeAllQueued (s : CoordinatorState) (slotId : String) (intentIds : List String) :
    CoordinatorState :=
  s.modifySlot slotId fun slot => intentIds.foldl .removeQueued slot

def activeOf (s : CoordinatorState) (slotId : String) : Option ActiveBatch :=
  (s.slots.lookup slotId).bind (·.active)

/-- The snapshot of a slot that is present. -/
def snapshotOf (s : CoordinatorState) (slotId : String) (slot : SlotState) : SlotWorkSnapshot :=
  let activeBatch := slot.active.map (·.batch)
  let activeTurnId := slot.active.bind (·.turnId)
  { slotId := slotId
    role := slot.role
    state :=
      if slot.paused then .paused
      else if activeTurnId.isSome then .running
      else if activeBatch.isSome then .starting
      else if slot.runtimeConstraint ≠ .ready then .blocked
      else if slot.queuedIds ≠ [] then .queued
      else .idle
    queuedForegroundCount := slot.foreground.length
    queuedBackgroundCount := slot.control.length + slot.background.length
    activeBatch := activeBatch
    activeTurnId := activeTurnId
    activeTurnStartedAtMs := slot.active.bind (·.startedAtMs)
    runtimeConstraint := slot.runtimeConstraint
    teamRunId := (activeBatch.bind (·.teamRunIds.head?)).or
      (slot.queuedIds.findSome? fun id => (s.intents.lookup id).bind (·.teamRunId)) }

def slotSnapshotLocked (s : CoordinatorState) (slotId : String) : Option SlotWorkSnapshot :=
  (s.slots.lookup slotId).map (s.snapshotOf slotId)

def associated (s : CoordinatorState) (teamRunId : String) : List WorkIntent :=
  s.intents.values.filter (·.teamRunId = some teamRunId)

def runLeases (s : CoordinatorState) (teamRunId : String) : List EnqueueLeaseRecord :=
  s.enqueueLeases.values.filter (·.lease.teamRunId = some teamRunId)

def startingBatchId : WorkIntentState → Option String
  | .starting batchId _ => some batchId
  | _ => none

def runningBatchId : WorkIntentState → Option String
  | .running batchId _ _ => some batchId
  | _ => none

def isFailed : WorkIntentState → Bool
  | .failed _ => true
  | _ => false

/-- A `BTreeSet` of strings, as the sorted list of its members. -/
def sortedSet (l : List String) : List String := l.dedup.insertionSort (· ≤ ·)

def runSummaryLocked (s : CoordinatorState) (teamRunId : String) : RunWorkSummary :=
  let associated := s.associated teamRunId
  let leases := s.runLeases teamRunId
  { teamRunId := teamRunId
    queuedIntentCount := associated.countP (·.state = .queued)
    startingBatchCount := (associated.filterMap (startingBatchId ·.state)).dedup.length
    runningBatchCount := (associated.filterMap (runningBatchId ·.state)).dedup.length
    activeEnqueueLeaseCount := leases.length
    pausedIntentCount := associated.countP fun intent =>
      intent.state = .queued ∧ ((s.slots.lookup intent.slotId).any (·.paused))
    failedIntentCount := associated.countP (isFailed ·.state)
    slots := (sortedSet (associated.map (·.slotId) ++ leases.map (·.lease.slotId))).filterMap
      s.slotSnapshotLocked }

def runSummariesLocked (s : CoordinatorState) (runIds : List String) : List RunWorkSummary :=
  (sortedSet runIds).map s.runSummaryLocked

def allRunIds (s : CoordinatorState) : List String :=
  sortedSet (s.intents.values.filterMap (·.teamRunId) ++
    s.enqueueLeases.values.filterMap (·.lease.teamRunId))

end CoordinatorState

end AionCore.Team
