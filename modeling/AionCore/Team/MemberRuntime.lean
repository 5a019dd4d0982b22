import AionCore.Lib.Dict
import AionCore.Lib.Machine
import AionCore.Lib.Promises
import Mathlib.Algebra.Group.Nat.Defs

/-!
# Member runtimes: the registry of a session

`MemberRuntimeRegistry` of `member_runtime.rs`. An operation is named by a number of
64 bits that wraps around, and whoever waits for it listens on its watch channel. A
channel stands for the list of the outcomes that it has been sent.
-/

namespace AionCore.Team

structure MemberRuntimeFailure where
  classification : String
  publicReason : String
  deriving DecidableEq

inductive AttachOutcome where
  | ready
  | failed (failure : MemberRuntimeFailure)
  | removed
  | sessionStopped

/-- An operation with the channel on which its outcome is awaited. -/
structure AttachWaiter where
  operationId : ℕ
  outcomeRx : ℕ
  deriving DecidableEq

structure AttachLease where
  sessionGeneration : String
  agentId : String
  waiter : AttachWaiter
  deriving DecidableEq

def AttachLease.operationId (lease : AttachLease) : ℕ := lease.waiter.operationId

structure RemoveLease where
  sessionGeneration : String
  agentId : String
  operationId : ℕ
  deriving DecidableEq

inductive ReserveAttach where
  | start (lease : AttachLease)
  | join (waiter : AttachWaiter)
  | alreadyReady
  | removing (waiter : AttachWaiter)
  | sessionStopped
  deriving DecidableEq

inductive BeginRemove where
  | start (lease : RemoveLease)
  | join (waiter : AttachWaiter)
  | absent
  | sessionStopped
  deriving DecidableEq

inductive MemberRuntimeSnapshot where
  | absent
  | attaching (operationId : ℕ)
  | ready
  | failed (operationId : ℕ) (failure : MemberRuntimeFailure)
  | removing (operationId : ℕ)
  | sessionStopped

inductive MemberRuntimeEntry where
  | attaching (operationId outcomeTx : ℕ)
  | ready
  | failed (operationId : ℕ) (failure : MemberRuntimeFailure) (outcomeTx : ℕ)
  | removing (operationId outcomeTx : ℕ)
  deriving DecidableEq

namespace MemberRuntimeEntry

/-- The operation that the entry belongs to, with its channel. -/
def operation : MemberRuntimeEntry → Option AttachWaiter
  | attaching operationId outcomeTx | failed operationId _ outcomeTx
  | removing operationId outcomeTx => some ⟨operationId, outcomeTx⟩
  | ready => none

/-- The channel of an operation that is still going on. -/
def pendingTx : MemberRuntimeEntry → Option ℕ
  | attaching _ outcomeTx | removing _ outcomeTx => some outcomeTx
  | ready | failed _ _ _ => none

end MemberRuntimeEntry

structure MemberRuntimeRegistry where
  sessionGeneration : String
  nextOperationId : ℕ
  entries : Dict String MemberRuntimeEntry
  stopped : Bool
  channels : List (List AttachOutcome)

/-- `AtomicU64::fetch_add(1)` leaves this. -/
def wrappingSucc (n : ℕ) : ℕ := (n + 1) % 2 ^ 64

namespace MemberRuntimeRegistry

/-- `MemberRuntimeRegistry::new`. -/
def new (sessionGeneration : String) : MemberRuntimeRegistry := ⟨sessionGeneration, 1, ∅, false, []⟩

def seedReady (r : MemberRuntimeRegistry) (agentId : String) : MemberRuntimeRegistry × Bool :=
  if r.stopped then (r, false)
  else
    match r.entries.lookup agentId with
    | none => ({ r with entries := r.entries.insert agentId .ready }, true)
    | some .ready => (r, true)
    | some (.attaching _ _) | some (.failed _ _ _) | some (.removing _ _) => (r, false)

def startAttach (r : MemberRuntimeRegistry) (agentId : String) :
    MemberRuntimeRegistry × ReserveAttach :=
  let waiter : AttachWaiter := ⟨r.nextOperationId, r.channels.length⟩
  ({ r with
      nextOperationId := wrappingSucc r.nextOperationId
      entries := r.entries.insert agentId (.attaching waiter.operationId waiter.outcomeRx)
      channels := r.channels ++ [[]] },
    .start ⟨r.sessionGeneration, agentId, waiter⟩)

def reserveAttach (r : MemberRuntimeRegistry) (agentId : String) (retryFailed : Bool) :
    MemberRuntimeRegistry × ReserveAttach :=
  if r.stopped then (r, .sessionStopped)
  else
    match r.entries.lookup agentId with
    | some (.attaching operationId outcomeTx) => (r, .join ⟨operationId, outcomeTx⟩)
    | some .ready => (r, .alreadyReady)
    | some (.failed operationId _ outcomeTx) =>
      if !retryFailed then (r, .join ⟨operationId, outcomeTx⟩) else r.startAttach agentId
    | some (.removing operationId outcomeTx) => (r, .removing ⟨operationId, outcomeTx⟩)
    | none => r.startAttach agentId

def reserveRepair (r : MemberRuntimeRegistry) (agentId : String) :
    MemberRuntimeRegistry × ReserveAttach :=
  if r.stopped then (r, .sessionStopped)
  else
    match r.entries.lookup agentId with
    | some (.attaching operationId outcomeTx) => (r, .join ⟨operationId, outcomeTx⟩)
    | some .ready => r.startAttach agentId
    | some (.failed operationId _ outcomeTx) => (r, .join ⟨operationId, outcomeTx⟩)
    | some (.removing operationId outcomeTx) => (r, .removing ⟨operationId, outcomeTx⟩)
    | none => r.startAttach agentId

def ownedAttach (r : MemberRuntimeRegistry) (lease : AttachLease) : Option ℕ :=
  if lease.sessionGeneration ≠ r.sessionGeneration then none
  else if r.stopped then none
  else
    match r.entries.lookup lease.agentId with
    | some (.attaching operationId outcomeTx) =>
      if operationId ≠ lease.operationId then none else some outcomeTx
    | _ => none

def ownedRemoval (r : MemberRuntimeRegistry) (lease : RemoveLease) : Option ℕ :=
  if lease.sessionGeneration ≠ r.sessionGeneration then none
  else if r.stopped then none
  else
    match r.entries.lookup lease.agentId with
    | some (.removing operationId outcomeTx) =>
      if operationId ≠ lease.operationId then none else some outcomeTx
    | _ => none

/-- `outcome_tx.send_replace(AttachSignal::Terminal(outcome))`. -/
def sendReplace (r : MemberRuntimeRegistry) (outcomeTx : ℕ) (outcome : AttachOutcome) :
    MemberRuntimeRegistry :=
  { r with channels := Promises.tell r.channels outcomeTx outcome }

def commitReady (r : MemberRuntimeRegistry) (lease : AttachLease) : MemberRuntimeRegistry × Bool :=
  match r.ownedAttach lease with
  | none => (r, false)
  | some outcomeTx =>
    ({ r with entries := r.entries.insert lease.agentId .ready }.sendReplace outcomeTx .ready, true)

def commitFailed (r : MemberRuntimeRegistry) (lease : AttachLease)
    (failure : MemberRuntimeFailure) : MemberRuntimeRegistry × Bool :=
  match r.ownedAttach lease with
  | none => (r, false)
  | some outcomeTx =>
    ({ r with
        entries := r.entries.insert lease.agentId
          (.failed lease.operationId failure outcomeTx) }.sendReplace outcomeTx (.failed failure),
      true)

def startRemove (r : MemberRuntimeRegistry) (agentId : String) : MemberRuntimeRegistry :=
  { r with
    nextOperationId := wrappingSucc r.nextOperationId
    entries := r.entries.insert agentId (.removing r.nextOperationId r.channels.length)
    channels := r.channels ++ [[]] }

def beginRemove (r : MemberRuntimeRegistry) (agentId : String) :
    MemberRuntimeRegistry × BeginRemove :=
  if r.stopped then (r, .sessionStopped)
  else
    let lease : RemoveLease := ⟨r.sessionGeneration, agentId, r.nextOperationId⟩
    match r.entries.lookup agentId with
    | some (.removing operationId outcomeTx) => (r, .join ⟨operationId, outcomeTx⟩)
    -- whoever waits for the attach is told
    | some (.attaching _ outcomeTx) =>
      ((r.startRemove agentId).sendReplace outcomeTx .removed, .start lease)
    | some (.failed _ _ _) | some .ready => (r.startRemove agentId, .start lease)
    | none => (r, .absent)

def finishRemove (r : MemberRuntimeRegistry) (lease : RemoveLease) :
    MemberRuntimeRegistry × Bool :=
  match r.ownedRemoval lease with
  | none => (r, false)
  | some outcomeTx =>
    ({ r with entries := r.entries.erase lease.agentId }.sendReplace outcomeTx .removed, true)

def restoreAttachRequiredAfterRemovePersistError (r : MemberRuntimeRegistry) (lease : RemoveLease)
    (failure : MemberRuntimeFailure) : MemberRuntimeRegistry × Bool :=
  match r.ownedRemoval lease with
  | none => (r, false)
  | some outcomeTx =>
    ({ r with
        entries := r.entries.insert lease.agentId
          (.failed lease.operationId failure outcomeTx) }.sendReplace outcomeTx (.failed failure),
      true)

def snapshot (r : MemberRuntimeRegistry) (agentId : String) : MemberRuntimeSnapshot :=
  if r.stopped then .sessionStopped
  else
    match r.entries.lookup agentId with
    | none => .absent
    | some (.attaching operationId _) => .attaching operationId
    | some .ready => .ready
    | some (.failed operationId failure _) => .failed operationId failure
    | some (.removing operationId _) => .removing operationId

def tellStopped (channels : List (List AttachOutcome)) (entries : List MemberRuntimeEntry) :
    List (List AttachOutcome) :=
  (entries.filterMap (·.pendingTx)).foldl
    (fun channels outcomeTx => Promises.tell channels outcomeTx .sessionStopped) channels

def stop (r : MemberRuntimeRegistry) : MemberRuntimeRegistry × Bool :=
  if r.stopped then (r, false)
  else
    ({ r with
        stopped := true
        entries := ∅
        channels := tellStopped r.channels r.entries.values }, true)

end MemberRuntimeRegistry

/-- A lease that the registry has issued. -/
inductive MemberLease where
  | attach (lease : AttachLease)
  | remove (lease : RemoveLease)
  deriving DecidableEq

namespace MemberLease

def sessionGeneration : MemberLease → String
  | attach lease => lease.sessionGeneration
  | remove lease => lease.sessionGeneration

def agentId : MemberLease → String
  | attach lease => lease.agentId
  | remove lease => lease.agentId

def operationId : MemberLease → ℕ
  | attach lease => lease.operationId
  | remove lease => lease.operationId

end MemberLease

inductive RuntimeCall where
  | seedReady (agentId : String)
  | reserveAttach (agentId : String) (retryFailed : Bool)
  | reserveRepair (agentId : String)
  | commitReady (lease : AttachLease)
  | commitFailed (lease : AttachLease) (failure : MemberRuntimeFailure)
  | beginRemove (agentId : String)
  | finishRemove (lease : RemoveLease)
  | restoreAttachRequired (lease : RemoveLease) (failure : MemberRuntimeFailure)
  | stop

inductive RuntimeReply where
  | flag (result : Bool)
  | reserved (result : ReserveAttach)
  | removal (result : BeginRemove)
  deriving DecidableEq

def RuntimeCall.lease? : RuntimeCall → Option MemberLease
  | .commitReady lease | .commitFailed lease _ => some (.attach lease)
  | .finishRemove lease | .restoreAttachRequired lease _ => some (.remove lease)
  | _ => none

/-- The leases that a reply issues. -/
def RuntimeReply.issued : RuntimeReply → List MemberLease
  | .reserved (.start lease) => [.attach lease]
  | .removal (.start lease) => [.remove lease]
  | _ => []

def MemberRuntimeRegistry.exec (r : MemberRuntimeRegistry) :
    RuntimeCall → MemberRuntimeRegistry × RuntimeReply
  | .seedReady agentId => (r.seedReady agentId).map id .flag
  | .reserveAttach agentId retryFailed => (r.reserveAttach agentId retryFailed).map id .reserved
  | .reserveRepair agentId => (r.reserveRepair agentId).map id .reserved
  | .commitReady lease => (r.commitReady lease).map id .flag
  | .commitFailed lease failure => (r.commitFailed lease failure).map id .flag
  | .beginRemove agentId => (r.beginRemove agentId).map id .removal
  | .finishRemove lease => (r.finishRemove lease).map id .flag
  | .restoreAttachRequired lease failure =>
    (r.restoreAttachRequiredAfterRemovePersistError lease failure).map id .flag
  | .stop => r.stop.map id .flag

/-- A registry with its history: the leases that it has issued, and those with which a
call has succeeded, as often as one has. -/
structure RuntimeHistory where
  registry : MemberRuntimeRegistry
  issued : List MemberLease
  succeeded : List MemberLease

namespace RuntimeHistory

def fire (w : RuntimeHistory) (call : RuntimeCall) : RuntimeHistory where
  registry := (w.registry.exec call).1
  issued := w.issued ++ (w.registry.exec call).2.issued
  succeeded := w.succeeded ++
    if (w.registry.exec call).2 = .flag true then call.lease?.toList else []

/-- A new registry under callers that pass leases of its own, as it issued them, or of
another session. -/
def machine (sessionGeneration : String) : Machine RuntimeHistory RuntimeCall where
  start w := w = ⟨.new sessionGeneration, [], []⟩
  admits w call := ∀ lease ∈ call.lease?,
    lease ∈ w.issued ∨ lease.sessionGeneration ≠ w.registry.sessionGeneration
  fire := fire

instance (sessionGeneration : String) (w : RuntimeHistory) (call : RuntimeCall) :
    Decidable ((machine sessionGeneration).admits w call) :=
  inferInstanceAs (Decidable (∀ lease ∈ call.lease?,
    lease ∈ w.issued ∨ lease.sessionGeneration ≠ w.registry.sessionGeneration))

/-- Some call with this lease succeeds now. -/
def CanSucceed (w : RuntimeHistory) : MemberLease → Prop
  | .attach lease => (w.registry.commitReady lease).2 ∨
    ∃ failure, (w.registry.commitFailed lease failure).2
  | .remove lease => (w.registry.finishRemove lease).2 ∨
    ∃ failure, (w.registry.restoreAttachRequiredAfterRemovePersistError lease failure).2

end RuntimeHistory

end AionCore.Team
