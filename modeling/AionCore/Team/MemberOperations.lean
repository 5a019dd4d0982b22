import AionCore.Team.MemberRuntime
import AionCore.Team.WorkModel

/-!
# Calls that begin and end member-runtime operations

`add_agent`, `spawn_agent`, both `remove_agent` and `ensure_session` on one published session,
with the attach tasks that they spawn, as far as they use the session's registry. A call stands
at one of its awaits; what the awaited port calls report and the order in which calls go on are
arbitrary. Locks rule out orders, so they are left out, and a service is alive while one of its
calls runs.
-/

namespace AionCore.Team

/-- What has happened while a call was awaiting: the result of the awaited part, whether the
task manager has a process of the next agent, and whether an event loop can be registered. -/
structure PortReply where
  result : Except TeamError Unit
  hasTask : Bool
  registers : Bool

/-- A call in progress, by what it awaits. -/
inductive OperationCall where
  /-- `TeamSessionService::add_agent`: the agent is provisioned and persisted. -/
  | addAgent (slotId : String)
  /-- `add_manual_agent`. -/
  | addManualAgent (reservation : ReserveAttach)
  /-- `spawn_agent`: the agent is provisioned and persisted. -/
  | spawnAgent (slotId : String)
  /-- `spawn_agent`: the welcome message is written. -/
  | spawnWelcome (slotId : String) (reservation : ReserveAttach)
  /-- `spawn_agent`: `enqueue_existing_work`. -/
  | spawnEnqueue (reservation : ReserveAttach)
  /-- `TeamSessionService::remove_agent`: the team is loaded and the agent looked for. A
  `spawn_agent` that cleans up still has its reservation. -/
  | removeAgent (slotId : String) (reservation : Option ReserveAttach)
  /-- `TeamSessionService::remove_agent`: the process is killed and the team loaded again. -/
  | removeReload (removalLease : Option RemoveLease)
  /-- `TeamSessionService::remove_agent`: `update_team`. -/
  | removePersist (removalLease : Option RemoveLease)
  /-- `TeamSessionService::remove_agent`: the process is killed and the scheduler drops the
  agent. -/
  | removeDetach (removalLease : Option RemoveLease)
  /-- `TeamSession::remove_agent`. -/
  | sessionRemoveAgent (slotId : String)
  /-- `TeamSession::remove_agent`: messages are marked read, the turn is cancelled, the scheduler
  drops the agent and the process is killed. -/
  | sessionDetach (removal : BeginRemove)
  /-- `reserve_member_runtime_reconciliation` with the agents to come and the leases so far. -/
  | ensureSession (agentIds : List String) (owners : List AttachLease)
  /-- `attach_member_runtime`: the process is attached. -/
  | attachMemberRuntime (lease : AttachLease)
  /-- `attach_member_runtime`: the process is cleaned up after the failure. -/
  | attachCleanup (lease : AttachLease) (failure : MemberRuntimeFailure)

def sanitizeMemberRuntimeFailure : TeamError → MemberRuntimeFailure
  | .database _ => ⟨"runtime_configuration_failed", "Agent runtime failed to start"⟩
  | .sessionNotFound _ => ⟨"session_stopped", "Agent runtime failed to start"⟩
  | _ => ⟨"runtime_start_failed", "Agent runtime failed to start"⟩

def loopRegistrationFailed : MemberRuntimeFailure :=
  ⟨"event_loop_registration_failed", "Agent runtime event loop could not be registered"⟩

def membershipPersistFailed : MemberRuntimeFailure :=
  ⟨"membership_persist_failed", "Agent runtime needs to restart after membership update failed"⟩

namespace MemberRuntimeRegistry

def ownsAttach (r : MemberRuntimeRegistry) (lease : AttachLease) : Bool :=
  (r.ownedAttach lease).isSome

/-- How `reserve_member_runtime_reconciliation` reserves an agent. -/
def reserveReconciliation (r : MemberRuntimeRegistry) (agentId : String) (hasTask : Bool) :
    MemberRuntimeRegistry × ReserveAttach :=
  match r.snapshot agentId with
  | .ready => if hasTask then (r, .alreadyReady) else r.reserveRepair agentId
  | _ => r.reserveAttach agentId true

end MemberRuntimeRegistry

namespace OperationCall

/-- `spawn_attach_agent_process_bg`; without a lease the task waits or ends. -/
def spawnAttach : ReserveAttach → List OperationCall
  | .start lease => [attachMemberRuntime lease]
  | .join _ | .alreadyReady | .removing _ | .sessionStopped => []

/-- `begin_remove` where the call goes on unless it joins another removal. -/
def beginRemove (r : MemberRuntimeRegistry) (slotId : String) :
    MemberRuntimeRegistry × List OperationCall :=
  match r.beginRemove slotId with
  | (r, .start lease) => (r, [removeReload (some lease)])
  | (r, .join _) => (r, [])
  | (r, .absent) | (r, .sessionStopped) => (r, [removeReload none])

/-- Where the call goes from its await: the registry afterwards and what runs on in its place. -/
def advance (r : MemberRuntimeRegistry) (reply : PortReply) :
    OperationCall → MemberRuntimeRegistry × List OperationCall
  | addAgent slotId =>
    match reply.result with
    | .error _ => (r, [])
    | .ok () => (r.reserveAttach slotId false).map id fun reservation => [addManualAgent reservation]
  | addManualAgent reservation =>
    match reply.result with
    | .error _ => (r, [])
    | .ok () => (r, spawnAttach reservation)
  | spawnAgent slotId =>
    match reply.result with
    | .error _ => (r, [])
    | .ok () =>
      (r.reserveAttach slotId false).map id fun reservation => [spawnWelcome slotId reservation]
  | spawnWelcome slotId reservation =>
    match reply.result with
    | .error _ => (r, [removeAgent slotId (some reservation)])
    | .ok () => (r, [spawnEnqueue reservation])
  | spawnEnqueue reservation =>
    match reply.result with
    | .error _ => (r, [])
    | .ok () => (r, spawnAttach reservation)
  | removeAgent slotId _ =>
    match reply.result with
    | .error _ => (r, [])
    | .ok () => beginRemove r slotId
  | removeReload removalLease =>
    match reply.result with
    | .error _ => (r, [])
    | .ok () => (r, [removePersist removalLease])
  | removePersist removalLease =>
    match reply.result, removalLease with
    | .error _, none => (r, [])
    | .error _, some lease =>
      ((r.restoreAttachRequiredAfterRemovePersistError lease membershipPersistFailed).1, [])
    | .ok (), _ => (r, [removeDetach removalLease])
  | removeDetach removalLease =>
    match reply.result, removalLease with
    | .ok (), some lease | .error (.agentNotFound _), some lease => ((r.finishRemove lease).1, [])
    | _, _ => (r, [])
  | sessionRemoveAgent slotId =>
    match r.beginRemove slotId with
    | (r, .join _) => (r, [])
    | (r, removal) => (r, [sessionDetach removal])
  | sessionDetach removal =>
    match reply.result, removal with
    | .ok (), .start lease => ((r.finishRemove lease).1, [])
    | _, _ => (r, [])
  | ensureSession [] owners => (r, owners.map attachMemberRuntime)
  | ensureSession (agentId :: agentIds) owners =>
    match r.reserveReconciliation agentId reply.hasTask with
    | (r, .start owner) => (r, [ensureSession agentIds (owners ++ [owner])])
    | (r, .join _) | (r, .removing _) | (r, .alreadyReady) => (r, [ensureSession agentIds owners])
    | (r, .sessionStopped) => (r, [])
  | attachMemberRuntime lease =>
    match reply.result with
    | .error e => (r, [attachCleanup lease (sanitizeMemberRuntimeFailure e)])
    | .ok () =>
      if ¬r.ownsAttach lease then (r, [])
      else if ¬reply.registers then (r, [attachCleanup lease loopRegistrationFailed])
      else ((r.commitReady lease).1, [])
  | attachCleanup lease failure => ((r.commitFailed lease failure).1, [])

def Begins : OperationCall → Prop
  | addAgent _ | spawnAgent _ | removeAgent _ none | sessionRemoveAgent _ | ensureSession _ [] =>
    True
  | _ => False

instance : DecidablePred Begins
  | addAgent _ | spawnAgent _ | removeAgent _ none | sessionRemoveAgent _ | ensureSession _ [] =>
    .isTrue trivial
  | addManualAgent _ | spawnWelcome _ _ | spawnEnqueue _ | removeAgent _ (some _)
  | removeReload _ | removePersist _ | removeDetach _ | sessionDetach _ | ensureSession _ (_ :: _)
  | attachMemberRuntime _ | attachCleanup _ _ => .isFalse id

end OperationCall

/-- The registry of a published session and the calls in progress. -/
structure Operations where
  registry : MemberRuntimeRegistry
  calls : List OperationCall

inductive OperationStep where
  | begin (call : OperationCall)
  | advance (k : ℕ) (reply : PortReply)

namespace Operations

def fire (w : Operations) : OperationStep → Operations
  | .begin call => { w with calls := w.calls ++ [call] }
  | .advance k reply =>
    match w.calls[k]? with
    | none => w
    | some call =>
      let (registry, next) := call.advance w.registry reply
      ⟨registry, w.calls.take k ++ next ++ w.calls.drop (k + 1)⟩

/-- A session that `ensure_session` has just published with these agents. -/
def published (sessionGeneration : String) (agentIds : List String) : Operations where
  registry := agentIds.foldl (fun r agentId => (r.seedReady agentId).1) (.new sessionGeneration)
  calls := []

/-- The session under any calls. -/
def machine (sessionGeneration : String) : Machine Operations OperationStep where
  start w := ∃ agentIds, w = published sessionGeneration agentIds
  admits w
    | .begin call => call.Begins
    | .advance k _ => k < w.calls.length
  fire := fire

instance (sessionGeneration : String) (w : Operations) :
    ∀ step, Decidable ((machine sessionGeneration).admits w step)
  | .begin call => inferInstanceAs (Decidable call.Begins)
  | .advance k _ => inferInstanceAs (Decidable (k < w.calls.length))

end Operations

end AionCore.Team
