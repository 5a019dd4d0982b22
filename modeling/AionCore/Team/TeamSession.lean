import AionCore.Team.Mailbox
import AionCore.Team.MemberRuntime
import AionCore.Team.RunWiring

/-!
# Team sessions: removing a member

What a published session holds of its members: the coordinator with the run manager, the
runtime registry, the scheduler, the event loops and the mailbox. The two functions that remove
a member are written separately. No other call runs beside one of them, every port call
succeeds, and a call that waits for a removal that is already going on does not return.
-/

namespace AionCore.Team

inductive TeammateRole where
  | lead
  | teammate
  deriving DecidableEq

structure TeamAgent where
  slotId : String
  name : String
  role : TeammateRole
  conversationId : String

/-- `target_role_for`. -/
def TeammateRole.target : TeammateRole → TeamRunTargetRole
  | .lead => .lead
  | .teammate => .teammate

/-- The slots of a `TeammateManager`, each under its own id. -/
abbrev Scheduler := List TeamAgent

namespace Scheduler

def getAgent (slots : Scheduler) (slotId : String) : Except TeamError TeamAgent :=
  match slots.find? (·.slotId = slotId) with
  | some agent => .ok agent
  | none => .error (.agentNotFound slotId)

/-- `slots.remove(slot_id)`. -/
def drop (slots : Scheduler) (slotId : String) : Scheduler := slots.filter (·.slotId ≠ slotId)

def removeAgent (slots : Scheduler) (slotId : String) :
    Except TeamError (Scheduler × Option String) :=
  match slots.find? (·.slotId = slotId) with
  | some removed => .ok (slots.drop slotId, some removed.conversationId)
  | none => .error (.agentNotFound slotId)

def findLeadSlotId (slots : Scheduler) : Option String :=
  (slots.find? (·.role = .lead)).map (·.slotId)

end Scheduler

/-- A published session. `cancelledTurns` lists the conversation and the turn of every call
of `cancel_agent_turn`, `killed` the conversations whose process was killed. -/
structure SessionState where
  work : Wired
  memberRuntimes : MemberRuntimeRegistry
  scheduler : Scheduler
  eventLoops : List String
  mailbox : List MailboxMessageRow
  cancelledTurns : List (String × String)
  killed : List String

/-- `TeamSession`: its team's mailbox with the coordinator, and its run manager. -/
structure TeamSession where
  mail : TeamMail
  manager : TeamRunManager

namespace TeamSession

variable (t : TeamSession)

def wiring : TeamWork := ⟨t.mail.coordinator, t.manager⟩

def operate (st : SessionState) (op : Op) (now : TimestampMs) : SessionState :=
  { st with work := t.wiring.operation st.work op now }

def acquireEnqueue (st : SessionState) (request : EnqueueRequest) (now : TimestampMs) :
    SessionState × Except TeamError EnqueueLease :=
  (t.operate st (.acquireEnqueue request) now,
    (t.mail.coordinator.acquireEnqueue st.work.work.state
      (t.wiring.callOf st.work (.acquireEnqueue request)).bindEnqueue request).result)

def commitEnqueue (st : SessionState) (lease : EnqueueLease) (messageId : Option String)
    (now : TimestampMs) : SessionState × Except TeamError EnqueueCommit :=
  (t.operate st (.commitEnqueue lease messageId now) now,
    (t.mail.coordinator.commitEnqueue st.work.work.state lease messageId now).result)

/-- The constraint that `publish_runtime_constraint` reads off the registry. -/
def runtimeConstraint (st : SessionState) (slotId : String) : RuntimeConstraint :=
  match st.memberRuntimes.snapshot slotId with
  | .absent => if slotId ∈ st.eventLoops then .ready else .starting 0
  | .attaching operationId => .starting operationId
  | .ready => .ready
  | .failed operationId failure => .failed operationId failure.classification
  | .removing operationId => .removing operationId
  | .sessionStopped => .sessionStopped

def publishRuntimeConstraint (st : SessionState) (slotId : String) (now : TimestampMs)
    (order : IterOrder WorkIntent) : SessionState :=
  let constraint := runtimeConstraint st slotId
  let update :=
    (SlotWorkCoordinator.setRuntimeConstraint st.work.work.state slotId constraint order).result
  let st := t.operate st (.setRuntimeConstraint slotId constraint order) now
  { st with mailbox := Mailbox.markReadBatch st.mailbox update.terminalMessageIds }

def enqueueExistingWork (st : SessionState) (slotId : String) (source : WorkSource)
    (messageId : String) (binding : CausalBinding) (now : TimestampMs)
    (order : IterOrder WorkIntent) : SessionState × Except TeamError Unit :=
  match st.scheduler.getAgent slotId with
  | .error e => (st, .error e)
  | .ok agent =>
    let st := t.publishRuntimeConstraint st slotId now order
    match t.acquireEnqueue st ⟨slotId, agent.role.target, source, binding⟩ now with
    | (st, .error e) => (st, .error e)
    | (st, .ok lease) =>
      match t.commitEnqueue st lease (some messageId) now with
      | (st, .ok _) => (st, .ok ())
      | (st, .error e) =>
        let st := t.operate st (.abortEnqueue lease) now
        ({ st with mailbox := Mailbox.markReadBatch st.mailbox [messageId] }, .error e)

/-- `notify_leader_membership_removed`; the projection of the notice is left out. -/
def notifyLeaderMembershipRemoved (st : SessionState) (now : TimestampMs)
    (order : IterOrder WorkIntent) : SessionState × Except TeamError Unit :=
  match st.scheduler.findLeadSlotId with
  | none => (st, .error (.invalidRequest "team lead not found"))
  | some leadSlotId =>
    let notice := t.mail.newRow st.mailbox leadSlotId "team_system" now
    let st := { st with mailbox := Mailbox.writeMessage st.mailbox notice }
    t.enqueueExistingWork st leadSlotId .teamMembershipChanged notice.id .activeRunOrBackground
      now order

/-- `event_loops.remove`. -/
def removeLoop (st : SessionState) (slotId : String) : SessionState :=
  { st with eventLoops := st.eventLoops.filter (· ≠ slotId) }

/-- `kill_and_wait`. -/
def kill (st : SessionState) (conversationId : String) : SessionState :=
  { st with killed := st.killed ++ [conversationId] }

/-- Give back the lease of a removal, if `begin_remove` has granted one. -/
def finishRemove (st : SessionState) : BeginRemove → SessionState
  | .start lease => { st with memberRuntimes := (st.memberRuntimes.finishRemove lease).1 }
  | _ => st

def constrainRemoving (st : SessionState) (slotId : String) (now : TimestampMs) :
    BeginRemove → SessionState
  | .start lease =>
    t.operate st (.setRuntimeConstraint slotId (.removing lease.operationId) .stored) now
  | _ => st

def cancelTurn (st : SessionState) (slotId : String) (target : Option BatchCancelTarget) :
    Except TeamError SessionState :=
  match target.bind (·.turnId) with
  | none => .ok st
  | some turnId =>
    (st.scheduler.getAgent slotId).map fun agent =>
      { st with cancelledTurns := st.cancelledTurns ++ [(agent.conversationId, turnId)] }

/-- What `TeamSession::remove_agent` does once the slot is out of the coordinator. -/
def detach (st : SessionState) (slotId : String) (removal : BeginRemove)
    (work : RemoveWorkResult) : SessionState × Except TeamError Unit :=
  let st := { st with mailbox := Mailbox.markReadBatch st.mailbox work.terminalMessageIds }
  match cancelTurn st slotId work.cancelTarget with
  | .error e => (st, .error e)
  | .ok st =>
    let st := removeLoop st slotId
    match st.scheduler.removeAgent slotId with
    | .error e => (st, .error e)
    | .ok (scheduler, conversationId) =>
      let st := conversationId.elim { st with scheduler } (kill { st with scheduler })
      (finishRemove st removal, .ok ())

/-- `TeamSession::remove_agent`; without result it waits for another removal of the member
or has panicked. -/
def removeAgent (st : SessionState) (slotId : String) (now : TimestampMs) :
    SessionState × Option (Except TeamError Unit) :=
  match st.memberRuntimes.beginRemove slotId with
  | (_, .join _) => (st, none)
  | (memberRuntimes, removal) =>
    let st := t.constrainRemoving { st with memberRuntimes } slotId now removal
    match (SlotWorkCoordinator.removeSlot st.work.work.state slotId).result with
    | none => (t.operate st (.removeSlot slotId) now, none)
    | some work =>
      let (st, result) := detach (t.operate st (.removeSlot slotId) now) slotId removal work
      (st, some result)

/-- `TeamSessionService::remove_agent` on the agents of the team row and the published
session. -/
def serviceRemoveAgent (agents : List TeamAgent) (st : SessionState) (slotId : String)
    (now : TimestampMs) (order : IterOrder WorkIntent) :
    (List TeamAgent × SessionState) × Option (Except TeamError Unit) :=
  match agents.find? (·.slotId = slotId) with
  | none => ((agents, st), some (.error (.agentNotFound slotId)))
  | some removed =>
    if removed.role = .lead then
      ((agents, st), some (.error (.invalidRequest "cannot remove the team lead")))
    else
      match st.memberRuntimes.beginRemove slotId with
      | (_, .join _) => ((agents, st), none)
      | (memberRuntimes, removal) =>
        let st := kill (removeLoop { st with memberRuntimes } slotId) removed.conversationId
        let agents := agents.filter (·.slotId ≠ slotId)
        -- the same once more on the session that is published when the row has been written
        let st := kill (removeLoop st slotId) removed.conversationId
        let st := { st with scheduler := st.scheduler.drop slotId }
        let (st, result) := t.notifyLeaderMembershipRemoved (finishRemove st removal) now order
        ((agents, st), some result)

end TeamSession

end AionCore.Team
