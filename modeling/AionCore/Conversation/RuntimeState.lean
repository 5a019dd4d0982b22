import AionCore.Lib.Dict
import AionCore.Lib.Machine
import Mathlib.Data.Finset.Basic

/-!
# Conversations: which turn runs

`ConversationRuntimeStateService` of `runtime_state.rs`, with the calls of the service that go
through it at their awaits: turns that claim a conversation and release it, deletions and
cancellations. Each method takes the mutex once and is one step; the mutex is never poisoned.
-/

namespace AionCore.Conversation

inductive ConversationError where
  | busy (reason : String)

inductive RuntimeLifecycleState where
  | active
  | deleting
  | cancelling
  | shuttingDown
  deriving DecidableEq

inductive ConversationStatus where
  | pending
  | running
  | finished
  deriving DecidableEq

inductive ConversationRuntimeStateKind where
  | idle
  | starting
  | running
  | cancelling
  | waitingConfirmation
  deriving DecidableEq

structure ConversationRuntimeSummary where
  state : ConversationRuntimeStateKind
  canSendMessage : Bool
  hasTask : Bool
  taskStatus : Option ConversationStatus
  isProcessing : Bool
  pendingConfirmations : ℕ
  turnId : Option String

structure ConversationRuntimeState where
  activeTurns : Dict String String
  deletingConversations : Finset String
  cancellingConversations : Finset String
  shuttingDown : Bool

structure TurnClaim where
  conversationId : String
  turnId : String
  released : Bool
  deriving DecidableEq

namespace ConversationRuntimeState

/-- `ConversationRuntimeState::default`. -/
def empty : ConversationRuntimeState := ⟨∅, ∅, ∅, false⟩

def tryClaimTurn (s : ConversationRuntimeState) (conversationId turnId : String) :
    Except ConversationError (ConversationRuntimeState × TurnClaim) :=
  if s.shuttingDown then .error (.busy "conversation runtime is shutting down")
  else if conversationId ∈ s.deletingConversations then
    .error (.busy ("conversation " ++ conversationId ++ " is being deleted"))
  else if (s.activeTurns.lookup conversationId).isSome then
    .error (.busy ("conversation " ++ conversationId ++ " is already running"))
  else .ok ({ s with activeTurns := s.activeTurns.insert conversationId turnId },
    ⟨conversationId, turnId, false⟩)

def activeTurnIdFor (s : ConversationRuntimeState) (conversationId : String) : Option String :=
  s.activeTurns.lookup conversationId

def isClaimed (s : ConversationRuntimeState) (conversationId : String) : Bool :=
  (s.activeTurnIdFor conversationId).isSome

/-- `mark_deleting`, and whether the conversation had a turn. -/
def markDeleting (s : ConversationRuntimeState) (conversationId : String) :
    ConversationRuntimeState × Bool :=
  ({ s with deletingConversations := insert conversationId s.deletingConversations },
    s.isClaimed conversationId)

def clearDeleting (s : ConversationRuntimeState) (conversationId : String) :
    ConversationRuntimeState :=
  { s with deletingConversations := s.deletingConversations.erase conversationId }

def isDeleting (s : ConversationRuntimeState) (conversationId : String) : Bool :=
  conversationId ∈ s.deletingConversations

def markCancelling (s : ConversationRuntimeState) (conversationId : String) :
    ConversationRuntimeState :=
  { s with cancellingConversations := insert conversationId s.cancellingConversations }

def clearCancelling (s : ConversationRuntimeState) (conversationId : String) :
    ConversationRuntimeState :=
  { s with cancellingConversations := s.cancellingConversations.erase conversationId }

def isCancelling (s : ConversationRuntimeState) (conversationId : String) : Bool :=
  conversationId ∈ s.cancellingConversations

def markShuttingDown (s : ConversationRuntimeState) : ConversationRuntimeState :=
  { s with shuttingDown := true }

def lifecycleFor (s : ConversationRuntimeState) (conversationId : String) :
    RuntimeLifecycleState :=
  if s.shuttingDown then .shuttingDown
  else if conversationId ∈ s.deletingConversations then .deleting
  else if conversationId ∈ s.cancellingConversations then .cancelling
  else .active

def summaryFromParts (s : ConversationRuntimeState) (conversationId : String)
    (taskStatus : Option ConversationStatus) (hasTask : Bool) (pendingConfirmations : ℕ) :
    ConversationRuntimeSummary :=
  let claimed := s.isClaimed conversationId
  let state : ConversationRuntimeStateKind :=
    if pendingConfirmations > 0 then .waitingConfirmation
    else if s.isCancelling conversationId then .cancelling
    else if claimed && taskStatus ≠ some .running then .starting
    else if claimed || taskStatus = some .running then .running
    else .idle
  let isProcessing := state ≠ .idle
  ⟨state, !isProcessing, hasTask, taskStatus, isProcessing, pendingConfirmations,
    s.activeTurnIdFor conversationId⟩

/-- `release`, and whether the conversation was being deleted. -/
def release (s : ConversationRuntimeState) (conversationId turnId : String) :
    ConversationRuntimeState × Bool :=
  if s.activeTurnIdFor conversationId = some turnId then
    ({ s with
        activeTurns := s.activeTurns.erase conversationId
        deletingConversations := s.deletingConversations.erase conversationId
        cancellingConversations := s.cancellingConversations.erase conversationId },
      s.isDeleting conversationId)
  else (s, false)

end ConversationRuntimeState

namespace TurnClaim

/-- `release_inner`; `release` and `drop` are nothing else. -/
def releaseInner (claim : TurnClaim) (s : ConversationRuntimeState) :
    ConversationRuntimeState × TurnClaim × Bool :=
  if claim.released then (s, claim, false)
  else
    let (s, wasDeleting) := s.release claim.conversationId claim.turnId
    (s, { claim with released := true }, wasDeleting)

def releaseForTurn (claim : TurnClaim) (s : ConversationRuntimeState) (turnId : String) :
    ConversationRuntimeState × TurnClaim × Bool :=
  if claim.turnId ≠ turnId then (s, claim, false) else claim.releaseInner s

end TurnClaim

/-- What `ConversationService::delete` awaits once it has marked the conversation. -/
inductive DeleteStage where
  /-- The hooks, and `conversation_repo.delete`. -/
  | hooks
  /-- Nothing; the row is deleted, or that has failed. -/
  | repoDeleted (ok : Bool)
  | done
  deriving DecidableEq

structure DeleteCall where
  conversationId : String
  hadActiveTurn : Bool
  stage : DeleteStage

/-- What comes next in `ConversationService::cancel`. -/
inductive CancelStage where
  /-- `active_turn_id_for`. -/
  | compare
  /-- `get_task`. -/
  | lookup
  /-- `mark_cancelling`. -/
  | mark
  /-- `agent.cancel`. -/
  | agent
  /-- `clear_cancelling`. -/
  | failed
  | done
  deriving DecidableEq

structure CancelCall where
  conversationId : String
  turnId : String
  stage : CancelStage

/-- The state with the claims that were handed out and the calls that were made. `marks` lists the
cancellations that have set the cancelling flag since it was cleared last, and `lost` those whose
flag was cleared by the failed cancellation of another turn. -/
structure RuntimeWorld where
  state : ConversationRuntimeState
  claims : List TurnClaim
  deletes : List DeleteCall
  cancels : List CancelCall
  marks : List (String × String)
  lost : List (String × String)

inductive RuntimeStep where
  | claim (conversationId turnId : String)
  | release (k : ℕ)
  | releaseForTurn (k : ℕ) (turnId : String)
  | delete (conversationId : String)
  /-- The reply is that of `conversation_repo.delete`. -/
  | advanceDelete (k : ℕ) (reply : Bool)
  | cancel (conversationId turnId : String)
  /-- The reply is whether there is a task, or that of `agent.cancel`. -/
  | advanceCancel (k : ℕ) (reply : Bool)
  | shutDown

namespace RuntimeWorld

def empty : RuntimeWorld := ⟨.empty, [], [], [], [], []⟩

def marksBeside (w : RuntimeWorld) (conversationId : String) : List (String × String) :=
  w.marks.filter (·.1 ≠ conversationId)

/-- Claim `k` has been used, with this result. -/
def released (w : RuntimeWorld) (k : ℕ) (claim : TurnClaim)
    (result : ConversationRuntimeState × TurnClaim × Bool) : RuntimeWorld :=
  { w with
    state := result.1
    claims := w.claims.set k result.2.1
    -- who frees the conversation clears its flags
    marks := if result.1.activeTurnIdFor claim.conversationId =
        w.state.activeTurnIdFor claim.conversationId then w.marks
      else w.marksBeside claim.conversationId }

def advanceDelete (w : RuntimeWorld) (k : ℕ) (call : DeleteCall) (reply : Bool) : RuntimeWorld :=
  match call.stage with
  | .hooks => { w with deletes := w.deletes.set k { call with stage := .repoDeleted reply } }
  | .repoDeleted ok =>
    { w with
      state := if !ok || !call.hadActiveTurn then w.state.clearDeleting call.conversationId
        else w.state
      deletes := w.deletes.set k { call with stage := .done } }
  | .done => w

def advanceCancel (w : RuntimeWorld) (k : ℕ) (call : CancelCall) (reply : Bool) : RuntimeWorld :=
  let goTo (w : RuntimeWorld) (stage : CancelStage) : RuntimeWorld :=
    { w with cancels := w.cancels.set k { call with stage } }
  match call.stage with
  | .compare =>
    if w.state.activeTurnIdFor call.conversationId = some call.turnId then goTo w .lookup
    else goTo w .done
  | .lookup => if reply then goTo w .mark else goTo w .done
  | .mark => goTo { w with
      state := w.state.markCancelling call.conversationId
      marks := w.marks ++ [(call.conversationId, call.turnId)] } .agent
  | .agent => if reply then goTo w .done else goTo w .failed
  | .failed => goTo { w with
      state := w.state.clearCancelling call.conversationId
      marks := w.marksBeside call.conversationId
      lost := w.lost ++ w.marks.filter fun mark =>
        mark.1 = call.conversationId ∧ mark.2 ≠ call.turnId } .done
  | .done => w

def fire (w : RuntimeWorld) : RuntimeStep → RuntimeWorld
  | .claim conversationId turnId =>
    match w.state.tryClaimTurn conversationId turnId with
    | .error _ => w
    | .ok (state, claim) => { w with state, claims := w.claims ++ [claim] }
  | .release k =>
    match w.claims[k]? with
    | none => w
    | some claim => w.released k claim (claim.releaseInner w.state)
  | .releaseForTurn k turnId =>
    match w.claims[k]? with
    | none => w
    | some claim => w.released k claim (claim.releaseForTurn w.state turnId)
  | .delete conversationId =>
    let (state, hadActiveTurn) := w.state.markDeleting conversationId
    { w with state, deletes := w.deletes ++ [⟨conversationId, hadActiveTurn, .hooks⟩] }
  | .advanceDelete k reply =>
    match w.deletes[k]? with
    | none => w
    | some call => w.advanceDelete k call reply
  | .cancel conversationId turnId =>
    { w with cancels := w.cancels ++ [⟨conversationId, turnId, .compare⟩] }
  | .advanceCancel k reply =>
    match w.cancels[k]? with
    | none => w
    | some call => w.advanceCancel k call reply
  | .shutDown => { w with state := w.state.markShuttingDown }

/-- Any turns, deletions and cancellations in any order. -/
def machine : Machine RuntimeWorld RuntimeStep where
  start w := w = .empty
  admits _ _ := True
  fire := fire

instance (w : RuntimeWorld) (step : RuntimeStep) : Decidable (machine.admits w step) :=
  .isTrue trivial

end RuntimeWorld

end AionCore.Conversation
