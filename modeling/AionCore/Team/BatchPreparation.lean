import AionCore.Team.MemberRemoval
import AionCore.Team.TaskBoard
import AionCore.Team.WorkClaims

/-!
# Team sessions: preparing the next batch

`TeamSession::prepare_next_batch`: it reconciles a slot with its mailbox, claims a batch and
builds what the agent is woken with. Each awaited call can fail; a claim made by then has to be
given back. The texts of the prompts are parameters.
-/

namespace AionCore.Team

inductive TeamToolTransport where
  | mcp
  | cliAssumed

/-- `build_wake_payload` and the prompts of the two roles. -/
structure WakePrompts where
  wakePayload : TeamAgent → List TeamTask → List MailboxMessageRow → List String → String
  rolePrompt : TeamAgent → Scheduler → List String → TeamToolTransport → String

/-- What the calls that `prepare_next_batch` awaits return, the errors of `mark_read_batch` and
of `peek_unread` among it, with the clock and the iteration order of the intents. -/
structure PreparePorts where
  markRead : Option TeamError
  peekUnread : Option TeamError
  listTasks : Except TeamError (List TeamTask)
  needsRolePrompt : Bool
  toolTransport : Except TeamError TeamToolTransport
  assistants : List String
  now : TimestampMs
  order : IterOrder WorkIntent

structure WakeInput where
  conversationId : String
  firstMessage : String
  unread : List MailboxMessageRow
  agentRole : TeammateRole
  deriving DecidableEq

inductive PrepareBatchResult where
  | execute (batch : WorkBatch) (input : WakeInput)
  | settleSignals (intentIds : List String)
  | waitingForCompletion
  | blocked
  | quiescent
  deriving DecidableEq

namespace TeamSession

variable (t : TeamSession) (prompts : WakePrompts)

/-- The part after the claim of a batch. -/
def prepareClaimed (st : SessionState) (agent : TeamAgent) (unread : List MailboxMessageRow)
    (batch : WorkBatch) (ports : PreparePorts) :
    SessionState × Except TeamError PrepareBatchResult :=
  let claimedUnread := unread.filter (·.id ∈ batch.mailboxMessageIds)
  match ports.listTasks with
  | .error e => (t.operate st (.retryStart batch) ports.now, .error e)
  | .ok tasks =>
    let wakeBody := prompts.wakePayload agent tasks claimedUnread (st.scheduler.map (·.slotId))
    let execute (firstMessage : String) : SessionState × Except TeamError PrepareBatchResult :=
      (st, .ok (.execute batch ⟨agent.conversationId, firstMessage, claimedUnread, agent.role⟩))
    if ports.needsRolePrompt then
      match ports.toolTransport with
      -- the batch stays claimed
      | .error e => (st, .error e)
      | .ok transport =>
        execute (prompts.rolePrompt agent st.scheduler ports.assistants transport ++ "\n\n" ++
          wakeBody)
    else execute wakeBody

/-- The part that asks for the next batch. -/
def prepareDecided (st : SessionState) (slotId : String) (agent : TeamAgent)
    (unread : List MailboxMessageRow) (ports : PreparePorts) :
    SessionState × Except TeamError PrepareBatchResult :=
  let decision := (t.mail.coordinator.next st.work.work.state slotId).result
  let st := t.operate st (.next slotId) ports.now
  match decision with
  | .claim batch => t.prepareClaimed prompts st agent unread batch ports
  | .settleSignals intentIds => (st, .ok (.settleSignals intentIds))
  | .waitingForCompletion => (st, .ok .waitingForCompletion)
  | .blocked _ => (st, .ok .blocked)
  | .quiescent => (st, .ok .quiescent)

/-- The part up to the reconciliation: the agent and its unread messages of others. -/
def prepareReconciled (st : SessionState) (slotId : String) (ports : PreparePorts) :
    SessionState × Except TeamError (TeamAgent × List MailboxMessageRow) :=
  match st.scheduler.getAgent slotId with
  | .error e => (st, .error e)
  | .ok agent =>
    let constraint := runtimeConstraint st slotId
    let ended := (SlotWorkCoordinator.setRuntimeConstraint st.work.work.state slotId constraint
      ports.order).result.terminalMessageIds
    let st := t.operate st (.setRuntimeConstraint slotId constraint ports.order) ports.now
    match if ended = [] then none else ports.markRead with
    | some e => (st, .error e)
    | none =>
      let st := { st with mailbox := Mailbox.markReadBatch st.mailbox ended }
      match ports.peekUnread with
      | some e => (st, .error e)
      | none =>
        let unread := (Mailbox.peekUnread st.mailbox t.mail.teamId slotId).filter
          (·.fromAgentId ≠ slotId)
        let op : Op :=
          .reconcileMailbox slotId (unread.map (·.id)) agent.role.target ports.now
        (t.operate st op ports.now, .ok (agent, unread))

def prepareNextBatch (st : SessionState) (slotId : String) (ports : PreparePorts) :
    SessionState × Except TeamError PrepareBatchResult :=
  match t.prepareReconciled st slotId ports with
  | (st, .error e) => (st, .error e)
  | (st, .ok (agent, unread)) => t.prepareDecided prompts st slotId agent unread ports

/-- The batches that `after` has handed out since `before`. -/
def claimedSince (before after : SessionState) : List WorkBatch :=
  after.work.work.handed.drop before.work.work.handed.length

/-- If the call fails, the slot does not hold a batch that the call has claimed, the intents of
such a batch are queued, and the next claim takes them. -/
def LeavesNoClaim (st : SessionState) (slotId : String) (ports : PreparePorts) : Prop :=
  let after := (t.prepareNextBatch prompts st slotId ports).1
  ∀ e, (t.prepareNextBatch prompts st slotId ports).2 = .error e → ∀ b ∈ claimedSince st after,
    after.work.work.state.batchOf slotId ≠ some b ∧ ∀ i ∈ b.intentIds,
      (∃ x, after.work.work.state.intents.lookup i = some x ∧ x.state = .queued) ∧
      ∃ b', (t.mail.coordinator.next after.work.work.state slotId).result = .claim b' ∧
        i ∈ b'.intentIds

/-- A slot that has work to claim and needs its role prompt has its transport found, unless the
task list has failed before. -/
def TransportFound (st : SessionState) (slotId : String) (ports : PreparePorts) : Prop :=
  ∀ st' found batch, t.prepareReconciled st slotId ports = (st', .ok found) →
    (t.mail.coordinator.next st'.work.work.state slotId).result = .claim batch →
    ports.listTasks.isOk → ports.needsRolePrompt → ports.toolTransport.isOk

end TeamSession

namespace SlotWorkCoordinator

variable {c : SlotWorkCoordinator} {s : CoordinatorState} {slotId : String}

theorem find_priority {queue : WorkPriority → List String} {p : WorkPriority}
    (hp : queue p ≠ []) (hhigher : ∀ q ∈ p.higher, queue q = []) :
    [WorkPriority.foreground, .control, .background].find? (queue · ≠ []) = some p := by
  cases p with
  | foreground => simp [hp]
  | control => simp [hp, hhigher .foreground (by simp [WorkPriority.higher])]
  | background =>
    simp [hp, hhigher .foreground (by simp [WorkPriority.higher]),
      hhigher .control (by simp [WorkPriority.higher])]

theorem bearsMessage_congr {s' : CoordinatorState} (h : ∀ i, s'.enqueuedAs i = s.enqueuedAs i)
    (i : String) : bearsMessage s' i = bearsMessage s i := by
  have hany : ∀ o : Option WorkIntent, o.any (·.mailboxMessageId.isSome) =
      (o.map (·.asQueued)).any (·.mailboxMessageId.isSome) := by
    intro o
    cases o <;> rfl
  have hi := h i
  rw [CoordinatorState.enqueuedAs, CoordinatorState.enqueuedAs] at hi
  rw [bearsMessage, hany, hi, ← hany, bearsMessage]

/-- A claim that is given back at once is gone, and the next claim takes the same intents. -/
theorem retryStart_of_claimed {b : WorkBatch} (h : (c.next s slotId).result = .claim b) :
    (c.retryStart (c.next s slotId).state b).state.batchOf slotId = none ∧
    (∀ i ∈ b.intentIds, ∃ x,
      (c.retryStart (c.next s slotId).state b).state.intents.lookup i = some x ∧
        x.state = .queued) ∧
    ∃ b', (c.next (c.retryStart (c.next s slotId).state b).state slotId).result = .claim b' ∧
      b'.intentIds = b.intentIds := by
  rcases c.next_cases s slotId with
    ⟨-, -, hno⟩ | ⟨slot, p, hslot, hidle, hready, hpaused, hfind, hne, hclaim⟩
  · exact absurd h (hno b)
  set ids := (slot.queue p).filter (bearsMessage s) with hids
  rw [hclaim] at h ⊢
  obtain rfl : c.claimedBatch s slotId p ids = b := ReconcileDecision.claim.inj h
  obtain ⟨hqueue, hhigher⟩ := WorkPriority.higher_of_find hfind
  set batch := c.claimedBatch s slotId p ids with hbatch
  set claimed := (c.claimBatch s slotId p ids).state with hclaimed
  have hclaimedSlot : claimed.slots.lookup slotId =
      some { ids.foldl .removeQueued slot with active := some ⟨batch, none, none⟩ } := by
    simp [hclaimed, claimBatch, CoordinatorState.modifySlot, CoordinatorState.setIntentStates,
      hslot, hbatch]
  have hheld : claimed.activeOf batch.slotId = some ⟨batch, none, none⟩ := by
    show claimed.activeOf slotId = _
    rw [CoordinatorState.activeOf, hclaimedSlot, Option.bind_some]
  have hcurrent : c.isCurrentBatch claimed batch = true := by
    have hgeneration : batch.sessionGeneration = c.sessionGeneration := rfl
    simp [isCurrentBatch, hheld, hgeneration]
  set retried := (c.retryStart claimed batch).state with hretried
  have hretriedEq : retried = (claimed.setIntentStates ids .queued).modifySlot slotId fun slot =>
      ids.reverse.foldl (fun slot id => slot.pushFront p id) { slot with active := none } := by
    rw [hretried, retryStart, if_neg (by simpa using hcurrent)]
    rfl
  -- the slot has its batch in front of the queue that it was taken from
  have hpush := SlotState.queue_foldl_pushFront
    { ids.foldl .removeQueued slot with active := none } (ids.map fun id => (p, id))
  have hactive := SlotState.active_foldl_pushFront
    { ids.foldl .removeQueued slot with active := none } (ids.map fun id => (p, id)).reverse
  simp only [← List.map_reverse, List.foldl_map] at hpush hactive
  set back := ids.reverse.foldl (fun slot id => slot.pushFront p id)
    { ids.foldl .removeQueued slot with active := none } with hback
  have hretriedSlot : retried.slots.lookup slotId = some back := by
    rw [hretriedEq, CoordinatorState.modifySlot, Dict.lookup_modify, if_pos rfl]
    show (claimed.slots.lookup slotId).map _ = _
    rw [hclaimedSlot, Option.map_some]
  have hgate : back.gate = slot.gate := by
    have hfold := SlotState.gate_foldl_pushFront
      { ids.foldl .removeQueued slot with active := none } (ids.map fun id => (p, id)).reverse
    rw [← List.map_reverse, List.foldl_map] at hfold
    rw [hback, hfold, SlotState.foldl_removeQueued]
    rfl
  have hqueues : ∀ q, back.queue q =
      (if q = p then ids else []) ++ (slot.queue q).filter (· ∉ ids) := by
    intro q
    rw [hback, hpush q]
    congr 1
    · by_cases hq : q = p
      · subst q
        simp [List.filter_map, Function.comp_def]
      · simp [List.filter_map, Function.comp_def, hq, Ne.symm hq]
    · rw [← SlotState.queue_foldl_removeQueued]
      cases q <;> rfl
  have henqueued : ∀ i, retried.enqueuedAs i = s.enqueuedAs i := by
    intro i
    rw [hretried, (c.retryStart_retains claimed batch).enqueuedAs, hclaimed,
      c.claimBatch_enqueuedAs]
  have hbears : (back.queue p).filter (bearsMessage retried) = ids := by
    rw [hqueues p, if_pos rfl, List.filter_append]
    have hfirst : ids.filter (bearsMessage retried) = ids := by
      refine List.filter_eq_self.mpr fun i hi => ?_
      rw [bearsMessage_congr henqueued]
      exact List.of_mem_filter hi
    have hrest : ((slot.queue p).filter (· ∉ ids)).filter (bearsMessage retried) = [] := by
      rw [List.filter_filter, List.filter_eq_nil_iff]
      intro i hi
      rw [bearsMessage_congr henqueued, Bool.and_eq_true, not_and]
      intro hb hnot
      exact of_decide_eq_true hnot (List.mem_filter.mpr ⟨hi, hb⟩)
    rw [hfirst, hrest, List.append_nil]
  have hfind' : [WorkPriority.foreground, .control, .background].find? (back.queue · ≠ []) =
      some p := by
    refine find_priority ?_ fun q hq => ?_
    · intro hempty
      rw [hempty] at hbears
      exact hne hbears.symm
    · have hqp : q ≠ p := by
        rintro rfl
        exact hqueue (hhigher q hq)
      rw [hqueues q, if_neg hqp, hhigher q hq]
      rfl
  refine ⟨?_, fun i hi => ?_, ?_⟩
  · rw [CoordinatorState.batchOf, CoordinatorState.activeOf, hretriedSlot, Option.bind_some, hactive]
    rfl
  · -- the intent is there, because it bears a message
    obtain ⟨y, hy⟩ : ∃ y, s.intents.lookup i = some y := by
      have hbearsMessage := List.of_mem_filter hi
      cases hl : s.intents.lookup i with
      | none => simp [bearsMessage, hl] at hbearsMessage
      | some y => exact ⟨y, rfl⟩
    have hi' := henqueued i
    rw [CoordinatorState.enqueuedAs, CoordinatorState.enqueuedAs, hy] at hi'
    obtain ⟨x, hx, -⟩ := Option.map_eq_some_iff.mp hi'
    refine ⟨x, hx, ?_⟩
    have hlookup : retried.intents.lookup i =
        (claimed.intents.lookup i).map fun x => { x with state := .queued } := by
      rw [hretriedEq]
      show (claimed.setIntentStates ids .queued).intents.lookup i = _
      have hmem : i ∈ ids := hi
      rw [CoordinatorState.lookup_setIntentStates, if_pos hmem]
    obtain ⟨z, -, rfl⟩ := Option.map_eq_some_iff.mp (hlookup.symm.trans hx)
    rfl
  · have hgateSplit : back.runtimeConstraint = slot.runtimeConstraint ∧
        back.paused = slot.paused := by
      simp only [SlotState.gate, Gate.mk.injEq] at hgate
      exact ⟨hgate.2.2, hgate.2.1⟩
    refine ⟨c.claimedBatch retried slotId p ids, ?_, rfl⟩
    rw [next, hretriedSlot]
    simp only [hactive, hgateSplit.1, hgateSplit.2, hready, hpaused, hfind', hbears, if_neg hne]
    rfl

theorem batchOf_of_claimed {b : WorkBatch} (h : (c.next s slotId).result = .claim b) :
    (c.next s slotId).state.batchOf slotId = some b ∧ b.intentIds ≠ [] := by
  rcases c.next_cases s slotId with ⟨-, -, hno⟩ | ⟨slot, p, hslot, -, -, -, -, hne, hclaim⟩
  · exact absurd h (hno b)
  · rw [hclaim] at h ⊢
    obtain rfl := ReconcileDecision.claim.inj h
    refine ⟨?_, hne⟩
    simp [claimBatch, CoordinatorState.batchOf, CoordinatorState.activeOf,
      CoordinatorState.modifySlot, CoordinatorState.setIntentStates, hslot]

end SlotWorkCoordinator

namespace TeamSession

variable {t : TeamSession} {prompts : WakePrompts} {st : SessionState} {slotId : String}
  {ports : PreparePorts}

/-- Nothing is claimed before the slot is asked for its next batch. -/
theorem handed_prepareReconciled (t : TeamSession) (st : SessionState) (slotId : String)
    (ports : PreparePorts) :
    (t.prepareReconciled st slotId ports).1.work.work.handed = st.work.work.handed := by
  have hquiet : ∀ (st : SessionState) (op : Op) (now : TimestampMs),
      (t.mail.coordinator.exec (t.wiring.callOf st.work op).bindEnqueue st.work.work.state
        op).result.handed = [] → (t.operate st op now).work.work.handed = st.work.work.handed := by
    intro st op now hnone
    exact (congrArg (st.work.work.handed ++ ·) hnone).trans (List.append_nil _)
  rw [prepareReconciled]
  cases st.scheduler.getAgent slotId with
  | error e => rfl
  | ok agent =>
    dsimp only
    have hconstraint := hquiet st (.setRuntimeConstraint slotId (runtimeConstraint st slotId)
      ports.order) ports.now rfl
    split
    · exact hconstraint
    · split
      · exact hconstraint
      · exact (hquiet _ _ _ rfl).trans hconstraint

theorem handed_next (t : TeamSession) (st : SessionState) (slotId : String) (now : TimestampMs) :
    (t.operate st (.next slotId) now).work.work.handed = st.work.work.handed ++
      (Reply.decision (t.mail.coordinator.next st.work.work.state slotId).result).handed := rfl

/-- A preparation that fails leaves no claim behind, exactly if the transport of a claimed slot
is found whenever it is looked up. -/
theorem failed_prepare_leaves_no_claim (t : TeamSession) (prompts : WakePrompts)
    (st : SessionState) (slotId : String) (ports : PreparePorts) :
    t.LeavesNoClaim prompts st slotId ports ↔ t.TransportFound st slotId ports := by
  have hhanded := handed_prepareReconciled t st slotId ports
  cases hreconciled : t.prepareReconciled st slotId ports with
  | mk st' result =>
    rw [hreconciled] at hhanded
    cases result with
    | error e =>
      have hout : t.prepareNextBatch prompts st slotId ports = (st', .error e) := by
        simp only [prepareNextBatch, hreconciled]
      refine iff_of_true (fun e' _ b hb => ?_) fun st₁ found batch heq => ?_
      · rw [hout, claimedSince, hhanded, List.drop_length] at hb
        cases hb
      · cases hreconciled.symm.trans heq
    | ok found =>
      obtain ⟨agent, unread⟩ := found
      have hout : t.prepareNextBatch prompts st slotId ports =
          t.prepareDecided prompts st' slotId agent unread ports := by
        simp only [prepareNextBatch, hreconciled]
      have hfound : t.TransportFound st slotId ports ↔ ∀ batch,
          (t.mail.coordinator.next st'.work.work.state slotId).result = .claim batch →
            ports.listTasks.isOk → ports.needsRolePrompt → ports.toolTransport.isOk := by
        simp only [TransportFound, hreconciled, Prod.mk.injEq, Except.ok.injEq, and_imp]
        constructor
        · intro h batch
          exact h st' (agent, unread) batch rfl rfl
        · rintro h st₁ found batch rfl -
          exact h batch
      rw [hfound, LeavesNoClaim, hout]
      simp only [prepareDecided]
      cases hdecision : (t.mail.coordinator.next st'.work.work.state slotId).result with
      | settleSignals intentIds | waitingForCompletion | blocked _ | quiescent =>
        refine iff_of_true (fun e he => ?_) fun batch heq => ?_
        · cases he
        · cases heq
      | claim batch =>
        have hclaimed : (t.operate st' (.next slotId) ports.now).work.work.handed =
            st.work.work.handed ++ [batch] := by
          rw [handed_next, hdecision, hhanded]
          rfl
        simp only [prepareClaimed]
        cases htasks : ports.listTasks with
        | error e =>
          refine iff_of_true (fun e' _ b hb => ?_) fun _ _ htasks => (by cases htasks)
          have hretried : (t.operate (t.operate st' (.next slotId) ports.now) (.retryStart batch)
              ports.now).work.work.handed = st.work.work.handed ++ [batch] :=
            (List.append_nil _).trans hclaimed
          rw [claimedSince, hretried, List.drop_left, List.mem_singleton] at hb
          obtain rfl := hb
          obtain ⟨hnone, hqueued, b', hnext, hids⟩ :=
            SlotWorkCoordinator.retryStart_of_claimed hdecision
          refine ⟨fun hheld => ?_, fun i hi => ⟨hqueued i hi, b', hnext, hids ▸ hi⟩⟩
          cases hnone.symm.trans hheld
        | ok tasks =>
          cases hneeds : ports.needsRolePrompt with
          | false =>
            exact iff_of_true (fun e he => by cases he) fun _ _ _ hneeds => (by cases hneeds)
          | true =>
            cases htransport : ports.toolTransport with
            | ok transport =>
              exact iff_of_true (fun e he => by cases he) fun _ _ _ _ => rfl
            | error e =>
              -- the claim stays, and the slot is held by it
              refine iff_of_false (fun hleaves => ?_) fun h => ?_
              · have hmem : batch ∈ claimedSince st
                    (t.operate st' (.next slotId) ports.now) := by
                  rw [claimedSince, hclaimed, List.drop_left]
                  exact List.mem_singleton_self _
                exact (hleaves e rfl batch hmem).1
                  (SlotWorkCoordinator.batchOf_of_claimed hdecision).1
              · cases h batch rfl rfl rfl

/-- The backend of the worker has no transport for the tools of the team. -/
def samplePorts : PreparePorts where
  markRead := none
  peekUnread := none
  listTasks := .ok []
  needsRolePrompt := true
  toolTransport := .error
    (.invalidRequest "agent backend is not eligible for Team transport: custom")
  assistants := []
  now := 1
  order := .stored

/-- The worker claims the message of the user, and the error leaves it with the claim. -/
theorem missing_transport_keeps_claim :
    ∃ st : SessionState, sample.wiring.machine.Reachable st.work ∧
      ¬sample.LeavesNoClaim ⟨fun _ _ _ _ => "", fun _ _ _ _ => ""⟩ st "worker" samplePorts := by
  refine ⟨{ sampleState with mailbox := [⟨"m", "team", "worker", "user", false, 0⟩] },
    Machine.reachable_run rfl (by decide), fun hleaves => ?_⟩
  have hbatch := hleaves
    (.invalidRequest "agent backend is not eligible for Team transport: custom") (by decide)
    ⟨"xxx", "session", "worker", ["xx"], ["m"], .foreground, ["r"], 1⟩ (by decide)
  exact hbatch.1 (by decide)

end TeamSession

end AionCore.Team
