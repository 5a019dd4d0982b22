import AionCore.Team.RunCompletion
import AionCore.Team.TeamSession
import AionCore.Team.WorkRemoval

/-!
# What a removed member leaves behind

`TeamSession::remove_agent` takes the member out of the coordinator and leaves nothing of its
work if the coordinator has heard of the slot. `TeamSessionService::remove_agent` never tells
the coordinator, so that it leaves nothing only where nothing was left to do.
-/

namespace AionCore.Team

theorem SlotState.prefix_pushBack (slot : SlotState) (priority : WorkPriority)
    (intentId : String) (p : WorkPriority) :
    slot.queue p <+: (slot.pushBack priority intentId).queue p := by
  rw [pushBack, queue_modifyQueue]
  split
  · exact List.prefix_append _ _
  · exact List.prefix_rfl

namespace CoordinatorState

/-- The work of the slots other than `t` is as it was, up to new intents that tell of a
change of membership. -/
structure KeepsOthers (s s' : CoordinatorState) (t : String) : Prop where
  intents : ∀ i x, s.intents.lookup i = some x →
    ∃ state, s'.intents.lookup i = some { x with state } ∧ (x.slotId ≠ t → state = x.state)
  new : ∀ i x, s'.intents.lookup i = some x → s.intents.lookup i = none →
    x.source = .teamMembershipChanged
  active : ∀ u, u ≠ t → s'.activeOf u = s.activeOf u
  queues : ∀ u, u ≠ t → ∀ p, s.queueOf u p <+: s'.queueOf u p

/-- Intents, batches and queues are as they were. -/
structure SameWork (s s' : CoordinatorState) : Prop where
  intents : s'.intents = s.intents
  active : ∀ u, s'.activeOf u = s.activeOf u
  queues : ∀ u p, s'.queueOf u p = s.queueOf u p

/-- Only slot `t` has work of the run, and it has some. -/
structure OnlyWorkOf (s : CoordinatorState) (t r : String) : Prop where
  some : ∃ i, s.OpenIntent r i
  only : ∀ i x, s.OpenIntent r i → s.intents.lookup i = .some x → x.slotId = t
  noLease : ¬s.HasLease r

variable {s s' s'' : CoordinatorState} {t : String}

namespace KeepsOthers

theorem trans (h : KeepsOthers s s' t) (h' : KeepsOthers s' s'' t) : KeepsOthers s s'' t where
  intents i x hx := by
    obtain ⟨state, hx', hstate⟩ := h.intents i x hx
    obtain ⟨state', hx'', hstate'⟩ := h'.intents i _ hx'
    exact ⟨state', hx'', fun ht => (hstate' ht).trans (hstate ht)⟩
  new i x hx hnone := by
    cases hmid : s'.intents.lookup i with
    | none => exact h'.new i x hx hmid
    | some y =>
      obtain ⟨state, hy, -⟩ := h'.intents i y hmid
      obtain rfl : { y with state } = x := Option.some.inj (hy.symm.trans hx)
      exact h.new i y hmid hnone
  active u hu := (h'.active u hu).trans (h.active u hu)
  queues u hu p := (h.queues u hu p).trans (h'.queues u hu p)

theorem of_sameWork (h : SameWork s s') : KeepsOthers s s' t where
  intents i x hx := ⟨x.state, by rw [h.intents, hx], fun _ => rfl⟩
  new i x hx hnone := by
    rw [h.intents, hnone] at hx
    cases hx
  active u _ := h.active u
  queues u _ p := by rw [h.queues]

end KeepsOthers

theorem SameWork.congr (hintents : s'.intents = s.intents) (hslots : s'.slots = s.slots) :
    SameWork s s' :=
  ⟨hintents, fun u => by rw [activeOf, hslots, activeOf],
    fun u p => by rw [queueOf, hslots, queueOf]⟩

theorem SameWork.trans (h : SameWork s s') (h' : SameWork s' s'') : SameWork s s'' :=
  ⟨h'.intents.trans h.intents, fun u => (h'.active u).trans (h.active u),
    fun u p => (h'.queues u p).trans (h.queues u p)⟩

theorem queueOf_putSlot (s : CoordinatorState) (u v : String) (slot : SlotState)
    (p : WorkPriority) :
    (s.putSlot u slot).queueOf v p = if v = u then slot.queue p else s.queueOf v p := by
  rw [queueOf, putSlot, Dict.lookup_insert']
  split <;> rfl

theorem queue_entrySlot (s : CoordinatorState) (u : String) (role : TeamRunTargetRole)
    (p : WorkPriority) : (s.entrySlot u role).queue p = s.queueOf u p := by
  rw [entrySlot, queueOf]
  cases s.slots.lookup u with
  | none => cases p <;> rfl
  | some slot => rfl

/-- Writing a slot back with the work that it had. -/
theorem sameWork_putSlot {u : String} {slot : SlotState} (role : TeamRunTargetRole)
    (hactive : slot.active = (s.entrySlot u role).active)
    (hqueue : ∀ p, slot.queue p = (s.entrySlot u role).queue p) :
    SameWork s (s.putSlot u slot) := by
  refine ⟨rfl, fun v => ?_, fun v p => ?_⟩
  · rw [activeOf_putSlot]
    split
    · rename_i hv
      rw [hactive, active_entrySlot, hv]
    · rfl
  · rw [queueOf_putSlot]
    split
    · rename_i hv
      rw [hqueue, queue_entrySlot, hv]
    · rfl

end CoordinatorState

namespace SlotWorkCoordinator

open CoordinatorState

variable {c : SlotWorkCoordinator} {s : CoordinatorState} {t : String}

theorem setRuntimeConstraint_sameWork (u : String) {constraint : RuntimeConstraint}
    (order : IterOrder WorkIntent) (h : constraintTerminalState constraint = none) :
    SameWork s (setRuntimeConstraint s u constraint order).state := by
  simp only [setRuntimeConstraint, h]
  exact sameWork_putSlot .teammate rfl fun p => by cases p <;> rfl

theorem acquireEnqueue_sameWork (bindEnqueue : EnqueueRequest → RunBinding)
    (request : EnqueueRequest) :
    SameWork s (c.acquireEnqueue s bindEnqueue request).state := by
  have hput : SameWork s (s.putSlot request.slotId
      { s.entrySlot request.slotId request.role with role := request.role }) :=
    sameWork_putSlot request.role rfl fun p => by cases p <;> rfl
  simp only [acquireEnqueue]
  split
  · exact hput
  · exact hput.trans (.congr rfl rfl)

variable {lease : EnqueueLease}

/-- The commit of a notice of membership adds one intent at the end of a queue. -/
theorem commitEnqueue_keepsOthers {log : List String} (hlog : c.Logged s log)
    (hsource : lease.source = .teamMembershipChanged) (m : Option String) (now : TimestampMs) :
    KeepsOthers s (c.commitEnqueue s lease m now).state t := by
  rw [commitEnqueue]
  cases hcheck : c.checkCommit s lease m with
  | error e => exact .of_sameWork (.congr rfl rfl)
  | ok slot =>
    have hslot := slot_of_checkCommit c s hcheck
    have hfresh := hlog.absent
    refine ⟨fun i x hx => ⟨x.state, ?_, fun _ => rfl⟩, fun i x hx hnone => ?_, fun u _ => ?_,
      fun u _ p => ?_⟩
    · have hne : i ≠ (c.committedIntent s lease m now).intentId := by
        rintro rfl
        rw [committedIntent, hfresh] at hx
        cases hx
      rw [Dict.lookup_insert', if_neg hne, hx]
    · rw [Dict.lookup_insert'] at hx
      split at hx
      · obtain rfl := Option.some.inj hx
        exact hsource
      · rw [hnone] at hx
        cases hx
    · rw [activeOf, activeOf, Dict.lookup_insert']
      split
      · rename_i hu
        rw [hu, hslot]
        cases hr : lease.source.resumesPausedSlot <;>
          cases hp : (c.committedIntent s lease m now).priority <;> rfl
      · rfl
    · rw [queueOf, queueOf, Dict.lookup_insert']
      split
      · rename_i hu
        rw [hu, hslot]
        refine List.IsPrefix.trans ?_ (SlotState.prefix_pushBack _ _ _ p)
        cases hr : lease.source.resumesPausedSlot <;> cases p <;> exact List.prefix_rfl
      · exact List.prefix_rfl

/-- `remove_slot` ends the work of its slot only. -/
theorem removeSlot_keepsOthers (hL : s.ledger.Coherent) (hk : s.Keyed) (t : String) :
    KeepsOthers s (removeSlot s t).state t := by
  simp only [removeSlot, cancelListed_removed hL hk t]
  refine ⟨fun i x hx => ?_, fun i x hx hnone => ?_, fun u hu => ?_, fun u hu p => ?_⟩
  · rw [modifySlot, lookup_setIntentStates, hx]
    split
    · rename_i hlisted
      refine ⟨_, rfl, fun ht => ?_⟩
      obtain ⟨y, hy, hyt, -⟩ := (mem_removedIntentIds hL hk t).mp hlisted
      obtain rfl : x = y := Option.some.inj (hx.symm.trans hy)
      exact absurd hyt ht
    · exact ⟨x.state, rfl, fun _ => rfl⟩
  · rw [modifySlot, lookup_setIntentStates, hnone] at hx
    split at hx <;> cases hx
  · rw [activeOf_modifySlot, if_neg hu]
    rfl
  · simp only [queueOf, modifySlot, Dict.lookup_modify, if_neg hu]
    exact List.prefix_rfl

theorem removeSlot_of_unknown (hL : s.ledger.Coherent) (hk : s.Keyed)
    (h : s.slots.lookup t = none) : (removeSlot s t).state.slots.lookup t = none := by
  simp only [removeSlot, cancelListed_removed hL hk t, modifySlot, Dict.lookup_modify, if_true,
    setIntentStates, h, Option.map_none]

/-- The batch that `remove_slot` reports for cancellation is the active one. -/
theorem cancelTarget_removeSlot {work : RemoveWorkResult}
    (h : (removeSlot s t).result = some work) :
    work.cancelTarget = (s.activeOf t).map fun active => ⟨active.batch, active.turnId⟩ := by
  simp only [removeSlot] at h
  split at h
  · cases h
  · rw [← Option.some.inj h]

theorem gateOf_setRuntimeConstraint (u v : String) (constraint : RuntimeConstraint)
    (order : IterOrder WorkIntent) :
    (setRuntimeConstraint s u constraint order).state.gateOf v =
      if v = u then
        some ⟨(s.entrySlot u .teammate).removed, (s.entrySlot u .teammate).paused, constraint⟩
      else s.gateOf v := by
  simp only [setRuntimeConstraint]
  split
  · rw [gateOf_putSlot]
    rfl
  · simp only [gateOf_putSlot, SlotState.gate_foldl_pushBack]
    split
    · rfl
    · rename_i hv
      change (s.putSlot u _).gateOf v = _
      rw [gateOf_putSlot, if_neg hv]

variable {bindEnqueue : EnqueueRequest → RunBinding} {request : EnqueueRequest}

theorem gateOf_acquireEnqueue (h : t ≠ request.slotId) :
    (c.acquireEnqueue s bindEnqueue request).state.gateOf t = s.gateOf t := by
  have hput : ∀ slot, (s.putSlot request.slotId slot).gateOf t = s.gateOf t := fun slot => by
    rw [gateOf_putSlot, if_neg h]
  simp only [acquireEnqueue]
  split
  · exact hput _
  · exact hput _

theorem gateOf_commitEnqueue (h : t ≠ lease.slotId) (m : Option String) (now : TimestampMs) :
    (c.commitEnqueue s lease m now).state.gateOf t = s.gateOf t := by
  rw [commitEnqueue]
  split
  · rfl
  · rw [gateOf, gateOf, Dict.lookup_insert', if_neg h]

theorem constraint_of_validate {slot : SlotState} (h : validateEnqueueConstraint t slot = .ok ()) :
    constraintTerminalState slot.runtimeConstraint = none := by
  unfold validateEnqueueConstraint at h
  split at h
  · cases h
  · cases hconstraint : slot.runtimeConstraint with
    | ready | starting _ => rfl
    | failed _ _ | removing _ | sessionStopped =>
      rw [hconstraint] at h
      cases h

/-- A slot that lets a lease in is under no constraint that ends work. -/
theorem constraint_of_acquire {g : Gate}
    (h : (c.acquireEnqueue s bindEnqueue request).result = .ok lease)
    (hg : s.gateOf request.slotId = some g) : constraintTerminalState g.constraint = none := by
  obtain ⟨slot, hslot, rfl⟩ := exists_of_gateOf hg
  cases hvalid : validateEnqueueConstraint request.slotId { slot with role := request.role } with
  | error e =>
    simp only [acquireEnqueue, entrySlot_of_lookup hslot, hvalid] at h
    cases h
  | ok u =>
    have hconstraint := constraint_of_validate hvalid
    exact hconstraint

theorem lease_of_acquire (h : (c.acquireEnqueue s bindEnqueue request).result = .ok lease) :
    lease.slotId = request.slotId ∧ lease.source = request.source := by
  simp only [acquireEnqueue] at h
  split at h
  · cases h
  · rw [← Except.ok.inj h]
    exact ⟨rfl, rfl⟩

variable {w w' : Tracked}

theorem Sound.activeOf_of_retired (hw : c.Sound w) (h : w.state.Retired t) :
    w.state.activeOf t = none := by
  cases ha : w.state.activeOf t with
  | none => rfl
  | some active =>
    have hb : w.state.batchOf t = some active.batch := by rw [batchOf, ha, Option.map_some]
    have hne := (hw.describes _ (hw.fenced.held t _ hb).1).nonempty
    obtain ⟨i, hi⟩ := List.exists_mem_of_ne_nil _ hne
    obtain ⟨x, hx, ht, hp⟩ := lookup_of_active hw.coherent ha hi
    have hterminal := h.ended i x hx ht
    rw [← WorkIntentState.isDone_phase, hp] at hterminal
    cases hterminal

/-- A removed slot gets no lease ever after. -/
theorem refused_of_removed (hr : c.machine.Reaches w w')
    (h : ∃ g, w.state.gateOf t = some g ∧ g.removed) (bindEnqueue : EnqueueRequest → RunBinding)
    (ht : request.slotId = t) :
    ∃ e, (c.acquireEnqueue w'.state bindEnqueue request).result = .error e := by
  have hremoved : ∃ g, w'.state.gateOf t = some g ∧ g.removed := by
    refine hr.preserves (P := fun w => ∃ g, w.state.gateOf t = some g ∧ g.removed)
      (fun v call hv _ => ?_) h
    obtain ⟨g, hg, hremoved⟩ := hv
    obtain ⟨g', hg', hremoved', -⟩ := c.exec_keepsRemoved call.bindEnqueue call.op g hg hremoved
    exact ⟨g', hg', hremoved'⟩
  exact acquireEnqueue_of_removed hremoved bindEnqueue ht

/-- A slot that is not removed gets a lease once its runtime is reported ready. -/
theorem acquire_of_not_removed (w : Tracked)
    (h : ¬∃ g, w.state.gateOf t = some g ∧ g.removed) (request : EnqueueRequest)
    (ht : request.slotId = t) (bindEnqueue : EnqueueRequest → RunBinding) :
    ∃ w', c.machine.Reaches w w' ∧
      ∃ lease, (c.acquireEnqueue w'.state bindEnqueue request).result = .ok lease := by
  subst ht
  have hentry : (w.state.entrySlot request.slotId .teammate).removed = false := by
    rw [entrySlot]
    cases hslot : w.state.slots.lookup request.slotId with
    | none => rfl
    | some slot =>
      refine Bool.eq_false_iff.mpr fun hr => h ⟨slot.gate, ?_, hr⟩
      rw [gateOf, hslot, Option.map_some]
  refine ⟨_, .single ⟨⟨.setRuntimeConstraint request.slotId .ready .stored, bindEnqueue⟩,
    (fun b hb => by cases hb), rfl⟩, ?_⟩
  have hslot : (setRuntimeConstraint w.state request.slotId .ready .stored).state.slots.lookup
      request.slotId = some { w.state.entrySlot request.slotId .teammate with
        runtimeConstraint := .ready } := by
    simp [setRuntimeConstraint, constraintTerminalState, putSlot]
  change ∃ lease, (c.acquireEnqueue (setRuntimeConstraint w.state request.slotId .ready
    .stored).state bindEnqueue request).result = .ok lease
  simp only [acquireEnqueue, entrySlot_of_lookup hslot, validateEnqueueConstraint, hentry]
  exact ⟨_, rfl⟩

/-- The run whose only work the slot had is without work once the slot is removed, and its
summary is published. -/
theorem onlyWork_removeSlot (hw : c.Sound w) {r : String} (h : w.state.OnlyWorkOf t r)
    (hslot : (w.state.slots.lookup t).isSome) (bindEnqueue : EnqueueRequest → RunBinding) :
    ¬(c.fire w ⟨.removeSlot t, bindEnqueue⟩).state.HasWork r ∧
      (removeSlot w.state t).Publishes r := by
  have hretired := retired_removeSlot hw hslot bindEnqueue
  have hend : ∀ i, ¬(c.fire w ⟨.removeSlot t, bindEnqueue⟩).state.OpenIntent r i := by
    rintro i ⟨y, hy, hyr, hopen⟩
    cases hx : w.state.intents.lookup i with
    | none =>
      have hnew := (removeSlot_retains w.state t).enqueuedAs i
      change (removeSlot w.state t).state.intents.lookup i = some y at hy
      simp [enqueuedAs, hx, hy] at hnew
    | some x =>
      have hcall : c.machine.admits w ⟨.removeSlot t, bindEnqueue⟩ := fun b hb => by cases hb
      obtain ⟨state, hx', hend⟩ := hw.persists hcall hx
      obtain rfl : { x with state } = y := Option.some.inj (hx'.symm.trans hy)
      have hlive : x.state.isTerminal = false := by
        refine Bool.eq_false_iff.mpr fun hterminal => ?_
        rw [hend hterminal, hterminal] at hopen
        cases hopen
      have hterminal := hretired.ended i _ hy (h.only i x ⟨x, hx, hyr, hlive⟩ hx)
      rw [hopen] at hterminal
      cases hterminal
  constructor
  · rintro (hlease | ⟨i, hi⟩)
    · refine h.noLease ?_
      have hleases : (removeSlot w.state t).state.enqueueLeases = w.state.enqueueLeases :=
        c.exec_leases_eq w.state bindEnqueue (.removeSlot t) rfl
      rwa [HasLease, ← hleases]
    · exact hend i hi
  · obtain ⟨i, hi⟩ := h.some
    exact (removeSlot_openIntent hw.coherent hw.keyed t hi).resolve_left (hend i)

end SlotWorkCoordinator

namespace TeamSession

open CoordinatorState SlotWorkCoordinator

variable (t : TeamSession)

/-- Nothing of the member is left behind, and the other members keep their work. An enqueue
lease is work of whoever enqueues. -/
structure LeavesNothing (before after : SessionState) (slotId : String) : Prop where
  ended : ∀ i x, after.work.work.state.intents.lookup i = some x → x.slotId = slotId →
    x.state.isTerminal
  idle : after.work.work.state.activeOf slotId = none
  refused : ∀ w, t.mail.coordinator.machine.Reaches after.work.work w →
    ∀ bindEnqueue request, request.slotId = slotId →
      ∃ e, (t.mail.coordinator.acquireEnqueue w.state bindEnqueue request).result = .error e
  cancelled : ∀ active turnId, before.work.work.state.activeOf slotId = some active →
    active.turnId = some turnId → ∃ agent ∈ before.scheduler, agent.slotId = slotId ∧
      after.cancelledTurns = before.cancelledTurns ++ [(agent.conversationId, turnId)]
  runs : ∀ r, before.work.work.state.OnlyWorkOf slotId r → after.work.runs.Closed r
  scheduler : ∀ agent ∈ after.scheduler, agent.slotId ≠ slotId
  eventLoops : slotId ∉ after.eventLoops
  others : KeepsOthers before.work.work.state after.work.work.state slotId

/-- The coordinator hears of the slot before it removes it. -/
def Knows (st : SessionState) (slotId : String) : Prop :=
  (st.work.work.state.slots.lookup slotId).isSome ∨
    ∃ lease, (st.memberRuntimes.beginRemove slotId).2 = .start lease

variable {t} {st st' : SessionState} {slotId : String} {now : TimestampMs}

theorem LeavesNothing.removed (h : t.LeavesNothing st st' slotId) :
    ∃ g, st'.work.work.state.gateOf slotId = some g ∧ g.removed := by
  by_contra hnot
  obtain ⟨w, hw, lease, hlease⟩ := acquire_of_not_removed _ hnot
    ⟨slotId, .teammate, .userMessage, .background⟩ rfl fun _ => ⟨none, false, false⟩
  obtain ⟨e, he⟩ := h.refused w hw (fun _ => ⟨none, false, false⟩)
    ⟨slotId, .teammate, .userMessage, .background⟩ rfl
  rw [hlease] at he
  cases he

variable {slots : Scheduler} {agent : TeamAgent}

theorem getAgent_ok (h : slots.getAgent slotId = .ok agent) :
    agent ∈ slots ∧ agent.slotId = slotId := by
  rw [Scheduler.getAgent] at h
  split at h
  · rename_i found hfound
    obtain rfl := Except.ok.inj h
    exact ⟨List.mem_of_find?_eq_some hfound, by simpa using List.find?_some hfound⟩
  · cases h

theorem finishRemove_eq (st : SessionState) (removal : BeginRemove) :
    ∃ memberRuntimes, finishRemove st removal = { st with memberRuntimes } := by
  cases removal <;> exact ⟨_, rfl⟩

theorem drop_of_removeAgent {slots' : Scheduler} {conversationId : Option String}
    (h : slots.removeAgent slotId = .ok (slots', conversationId)) : slots' = slots.drop slotId := by
  rw [Scheduler.removeAgent] at h
  split at h
  · exact (Prod.mk.inj (Except.ok.inj h)).1.symm
  · cases h

theorem slotId_of_mem_drop (h : agent ∈ slots.drop slotId) :
    agent.slotId ≠ slotId := by
  simpa using (List.mem_filter.mp h).2

theorem not_mem_removeLoop (st : SessionState) (slotId : String) :
    slotId ∉ (removeLoop st slotId).eventLoops := by
  intro hmem
  simpa using (List.mem_filter.mp hmem).2

theorem cancelTurn_ok {target : Option BatchCancelTarget}
    (h : cancelTurn st slotId target = .ok st') :
    ∃ cancelledTurns, st' = { st with cancelledTurns } ∧
      ∀ turnId, target.bind (·.turnId) = some turnId → ∃ agent ∈ st.scheduler,
        agent.slotId = slotId ∧
          cancelledTurns = st.cancelledTurns ++ [(agent.conversationId, turnId)] := by
  rw [cancelTurn] at h
  split at h
  · rename_i hnone
    obtain rfl := Except.ok.inj h
    refine ⟨_, rfl, fun turnId hturn => ?_⟩
    rw [hnone] at hturn
    cases hturn
  · rename_i turnId hturn
    cases hagent : st.scheduler.getAgent slotId with
    | error e =>
      rw [hagent] at h
      cases h
    | ok agent =>
      rw [hagent] at h
      obtain rfl := Except.ok.inj h
      obtain ⟨hmem, hslot⟩ := getAgent_ok hagent
      refine ⟨_, rfl, fun turnId' hturn' => ⟨agent, hmem, hslot, ?_⟩⟩
      rw [hturn] at hturn'
      rw [Option.some.inj hturn']

/-- What the last part of `TeamSession::remove_agent` has done when it has succeeded. -/
theorem detach_ok {removal : BeginRemove} {work : RemoveWorkResult}
    (h : detach st slotId removal work = (st', .ok ())) :
    st'.work = st.work ∧ slotId ∉ st'.eventLoops ∧
      (∀ agent ∈ st'.scheduler, agent.slotId ≠ slotId) ∧
      ∀ turnId, work.cancelTarget.bind (·.turnId) = some turnId →
        ∃ agent ∈ st.scheduler, agent.slotId = slotId ∧
          st'.cancelledTurns = st.cancelledTurns ++ [(agent.conversationId, turnId)] := by
  simp only [detach] at h
  split at h
  · cases h
  · rename_i cancelled hcancel
    split at h
    · cases h
    · rename_i scheduler conversationId hremove
      obtain ⟨cancelledTurns, rfl, hturns⟩ := cancelTurn_ok hcancel
      obtain rfl := drop_of_removeAgent hremove
      obtain ⟨rfl, -⟩ := Prod.mk.inj h
      obtain ⟨memberRuntimes, hfinish⟩ := finishRemove_eq (conversationId.elim _ _) removal
      rw [hfinish]
      cases conversationId
      all_goals exact ⟨rfl, not_mem_removeLoop _ slotId, fun _ hagent => slotId_of_mem_drop hagent,
        hturns⟩

def constrained (t : TeamSession) (st : SessionState) (slotId : String) (now : TimestampMs) :
    SessionState :=
  t.constrainRemoving { st with memberRuntimes := (st.memberRuntimes.beginRemove slotId).1 } slotId
    now (st.memberRuntimes.beginRemove slotId).2

/-- `TeamSession::remove_agent` succeeds through `remove_slot` and its last part. -/
theorem removeAgent_cases (h : (t.removeAgent st slotId now).2 = some (.ok ())) :
    ∃ removal work, (removeSlot (t.constrained st slotId now).work.work.state slotId).result =
        some work ∧
      detach (t.operate (t.constrained st slotId now) (.removeSlot slotId) now) slotId removal
        work = ((t.removeAgent st slotId now).1, .ok ()) := by
  unfold removeAgent at h ⊢
  split at h
  · cases h
  · rename_i memberRuntimes removal hjoin hbegin
    have hconstrained : t.constrained st slotId now =
        t.constrainRemoving { st with memberRuntimes } slotId now removal := by
      rw [constrained, hbegin]
    rw [hconstrained]
    cases hwork : (removeSlot (t.constrainRemoving { st with memberRuntimes } slotId now
        removal).work.work.state slotId).result with
    | none =>
      simp only [hwork] at h
      cases h
    | some work =>
      simp only [hwork] at h ⊢
      exact ⟨removal, work, rfl, Prod.ext rfl (Option.some.inj h)⟩

theorem OnlyWorkOf.congr {s s' : CoordinatorState} {r : String} (h : s.OnlyWorkOf slotId r)
    (hintents : s'.intents = s.intents) (hleases : s'.enqueueLeases = s.enqueueLeases) :
    s'.OnlyWorkOf slotId r where
  some := by
    obtain ⟨i, hi⟩ := h.some
    exact ⟨i, by rwa [OpenIntent, hintents]⟩
  only i x hi hx := by
    rw [hintents] at hx
    rw [OpenIntent, hintents] at hi
    exact h.only i x hi hx
  noLease := by
    rw [HasLease, hleases]
    exact h.noLease

/-- Publishing the removal changes no work; after it the coordinator has the slot if it is to
know of it. -/
theorem constrained_spec (st : SessionState) (slotId : String) (now : TimestampMs) :
    SameWork st.work.work.state (t.constrained st slotId now).work.work.state ∧
      (t.constrained st slotId now).work.work.state.enqueueLeases =
        st.work.work.state.enqueueLeases ∧
      (t.constrained st slotId now).scheduler = st.scheduler ∧
      (t.constrained st slotId now).cancelledTurns = st.cancelledTurns ∧
      t.mail.coordinator.machine.Reaches st.work.work (t.constrained st slotId now).work.work ∧
      (((t.constrained st slotId now).work.work.state.slots.lookup slotId).isSome ↔
        Knows st slotId) := by
  rw [constrained, Knows]
  cases hbegin : (st.memberRuntimes.beginRemove slotId).2 with
  | start lease =>
    refine ⟨setRuntimeConstraint_sameWork slotId .stored rfl, rfl, rfl, rfl,
      .single ⟨t.wiring.callOf st.work (.setRuntimeConstraint slotId (.removing lease.operationId)
        .stored), (fun b hb => by cases hb), rfl⟩, ?_⟩
    refine iff_of_true ?_ (.inr ⟨lease, rfl⟩)
    change ((setRuntimeConstraint st.work.work.state slotId (.removing lease.operationId)
      .stored).state.slots.lookup slotId).isSome
    simp [setRuntimeConstraint, constraintTerminalState, putSlot]
  | join _ | absent | sessionStopped =>
    refine ⟨.congr rfl rfl, rfl, rfl, rfl, .refl, ?_⟩
    simp only [reduceCtorEq, exists_false, or_false]
    rfl

/-- The session's own removal leaves nothing exactly if the coordinator knows the slot. -/
theorem removeAgent_leaves_iff (hst : t.wiring.machine.Reachable st.work)
    (hok : (t.removeAgent st slotId now).2 = some (.ok ())) :
    t.LeavesNothing st (t.removeAgent st slotId now).1 slotId ↔ Knows st slotId := by
  obtain ⟨removal, work, hresult, hdetach⟩ := removeAgent_cases hok
  obtain ⟨hwork, hloops, hscheduler, hturns⟩ := detach_ok hdetach
  obtain ⟨hsame, hleases, hagents, hcancelled, hreaches, hknows⟩ :=
    constrained_spec (t := t) st slotId now
  set st₁ := t.constrained st slotId now with hst₁
  have hreachable : t.mail.coordinator.machine.Reachable st₁.work.work :=
    (TeamWork.work_reachable hst).trans hreaches
  have hsound := sound_of_reachable hreachable
  have hafter : (t.removeAgent st slotId now).1.work.work =
      t.mail.coordinator.fire st₁.work.work (t.wiring.callOf st₁.work (.removeSlot slotId)) :=
    congrArg Wired.work hwork
  rw [← hknows]
  constructor
  · intro hleaves
    by_contra hunknown
    -- the coordinator does not have the slot after the removal either
    have habsent : (t.removeAgent st slotId now).1.work.work.state.slots.lookup slotId = none := by
      rw [hafter]
      exact removeSlot_of_unknown hsound.coherent hsound.keyed
        (Option.not_isSome_iff_eq_none.mp hunknown)
    obtain ⟨g, hg, -⟩ := hleaves.removed
    rw [gateOf, habsent] at hg
    cases hg
  · intro hslot
    have hretired : (t.removeAgent st slotId now).1.work.work.state.Retired slotId := by
      rw [hafter]
      exact retired_removeSlot hsound hslot _
    have hend : t.mail.coordinator.Sound (t.removeAgent st slotId now).1.work.work := by
      rw [hafter]
      exact sound_of_reachable (hreachable.fire fun b hb => by cases hb)
    refine ⟨hretired.ended, hend.activeOf_of_retired hretired, fun w hw bindEnqueue request ht =>
      refused_of_removed hw hretired.removed bindEnqueue ht, fun active turnId ha hturn => ?_,
      fun r hr => ?_, hscheduler, hloops, ?_⟩
    · rw [← hagents, ← hcancelled]
      refine hturns turnId ?_
      rw [cancelTarget_removeSlot hresult, hsame.active, ha]
      exact hturn
    · obtain ⟨hno, hpublished⟩ := onlyWork_removeSlot hsound
        (OnlyWorkOf.congr hr hsame.intents hleases) hslot
        (t.wiring.callOf st₁.work (.removeSlot slotId)).bindEnqueue
      rw [hwork]
      exact TeamWork.closed_of_operation hno (.inr hpublished)
    · rw [hafter]
      exact (KeepsOthers.of_sameWork hsame).trans
        (removeSlot_keepsOthers hsound.coherent hsound.keyed slotId)

variable (t) in
/-- What a notice to another slot leaves as it is. -/
structure SparesSlot (before after : SessionState) (lead : String) : Prop where
  reaches : t.mail.coordinator.machine.Reaches before.work.work after.work.work
  keeps : ∀ u, KeepsOthers before.work.work.state after.work.work.state u
  gates : ∀ u, u ≠ lead →
    after.work.work.state.gateOf u = before.work.work.state.gateOf u
  retired : ∀ u, before.work.work.state.Retired u → after.work.work.state.Retired u
  scheduler : after.scheduler = before.scheduler
  eventLoops : after.eventLoops = before.eventLoops
  cancelledTurns : after.cancelledTurns = before.cancelledTurns

variable {lead : String}

theorem SparesSlot.trans {st'' : SessionState} (h : t.SparesSlot st st' lead)
    (h' : t.SparesSlot st' st'' lead) : t.SparesSlot st st'' lead where
  reaches := h.reaches.trans h'.reaches
  keeps u := (h.keeps u).trans (h'.keeps u)
  gates u hu := (h'.gates u hu).trans (h.gates u hu)
  retired u hu := h'.retired u (h.retired u hu)
  scheduler := h'.scheduler.trans h.scheduler
  eventLoops := h'.eventLoops.trans h.eventLoops
  cancelledTurns := h'.cancelledTurns.trans h.cancelledTurns

theorem operate_spares (hst : t.mail.coordinator.machine.Reachable st.work.work)
    (now : TimestampMs) {op : Op} (hbatch : op.batch? = none)
    (hop : ∀ u unread role now, op ≠ .reconcileMailbox u unread role now)
    (hkeeps : ∀ u, KeepsOthers st.work.work.state (t.wiring.outcomeOf st.work op).state u)
    (hgates : ∀ u, u ≠ lead →
      (t.wiring.outcomeOf st.work op).state.gateOf u = st.work.work.state.gateOf u) :
    t.SparesSlot st (t.operate st op now) lead := by
  have hadmits : t.mail.coordinator.machine.admits st.work.work (t.wiring.callOf st.work op) := by
    intro b hb
    change b ∈ op.batch? at hb
    rw [hbatch] at hb
    cases hb
  refine ⟨.single ⟨t.wiring.callOf st.work op, hadmits, rfl⟩, hkeeps, hgates, fun u hu => ?_, rfl,
    rfl, rfl⟩
  exact retired_step hu (sound_of_reachable hst) hadmits
    fun unread role now hop' => absurd hop' (hop u unread role now)

theorem publish_spares (hst : t.mail.coordinator.machine.Reachable st.work.work)
    (now : TimestampMs) (order : IterOrder WorkIntent)
    (h : constraintTerminalState (runtimeConstraint st lead) = none) :
    t.SparesSlot st (t.publishRuntimeConstraint st lead now order) lead := by
  have hoperate : t.SparesSlot st
      (t.operate st (.setRuntimeConstraint lead (runtimeConstraint st lead) order) now) lead := by
    refine operate_spares hst now rfl (fun _ _ _ _ h => by cases h) (fun u => ?_) fun u hu => ?_
    · exact .of_sameWork (setRuntimeConstraint_sameWork lead order h)
    · exact (gateOf_setRuntimeConstraint lead u _ order).trans (if_neg hu)
  -- marking messages read is not work
  exact ⟨hoperate.reaches, hoperate.keeps, hoperate.gates, hoperate.retired, rfl, rfl, rfl⟩

variable {order : IterOrder WorkIntent}

/-- The notice gives the lead's slot work, and no other slot. -/
theorem enqueueExistingWork_spares {m : String} {binding : CausalBinding}
    (hst : t.mail.coordinator.machine.Reachable st.work.work)
    (h : t.enqueueExistingWork st lead .teamMembershipChanged m binding now order = (st', .ok ())) :
    (∃ agent ∈ st.scheduler, agent.slotId = lead) ∧ t.SparesSlot st st' lead := by
  simp only [enqueueExistingWork] at h
  split at h
  · cases h
  · rename_i agent hagent
    split at h
    · cases h
    · rename_i st₂ lease hacquire
      split at h
      · rename_i st₃ commit hcommit
        obtain ⟨rfl, -⟩ := Prod.mk.inj h
        obtain ⟨rfl, hlease⟩ := Prod.mk.inj hacquire
        obtain ⟨rfl, -⟩ := Prod.mk.inj hcommit
        obtain ⟨hmem, hslot⟩ := getAgent_ok hagent
        refine ⟨⟨agent, hmem, hslot⟩, ?_⟩
        obtain ⟨hleaseSlot, hleaseSource⟩ := lease_of_acquire hlease
        -- the lead's slot has let the lease in, so its constraint has ended no work
        have hconstraint : constraintTerminalState (runtimeConstraint st lead) = none :=
          constraint_of_acquire (g := ⟨_, _, runtimeConstraint st lead⟩) hlease (by
            change (setRuntimeConstraint st.work.work.state lead (runtimeConstraint st lead)
              order).state.gateOf lead = _
            rw [gateOf_setRuntimeConstraint, if_pos rfl])
        have hpublish := publish_spares hst now order hconstraint
        let request : EnqueueRequest :=
          ⟨lead, agent.role.target, .teamMembershipChanged, binding⟩
        let published := t.publishRuntimeConstraint st lead now order
        have hacquired : t.SparesSlot published
            (t.operate published (.acquireEnqueue request) now) lead :=
          operate_spares (hst.trans hpublish.reaches) now rfl (fun _ _ _ _ h => by cases h)
            (fun u => .of_sameWork (acquireEnqueue_sameWork _ _))
            fun u hu => gateOf_acquireEnqueue hu
        have hreachable := hst.trans (hpublish.trans hacquired).reaches
        refine (hpublish.trans hacquired).trans (operate_spares hreachable now rfl
          (fun _ _ _ _ h => by cases h) (fun u => ?_) fun u hu => ?_)
        · exact commitEnqueue_keepsOthers (sound_of_reachable hreachable).logged hleaseSource _ _
        · exact gateOf_commitEnqueue (by rwa [hleaseSlot]) _ _
      · cases h

/-- The session when the service has removed the member and is about to tell the lead. -/
structure Detached (before after : SessionState) (slotId : String) : Prop where
  work : after.work = before.work
  scheduler : after.scheduler = before.scheduler.drop slotId
  eventLoops : slotId ∉ after.eventLoops
  cancelledTurns : after.cancelledTurns = before.cancelledTurns

variable {agents : List TeamAgent}

/-- `TeamSessionService::remove_agent` succeeds through the notice to the lead. -/
theorem serviceRemoveAgent_cases
    (h : (t.serviceRemoveAgent agents st slotId now order).2 = some (.ok ())) :
    ∃ st₁, Detached st st₁ slotId ∧ t.notifyLeaderMembershipRemoved st₁ now order =
      ((t.serviceRemoveAgent agents st slotId now order).1.2, .ok ()) := by
  simp only [serviceRemoveAgent] at h ⊢
  split at h
  · cases h
  · rename_i removed hfound
    split at h
    · cases h
    · rename_i hrole
      split at h
      · cases h
      · rename_i memberRuntimes removal hjoin hbegin
        set st₁ : SessionState := { kill (removeLoop (kill (removeLoop { st with memberRuntimes }
          slotId) removed.conversationId) slotId) removed.conversationId with
            scheduler := st.scheduler.drop slotId } with hst₁
        obtain ⟨runtimes, hfinish⟩ := finishRemove_eq st₁ removal
        refine ⟨finishRemove st₁ removal, ?_, Prod.ext ?_ (Option.some.inj h)⟩
        · rw [hfinish]
          exact ⟨rfl, rfl, not_mem_removeLoop _ slotId, rfl⟩
        · rw [if_neg hrole]
          rfl

/-- The lead that is told is another member. -/
theorem notify_spares (hst : t.mail.coordinator.machine.Reachable st.work.work)
    (hne : ∀ agent ∈ st.scheduler, agent.slotId ≠ slotId)
    (h : t.notifyLeaderMembershipRemoved st now order = (st', .ok ())) :
    ∃ lead, slotId ≠ lead ∧ t.SparesSlot st st' lead := by
  simp only [notifyLeaderMembershipRemoved] at h
  split at h
  · cases h
  · rename_i lead hlead
    obtain ⟨⟨agent, hagent, rfl⟩, hspares⟩ := enqueueExistingWork_spares
      (by exact hst) h
    refine ⟨agent.slotId, (hne agent hagent).symm, ?_⟩
    -- the notice in the mailbox is not work yet
    exact ⟨hspares.reaches, hspares.keeps, hspares.gates, hspares.retired, hspares.scheduler,
      hspares.eventLoops, hspares.cancelledTurns⟩

/-- The service's removal leaves nothing exactly if nothing of the slot was left before. -/
theorem serviceRemoveAgent_leaves_iff (hst : t.wiring.machine.Reachable st.work)
    (hok : (t.serviceRemoveAgent agents st slotId now order).2 = some (.ok ())) :
    t.LeavesNothing st (t.serviceRemoveAgent agents st slotId now order).1.2 slotId ↔
      st.work.work.state.Retired slotId := by
  have hreachable : t.mail.coordinator.machine.Reachable st.work.work := TeamWork.work_reachable hst
  obtain ⟨st₁, hdetached, hnotify⟩ := serviceRemoveAgent_cases hok
  have hagents : ∀ agent ∈ st₁.scheduler, agent.slotId ≠ slotId := by
    rw [hdetached.scheduler]
    exact fun _ hagent => slotId_of_mem_drop hagent
  obtain ⟨lead, hlead, hspares⟩ := notify_spares (by rwa [hdetached.work]) hagents hnotify
  set st' := (t.serviceRemoveAgent agents st slotId now order).1.2
  have hkeeps := hspares.keeps
  have hgate := hspares.gates slotId hlead
  rw [hdetached.work] at hkeeps hgate
  constructor
  · intro hleaves
    refine ⟨?_, fun i x hx hslot => ?_⟩
    · rw [← hgate]
      exact hleaves.removed
    · obtain ⟨state, hx', hstate⟩ := (hkeeps lead).intents i x hx
      have hterminal := hleaves.ended i _ hx' hslot
      rwa [← hstate (by rwa [hslot])]
  · intro hretired
    have hafter : st'.work.work.state.Retired slotId :=
      hspares.retired slotId (by rwa [hdetached.work])
    have hsound : t.mail.coordinator.Sound st'.work.work := by
      have hreaches := hspares.reaches
      rw [hdetached.work] at hreaches
      exact sound_of_reachable (hreachable.trans hreaches)
    refine ⟨hafter.ended, hsound.activeOf_of_retired hafter, fun w hw bindEnqueue request ht =>
      refused_of_removed hw hafter.removed bindEnqueue ht, fun active turnId ha _ => ?_,
      fun r hr => ?_, ?_, ?_, hkeeps slotId⟩
    · rw [(sound_of_reachable hreachable).activeOf_of_retired hretired] at ha
      cases ha
    · obtain ⟨i, hi⟩ := hr.some
      obtain ⟨x, hx, -, hopen⟩ := id hi
      have hterminal := hretired.ended i x hx (hr.only i x hi hx)
      rw [hopen] at hterminal
      cases hterminal
    · rw [hspares.scheduler]
      exact hagents
    · rw [hspares.eventLoops]
      exact hdetached.eventLoops

/-- When a removal that has succeeded leaves nothing of the member: by the session exactly if
the coordinator knows the slot, by the service exactly if the slot has been retired before. -/
theorem removed_member_leaves_nothing (hst : t.wiring.machine.Reachable st.work) (slotId : String)
    (now : TimestampMs) :
    ((t.removeAgent st slotId now).2 = some (.ok ()) →
      (t.LeavesNothing st (t.removeAgent st slotId now).1 slotId ↔ Knows st slotId)) ∧
    ∀ agents order, (t.serviceRemoveAgent agents st slotId now order).2 = some (.ok ()) →
      (t.LeavesNothing st (t.serviceRemoveAgent agents st slotId now order).1.2 slotId ↔
        st.work.work.state.Retired slotId) :=
  ⟨removeAgent_leaves_iff hst, fun _ _ => serviceRemoveAgent_leaves_iff hst⟩

/-- The session of a lead and a worker. -/
def sample : TeamSession :=
  ⟨⟨.sample, "team", .tallyOf 'm'⟩, ⟨"team", .tallyOf 'r'⟩⟩

def sampleAgents : List TeamAgent :=
  [⟨"lead", "Lead", .lead, "conversation-1"⟩, ⟨"worker", "Worker", .teammate, "conversation-2"⟩]

/-- The worker is ready, and a message of the user is queued for it in run `r`. -/
def sampleState : SessionState where
  work := sample.wiring.machine.run .empty
    [.operate (.setRuntimeConstraint "worker" .ready .stored),
      .operate (.acquireEnqueue ⟨"worker", .teammate, .userMessage, .userVisible⟩),
      .operate (.commitEnqueue ⟨"x", "session", "worker", .teammate, .userMessage, some "r"⟩
        (some "m") 0), .deliver 0 0]
  memberRuntimes :=
    ((((MemberRuntimeRegistry.new "session").seedReady "lead").1).seedReady "worker").1
  scheduler := sampleAgents
  eventLoops := ["lead", "worker"]
  mailbox := []
  cancelledTurns := []
  killed := []

/-- Instance: both removals of the worker succeed. -/
theorem removed_member_leaves_nothing_sample :
    (sample.LeavesNothing sampleState (sample.removeAgent sampleState "worker" 0).1 "worker" ↔
      Knows sampleState "worker") ∧
    (sample.LeavesNothing sampleState
        (sample.serviceRemoveAgent sampleAgents sampleState "worker" 0 .stored).1.2 "worker" ↔
      sampleState.work.work.state.Retired "worker") :=
  have hreachable : sample.wiring.machine.Reachable sampleState.work :=
    Machine.reachable_run rfl (by decide)
  have h := removed_member_leaves_nothing hreachable "worker" 0
  ⟨h.1 (by decide), h.2 sampleAgents .stored (by decide)⟩

/-- The service removes the worker and leaves its queued intent in the coordinator. -/
theorem service_leaves_queued_intent :
    ∃ agents st slotId now order, sample.wiring.machine.Reachable st.work ∧
      (sample.serviceRemoveAgent agents st slotId now order).2 = some (.ok ()) ∧
      ¬sample.LeavesNothing st (sample.serviceRemoveAgent agents st slotId now order).1.2
        slotId := by
  refine ⟨sampleAgents, sampleState, "worker", 0, .stored, Machine.reachable_run rfl (by decide),
    by decide, fun hleaves => ?_⟩
  have hended := hleaves.ended "xx" ⟨"xx", "session", "worker", .teammate, .userMessage,
    .foreground, some "m", some "r", 0, .queued⟩ (by decide) rfl
  cases hended

end TeamSession

end AionCore.Team
