import AionCore.Team.WorkFrame

/-!
# After the session has stopped

What decides whether a slot lets work in is its gate: the removed flag, the paused flag
and the runtime constraint. `stop` shuts every gate there is, and the session stays stopped
exactly as long as no later call makes a new slot or opens a gate again.
-/

namespace AionCore.Team

def RuntimeConstraint.isOpen : RuntimeConstraint → Bool
  | .ready | .starting _ => true
  | _ => false

/-- Whether a slot lets work in, and why not. -/
structure Gate where
  removed : Bool
  paused : Bool
  constraint : RuntimeConstraint

def SlotState.gate (slot : SlotState) : Gate :=
  ⟨slot.removed, slot.paused, slot.runtimeConstraint⟩

def Gate.Shut (g : Gate) : Prop :=
  (g.removed ∨ g.constraint.isOpen = false) ∧ (g.constraint = .ready → g.paused)

namespace SlotState

@[simp] theorem gate_modifyQueue (slot : SlotState) (p : WorkPriority)
    (f : List String → List String) : (slot.modifyQueue p f).gate = slot.gate := by
  cases p <;> rfl

@[simp] theorem gate_foldl_pushFront (slot : SlotState) (entries : List (WorkPriority × String)) :
    (entries.foldl (fun slot e => slot.pushFront e.1 e.2) slot).gate = slot.gate := by
  induction entries generalizing slot with
  | nil => rfl
  | cons e entries ih => rw [List.foldl_cons, ih, pushFront, gate_modifyQueue]

@[simp] theorem gate_foldl_pushBack (slot : SlotState) (kept : List WorkIntent) :
    (kept.foldl (fun slot x => slot.pushBack x.priority x.intentId) slot).gate = slot.gate := by
  induction kept generalizing slot with
  | nil => rfl
  | cons x kept ih => rw [List.foldl_cons, ih, pushBack, gate_modifyQueue]

@[simp] theorem gate_foldl_removeQueued (slot : SlotState) (ids : List String) :
    (ids.foldl removeQueued slot).gate = slot.gate := by
  rw [foldl_removeQueued]
  rfl

end SlotState

namespace CoordinatorState

def gateOf (s : CoordinatorState) (t : String) : Option Gate := (s.slots.lookup t).map (·.gate)

def Stopped (s : CoordinatorState) : Prop := ∀ t g, s.gateOf t = some g → g.Shut

/-- The gates are those of `s`. -/
def SameGates (s s' : CoordinatorState) : Prop := ∀ t, s'.gateOf t = s.gateOf t

variable {s s' s'' : CoordinatorState}

theorem SameGates.refl (s : CoordinatorState) : s.SameGates s := fun _ => rfl

theorem SameGates.trans (h : s.SameGates s') (h' : s'.SameGates s'') : s.SameGates s'' :=
  fun t => (h' t).trans (h t)

theorem SameGates.stopped (h : s.SameGates s') (hs : s.Stopped) : s'.Stopped :=
  fun t g hg => hs t g (h t ▸ hg)

theorem sameGates_modifySlot (s : CoordinatorState) (t : String) {f : SlotState → SlotState}
    (h : ∀ slot, (f slot).gate = slot.gate) : s.SameGates (s.modifySlot t f) := by
  intro u
  simp only [gateOf, modifySlot, Dict.lookup_modify]
  split
  · rw [Option.map_map]
    congr 1
    exact funext h
  · rfl

theorem gateOf_putSlot (s : CoordinatorState) (t u : String) (slot : SlotState) :
    (s.putSlot t slot).gateOf u = if u = t then some slot.gate else s.gateOf u := by
  simp only [gateOf, putSlot, Dict.lookup_insert']
  split <;> rfl

variable {t : String}

theorem sameGates_putSlot {slot old : SlotState} (ht : s.slots.lookup t = some old)
    (h : slot.gate = old.gate) : s.SameGates (s.putSlot t slot) := by
  intro u
  rw [gateOf_putSlot]
  split
  · rename_i hu
    rw [hu, gateOf, ht, h, Option.map_some]
  · rfl

theorem Stopped.putSlot (hs : s.Stopped) {slot : SlotState} (h : slot.gate.Shut) :
    (s.putSlot t slot).Stopped := by
  intro u g hg
  rw [gateOf_putSlot] at hg
  split at hg
  · obtain rfl := Option.some.inj hg
    exact h
  · exact hs u g hg

theorem sameGates_foldl {α : Type} {f : CoordinatorState → α → CoordinatorState}
    (h : ∀ (s : CoordinatorState) (a : α), s.SameGates (f s a)) (s : CoordinatorState)
    (l : List α) :
    s.SameGates (l.foldl f s) := by
  induction l generalizing s with
  | nil => exact .refl s
  | cons a l ih => exact (h s a).trans (ih (f s a))

theorem entrySlot_of_lookup {slot : SlotState} (h : s.slots.lookup t = some slot)
    (role : TeamRunTargetRole) : s.entrySlot t role = slot := by
  rw [entrySlot, h, Option.getD_some]

end CoordinatorState

/-- The reply to a call that let work in or out. -/
def Reply.succeeds : Reply → Bool
  | .lease (.ok _) | .commit (.ok _) | .decision (.claim _) => true
  | _ => false

namespace SlotWorkCoordinator

variable {c : SlotWorkCoordinator} {s : CoordinatorState}

/-- The call neither makes a slot nor opens a gate. -/
def leavesShut (s : CoordinatorState) : Op → Bool
  | .acquireEnqueue request => (s.slots.lookup request.slotId).isSome
  | .reconcileMailbox t _ _ _ | .pauseSlot t => (s.slots.lookup t).isSome
  | .setRuntimeConstraint t .ready _ =>
    (s.slots.lookup t).any fun slot => slot.removed && slot.paused
  | .setRuntimeConstraint t (.starting _) _ => (s.slots.lookup t).any (·.removed)
  | _ => true

variable {slot : SlotState}

/-- A slot behind a shut gate refuses leases. -/
theorem validate_of_shut (h : slot.gate.Shut) (t : String) :
    ∃ e, validateEnqueueConstraint t slot = .error e := by
  rw [validateEnqueueConstraint]
  split
  · exact ⟨_, rfl⟩
  · rename_i hr
    have hopen : slot.runtimeConstraint.isOpen = false := by
      rcases h.1 with h | h
      · exact absurd h hr
      · exact h
    cases hc : slot.runtimeConstraint <;> simp [hc, RuntimeConstraint.isOpen] at hopen ⊢

theorem recoverMessage_sameGates (slotId : String) (role : TeamRunTargetRole) (now : TimestampMs)
    (messageIds : List String) (acc : CoordinatorState × List String) :
    acc.1.SameGates (messageIds.foldl (c.recoverMessage slotId role now) acc).1 := by
  induction messageIds generalizing acc with
  | nil => exact .refl _
  | cons m messageIds ih =>
    refine CoordinatorState.SameGates.trans ?_ (ih _)
    simp only [recoverMessage]
    split
    · exact .refl _
    · exact CoordinatorState.sameGates_modifySlot _ _ fun slot => by
        rw [SlotState.pushBack, SlotState.gate_modifyQueue]

theorem cancelRun_sameGates (r : String) (order : IterOrder WorkIntent) :
    s.SameGates (cancelRun s r order).state := by
  have hactive : ∀ (s : CoordinatorState) (target : String × ActiveBatch),
      s.SameGates (cancelActive r s target) :=
    fun s target => CoordinatorState.sameGates_modifySlot _ _ fun slot => by
      rw [SlotState.gate_foldl_pushFront]
      rfl
  have hqueued : ∀ (s : CoordinatorState) i, s.SameGates (cancelQueued s i) := by
    intro s i
    rw [cancelQueued]
    split
    · exact .refl s
    · exact CoordinatorState.sameGates_modifySlot _ _ fun _ => rfl
  exact (CoordinatorState.sameGates_foldl hactive _ _).trans
    (CoordinatorState.sameGates_foldl hqueued _ _)

theorem batch_sameGates (b : WorkBatch) :
    s.SameGates (c.retryStart s b).state ∧
      ∀ state, s.SameGates (c.terminalizeBatch s b state).state := by
  constructor
  · rw [retryStart]
    split
    · exact .refl s
    · refine CoordinatorState.sameGates_modifySlot _ _ fun slot => ?_
      have h := SlotState.gate_foldl_pushFront { slot with active := none }
        (b.intentIds.reverse.map fun id => (b.highestPriority, id))
      rwa [List.foldl_map] at h
  · intro state
    rw [terminalizeBatch]
    split
    · exact .refl s
    · exact CoordinatorState.sameGates_modifySlot _ _ fun _ => rfl

theorem abortEnqueue_sameGates (lease : EnqueueLease) :
    s.SameGates (c.abortEnqueue s lease).state := by
  rw [abortEnqueue]
  split
  · exact .refl s
  · split <;> exact fun _ => rfl

theorem markStarted_sameGates (b : WorkBatch) (turnId : String) (now : TimestampMs) :
    s.SameGates (c.markStarted s b turnId now).state := by
  rw [markStarted]
  split
  · exact .refl s
  · exact CoordinatorState.sameGates_modifySlot _ _ fun _ => rfl

theorem completeSignals_sameGates (t : String) (ids : List String) :
    s.SameGates (completeSignals s t ids).state := by
  rw [completeSignals]
  split
  · exact .refl s
  · exact CoordinatorState.sameGates_modifySlot _ _ fun slot => by
      rw [SlotState.gate_foldl_removeQueued]

/-- `reconcile_mailbox` leaves the gates as they are, unless it makes the slot. -/
theorem reconcileMailbox_sameGates {t : String} (ht : s.slots.lookup t = some slot)
    (unread : List String) (role : TeamRunTargetRole) (now : TimestampMs) :
    s.SameGates (c.reconcileMailbox s t unread role now).state := by
  have hput : s.SameGates (s.putSlot t { s.entrySlot t role with
      role := role, knownUnreadMessageIds := unread.toFinset }) :=
    CoordinatorState.sameGates_putSlot ht (by rw [CoordinatorState.entrySlot_of_lookup ht]; rfl)
  refine (hput.trans ?_).trans (recoverMessage_sameGates t role now unread (_, []))
  exact CoordinatorState.sameGates_modifySlot _ _ fun slot => by
    rw [SlotState.gate_foldl_removeQueued]

/-- `stop` shuts every gate, whatever the state was. -/
theorem stopped_stop (s : CoordinatorState) : (stop s).state.Stopped := by
  intro t g hg
  simp only [stop, CoordinatorState.gateOf, Dict.lookup_mapValues, Option.map_map,
    Option.map_eq_some_iff] at hg
  obtain ⟨slot, -, rfl⟩ := hg
  exact ⟨.inr rfl, fun h => by cases h⟩

section

variable (h : s.Stopped)
include h

theorem shut_of_stopped {t : String} (ht : s.slots.lookup t = some slot) :
    slot.gate.Shut :=
  h t _ (by rw [CoordinatorState.gateOf, ht, Option.map_some])

theorem acquireEnqueue_refused (bindEnqueue : EnqueueRequest → RunBinding)
    {request : EnqueueRequest} (ht : s.slots.lookup request.slotId = some slot) :
    (c.acquireEnqueue s bindEnqueue request).state.Stopped ∧
      ∃ e, (c.acquireEnqueue s bindEnqueue request).result = .error e := by
  have hold : slot.gate.Shut := shut_of_stopped h ht
  have hshut : ({ slot with role := request.role } : SlotState).gate.Shut := hold
  obtain ⟨e, he⟩ := validate_of_shut hshut request.slotId
  simp only [acquireEnqueue, CoordinatorState.entrySlot_of_lookup ht, he]
  exact ⟨h.putSlot hshut, e, rfl⟩

theorem commitEnqueue_refused (lease : EnqueueLease) (m : Option String) (now : TimestampMs) :
    ∃ e, c.commitEnqueue s lease m now = ⟨s, .error e, []⟩ := by
  cases hcheck : c.checkCommit s lease m with
  | error e => exact ⟨e, by simp only [commitEnqueue, hcheck]⟩
  | ok slot =>
    -- the last of the checks looks at the gate
    obtain ⟨e, he⟩ :=
      validate_of_shut (shut_of_stopped h (c.slot_of_checkCommit s hcheck)) lease.slotId
    unfold checkCommit at hcheck
    repeat' split at hcheck
    all_goals simp_all

theorem next_refused (t : String) :
    (c.next s t).state = s ∧ ∀ b, (c.next s t).result ≠ .claim b := by
  rcases c.next_cases s t with ⟨hs, -, hno⟩ | ⟨slot, p, ht, -, hr, hp, -, -, -⟩
  · exact ⟨hs, hno⟩
  · have hpaused := (shut_of_stopped h ht).2 hr
    simp [SlotState.gate, hp] at hpaused

/-- A constraint update keeps the gates shut if its own gate is. -/
theorem setRuntimeConstraint_stopped {t : String} {constraint : RuntimeConstraint}
    (order : IterOrder WorkIntent) (hop : leavesShut s (.setRuntimeConstraint t constraint order)) :
    (setRuntimeConstraint s t constraint order).state.Stopped := by
  have hshut : ∀ slot : SlotState,
      slot.gate = { s.entrySlot t .teammate with runtimeConstraint := constraint }.gate →
      slot.gate.Shut := by
    intro slot hslot
    rw [hslot]
    cases constraint with
    | ready =>
      obtain ⟨old, ht, hp⟩ := (Option.any_eq_true _ _).mp hop
      obtain ⟨hr, hp⟩ := (Bool.and_eq_true _ _).mp hp
      rw [CoordinatorState.entrySlot_of_lookup ht]
      exact ⟨.inl hr, fun _ => hp⟩
    | starting n =>
      obtain ⟨old, ht, hr⟩ := (Option.any_eq_true _ _).mp hop
      rw [CoordinatorState.entrySlot_of_lookup ht]
      exact ⟨.inl hr, fun h => by cases h⟩
    | _ => exact ⟨.inr rfl, fun h => by cases h⟩
  simp only [setRuntimeConstraint]
  split
  · exact h.putSlot (hshut _ rfl)
  · refine CoordinatorState.Stopped.putSlot (h.putSlot (hshut _ rfl)) (hshut _ ?_)
    rw [SlotState.gate_foldl_pushBack]
    rfl

/-- A removed slot takes no leases, so its removal shuts a gate further. -/
theorem removeSlot_stopped (t : String) : (removeSlot s t).state.Stopped := by
  obtain ⟨done, hdone⟩ := cancelListed_fst s (removedIntentIds s t)
  have hlist : (cancelListed s (removedIntentIds s t)).1.slots = s.slots := by
    rw [hdone]
    rfl
  simp only [removeSlot]
  split
  · rename_i hl
    rw [hl] at hlist
    exact CoordinatorState.SameGates.stopped (fun u => by
      rw [CoordinatorState.gateOf, CoordinatorState.gateOf, hlist]) h
  · rename_i s' hl
    rw [hl] at hlist
    change s'.slots = s.slots at hlist
    intro u g hg
    simp only [CoordinatorState.gateOf, CoordinatorState.modifySlot, Dict.lookup_modify,
      hlist] at hg
    split at hg
    · simp only [Option.map_map, Option.map_eq_some_iff] at hg
      obtain ⟨slot, hslot, rfl⟩ := hg
      exact ⟨.inl rfl, (shut_of_stopped h hslot).2⟩
    · exact h u g hg

/-- A stopped coordinator stays stopped and lets no work in or out. -/
theorem stopped_step (bindEnqueue : EnqueueRequest → RunBinding) {op : Op} (hop : leavesShut s op) :
    (c.exec bindEnqueue s op).state.Stopped ∧
      (c.exec bindEnqueue s op).result.succeeds = false := by
  cases op with
  | acquireEnqueue request =>
    obtain ⟨slot, ht⟩ := Option.isSome_iff_exists.mp hop
    obtain ⟨hstopped, e, he⟩ := acquireEnqueue_refused (c := c) h bindEnqueue ht
    exact ⟨hstopped, by simp only [exec, Outcome.map, he, Reply.succeeds]⟩
  | commitEnqueue lease m now =>
    obtain ⟨e, he⟩ := commitEnqueue_refused (c := c) h lease m now
    simp only [exec, Outcome.map, he]
    exact ⟨h, rfl⟩
  | abortEnqueue lease => exact ⟨(abortEnqueue_sameGates lease).stopped h, rfl⟩
  | reconcileMailbox t unread role now =>
    obtain ⟨slot, ht⟩ := Option.isSome_iff_exists.mp hop
    exact ⟨(reconcileMailbox_sameGates ht unread role now).stopped h, rfl⟩
  | next t =>
    obtain ⟨hs, hno⟩ := next_refused (c := c) h t
    simp only [exec, Outcome.map, hs]
    refine ⟨h, ?_⟩
    cases hres : (c.next s t).result with
    | claim b => exact absurd hres (hno b)
    | _ => rfl
  | markStarted b turnId now => exact ⟨(markStarted_sameGates b turnId now).stopped h, rfl⟩
  | retryStart b => exact ⟨(batch_sameGates b).1.stopped h, rfl⟩
  | completeBatch b => exact ⟨((batch_sameGates b).2 _).stopped h, rfl⟩
  | failBatch b classification => exact ⟨((batch_sameGates b).2 _).stopped h, rfl⟩
  | cancelBatch b classification => exact ⟨((batch_sameGates b).2 _).stopped h, rfl⟩
  | cancelRun r order => exact ⟨(cancelRun_sameGates r order).stopped h, rfl⟩
  | completeSignals t ids => exact ⟨(completeSignals_sameGates t ids).stopped h, rfl⟩
  | pauseSlot t =>
    obtain ⟨slot, ht⟩ := Option.isSome_iff_exists.mp hop
    refine ⟨h.putSlot ?_, rfl⟩
    rw [CoordinatorState.entrySlot_of_lookup ht]
    exact ⟨(shut_of_stopped h ht).1, fun _ => rfl⟩
  | setRuntimeConstraint t constraint order =>
    exact ⟨setRuntimeConstraint_stopped h order hop, rfl⟩
  | removeSlot t => exact ⟨removeSlot_stopped h t, rfl⟩
  | stop => exact ⟨stopped_stop s, rfl⟩

end

/-- The coordinator under callers that neither make slots nor open gates. -/
def shutMachine (c : SlotWorkCoordinator) : Machine Tracked Call :=
  c.openMachine.restrict fun w call => leavesShut w.state call.op

/-- Stop is final under such callers: after `stop` no lease is granted, no enqueue
commits and no batch is claimed, in any later sequence of calls. -/
theorem stop_is_final {w w' : Tracked} {bindEnqueue : EnqueueRequest → RunBinding}
    (h : c.shutMachine.Reaches (c.fire w ⟨.stop, bindEnqueue⟩) w') (call : Call)
    (hcall : leavesShut w'.state call.op) :
    (c.exec call.bindEnqueue w'.state call.op).result.succeeds = false := by
  have hstopped : w'.state.Stopped := by
    refine h.preserves (P := fun w => w.state.Stopped) ?_ (stopped_stop w.state)
    intro v call hv hadm
    exact (stopped_step hv call.bindEnqueue hadm.2).1
  exact (stopped_step hstopped call.bindEnqueue hcall).2

/-- Instance: a lease is refused after the stop. -/
theorem stop_is_final_sample :
    (sample.exec (fun _ => ⟨none, false, false⟩)
      (sample.fire (sample.machine.run .empty (enqueueSample none)) (bound none .stop)).state
      (.acquireEnqueue sampleRequest)).result.succeeds = false :=
  stop_is_final (c := sample) .refl (bound none (.acquireEnqueue sampleRequest)) (by decide)

/-- A constraint update that was prepared before the stop opens the slot again: a lease
is granted, an enqueue commits and a batch is claimed after `stop` has returned. -/
theorem late_constraint_reopens :
    let w := sample.machine.run .empty (enqueueSample none ++
      [bound none .stop, bound none (.setRuntimeConstraint "lead" .ready .stored)])
    let w' := sample.fire w (bound none (.acquireEnqueue sampleRequest))
    let w'' := sample.fire w' (bound none (.commitEnqueue (sampleLease "xxx" none) (some "n") 0))
    sample.machine.Reachable w ∧
    (sample.exec (fun _ => ⟨none, false, false⟩) w.state
      (.acquireEnqueue sampleRequest)).result.succeeds ∧
    (sample.exec (fun _ => ⟨none, false, false⟩) w'.state
      (.commitEnqueue (sampleLease "xxx" none) (some "n") 0)).result.succeeds ∧
    (sample.exec (fun _ => ⟨none, false, false⟩) w''.state (.next "lead")).result.succeeds :=
  ⟨Machine.reachable_run rfl (by decide), by decide, by decide, by decide⟩

end SlotWorkCoordinator

end AionCore.Team
