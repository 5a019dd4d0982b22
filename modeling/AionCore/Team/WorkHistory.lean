import AionCore.Team.WorkFence
import AionCore.Team.WorkMoves

/-!
# Runs of the coordinator and their history

The invariant that ties the state of a tracked run to its history (`Sound`): the
log lists the intents, and every batch that was handed out describes the intents it
names. Every call is a run of ledger moves that keep the log's order.
-/

namespace AionCore.Team

/-- What a batch says about its intents. -/
structure WorkBatch.Describes (b : WorkBatch) (s : CoordinatorState) : Prop where
  nonempty : b.intentIds ≠ []
  nodup : b.intentIds.Nodup
  intents : ∀ i ∈ b.intentIds, ∃ x, s.enqueuedAs i = some x ∧ x.slotId = b.slotId ∧
    x.priority = b.highestPriority ∧ x.isMessage
  messages : b.mailboxMessageIds =
    b.intentIds.filterMap fun i => (s.enqueuedAs i).bind (·.mailboxMessageId)
  runs : ∀ r, r ∈ b.teamRunIds ↔
    ∃ i ∈ b.intentIds, ∃ x, s.enqueuedAs i = some x ∧ x.teamRunId = some r

def Op.endsIntents : Op → Bool
  | .acquireEnqueue _ | .commitEnqueue _ _ _ | .abortEnqueue _ | .next _ | .markStarted _ _ _
  | .retryStart _ | .pauseSlot _ => false
  | .setRuntimeConstraint _ constraint _ =>
    (SlotWorkCoordinator.constraintTerminalState constraint).isSome
  | .reconcileMailbox _ _ _ _ | .completeBatch _ | .failBatch _ _ | .cancelBatch _ _
  | .cancelRun _ _ | .completeSignals _ _ | .removeSlot _ | .stop => true

namespace SlotWorkCoordinator

variable (c : SlotWorkCoordinator)

/-- The state and the history of a run fit together. -/
structure Sound (w : Tracked) : Prop where
  coherent : w.state.ledger.Coherent
  keyed : w.state.Keyed
  logged : c.Logged w.state w.enqueued
  describes : ∀ b ∈ w.handed, b.Describes w.state
  fenced : c.Fenced w

variable {c}

theorem Sound.empty : c.Sound .empty where
  coherent := Ledger.Coherent.empty
  keyed _ _ h := by simp [Tracked.empty, CoordinatorState.empty] at h
  logged := ⟨fun _ => by simp [Tracked.empty, CoordinatorState.empty], List.nodup_nil,
    fun _ h => by simp [Tracked.empty] at h⟩
  describes _ h := by simp [Tracked.empty] at h
  fenced := .empty

def KeepsOrder (w : Tracked) : Op → Prop
  | .setRuntimeConstraint slotId constraint order =>
    constraintTerminalState constraint ≠ none → ∀ p,
      ((keptIds w.state order slotId constraint).filter fun i =>
        w.state.ledger.prioOf i = some p ∧ bearsMessage w.state i).Pairwise (Before w.enqueued)
  | _ => True

variable {w : Tracked} {b : WorkBatch}

theorem Sound.batchOf_of_current (h : c.Sound w) (hmem : b ∈ w.handed)
    (hc : c.isCurrentBatch w.state b) :
    w.state.batchOf b.slotId = some b :=
  (h.fenced.isCurrentBatch_iff hmem).mp hc

variable {s : CoordinatorState}

theorem next_moves (t : String) (R : String → String → Prop) (ordered : Prop) :
    WorkMoves R ordered s.ledger (c.next s t).state.ledger := by
  rcases c.next_cases s t with ⟨hs, -, -⟩ | ⟨slot, p, hslot, ha, -, -, -, -, hclaim⟩
  · rw [hs]
  · have hlane := CoordinatorState.ledger_lane_of_slot hslot
    have hidle : (s.ledger.lane t).active = none := by rw [hlane, SlotState.lane, ha]; rfl
    have hqueue : slot.queue p = (s.ledger.lane t).queue p := by rw [hlane]; rfl
    rw [hclaim, c.claimBatch_ledger hslot, ← CoordinatorState.bears_ledger, hqueue]
    exact .single (.claim t _ p hidle)

theorem Sound.retryStart_moves (h : c.Sound w) (hmem : b ∈ w.handed) (R : String → String → Prop)
    (ordered : Prop) :
    WorkMoves R ordered w.state.ledger (c.retryStart w.state b).state.ledger := by
  by_cases hc : c.isCurrentBatch w.state b
  · -- the whole batch goes back to one queue, so all of it must have come from there
    have hprio : ∀ i ∈ b.intentIds, w.state.ledger.prioOf i = some b.highestPriority := by
      intro i hi
      obtain ⟨x, hx, -, hp, -⟩ := (h.describes b hmem).intents i hi
      obtain ⟨y, hy, rfl⟩ := Option.map_eq_some_iff.mp hx
      rw [CoordinatorState.prioOf_ledger, hy, Option.map_some, ← hp]
      rfl
    rw [c.retryStart_ledger hc (h.batchOf_of_current hmem hc) hprio]
    exact .single (.release _ _)
  · rw [retryStart, if_pos (by simpa using hc)]

theorem Sound.terminalizeBatch_moves (h : c.Sound w) (hmem : b ∈ w.handed)
    {state : WorkIntentState} (hstate : state.isTerminal) (R : String → String → Prop)
    (ordered : Prop) :
    WorkMoves R ordered w.state.ledger (c.terminalizeBatch w.state b state).state.ledger := by
  by_cases hc : c.isCurrentBatch w.state b
  · rw [c.terminalizeBatch_ledger hstate hc (h.batchOf_of_current hmem hc)]
    exact .single (.release _ _)
  · rw [terminalizeBatch, if_pos (by simpa using hc)]

theorem setRuntimeConstraint_moves (hk : s.Keyed) (t : String) (constraint : RuntimeConstraint)
    (order : IterOrder WorkIntent) (R : String → String → Prop) {ordered : Prop}
    (ho : ordered → constraintTerminalState constraint ≠ none → ∀ p,
      ((keptIds s order t constraint).filter fun i =>
        s.ledger.prioOf i = some p ∧ bearsMessage s i).Pairwise R) :
    WorkMoves R ordered s.ledger (setRuntimeConstraint s t constraint order).state.ledger := by
  cases hstate : constraintTerminalState constraint with
  | none => rw [setRuntimeConstraint_ledger_none t order hstate]
  | some state =>
    rw [setRuntimeConstraint_ledger hk t order hstate]
    refine .single (.rebuild t _ state ?_ (fun i hi => ?_) fun hordered q => ?_)
    · exact (nodup_arranged hk order).sublist
        ((List.filter_sublist.trans List.filter_sublist).map _)
    · obtain ⟨x, hx, rfl⟩ := List.mem_map.mp hi
      obtain ⟨hx, ht, hp⟩ := (mem_liveIntents hk).mp (List.mem_of_mem_filter hx)
      exact ⟨x.item, CoordinatorState.ledger_item_eq hx, ht,
        by rw [WorkIntent.item, WorkIntentState.isDone_phase, hp]⟩
    · have hkeep := ho hordered (by simp [hstate]) q
      rw [List.filter_filter, CoordinatorState.bears_ledger]
      simpa only [Bool.decide_and, Bool.decide_eq_true, Bool.and_comm] using hkeep

/-- Every call is a run of ledger moves. -/
theorem Sound.moves (h : c.Sound w) {call : Call} (hcall : c.machine.admits w call)
    (ordered : Prop) (ho : ordered → KeepsOrder w call.op) :
    WorkMoves (Before (c.fire w call).enqueued) ordered w.state.ledger
      (c.fire w call).state.ledger := by
  obtain ⟨op, bindEnqueue⟩ := call
  cases op with
  | acquireEnqueue request => exact c.acquireEnqueue_ledger bindEnqueue request ▸ .refl
  | commitEnqueue lease m now =>
    simp only [fire, exec, Outcome.map]
    cases hcheck : c.checkCommit w.state lease m with
    | error e =>
      simp only [commitEnqueue, hcheck]
      exact .refl
    | ok slot =>
      rw [c.commitEnqueue_ledger now hcheck]
      refine h.logged.enter rfl ?_
      simp [commitEnqueue, hcheck, Reply.enqueued, committedIntent]
  | abortEnqueue lease => exact c.abortEnqueue_ledger lease ▸ .refl
  | reconcileMailbox t unread role now =>
    exact reconcileMailbox_moves h.coherent h.logged t unread role now
  | next t => exact next_moves t _ ordered
  | markStarted b turnId now =>
    by_cases hc : c.isCurrentBatch w.state b
    · exact c.markStarted_ledger h.coherent turnId now
        (h.batchOf_of_current (hcall b rfl) hc) ▸ .refl
    · simp only [fire, exec, Outcome.map, markStarted, if_pos hc]
      exact .refl
  | retryStart b => exact h.retryStart_moves (hcall b rfl) _ ordered
  | completeBatch b | failBatch b classification =>
    exact h.terminalizeBatch_moves (hcall b rfl) rfl _ ordered
  | cancelBatch b classification => exact h.terminalizeBatch_moves (hcall b rfl) rfl _ ordered
  | cancelRun r order => exact cancelRun_moves h.keyed r order
  | completeSignals t ids => exact completeSignals_moves t ids
  | pauseSlot t => exact pauseSlot_ledger t ▸ .refl
  | setRuntimeConstraint t constraint order =>
    refine setRuntimeConstraint_moves h.keyed t constraint order _ fun hordered hends p => ?_
    -- the call logs no intent
    have hnone : (c.fire w ⟨.setRuntimeConstraint t constraint order, bindEnqueue⟩).enqueued =
        w.enqueued := List.append_nil _
    rw [hnone]
    exact ho hordered hends p
  | removeSlot t =>
    simp only [fire, exec, Outcome.map]
    rw [(removeSlot_ledger h.coherent h.keyed t).2]
    exact .single (.rebuild t [] _ List.nodup_nil (by simp) (by simp))
  | stop =>
    simp only [fire, exec, Outcome.map]
    rw [stop_ledger]
    exact .single (.halt _)

theorem Logged.enqueuedAs_extends {s' : CoordinatorState} {log new : List String}
    (h : c.Logged s log) (hx : c.Extends s s' new) {i : String} {x : WorkIntent}
    (hi : s.enqueuedAs i = some x) : s'.enqueuedAs i = some x := by
  rw [hx.others i fun hmem => ?_, hi]
  have hlog : i ∈ log := (h.mem_iff i).mpr (by rw [← isSome_enqueuedAs, hi]; rfl)
  exact List.disjoint_of_nodup_append (h.extends hx).nodup hlog hmem

end SlotWorkCoordinator

theorem WorkBatch.Describes.extends {c : SlotWorkCoordinator} {s s' : CoordinatorState}
    {log new : List String} {b : WorkBatch} (hb : b.Describes s) (h : c.Logged s log)
    (hx : c.Extends s s' new) : b.Describes s' where
  nonempty := hb.nonempty
  nodup := hb.nodup
  intents i hi := by
    obtain ⟨x, hi, hp⟩ := hb.intents i hi
    exact ⟨x, h.enqueuedAs_extends hx hi, hp⟩
  messages := by
    rw [hb.messages]
    refine List.filterMap_congr fun i hi => ?_
    obtain ⟨x, hi, -⟩ := hb.intents i hi
    rw [hi, h.enqueuedAs_extends hx hi]
  runs r := by
    rw [hb.runs]
    refine exists_congr fun i => and_congr_right fun hi => ?_
    obtain ⟨x, hi, -⟩ := hb.intents i hi
    rw [hi, h.enqueuedAs_extends hx hi]

namespace SlotWorkCoordinator

variable {c : SlotWorkCoordinator}

theorem mem_foldl_insert {l acc : List String} {r : String} :
    r ∈ l.foldl (fun ids id => if id ∈ ids then ids else ids ++ [id]) acc ↔ r ∈ acc ∨ r ∈ l := by
  induction l generalizing acc with
  | nil => simp
  | cons a l ih =>
    rw [List.foldl_cons, ih]
    split
    · rename_i ha
      constructor
      · rintro (h | h)
        · exact .inl h
        · exact .inr (List.mem_cons_of_mem a h)
      · rintro (h | h)
        · exact .inl h
        · rcases List.mem_cons.mp h with rfl | h
          · exact .inl ha
          · exact .inr h
    · simp [or_assoc]

/-- The batch that `next` builds describes its intents. -/
theorem claimedBatch_describes {s : CoordinatorState} (hL : s.ledger.Coherent) {t : String}
    {slot : SlotState} {p : WorkPriority} (hslot : s.slots.lookup t = some slot)
    (hne : (slot.queue p).filter (bearsMessage s) ≠ []) :
    (c.claimedBatch s t p ((slot.queue p).filter (bearsMessage s))).Describes s where
  nonempty := hne
  nodup := by
    have hn := hL.nodup t p
    rw [CoordinatorState.ledger_lane_of_slot hslot] at hn
    exact hn.filter _
  intents i hi := by
    obtain ⟨hq, hm⟩ := List.mem_filter.mp hi
    obtain ⟨x, hx, ht, hp, -⟩ := CoordinatorState.lookup_of_queued hL hslot hq
    refine ⟨x.asQueued, by rw [CoordinatorState.enqueuedAs, hx]; rfl, ht, hp, ?_⟩
    simpa [bearsMessage, hx, WorkIntent.isMessage, WorkIntent.asQueued] using hm
  messages := by
    refine List.filterMap_congr fun i _ => ?_
    rw [CoordinatorState.enqueuedAs]
    cases s.intents.lookup i <;> rfl
  runs r := by
    simp only [claimedBatch, mem_foldl_insert, List.not_mem_nil, false_or, List.mem_filterMap,
      CoordinatorState.enqueuedAs]
    refine exists_congr fun i => and_congr_right fun _ => ?_
    cases s.intents.lookup i <;> simp [WorkIntent.asQueued]

/-- A batch that a call hands out describes its intents. -/
theorem describes_of_handed {s : CoordinatorState} (hL : s.ledger.Coherent)
    (bindEnqueue : EnqueueRequest → RunBinding) (op : Op) {b : WorkBatch}
    (hb : b ∈ (c.exec bindEnqueue s op).result.handed) : b.Describes s := by
  cases op with
  | next t =>
    simp only [exec, Outcome.map] at hb
    rcases c.next_cases s t with ⟨-, -, hno⟩ | ⟨slot, p, hslot, -, -, -, -, hne, hclaim⟩
    · cases hr : (c.next s t).result with
      | claim b' => exact absurd hr (hno b')
      | _ => simp [hr, Reply.handed] at hb
    · rw [hclaim] at hb
      obtain rfl : b = c.claimedBatch s t p ((slot.queue p).filter (bearsMessage s)) := by
        simpa [claimBatch, Reply.handed] using hb
      exact claimedBatch_describes hL hslot hne
  | _ => simp [exec, Outcome.map, Reply.handed] at hb

variable {w : Tracked} {call : Call}

/-- Every call keeps state and history together. -/
theorem Sound.step (h : c.Sound w) (hcall : c.machine.admits w call) :
    c.Sound (c.fire w call) := by
  have hx : c.Extends w.state (c.fire w call).state _ :=
    c.exec_extends w.state call.bindEnqueue call.op
  refine ⟨?_, ?_, h.logged.extends hx, fun b hb => ?_, h.fenced.step call⟩
  · exact Ledger.Moves.coherent (h.moves hcall False False.elim) h.coherent
  · intro i x hi
    have hi' : (c.fire w call).state.enqueuedAs i = some x.asQueued := by
      rw [CoordinatorState.enqueuedAs, hi, Option.map_some]
    -- new intents are stored under their own ids, the others keep theirs
    by_cases hmem : i ∈ (c.exec call.bindEnqueue w.state call.op).result.enqueued
    · obtain ⟨y, hy, hid⟩ := hx.intents i hmem
      obtain rfl : y = x.asQueued := by simpa [hi'] using hy.symm
      exact hid
    · rw [hx.others i hmem] at hi'
      obtain ⟨y, hy, hyx⟩ := Option.map_eq_some_iff.mp hi'
      have hid : y.intentId = x.intentId := by
        simpa only [WorkIntent.asQueued] using congrArg (·.intentId) hyx
      rw [← hid, h.keyed i y hy]
  · rcases List.mem_append.mp hb with hb | hb
    · exact (h.describes b hb).extends h.logged hx
    · exact (describes_of_handed h.coherent call.bindEnqueue call.op hb).extends h.logged hx

variable {x : WorkIntent} {i : String}

/-- A call changes nothing of an existing intent but its state, and not even that once
the intent has ended. -/
theorem Sound.persists (h : c.Sound w) (hcall : c.machine.admits w call)
    (hx : w.state.intents.lookup i = some x) :
    ∃ state, (c.fire w call).state.intents.lookup i = some { x with state } ∧
      (x.state.isTerminal → state = x.state) := by
  obtain ⟨p, hp, hdone⟩ := Ledger.Moves.persists (h.moves hcall False False.elim) h.coherent
    (CoordinatorState.ledger_item_eq hx)
  obtain ⟨y, hy, hyx⟩ := CoordinatorState.exists_of_ledger_item hp
  have htag : y.asQueued = x.asQueued := congrArg Item.tag hyx
  have hphase : y.state.phase = p := congrArg Item.phase hyx
  refine ⟨y.state, ?_, fun hx => ?_⟩
  · rw [hy, Option.some.injEq]
    cases x
    cases y
    simp_all [WorkIntent.asQueued]
  · have hp := hdone (by rwa [WorkIntent.item, WorkIntentState.isDone_phase])
    rw [hp, WorkIntent.item, WorkIntentState.phase_terminal hx] at hphase
    exact WorkIntentState.phase_eq_done hphase

theorem acquireEnqueue_intents (c : SlotWorkCoordinator) (s : CoordinatorState)
    (bindEnqueue : EnqueueRequest → RunBinding) (request : EnqueueRequest) :
    (c.acquireEnqueue s bindEnqueue request).state.intents = s.intents := by
  simp only [acquireEnqueue]
  split <;> rfl

theorem abortEnqueue_intents (c : SlotWorkCoordinator) (s : CoordinatorState)
    (lease : EnqueueLease) : (c.abortEnqueue s lease).state.intents = s.intents := by
  rw [abortEnqueue]
  split
  · rfl
  · split <;> rfl

/-- An intent that has not ended stays so under a call that ends none. -/
theorem Sound.staysOpen (h : c.Sound w) (hop : call.op.endsIntents = false)
    (hx : w.state.intents.lookup i = some x) (ht : x.state.isTerminal = false) :
    ∃ y, (c.fire w call).state.intents.lookup i = some y ∧ y.state.isTerminal = false := by
  obtain ⟨op, bindEnqueue⟩ := call
  have hset : ∀ ids state, state.isTerminal = false →
      ∃ y, (w.state.setIntentStates ids state).intents.lookup i = some y ∧
        y.state.isTerminal = false := by
    intro ids state hstate
    rw [CoordinatorState.lookup_setIntentStates, hx]
    split
    · exact ⟨_, rfl, hstate⟩
    · exact ⟨x, rfl, ht⟩
  simp only [fire]
  cases op with
  | acquireEnqueue request =>
    exact ⟨x, by simp only [exec, Outcome.map, acquireEnqueue_intents, hx], ht⟩
  | commitEnqueue lease m now =>
    refine ⟨x, ?_, ht⟩
    simp only [exec, Outcome.map]
    rw [commitEnqueue]
    split
    · exact hx
    · dsimp only [committedIntent]
      rw [Dict.lookup_insert', if_neg, hx]
      rintro rfl
      rw [h.logged.absent] at hx
      cases hx
  | abortEnqueue lease =>
    exact ⟨x, by simp only [exec, Outcome.map, abortEnqueue_intents, hx], ht⟩
  | next t =>
    simp only [exec, Outcome.map]
    rcases c.next_cases w.state t with ⟨hs, -, -⟩ | ⟨slot, p, -, -, -, -, -, -, hclaim⟩
    · rw [hs]
      exact ⟨x, hx, ht⟩
    · rw [hclaim]
      exact hset _ _ rfl
  | markStarted b turnId now =>
    simp only [exec, Outcome.map]
    rw [markStarted]
    split
    · exact ⟨x, hx, ht⟩
    · exact hset _ _ rfl
  | retryStart b =>
    simp only [exec, Outcome.map]
    rw [retryStart]
    split
    · exact ⟨x, hx, ht⟩
    · exact hset _ _ rfl
  | pauseSlot t => exact ⟨x, hx, ht⟩
  | setRuntimeConstraint t constraint order =>
    have hnone : constraintTerminalState constraint = none := by
      simpa [Op.endsIntents] using hop
    simp only [exec, Outcome.map, setRuntimeConstraint, hnone]
    exact ⟨x, hx, ht⟩
  | _ => simp [Op.endsIntents] at hop

theorem sound_of_reachable (h : c.machine.Reachable w) : c.Sound w :=
  h.invariant (by rintro _ rfl; exact .empty) fun _ _ hw hcall => hw.step hcall

/-- Over a whole run an existing intent keeps all but its state, and its end is final. -/
theorem reaches_persists {w w' : Tracked} (hw : c.machine.Reachable w)
    (h : c.machine.Reaches w w') (hx : w.state.intents.lookup i = some x) :
    ∃ state, w'.state.intents.lookup i = some { x with state } ∧
      (x.state.isTerminal → state = x.state) := by
  refine Machine.Reaches.preserves_of_reachable
    (P := fun w => ∃ state, w.state.intents.lookup i = some { x with state } ∧
      (x.state.isTerminal → state = x.state))
    (fun v call hv hp hcall => ?_) hw h ⟨x.state, hx, fun _ => rfl⟩
  obtain ⟨state, hs, hend⟩ := hp
  obtain ⟨state', hs', hend'⟩ := (sound_of_reachable hv).persists hcall hs
  refine ⟨state', hs', fun hx => ?_⟩
  have hstate := hend hx
  subst hstate
  exact hend' hx

end SlotWorkCoordinator

end AionCore.Team
