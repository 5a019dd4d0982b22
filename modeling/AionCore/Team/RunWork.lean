import AionCore.Team.RunManager
import AionCore.Team.WorkReconcile
import AionCore.Team.WorkRevocation

/-!
# The work of a run

A run has work while a lease or an intent that has not ended belongs to it. The
summaries that an operation publishes are those of the state it leaves behind, and
every operation but `reconcile_mailbox` publishes the summary of a run whose work it ends.
-/

namespace AionCore.Team

namespace CoordinatorState

def HasLease (s : CoordinatorState) (r : String) : Prop :=
  ∃ k record, s.enqueueLeases.lookup k = some record ∧ record.lease.teamRunId = some r

/-- The intent belongs to the run and has not ended. -/
def OpenIntent (s : CoordinatorState) (r i : String) : Prop :=
  ∃ x, s.intents.lookup i = some x ∧ x.teamRunId = some r ∧ x.state.isTerminal = false

/-- Some enqueue lease or open intent belongs to the run. -/
def HasWork (s : CoordinatorState) (r : String) : Prop := s.HasLease r ∨ ∃ i, s.OpenIntent r i

theorem hasLease_iff {s : CoordinatorState} {r : String} : s.HasLease r ↔ s.runLeases r ≠ [] := by
  simp only [HasLease, runLeases, ne_eq, List.filter_eq_nil_iff, Dict.mem_values, not_forall]
  constructor
  · rintro ⟨k, record, hk, hr⟩
    exact ⟨record, ⟨k, hk⟩, by simpa using hr⟩
  · rintro ⟨record, ⟨k, hk⟩, hr⟩
    exact ⟨k, record, hk, by simpa using hr⟩

theorem openIntent_iff {s : CoordinatorState} {r : String} :
    (∃ i, s.OpenIntent r i) ↔ ∃ x ∈ s.associated r, x.state.isTerminal = false := by
  simp only [OpenIntent, associated, List.mem_filter, Dict.mem_values, decide_eq_true_eq]
  constructor
  · rintro ⟨i, x, hi, hr, ht⟩
    exact ⟨x, ⟨⟨i, hi⟩, hr⟩, ht⟩
  · rintro ⟨x, ⟨⟨i, hi⟩, hr⟩, ht⟩
    exact ⟨i, x, hi, hr, ht⟩

/-- The summary of a run shows no work exactly when it has none. -/
theorem noWork_iff (s : CoordinatorState) (r : String) :
    TeamRunManager.noWork (s.runSummaryLocked r) ↔ ¬s.HasWork r := by
  rw [HasWork, hasLease_iff, openIntent_iff, not_or, not_not]
  simp only [TeamRunManager.noWork, runSummaryLocked, decide_eq_true_eq, List.countP_eq_zero,
    List.length_eq_zero_iff, List.dedup_eq_nil, List.filterMap_eq_nil_iff, not_exists, not_and]
  constructor
  -- paused intents are queued ones, so their count adds nothing
  · rintro ⟨hqueued, hstarting, hrunning, hleases, -⟩
    refine ⟨hleases, fun x hx ht => ?_⟩
    have hs := hstarting x hx
    have hr := hrunning x hx
    cases hstate : x.state <;>
      simp_all [startingBatchId, runningBatchId, WorkIntentState.isTerminal]
  · rintro ⟨hleases, hdone⟩
    have hterminal : ∀ x ∈ s.associated r, x.state.isTerminal := by
      intro x hx
      simpa using hdone x hx
    refine ⟨fun x hx => ?_, fun x hx => ?_, fun x hx => ?_, hleases, fun x hx => ?_⟩ <;>
    · have ht := hterminal x hx
      cases hstate : x.state <;>
        simp_all [startingBatchId, runningBatchId, WorkIntentState.isTerminal]

theorem OpenIntent.congr {s s' : CoordinatorState} {r i : String} (h : s.OpenIntent r i)
    (he : s'.intents.lookup i = s.intents.lookup i) : s'.OpenIntent r i := by
  obtain ⟨x, hx, hr, ht⟩ := h
  exact ⟨x, he.trans hx, hr, ht⟩

theorem OpenIntent.setIntentStates {s : CoordinatorState} {r i : String} (h : s.OpenIntent r i)
    {ids : List String} {state : WorkIntentState}
    (he : i ∈ ids → state.isTerminal = false) : (s.setIntentStates ids state).OpenIntent r i := by
  obtain ⟨x, hx, hr, ht⟩ := h
  by_cases hi : i ∈ ids
  · exact ⟨{ x with state }, by simp [hi, hx], hr, he hi⟩
  · exact ⟨x, by simp [hi, hx], hr, ht⟩

theorem mem_sortedSet {l : List String} {r : String} : r ∈ sortedSet l ↔ r ∈ l := by
  rw [sortedSet, List.mem_insertionSort, List.mem_dedup]

end CoordinatorState

open CoordinatorState (mem_sortedSet)

def Outcome.Publishes {ρ : Type} (o : Outcome ρ) (r : String) : Prop :=
  .applyWorkSummary (o.state.runSummaryLocked r) ∈ o.calls

def Outcome.OnlyPublishes {ρ : Type} (o : Outcome ρ) : Prop :=
  ∃ runIds, o.calls = publishRunSummaries (o.state.runSummariesLocked runIds)

namespace SlotWorkCoordinator

variable {c : SlotWorkCoordinator} {s : CoordinatorState} {summary : RunWorkSummary}
  {runIds : List String}

theorem mem_publishRunSummaries :
    .applyWorkSummary summary ∈ publishRunSummaries (s.runSummariesLocked runIds) ↔
      ∃ r ∈ runIds, s.runSummaryLocked r = summary := by
  simp [publishRunSummaries, CoordinatorState.runSummariesLocked, mem_sortedSet]

variable {r : String}

theorem mem_publish (h : r ∈ runIds) :
    .applyWorkSummary (s.runSummaryLocked r) ∈
      publishRunSummaries (s.runSummariesLocked runIds) :=
  mem_publishRunSummaries.mpr ⟨r, h, rfl⟩

theorem abortEnqueue_calls (lease : EnqueueLease) :
    ∃ aborts runIds, (c.abortEnqueue s lease).calls =
        aborts ++ publishRunSummaries ((c.abortEnqueue s lease).state.runSummariesLocked runIds) ∧
      ∀ call ∈ aborts, ∃ binding, call = .abortBinding binding := by
  rw [abortEnqueue]
  split
  · exact ⟨[], [], rfl, by simp⟩
  · rename_i record hrecord
    split
    · exact ⟨[], [], rfl, by simp⟩
    · refine ⟨_, _, rfl, fun call hcall => ?_⟩
      split at hcall
      · exact ⟨record.binding, List.mem_singleton.mp hcall⟩
      · cases hcall

section

variable (bindEnqueue : EnqueueRequest → RunBinding)
include bindEnqueue

/-- Every other operation only publishes, and only the state that it leaves behind. -/
theorem exec_onlyPublishes {op : Op} (hop : ∀ lease, op ≠ .abortEnqueue lease) :
    (c.exec bindEnqueue s op).OnlyPublishes := by
  have hterminal : ∀ b state, (c.terminalizeBatch s b state).OnlyPublishes := by
    intro b state
    rw [terminalizeBatch]
    split
    · exact ⟨[], rfl⟩
    · exact ⟨_, rfl⟩
  cases op with
  | acquireEnqueue request =>
    show (c.acquireEnqueue s bindEnqueue request).OnlyPublishes
    simp only [acquireEnqueue]
    split <;> exact ⟨[], rfl⟩
  | commitEnqueue lease m now =>
    show (c.commitEnqueue s lease m now).OnlyPublishes
    rw [commitEnqueue]
    split
    · exact ⟨[], rfl⟩
    · exact ⟨_, rfl⟩
  | abortEnqueue lease => exact absurd rfl (hop lease)
  | reconcileMailbox t unread role now => exact ⟨[], rfl⟩
  | next t =>
    show (c.next s t).OnlyPublishes
    rcases c.next_cases s t with ⟨-, hcalls, -⟩ | ⟨slot, p, -, -, -, -, -, -, hclaim⟩
    · exact ⟨[], hcalls⟩
    · rw [hclaim]
      exact ⟨_, rfl⟩
  | markStarted b turnId now =>
    show (c.markStarted s b turnId now).OnlyPublishes
    rw [markStarted]
    split
    · exact ⟨[], rfl⟩
    · exact ⟨_, rfl⟩
  | retryStart b =>
    show (c.retryStart s b).OnlyPublishes
    rw [retryStart]
    split
    · exact ⟨[], rfl⟩
    · exact ⟨_, rfl⟩
  | completeBatch b => exact hterminal b _
  | failBatch b classification => exact hterminal b _
  | cancelBatch b classification => exact hterminal b _
  | cancelRun r order => exact ⟨[r], rfl⟩
  | completeSignals t ids =>
    show (completeSignals s t ids).OnlyPublishes
    rw [completeSignals]
    split
    · exact ⟨[], rfl⟩
    · exact ⟨_, rfl⟩
  | pauseSlot t => exact ⟨[], rfl⟩
  | setRuntimeConstraint t constraint order =>
    show (setRuntimeConstraint s t constraint order).OnlyPublishes
    simp only [setRuntimeConstraint]
    split
    · exact ⟨[], rfl⟩
    · exact ⟨_, rfl⟩
  | removeSlot t =>
    show (removeSlot s t).OnlyPublishes
    simp only [removeSlot]
    split
    · exact ⟨[], rfl⟩
    · exact ⟨_, rfl⟩
  | stop => exact ⟨_, rfl⟩

/-- The published summaries are those of the state that the call leaves behind. -/
theorem exec_calls (op : Op) (h : .applyWorkSummary summary ∈ (c.exec bindEnqueue s op).calls) :
    (c.exec bindEnqueue s op).state.runSummaryLocked summary.teamRunId = summary := by
  by_cases hop : ∃ lease, op = .abortEnqueue lease
  · obtain ⟨lease, rfl⟩ := hop
    obtain ⟨aborts, runIds, hcalls, haborts⟩ := abortEnqueue_calls (c := c) (s := s) lease
    simp only [exec, Outcome.map, hcalls, List.mem_append] at h ⊢
    rcases h with h | h
    · obtain ⟨binding, hbinding⟩ := haborts _ h
      cases hbinding
    · obtain ⟨r, -, rfl⟩ := mem_publishRunSummaries.mp h
      rfl
  · obtain ⟨runIds, hcalls⟩ := exec_onlyPublishes (c := c) (s := s) bindEnqueue (not_exists.mp hop)
    rw [hcalls] at h
    obtain ⟨r, -, hr⟩ := mem_publishRunSummaries.mp h
    rw [← hr]
    rfl

/-- Only `abort_enqueue` drops a binding. -/
theorem exec_aborts (op : Op) {binding : RunBinding}
    (h : .abortBinding binding ∈ (c.exec bindEnqueue s op).calls) :
    ∃ lease, op = .abortEnqueue lease := by
  by_contra hop
  obtain ⟨runIds, hcalls⟩ := exec_onlyPublishes (c := c) (s := s) bindEnqueue (not_exists.mp hop)
  rw [hcalls] at h
  simp [publishRunSummaries] at h

end

variable {w : Tracked} {i : String}

theorem Sound.terminalizeBatch_openIntent (h : c.Sound w) {b : WorkBatch} (hb : b ∈ w.handed)
    (state : WorkIntentState) {r : String} (hi : w.state.OpenIntent r i) :
    (c.terminalizeBatch w.state b state).state.OpenIntent r i ∨
      (c.terminalizeBatch w.state b state).Publishes r := by
  obtain ⟨x, hx, hr, -⟩ := id hi
  rw [terminalizeBatch]
  split
  · exact .inl hi
  · by_cases hmem : i ∈ b.intentIds
    · -- the run of an intent of the batch is among the runs of the batch
      refine .inr (mem_publish (((h.describes b hb).runs r).mpr ⟨i, hmem, x.asQueued, ?_, hr⟩))
      rw [CoordinatorState.enqueuedAs, hx, Option.map_some]
    · exact .inl (hi.setIntentStates fun h => absurd h hmem)

theorem cancelRun_openIntent (hk : s.Keyed) (q : String) (order : IterOrder WorkIntent)
    {r : String} (hi : s.OpenIntent r i) :
    (cancelRun s q order).state.OpenIntent r i ∨ (cancelRun s q order).Publishes r := by
  obtain ⟨x, hx, hr, ht⟩ := hi
  by_cases hq : r = q
  · subst hq
    exact .inr (List.mem_singleton.mpr rfl)
  · have hne : x.teamRunId ≠ some q := by simpa [hr] using hq
    have hlookup := lookup_cancelRun hk q order hx
    left
    split at hlookup
    · exact ⟨_, hlookup, hr, by simp [releasedBy, hne, WorkIntentState.isTerminal]⟩
    · rw [if_neg fun hq => hne hq.1] at hlookup
      exact ⟨x, hlookup, hr, ht⟩

theorem completeSignals_openIntent (t : String) (ids : List String) {r : String}
    (hi : s.OpenIntent r i) :
    (completeSignals s t ids).state.OpenIntent r i ∨ (completeSignals s t ids).Publishes r := by
  obtain ⟨x, hx, hr, -⟩ := id hi
  rw [completeSignals]
  split
  · exact .inl hi
  · by_cases hmem : i ∈ ids
    · refine .inr (mem_publish (List.mem_filterMap.mpr ⟨i, hmem, ?_⟩))
      rw [hx, Option.bind_some, hr]
    · exact .inl (hi.setIntentStates fun h => absurd h hmem)

theorem setRuntimeConstraint_openIntent (hk : s.Keyed) (t : String)
    (constraint : RuntimeConstraint) (order : IterOrder WorkIntent) {r : String}
    (hi : s.OpenIntent r i) :
    (setRuntimeConstraint s t constraint order).state.OpenIntent r i ∨
      (setRuntimeConstraint s t constraint order).Publishes r := by
  obtain ⟨x, hx, hr, -⟩ := id hi
  simp only [setRuntimeConstraint]
  split
  · exact .inl hi
  · by_cases hended : i ∈ ((liveIntents s order t).filter fun intent =>
        !survives constraint intent).map (·.intentId)
    · obtain ⟨y, hy, rfl⟩ := List.mem_map.mp hended
      obtain ⟨hlookup, -, -⟩ := (mem_liveIntents hk).mp (List.mem_of_mem_filter hy)
      obtain rfl : x = y := by simpa [hx] using hlookup
      exact .inr (mem_publish (List.mem_filterMap.mpr ⟨x, hy, hr⟩))
    · exact .inl ((hi.setIntentStates fun _ => rfl).setIntentStates fun h => absurd h hended)

theorem removeSlot_openIntent (hL : s.ledger.Coherent) (hk : s.Keyed) (t : String) {r : String}
    (hi : s.OpenIntent r i) :
    (removeSlot s t).state.OpenIntent r i ∨ (removeSlot s t).Publishes r := by
  obtain ⟨x, hx, hr, -⟩ := id hi
  simp only [removeSlot, cancelListed_removed hL hk t]
  by_cases hlisted : i ∈ removedIntentIds s t
  · refine .inr (mem_publish (List.mem_filterMap.mpr ⟨i, hlisted, ?_⟩))
    rw [hx, Option.bind_some, hr]
  · exact .inl (hi.setIntentStates fun h => absurd h hlisted)

theorem publishes_stop (h : r ∈ s.allRunIds) : (stop s).Publishes r :=
  List.mem_map_of_mem (List.mem_map_of_mem h)

variable {call : Call}

/-- An open intent of a run stays open, or the call publishes the summary of the run;
the exception is `reconcile_mailbox`. -/
theorem Sound.openIntent (h : c.Sound w) (hcall : c.machine.admits w call)
    (hop : ∀ t unread role now, call.op ≠ .reconcileMailbox t unread role now) {r : String}
    (hi : w.state.OpenIntent r i) :
    (c.fire w call).state.OpenIntent r i ∨
      (c.exec call.bindEnqueue w.state call.op).Publishes r := by
  obtain ⟨x, hx, hr, ht⟩ := id hi
  cases hends : call.op.endsIntents with
  | false =>
    obtain ⟨state, hx', -⟩ := h.persists hcall hx
    obtain ⟨y, hy, hopen⟩ := h.staysOpen hends hx ht
    obtain rfl : { x with state } = y := by simpa [hx'] using hy
    exact .inl ⟨_, hx', hr, hopen⟩
  | true =>
    obtain ⟨op, bindEnqueue⟩ := call
    cases op with
    | reconcileMailbox t unread role now => exact absurd rfl (hop t unread role now)
    | completeBatch b | failBatch b classification =>
      exact h.terminalizeBatch_openIntent (hcall b rfl) _ hi
    | cancelBatch b classification => exact h.terminalizeBatch_openIntent (hcall b rfl) _ hi
    | cancelRun q order => exact cancelRun_openIntent h.keyed q order hi
    | completeSignals t ids => exact completeSignals_openIntent t ids hi
    | setRuntimeConstraint t constraint order =>
      exact setRuntimeConstraint_openIntent h.keyed t constraint order hi
    | removeSlot t => exact removeSlot_openIntent h.coherent h.keyed t hi
    | stop =>
      refine .inr (publishes_stop ?_)
      rw [CoordinatorState.allRunIds, mem_sortedSet, List.mem_append]
      exact .inl (List.mem_filterMap.mpr ⟨x, Dict.mem_values.mpr ⟨i, hx⟩, hr⟩)
    | _ => simp [Op.endsIntents] at hends

def LeasesDrawn (c : SlotWorkCoordinator) (s : CoordinatorState) : Prop :=
  ∀ k record, s.enqueueLeases.lookup k = some record → c.generateId.Drawn s.generated k

theorem exec_leasesDrawn (hk : s.LeasesKeyed) (h : c.LeasesDrawn s)
    (bindEnqueue : EnqueueRequest → RunBinding) (op : Op) :
    c.LeasesDrawn (c.exec bindEnqueue s op).state := by
  intro k record hrecord
  have hle := (c.exec_extends s bindEnqueue op).generated
  rcases c.exec_leases s hk bindEnqueue op hrecord with hold | ⟨request, rfl, -, rfl⟩
  · exact (h k record hold).mono hle
  · simp only [exec, Outcome.map] at hrecord ⊢
    unfold acquireEnqueue at hrecord ⊢
    dsimp only at hrecord ⊢
    split at hrecord
    · exact absurd (h _ record hrecord) (c.generateId.not_drawn _)
    · exact c.generateId.drawn_draw (Nat.lt_succ_self _)

theorem leasesDrawn_of_reachable (h : c.machine.Reachable w) :
    c.LeasesDrawn w.state := by
  refine h.invariant_of_reachable (P := fun w => c.LeasesDrawn w.state) ?_
    fun w call hreach hw _ =>
      exec_leasesDrawn (sound_of_reachable hreach).fenced.leases hw call.bindEnqueue call.op
  rintro _ rfl k record hk
  simp [Tracked.empty, CoordinatorState.empty] at hk

variable {lease : EnqueueLease}

/-- The lease that a successful commit uses up is stored as the caller shows it. -/
theorem lease_of_checkCommit {messageId : Option String} {slot : SlotState}
    (h : c.checkCommit s lease messageId = .ok slot) :
    ∃ record, s.enqueueLeases.lookup lease.leaseId = some record ∧ record.lease = lease := by
  unfold checkCommit at h
  split at h
  · cases h
  · rename_i record hrecord
    split at h
    · cases h
    · rename_i howner
      rw [not_or, not_not] at howner
      exact ⟨record, hrecord, howner.1⟩

theorem commitEnqueue_hasLease (lease : EnqueueLease) (m : Option String) (now : TimestampMs)
    (h : s.HasLease r) :
    (c.commitEnqueue s lease m now).state.HasLease r ∨
      (c.commitEnqueue s lease m now).Publishes r := by
  obtain ⟨k, record, hrecord, hr⟩ := id h
  rw [commitEnqueue]
  split
  · exact .inl h
  · rename_i slot hcheck
    obtain ⟨record', hrecord', rfl⟩ := c.lease_of_checkCommit hcheck
    by_cases hid : k = record'.lease.leaseId
    · subst hid
      obtain rfl : record = record' := Option.some.inj (hrecord.symm.trans hrecord')
      exact .inr (mem_publish (by simp [hr]))
    · exact .inl ⟨k, record, by rw [Dict.lookup_erase', if_neg hid, hrecord], hr⟩

theorem abortEnqueue_hasLease (hk : s.LeasesKeyed) (lease : EnqueueLease) (h : s.HasLease r) :
    (c.abortEnqueue s lease).state.HasLease r ∨ (c.abortEnqueue s lease).Publishes r := by
  obtain ⟨k, record, hrecord, hr⟩ := id h
  rw [abortEnqueue]
  split
  · exact .inl h
  · rename_i record' hrecord'
    split
    · -- the record of another owner is taken out and put back under its own id
      refine .inl ⟨k, record, ?_, hr⟩
      rw [Dict.lookup_insert', Dict.lookup_erase', hk _ _ hrecord']
      split
      · rename_i hid
        rw [← hrecord', ← hid, hrecord]
      · exact hrecord
    · rename_i howner
      rw [not_or, not_not] at howner
      by_cases hid : k = lease.leaseId
      · subst hid
        obtain rfl : record = record' := Option.some.inj (hrecord.symm.trans hrecord')
        refine .inr (List.mem_append_right _ (mem_publish ?_))
        rw [← howner.1, hr]
        exact List.mem_singleton.mpr rfl
      · exact .inl ⟨k, record, by rw [Dict.lookup_erase', if_neg hid, hrecord], hr⟩

/-- A lease of a run stays, or the call publishes the summary of the run. -/
theorem exec_hasLease (hk : s.LeasesKeyed) (hd : c.LeasesDrawn s)
    (bindEnqueue : EnqueueRequest → RunBinding) (op : Op) (h : s.HasLease r) :
    (c.exec bindEnqueue s op).state.HasLease r ∨ (c.exec bindEnqueue s op).Publishes r := by
  obtain ⟨k, record, hrecord, hr⟩ := id h
  cases hop : op.touchesLeases with
  | false =>
    refine .inl ⟨k, record, ?_, hr⟩
    rw [c.exec_leases_eq s bindEnqueue op hop, hrecord]
  | true =>
    cases op with
    | acquireEnqueue request =>
      refine .inl ⟨k, record, ?_, hr⟩
      simp only [exec, Outcome.map]
      rcases c.acquireEnqueue_cases s bindEnqueue request with ⟨e, -, he⟩ | ⟨-, he⟩
      · rw [he, hrecord]
      · rw [he, Dict.lookup_insert', if_neg (hd k record hrecord).ne_draw, hrecord]
    | commitEnqueue lease m now => exact commitEnqueue_hasLease lease m now h
    | abortEnqueue lease => exact abortEnqueue_hasLease hk lease h
    | cancelRun q order =>
      by_cases hq : r = q
      · subst hq
        exact .inr (List.mem_singleton.mpr rfl)
      · exact .inl ⟨k, record, (cancelRun_leases s hk q order k).mpr
          ⟨hrecord, by simpa [hr] using hq⟩, hr⟩
    | stop =>
      refine .inr (publishes_stop ?_)
      rw [CoordinatorState.allRunIds, mem_sortedSet, List.mem_append]
      exact .inr (List.mem_filterMap.mpr ⟨record, Dict.mem_values.mpr ⟨k, hrecord⟩, hr⟩)
    | _ => simp [Op.touchesLeases] at hop

/-- An operation other than `reconcile_mailbox` publishes the summary of a run whose
last work it ends. -/
theorem publishes_of_ends (hw : c.machine.Reachable w) (call : Call)
    (hcall : c.machine.admits w call)
    (hop : ∀ t unread role now, call.op ≠ .reconcileMailbox t unread role now)
    (h : w.state.HasWork r) (h' : ¬(c.fire w call).state.HasWork r) :
    (c.exec call.bindEnqueue w.state call.op).Publishes r := by
  have hsound := sound_of_reachable hw
  rw [CoordinatorState.HasWork, not_or, not_exists] at h'
  rcases h with h | ⟨i, hi⟩
  · exact (exec_hasLease hsound.fenced.leases (leasesDrawn_of_reachable hw) call.bindEnqueue
      call.op h).resolve_left h'.1
  · exact (hsound.openIntent hcall hop hi).resolve_left (h'.2 i)

def Binds (c : SlotWorkCoordinator) (w : Tracked) (call : Call) (r : String) : Prop :=
  ∃ request lease, call.op = .acquireEnqueue request ∧
    (request.binding = .userVisible ∨ request.binding = .activeRunOrBackground) ∧
    (c.acquireEnqueue w.state call.bindEnqueue request).result = .ok lease ∧
    (call.bindEnqueue request).teamRunId = some r

theorem Sound.hasWork_of_batch (h : c.Sound w) {t r : String} {b : WorkBatch}
    (hb : w.state.batchOf t = some b) (hr : r ∈ b.teamRunIds) : w.state.HasWork r := by
  obtain ⟨i, hi, x, hx, hxr⟩ := ((h.describes b (h.fenced.held t b hb).1).runs r).mp hr
  obtain ⟨active, ha, rfl⟩ := Option.map_eq_some_iff.mp hb
  obtain ⟨y, hy, -, hp⟩ := CoordinatorState.lookup_of_active h.coherent ha hi
  obtain rfl : y.asQueued = x := by simpa [CoordinatorState.enqueuedAs, hy] using hx
  exact .inr ⟨i, y, hy, hxr, by rw [← WorkIntentState.isDone_phase, hp]; rfl⟩

/-- The run of a granted lease has work already, or the port has bound the lease to it. -/
theorem Sound.grantedLease (h : c.Sound w) {request : EnqueueRequest}
    (hop : call.op = .acquireEnqueue request)
    (hok : (c.acquireEnqueue w.state call.bindEnqueue request).result = .ok lease)
    (hr : (c.grantedLease w.state call.bindEnqueue request).lease.teamRunId = some r) :
    w.state.HasWork r ∨ c.Binds w call r := by
  simp only [SlotWorkCoordinator.grantedLease, requestBinding] at hr
  cases hbinding : request.binding with
  | background => simp [hbinding] at hr
  | inheritRunningBatch t =>
    simp only [hbinding] at hr
    obtain ⟨active, ha, hhead⟩ := Option.bind_eq_some_iff.mp hr
    exact .inl (h.hasWork_of_batch (t := t) (by rw [CoordinatorState.batchOf, ha]; rfl)
      (List.mem_of_mem_head? hhead))
  | userVisible =>
    simp only [hbinding] at hr
    exact .inr ⟨request, lease, hop, .inl hbinding, hok, hr⟩
  | activeRunOrBackground =>
    simp only [hbinding] at hr
    exact .inr ⟨request, lease, hop, .inr hbinding, hok, hr⟩

theorem created_hasLease {r : String} (habsent : w.state.intents.lookup i = none)
    (hi : (c.fire w call).state.OpenIntent r i) : w.state.HasLease r := by
  obtain ⟨x, hx, hr, -⟩ := hi
  rcases created_cases habsent hx with
    ⟨lease, m, now, slot, -, hcheck, rfl⟩ | ⟨slotId, unread, role, now, -, s₀, m, -, rfl⟩
  · obtain ⟨record, hrecord, rfl⟩ := c.lease_of_checkCommit hcheck
    exact ⟨_, record, hrecord, hr⟩
  · simp [recoveryIntent] at hr

/-- Work for a run comes from work for that run or from a binding to it. -/
theorem hasWork_of_fire (h : c.Sound w) (call : Call) (hcall : c.machine.admits w call)
    (hr : (c.fire w call).state.HasWork r) :
    w.state.HasWork r ∨ c.Binds w call r := by
  rcases hr with ⟨k, record, hrecord, hrun⟩ | ⟨i, hi⟩
  · rcases c.exec_leases w.state h.fenced.leases call.bindEnqueue call.op hrecord with
      hold | ⟨request, hop, rfl, rfl⟩
    · exact .inl (.inl ⟨k, record, hold, hrun⟩)
    · rcases c.acquireEnqueue_cases w.state call.bindEnqueue request with ⟨e, -, he⟩ | ⟨hok, -⟩
      · simp only [fire, hop, exec, Outcome.map, he] at hrecord
        exact .inl (.inl ⟨_, _, hrecord, hrun⟩)
      · exact h.grantedLease hop hok hrun
  · cases hlookup : w.state.intents.lookup i with
    | none => exact .inl (.inl (created_hasLease hlookup hi))
    | some x =>
      obtain ⟨state, hx, hfinal⟩ := h.persists hcall hlookup
      obtain ⟨y, hy, hyr, ht⟩ := hi
      obtain rfl : { x with state } = y := by simpa [hx] using hy
      refine .inl (.inr ⟨i, x, hlookup, hyr, ?_⟩)
      -- an intent that had ended would still be as it was
      by_contra hterminal
      rw [Bool.not_eq_false] at hterminal
      rw [hfinal hterminal, hterminal] at ht
      cases ht

end SlotWorkCoordinator

end AionCore.Team
