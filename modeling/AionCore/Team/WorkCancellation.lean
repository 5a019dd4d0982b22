import AionCore.Team.WorkRevocation

/-!
# The cancellation of a run

The exact postcondition of `cancel_run`: which work ends, what goes back to its queue, what the
result reports, and what stays as it is.
-/

namespace AionCore.Team

namespace SlotWorkCoordinator

variable {c : SlotWorkCoordinator} {s : CoordinatorState} {w : Tracked} {r t i : String}

def Takes (s : CoordinatorState) (r t : String) (active : ActiveBatch) : Prop :=
  s.activeOf t = some active ∧ ∃ i ∈ active.batch.intentIds, intentOfRun s r i

/-- What `cancel_run` does to a state. -/
structure CancelsRun (s : CoordinatorState) (r : String) (out : Outcome CancelRunWorkResult) :
    Prop where
  /-- The leases of the run are gone, the others are unchanged. -/
  leases : ∀ k record, out.state.enqueueLeases.lookup k = some record ↔
    s.enqueueLeases.lookup k = some record ∧ record.lease.teamRunId ≠ some r
  /-- No intent of the run is left open. -/
  complete : ∀ i x, out.state.intents.lookup i = some x → x.teamRunId = some r →
    x.state.isTerminal
  /-- The batches that held an intent of the run are reported, each once. -/
  distinct : (out.result.cancelTargets.map (·.batch.batchId)).Nodup
  targets : ∀ target, target ∈ out.result.cancelTargets ↔
    ∃ t active, Takes s r t active ∧ target = ⟨active.batch, active.turnId⟩
  /-- The messages of the intents that have been cancelled are reported. -/
  messages : out.result.terminalMessageIds.Perm ((s.intents.values.filter fun x =>
    !x.state.isTerminal && (out.state.intents.lookup x.intentId).any (·.state.isCancelled)).filterMap
      (·.mailboxMessageId))
  /-- The other intents of such a batch are queued again. -/
  requeued : ∀ t active, Takes s r t active → ∀ i ∈ active.batch.intentIds, ∀ x,
    s.intents.lookup i = some x → x.teamRunId ≠ some r →
      out.state.intents.lookup i = some { x with state := .queued }
  /-- They keep the order of the batch and come ahead of what was waiting there. -/
  queues : ∀ t active, Takes s r t active → out.state.activeOf t = none ∧ ∀ p,
    out.state.queueOf t p =
      (active.batch.intentIds.filter fun i => (s.intents.lookup i).any fun x =>
        x.teamRunId ≠ some r ∧ x.priority = p) ++
      (s.queueOf t p).filter fun i => !intentOfRun s r i
  /-- An intent of no such batch and not of the run is unchanged. -/
  intents : ∀ i x, s.intents.lookup i = some x → x.teamRunId ≠ some r →
    (∀ t active, Takes s r t active → i ∉ active.batch.intentIds) →
      out.state.intents.lookup i = some x
  /-- A slot without such a batch loses the queued intents of the run only. -/
  slots : ∀ t, (∀ active, ¬Takes s r t active) →
    out.state.slots.lookup t = (s.slots.lookup t).map fun slot =>
      { slot with
        foreground := slot.foreground.filter fun i => !intentOfRun s r i
        control := slot.control.filter fun i => !intentOfRun s r i
        background := slot.background.filter fun i => !intentOfRun s r i }
  /-- A slot without any work of the run is unchanged. -/
  untouched : ∀ t, (∀ active, ¬Takes s r t active) →
    (∀ i ∈ s.queuesOf t, intentOfRun s r i = false) →
      out.state.slots.lookup t = s.slots.lookup t

/-- The entries of a batch that `cancel_run` puts back. -/
def requeuedEntries (s : CoordinatorState) (r : String) (ids : List String) :
    List (WorkPriority × String) :=
  (ids.filter fun id => !intentOfRun s r id).filterMap fun id =>
    (s.intents.lookup id).map fun intent => (intent.priority, id)

def releasedSlot (s : CoordinatorState) (r : String) (ids : List String) (slot : SlotState) :
    SlotState :=
  (requeuedEntries s r ids).reverse.foldl (fun slot entry => slot.pushFront entry.1 entry.2)
    { slot with active := none }

variable {s' : CoordinatorState}

theorem intentOfRun_congr (h : ∀ i, s'.enqueuedAs i = s.enqueuedAs i) (r i : String) :
    intentOfRun s' r i = intentOfRun s r i := by
  have hi := h i
  simp only [CoordinatorState.enqueuedAs] at hi
  have hany : ∀ o : Option WorkIntent, o.any (·.teamRunId = some r) =
      (o.map (·.asQueued)).any (·.teamRunId = some r) := by
    intro o
    cases o <;> rfl
  rw [intentOfRun, hany, hi, ← hany, intentOfRun]

theorem requeuedEntries_congr (h : ∀ i, s'.enqueuedAs i = s.enqueuedAs i) (r : String)
    (ids : List String) :
    requeuedEntries s' r ids = requeuedEntries s r ids := by
  have hentry : ∀ id, (s'.intents.lookup id).map (fun intent => (intent.priority, id)) =
      (s.intents.lookup id).map fun intent => (intent.priority, id) := by
    intro id
    have hid := congrArg (Option.map fun intent : WorkIntent => (intent.priority, id)) (h id)
    simpa only [CoordinatorState.enqueuedAs, Option.map_map, Function.comp_def,
      WorkIntent.asQueued] using hid
  simp only [requeuedEntries, hentry, intentOfRun_congr h]

theorem slots_cancelActive (r : String) (target : String × ActiveBatch) (t : String) :
    (cancelActive r s target).slots.lookup t =
      if t = target.1 then
        (s.slots.lookup t).map (releasedSlot s r target.2.batch.intentIds)
      else s.slots.lookup t := by
  show ((s.modifySlot target.1 (releasedSlot s r target.2.batch.intentIds)).slots).lookup t = _
  rw [CoordinatorState.modifySlot, Dict.lookup_modify]

theorem slots_foldl_cancelActive (r : String) {targets : List (String × ActiveBatch)}
    (hn : (targets.map (·.1)).Nodup) (t : String) :
    (targets.foldl (cancelActive r) s).slots.lookup t =
      (targets.find? (·.1 = t)).elim (s.slots.lookup t) fun target =>
        (s.slots.lookup t).map (releasedSlot s r target.2.batch.intentIds) := by
  induction targets generalizing s with
  | nil => rfl
  | cons target targets ih =>
    rw [List.map_cons, List.nodup_cons] at hn
    have hsame : ∀ ids, releasedSlot (cancelActive r s target) r ids = releasedSlot s r ids := by
      intro ids
      funext slot
      rw [releasedSlot, requeuedEntries_congr (cancelActive_retains s r target).enqueuedAs]
      rfl
    rw [List.foldl_cons, ih hn.2, slots_cancelActive]
    by_cases ht : target.1 = t
    · have hnone : targets.find? (·.1 = t) = none := by
        rw [List.find?_eq_none]
        intro other hother he
        refine hn.1 (List.mem_map.mpr ⟨other, hother, ?_⟩)
        rw [ht]
        exact of_decide_eq_true he
      simp only [hnone, List.find?_cons, ht, decide_true, if_true, Option.elim_none,
        Option.elim_some]
    · simp only [List.find?_cons, ht, decide_false, hsame, if_neg (Ne.symm ht)]

theorem slots_foldl_cancelQueued (ids : List String) (t : String) :
    (ids.foldl cancelQueued s).slots.lookup t =
      (s.slots.lookup t).map fun slot =>
        (ids.filter fun i => (s.intents.lookup i).any (·.slotId = t)).foldl .removeQueued slot := by
  induction ids generalizing s with
  | nil => simp
  | cons i ids ih =>
    have hslot : ∀ j, ((cancelQueued s i).intents.lookup j).any (·.slotId = t) =
        (s.intents.lookup j).any (·.slotId = t) := by
      intro j
      have hj := (cancelQueued_retains s i).enqueuedAs j
      have hany : ∀ o : Option WorkIntent, o.any (·.slotId = t) =
          (o.map (·.asQueued)).any (·.slotId = t) := by
        intro o
        cases o <;> rfl
      rw [CoordinatorState.enqueuedAs, CoordinatorState.enqueuedAs] at hj
      rw [hany, hj, ← hany]
    rw [List.foldl_cons, ih]
    simp only [hslot]
    cases hx : s.intents.lookup i with
    | none => simp [cancelQueued, hx]
    | some x =>
      by_cases ht : x.slotId = t
      · simp [cancelQueued, hx, ht, CoordinatorState.modifySlot, CoordinatorState.setIntentStates,
          Function.comp_def]
      · simp [cancelQueued, hx, ht, Ne.symm ht, CoordinatorState.modifySlot,
          CoordinatorState.setIntentStates]

/-- The state between the two loops of `cancel_run`. -/
def midway (s : CoordinatorState) (r : String) : CoordinatorState :=
  (activeSlotsOfRun s r).foldl (cancelActive r) s

def queuedOfRun (s : CoordinatorState) (r : String) (order : IterOrder WorkIntent) :
    List WorkIntent :=
  (order.arrange (midway s r).intents.values).filter fun intent =>
    intent.teamRunId = some r ∧ intent.state = .queued

theorem midway_retains (s : CoordinatorState) (r : String) :
    CoordinatorState.Retains s (midway s r) :=
  CoordinatorState.Retains.foldl (fun s target => cancelActive_retains s r target) s _

theorem mem_takes {active : ActiveBatch} :
    (t, active) ∈ activeSlotsOfRun s r ↔ Takes s r t active := by
  constructor
  · intro h
    obtain ⟨ha, hany⟩ := activeOf_of_mem_activeSlotsOfRun h
    exact ⟨ha, List.any_eq_true.mp hany⟩
  · rintro ⟨ha, hany⟩
    obtain ⟨slot, hslot, -⟩ := Option.bind_eq_some_iff.mp ha
    simp only [activeSlotsOfRun, List.mem_filterMap, Option.bind_eq_some_iff]
    refine ⟨t, ?_, active, ha, if_pos (List.any_eq_true.mpr hany)⟩
    rw [Dict.sortedKeys, List.mem_insertionSort]
    exact AList.mem_keys.mpr (AList.lookup_isSome.mp (by rw [hslot]; rfl))

theorem find_activeSlotsOfRun (s : CoordinatorState) (r t : String) :
    (∃ active, Takes s r t active ∧
      (activeSlotsOfRun s r).find? (·.1 = t) = some (t, active)) ∨
    (∀ active, ¬Takes s r t active) ∧ (activeSlotsOfRun s r).find? (·.1 = t) = none := by
  cases hfind : (activeSlotsOfRun s r).find? (·.1 = t) with
  | some target =>
    have ht := List.find?_some hfind
    obtain rfl : target.1 = t := by simpa using ht
    exact .inl ⟨target.2, mem_takes.mp (List.mem_of_find?_eq_some hfind), rfl⟩
  | none =>
    refine .inr ⟨fun active htakes => ?_, rfl⟩
    rw [List.find?_eq_none] at hfind
    exact hfind _ (mem_takes.mpr htakes) (decide_eq_true rfl)

variable {x : WorkIntent}

/-- An intent that some batch holds is in a batch that `cancel_run` takes, or in none. -/
theorem Sound.taken_iff (hw : c.Sound w) (hx : w.state.intents.lookup i = some x) :
    (∃ target ∈ activeSlotsOfRun w.state r, i ∈ target.2.batch.intentIds) ↔
      ∃ active, Takes w.state r x.slotId active ∧ i ∈ active.batch.intentIds := by
  constructor
  · rintro ⟨⟨t, active⟩, hmem, hi⟩
    have htakes := mem_takes.mp hmem
    obtain ⟨y, hy, ht, -⟩ := CoordinatorState.lookup_of_active hw.coherent htakes.1 hi
    obtain rfl : x = y := Option.some.inj (hx.symm.trans hy)
    exact ⟨active, ht ▸ htakes, hi⟩
  · rintro ⟨active, htakes, hi⟩
    exact ⟨_, mem_takes.mpr htakes, hi⟩

theorem Sound.not_taken_of_queued (hw : c.Sound w) (hx : w.state.intents.lookup i = some x)
    (hq : x.state = .queued) :
    ¬∃ target ∈ activeSlotsOfRun w.state r, i ∈ target.2.batch.intentIds := by
  rintro ⟨⟨t, active⟩, hmem, hi⟩
  obtain ⟨y, hy, -, hp⟩ :=
    CoordinatorState.lookup_of_active hw.coherent (mem_takes.mp hmem).1 hi
  obtain rfl : x = y := Option.some.inj (hx.symm.trans hy)
  rw [hq] at hp
  cases hp

/-- The second loop ends the intents of the run that were queued before the call. -/
theorem Sound.mem_queuedOfRun (hw : c.Sound w) (order : IterOrder WorkIntent) :
    i ∈ (queuedOfRun w.state r order).map (·.intentId) ↔
      ∃ x, w.state.intents.lookup i = some x ∧ x.teamRunId = some r ∧ x.state = .queued := by
  have hkeyed : (midway w.state r).Keyed :=
    hw.keyed.of_enqueuedAs (midway_retains w.state r).enqueuedAs
  have hlookup := lookup_foldl_cancelActive (s := w.state) r (activeSlotsOfRun w.state r) i
  have hmem : i ∈ (queuedOfRun w.state r order).map (·.intentId) ↔
      ∃ y, (midway w.state r).intents.lookup i = some y ∧ y.teamRunId = some r ∧
        y.state = .queued := by
    simp only [queuedOfRun, List.mem_map, List.mem_filter, IterOrder.mem_arrange,
      hkeyed.mem_values, decide_eq_true_eq]
    constructor
    · rintro ⟨y, ⟨hy, hp⟩, rfl⟩
      exact ⟨y, hy, hp⟩
    · rintro ⟨y, hy, hp⟩
      exact ⟨y, ⟨by rw [hkeyed i y hy, hy], hp⟩, hkeyed i y hy⟩
  rw [hmem]
  constructor
  · rintro ⟨y, hy, hrun, hq⟩
    have hy' : (midway w.state r).intents.lookup i = some y := hy
    rw [midway, hlookup] at hy'
    by_cases htaken : ∃ target ∈ activeSlotsOfRun w.state r, i ∈ target.2.batch.intentIds
    · -- what goes back to its queue does not belong to the run
      rw [if_pos htaken] at hy'
      obtain ⟨x, -, rfl⟩ := Option.map_eq_some_iff.mp hy'
      have hx : x.teamRunId = some r := hrun
      simp [releasedBy, hx] at hq
    · rw [if_neg htaken] at hy'
      exact ⟨y, hy', hrun, hq⟩
  · rintro ⟨x, hx, hrun, hq⟩
    refine ⟨x, ?_, hrun, hq⟩
    rw [midway, hlookup, if_neg (hw.not_taken_of_queued hx hq), hx]

theorem slots_cancelRun (s : CoordinatorState) (r : String) (order : IterOrder WorkIntent) :
    (cancelRun s r order).state.slots =
      (((queuedOfRun s r order).map (·.intentId)).foldl cancelQueued (midway s r)).slots := rfl

def removedFrom (s : CoordinatorState) (r t : String) (order : IterOrder WorkIntent) :
    List String :=
  ((queuedOfRun s r order).map (·.intentId)).filter fun i =>
    ((midway s r).intents.lookup i).any (·.slotId = t)

section

variable (hw : c.Sound w)
include hw

theorem Sound.mem_removedFrom (order : IterOrder WorkIntent) :
    i ∈ removedFrom w.state r t order ↔ ∃ x, w.state.intents.lookup i = some x ∧
      x.slotId = t ∧ x.teamRunId = some r ∧ x.state = .queued := by
  rw [removedFrom, List.mem_filter, hw.mem_queuedOfRun order]
  have hslot : ∀ x, w.state.intents.lookup i = some x →
      (((midway w.state r).intents.lookup i).any (·.slotId = t) = true ↔ x.slotId = t) := by
    intro x hx
    have hi := (midway_retains w.state r).enqueuedAs i
    rw [CoordinatorState.enqueuedAs, CoordinatorState.enqueuedAs, hx] at hi
    obtain ⟨y, hy, hxy⟩ := Option.map_eq_some_iff.mp hi
    have hsame : y.slotId = x.slotId := by
      simpa only [WorkIntent.asQueued] using congrArg (·.slotId) hxy
    rw [hy, Option.any_some, decide_eq_true_eq, hsame]
  constructor
  · rintro ⟨⟨x, hx, hrun, hq⟩, ht⟩
    exact ⟨x, hx, (hslot x hx).mp ht, hrun, hq⟩
  · rintro ⟨x, hx, ht, hrun, hq⟩
    exact ⟨⟨x, hx, hrun, hq⟩, (hslot x hx).mpr ht⟩

/-- Of a queue of the slot, the second loop takes out the intents of the run. -/
theorem Sound.removedFrom_iff (order : IterOrder WorkIntent) {p : WorkPriority}
    (hi : i ∈ w.state.queueOf t p) :
    i ∈ removedFrom w.state r t order ↔ intentOfRun w.state r i = true := by
  obtain ⟨x, hx, ht, -, hq⟩ := (CoordinatorState.mem_queueOf hw.coherent).mp hi
  have hrun : intentOfRun w.state r i = true ↔ x.teamRunId = some r := by
    rw [intentOfRun, hx, Option.any_some, decide_eq_true_eq]
  rw [hw.mem_removedFrom order, hrun]
  constructor
  · rintro ⟨y, hy, -, hyrun, -⟩
    obtain rfl : x = y := Option.some.inj (hx.symm.trans hy)
    exact hyrun
  · intro hxrun
    exact ⟨x, hx, ht, hxrun, hq⟩

/-- A slot whose batch stays loses the queued intents of the run. -/
theorem Sound.slots_kept (order : IterOrder WorkIntent)
    (hkept : ∀ active, ¬Takes w.state r t active) :
    (cancelRun w.state r order).state.slots.lookup t = (w.state.slots.lookup t).map fun slot =>
      { slot with
        foreground := slot.foreground.filter fun i => !intentOfRun w.state r i
        control := slot.control.filter fun i => !intentOfRun w.state r i
        background := slot.background.filter fun i => !intentOfRun w.state r i } := by
  have hnone : (activeSlotsOfRun w.state r).find? (·.1 = t) = none := by
    rcases find_activeSlotsOfRun w.state r t with ⟨active, htakes, -⟩ | ⟨-, hnone⟩
    · exact absurd htakes (hkept active)
    · exact hnone
  rw [slots_cancelRun, slots_foldl_cancelQueued, midway,
    slots_foldl_cancelActive r (nodup_activeSlotsOfRun w.state r), hnone, Option.elim_none]
  cases hslot : w.state.slots.lookup t with
  | none => rfl
  | some slot =>
    have hfilter : ∀ p, (slot.queue p).filter (· ∉ removedFrom w.state r t order) =
        (slot.queue p).filter fun i => !intentOfRun w.state r i := by
      intro p
      refine List.filter_congr fun i hi => ?_
      have hq : i ∈ w.state.queueOf t p := by
        rw [CoordinatorState.queueOf, hslot]
        exact hi
      by_cases hrun : intentOfRun w.state r i = true
      · simp [hrun, (hw.removedFrom_iff order hq).mpr hrun]
      · simp [hrun, mt (hw.removedFrom_iff order hq).mp hrun]
    refine congrArg some ?_
    refine (SlotState.foldl_removeQueued slot (removedFrom w.state r t order)).trans ?_
    have hf := hfilter .foreground
    have hcontrol := hfilter .control
    have hb := hfilter .background
    simp only [SlotState.queue] at hf hcontrol hb
    rw [hf, hcontrol, hb]

/-- A slot whose batch is taken: the other intents of the batch are in front. -/
theorem Sound.slots_taken (order : IterOrder WorkIntent) {active : ActiveBatch}
    (htakes : Takes w.state r t active) :
    (cancelRun w.state r order).state.activeOf t = none ∧ ∀ p,
      (cancelRun w.state r order).state.queueOf t p =
        (active.batch.intentIds.filter fun i => (w.state.intents.lookup i).any fun x =>
          x.teamRunId ≠ some r ∧ x.priority = p) ++
        (w.state.queueOf t p).filter fun i => !intentOfRun w.state r i := by
  obtain ⟨slot, hslot, -⟩ := Option.bind_eq_some_iff.mp htakes.1
  have hfind : (activeSlotsOfRun w.state r).find? (·.1 = t) = some (t, active) := by
    rcases find_activeSlotsOfRun w.state r t with ⟨active', htakes', hfind⟩ | ⟨hnone, -⟩
    · obtain rfl : active = active' := Option.some.inj (htakes.1.symm.trans htakes'.1)
      exact hfind
    · exact absurd htakes (hnone active)
  have hlookup : (cancelRun w.state r order).state.slots.lookup t =
      some ((removedFrom w.state r t order).foldl .removeQueued
        (releasedSlot w.state r active.batch.intentIds slot)) := by
    rw [slots_cancelRun, slots_foldl_cancelQueued]
    have hmid : (midway w.state r).slots.lookup t =
        some (releasedSlot w.state r active.batch.intentIds slot) := by
      rw [midway, slots_foldl_cancelActive r (nodup_activeSlotsOfRun w.state r), hfind, hslot]
      rfl
    rw [hmid]
    rfl
  constructor
  · rw [CoordinatorState.activeOf, hlookup, Option.bind_some,
      SlotState.active_foldl_removeQueued, releasedSlot, SlotState.active_foldl_pushFront]
  · intro p
    rw [CoordinatorState.queueOf, hlookup, Option.elim_some, SlotState.queue_foldl_removeQueued,
      releasedSlot, SlotState.queue_foldl_pushFront, requeuedEntries,
      claimed_requeue, List.filter_append]
    congr 1
    · -- what goes back is not of the run, so the second loop leaves it
      rw [List.filter_filter, List.filter_filter]
      refine List.filter_congr fun i hi => ?_
      obtain ⟨x, hx, -, hp⟩ := CoordinatorState.lookup_of_active hw.coherent htakes.1 hi
      have hnot : i ∉ removedFrom w.state r t order := by
        rw [hw.mem_removedFrom order]
        rintro ⟨y, hy, -, -, hq⟩
        obtain rfl : x = y := Option.some.inj (hx.symm.trans hy)
        rw [hq] at hp
        cases hp
      rw [CoordinatorState.prioOf_ledger, intentOfRun, hx]
      by_cases hrun : x.teamRunId = some r <;> by_cases hprio : x.priority = p <;>
        simp [hnot, hrun, hprio]
    · have hqueue : w.state.queueOf t p = slot.queue p := by
        rw [CoordinatorState.queueOf, hslot, Option.elim_some]
      rw [hqueue]
      have hsame : SlotState.queue { slot with active := none } p = slot.queue p := by
        cases p <;> rfl
      rw [hsame]
      refine List.filter_congr fun i hi => ?_
      have hq : i ∈ w.state.queueOf t p := hqueue ▸ hi
      by_cases hrun : intentOfRun w.state r i = true
      · simp [hrun, (hw.removedFrom_iff order hq).mpr hrun]
      · simp [hrun, mt (hw.removedFrom_iff order hq).mp hrun]

/-- An open intent of the run is queued or in a batch that is taken. -/
theorem Sound.open_cases (hx : w.state.intents.lookup i = some x) (hrun : x.teamRunId = some r)
    (hopen : x.state.isTerminal = false) :
    x.state = .queued ∨ ∃ target ∈ activeSlotsOfRun w.state r, i ∈ target.2.batch.intentIds := by
  have hof : intentOfRun w.state r i = true := by
    rw [intentOfRun, hx, Option.any_some, decide_eq_true_eq]
    exact hrun
  have hclaimed : x.state.isClaimed = true →
      ∃ target ∈ activeSlotsOfRun w.state r, i ∈ target.2.batch.intentIds := by
    intro hclaimed
    obtain ⟨b, hb, hi⟩ :=
      (CoordinatorState.represents_of_coherent hw.coherent).claimed i x hx hclaimed
    obtain ⟨active, ha, rfl⟩ := Option.map_eq_some_iff.mp hb
    exact (hw.taken_iff hx).mpr ⟨active, ⟨ha, i, hi, hof⟩, hi⟩
  cases hstate : x.state with
  | queued => exact .inl rfl
  | starting _ _ => exact .inr (hclaimed (by rw [hstate]; rfl))
  | running _ _ _ => exact .inr (hclaimed (by rw [hstate]; rfl))
  | completed | failed _ | cancelled _ => simp [hstate, WorkIntentState.isTerminal] at hopen

/-- An intent that was there has been cancelled, put back or left. -/
theorem Sound.intent_cancelRun (order : IterOrder WorkIntent)
    (hx : w.state.intents.lookup i = some x) :
    (x.teamRunId = some r ∧ x.state.isTerminal = false ∧
      (cancelRun w.state r order).state.intents.lookup i =
        some { x with state := .cancelled "run_cancelled" }) ∨
    (x.teamRunId ≠ some r ∧
      (∃ target ∈ activeSlotsOfRun w.state r, i ∈ target.2.batch.intentIds) ∧
      (cancelRun w.state r order).state.intents.lookup i = some { x with state := .queued }) ∨
    ((x.teamRunId = some r → x.state.isTerminal) ∧
      (¬∃ target ∈ activeSlotsOfRun w.state r, i ∈ target.2.batch.intentIds) ∧
      (cancelRun w.state r order).state.intents.lookup i = some x) := by
  have hafter := lookup_cancelRun hw.keyed r order hx
  by_cases htaken : ∃ target ∈ activeSlotsOfRun w.state r, i ∈ target.2.batch.intentIds
  · rw [if_pos htaken, releasedBy] at hafter
    by_cases hrun : x.teamRunId = some r
    · rw [if_pos hrun] at hafter
      refine .inl ⟨hrun, ?_, hafter⟩
      obtain ⟨⟨t, active⟩, hmem, hi⟩ := htaken
      obtain ⟨y, hy, -, hp⟩ :=
        CoordinatorState.lookup_of_active hw.coherent (mem_takes.mp hmem).1 hi
      obtain rfl : x = y := Option.some.inj (hx.symm.trans hy)
      rw [← WorkIntentState.isDone_phase, hp]
      rfl
    · rw [if_neg hrun] at hafter
      exact .inr (.inl ⟨hrun, htaken, hafter⟩)
  · rw [if_neg htaken] at hafter
    by_cases hq : x.teamRunId = some r ∧ x.state = .queued
    · rw [if_pos hq] at hafter
      exact .inl ⟨hq.1, by rw [hq.2]; rfl, hafter⟩
    · rw [if_neg hq] at hafter
      refine .inr (.inr ⟨fun hrun => ?_, htaken, hafter⟩)
      by_contra hopen
      rcases hw.open_cases hx hrun (Bool.not_eq_true _ ▸ hopen) with hqueued | h
      · exact hq ⟨hrun, hqueued⟩
      · exact htaken h

end

def endedIds (s : CoordinatorState) (r : String) (order : IterOrder WorkIntent) : List String :=
  (activeSlotsOfRun s r).flatMap (fun target =>
    target.2.batch.intentIds.filter (intentOfRun s r)) ++
      (queuedOfRun s r order).map (·.intentId)

def messageOf (s : CoordinatorState) (i : String) : Option String :=
  (s.intents.lookup i).bind (·.mailboxMessageId)

theorem terminalMessageIds_cancelRun (hk : s.Keyed) (order : IterOrder WorkIntent) :
    (cancelRun s r order).result.terminalMessageIds =
      (endedIds s r order).filterMap (messageOf s) := by
  have hretains := (midway_retains s r).enqueuedAs
  have hqueued : (queuedOfRun s r order).filterMap (·.mailboxMessageId) =
      ((queuedOfRun s r order).map (·.intentId)).filterMap (messageOf s) := by
    rw [List.filterMap_map]
    refine List.filterMap_congr fun y hy => ?_
    have hvalue := (List.mem_filter.mp hy).1
    rw [IterOrder.mem_arrange, (hk.of_enqueuedAs hretains).mem_values] at hvalue
    have hi := hretains y.intentId
    rw [CoordinatorState.enqueuedAs, CoordinatorState.enqueuedAs, hvalue] at hi
    obtain ⟨x, hx, hxy⟩ := Option.map_eq_some_iff.mp hi.symm
    have hsame : x.mailboxMessageId = y.mailboxMessageId := by
      simpa only [WorkIntent.asQueued] using congrArg (·.mailboxMessageId) hxy
    rw [Function.comp_apply, messageOf, hx, Option.bind_some, hsame]
  rw [endedIds, List.filterMap_append, ← hqueued, List.filterMap_flatMap]
  rfl

theorem Sound.mem_endedIds (hw : c.Sound w) (order : IterOrder WorkIntent) :
    i ∈ endedIds w.state r order ↔ ∃ x, w.state.intents.lookup i = some x ∧
      x.state.isTerminal = false ∧ x.teamRunId = some r := by
  have hof : ∀ x, w.state.intents.lookup i = some x →
      (intentOfRun w.state r i = true ↔ x.teamRunId = some r) := by
    intro x hx
    rw [intentOfRun, hx, Option.any_some, decide_eq_true_eq]
  rw [endedIds, List.mem_append, List.mem_flatMap, hw.mem_queuedOfRun order]
  constructor
  · rintro (⟨⟨t, active⟩, hmem, hi⟩ | ⟨x, hx, hrun, hq⟩)
    · obtain ⟨hin, hrun⟩ := List.mem_filter.mp hi
      obtain ⟨x, hx, -, hp⟩ :=
        CoordinatorState.lookup_of_active hw.coherent (mem_takes.mp hmem).1 hin
      refine ⟨x, hx, ?_, (hof x hx).mp hrun⟩
      rw [← WorkIntentState.isDone_phase, hp]
      rfl
    · exact ⟨x, hx, by rw [hq]; rfl, hrun⟩
  · rintro ⟨x, hx, hopen, hrun⟩
    rcases hw.open_cases hx hrun hopen with hq | ⟨target, hmem, hi⟩
    · exact .inr ⟨x, hx, hrun, hq⟩
    · exact .inl ⟨target, hmem, List.mem_filter.mpr ⟨hi, (hof x hx).mpr hrun⟩⟩

theorem Sound.nodup_endedIds (hw : c.Sound w) (order : IterOrder WorkIntent) :
    (endedIds w.state r order).Nodup := by
  have hkeyed : (midway w.state r).Keyed :=
    hw.keyed.of_enqueuedAs (midway_retains w.state r).enqueuedAs
  refine List.nodup_append.mpr ⟨?_, (queued_of_mem_arranged hkeyed r order).1, ?_⟩
  · rw [List.nodup_flatMap]
    constructor
    · rintro ⟨t, active⟩ hmem
      have hb : w.state.batchOf t = some active.batch := by
        rw [CoordinatorState.batchOf, (mem_takes.mp hmem).1, Option.map_some]
      exact (hw.describes _ (hw.fenced.held t _ hb).1).nodup.filter _
    · -- an intent is in the batch of its own slot only
      have hslots := List.pairwise_map.mp (nodup_activeSlotsOfRun w.state r)
      refine hslots.imp_of_mem fun {a b} ha hb hne => List.disjoint_left.mpr fun i hi hi' => hne ?_
      obtain ⟨x, hx, hxa, -⟩ := CoordinatorState.lookup_of_active hw.coherent
        (mem_takes.mp ha).1 (List.mem_of_mem_filter hi)
      obtain ⟨y, hy, hyb, -⟩ := CoordinatorState.lookup_of_active hw.coherent
        (mem_takes.mp hb).1 (List.mem_of_mem_filter hi')
      obtain rfl : x = y := Option.some.inj (hx.symm.trans hy)
      rw [← hxa, hyb]
  · intro i hi j hj
    rintro rfl
    obtain ⟨x, hx, -, hq⟩ := (hw.mem_queuedOfRun order).mp hj
    obtain ⟨target, hmem, hin⟩ := List.mem_flatMap.mp hi
    exact hw.not_taken_of_queued hx hq ⟨target, hmem, List.mem_of_mem_filter hin⟩

/-- The reported messages are those of the intents that the call has cancelled. -/
theorem Sound.messages_cancelRun (hw : c.Sound w) (order : IterOrder WorkIntent) :
    (cancelRun w.state r order).result.terminalMessageIds.Perm
      ((w.state.intents.values.filter fun x => !x.state.isTerminal &&
        ((cancelRun w.state r order).state.intents.lookup x.intentId).any
          (·.state.isCancelled)).filterMap (·.mailboxMessageId)) := by
  set ended := w.state.intents.values.filter fun x => !x.state.isTerminal &&
    ((cancelRun w.state r order).state.intents.lookup x.intentId).any (·.state.isCancelled)
  have hmem : ∀ i, i ∈ ended.map (·.intentId) ↔ ∃ x, w.state.intents.lookup i = some x ∧
      x.state.isTerminal = false ∧ x.teamRunId = some r := by
    intro i
    have hvalue : ∀ x, x ∈ ended ↔ w.state.intents.lookup x.intentId = some x ∧
        x.state.isTerminal = false ∧ x.teamRunId = some r := by
      intro x
      rw [List.mem_filter, hw.keyed.mem_values, Bool.and_eq_true, Bool.not_eq_true']
      refine and_congr_right fun hx => and_congr_right fun hopen => ?_
      rcases hw.intent_cancelRun order (r := r) hx with
        ⟨hrun, -, hafter⟩ | ⟨hrun, -, hafter⟩ | ⟨hrun, -, hafter⟩
      · rw [hafter]
        exact iff_of_true rfl hrun
      · rw [hafter]
        exact iff_of_false (by simp [WorkIntentState.isCancelled]) hrun
      · rw [hafter, Option.any_some]
        refine iff_of_false (fun hcancelled => ?_) fun h => ?_
        · cases hs : x.state <;>
            simp [hs, WorkIntentState.isCancelled, WorkIntentState.isTerminal] at hcancelled hopen
        · rw [hrun h] at hopen
          cases hopen
    rw [List.mem_map]
    constructor
    · rintro ⟨x, hx, rfl⟩
      exact ⟨x, (hvalue x).mp hx⟩
    · rintro ⟨x, hx, hopen, hrun⟩
      have hid := hw.keyed i x hx
      exact ⟨x, (hvalue x).mpr ⟨hid ▸ hx, hopen, hrun⟩, hid⟩
  have hnodup : (ended.map (·.intentId)).Nodup :=
    (nodup_arranged hw.keyed .stored).sublist (List.filter_sublist.map _)
  have hperm : (endedIds w.state r order).Perm (ended.map (·.intentId)) :=
    (List.perm_ext_iff_of_nodup (hw.nodup_endedIds order) hnodup).mpr fun i => by
      rw [hw.mem_endedIds order, hmem]
  rw [terminalMessageIds_cancelRun hw.keyed order]
  refine (hperm.filterMap (messageOf w.state)).trans ?_
  rw [List.filterMap_map]
  refine List.Perm.of_eq (List.filterMap_congr fun x hx => ?_)
  have hlookup := hw.keyed.mem_values.mp (List.mem_of_mem_filter hx)
  rw [Function.comp_apply, messageOf, hlookup, Option.bind_some]

/-- `cancel_run` ends all work of the run and no other: what it reports is what it has ended,
the rest of its batches is queued again, and everything else is left. -/
theorem cancelRun_cancelsRun (h : c.machine.Reachable w) (r : String)
    (order : IterOrder WorkIntent) :
    CancelsRun w.state r (cancelRun w.state r order) := by
  have hw := sound_of_reachable h
  have hretains := cancelRun_retains w.state r order
  have htargets : (cancelRun w.state r order).result.cancelTargets =
      (activeSlotsOfRun w.state r).map fun target => ⟨target.2.batch, target.2.turnId⟩ := rfl
  refine
    { leases := fun k record => cancelRun_leases w.state hw.fenced.leases r order k
      complete := fun i x hx hrun => ?_
      distinct := ?_
      targets := fun target => ?_
      messages := hw.messages_cancelRun order
      requeued := fun t active htakes i hi x hx hrun => ?_
      queues := fun t active htakes => hw.slots_taken order htakes
      intents := fun i x hx hrun hout => ?_
      slots := fun t hkept => hw.slots_kept order hkept
      untouched := fun t hkept hqueues => ?_ }
  · have hi := hretains.enqueuedAs i
    rw [CoordinatorState.enqueuedAs, CoordinatorState.enqueuedAs, hx] at hi
    obtain ⟨y, hy, hyx⟩ := Option.map_eq_some_iff.mp hi.symm
    have hsame : y.teamRunId = x.teamRunId := by
      simpa only [WorkIntent.asQueued] using congrArg (·.teamRunId) hyx
    rcases hw.intent_cancelRun order (r := r) hy with
      ⟨-, -, hafter⟩ | ⟨hyrun, -, -⟩ | ⟨hended, -, hafter⟩
    · obtain rfl := Option.some.inj (hx.symm.trans hafter)
      rfl
    · exact absurd (hsame.trans hrun) hyrun
    · obtain rfl := Option.some.inj (hx.symm.trans hafter)
      exact hended hrun
  · rw [htargets, List.map_map]
    refine List.Nodup.map_on ?_ (List.Nodup.of_map _ (nodup_activeSlotsOfRun w.state r))
    rintro ⟨t, active⟩ hmem ⟨t', active'⟩ hmem' hid
    have hb : w.state.batchOf t = some active.batch := by
      rw [CoordinatorState.batchOf, (mem_takes.mp hmem).1, Option.map_some]
    have hb' : w.state.batchOf t' = some active'.batch := by
      rw [CoordinatorState.batchOf, (mem_takes.mp hmem').1, Option.map_some]
    -- two batches with one id are one batch, and that is in one slot
    obtain ⟨hhanded, rfl⟩ := hw.fenced.held t _ hb
    obtain ⟨hhanded', rfl⟩ := hw.fenced.held t' _ hb'
    have hbatch := hw.fenced.distinct _ hhanded _ hhanded' hid
    have hactive : active = active' := by
      have ha := (mem_takes.mp hmem).1
      rw [hbatch] at ha
      exact Option.some.inj (ha.symm.trans (mem_takes.mp hmem').1)
    rw [hactive]
  · rw [htargets, List.mem_map]
    constructor
    · rintro ⟨⟨t, active⟩, hmem, rfl⟩
      exact ⟨t, active, mem_takes.mp hmem, rfl⟩
    · rintro ⟨t, active, htakes, rfl⟩
      exact ⟨(t, active), mem_takes.mpr htakes, rfl⟩
  · rcases hw.intent_cancelRun order (r := r) hx with
      ⟨hyrun, -, -⟩ | ⟨-, -, hafter⟩ | ⟨-, hnot, -⟩
    · exact absurd hyrun hrun
    · exact hafter
    · exact absurd ⟨(t, active), mem_takes.mpr htakes, hi⟩ hnot
  · rcases hw.intent_cancelRun order (r := r) hx with
      ⟨hyrun, -, -⟩ | ⟨-, ⟨⟨t, active⟩, hmem, hi⟩, -⟩ | ⟨-, -, hafter⟩
    · exact absurd hyrun hrun
    · exact absurd hi (hout t active (mem_takes.mp hmem))
    · exact hafter
  · rw [hw.slots_kept order hkept]
    cases hslot : w.state.slots.lookup t with
    | none => rfl
    | some slot =>
      have hfilter : ∀ p, (slot.queue p).filter (fun i => !intentOfRun w.state r i) =
          slot.queue p := by
        intro p
        refine List.filter_eq_self.mpr fun i hi => ?_
        have hq : i ∈ w.state.queuesOf t := CoordinatorState.mem_queuesOf.mpr
          ⟨p, by rw [CoordinatorState.queueOf, hslot]; exact hi⟩
        rw [hqueues i hq]
        rfl
      have hf := hfilter .foreground
      have hcontrol := hfilter .control
      have hb := hfilter .background
      simp only [SlotState.queue] at hf hcontrol hb
      rw [Option.map_some, hf, hcontrol, hb]

/-- Instance: the claim of a run's message and of a recovered one is cancelled. -/
theorem cancelRun_cancelsRun_sample :
    CancelsRun (sample.machine.run .empty mixedCalls).state "r"
        (cancelRun (sample.machine.run .empty mixedCalls).state "r" .stored) ∧
      let out := cancelRun (sample.machine.run .empty mixedCalls).state "r" .stored
      out.result.terminalMessageIds = ["m"] ∧ out.state.queueOf "lead" .background = ["xxx"] :=
  ⟨cancelRun_cancelsRun (c := sample) (Machine.reachable_run rfl (by decide)) "r" .stored,
    by decide, by decide⟩

end SlotWorkCoordinator

end AionCore.Team
