import AionCore.Team.WorkFrame

/-!
# Operations as ledger moves

What each operation does to the ledger view of the state: nothing, or entering, claiming,
releasing, settling or rebuilding what it moves.
-/

namespace AionCore.Team

namespace CoordinatorState

variable {s : CoordinatorState}

def Keyed (s : CoordinatorState) : Prop := ∀ i x, s.intents.lookup i = some x → x.intentId = i

theorem Keyed.mem_values (h : s.Keyed) {x : WorkIntent} :
    x ∈ s.intents.values ↔ s.intents.lookup x.intentId = some x := by
  rw [Dict.mem_values]
  constructor
  · rintro ⟨i, hi⟩
    rwa [h i x hi]
  · intro hx
    exact ⟨_, hx⟩

theorem Keyed.of_enqueuedAs (h : s.Keyed) {s' : CoordinatorState}
    (he : ∀ i, s'.enqueuedAs i = s.enqueuedAs i) : s'.Keyed := by
  intro i x hx
  have hi := he i
  simp only [enqueuedAs, hx, Option.map_some] at hi
  obtain ⟨y, hy, hxy⟩ := Option.map_eq_some_iff.mp hi.symm
  have hid : y.intentId = x.intentId := by
    simpa only [WorkIntent.asQueued] using congrArg (·.intentId) hxy
  rw [← hid, h i y hy]

theorem lookup_of_queued (h : s.ledger.Coherent) {t i : String} {slot : SlotState}
    {p : WorkPriority} (hs : s.slots.lookup t = some slot) (hi : i ∈ slot.queue p) :
    ∃ x, s.intents.lookup i = some x ∧ x.slotId = t ∧ x.priority = p ∧ x.state = .queued := by
  have hl : i ∈ (s.ledger.lane t).queue p := by rwa [ledger_lane_of_slot hs]
  obtain ⟨y, hy, ht, hp, hq⟩ := h.of_queued hl
  obtain ⟨x, hx, rfl⟩ := exists_of_ledger_item hy
  exact ⟨x, hx, ht, hp, WorkIntentState.phase_eq_queued.mp hq⟩

theorem lookup_of_active (h : s.ledger.Coherent) {t i : String} {active : ActiveBatch}
    (ha : s.activeOf t = some active) (hi : i ∈ active.batch.intentIds) :
    ∃ x, s.intents.lookup i = some x ∧ x.slotId = t ∧
      x.state.phase = .claimed (active.batch.batchId, active.batch.operationId) := by
  obtain ⟨y, hy, ht, hp⟩ := h.of_active (active_of_activeOf ha) hi
  obtain ⟨x, hx, rfl⟩ := exists_of_ledger_item hy
  exact ⟨x, hx, ht, hp⟩

theorem ledger_removeAllQueued (s : CoordinatorState) (t : String) (ids : List String) :
    (s.removeAllQueued t ids).ledger = s.ledger.setLane t
      { s.ledger.lane t with queue := fun q => ((s.ledger.lane t).queue q).filter (· ∉ ids) } := by
  cases hs : s.slots.lookup t with
  | none =>
    refine Ledger.ext rfl (funext fun u => ?_)
    rw [ledger_lane, removeAllQueued, modifySlot, Dict.lookup_modify, Ledger.setLane_lane,
      ledger_lane, ledger_lane, hs]
    by_cases hu : u = t
    · subst u
      simp [hs, Lane.empty]
    · simp [hu]
  | some slot =>
    rw [removeAllQueued, ledger_modifySlot hs, ledger_lane_of_slot hs]
    congr 1
    simp only [SlotState.lane, SlotState.active_foldl_removeQueued, Lane.mk.injEq, and_true]
    funext p
    rw [SlotState.queue_foldl_removeQueued]

theorem ledger_edit {t : String} {slot : SlotState} (h : s.slots.lookup t = some slot)
    (ids : List String) (state : WorkIntentState) (f : SlotState → SlotState) :
    ((s.setIntentStates ids state).modifySlot t f).ledger =
      (s.ledger.rephase fun i x => if i ∈ ids then state.phase else x.phase).setLane t
        (f slot).lane := by
  rw [ledger_modifySlot (s := s.setIntentStates ids state) h, ledger_setIntentStates]

theorem ledger_settle (s : CoordinatorState) (t : String) (ids : List String)
    {state : WorkIntentState} (hstate : state.isTerminal) :
    ((s.setIntentStates ids state).removeAllQueued t ids).ledger =
      s.ledger.settle t ids state := by
  rw [ledger_removeAllQueued, ledger_setIntentStates, WorkIntentState.phase_terminal hstate]
  rfl

end CoordinatorState

namespace SlotWorkCoordinator

variable (c : SlotWorkCoordinator) {s : CoordinatorState}

theorem acquireEnqueue_ledger (bindEnqueue : EnqueueRequest → RunBinding)
    (request : EnqueueRequest) : (c.acquireEnqueue s bindEnqueue request).state.ledger =
      s.ledger := by
  have hput : (s.putSlot request.slotId
      { s.entrySlot request.slotId request.role with role := request.role }).ledger = s.ledger :=
    s.ledger_putSlot_same _ (s.lane_entrySlot _ request.role)
  simp only [acquireEnqueue]
  split
  · exact hput
  · exact hput

theorem abortEnqueue_ledger (lease : EnqueueLease) :
    (c.abortEnqueue s lease).state.ledger = s.ledger := by
  rw [abortEnqueue]
  split
  · rfl
  · split <;> rfl

theorem pauseSlot_ledger (slotId : String) : (pauseSlot s slotId).state.ledger = s.ledger :=
  s.ledger_putSlot_same _ (s.lane_entrySlot _ .teammate)

variable {batch : WorkBatch} {t : String}

theorem slot_of_batchOf (h : s.batchOf t = some batch) :
    ∃ slot active, s.slots.lookup t = some slot ∧ slot.active = some active ∧
      active.batch = batch := by
  obtain ⟨active, ha, hb⟩ := Option.map_eq_some_iff.mp h
  obtain ⟨slot, hs, ha⟩ := Option.bind_eq_some_iff.mp ha
  exact ⟨slot, active, hs, ha, hb⟩

theorem active_of_batchOf (h : s.batchOf t = some batch) :
    (s.ledger.lane t).active = some ((batch.batchId, batch.operationId), batch.intentIds) := by
  obtain ⟨active, ha, rfl⟩ := Option.map_eq_some_iff.mp h
  exact CoordinatorState.active_of_activeOf ha

/-- The turn of the active batch starts: its intents stay with the same claim. -/
theorem markStarted_ledger (h : s.ledger.Coherent) (turnId : String) (now : TimestampMs)
    (hb : s.batchOf batch.slotId = some batch) :
    (c.markStarted s batch turnId now).state.ledger = s.ledger := by
  rw [markStarted]
  split
  · rfl
  · obtain ⟨slot, active, hs, ha, hab⟩ := slot_of_batchOf hb
    rw [CoordinatorState.ledger_edit hs]
    refine Ledger.ext (funext fun i => ?_) (funext fun u => ?_)
    · rw [Ledger.setLane_item, Ledger.rephase_item]
      cases hi : s.ledger.item i with
      | none => rfl
      | some x =>
        rw [Option.map_some]
        split
        · rename_i hmem
          obtain ⟨y, hy, -, hp⟩ := h.of_active (active_of_batchOf hb) hmem
          obtain rfl : x = y := by simpa [hi] using hy
          rw [WorkIntentState.phase, ← hp]
        · rfl
    · rw [Ledger.setLane_lane, Ledger.rephase_lane]
      split
      · rename_i hu
        rw [hu, CoordinatorState.ledger_lane_of_slot hs]
        simp only [SlotState.lane, ha, Option.map_some]
        rfl
      · rfl

/-- The batch goes back to the front of the queue it came from. -/
theorem retryStart_ledger (hc : c.isCurrentBatch s batch)
    (hb : s.batchOf batch.slotId = some batch)
    (hprio : ∀ i ∈ batch.intentIds, s.ledger.prioOf i = some batch.highestPriority) :
    (c.retryStart s batch).state.ledger = s.ledger.release batch.slotId fun _ => none := by
  obtain ⟨slot, active, hs, ha, hab⟩ := slot_of_batchOf hb
  rw [Ledger.release_of_active _ (active_of_batchOf hb), retryStart, if_neg (by simpa using hc)]
  rw [CoordinatorState.ledger_edit hs]
  congr 1
  have hfold := SlotState.queue_foldl_pushFront { slot with active := none }
    (batch.intentIds.map fun id => (batch.highestPriority, id))
  have hactive := SlotState.active_foldl_pushFront { slot with active := none }
    (batch.intentIds.map fun id => (batch.highestPriority, id)).reverse
  rw [← List.map_reverse, List.foldl_map] at hactive
  simp only [← List.map_reverse, List.foldl_map] at hfold
  simp only [SlotState.lane, hactive, Option.map_none, Lane.mk.injEq, and_true]
  funext p
  rw [hfold p, CoordinatorState.ledger_lane_of_slot hs]
  -- one queue takes the whole batch, the others take nothing
  have hids : (batch.intentIds.filter fun i =>
      (none : Option WorkIntentState).isNone ∧ s.ledger.prioOf i = some p) =
      if batch.highestPriority = p then batch.intentIds else [] := by
    split
    · rename_i hp
      exact List.filter_eq_self.mpr fun i hi => by simp [hprio i hi, hp]
    · rename_i hp
      exact List.filter_eq_nil_iff.mpr fun i hi => by simp [hprio i hi, hp]
  rw [hids]
  by_cases hp : batch.highestPriority = p
  · subst p
    simp [List.filter_map, Function.comp_def, SlotState.lane]
    rfl
  · simp [List.filter_map, Function.comp_def, hp, SlotState.lane]
    rfl

variable {state : WorkIntentState}

/-- The batch ends. -/
theorem terminalizeBatch_ledger (hstate : state.isTerminal) (hc : c.isCurrentBatch s batch)
    (hb : s.batchOf batch.slotId = some batch) :
    (c.terminalizeBatch s batch state).state.ledger =
      s.ledger.release batch.slotId fun _ => some state := by
  obtain ⟨slot, active, hs, ha, hab⟩ := slot_of_batchOf hb
  rw [Ledger.release_of_active _ (active_of_batchOf hb), terminalizeBatch,
    if_neg (by simpa using hc)]
  rw [CoordinatorState.ledger_edit hs, WorkIntentState.phase_terminal hstate]
  congr 1
  simp [SlotState.lane, CoordinatorState.ledger_lane_of_slot hs]
  rfl

variable {slot : SlotState}

/-- The claimed intents leave their queues and start under the key of the new batch. -/
theorem claimBatch_ledger (hs : s.slots.lookup t = some slot) (p : WorkPriority)
    (ids : List String) :
    (c.claimBatch s t p ids).state.ledger =
      s.ledger.claim t ((c.claimedBatch s t p ids).batchId, (c.claimedBatch s t p ids).operationId)
        ids := by
  let started : CoordinatorState :=
    { s with
      nextOperationId := (c.claimedBatch s t p ids).operationId
      generated := s.generated + 1 }
  have hedit := CoordinatorState.ledger_edit (s := started) hs ids
    (.starting (c.claimedBatch s t p ids).batchId (c.claimedBatch s t p ids).operationId)
    fun slot => { ids.foldl .removeQueued slot with
      active := some ⟨c.claimedBatch s t p ids, none, none⟩ }
  refine hedit.trans ?_
  simp only [Ledger.claim]
  congr 1
  simp only [SlotState.lane, Lane.mk.injEq]
  refine ⟨funext fun q => ?_, rfl⟩
  rw [CoordinatorState.ledger_lane_of_slot hs, SlotState.lane, ← SlotState.queue_foldl_removeQueued]
  rfl

variable {s' : CoordinatorState}

/-- A new intent is stored and pushed to the back of its queue. -/
theorem ledger_enter {intent : WorkIntent} (slot' : SlotState)
    (hs : s.slots.lookup intent.slotId = some slot)
    (hi : s'.intents = s.intents.insert intent.intentId intent)
    (hs' : ∀ u, s'.slots.lookup u = if u = intent.slotId then some slot' else s.slots.lookup u)
    (hq : ∀ q, slot'.queue q =
      slot.queue q ++ if q = intent.priority then [intent.intentId] else [])
    (ha : slot'.active = slot.active) :
    s'.ledger = s.ledger.enter intent.intentId intent.item := by
  refine Ledger.ext (funext fun i => ?_) (funext fun u => ?_)
  · rw [CoordinatorState.ledger_item, hi, Dict.lookup_insert']
    simp only [Ledger.enter, Function.update_apply]
    split <;> rfl
  · rw [CoordinatorState.ledger_lane, hs']
    simp only [Ledger.enter, Ledger.setLane_lane]
    by_cases hu : u = intent.slotId
    · simp only [hu, WorkIntent.item, if_true, Option.elim_some,
        CoordinatorState.ledger_lane_of_slot hs, SlotState.lane, ha, Lane.mk.injEq, and_true]
      exact funext hq
    · simp only [hu, WorkIntent.item, if_false]
      rfl

theorem commitEnqueue_ledger {lease : EnqueueLease} {messageId : Option String}
    (now : TimestampMs) (h : c.checkCommit s lease messageId = .ok slot) :
    (c.commitEnqueue s lease messageId now).state.ledger =
      s.ledger.enter (c.generateId.draw s.generated)
        (c.committedIntent s lease messageId now).item := by
  simp only [commitEnqueue, h]
  have hslot := c.slot_of_checkCommit s h
  change s.slots.lookup (c.committedIntent s lease messageId now).slotId = some slot at hslot
  refine ledger_enter _ hslot rfl (fun u => Dict.lookup_insert' _ _ _ _) (fun q => ?_) ?_
  · rw [SlotState.pushBack, SlotState.queue_modifyQueue]
    split
    · cases lease.source.resumesPausedSlot <;> cases q <;> rfl
    · rw [List.append_nil]
      cases lease.source.resumesPausedSlot <;> cases q <;> rfl
  · rw [SlotState.pushBack, SlotState.active_modifyQueue]
    cases lease.source.resumesPausedSlot <;> rfl

/-- The moves of a ledger of work: `R` is the order in which its items were enqueued. -/
abbrev WorkMoves (R : String → String → Prop) (ordered : Prop) : WorkLedger → WorkLedger → Prop :=
  Ledger.Moves (·.isMessage) R ordered

/-- `log` lists the intents of the state, all under identifiers that have been drawn. -/
structure Logged (s : CoordinatorState) (log : List String) : Prop where
  mem_iff : ∀ i, i ∈ log ↔ (s.intents.lookup i).isSome
  nodup : log.Nodup
  drawn : ∀ i ∈ log, c.generateId.Drawn s.generated i

variable {c}

theorem isSome_enqueuedAs (s : CoordinatorState) (i : String) :
    (s.enqueuedAs i).isSome = (s.intents.lookup i).isSome := by
  rw [CoordinatorState.enqueuedAs, Option.isSome_map]

variable {log new : List String}

theorem Logged.extends (h : c.Logged s log) (hx : c.Extends s s' new) :
    c.Logged s' (log ++ new) where
  mem_iff i := by
    rw [List.mem_append, ← isSome_enqueuedAs]
    by_cases hi : i ∈ new
    · obtain ⟨x, hx, -⟩ := hx.intents i hi
      simp [hi, hx]
    · rw [hx.others i hi, isSome_enqueuedAs, h.mem_iff]
      simp [hi]
  nodup := by
    refine List.nodup_append.mpr ⟨h.nodup, hx.nodup, fun a ha b hb => ?_⟩
    rintro rfl
    obtain ⟨k, hk, -, he⟩ := hx.drawn a hb
    obtain ⟨k', hk', he'⟩ := h.drawn a ha
    have := c.generateId.fresh (he.trans he'.symm)
    omega
  drawn i hi := by
    rcases List.mem_append.mp hi with hi | hi
    · exact (h.drawn i hi).mono hx.generated
    · obtain ⟨k, -, hk, he⟩ := hx.drawn i hi
      exact ⟨k, hk, he⟩

theorem Logged.retains {log : List String} (h : c.Logged s log)
    (hr : CoordinatorState.Retains s s') : c.Logged s' log := by
  have := h.extends (.of_retains hr)
  rwa [List.append_nil] at this

theorem Logged.absent {log : List String} (h : c.Logged s log) :
    s.intents.lookup (c.generateId.draw s.generated) = none := by
  rw [← Option.not_isSome_iff_eq_none, ← h.mem_iff]
  exact fun hi => c.generateId.not_drawn _ (h.drawn _ hi)

variable {ordered : Prop}

theorem Logged.enter (h : c.Logged s log)
    {x : Item String WorkPriority WorkIntent ClaimKey WorkIntentState} (hx : x.phase = .queued)
    (hmem : c.generateId.draw s.generated ∈ new) :
    WorkMoves (Before (log ++ new)) ordered s.ledger
      (s.ledger.enter (c.generateId.draw s.generated) x) := by
  refine .single (.enter _ x ?_ hx fun j y hj => ?_)
  · rw [CoordinatorState.ledger_item, h.absent, Option.map_none]
  · obtain ⟨z, hz, -⟩ := CoordinatorState.exists_of_ledger_item hj
    exact Before.of_mem_append ((h.mem_iff j).mpr (by simp [hz])) hmem

variable {acc : CoordinatorState × List String} {slotId : String}

/-- One turn of the recovery loop enters a message without owner. -/
theorem recoverMessage_ledger (role : TeamRunTargetRole) (now : TimestampMs) (messageId : String)
    (hs : acc.1.slots.lookup slotId = some slot) :
    c.recoverMessage slotId role now acc messageId = acc ∨
    (c.recoverMessage slotId role now acc messageId).1.ledger =
        acc.1.ledger.enter (c.generateId.draw acc.1.generated)
          (c.recoveryIntent acc.1 slotId messageId role now).item ∧
      (c.recoverMessage slotId role now acc messageId).2 =
        acc.2 ++ [c.generateId.draw acc.1.generated] := by
  simp only [recoverMessage]
  split
  · exact .inl rfl
  · refine .inr ⟨?_, rfl⟩
    have hslot : acc.1.slots.lookup (c.recoveryIntent acc.1 slotId messageId role now).slotId =
        some slot := hs
    refine ledger_enter (slot.pushBack .background (c.generateId.draw acc.1.generated)) hslot rfl
      (fun u => ?_) (fun q => ?_) ?_
    · simp only [CoordinatorState.modifySlot, Dict.lookup_modify, recoveryIntent]
      by_cases hu : u = slotId
      · subst u
        simp [hs]
      · simp [hu]
    · rw [SlotState.pushBack, SlotState.queue_modifyQueue]
      by_cases hq : q = .background <;> simp [hq, recoveryIntent]
    · rw [SlotState.pushBack, SlotState.active_modifyQueue]

variable {role : TeamRunTargetRole} {now : TimestampMs}

theorem slots_recoverMessage {messageId : String} (hs : (acc.1.slots.lookup slotId).isSome) :
    ((c.recoverMessage slotId role now acc messageId).1.slots.lookup slotId).isSome := by
  simp only [recoverMessage]
  split
  · exact hs
  · simpa [CoordinatorState.modifySlot] using hs

/-- The recovery loop enters the messages without owner one after the other. -/
theorem foldl_recoverMessage_moves {messageIds : List String} (ordered : Prop)
    (h : c.Logged acc.1 log) (hs : (acc.1.slots.lookup slotId).isSome)
    (hnew : (messageIds.foldl (c.recoverMessage slotId role now) acc).2 = acc.2 ++ new) :
    WorkMoves (Before (log ++ new)) ordered acc.1.ledger
      (messageIds.foldl (c.recoverMessage slotId role now) acc).1.ledger := by
  induction messageIds generalizing acc log new with
  | nil => exact .refl
  | cons m messageIds ih =>
    obtain ⟨first, he, hx, -⟩ := c.recoverMessage_extends slotId role now acc m
    obtain ⟨rest, he', -⟩ := c.foldl_recoverMessage_extends slotId role now
      (c.recoverMessage slotId role now acc m) messageIds
    -- the first turn logs `first`, the turns after it log `rest`
    have hsplit : new = first ++ rest := by
      rw [List.foldl_cons, he', he, List.append_assoc] at hnew
      exact (List.append_cancel_left hnew).symm
    have htail := ih (h.extends hx) (slots_recoverMessage hs) he'
    rw [hsplit, List.foldl_cons, ← List.append_assoc]
    refine .trans ?_ htail
    obtain ⟨slot, hslot⟩ := Option.isSome_iff_exists.mp hs
    rcases recoverMessage_ledger (c := c) role now m hslot with hsame | ⟨henter, hid⟩
    · rw [hsame]
    · obtain rfl : first = [c.generateId.draw acc.1.generated] :=
        List.append_cancel_left (he.symm.trans hid)
      rw [henter, List.append_assoc]
      exact h.enter rfl (by simp)

/-- `reconcile_mailbox` settles the stale intents and enters the missing ones. -/
theorem reconcileMailbox_moves (hL : s.ledger.Coherent) {log : List String} (h : c.Logged s log)
    (slotId : String) (unread : List String) (role : TeamRunTargetRole) (now : TimestampMs) :
    WorkMoves (Before (log ++
        (c.reconcileMailbox s slotId unread role now).result.createdRecoveryIntentIds)) ordered
      s.ledger (c.reconcileMailbox s slotId unread role now).state.ledger := by
  simp only [reconcileMailbox]
  set slot : SlotState := { s.entrySlot slotId role with
    role := role, knownUnreadMessageIds := unread.toFinset } with hslot
  set cleared := (slot.queuedIds.filter fun id =>
    ((s.putSlot slotId slot).intents.lookup id).isSome).filter
      (isStale (s.putSlot slotId slot) unread) with hcleared
  have hput : (s.putSlot slotId slot).ledger = s.ledger :=
    s.ledger_putSlot_same slotId (s.lane_entrySlot slotId role)
  obtain ⟨new, he, -⟩ := c.foldl_recoverMessage_extends slotId role now
    (((s.putSlot slotId slot).setIntentStates cleared .completed).removeAllQueued slotId cleared,
      []) unread
  have hretains := reconcileMailbox_retains s slotId unread role cleared
  have hlogged := h.retains hretains
  have hsettle : WorkMoves (Before (log ++ new)) ordered s.ledger
      (((s.putSlot slotId slot).setIntentStates cleared .completed).removeAllQueued slotId
        cleared).ledger := by
    rw [CoordinatorState.ledger_settle _ _ _ rfl, hput]
    refine .single (.settle slotId cleared _ fun i hi => ?_)
    have hq : i ∈ slot.queuedIds := List.mem_of_mem_filter (List.mem_of_mem_filter hi)
    obtain ⟨p, hp⟩ := SlotState.mem_queuedIds.mp hq
    have hl : i ∈ (s.ledger.lane slotId).queue p := by
      rwa [← s.lane_entrySlot slotId role]
    obtain ⟨x, hx, ht, -, hp⟩ := hL.of_queued hl
    exact ⟨x, hx, ht, hp⟩
  rw [he, List.nil_append]
  refine hsettle.trans (foldl_recoverMessage_moves ordered hlogged ?_ he)
  simp [CoordinatorState.removeAllQueued, CoordinatorState.modifySlot,
    CoordinatorState.setIntentStates, CoordinatorState.putSlot]

theorem claimed_requeue (s : CoordinatorState) (ids : List String) (p : WorkPriority) :
    ((ids.filterMap fun id => (s.intents.lookup id).map fun x => (x.priority, id)).filter
      (·.1 = p)).map (·.2) = ids.filter fun i => s.ledger.prioOf i = some p := by
  induction ids with
  | nil => rfl
  | cons i ids ih =>
    rw [List.filterMap_cons, List.filter_cons, CoordinatorState.prioOf_ledger]
    cases hi : s.intents.lookup i with
    | none => simpa using ih
    | some x => by_cases hp : x.priority = p <;> simpa [hp] using ih

variable {teamRunId : String}

/-- The intents of the run end, the rest of the claim goes back to its queues. -/
theorem cancelActive_ledger {active : ActiveBatch} (ha : s.activeOf t = some active) :
    (cancelActive teamRunId s (t, active)).ledger = s.ledger.release t fun i =>
      if intentOfRun s teamRunId i then some (.cancelled "run_cancelled") else none := by
  obtain ⟨slot, hs, -⟩ := Option.bind_eq_some_iff.mp ha
  rw [Ledger.release_of_active _ (CoordinatorState.active_of_activeOf ha)]
  simp only [cancelActive]
  set ids := active.batch.intentIds
  rw [CoordinatorState.ledger_edit (s := s.setIntentStates _ _) hs,
    CoordinatorState.ledger_setIntentStates]
  refine Ledger.ext (funext fun i => ?_) ?_
  · simp only [Ledger.setLane_item, Ledger.rephase_item, Option.map_map]
    congr 1
    funext x
    by_cases hi : i ∈ ids
    · cases hr : intentOfRun s teamRunId i <;>
        simp [hi, hr, ids, WorkIntentState.phase]
    · simp [hi]
  · simp only [Ledger.setLane, Ledger.rephase_lane]
    congr 1
    simp only [SlotState.lane, SlotState.active_foldl_pushFront, Option.map_none, Lane.mk.injEq,
      and_true]
    funext p
    rw [SlotState.queue_foldl_pushFront, claimed_requeue, CoordinatorState.ledger_lane_of_slot hs,
      List.filter_filter]
    congr 1
    refine List.filter_congr fun i _ => ?_
    cases intentOfRun s teamRunId i <;> simp

variable {i : String} {x : WorkIntent}

theorem cancelQueued_ledger (hx : s.intents.lookup i = some x) :
    (cancelQueued s i).ledger =
      s.ledger.settle x.slotId [i] (.cancelled "run_cancelled") := by
  rw [← CoordinatorState.ledger_settle _ _ _ rfl]
  simp only [cancelQueued, hx]
  rfl

theorem lookup_cancelQueued_ne {j : String} (h : j ≠ i) :
    (cancelQueued s i).intents.lookup j = s.intents.lookup j := by
  rw [cancelQueued]
  split
  · rfl
  · simp [CoordinatorState.modifySlot, h]

variable {R : String → String → Prop} {ids : List String}

theorem foldl_cancelQueued_moves (hn : ids.Nodup)
    (hq : ∀ i ∈ ids, ∃ x, s.intents.lookup i = some x ∧ x.state = .queued) :
    WorkMoves R ordered s.ledger (ids.foldl cancelQueued s).ledger := by
  induction ids generalizing s with
  | nil => exact .refl
  | cons i ids ih =>
    obtain ⟨hi, hn⟩ := List.nodup_cons.mp hn
    obtain ⟨x, hx, hp⟩ := hq i List.mem_cons_self
    have hfirst : WorkMoves R ordered s.ledger (cancelQueued s i).ledger := by
      rw [cancelQueued_ledger hx]
      refine .single (.settle x.slotId [i] _ fun j hj => ?_)
      obtain rfl : j = i := by simpa using hj
      exact ⟨x.item, CoordinatorState.ledger_item_eq hx, rfl,
        WorkIntentState.phase_eq_queued.mpr hp⟩
    refine hfirst.trans (ih hn fun j hj => ?_)
    have hne : j ≠ i := by
      rintro rfl
      exact hi hj
    rw [lookup_cancelQueued_ne hne]
    exact hq j (List.mem_cons_of_mem i hj)

theorem foldl_cancelActive_moves {targets : List (String × ActiveBatch)}
    (hn : (targets.map (·.1)).Nodup)
    (ha : ∀ target ∈ targets, s.activeOf target.1 = some target.2) :
    WorkMoves R ordered s.ledger (targets.foldl (cancelActive teamRunId) s).ledger := by
  induction targets generalizing s with
  | nil => exact .refl
  | cons target targets ih =>
    rw [List.map_cons, List.nodup_cons] at hn
    have hfirst : WorkMoves R ordered s.ledger (cancelActive teamRunId s target).ledger := by
      rw [cancelActive_ledger (ha target List.mem_cons_self)]
      exact .single (.release _ _)
    refine hfirst.trans (ih hn.2 fun other hother => ?_)
    -- the slots are distinct, so the next targets are still as they were
    have hne : other.1 ≠ target.1 := fun he => hn.1 (he ▸ List.mem_map_of_mem hother)
    rw [cancelActive, CoordinatorState.activeOf_modifySlot, if_neg hne]
    exact ha other (List.mem_cons_of_mem _ hother)

theorem activeOf_of_mem_activeSlotsOfRun {target : String × ActiveBatch}
    (h : target ∈ activeSlotsOfRun s teamRunId) :
    s.activeOf target.1 = some target.2 ∧
      target.2.batch.intentIds.any (intentOfRun s teamRunId) := by
  simp only [activeSlotsOfRun, List.mem_filterMap, Option.bind_eq_some_iff] at h
  obtain ⟨t, -, active, ha, hif⟩ := h
  split at hif
  · obtain rfl := Option.some.inj hif
    exact ⟨ha, ‹_›⟩
  · simp at hif

theorem nodup_activeSlotsOfRun (s : CoordinatorState) (teamRunId : String) :
    ((activeSlotsOfRun s teamRunId).map (·.1)).Nodup := by
  have hkeys : s.slots.sortedKeys.Nodup :=
    (List.perm_insertionSort _ _).nodup_iff.mpr s.slots.keys_nodup
  refine hkeys.sublist ?_
  rw [activeSlotsOfRun]
  induction s.slots.sortedKeys with
  | nil => exact .slnil
  | cons t l ih =>
    rw [List.filterMap_cons]
    split
    · exact ih.cons t
    · rename_i target ht
      obtain ⟨active, -, hif⟩ := Option.bind_eq_some_iff.mp ht
      split at hif
      · obtain rfl := Option.some.inj hif
        exact ih.cons_cons t
      · simp at hif

theorem nodup_arranged (hk : s.Keyed) (order : IterOrder WorkIntent) :
    ((order.arrange s.intents.values).map (·.intentId)).Nodup := by
  have hids : s.intents.values.map (·.intentId) = s.intents.keys := by
    simp only [Dict.values, AList.keys, List.keys, List.map_map]
    refine List.map_congr_left fun e he => ?_
    exact hk e.1 e.2 (AList.mem_lookup_iff.mpr he)
  have hperm := (order.perm s.intents.values).map (·.intentId)
  rw [hids] at hperm
  exact hperm.nodup_iff.mpr s.intents.keys_nodup

/-- The queued intents of a run, as `cancel_run` collects them. -/
theorem queued_of_mem_arranged (hk : s.Keyed) (teamRunId : String)
    (order : IterOrder WorkIntent) :
    let queued := (order.arrange s.intents.values).filter fun intent =>
      intent.teamRunId = some teamRunId ∧ intent.state = .queued
    (queued.map (·.intentId)).Nodup ∧
      ∀ i ∈ queued.map (·.intentId), ∃ x, s.intents.lookup i = some x ∧ x.state = .queued := by
  intro queued
  refine ⟨(nodup_arranged hk order).sublist (List.filter_sublist.map _), fun i hi => ?_⟩
  · obtain ⟨x, hx, rfl⟩ := List.mem_map.mp hi
    obtain ⟨hx, hp⟩ := List.mem_filter.mp hx
    rw [IterOrder.mem_arrange, hk.mem_values] at hx
    exact ⟨x, hx, (of_decide_eq_true hp).2⟩

/-- `cancel_run` releases the claims that hold an intent of the run and settles its
queued intents. -/
theorem cancelRun_moves (hk : s.Keyed) (teamRunId : String) (order : IterOrder WorkIntent) :
    WorkMoves R ordered s.ledger (cancelRun s teamRunId order).state.ledger := by
  have hactive : WorkMoves R ordered s.ledger
      ((activeSlotsOfRun s teamRunId).foldl (cancelActive teamRunId) s).ledger :=
    foldl_cancelActive_moves (nodup_activeSlotsOfRun s teamRunId) fun target ht =>
      (activeOf_of_mem_activeSlotsOfRun ht).1
  have hkeyed : ((activeSlotsOfRun s teamRunId).foldl (cancelActive teamRunId) s).Keyed :=
    hk.of_enqueuedAs
      (CoordinatorState.Retains.foldl
        (fun s target => cancelActive_retains s teamRunId target) s _).enqueuedAs
  obtain ⟨hn, hq⟩ := queued_of_mem_arranged hkeyed teamRunId order
  exact hactive.trans (foldl_cancelQueued_moves hn hq)

theorem completeSignals_moves (slotId : String) (ids : List String) :
    WorkMoves R ordered s.ledger (completeSignals s slotId ids).state.ledger := by
  rw [completeSignals]
  split
  · exact .refl
  · rename_i hvalid
    rw [CoordinatorState.ledger_settle _ _ _ rfl]
    refine .single (.settle slotId ids _ fun i hi => ?_)
    have hsignal : isQueuedSignal s slotId i := by
      simp only [not_not, List.all_eq_true] at hvalid
      exact hvalid i hi
    obtain ⟨x, hx, hp⟩ := (Option.any_eq_true _ _).mp hsignal
    obtain ⟨ht, -, hq⟩ := of_decide_eq_true hp
    exact ⟨x.item, CoordinatorState.ledger_item_eq hx, ht,
      WorkIntentState.phase_eq_queued.mpr hq⟩

theorem mem_liveIntents (hk : s.Keyed) {order : IterOrder WorkIntent} :
    x ∈ liveIntents s order slotId ↔
      s.intents.lookup x.intentId = some x ∧ x.slotId = slotId ∧ x.state.isTerminal = false := by
  rw [liveIntents, List.mem_filter, IterOrder.mem_arrange, hk.mem_values]
  simp

def keptIds (s : CoordinatorState) (order : IterOrder WorkIntent) (slotId : String)
    (constraint : RuntimeConstraint) : List String :=
  ((liveIntents s order slotId).filter (survives constraint)).map (·.intentId)

variable {constraint : RuntimeConstraint}

theorem constraintTerminalState_isTerminal (h : constraintTerminalState constraint = some state) :
    state.isTerminal := by
  cases constraint <;> simp [constraintTerminalState] at h <;> subst h <;> rfl

theorem setRuntimeConstraint_ledger_none (slotId : String) (order : IterOrder WorkIntent)
    (h : constraintTerminalState constraint = none) :
    (setRuntimeConstraint s slotId constraint order).state.ledger = s.ledger := by
  simp only [setRuntimeConstraint, h]
  exact s.ledger_putSlot_same slotId (s.lane_entrySlot slotId .teammate)

/-- A failed or stopped slot is rebuilt from the intents that survive, in the order of
the iteration over the intents. -/
theorem setRuntimeConstraint_ledger (hk : s.Keyed) (slotId : String)
    (order : IterOrder WorkIntent) (h : constraintTerminalState constraint = some state) :
    (setRuntimeConstraint s slotId constraint order).state.ledger =
      s.ledger.rebuild slotId (keptIds s order slotId constraint) state := by
  have hstate := constraintTerminalState_isTerminal h
  simp only [setRuntimeConstraint, h]
  rw [CoordinatorState.ledger_putSlot, CoordinatorState.ledger_setIntentStates,
    CoordinatorState.ledger_setIntentStates, CoordinatorState.ledger_putSlot]
  set put := s.putSlot slotId
    { s.entrySlot slotId .teammate with runtimeConstraint := constraint } with hput
  have hlive : liveIntents put order slotId = liveIntents s order slotId := rfl
  simp only [hlive]
  refine Ledger.ext (funext fun i => ?_) (funext fun u => ?_)
  · simp only [Ledger.setLane_item, Ledger.rephase_item, Ledger.rebuild, Option.map_map]
    rw [CoordinatorState.ledger_item]
    cases hi : s.intents.lookup i with
    | none => rfl
    | some x =>
      simp only [Option.map_some, Function.comp_apply, Option.some.injEq]
      have hid := hk i x hi
      -- kept or ended: a live intent of the slot, told apart by `survives`
      have hmem : ∀ f : WorkIntent → Bool,
          i ∈ ((liveIntents s order slotId).filter f).map (·.intentId) ↔
            x.slotId = slotId ∧ x.state.isTerminal = false ∧ f x := by
        intro f
        simp only [List.mem_map, List.mem_filter, mem_liveIntents hk]
        constructor
        · rintro ⟨y, ⟨⟨hy, hyt, hys⟩, hf⟩, rfl⟩
          obtain rfl : x = y := by simpa [hi] using hy
          exact ⟨hyt, hys, hf⟩
        · rintro ⟨ht, hs, hf⟩
          exact ⟨x, ⟨⟨by rw [hid, hi], ht, hs⟩, hf⟩, hid⟩
      simp only [keptIds, hmem, WorkIntent.item, WorkIntentState.isDone_phase]
      by_cases ht : x.slotId = slotId ∧ x.state.isTerminal = false
      · cases survives constraint x <;>
          simp [ht.1, ht.2, WorkIntentState.phase_terminal hstate]
      · simp [← and_assoc, ht]
  · simp only [Ledger.setLane_lane, Ledger.rephase_lane, Ledger.rebuild]
    split
    · simp only [SlotState.lane, SlotState.active_foldl_pushBack, Lane.mk.injEq]
      refine ⟨funext fun q => ?_, rfl⟩
      rw [SlotState.queue_foldl_pushBack, SlotState.queue_clearWork, List.nil_append, keptIds,
        List.filter_map]
      congr 1
      refine List.filter_congr fun x hx => ?_
      obtain ⟨hx, -, -⟩ := (mem_liveIntents hk).mp (List.mem_of_mem_filter hx)
      simp [CoordinatorState.prioOf_ledger, hx]
    · rfl

/-- `remove_slot` lists exactly the live intents of the slot. -/
theorem mem_removedIntentIds (hL : s.ledger.Coherent) (hk : s.Keyed) (slotId : String) :
    i ∈ removedIntentIds s slotId ↔
      ∃ x, s.intents.lookup i = some x ∧ x.slotId = slotId ∧ x.state.isTerminal = false := by
  have hordered : ∀ j ∈ ((s.activeOf slotId).elim [] (·.batch.intentIds)) ++
      ((s.slots.lookup slotId).elim [] (·.queuedIds)),
      ∃ x, s.intents.lookup j = some x ∧ x.slotId = slotId ∧ x.state.isTerminal = false := by
    intro j hj
    rcases List.mem_append.mp hj with hj | hj
    · cases ha : s.activeOf slotId with
      | none => simp [ha] at hj
      | some active =>
        rw [ha] at hj
        obtain ⟨x, hx, ht, hp⟩ := CoordinatorState.lookup_of_active hL ha hj
        exact ⟨x, hx, ht, by rw [← WorkIntentState.isDone_phase, hp]; rfl⟩
    · cases hs : s.slots.lookup slotId with
      | none => simp [hs] at hj
      | some slot =>
        rw [hs] at hj
        obtain ⟨p, hj⟩ := SlotState.mem_queuedIds.mp hj
        obtain ⟨x, hx, ht, -, hp⟩ := CoordinatorState.lookup_of_queued hL hs hj
        exact ⟨x, hx, ht, by rw [hp]; rfl⟩
  simp only [removedIntentIds]
  rw [List.mem_append]
  constructor
  · rintro (hi | hi)
    · exact hordered i hi
    · simp only [List.mem_map, List.mem_insertionSort, List.mem_filter, hk.mem_values] at hi
      obtain ⟨x, ⟨hx, hp⟩, rfl⟩ := hi
      obtain ⟨ht, hlive, -⟩ := of_decide_eq_true hp
      exact ⟨x, hx, ht, by simpa using hlive⟩
  · rintro ⟨x, hx, ht, hp⟩
    refine or_iff_not_imp_left.mpr fun hi => ?_
    simp only [List.mem_map, List.mem_insertionSort, List.mem_filter, hk.mem_values]
    exact ⟨x, ⟨by rw [hk i x hx, hx], by simpa [ht, hp, hk i x hx] using hi⟩, hk i x hx⟩

/-- Without an unknown intent the loop of `remove_slot` runs to its end. -/
theorem cancelListed_eq (h : ∀ i ∈ ids, (s.intents.lookup i).isSome) :
    cancelListed s ids = (s.setIntentStates ids (.cancelled "slot_removed"), true) := by
  induction ids generalizing s with
  | nil => rfl
  | cons i ids ih =>
    obtain ⟨x, hx⟩ := Option.isSome_iff_exists.mp (h i List.mem_cons_self)
    rw [cancelListed, hx]
    refine ih fun j hj => ?_
    rw [CoordinatorState.lookup_setIntentStates]
    split
    · rw [Option.isSome_map]
      exact h j (List.mem_cons_of_mem i hj)
    · exact h j (List.mem_cons_of_mem i hj)

/-- The loop of `remove_slot` meets no unknown intent. -/
theorem cancelListed_removed (hL : s.ledger.Coherent) (hk : s.Keyed) (slotId : String) :
    cancelListed s (removedIntentIds s slotId) =
      (s.setIntentStates (removedIntentIds s slotId) (.cancelled "slot_removed"), true) := by
  refine cancelListed_eq fun i hi => ?_
  obtain ⟨x, hx, -⟩ := (mem_removedIntentIds hL hk slotId).mp hi
  rw [hx]
  rfl

/-- `remove_slot` does not panic; it rebuilds the slot from nothing. -/
theorem removeSlot_ledger (hL : s.ledger.Coherent) (hk : s.Keyed) (slotId : String) :
    (removeSlot s slotId).result.isSome ∧ (removeSlot s slotId).state.ledger =
      s.ledger.rebuild slotId [] (.cancelled "slot_removed") := by
  have hmem := fun i => mem_removedIntentIds hL hk slotId (i := i)
  simp only [removeSlot, cancelListed_removed hL hk slotId]
  refine ⟨rfl, ?_⟩
  refine Ledger.ext (funext fun i => ?_) (funext fun u => ?_)
  · rw [CoordinatorState.ledger_item, CoordinatorState.modifySlot,
      CoordinatorState.lookup_setIntentStates]
    simp only [Ledger.rebuild, Ledger.setLane_item, Ledger.rephase_item,
      CoordinatorState.ledger_item, hmem]
    cases hi : s.intents.lookup i with
    | none => simp
    | some x =>
      by_cases ht : x.slotId = slotId ∧ x.state.isTerminal = false
      · have hlisted : ∃ y, some x = some y ∧ y.slotId = slotId ∧ y.state.isTerminal = false :=
          ⟨x, rfl, ht⟩
        simp only [if_pos hlisted, Option.map_some, WorkIntent.item,
          WorkIntentState.isDone_phase, if_pos ht, List.not_mem_nil, if_false]
        rfl
      · have hnot : ¬∃ y, some x = some y ∧ y.slotId = slotId ∧ y.state.isTerminal = false := by
          rintro ⟨y, hy, hyt⟩
          obtain rfl := Option.some.inj hy
          exact ht hyt
        simp only [hnot, if_false, Option.map_some, WorkIntent.item,
          WorkIntentState.isDone_phase, ht]
  · rw [CoordinatorState.ledger_lane, CoordinatorState.modifySlot, Dict.lookup_modify]
    simp only [CoordinatorState.setIntentStates, Ledger.rebuild, Ledger.setLane_lane,
      Ledger.rephase_lane, CoordinatorState.ledger_lane]
    by_cases hu : u = slotId
    · subst u
      cases s.slots.lookup slotId with
      | none => simp [Lane.empty]
      | some slot =>
        simp only [if_true, Option.map_some, Option.elim_some, List.filter_nil]
        exact SlotState.lane_clearWork slot
    · simp [hu]

/-- `stop` ends everything. -/
theorem stop_ledger : (stop s).state.ledger = s.ledger.halt (.cancelled "session_stopped") := by
  refine Ledger.ext (funext fun i => ?_) (funext fun u => ?_)
  · simp only [stop, CoordinatorState.ledger_item, Dict.lookup_mapValues, Ledger.halt,
      Ledger.rephase_item, Option.map_map]
    congr 1
    funext x
    simp only [Function.comp_apply, WorkIntent.item, WorkIntentState.isDone_phase]
    split <;> rfl
  · simp only [stop, CoordinatorState.ledger_lane, Dict.lookup_mapValues, Ledger.halt]
    cases s.slots.lookup u with
    | none => rfl
    | some slot => exact SlotState.lane_clearWork slot

end SlotWorkCoordinator

end AionCore.Team
