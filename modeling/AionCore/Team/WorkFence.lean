import AionCore.Team.WorkLeases

/-!
# The ownership fence

Batches and leases fence off stale owners. The invariant `Fenced` holds in every run,
whatever batches and leases its callers pass: a slot holds only batches that `next`
handed out, no two of them share an identifier, and none that has been given back is
held again.
-/

namespace AionCore.Team

def WorkBatch.SameClaim (a b : WorkBatch) : Prop :=
  a.batchId = b.batchId ∧ a.operationId = b.operationId ∧
    a.sessionGeneration = b.sessionGeneration

/-- The slots, intents and leases are those of `s`. -/
def CoordinatorState.Unchanged (s s' : CoordinatorState) : Prop :=
  s'.slots = s.slots ∧ s'.intents = s.intents ∧
    ∀ k, s'.enqueueLeases.lookup k = s.enqueueLeases.lookup k

theorem CoordinatorState.Unchanged.refl (s : CoordinatorState) : s.Unchanged s :=
  ⟨rfl, rfl, fun _ => rfl⟩

namespace SlotWorkCoordinator

variable (c : SlotWorkCoordinator)

/-- Whatever its callers pass, the batches of a run are told apart by their ids. -/
structure Fenced (w : Tracked) : Prop where
  leases : w.state.LeasesKeyed
  drawn : ∀ b ∈ w.handed, c.generateId.Drawn w.state.generated b.batchId
  distinct : ∀ b ∈ w.handed, ∀ b' ∈ w.handed, b.batchId = b'.batchId → b = b'
  generation : ∀ b ∈ w.handed, b.sessionGeneration = c.sessionGeneration
  held : ∀ t b, w.state.batchOf t = some b → b ∈ w.handed ∧ b.slotId = t
  settled : ∀ id ∈ w.settled, ∃ b ∈ w.handed, b.batchId = id
  once : w.settled.Nodup
  released : ∀ t b, w.state.batchOf t = some b → b.batchId ∉ w.settled

variable {c} {s : CoordinatorState} {w : Tracked} {b : WorkBatch}

theorem Fenced.empty : c.Fenced .empty where
  leases _ _ h := by simp [Tracked.empty, CoordinatorState.empty] at h
  drawn _ h := by simp [Tracked.empty] at h
  distinct _ h := by simp [Tracked.empty] at h
  generation _ h := by simp [Tracked.empty] at h
  held _ _ h := by simp [Tracked.empty, CoordinatorState.empty, CoordinatorState.batchOf,
    CoordinatorState.activeOf] at h
  settled _ h := by simp [Tracked.empty] at h
  once := List.nodup_nil
  released _ _ _ h := by simp [Tracked.empty] at h

/-- The fence recognises a batch by the claim that its slot holds. -/
theorem isCurrentBatch_iff : c.isCurrentBatch s b ↔
    b.sessionGeneration = c.sessionGeneration ∧
      ∃ held, s.batchOf b.slotId = some held ∧ held.SameClaim b := by
  simp only [isCurrentBatch, decide_eq_true_eq, Option.any_eq_true, CoordinatorState.batchOf,
    Option.map_eq_some_iff, WorkBatch.SameClaim]
  refine and_congr_right fun _ => ?_
  constructor
  · rintro ⟨active, ha, hp⟩
    exact ⟨_, ⟨active, ha, rfl⟩, hp⟩
  · rintro ⟨_, ⟨active, ha, rfl⟩, hp⟩
    exact ⟨active, ha, hp⟩

theorem Fenced.isCurrentBatch_iff (h : c.Fenced w) (hb : b ∈ w.handed) :
    c.isCurrentBatch w.state b ↔ w.state.batchOf b.slotId = some b := by
  rw [SlotWorkCoordinator.isCurrentBatch_iff]
  constructor
  · rintro ⟨-, held, hheld, hid, -⟩
    rw [hheld, h.distinct held (h.held _ _ hheld).1 b hb hid]
  · intro hheld
    exact ⟨h.generation b hb, b, hheld, rfl, rfl, rfl⟩

theorem terminalizeBatch_current {state : WorkIntentState} (hc : c.isCurrentBatch s b) :
    (c.terminalizeBatch s b state).result = .committed ∧
      (c.terminalizeBatch s b state).state.batchOf b.slotId = none := by
  rw [terminalizeBatch, if_neg (by simpa using hc)]
  refine ⟨rfl, ?_⟩
  rw [CoordinatorState.batchOf, CoordinatorState.activeOf_modifySlot, if_pos rfl]
  cases (s.setIntentStates b.intentIds state).slots.lookup b.slotId <;> rfl

theorem retryStart_current (hc : c.isCurrentBatch s b) :
    (c.retryStart s b).result = .committed ∧
      (c.retryStart s b).state.batchOf b.slotId = none := by
  rw [retryStart, if_neg (by simpa using hc)]
  refine ⟨rfl, ?_⟩
  rw [CoordinatorState.batchOf, CoordinatorState.activeOf_modifySlot, if_pos rfl]
  have hfold := fun slot : SlotState =>
    SlotState.active_foldl_pushFront { slot with active := none }
      (b.intentIds.reverse.map fun id => (b.highestPriority, id))
  simp only [List.foldl_map] at hfold
  cases (s.setIntentStates b.intentIds .queued).slots.lookup b.slotId with
  | none => rfl
  | some slot =>
    rw [Option.bind_some, hfold]
    rfl

theorem stale_of_not_current (hc : ¬c.isCurrentBatch s b) :
    c.retryStart s b = ⟨s, .staleOwner, []⟩ ∧
      ∀ state, c.terminalizeBatch s b state = ⟨s, .staleOwner, []⟩ :=
  ⟨if_pos hc, fun _ => if_pos hc⟩

/-- A batch that is given back was recognised, and its slot holds none afterwards. -/
theorem settledBatch_exec (bindEnqueue : EnqueueRequest → RunBinding) {op : Op} {id : String}
    (h : id ∈ settledBatch op (c.exec bindEnqueue s op).result) :
    settledBatch op (c.exec bindEnqueue s op).result = [id] ∧
      ∃ b, b.batchId = id ∧ c.isCurrentBatch s b ∧
        (c.exec bindEnqueue s op).state.batchOf b.slotId = none := by
  have hgiven : ∀ (b : WorkBatch) (o : Outcome CommitResult), op.batch? = some b →
      op.settlesBatch → c.exec bindEnqueue s op = o.map .settled →
      (c.isCurrentBatch s b → o.result = .committed ∧ o.state.batchOf b.slotId = none) →
      (¬c.isCurrentBatch s b → o = ⟨s, .staleOwner, []⟩) →
      settledBatch op (c.exec bindEnqueue s op).result = [id] ∧
        ∃ b, b.batchId = id ∧ c.isCurrentBatch s b ∧
          (c.exec bindEnqueue s op).state.batchOf b.slotId = none := by
    intro b o hb hs he hcurrent hstale
    rw [he] at h ⊢
    by_cases hc : c.isCurrentBatch s b
    · obtain ⟨hr, hnone⟩ := hcurrent hc
      simp only [Outcome.map, hr, settledBatch, hs, if_true, hb, Option.map_some,
        Option.toList_some, List.mem_singleton] at h ⊢
      exact ⟨by rw [h], b, h.symm, hc, hnone⟩
    · simp [hstale hc, Outcome.map, settledBatch] at h
  cases op with
  | retryStart b =>
    exact hgiven b _ rfl rfl rfl retryStart_current fun hc => (stale_of_not_current hc).1
  | completeBatch b | failBatch b classification | cancelBatch b classification =>
    exact hgiven b _ rfl rfl rfl terminalizeBatch_current fun hc => (stale_of_not_current hc).2 _
  | _ =>
    simp only [settledBatch] at h
    split at h <;> simp [Op.settlesBatch] at h

theorem Fenced.held_of_settled (h : c.Fenced w) (call : Call) {id : String}
    (hid : id ∈ settledBatch call.op (c.exec call.bindEnqueue w.state call.op).result) :
    ∃ held ∈ w.handed, held.batchId = id ∧ w.state.batchOf held.slotId = some held ∧
      (c.fire w call).state.batchOf held.slotId = none := by
  obtain ⟨-, b, rfl, hc, hnone⟩ := settledBatch_exec call.bindEnqueue hid
  obtain ⟨-, held, hheld, hsame, -⟩ := SlotWorkCoordinator.isCurrentBatch_iff.mp hc
  obtain ⟨hmem, hslot⟩ := h.held _ _ hheld
  exact ⟨held, hmem, hsame, hslot ▸ hheld, hslot ▸ hnone⟩

/-- Every call keeps the fence. -/
theorem Fenced.step (h : c.Fenced w) (call : Call) : c.Fenced (c.fire w call) := by
  have hgen : w.state.generated ≤ (c.fire w call).state.generated :=
    (c.exec_extends w.state call.bindEnqueue call.op).generated
  have hnew : ∀ b ∈ (c.exec call.bindEnqueue w.state call.op).result.handed,
      b.batchId = c.generateId.draw w.state.generated :=
    fun b hb => (c.exec_handed w.state call.bindEnqueue call.op hb).2.2.1
  have hbatch := fun t b => c.exec_batchOf w.state call.bindEnqueue call.op (t := t) (b := b)
  constructor
  case leases => exact c.exec_leasesKeyed w.state h.leases call.bindEnqueue call.op
  case drawn =>
    intro b hb
    rcases List.mem_append.mp hb with hb | hb
    · exact (h.drawn b hb).mono hgen
    · obtain ⟨-, -, hid, hg, -⟩ := c.exec_handed w.state call.bindEnqueue call.op hb
      rw [hid]
      exact c.generateId.drawn_draw (by rw [fire, hg]; omega)
  case distinct =>
    intro b hb b' hb' hid
    rcases List.mem_append.mp hb with hb | hb <;> rcases List.mem_append.mp hb' with hb' | hb'
    · exact h.distinct b hb b' hb' hid
    -- an old batch and a new one differ in their ids
    · exact absurd (hid.trans (hnew b' hb')) (h.drawn b hb).ne_draw
    · exact absurd (hid.symm.trans (hnew b hb)) (h.drawn b' hb').ne_draw
    -- a call hands out one batch at most
    · have hone := (c.exec_handed w.state call.bindEnqueue call.op hb).1
      rw [hone] at hb'
      exact (List.mem_singleton.mp hb').symm
  case generation =>
    intro b hb
    rcases List.mem_append.mp hb with hb | hb
    · exact h.generation b hb
    · exact (c.exec_handed w.state call.bindEnqueue call.op hb).2.1
  case held =>
    intro t b hb
    rcases hbatch t b hb with hb | ⟨hb, ht, -, -⟩
    · exact ⟨List.mem_append_left _ (h.held t b hb).1, (h.held t b hb).2⟩
    · exact ⟨List.mem_append_right _ (by rw [hb]; exact List.mem_singleton_self b), ht⟩
  case settled =>
    intro id hid
    rcases List.mem_append.mp hid with hid | hid
    · obtain ⟨b, hb, he⟩ := h.settled id hid
      exact ⟨b, List.mem_append_left _ hb, he⟩
    · obtain ⟨held, hmem, he, -⟩ := h.held_of_settled call hid
      exact ⟨held, List.mem_append_left _ hmem, he⟩
  case once =>
    refine List.nodup_append.mpr ⟨h.once, ?_, fun a ha id hid => ?_⟩
    · by_cases hnil : settledBatch call.op (c.exec call.bindEnqueue w.state call.op).result = []
      · rw [hnil]
        exact List.nodup_nil
      · obtain ⟨id, hid⟩ := List.exists_mem_of_ne_nil _ hnil
        rw [(settledBatch_exec call.bindEnqueue hid).1]
        exact List.nodup_singleton id
    · rintro rfl
      obtain ⟨held, -, he, hheld, -⟩ := h.held_of_settled call hid
      exact h.released _ _ hheld (he ▸ ha)
  case released =>
    intro t b hb hid
    rcases hbatch t b hb with hold | ⟨-, -, hfresh, -⟩
    · rcases List.mem_append.mp hid with hid | hid
      · exact h.released t b hold hid
      · -- the batch that is given back is `b`, so its slot is empty
        obtain ⟨held, hmem, he, -, hnone⟩ := h.held_of_settled call hid
        obtain ⟨hmem', rfl⟩ := h.held t b hold
        obtain rfl := h.distinct held hmem b hmem' he
        cases hnone.symm.trans hb
    · have hdrawn : c.generateId.Drawn w.state.generated b.batchId := by
        rcases List.mem_append.mp hid with hid | hid
        · obtain ⟨b', hb', he⟩ := h.settled _ hid
          exact he ▸ h.drawn b' hb'
        · obtain ⟨held, hmem, he, -⟩ := h.held_of_settled call hid
          exact he ▸ h.drawn held hmem
      exact hdrawn.ne_draw hfresh

theorem fenced_of_reachable (h : c.openMachine.Reachable w) : c.Fenced w :=
  h.invariant (by rintro _ rfl; exact .empty) fun _ call hw _ => hw.step call

/-- The batch is not the one that its slot holds: the slot holds none or another claim,
or the batch is, as `next` returned it, another value. -/
def NotActive (w : Tracked) (b : WorkBatch) : Prop :=
  (∀ held, w.state.batchOf b.slotId = some held → ¬held.SameClaim b) ∨
    b ∈ w.handed ∧ w.state.batchOf b.slotId ≠ some b

/-- The reply turns its caller away. -/
def TurnsAway (w : Tracked) (op : Op) : Reply → Prop
  | .commit (.error _) | .settled .staleOwner | .settled .rejected | .started .staleOwner => True
  | .started .cancelImmediately => ∀ b ∈ op.batch?, NotActive w b
  | _ => False

theorem Fenced.not_current (h : c.Fenced w) (hb : NotActive w b) :
    ¬c.isCurrentBatch w.state b := by
  intro hc
  rcases hb with hb | ⟨hmem, hne⟩
  · obtain ⟨-, held, hheld, hsame⟩ := SlotWorkCoordinator.isCurrentBatch_iff.mp hc
    exact hb held hheld hsame
  · exact hne ((h.isCurrentBatch_iff hmem).mp hc)

/-- A caller that is turned away has changed nothing and published nothing. -/
theorem Fenced.unchanged (h : c.Fenced w) (call : Call)
    (ht : TurnsAway w call.op (c.exec call.bindEnqueue w.state call.op).result) :
    w.state.Unchanged (c.exec call.bindEnqueue w.state call.op).state ∧
      (c.exec call.bindEnqueue w.state call.op).calls = [] := by
  obtain ⟨op, bindEnqueue⟩ := call
  have hgiven : ∀ (b : WorkBatch) (o : Outcome CommitResult),
      TurnsAway w op (.settled o.result) →
      (c.isCurrentBatch w.state b → o.result = .committed ∧
        o.state.batchOf b.slotId = none) →
      (¬c.isCurrentBatch w.state b → o = ⟨w.state, .staleOwner, []⟩) →
      w.state.Unchanged o.state ∧ o.calls = [] := by
    intro b o ht hcurrent hstale
    by_cases hc : c.isCurrentBatch w.state b
    · rw [(hcurrent hc).1] at ht
      exact ht.elim
    · rw [hstale hc]
      exact ⟨.refl _, rfl⟩
  cases op with
  | commitEnqueue lease m now =>
    simp only [exec, Outcome.map, commitEnqueue] at ht ⊢
    split at ht
    · exact ⟨.refl _, rfl⟩
    · exact ht.elim
  | abortEnqueue lease =>
    simp only [exec, Outcome.map] at ht ⊢
    rcases c.abortEnqueue_cases w.state h.leases lease with ⟨-, hcalls, hsame⟩ | ⟨hr, -⟩
    · refine ⟨⟨?_, ?_, hsame⟩, hcalls⟩ <;>
      · simp only [abortEnqueue]
        repeat' split
        all_goals rfl
    · rw [hr] at ht
      exact ht.elim
  | markStarted b turnId now =>
    simp only [exec, Outcome.map] at ht ⊢
    by_cases hc : c.isCurrentBatch w.state b
    · rw [markStarted, if_neg (by simpa using hc)] at ht
      dsimp only at ht
      split at ht
      · exact absurd hc (h.not_current (ht b rfl))
      · exact ht.elim
    · rw [markStarted, if_pos hc]
      exact ⟨.refl _, rfl⟩
  | retryStart b =>
    exact hgiven b _ ht retryStart_current fun hc => (stale_of_not_current hc).1
  | completeBatch b | failBatch b classification | cancelBatch b classification =>
    exact hgiven b _ ht terminalizeBatch_current fun hc => (stale_of_not_current hc).2 _
  | completeSignals t ids =>
    simp only [exec, Outcome.map, completeSignals] at ht ⊢
    split at ht
    · rename_i hvalid
      rw [if_pos hvalid]
      exact ⟨.refl _, rfl⟩
    · exact ht.elim
  | _ => exact ht.elim

/-- In every reachable state, whatever leases and batches were passed, a caller that is turned
away has changed nothing and published nothing, and no batch is given back twice. -/
theorem stale_owners_touch_nothing (h : c.openMachine.Reachable w) :
    (∀ call : Call, TurnsAway w call.op (c.exec call.bindEnqueue w.state call.op).result →
      w.state.Unchanged (c.exec call.bindEnqueue w.state call.op).state ∧
        (c.exec call.bindEnqueue w.state call.op).calls = []) ∧
    ∀ id, w.settled.count id ≤ 1 :=
  ⟨fun call => (fenced_of_reachable h).unchanged call,
    fun id => List.nodup_iff_count_le_one.mp (fenced_of_reachable h).once id⟩

/-- Instance: after a batch has been given back twice. -/
theorem stale_owners_touch_nothing_sample :
    let w := sample.machine.run .empty (enqueueSample none ++ [bound none (.next "lead"),
      bound none (.retryStart (sampleBatch [])), bound none (.completeBatch (sampleBatch []))])
    (∀ call : Call,
      TurnsAway w call.op (sample.exec call.bindEnqueue w.state call.op).result →
        w.state.Unchanged (sample.exec call.bindEnqueue w.state call.op).state ∧
          (sample.exec call.bindEnqueue w.state call.op).calls = []) ∧
      ∀ id, w.settled.count id ≤ 1 :=
  stale_owners_touch_nothing (c := sample)
    (sample.reachable_open (Machine.reachable_run rfl (by decide)))

end SlotWorkCoordinator

end AionCore.Team
