import AionCore.Team.WorkInvariant

/-!
# Revoked claims

What `cancel_run` does to each intent, and the fate of a claim that is taken from its
slot before its turn starts: `mark_started` answers `CancelImmediately` for ever after,
unless the claim was revoked by cancelling a run that not all of its intents belong to.
-/

namespace AionCore.Team

namespace SlotWorkCoordinator

variable {c : SlotWorkCoordinator} {s : CoordinatorState}

/-- How the first loop of `cancel_run` leaves an intent of an affected batch. -/
def releasedBy (r : String) (x : WorkIntent) : WorkIntent :=
  { x with state := if x.teamRunId = some r then .cancelled "run_cancelled" else .queued }

theorem lookup_cancelActive (r : String) (target : String × ActiveBatch) (i : String) :
    (cancelActive r s target).intents.lookup i =
      if i ∈ target.2.batch.intentIds then (s.intents.lookup i).map (releasedBy r)
      else s.intents.lookup i := by
  rw [cancelActive]
  simp only [CoordinatorState.modifySlot, CoordinatorState.lookup_setIntentStates, List.mem_filter]
  by_cases hi : i ∈ target.2.batch.intentIds
  · cases hx : s.intents.lookup i with
    | none => simp [hi]
    | some x => by_cases hr : x.teamRunId = some r <;> simp [hi, intentOfRun, hx, releasedBy, hr]
  · simp [hi]

theorem lookup_foldl_cancelActive (r : String) (targets : List (String × ActiveBatch))
    (i : String) :
    (targets.foldl (cancelActive r) s).intents.lookup i =
      if ∃ target ∈ targets, i ∈ target.2.batch.intentIds then
        (s.intents.lookup i).map (releasedBy r)
      else s.intents.lookup i := by
  induction targets generalizing s with
  | nil => simp
  | cons target targets ih =>
    rw [List.foldl_cons, ih, lookup_cancelActive]
    have htwice : releasedBy r ∘ releasedBy r = releasedBy r := rfl
    by_cases hi : i ∈ target.2.batch.intentIds
    · by_cases hrest : ∃ target ∈ targets, i ∈ target.2.batch.intentIds
      · simp [hi, hrest, htwice]
      · simp [hi, hrest]
    · have hiff : (∃ target' ∈ target :: targets, i ∈ target'.2.batch.intentIds) ↔
          ∃ target' ∈ targets, i ∈ target'.2.batch.intentIds := by simp [hi]
      by_cases hrest : ∃ target ∈ targets, i ∈ target.2.batch.intentIds
      · rw [if_neg hi, if_pos hrest, if_pos (hiff.mpr hrest)]
      · rw [if_neg hi, if_neg hrest, if_neg (mt hiff.mp hrest)]

theorem lookup_foldl_cancelQueued (ids : List String) (i : String) :
    (ids.foldl cancelQueued s).intents.lookup i =
      if i ∈ ids then
        (s.intents.lookup i).map fun x => { x with state := .cancelled "run_cancelled" }
      else s.intents.lookup i := by
  induction ids generalizing s with
  | nil => simp
  | cons j ids ih =>
    rw [List.foldl_cons, ih]
    have hone : (cancelQueued s j).intents.lookup i =
        if i = j then
          (s.intents.lookup i).map fun x => { x with state := .cancelled "run_cancelled" }
        else s.intents.lookup i := by
      by_cases hij : i = j
      · subst hij
        rw [if_pos rfl, cancelQueued]
        cases hx : s.intents.lookup i with
        | none => simp [hx]
        | some x => simp [CoordinatorState.modifySlot, hx]
      · rw [if_neg hij, lookup_cancelQueued_ne hij]
    rw [hone]
    by_cases hij : i = j
    · by_cases hi : i ∈ ids <;> simp [hij, Function.comp_def]
    · simp [hij]

variable {i : String} {x : WorkIntent}

/-- `cancel_run` cancels the claimed and the queued intents of the run, puts the other
intents of the affected batches back in their queues, and touches no other intent. -/
theorem lookup_cancelRun (hk : s.Keyed) (r : String) (order : IterOrder WorkIntent)
    (hx : s.intents.lookup i = some x) :
    (cancelRun s r order).state.intents.lookup i = some
      (if ∃ target ∈ activeSlotsOfRun s r, i ∈ target.2.batch.intentIds then releasedBy r x
       else if x.teamRunId = some r ∧ x.state = .queued then
         { x with state := .cancelled "run_cancelled" }
       else x) := by
  -- `mid` is the state between the two loops; the second looks at the states it finds there
  set mid := (activeSlotsOfRun s r).foldl (cancelActive r) s with hmid
  have hkeyed : mid.Keyed := hk.of_enqueuedAs
    (CoordinatorState.Retains.foldl (fun s t => cancelActive_retains s r t) s _).enqueuedAs
  have hlookup := lookup_foldl_cancelActive (s := s) r (activeSlotsOfRun s r) i
  rw [← hmid, hx] at hlookup
  have hmem : ∀ y, mid.intents.lookup i = some y →
      (i ∈ ((order.arrange mid.intents.values).filter fun intent =>
        intent.teamRunId = some r ∧ intent.state = .queued).map (·.intentId) ↔
        y.teamRunId = some r ∧ y.state = .queued) := by
    intro y hy
    simp only [List.mem_map, List.mem_filter, IterOrder.mem_arrange, hkeyed.mem_values,
      decide_eq_true_eq]
    constructor
    · rintro ⟨z, ⟨hz, hp⟩, rfl⟩
      obtain rfl : y = z := by simpa [hy] using hz
      exact hp
    · intro hp
      exact ⟨y, ⟨by rw [hkeyed i y hy, hy], hp⟩, hkeyed i y hy⟩
  have hfinal : (cancelRun s r order).state.intents.lookup i =
      ((((order.arrange mid.intents.values).filter fun intent =>
        intent.teamRunId = some r ∧ intent.state = .queued).map
          (·.intentId)).foldl cancelQueued mid).intents.lookup i := rfl
  rw [hfinal, lookup_foldl_cancelQueued]
  by_cases htarget : ∃ target ∈ activeSlotsOfRun s r, i ∈ target.2.batch.intentIds
  · rw [if_pos htarget, Option.map_some] at hlookup
    -- an intent that went back to its queue belongs to another run
    have hnot : ¬((releasedBy r x).teamRunId = some r ∧ (releasedBy r x).state = .queued) := by
      rintro ⟨hr, hq⟩
      simp only [releasedBy] at hr hq
      simp [hr] at hq
    rw [if_neg (mt (hmem _ hlookup).mp hnot), hlookup, if_pos htarget]
  · rw [if_neg htarget] at hlookup
    by_cases hq : x.teamRunId = some r ∧ x.state = .queued
    · rw [if_pos ((hmem x hlookup).mpr hq), hlookup, if_neg htarget, if_pos hq, Option.map_some]
    · rw [if_neg (mt (hmem x hlookup).mp hq), hlookup, if_neg htarget, if_neg hq]

/-- The call takes the batch from its slot: it cancels a run of one of its intents, the
batch itself, its slot or the session. -/
def Revokes (b : WorkBatch) : Op → Prop
  | .cancelRun r _ => r ∈ b.teamRunIds
  | .cancelBatch b' _ => b' = b
  | .removeSlot t => t = b.slotId
  | .stop => True
  | _ => False

/-- The call is not the cancellation of a run that some intent of the batch does not
belong to. -/
def RevokesWhole (s : CoordinatorState) (b : WorkBatch) (op : Op) : Prop :=
  ∀ r order, op = .cancelRun r order → ∀ i ∈ b.intentIds, intentOfRun s r i

variable {w w' : Tracked} {b : WorkBatch}

/-- A slot never holds again a batch that it has given up. -/
theorem never_held_again (hw : c.machine.Reachable w) (hr : c.machine.Reaches w w')
    (hmem : b ∈ w.handed) (hnot : w.state.batchOf b.slotId ≠ some b) :
    b ∈ w'.handed ∧ w'.state.batchOf b.slotId ≠ some b := by
  refine Machine.Reaches.preserves_of_reachable
    (P := fun w => b ∈ w.handed ∧ w.state.batchOf b.slotId ≠ some b)
    (fun v call hv hp hcall => ?_) hw hr ⟨hmem, hnot⟩
  refine ⟨List.mem_append_left _ hp.1, fun hheld => ?_⟩
  rcases c.exec_batchOf v.state call.bindEnqueue call.op hheld with hheld | ⟨-, -, hid, -⟩
  · exact hp.2 hheld
  · exact ((sound_of_reachable hv).fenced.drawn b hp.1).ne_draw hid

theorem markStarted_of_not_held (hw : c.Sound w) (hmem : b ∈ w.handed)
    (hnot : w.state.batchOf b.slotId ≠ some b) (turnId : String) (now : TimestampMs) :
    (c.markStarted w.state b turnId now).result = .cancelImmediately ↔
      ∀ i ∈ b.intentIds, ∃ x, w.state.intents.lookup i = some x ∧ x.state.isCancelled := by
  have hc : ¬c.isCurrentBatch w.state b := mt (hw.fenced.isCurrentBatch_iff hmem).mp hnot
  rw [markStarted, if_pos hc]
  dsimp only
  split
  · rename_i hall
    simpa [List.all_eq_true, Option.any_eq_true] using hall
  · rename_i hall
    simpa [List.all_eq_true, Option.any_eq_true] using hall

/-- A batch with an intent of the run is among those that `cancel_run` takes. -/
theorem Sound.mem_activeSlotsOfRun (hw : c.Sound w) (hb : w.state.batchOf b.slotId = some b)
    {r : String} (hr : r ∈ b.teamRunIds) :
    ∃ target ∈ activeSlotsOfRun w.state r, target.2.batch = b := by
  have hmem := (hw.fenced.held _ _ hb).1
  obtain ⟨active, ha, hab⟩ := Option.map_eq_some_iff.mp hb
  obtain ⟨slot, hslot, -⟩ := Option.bind_eq_some_iff.mp ha
  obtain ⟨j, hj, y, hy, hyr⟩ := ((hw.describes b hmem).runs r).mp hr
  have hrun : intentOfRun w.state r j := by
    obtain ⟨z, hz, rfl⟩ := Option.map_eq_some_iff.mp hy
    simpa [intentOfRun, hz] using hyr
  refine ⟨(b.slotId, active), ?_, hab⟩
  simp only [activeSlotsOfRun, List.mem_filterMap, Option.bind_eq_some_iff]
  refine ⟨b.slotId, ?_, active, ha, if_pos ?_⟩
  · rw [Dict.sortedKeys, List.mem_insertionSort]
    exact AList.mem_keys.mpr (AList.lookup_isSome.mp (by rw [hslot]; rfl))
  · exact List.any_eq_true.mpr ⟨j, by rwa [hab], hrun⟩

/-- `remove_slot` cancels every live intent of the slot. -/
theorem lookup_removeSlot (hL : s.ledger.Coherent) (hk : s.Keyed) {t : String}
    (hx : s.intents.lookup i = some x) (ht : x.slotId = t) (hlive : x.state.isTerminal = false) :
    ∃ y, (removeSlot s t).state.intents.lookup i = some y ∧
      y.state = .cancelled "slot_removed" := by
  have hitem : (removeSlot s t).state.ledger.item i =
      some { x.item with phase := .done (.cancelled "slot_removed") } := by
    rw [(removeSlot_ledger hL hk t).2]
    simp [Ledger.rebuild, Ledger.rephase_item, CoordinatorState.ledger_item, hx, WorkIntent.item,
      ht, hlive]
  obtain ⟨y, hy, hyx⟩ := CoordinatorState.exists_of_ledger_item hitem
  exact ⟨y, hy, WorkIntentState.phase_eq_done (congrArg Item.phase hyx)⟩

/-- How a revocation leaves the intents of the batch. -/
theorem state_of_revoked (hw : c.Sound w) (hb : w.state.batchOf b.slotId = some b) {call : Call}
    (hcall : Revokes b call.op) (hi : i ∈ b.intentIds) :
    ∃ x, (c.fire w call).state.intents.lookup i = some x ∧ x.state.isClaimed = false ∧
      (x.state.isCancelled ↔ ∀ r order, call.op = .cancelRun r order →
        intentOfRun w.state r i) := by
  obtain ⟨op, bindEnqueue⟩ := call
  obtain ⟨x, hx, ht, hheld⟩ := (CoordinatorState.mem_batchOf hw.coherent hb).mp hi
  have hlive : x.state.isTerminal = false := by
    cases hs : x.state <;> simp_all [WorkIntentState.heldBy, WorkIntentState.isTerminal]
  cases op with
  | cancelRun r order =>
    obtain ⟨target, htarget, rfl⟩ := hw.mem_activeSlotsOfRun hb hcall
    have hafter := lookup_cancelRun hw.keyed r order hx
    rw [if_pos ⟨target, htarget, hi⟩] at hafter
    refine ⟨_, hafter, ?_, ?_⟩
    · simp only [releasedBy]
      split <;> rfl
    · have hrun : (∀ r' order', Op.cancelRun r order = .cancelRun r' order' →
          intentOfRun w.state r' i) ↔ x.teamRunId = some r := by
        constructor
        · intro h
          simpa [intentOfRun, hx] using h r order rfl
        · rintro h r' order' he
          obtain ⟨rfl, -⟩ := Op.cancelRun.inj he
          simpa [intentOfRun, hx] using h
      rw [hrun]
      simp only [releasedBy]
      split <;> simp_all [WorkIntentState.isCancelled]
  | cancelBatch b' classification =>
    obtain rfl : b' = b := hcall
    have hc := (hw.fenced.isCurrentBatch_iff (hw.fenced.held _ _ hb).1).mpr hb
    refine ⟨{ x with state := .cancelled classification }, ?_, rfl,
      by simp [WorkIntentState.isCancelled]⟩
    simp only [fire, exec, Outcome.map, cancelBatch, terminalizeBatch, hc, not_true, if_false,
      CoordinatorState.modifySlot, CoordinatorState.lookup_setIntentStates, hi, if_true, hx,
      Option.map_some]
  | removeSlot t =>
    obtain rfl : t = b.slotId := hcall
    obtain ⟨y, hy, hstate⟩ := lookup_removeSlot hw.coherent hw.keyed hx ht hlive
    exact ⟨y, hy, by rw [hstate]; rfl, by simp [hstate, WorkIntentState.isCancelled]⟩
  | stop =>
    refine ⟨{ x with state := .cancelled "session_stopped" }, ?_, rfl,
      by simp [WorkIntentState.isCancelled]⟩
    simp [fire, exec, Outcome.map, stop, hx, hlive]
  | _ => exact hcall.elim

/-- A revoked claim never runs, whatever happens after its revocation, exactly if the
revocation is not the cancellation of a run that covers only a part of the claim. -/
theorem revoked_claim_never_runs_iff (hw : c.machine.Reachable w)
    (hb : w.state.batchOf b.slotId = some b) (call : Call) (hcall : Revokes b call.op) :
    (∀ w', c.machine.Reaches (c.fire w call) w' → ∀ turnId now,
      (c.markStarted w'.state b turnId now).result = .cancelImmediately) ↔
    RevokesWhole w.state b call.op := by
  have hsound := sound_of_reachable hw
  have hmem := (hsound.fenced.held _ _ hb).1
  have hadmits : c.machine.admits w call := by
    rintro b' hb'
    cases hop : call.op <;> simp_all [Revokes, Op.batch?]
  have hafter : c.machine.Reachable (c.fire w call) := hw.fire hadmits
  -- a batch that is held has claimed intents only
  have hnot : (c.fire w call).state.batchOf b.slotId ≠ some b := by
    intro hheld
    obtain ⟨i, hi⟩ := List.exists_mem_of_ne_nil _ (hsound.describes b hmem).nonempty
    obtain ⟨x, hx, hclaimed, -⟩ := state_of_revoked hsound hb hcall hi
    obtain ⟨y, hy, -, hy'⟩ :=
      (CoordinatorState.mem_batchOf (sound_of_reachable hafter).coherent hheld).mp hi
    obtain rfl : x = y := by simpa [hx] using hy
    cases hs : x.state <;> simp_all [WorkIntentState.heldBy, WorkIntentState.isClaimed]
  have hhanded : b ∈ (c.fire w call).handed := List.mem_append_left _ hmem
  constructor
  -- a start right after the revocation tells what the revocation did
  · intro hnever r order hop i hi
    have hnow := hnever _ .refl "" 0
    rw [markStarted_of_not_held (sound_of_reachable hafter) hhanded hnot] at hnow
    obtain ⟨x, hx, hcancelled⟩ := hnow i hi
    obtain ⟨y, hy, -, hiff⟩ := state_of_revoked hsound hb hcall hi
    obtain rfl : x = y := by simpa [hx] using hy
    exact hiff.mp hcancelled r order hop
  -- all intents are Cancelled at once, and a cancelled intent stays so
  · intro hwhole w' hr turnId now
    obtain ⟨hmem', hnot'⟩ := never_held_again hafter hr hhanded hnot
    rw [markStarted_of_not_held (sound_of_reachable (hafter.trans hr)) hmem' hnot']
    intro i hi
    obtain ⟨x, hx, -, hiff⟩ := state_of_revoked hsound hb hcall hi
    have hcancelled := hiff.mpr fun r order hop => hwhole r order hop i hi
    obtain ⟨state, hx', hend⟩ := reaches_persists hafter hr hx
    refine ⟨_, hx', ?_⟩
    have hterminal : x.state.isTerminal := by
      cases hs : x.state <;> simp_all [WorkIntentState.isCancelled, WorkIntentState.isTerminal]
    rw [hend hterminal]
    exact hcancelled

/-- Instance: the session stops while a claim is starting. -/
theorem revoked_claim_never_runs_iff_sample :
    (∀ w', sample.machine.Reaches (sample.fire
        (sample.machine.run .empty (enqueueSample (some "r") ++ [bound none (.next "lead")]))
        (bound none .stop)) w' → ∀ turnId now,
      (sample.markStarted w'.state (sampleBatch ["r"]) turnId now).result = .cancelImmediately) ↔
    RevokesWhole (sample.machine.run .empty
      (enqueueSample (some "r") ++ [bound none (.next "lead")])).state (sampleBatch ["r"]) .stop :=
  revoked_claim_never_runs_iff (c := sample) (Machine.reachable_run rfl (by decide)) (by decide)
    (bound none .stop) trivial

/-- A claim of a run's message and of a recovered one. -/
def mixedBatch : WorkBatch :=
  ⟨"xxxx", "session", "lead", ["xx", "xxx"], ["m", "n"], .background, ["r"], 1⟩

/-- The run that leads to this claim. -/
def mixedCalls : List Call :=
  enqueueSample (some "r") ++
    [bound none (.reconcileMailbox "lead" ["m", "n"] .lead 0), bound none (.next "lead")]

/-- Cancelling the run takes the mixed claim from its slot before its turn starts, and the
late start is taken for one by a stale owner. -/
theorem mixed_claim_is_not_recognised :
    sample.machine.Reachable (sample.machine.run .empty mixedCalls) ∧
    (sample.machine.run .empty mixedCalls).state.activeOf "lead" = some ⟨mixedBatch, none, none⟩ ∧
    Revokes mixedBatch (.cancelRun "r" .stored) ∧
    (sample.markStarted (sample.fire (sample.machine.run .empty mixedCalls)
      (bound none (.cancelRun "r" .stored))).state mixedBatch "turn" 0).result = .staleOwner :=
  ⟨Machine.reachable_run rfl (by decide), by decide, by simp [Revokes, mixedBatch], by decide⟩

end SlotWorkCoordinator

end AionCore.Team
