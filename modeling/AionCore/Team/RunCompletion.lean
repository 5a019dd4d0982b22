import AionCore.Team.RunBinding

/-!
# Runs without work

Under a caller that runs one operation at a time, a run that loses its last work is
closed by the summaries that the operation publishes. `reconcile_mailbox` publishes
none: it can complete the last intent of the open run and leave the run open.
-/

namespace AionCore.Team

namespace SlotWorkCoordinator

variable {c : SlotWorkCoordinator} {w : Tracked}

/-- The call finds every open intent of the run queued in its slot with a message that is
not in the unread list, and the run has no lease. -/
def ClearsLast (s : CoordinatorState) (slotId : String) (unread : List String) (r : String) :
    Prop :=
  ¬s.HasLease r ∧ ∀ i, s.OpenIntent r i → i ∈ s.queuesOf slotId ∧ isStale s unread i

/-- A call of `reconcile_mailbox` leaves work to a run, unless it clears the last of it. -/
theorem Sound.reconcile_hasWork (h : c.Sound w) (call : Call) {slotId : String}
    {unread : List String} {role : TeamRunTargetRole} {now : TimestampMs}
    (hop : call.op = .reconcileMailbox slotId unread role now) {r : String} :
    (c.fire w call).state.HasWork r ↔ ¬ClearsLast w.state slotId unread r := by
  obtain ⟨op, bindEnqueue⟩ := call
  obtain rfl : op = .reconcileMailbox slotId unread role now := hop
  have hleases : (c.fire w ⟨.reconcileMailbox slotId unread role now, bindEnqueue⟩).state.HasLease
      r ↔ w.state.HasLease r := by
    simp only [CoordinatorState.HasLease, fire, c.exec_leases_eq w.state bindEnqueue
      (.reconcileMailbox slotId unread role now) rfl]
  have hlookup : ∀ i x, w.state.intents.lookup i = some x →
      (c.fire w ⟨.reconcileMailbox slotId unread role now, bindEnqueue⟩).state.intents.lookup i =
        some (reconciled w.state slotId unread i x) :=
    fun i x hx => lookup_reconcileMailbox h.logged unread hx
  constructor
  · rintro (hlease | ⟨i, hi⟩) ⟨hnone, hclears⟩
    · exact hnone (hleases.mp hlease)
    · cases hx : w.state.intents.lookup i with
      | none => exact hnone (created_hasLease hx hi)
      | some x =>
        obtain ⟨y, hy, hr, ht⟩ := hi
        obtain rfl : reconciled w.state slotId unread i x = y := by
          rw [hlookup i x hx] at hy
          exact Option.some.inj hy
        by_cases hstale : i ∈ w.state.queuesOf slotId ∧ isStale w.state unread i
        · rw [reconciled, if_pos hstale] at ht
          cases ht
        · rw [reconciled, if_neg hstale] at hr ht
          exact hstale (hclears i ⟨x, hx, hr, ht⟩)
  · intro hnot
    by_cases hlease : w.state.HasLease r
    · exact .inl (hleases.mpr hlease)
    · obtain ⟨i, hi⟩ := not_forall.mp fun hclears => hnot ⟨hlease, hclears⟩
      obtain ⟨⟨x, hx, hr, ht⟩, hstale⟩ := Classical.not_imp.mp hi
      refine .inr ⟨i, x, ?_, hr, ht⟩
      rw [hlookup i x hx, reconciled, if_neg hstale]

/-- A lease that is bound to a run is work for it. -/
theorem Binds.hasWork {call : Call} {r : String} (h : c.Binds w call r) :
    (c.fire w call).state.HasWork r := by
  obtain ⟨op, bindEnqueue⟩ := call
  obtain ⟨request, lease, rfl, hbinding, hok, hrun⟩ := h
  rcases c.acquireEnqueue_cases w.state bindEnqueue request with ⟨e, he, -⟩ | ⟨-, hleases⟩
  · rw [he] at hok
    cases hok
  · refine .inl ⟨c.generateId.draw w.state.generated,
      c.grantedLease w.state bindEnqueue request, ?_, ?_⟩
    · simp only [fire, exec, Outcome.map]
      rw [hleases]
      exact AList.lookup_insert _
    · rcases hbinding with hb | hb
      all_goals
        simp only [SlotWorkCoordinator.grantedLease, requestBinding, hb]
        exact hrun

end SlotWorkCoordinator

namespace TeamRunState

def Closed (st : TeamRunState) (r : String) : Prop :=
  ∀ status, st.statusOf r = some status → status.isActive = false

end TeamRunState

namespace TeamRunManager

variable {m : TeamRunManager}

theorem statusAfter_noWork {summary : RunWorkSummary} (h : noWork summary)
    (status : TeamRunStatus) : (statusAfter summary status).isActive = false := by
  rw [statusAfter]
  rw [if_pos h]
  repeat' split
  all_goals rfl

variable {now : TimestampMs} {calls : List PortCall} {st : TeamRunState}

/-- Calls whose summaries show no work of the run leave it closed if it was closed or if
there is such a summary. -/
theorem closed_foldl {r : String}
    (hno : ∀ summary, .applyWorkSummary summary ∈ calls → summary.teamRunId = r → noWork summary)
    (h : st.Closed r ∨ ∃ summary, .applyWorkSummary summary ∈ calls ∧ summary.teamRunId = r) :
    (calls.foldl (m.receive now) st).Closed r := by
  induction calls generalizing st with
  | nil =>
    rcases h with h | ⟨summary, h, -⟩
    · exact h
    · cases h
  | cons call calls ih =>
    refine ih (fun summary hs => hno summary (List.mem_cons_of_mem call hs)) ?_
    cases call with
    | abortBinding binding =>
      rcases h with h | ⟨summary, hs, hid⟩
      · refine .inl fun status hs => ?_
        rw [receive, statusOf_abortBinding] at hs
        split at hs
        · cases hs
        · exact h status hs
      · rcases List.mem_cons.mp hs with he | hs
        · cases he
        · exact .inr ⟨summary, hs, hid⟩
    | applyWorkSummary summary =>
      by_cases hid : r = summary.teamRunId
      · refine .inl fun status hs => ?_
        rw [receive, m.statusOf_applyWorkSummary, if_pos hid] at hs
        obtain ⟨old, -, rfl⟩ := Option.map_eq_some_iff.mp hs
        exact statusAfter_noWork (hno summary List.mem_cons_self hid.symm) old
      · rcases h with h | ⟨summary', hs, hid'⟩
        · refine .inl fun status hs => ?_
          rw [receive, m.statusOf_applyWorkSummary, if_neg hid] at hs
          exact h status hs
        · rcases List.mem_cons.mp hs with he | hs
          · exact absurd (hid'.symm.trans (by rw [PortCall.applyWorkSummary.inj he])) hid
          · exact .inr ⟨summary', hs, hid'⟩

/-- Summaries do not make the manager forget a run. -/
theorem recorded_foldl {r : String} (hno : ∀ binding, .abortBinding binding ∉ calls)
    (h : (st.statusOf r).isSome) : ((calls.foldl (m.receive now) st).statusOf r).isSome := by
  induction calls generalizing st with
  | nil => exact h
  | cons call calls ih =>
    refine ih (fun binding hb => hno binding (List.mem_cons_of_mem call hb)) ?_
    cases call with
    | abortBinding binding => exact absurd List.mem_cons_self (hno binding)
    | applyWorkSummary summary =>
      rw [receive, m.statusOf_applyWorkSummary]
      split
      · rwa [Option.isSome_map]
      · exact h

end TeamRunManager

namespace TeamWork

open SlotWorkCoordinator (userRequest userLease)

variable (t : TeamWork)

/-- An open run has work. -/
def OpenHasWork (w : Wired) : Prop :=
  ∀ r status, w.runs.statusOf r = some status → status.isActive → w.work.state.HasWork r

/-- The step is not a call of `reconcile_mailbox` that clears the last work of the open run. -/
def KeepsLastWork (w : Wired) (step : SessionStep) : Prop :=
  ∀ slotId unread role now clock,
    step = .operation (.reconcileMailbox slotId unread role now) clock →
    ∀ r status, w.runs.statusOf r = some status → status.isActive →
      ¬SlotWorkCoordinator.ClearsLast w.work.state slotId unread r

variable {t} {now : TimestampMs}

/-- Without work the run is closed when the operation has ended, if it was closed before
or if its summary has been published. -/
theorem closed_of_operation {w : Wired} {op : Op} {r : String}
    (hno : ¬(t.operation w op now).work.state.HasWork r)
    (h : w.runs.Closed r ∨ (t.outcomeOf w op).Publishes r) :
    (t.operation w op now).runs.Closed r := by
  refine TeamRunManager.closed_foldl (fun summary hs hid => ?_) ?_
  · have hsummary := SlotWorkCoordinator.exec_calls (c := t.coordinator)
      (t.callOf w op).bindEnqueue op hs
    rw [← hsummary, hid]
    exact (CoordinatorState.noWork_iff _ r).mpr hno
  · refine h.imp (fun hclosed status hs => ?_) fun hpublished => ⟨_, hpublished, rfl⟩
    rcases t.boundRuns_cases w op with ⟨-, hstatus⟩ | ⟨hbinds, -, hstatus⟩
    · exact hclosed status (hstatus r ▸ hs)
    · rw [hstatus] at hs
      split at hs
      · rename_i hr
        exact absurd (hr ▸ hbinds.hasWork) hno
      · cases hs

/-- A step that clears no last work keeps work for the open run. -/
theorem OpenHasWork.step {w : Wired} (h : t.sessionMachine.Reachable w) (hw : OpenHasWork w)
    {step : SessionStep} (hstep : t.sessionMachine.admits w step) (hkeeps : KeepsLastWork w step) :
    OpenHasWork (t.sessionMachine.fire w step) := by
  intro r status hs hactive
  have hwork := session_work_reachable h
  cases step with
  | operation op now =>
    -- without work the operation has closed the run: it was closed before, or it had work
    -- then and the operation has published its summary
    by_contra hno
    refine absurd hactive (Bool.eq_false_iff.mp (closed_of_operation hno ?_ status hs))
    by_cases hopen : ∃ status, w.runs.statusOf r = some status ∧ status.isActive
    · obtain ⟨old, hold, hold'⟩ := hopen
      right
      refine SlotWorkCoordinator.publishes_of_ends hwork (t.callOf w op) hstep ?_
        (hw r old hold hold') hno
      rintro slotId unread role clock rfl
      exact hno (((SlotWorkCoordinator.sound_of_reachable hwork).reconcile_hasWork
        (t.callOf w _) rfl).mpr (hkeeps slotId unread role clock now rfl r old hold hold'))
    · left
      intro old hold
      by_contra hne
      exact hopen ⟨old, hold, by simpa using hne⟩
  | beginCancel q now reason =>
    change (t.beginCancel w q now reason).runs.statusOf r = some status at hs
    change (t.beginCancel w q now reason).work.state.HasWork r
    rw [(beginCancel_frame w q now reason).1]
    unfold beginCancel at hs
    split at hs
    · rename_i runs event hok
      obtain ⟨⟨old, hold, hold'⟩, -, hafter⟩ := t.manager.statusOf_beginCancel hok
      rw [hafter] at hs
      split at hs
      · rename_i hq
        exact hw r old (hq ▸ hold) hold'
      · exact hw r status hs hactive
    · exact hw r status hs hactive

/-- A call of `reconcile_mailbox` publishes nothing. -/
theorem runs_of_reconcile (w : Wired) (slotId : String) (unread : List String)
    (role : TeamRunTargetRole) (now clock : TimestampMs) :
    (t.operation w (.reconcileMailbox slotId unread role now) clock).runs = w.runs := rfl

/-- A call that clears the last work of the open run leaves it open without work. -/
theorem OpenHasWork.not_step {w : Wired} (h : t.sessionMachine.Reachable w) {step : SessionStep}
    (hclears : ¬KeepsLastWork w step) : ¬OpenHasWork (t.sessionMachine.fire w step) := by
  intro hafter
  refine hclears ?_
  rintro slotId unread role now clock rfl r status hs hactive
  have hsound := SlotWorkCoordinator.sound_of_reachable (session_work_reachable h)
  refine (hsound.reconcile_hasWork
    (t.callOf w (.reconcileMailbox slotId unread role now)) rfl).mp ?_
  exact hafter r status ((congrArg (·.statusOf r)
    (runs_of_reconcile w slotId unread role now clock)).trans hs) hactive

/-- The operation that ends the last open intent of a run closes the run. -/
theorem OpenHasWork.closes {w : Wired} {op : Op} (hafter : OpenHasWork (t.operation w op now))
    {r i : String} (hi : w.work.state.OpenIntent r i) (hrecorded : w.runs.statusOf r ≠ none)
    (hno : ¬(t.operation w op now).work.state.HasWork r) :
    ∃ status, (t.operation w op now).runs.statusOf r = some status ∧
      status.isActive = false := by
  -- the operation has changed the intents, so it neither bound nor dropped a run
  have hintents : (t.operation w op now).work.state.intents ≠ w.work.state.intents :=
    fun he => hno (.inr ⟨i, hi.congr (by rw [he])⟩)
  have hbound : ((t.boundRuns w op).statusOf r).isSome := by
    rcases t.boundRuns_cases w op with ⟨-, hstatus⟩ | ⟨⟨request, -, hop, -⟩, -⟩
    · rw [hstatus]
      exact Option.isSome_iff_ne_none.mpr hrecorded
    · obtain rfl : op = .acquireEnqueue request := hop
      exact absurd (t.coordinator.acquireEnqueue_intents w.work.state _ request) hintents
  have hrecord : ((t.operation w op now).runs.statusOf r).isSome := by
    refine TeamRunManager.recorded_foldl (fun binding hb => ?_) hbound
    obtain ⟨lease, rfl⟩ := SlotWorkCoordinator.exec_aborts (c := t.coordinator) _ op hb
    exact hintents (t.coordinator.abortEnqueue_intents w.work.state lease)
  obtain ⟨status, hs⟩ := Option.isSome_iff_exists.mp hrecord
  exact ⟨status, hs, Bool.eq_false_iff.mpr fun hactive => hno (hafter r status hs hactive)⟩

/-- In every session that runs one operation at a time and whose calls of
`reconcile_mailbox` do not clear the last work of the open run, an open run has work, and
an operation that ends the last intent of the recorded run closes it. The condition is
exact. -/
theorem open_runs_have_work {w : Wired}
    (h : (t.sessionMachine.restrict KeepsLastWork).Reachable w) :
    OpenHasWork w ∧
    (∀ step, t.sessionMachine.admits w step →
      (OpenHasWork (t.sessionMachine.fire w step) ↔ KeepsLastWork w step)) ∧
    ∀ op now r i, t.sessionMachine.admits w (.operation op now) →
      KeepsLastWork w (.operation op now) → w.work.state.OpenIntent r i →
      w.runs.statusOf r ≠ none → ¬(t.operation w op now).work.state.HasWork r →
      ∃ status, (t.operation w op now).runs.statusOf r = some status ∧
        status.isActive = false := by
  have hreach : t.sessionMachine.Reachable w := h.of_restrict
  have hopen : OpenHasWork w := by
    refine h.invariant_of_reachable ?_
      fun w step hw hopen hstep => hopen.step hw.of_restrict hstep.1 hstep.2
    rintro _ rfl r status hs -
    simp [Wired.empty, TeamRunState.empty, TeamRunState.statusOf, TeamRunState.recordOf] at hs
  refine ⟨hopen, fun step hstep => ⟨fun hafter => ?_, hopen.step hreach hstep⟩,
    fun op now r i hstep hkeeps hi hrecorded hno => ?_⟩
  · by_contra hclears
    exact OpenHasWork.not_step hreach hclears hafter
  · exact OpenHasWork.closes (hopen.step hreach hstep hkeeps) hi hrecorded hno

/-- The lead's slot is ready and the user's message is enqueued for run `r`. -/
def enqueueUserMessage : List SessionStep :=
  [.operation (.setRuntimeConstraint "lead" .ready .stored) 0,
    .operation (.acquireEnqueue userRequest) 0,
    .operation (.commitEnqueue userLease (some "m") 0) 0]

theorem open_runs_have_work_sample :
    OpenHasWork (sample.sessionMachine.run .empty enqueueUserMessage) ∧
    (∀ step, sample.sessionMachine.admits (sample.sessionMachine.run .empty enqueueUserMessage)
        step → (OpenHasWork (sample.sessionMachine.fire
          (sample.sessionMachine.run .empty enqueueUserMessage) step) ↔
        KeepsLastWork (sample.sessionMachine.run .empty enqueueUserMessage) step)) ∧
    ∀ op now r i, sample.sessionMachine.admits
        (sample.sessionMachine.run .empty enqueueUserMessage) (.operation op now) →
      KeepsLastWork (sample.sessionMachine.run .empty enqueueUserMessage) (.operation op now) →
      (sample.sessionMachine.run .empty enqueueUserMessage).work.state.OpenIntent r i →
      (sample.sessionMachine.run .empty enqueueUserMessage).runs.statusOf r ≠ none →
      ¬(sample.operation (sample.sessionMachine.run .empty enqueueUserMessage) op
        now).work.state.HasWork r →
      ∃ status, (sample.operation (sample.sessionMachine.run .empty enqueueUserMessage) op
        now).runs.statusOf r = some status ∧ status.isActive = false :=
  open_runs_have_work (Machine.reachable_run (M := sample.sessionMachine.restrict KeepsLastWork) rfl
    ⟨⟨by simp [sessionMachine, Op.batch?], nofun⟩, ⟨by simp [sessionMachine, Op.batch?], nofun⟩,
      ⟨by simp [sessionMachine, Op.batch?], nofun⟩, trivial⟩)

/-- The mailbox of the lead shows no unread message: the queued intent of the user's
message is completed, no summary is published, and run `r` stays Accepted without work. -/
theorem reconcile_leaves_run_open :
    ∃ w, sample.sessionMachine.Reachable w ∧ w.runs.statusOf "r" = some .accepted ∧
      ¬w.work.state.HasWork "r" :=
  ⟨sample.sessionMachine.run .empty
      (enqueueUserMessage ++ [.operation (.reconcileMailbox "lead" [] .lead 0) 0]),
    Machine.reachable_run rfl (by decide), by decide,
    (CoordinatorState.noWork_iff _ _).mp (by decide)⟩

end TeamWork

end AionCore.Team
