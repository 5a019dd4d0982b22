import AionCore.Team.RunWiring

/-!
# Closed runs

`apply_work_summary` sets the status from whatever summary comes last, also when the
run is Completed, Cancelled or Failed already. The file says which summaries leave a
closed run as it is: as long as only such summaries arrive, its status is final.
-/

namespace AionCore.Team

/-- The summary leaves a run of this closed status as it is. -/
def StaysClosed (summary : RunWorkSummary) : TeamRunStatus → Prop
  | .completed => summary.failedIntentCount = 0 ∧ summary.runningBatchCount = 0
  | .cancelled =>
    summary.failedIntentCount = 0 ∧ summary.runningBatchCount = 0 ∧ ¬TeamRunManager.noWork summary
  | .failed =>
    summary.failedIntentCount > 0 ∨
      summary.runningBatchCount = 0 ∧ ¬TeamRunManager.noWork summary
  | .accepted | .running | .cancelling => True

namespace TeamRunManager

variable {summary : RunWorkSummary}

theorem running_of_noWork (h : noWork summary) :
    summary.runningBatchCount = 0 := by
  simp only [noWork, decide_eq_true_eq] at h
  exact h.2.2.1

/-- The condition is exact. -/
theorem statusAfter_closed_iff {status : TeamRunStatus} (h : status.isActive = false) :
    statusAfter summary status = status ↔
      StaysClosed summary status := by
  have hrunning : noWork summary → summary.runningBatchCount = 0 := running_of_noWork
  unfold statusAfter
  cases status with
  | accepted | running | cancelling => cases h
  | completed => grind [StaysClosed]
  | cancelled => grind [StaysClosed]
  | failed => grind [StaysClosed]

end TeamRunManager

namespace TeamWork

variable (t : TeamWork)

/-- A summary of the run that the step delivers leaves it closed, if it is. -/
def KeepsClosed (r : String) (w : Wired) (step : WiredStep) : Prop :=
  ∀ summary status, Delivers w step (.applyWorkSummary summary) → summary.teamRunId = r →
    w.runs.statusOf r = some status → StaysClosed summary status

variable {t}

/-- No step but the delivery of a summary changes the status of a closed run, and a run
that the manager has forgotten does not come back. -/
theorem closed_step {w : Wired} {r : String} {status : TeamRunStatus}
    (hactive : status.isActive = false) (hr : t.Created w r)
    (hstatus : ∀ status', w.runs.statusOf r = some status' → status' = status)
    {step : WiredStep} (hkeeps : KeepsClosed r w step) {status' : TeamRunStatus}
    (hstatus' : (t.machine.fire w step).runs.statusOf r = some status') : status' = status := by
  obtain ⟨old, hold, hmove⟩ := hr.status_cases hstatus'
  obtain rfl := hstatus old hold
  rcases hmove with rfl | ⟨summary, hdelivers, hid, rfl⟩ | ⟨hopen, -⟩
  · rfl
  · exact (TeamRunManager.statusAfter_closed_iff hactive).mpr
      (hkeeps summary _ hdelivers hid hold)
  · rw [hactive] at hopen
    cases hopen

/-- From a state in which the run is closed on, its status is final in every run of the
session whose deliveries all leave it closed. The condition is exact. -/
theorem closed_status_is_final {w : Wired} (h : t.machine.Reachable w) {r : String}
    {status : TeamRunStatus} (hstatus : w.runs.statusOf r = some status)
    (hclosed : status.isActive = false) :
    (∀ w' status', (t.machine.restrict (KeepsClosed r)).Reaches w w' →
      w'.runs.statusOf r = some status' → status' = status) ∧
    ∀ step summary, Delivers w step (.applyWorkSummary summary) → summary.teamRunId = r →
      ((t.machine.fire w step).runs.statusOf r = some status ↔ StaysClosed summary status) := by
  constructor
  · intro w' status' hreaches hstatus'
    have hinv : t.Created w' r ∧ ∀ status', w'.runs.statusOf r = some status' →
        status' = status := by
      refine hreaches.preserves (M := t.machine.restrict (KeepsClosed r))
        (P := fun w => t.Created w r ∧ ∀ status', w.runs.statusOf r = some status' →
          status' = status) (fun w step hw hstep => ?_) ⟨created_of_reachable h hstatus, ?_⟩
      · exact ⟨hw.1.fire step, fun _ h' => closed_step hclosed hw.1 hw.2 hstep.2 h'⟩
      · intro status' h'
        exact Option.some.inj (h'.symm.trans hstatus)
    exact hinv.2 status' hstatus'
  · rintro step summary hdelivers rfl
    rw [status_of_delivers hdelivers, hstatus, Option.map_some, Option.some.injEq]
    exact TeamRunManager.statusAfter_closed_iff hclosed

open SlotWorkCoordinator (userRequest userLease userBatch)

/-- A session whose coordinator draws `x`, `xx`, `xxx` and whose runs are `r`, `rr`, `rrr`. -/
def sample : TeamWork := ⟨.sample, ⟨"team", .tallyOf 'r'⟩⟩

/-- The user's message is enqueued and claimed, and the summaries of run `r` arrive. -/
def claimUserMessage : List WiredStep :=
  [.operate (.setRuntimeConstraint "lead" .ready .stored), .operate (.acquireEnqueue userRequest),
    .operate (.commitEnqueue userLease (some "m") 0), .deliver 0 0,
    .operate (.next "lead"), .deliver 0 0]

/-- The turn starts and ends; the summary of its end arrives first. -/
def startAndEnd : List WiredStep :=
  [.operate (.markStarted userBatch "turn" 0), .operate (.completeBatch userBatch), .deliver 1 0]

theorem closed_status_is_final_sample :
    (∀ w' status', (sample.machine.restrict (KeepsClosed "r")).Reaches
        (sample.machine.run .empty (claimUserMessage ++ startAndEnd)) w' →
      w'.runs.statusOf "r" = some status' → status' = .completed) ∧
    ∀ step summary, Delivers (sample.machine.run .empty (claimUserMessage ++ startAndEnd)) step
        (.applyWorkSummary summary) → summary.teamRunId = "r" →
      ((sample.machine.fire (sample.machine.run .empty (claimUserMessage ++ startAndEnd))
        step).runs.statusOf "r" = some .completed ↔ StaysClosed summary .completed) :=
  closed_status_is_final (Machine.reachable_run rfl (by decide)) (by decide) rfl

/-- The summary that the start of the turn left behind arrives after that of its end: the
Completed run is Running again. -/
theorem late_summary_reopens :
    ∃ w w', sample.machine.Reachable w ∧ sample.machine.Reaches w w' ∧
      w.runs.statusOf "r" = some .completed ∧ w'.runs.statusOf "r" = some .running :=
  ⟨sample.machine.run .empty (claimUserMessage ++ startAndEnd), _,
    Machine.reachable_run rfl (by decide),
    @Machine.reaches_run _ _ sample.machine _ [.deliver 0 0] (by decide), by decide, by decide⟩

/-- A run that the manager has forgotten never comes back, whatever calls are still pending. -/
theorem forgotten_run_stays_gone {w w₁ w₂ : Wired} (h : t.machine.Reachable w) {r : String}
    (hknown : w.runs.statusOf r ≠ none) (h₁ : t.machine.Reaches w w₁)
    (hgone : w₁.runs.statusOf r = none) (h₂ : t.machine.Reaches w₁ w₂) :
    w₂.runs.statusOf r = none := by
  obtain ⟨status, hstatus⟩ := Option.ne_none_iff_exists'.mp hknown
  have hcreated : t.Created w₁ r :=
    h₁.preserves (P := fun v => t.Created v r) (fun _ step hv _ => hv.fire step)
      (created_of_reachable h hstatus)
  refine (h₂.preserves (P := fun v => t.Created v r ∧ v.runs.statusOf r = none)
    (fun v step hv _ => ⟨hv.1.fire step, ?_⟩) ⟨hcreated, hgone⟩).2
  by_contra hback
  obtain ⟨b, hb⟩ := Option.ne_none_iff_exists'.mp hback
  obtain ⟨old, hold, -⟩ := hv.1.status_cases hb
  exact Option.some_ne_none old (hold.symm.trans hv.2)

/-- The message that has opened run `r` is given up, the manager is told, and the session stops. -/
theorem forgotten_run_stays_gone_sample :
    let w := sample.machine.run .empty (claimUserMessage.take 2)
    let w₁ := sample.machine.run w [.operate (.abortEnqueue userLease), .deliver 0 0]
    (sample.machine.run w₁ [.operate .stop]).runs.statusOf "r" = none :=
  forgotten_run_stays_gone
    (@Machine.reachable_run _ _ sample.machine _ (claimUserMessage.take 2) rfl (by decide))
    (by decide) (Machine.reaches_run (by decide)) (by decide) (Machine.reaches_run (by decide))

end TeamWork

end AionCore.Team
