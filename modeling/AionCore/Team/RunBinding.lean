import AionCore.Team.RunFinality

/-!
# The run that work is bound to

A lease is bound to the open run under the coordinator's lock, but the manager hears
only later that a run is empty: a call that says so can arrive when the run has work
again. As long as no such call does, the most recent run is kept while it has work.
-/

namespace AionCore.Team

namespace TeamWork

open SlotWorkCoordinator (userRequest userLease)

variable (t : TeamWork)

/-- No run has been created after this one. -/
def MostRecent (w : Wired) (r : String) : Prop :=
  0 < w.runs.created ∧ r = t.manager.generateId.draw (w.runs.created - 1)

/-- The manager still holds the most recent run, neither Completed nor Cancelled, if
that run has work. -/
def KeepsRun (w : Wired) : Prop :=
  ∀ r, t.MostRecent w r → w.work.state.HasWork r →
    ∃ status, w.runs.statusOf r = some status ∧ status ≠ .completed ∧ status ≠ .cancelled

/-- The step tells the manager that the run is empty: an `abort_binding`, or a summary
without work and without failed intents. -/
def ReportsEmpty (w : Wired) (step : WiredStep) (r : String) : Prop :=
  (∃ binding, Delivers w step (.abortBinding binding) ∧ binding.teamRunId = some r) ∨
    ∃ summary, Delivers w step (.applyWorkSummary summary) ∧ summary.teamRunId = r ∧
      summary.failedIntentCount = 0 ∧ TeamRunManager.noWork summary

/-- The step reports the most recent run as empty only while it has no work. -/
def ReportsTruly (w : Wired) (step : WiredStep) : Prop :=
  ∀ r, t.MostRecent w r → w.work.state.HasWork r → ¬ReportsEmpty w step r

variable {t} {r : String} {w : Wired}

/-- Work for a run after a step was there before, or the step has bound it to an open run
or to the run that it has opened. -/
theorem hasWork_cases (h : t.machine.Reachable w) {step : WiredStep}
    (hstep : t.machine.admits w step) (hwork : (t.machine.fire w step).work.state.HasWork r) :
    w.work.state.HasWork r ∨ (∃ status, w.runs.statusOf r = some status ∧ status.isActive) ∨
      r = t.manager.generateId.draw w.runs.created := by
  cases step with
  | operate op =>
    have hsound := SlotWorkCoordinator.sound_of_reachable (work_reachable h)
    rcases SlotWorkCoordinator.hasWork_of_fire hsound (t.callOf w op) hstep hwork with
      hold | ⟨request, lease, -, -, -, hrun⟩
    · exact .inl hold
    · rcases t.manager.bindEnqueue_cases w.runs request with ⟨-, -, hopen⟩ | ⟨-, -, hnew⟩
      · exact .inr (.inl (hopen r hrun))
      · exact .inr (.inr (Option.some.inj (hrun.symm.trans hnew)))
  | deliver k now =>
    change (t.deliver w k now).work.state.HasWork r at hwork
    rw [deliver_work] at hwork
    exact .inl hwork
  | beginCancel q now reason =>
    change (t.beginCancel w q now reason).work.state.HasWork r at hwork
    rw [(beginCancel_frame w q now reason).1] at hwork
    exact .inl hwork

theorem MostRecent.ne_draw (h : t.MostRecent w r) :
    r ≠ t.manager.generateId.draw w.runs.created := by
  intro he
  have := t.manager.generateId.fresh (h.2.symm.trans he)
  have := h.1
  omega

theorem MostRecent.of_created {w' : Wired} (h : t.MostRecent w' r)
    (hc : w'.runs.created = w.runs.created) : t.MostRecent w r := by
  rw [MostRecent, hc] at h
  exact h

/-- A report of the run that is not of emptiness leaves it neither Completed nor Cancelled. -/
theorem statusAfter_kept {summary : RunWorkSummary} {status : TeamRunStatus}
    (h : status ≠ .completed ∧ status ≠ .cancelled)
    (hreport : ¬(summary.failedIntentCount = 0 ∧ TeamRunManager.noWork summary)) :
    TeamRunManager.statusAfter summary status ≠ .completed ∧
      TeamRunManager.statusAfter summary status ≠ .cancelled := by
  rw [TeamRunManager.statusAfter]
  split
  · exact ⟨nofun, nofun⟩
  · rename_i hfailed
    rw [if_neg fun hno => hreport ⟨by omega, hno⟩]
    split
    · exact ⟨nofun, nofun⟩
    · exact h

/-- A step that reports truly keeps the most recent run. -/
theorem KeepsRun.step (h : t.machine.Reachable w) (hw : t.KeepsRun w) {step : WiredStep}
    (hstep : t.machine.admits w step) (htruly : t.ReportsTruly w step) :
    t.KeepsRun (t.machine.fire w step) := by
  intro r hrecent hwork
  have hcases := hasWork_cases h hstep hwork
  -- when no run is opened, the run was the most recent one before
  have hold : (t.machine.fire w step).runs.created = w.runs.created →
      t.MostRecent w r ∧ (w.work.state.HasWork r ∨
        ∃ status, w.runs.statusOf r = some status ∧ status.isActive) := by
    intro hc
    have hr := hrecent.of_created hc
    exact ⟨hr, hcases.imp_right fun h => h.resolve_right hr.ne_draw⟩
  have hstatus : t.MostRecent w r → (w.work.state.HasWork r ∨
      ∃ status, w.runs.statusOf r = some status ∧ status.isActive) →
      ∃ status, w.runs.statusOf r = some status ∧ status ≠ .completed ∧ status ≠ .cancelled := by
    rintro hr (hwork | ⟨status, hs, hactive⟩)
    · exact hw r hr hwork
    · refine ⟨status, hs, ?_, ?_⟩ <;> rintro rfl <;> cases hactive
  -- a delivery leaves the coordinator alone
  have hsame : ∀ call, Delivers w step call → w.work.state.HasWork r := by
    intro call hd
    rwa [work_of_delivers hd] at hwork
  cases t.runStep w step with
  | opens op operate binds created after =>
    have hr : r = t.manager.generateId.draw w.runs.created := by
      have := hrecent.2
      rwa [created] at this
    exact ⟨.accepted, by rw [after, if_pos hr], nofun, nofun⟩
  | keeps created after =>
    rw [after]
    exact hstatus (hold created).1 (hold created).2
  | aborts binding delivers created after =>
    have hr := (hold created).1
    have hne : binding.teamRunId ≠ some r := fun hb =>
      htruly r hr (hsame _ delivers) (.inl ⟨binding, delivers, hb⟩)
    rw [after, if_neg hne]
    exact hw r hr (hsame _ delivers)
  | summarizes summary delivers created after =>
    have hr := (hold created).1
    obtain ⟨status, hs, hopen⟩ := hw r hr (hsame _ delivers)
    rw [after, hs]
    split
    · rename_i hid
      refine ⟨_, rfl, statusAfter_kept hopen fun hempty => ?_⟩
      exact htruly r hr (hsame _ delivers) (.inr ⟨summary, delivers, hid.symm, hempty⟩)
    · exact ⟨status, rfl, hopen⟩
  | cancels q now reason call active created after =>
    rw [after]
    split
    · exact ⟨.cancelling, rfl, nofun, nofun⟩
    · exact hstatus (hold created).1 (hold created).2

/-- A step that reports a run with work as empty does not keep it. -/
theorem KeepsRun.not_step {step : WiredStep} (hrecent : t.MostRecent w r)
    (hwork : w.work.state.HasWork r) (hempty : ReportsEmpty w step r) :
    ¬t.KeepsRun (t.machine.fire w step) := by
  intro hkeeps
  have hkept : ∀ call, Delivers w step call →
      ∃ status, (t.machine.fire w step).runs.statusOf r = some status ∧
        status ≠ .completed ∧ status ≠ .cancelled := by
    intro call hd
    refine hkeeps r ?_ (by rwa [work_of_delivers hd])
    obtain ⟨now, hruns⟩ := t.runs_of_delivers hd
    rw [MostRecent, hruns, t.manager.created_receive]
    exact hrecent
  rcases hempty with ⟨binding, hd, hb⟩ | ⟨summary, hd, rfl, hfailed, hno⟩
  · obtain ⟨status, hs, -⟩ := hkept _ hd
    obtain ⟨now, hruns⟩ := t.runs_of_delivers hd
    rw [hruns, TeamRunManager.receive, TeamRunManager.statusOf_abortBinding, if_pos hb] at hs
    cases hs
  · obtain ⟨status, hs, hcompleted, hcancelled⟩ := hkept _ hd
    rw [status_of_delivers hd] at hs
    obtain ⟨old, -, rfl⟩ := Option.map_eq_some_iff.mp hs
    rw [TeamRunManager.statusAfter, if_neg (by omega), if_pos hno] at hcompleted hcancelled
    split at hcancelled
    · exact hcancelled rfl
    · rename_i hne
      exact hcompleted (if_neg hne)

/-- In every session whose steps report truly, the manager holds the most recent run,
neither Completed nor Cancelled, while it has work. The condition is exact. -/
theorem work_keeps_its_run {w : Wired} (h : (t.machine.restrict t.ReportsTruly).Reachable w) :
    t.KeepsRun w ∧ ∀ step, t.machine.admits w step →
      (t.KeepsRun (t.machine.fire w step) ↔ t.ReportsTruly w step) := by
  have hkeeps : t.KeepsRun w := by
    refine h.invariant_of_reachable ?_
      fun w step hw hkeeps hstep => hkeeps.step hw.of_restrict hstep.1 hstep.2
    rintro _ rfl r hr
    exact absurd hr.1 (lt_irrefl 0)
  refine ⟨hkeeps, fun step hstep => ⟨fun hafter r hr hwork hempty => ?_, ?_⟩⟩
  · exact KeepsRun.not_step hr hwork hempty hafter
  · exact hkeeps.step h.of_restrict hstep

theorem reportsTruly_operate (w : Wired) (op : Op) : t.ReportsTruly w (.operate op) := by
  rintro r - - (⟨binding, ⟨k, now, rest, h, -⟩, -⟩ | ⟨summary, ⟨k, now, rest, h, -⟩, -⟩) <;>
    cases h

/-- The lead's slot is ready and the user's message has its lease. -/
def acceptUserMessage : List WiredStep :=
  [.operate (.setRuntimeConstraint "lead" .ready .stored), .operate (.acquireEnqueue userRequest)]

theorem work_keeps_its_run_sample :
    sample.KeepsRun (sample.machine.run .empty acceptUserMessage) ∧
      ∀ step, sample.machine.admits (sample.machine.run .empty acceptUserMessage) step →
        (sample.KeepsRun (sample.machine.fire (sample.machine.run .empty acceptUserMessage) step) ↔
          sample.ReportsTruly (sample.machine.run .empty acceptUserMessage) step) :=
  work_keeps_its_run (Machine.reachable_run (M := sample.machine.restrict sample.ReportsTruly) rfl
    ⟨⟨by simp [machine, Op.batch?], reportsTruly_operate _ _⟩,
      ⟨by simp [machine, Op.batch?], reportsTruly_operate _ _⟩, trivial⟩)

/-- A first message is given up, and a second one is accepted before the manager hears that
the run of the first is empty. -/
def acceptAfterAbort : List WiredStep :=
  [.operate (.setRuntimeConstraint "lead" .ready .stored), .operate (.acquireEnqueue userRequest),
    .operate (.abortEnqueue userLease), .operate (.acquireEnqueue userRequest), .deliver 0 0]

/-- The second message has a lease of run `r`, which the manager has dropped. -/
theorem accepted_message_loses_its_run :
    ∃ w, sample.machine.Reachable w ∧ sample.MostRecent w "r" ∧ w.work.state.HasWork "r" ∧
      w.runs.record = none :=
  ⟨sample.machine.run .empty acceptAfterAbort, Machine.reachable_run rfl (by decide),
    ⟨by decide, by decide⟩,
    .inl ⟨"xx", ⟨{ userLease with leaseId := "xx" }, ⟨some "r", false, true⟩⟩, by decide, rfl⟩,
    by decide⟩

end TeamWork

end AionCore.Team
