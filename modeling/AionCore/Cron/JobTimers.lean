import AionCore.Cron.JobEdits

/-!
# Cron: the timer of a recurring job

An enabled job with a recurring schedule that nobody edits. Its timer makes callbacks, each one
starts a tick, and the ticks run side by side. A retry puts a timer in the place of the recurring
one that makes one callback only.
-/

namespace AionCore.Cron

open AionCore.Team (TimestampMs)

/-- The scheduler holds a timer that has not made its last callback. -/
def JobState.Armed (s : JobState) : Prop := ∃ timer ∈ s.timer, timer.live = true

instance (s : JobState) : Decidable s.Armed :=
  inferInstanceAs (Decidable (∃ timer ∈ s.timer, timer.live = true))

/-- The tick goes on, or it ends with a timer: one that it arms in this step, or one that is there
where the step arms none. -/
def JobState.EndsArmed (s : JobState) (reply : CronReply) : TickCall → Prop
  | .load _ => reply.failed → s.Armed
  | .past _ _ stage =>
    match stage with
    | .resolve | .claim => reply.failed → s.Armed
    | .finish _ | .defer _ => reply.failed || !reply.affected → s.Armed
    | .countRetry _ => s.Armed
    | .advance next => next.isSome
    | .duplicate | .execute | .count _ | .record _ _ | .skip | .reschedule | .disable => True

instance (s : JobState) (reply : CronReply) : ∀ call, Decidable (s.EndsArmed reply call)
  | .load _ => inferInstanceAs (Decidable (reply.failed → s.Armed))
  | .past _ _ stage =>
    match stage with
    | .resolve | .claim => inferInstanceAs (Decidable (reply.failed → s.Armed))
    | .finish _ | .defer _ =>
      inferInstanceAs (Decidable (reply.failed || !reply.affected → s.Armed))
    | .countRetry _ => inferInstanceAs (Decidable s.Armed)
    | .advance next => inferInstanceAs (Decidable (next.isSome = true))
    | .duplicate | .execute | .count _ | .record _ _ | .skip | .reschedule | .disable =>
      .isTrue trivial

def TickCall.Recurs : TickCall → Prop
  | .load _ => True
  | .past _ job stage => job.enabled = true ∧ job.schedule.isAt = false ∧ stage ≠ .disable

namespace CronWorld

variable (crates : CronCrates)

/-- The ticks of an enabled recurring job that has a timer. -/
def timers : Machine CronWorld CronStep where
  start w := w.state.row.enabled = true ∧ w.state.row.schedule.isAt = false ∧ w.state.Armed ∧
    w.ticks = [] ∧ w.updates = []
  admits _
    | .call _ | .advance _ _ => True
    | .update _ | .advanceUpdate _ _ _ => False
  fire := fire crates

instance (w : CronWorld) : ∀ step, Decidable ((timers crates).admits w step)
  | .call _ | .advance _ _ => .isTrue trivial
  | .update _ | .advanceUpdate _ _ _ => .isFalse id

/-- Without a tick in progress there is a timer. -/
def KeepsTimer (w : CronWorld) : Prop := w.ticks = [] → w.state.Armed

/-- The last tick in progress does not end without a timer. -/
def Rearms (w : CronWorld) : CronStep → Prop
  | .advance k reply => ∀ call ∈ w.ticks[k]?, Pool.others w.ticks k = [] →
    w.state.EndsArmed reply call
  | .call _ | .update _ | .advanceUpdate _ _ _ => True

instance (w : CronWorld) : ∀ step, Decidable (w.Rearms step) := by
  intro step
  cases step <;> dsimp only [Rearms] <;> infer_instance

variable {crates : CronCrates} {w : CronWorld} {step : CronStep}

/-- The job is enabled and recurring, and so is what its ticks have read. -/
structure Recurs (w : CronWorld) : Prop where
  enabled : w.state.row.enabled = true
  schedule : w.state.row.schedule.isAt = false
  ticks : ∀ call ∈ w.ticks, call.Recurs

theorem armed_timer {s : JobState} {timer : Timer} (htimer : s.timer = some timer)
    (hlive : timer.live = true) : s.Armed :=
  ⟨timer, htimer, hlive⟩

theorem armed_congr {s s' : JobState} (h : s'.timer = s.timer) : s'.Armed ↔ s.Armed := by
  rw [JobState.Armed, h, JobState.Armed]

/-- A tick that ends leaves a timer exactly if it ends armed. -/
theorem tick_armed_iff (crates : CronCrates) (s : JobState) (reply : CronReply) {call : TickCall}
    (hcall : call.Recurs) :
    ((s.tick crates reply call).2 = none → (s.tick crates reply call).1.Armed) ↔
      s.EndsArmed reply call := by
  cases call with
  | load scheduledAt =>
    simp only [JobState.tick, JobState.EndsArmed]
    cases reply.failed <;> simp
  | past scheduledAt job stage =>
    obtain ⟨henabled, hat, hstage⟩ := hcall
    cases stage with
    | resolve =>
      simp only [JobState.tick, JobState.pass, JobState.EndsArmed, henabled]
      cases reply.failed <;> simp
    | claim =>
      simp only [JobState.tick, JobState.pass, JobState.EndsArmed]
      cases reply.failed
      · cases reply.claim <;> simp
      · simp
    | execute =>
      simp only [JobState.tick, JobState.pass, JobState.EndsArmed]
      cases reply.result <;> simp
    | finish result =>
      simp only [JobState.tick, JobState.pass, JobState.EndsArmed]
      split
      · rename_i hends
        simp [hends]
      · rename_i hends
        cases result <;> simp [hends]
    | count result =>
      simp only [JobState.tick, JobState.pass, JobState.EndsArmed]
      cases reply.failed <;> simp
    | record result runCount | skip => simp [JobState.tick, JobState.pass, JobState.EndsArmed]
    | defer attempt =>
      simp only [JobState.tick, JobState.pass, JobState.EndsArmed]
      split
      · rename_i hends
        simp [hends]
      · rename_i hends
        simp [hends]
    | countRetry attempt =>
      have hsame : (s.updateRow reply.failed { retryCount := some attempt }).Armed ↔ s.Armed :=
        armed_congr (JobState.untouched_updateRow rfl rfl rfl).timer
      simp only [JobState.tick, JobState.pass, JobState.EndsArmed, true_implies, hsame]
    | duplicate =>
      simp only [JobState.tick, JobState.pass, JobState.EndsArmed, iff_true]
      split
      · exact fun _ => armed_timer rfl rfl
      · simp
    | reschedule =>
      simp only [JobState.tick, JobState.pass, JobState.EndsArmed, iff_true, hat]
      split
      · exact fun _ => armed_timer rfl rfl
      · simp
    | disable => exact absurd rfl hstage
    | advance next =>
      simp only [JobState.tick, JobState.pass, JobState.EndsArmed, true_implies, JobState.Armed,
        CronJob.timer, henabled, if_true]
      cases next with
      | none => simp
      | some next => simp [Timer.ofSchedule_live]

theorem Recurs.fire (h : w.Recurs) (hstep : (timers crates).admits w step) :
    (w.fire crates step).Recurs := by
  cases step with
  | update req => exact hstep.elim
  | advanceUpdate k accepted now => exact hstep.elim
  | call now =>
    simp only [CronWorld.fire]
    split
    · exact h
    · split
      · refine ⟨h.enabled, h.schedule, fun call hcall => ?_⟩
        rcases List.mem_append.mp hcall with hcall | hcall
        · exact h.ticks call hcall
        · rw [List.mem_singleton.mp hcall]
          trivial
      · exact h
  | advance k reply =>
    simp only [CronWorld.fire]
    cases hk : w.ticks[k]? with
    | none => exact h
    | some call =>
      cases call with
      | load scheduledAt =>
        refine ⟨h.enabled, h.schedule, Pool.forall_proceed h.ticks fun next hnext => ?_⟩
        have hnext := Option.mem_toList.mp hnext
        simp only [JobState.tick] at hnext
        split at hnext
        · cases hnext
        · obtain rfl := Option.some.inj hnext
          exact ⟨h.enabled, h.schedule, TickStage.noConfusion⟩
      | past scheduledAt job stage =>
        obtain ⟨henabled, hat, hstage⟩ := h.ticks _ (List.mem_of_getElem? hk)
        obtain ⟨hschedule, hrow⟩ := JobState.pass_row crates w.state scheduledAt job reply stage
        refine ⟨?_, ?_, Pool.forall_proceed h.ticks fun next hnext => ?_⟩
        · rcases hrow with hrow | ⟨heq, -⟩
          · exact hrow.trans h.enabled
          · exact absurd heq hstage
        · exact (congrArg CronSchedule.isAt hschedule).trans h.schedule
        · obtain ⟨stage', rfl, hdisable⟩ := pass_next (Option.mem_toList.mp hnext)
          refine ⟨henabled, hat, fun heq => ?_⟩
          rw [hdisable heq] at hat
          cases hat

theorem recurs_of_reachable (h : (timers crates).Reachable w) : w.Recurs := by
  refine h.invariant (P := Recurs) (fun v hv => ?_) fun v step hv hstep => hv.fire hstep
  obtain ⟨henabled, hschedule, -, hticks, -⟩ := hv
  refine ⟨henabled, hschedule, ?_⟩
  rw [hticks]
  simp

theorem proceed_eq_nil_iff (k : ℕ) (next : Option TickCall) :
    Pool.proceed w.ticks k next.toList = [] ↔ Pool.others w.ticks k = [] ∧ next = none := by
  rw [← List.length_eq_zero_iff, (Pool.perm_proceed _ _ _).length_eq, List.length_eq_zero_iff,
    List.append_eq_nil_iff, Option.toList_eq_nil_iff]
  exact and_comm

theorem keepsTimer_fire_iff (h : w.KeepsTimer) (hw : w.Recurs)
    (hstep : (timers crates).admits w step) : (w.fire crates step).KeepsTimer ↔ w.Rearms step := by
  cases step with
  | update req => exact hstep.elim
  | advanceUpdate k accepted now => exact hstep.elim
  | call now =>
    refine iff_of_true ?_ trivial
    simp only [fire]
    split
    · exact h
    · split
      · intro hnone
        simp at hnone
      · exact h
  | advance k reply =>
    cases hk : w.ticks[k]? with
    | none =>
      have hsame : w.fire crates (.advance k reply) = w := by simp only [fire, hk]
      rw [hsame]
      refine iff_of_true h fun call hcall => ?_
      rw [hk] at hcall
      cases hcall
    | some call =>
      have harmed := tick_armed_iff crates w.state reply
        (hw.ticks call (List.mem_of_getElem? hk))
      have hfire : (w.fire crates (.advance k reply)).state = (w.state.tick crates reply call).1 ∧
          (w.fire crates (.advance k reply)).ticks =
            Pool.proceed w.ticks k (w.state.tick crates reply call).2.toList := by
        simp only [fire, hk, advance]
        cases call <;> exact ⟨rfl, rfl⟩
      simp only [Rearms, hk, Option.mem_some_iff, forall_eq', KeepsTimer, hfire.1, hfire.2]
      rw [← harmed, proceed_eq_nil_iff]
      exact and_imp

/-- As long as the last tick in progress does not end without a timer, an enabled recurring job has
a timer whenever no tick is in progress; and the next step keeps that exactly if it does not end the
last tick so. -/
theorem enabled_job_keeps_timer (h : ((timers crates).restrict Rearms).Reachable w) :
    w.KeepsTimer ∧ ∀ step, (timers crates).admits w step →
      ((w.fire crates step).KeepsTimer ↔ w.Rearms step) := by
  refine Machine.Reachable.exact (P := KeepsTimer) (C := Rearms) (fun v hv => ?_)
    (fun v step hr hv hstep => keepsTimer_fire_iff hv (recurs_of_reachable hr) hstep) h
  obtain ⟨-, -, harmed, -⟩ := hv
  exact fun _ => harmed

/-- A job that runs every second, before its first callback. -/
def idleSecond : CronWorld :=
  ⟨⟨⟨true, .every 1000 none, some 1000, none, none, none, 0, 0, false⟩,
    some ⟨.every 1000, 1000, 1000, true⟩, .every 1000 none⟩, [], [], none, none⟩

/-- The conversation is busy, and the run is deferred. -/
def deferredRun : List CronStep :=
  .call 1000 :: List.replicate 6 (.advance 0 (allOk (.retrying 1) 1000))

theorem enabled_job_keeps_timer_sample :
    ((timers noCrates).run idleSecond (deferredRun ++
      .call 31000 :: List.replicate 9 (.advance 0 (allOk (.success "c") 31000)))).state.Armed :=
  (enabled_job_keeps_timer (Machine.reachable_run (M := (timers noCrates).restrict Rearms)
    (s := idleSecond) ⟨rfl, rfl, ⟨_, rfl, rfl⟩, rfl, rfl⟩ (by decide))).1 (by decide)

/-- The timer of the retry has made its callback, and the claim fails. -/
theorem timer_lost : ¬∀ w : CronWorld, (timers noCrates).Reachable w → w.KeepsTimer := by
  intro h
  have harmed := h ((timers noCrates).run idleSecond (deferredRun ++
    .call 31000 :: List.replicate 2 (.advance 0 (allOk .skipped 31000)) ++
      [.advance 0 { allOk .skipped 31000 with failed := true }]))
    (Machine.reachable_run ⟨rfl, rfl, ⟨_, rfl, rfl⟩, rfl, rfl⟩ (by decide)) (by decide)
  revert harmed
  decide

end CronWorld

end AionCore.Cron
