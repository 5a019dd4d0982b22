import AionCore.Cron.Service

/-!
# Cron: edits beside a run

One execution of a job beside any edits of it. The execution keeps the job that its tick has read,
and computes the next run, disables the job and arms the timer from that.
-/

namespace AionCore.Cron

open AionCore.Team (TimestampMs)

/-- The row's next run is that of its schedule, and the timer armed is the row's. -/
structure JobState.InStep (s : JobState) : Prop where
  next : s.nextOf = s.row.schedule.timing
  timer : s.timer.filter (·.live) = s.row.timer

def TickCall.final : TickCall → Bool
  | .load _ => false
  | .past _ _ stage =>
    match stage with
    | .resolve | .claim | .execute => false
    | .duplicate | .finish _ | .count _ | .record _ _ | .skip | .defer _ | .countRetry _
    | .reschedule | .disable | .advance _ => true

namespace CronWorld

variable (crates : CronCrates)

/-- One execution, and any edits that return before its final steps. -/
def edits : Machine CronWorld CronStep where
  start w := (∃ scheduledAt, w.ticks = [.load scheduledAt]) ∧ w.updates = [] ∧ w.loaded = none ∧
    w.edited = none ∧ w.state.nextOf = w.state.row.schedule.timing
  admits w
    | .call _ => False
    | .advance k _ => ∀ call ∈ w.ticks[k]?, call.final → w.updates = []
    | .update _ | .advanceUpdate _ _ _ => ∀ call ∈ w.ticks, call.final = false
  fire := fire crates

instance (w : CronWorld) : ∀ step, Decidable ((edits crates).admits w step)
  | .call _ => .isFalse id
  | .advance k _ => inferInstanceAs (Decidable (∀ call ∈ w.ticks[k]?, _ → w.updates = []))
  | .update _ => inferInstanceAs (Decidable (∀ call ∈ w.ticks, _))
  | .advanceUpdate _ _ _ => inferInstanceAs (Decidable (∀ call ∈ w.ticks, _))

def RanAt (w : CronWorld) : Prop :=
  w.state.row.enabled = false ∧ w.state.row.schedule.isAt ∧
    ∃ job ∈ w.loaded, job.schedule.timing = w.state.row.schedule.timing

/-- What the last update has left stands: the enabled flag and the schedule, and whenever no update
is about to arm the timer, the next run and the timer. -/
structure Stands (w : CronWorld) (enabled : Bool) (schedule : CronSchedule) : Prop where
  schedule : w.state.row.schedule = schedule
  enabled : w.state.row.enabled = enabled ∨ w.RanAt
  inStep : (∀ call ∈ w.updates, call.written = false) → w.state.InStep

/-- No edit since the tick has read the job is undone. -/
def EditsStand (w : CronWorld) : Prop := ∀ edit ∈ w.edited, w.Stands edit.1 edit.2

end CronWorld

/-- What the execution does to the timer suits the row: a retry only if it is the row's timer, and
otherwise only with the timing of the row, for a row that is enabled where the timer is armed. -/
def JobState.Suits (s : JobState) (scheduledAt : TimestampMs) (job : CronJob)
    (reply : CronReply) : TickStage → Prop
  | .duplicate | .reschedule => ∀ run ∈ reply.found,
    s.row.timer = some (.occurrence run.scheduledAt run.wakeAt)
  | .defer _ => reply.failed = false → reply.affected = true →
    s.row.timer = some (.occurrence scheduledAt (reply.now + RETRY_INTERVAL_MS))
  | .disable => if reply.failed then s.row.timer = none
    else job.schedule.timing = s.row.schedule.timing
  | .advance next => if reply.failed then s.row.timer = { job with nextRunAt := next }.timer
    else job.schedule.timing = s.row.schedule.timing ∧ (next = none ∨ s.row.enabled = job.enabled)
  | .resolve | .claim | .execute | .finish _ | .count _ | .record _ _ | .skip
  | .countRetry _ => True

namespace JobState

variable {crates : CronCrates} {s s' : JobState} {scheduledAt : TimestampMs} {job : CronJob}
  {reply : CronReply} {stage : TickStage}

instance (s : JobState) (scheduledAt : TimestampMs) (job : CronJob) (reply : CronReply) :
    ∀ stage, Decidable (s.Suits scheduledAt job reply stage)
  | .duplicate | .reschedule => inferInstanceAs (Decidable (∀ run ∈ reply.found, _))
  | .defer _ => inferInstanceAs (Decidable (_ → _ → _))
  | .disable => inferInstanceAs (Decidable (if reply.failed then _ else _))
  | .advance _ => inferInstanceAs (Decidable (if reply.failed then _ else _ ∧ _))
  | .resolve | .claim | .execute | .finish _ | .count _ | .record _ _ | .skip
  | .countRetry _ => .isTrue trivial

/-- The enabled flag, the schedule and the next run of the row are left alone, with its timer. -/
structure Untouched (s s' : JobState) : Prop where
  enabled : s'.row.enabled = s.row.enabled
  schedule : s'.row.schedule = s.row.schedule
  nextRunAt : s'.row.nextRunAt = s.row.nextRunAt
  nextOf : s'.nextOf = s.nextOf
  timer : s'.timer = s.timer

theorem Untouched.rfl : Untouched s s := ⟨.refl _, .refl _, .refl _, .refl _, .refl _⟩

theorem Untouched.rowTimer (h : Untouched s s') : s'.row.timer = s.row.timer := by
  simp only [CronJob.timer, h.enabled, h.schedule, h.nextRunAt]

theorem Untouched.inStep (h : Untouched s s') (hs : s.InStep) : s'.InStep where
  next := by rw [h.nextOf, h.schedule, hs.next]
  timer := by rw [h.timer, h.rowTimer, hs.timer]

/-- An update of the row's other columns. -/
theorem untouched_updateRow {failed : Bool} {params : UpdateCronJobParams}
    (henabled : params.enabled = none) (hschedule : params.schedule = none)
    (hnext : params.nextRunAt = none) : Untouched s (s.updateRow failed params) := by
  unfold updateRow
  split
  · exact .rfl
  · refine ⟨?_, ?_, ?_, .refl _, .refl _⟩
    · simp only [CronJob.update, henabled, Option.getD_none]
    · simp only [CronJob.update, hschedule, Option.getD_none]
    · simp only [CronJob.update, hnext, Option.getD_none]

theorem filter_live_timer (job : CronJob) : job.timer.filter (·.live) = job.timer := by
  unfold CronJob.timer
  split
  · cases job.nextRunAt with
    | none => rfl
    | some next =>
      rw [Option.map_some, Option.filter_some, if_pos (Timer.ofSchedule_live _ _)]
  · rfl

/-- What a stage of a tick does to the timer and to the row's next run. -/
inductive PassEffect (s s' : JobState) (scheduledAt : TimestampMs) (job : CronJob)
    (reply : CronReply) (stage : TickStage) : Prop
  | untouched (same : Untouched s s') (suits : s.Suits scheduledAt job reply stage)
  | retry (timer : Timer) (live : timer.live = true) (state : s' = { s with timer := some timer })
    (suits : s.Suits scheduledAt job reply stage ↔ s.row.timer = some timer)
  | disabled (isStage : stage = .disable)
  | advanced (next : Option TimestampMs) (isStage : stage = .advance next)

theorem passEffect_pass (s : JobState) (scheduledAt : TimestampMs) (job : CronJob)
    (reply : CronReply) (stage : TickStage) :
    PassEffect s (s.pass crates scheduledAt job reply stage).1 scheduledAt job reply stage := by
  cases stage with
  | disable => exact .disabled rfl
  | advance next => exact .advanced next rfl
  | resolve | count result =>
    refine .untouched ?_ trivial
    simp only [pass]
    split <;> exact .rfl
  | claim =>
    refine .untouched ?_ trivial
    simp only [pass]
    split
    · exact .rfl
    · cases reply.claim <;> exact .rfl
  | execute =>
    refine .untouched ?_ trivial
    simp only [pass]
    cases reply.result <;> exact .rfl
  | finish result =>
    refine .untouched ?_ trivial
    simp only [pass]
    split
    · exact .rfl
    · cases result <;> exact .rfl
  | record result runCount =>
    refine .untouched ?_ trivial
    cases result <;> exact untouched_updateRow rfl rfl rfl
  | skip | countRetry attempt => exact .untouched (untouched_updateRow rfl rfl rfl) trivial
  | defer attempt =>
    by_cases h : reply.failed || !reply.affected
    · refine .untouched ?_ fun hfailed haffected => ?_
      · simp only [pass, h, if_true]
        exact .rfl
      · rw [hfailed, haffected] at h
        cases h
    · refine .retry (.occurrence scheduledAt (reply.now + RETRY_INTERVAL_MS)) rfl ?_ ?_
      · simp only [pass, if_neg h]
      · simp only [Bool.or_eq_true, not_or, Bool.not_eq_true, Bool.not_eq_false'] at h
        simp only [Suits, h.1, h.2, true_implies]
  | duplicate =>
    cases hfound : reply.found with
    | none =>
      refine .untouched ?_ fun run hrun => ?_
      · simp only [pass, hfound]
        exact .rfl
      · rw [hfound] at hrun
        cases hrun
    | some run =>
      refine .retry (.occurrence run.scheduledAt run.wakeAt) rfl ?_ ?_
      · simp only [pass, hfound]
      · simp only [Suits, hfound, Option.mem_some_iff, forall_eq']
  | reschedule =>
    cases hfound : reply.found with
    | none =>
      refine .untouched ?_ fun run hrun => ?_
      · simp only [pass, hfound]
        split <;> exact .rfl
      · rw [hfound] at hrun
        cases hrun
    | some run =>
      refine .retry (.occurrence run.scheduledAt run.wakeAt) rfl ?_ ?_
      · simp only [pass, hfound]
      · simp only [Suits, hfound, Option.mem_some_iff, forall_eq']

theorem inStep_disable_iff (h : s.InStep) :
    (s.pass crates scheduledAt job reply .disable).1.InStep ↔
      s.Suits scheduledAt job reply .disable := by
  simp only [pass, Suits, updateRow]
  cases reply.failed with
  | true =>
    constructor
    · intro hstep
      exact hstep.timer.symm
    · intro htimer
      exact ⟨h.next, htimer.symm⟩
  | false =>
    constructor
    · intro hstep
      exact hstep.next
    · intro htiming
      exact ⟨htiming, rfl⟩

theorem inStep_advance_iff {next : Option TimestampMs} (h : s.InStep) :
    (s.pass crates scheduledAt job reply (.advance next)).1.InStep ↔
      s.Suits scheduledAt job reply (.advance next) := by
  simp only [pass, Suits, updateRow]
  cases reply.failed with
  | true =>
    constructor
    · intro hstep
      have htimer := hstep.timer
      rw [filter_live_timer] at htimer
      exact htimer.symm
    · intro htimer
      refine ⟨h.next, ?_⟩
      rw [filter_live_timer]
      exact htimer.symm
  | false =>
    have htimers : job.schedule.timing = s.row.schedule.timing →
        ((if job.enabled then next.map (Timer.ofSchedule job.schedule) else none) =
          (if s.row.enabled then next.map (Timer.ofSchedule s.row.schedule) else none) ↔
        next = none ∨ s.row.enabled = job.enabled) := by
      intro htiming
      rw [Timer.ofSchedule_congr htiming]
      cases next <;> cases job.enabled <;> cases s.row.enabled <;> simp
    constructor
    · intro hstep
      have htiming : job.schedule.timing = s.row.schedule.timing := hstep.next
      have htimer := hstep.timer
      rw [filter_live_timer] at htimer
      exact ⟨htiming, (htimers htiming).mp htimer⟩
    · rintro ⟨htiming, hnext⟩
      refine ⟨htiming, ?_⟩
      rw [filter_live_timer]
      exact (htimers htiming).mpr hnext

/-- What a stage does leaves the row and its timer in step exactly if it suits the row. -/
theorem inStep_pass_iff (h : s.InStep) :
    (s.pass crates scheduledAt job reply stage).1.InStep ↔ s.Suits scheduledAt job reply stage := by
  have heffect : PassEffect s (s.pass crates scheduledAt job reply stage).1 scheduledAt job reply
      stage := passEffect_pass s scheduledAt job reply stage
  cases heffect with
  | untouched same suits => exact iff_of_true (same.inStep h) suits
  | retry timer live state suits =>
    rw [state, suits]
    constructor
    · intro hstep
      rw [← hstep.timer, Option.filter_some, if_pos live]
    · intro htimer
      refine ⟨h.next, ?_⟩
      rw [Option.filter_some, if_pos live]
      exact htimer.symm
  | disabled isStage =>
    subst isStage
    exact inStep_disable_iff h
  | advanced next isStage =>
    subst isStage
    exact inStep_advance_iff h

/-- No stage writes the schedule, and only one the enabled flag. -/
theorem pass_row (crates : CronCrates) (s : JobState) (scheduledAt : TimestampMs) (job : CronJob)
    (reply : CronReply)
    (stage : TickStage) :
    (s.pass crates scheduledAt job reply stage).1.row.schedule = s.row.schedule ∧
      ((s.pass crates scheduledAt job reply stage).1.row.enabled = s.row.enabled ∨
        stage = .disable ∧ reply.failed = false ∧
          (s.pass crates scheduledAt job reply stage).1.row.enabled = false) := by
  have heffect : PassEffect s (s.pass crates scheduledAt job reply stage).1 scheduledAt job reply
      stage := passEffect_pass s scheduledAt job reply stage
  cases heffect with
  | untouched same _ => exact ⟨same.schedule, .inl same.enabled⟩
  | retry timer live state _ =>
    rw [state]
    exact ⟨rfl, .inl rfl⟩
  | disabled isStage =>
    subst isStage
    simp only [pass, updateRow]
    cases hfailed : reply.failed with
    | true => exact ⟨rfl, .inl rfl⟩
    | false => exact ⟨rfl, .inr ⟨trivial, rfl, rfl⟩⟩
  | advanced next isStage =>
    subst isStage
    simp only [pass, updateRow]
    cases reply.failed with
    | true => exact ⟨rfl, .inl rfl⟩
    | false => exact ⟨rfl, .inl rfl⟩

/-- Before its final steps a tick only reads. -/
theorem pass_eq_of_not_final (crates : CronCrates) (s : JobState) (reply : CronReply)
    (h : (TickCall.past scheduledAt job stage).final = false) :
    (s.pass crates scheduledAt job reply stage).1 = s ∧ s.Suits scheduledAt job reply stage := by
  cases stage with
  | resolve =>
    refine ⟨?_, trivial⟩
    simp only [pass]
    split <;> rfl
  | claim =>
    refine ⟨?_, trivial⟩
    simp only [pass]
    split
    · rfl
    · cases reply.claim <;> rfl
  | execute =>
    refine ⟨?_, trivial⟩
    simp only [pass]
    cases reply.result <;> rfl
  | duplicate | finish _ | count _ | record _ _ | skip | defer _ | countRetry _ | reschedule
  | disable | advance _ => cases h

end JobState

namespace CronWorld

variable {crates : CronCrates} {w : CronWorld} {step : CronStep}

/-- The tick in progress works on the job that it has read, and disables At jobs only. -/
structure OneTick (w : CronWorld) : Prop where
  one : w.ticks.length ≤ 1
  loaded : ∀ scheduledAt job stage, .past scheduledAt job stage ∈ w.ticks → w.loaded = some job
  disables : ∀ scheduledAt job, .past scheduledAt job .disable ∈ w.ticks → job.schedule.isAt

/-- The edits and the execution keep out of each other's way: an update arms the timer only when the
row is still what it has written, and after an update the execution does to the timer what suits
the row. -/
def Undisturbed (w : CronWorld) : CronStep → Prop
  | .call _ | .update _ => True
  | .advance k reply => ∀ call ∈ w.ticks[k]?,
    match call with
    | .load _ => True
    | .past scheduledAt job stage => w.edited.isSome → w.state.Suits scheduledAt job reply stage
  | .advanceUpdate k _ _ => ∀ call ∈ w.updates[k]?, call.written → w.edited.isSome →
    (∀ other ∈ Pool.others w.updates k, other.written = false) →
      call.job.timer = w.state.row.timer ∧ w.state.nextOf = w.state.row.schedule.timing

instance (w : CronWorld) : ∀ step, Decidable (w.Undisturbed step)
  | .call _ | .update _ => .isTrue trivial
  | .advance k reply =>
    have : ∀ call : TickCall, Decidable (match call with
        | .load _ => True
        | .past scheduledAt job stage =>
          w.edited.isSome → w.state.Suits scheduledAt job reply stage)
      | .load _ => .isTrue trivial
      | .past _ _ _ => inferInstanceAs (Decidable (_ → _))
    inferInstanceAs (Decidable (∀ call ∈ w.ticks[k]?, _))
  | .advanceUpdate k _ _ =>
    inferInstanceAs (Decidable (∀ call ∈ w.updates[k]?, _ → _ → (∀ other ∈ _, _) → _ ∧ _))

theorem editsStand_advanceUpdate_iff (h : w.EditsStand) (k : ℕ) (accepted : Bool)
    (now : TimestampMs) :
    (w.fire crates (.advanceUpdate k accepted now)).EditsStand ↔
      w.Undisturbed (.advanceUpdate k accepted now) := by
  cases hk : w.updates[k]? with
  | none =>
    have hsame : w.fire crates (.advanceUpdate k accepted now) = w := by simp only [fire, hk]
    rw [hsame]
    refine iff_of_true h fun call hcall => ?_
    rw [hk] at hcall
    cases hcall
  | some call =>
    have hundisturbed : w.Undisturbed (.advanceUpdate k accepted now) ↔
        (call.written → w.edited.isSome →
          (∀ other ∈ Pool.others w.updates k, other.written = false) →
          call.job.timer = w.state.row.timer ∧ w.state.nextOf = w.state.row.schedule.timing) := by
      simp only [Undisturbed, hk, Option.mem_some_iff, forall_eq']
    rw [hundisturbed]
    have hothers : ∀ other, other ∈ Pool.proceed w.updates k [] ↔
        other ∈ Pool.others w.updates k := by
      intro other
      rw [Pool.mem_proceed]
      simp
    simp only [fire, hk, advanceUpdate]
    by_cases hwritten : call.written = true
    · rw [if_pos hwritten]
      constructor
      · intro hstands _ hedited hsettled
        obtain ⟨edit, hedit⟩ := Option.isSome_iff_exists.mp hedited
        have hstep := (hstands edit hedit).inStep fun other hother =>
          hsettled other ((hothers other).mp hother)
        have htimer := hstep.timer
        rw [JobState.filter_live_timer] at htimer
        exact ⟨htimer, hstep.next⟩
      · intro hsuits edit hedit
        refine ⟨(h edit hedit).schedule, (h edit hedit).enabled, fun hsettled => ?_⟩
        obtain ⟨htimer, hnext⟩ := hsuits hwritten (Option.isSome_iff_exists.mpr ⟨edit, hedit⟩)
          fun other hother => hsettled other ((hothers other).mpr hother)
        refine ⟨hnext, ?_⟩
        rw [JobState.filter_live_timer]
        exact htimer
    · rw [if_neg hwritten]
      refine iff_of_true ?_ fun hw => absurd hw hwritten
      split
      · intro edit hedit
        obtain rfl := Option.some.inj hedit
        refine ⟨rfl, .inl rfl, fun hsettled => ?_⟩
        have hfalse := hsettled _ (Pool.mem_proceed.mpr (.inl (List.mem_singleton_self _)))
        cases hfalse
      · intro edit hedit
        refine ⟨(h edit hedit).schedule, (h edit hedit).enabled, fun hsettled => ?_⟩
        refine (h edit hedit).inStep fun other hother => ?_
        rcases (Pool.mem_iff hk).mp hother with rfl | hother
        · exact Bool.eq_false_iff.mpr hwritten
        · exact hsettled other ((hothers other).mpr hother)

theorem editsStand_advance_iff (h : w.EditsStand) (hw : w.OneTick) {k : ℕ} {reply : CronReply}
    (hstep : (edits crates).admits w (.advance k reply)) :
    (w.fire crates (.advance k reply)).EditsStand ↔ w.Undisturbed (.advance k reply) := by
  cases hk : w.ticks[k]? with
  | none =>
    have hsame : w.fire crates (.advance k reply) = w := by simp only [fire, hk]
    rw [hsame]
    refine iff_of_true h fun call hcall => ?_
    rw [hk] at hcall
    cases hcall
  | some call =>
    cases call with
    | load scheduledAt =>
      refine iff_of_true (fun edit hedit => ?_) fun call hcall => ?_
      · simp only [fire, hk, advance] at hedit
        cases hedit
      · rw [hk] at hcall
        obtain rfl := Option.some.inj hcall
        trivial
    | past scheduledAt job stage =>
      have hmem := List.mem_of_getElem? hk
      have hundisturbed : w.Undisturbed (.advance k reply) ↔
          (w.edited.isSome → w.state.Suits scheduledAt job reply stage) := by
        simp only [Undisturbed, hk, Option.mem_some_iff, forall_eq']
      rw [hundisturbed]
      simp only [fire, hk, advance, JobState.tick]
      cases hfinal : (TickCall.past scheduledAt job stage).final with
      | false =>
        obtain ⟨heq, hsuits⟩ := JobState.pass_eq_of_not_final crates w.state reply hfinal
        rw [heq]
        refine iff_of_true (fun edit hedit => ?_) fun _ => hsuits
        exact ⟨(h edit hedit).schedule, (h edit hedit).enabled, (h edit hedit).inStep⟩
      | true =>
        have hupdates : w.updates = [] := hstep _ hk hfinal
        have hsettled : ∀ call ∈ w.updates, call.written = false := by
          rw [hupdates]
          simp
        constructor
        · intro hstands hedited
          obtain ⟨edit, hedit⟩ := Option.isSome_iff_exists.mp hedited
          exact (JobState.inStep_pass_iff ((h edit hedit).inStep hsettled)).mp
            ((hstands edit hedit).inStep hsettled)
        · intro hsuits edit hedit
          have hsuits := hsuits (Option.isSome_iff_exists.mpr ⟨edit, hedit⟩)
          obtain ⟨hschedule, henabled⟩ := JobState.pass_row crates w.state scheduledAt job reply
            stage
          refine ⟨hschedule.trans (h edit hedit).schedule, ?_, fun _ =>
            (JobState.inStep_pass_iff ((h edit hedit).inStep hsettled)).mpr hsuits⟩
          rcases henabled with hsame | ⟨rfl, hfailed, hdisabled⟩
          · rcases (h edit hedit).enabled with heq | ⟨hoff, hat, hran⟩
            · exact .inl (hsame.trans heq)
            · refine .inr ⟨hsame.trans hoff, ?_, ?_⟩
              · rw [hschedule]
                exact hat
              · rw [hschedule]
                exact hran
          · have htiming : job.schedule.timing = w.state.row.schedule.timing := by
              simpa [JobState.Suits, hfailed] using hsuits
            refine .inr ⟨hdisabled, ?_, job, hw.loaded _ _ _ hmem, ?_⟩
            · rw [hschedule, ← CronSchedule.isAt_timing, ← htiming, CronSchedule.isAt_timing]
              exact hw.disables _ _ hmem
            · rw [hschedule]
              exact htiming

theorem editsStand_fire_iff (h : w.EditsStand) (hw : w.OneTick)
    (hstep : (edits crates).admits w step) : (w.fire crates step).EditsStand ↔ w.Undisturbed step := by
  cases step with
  | call now => exact hstep.elim
  | advance k reply => exact editsStand_advance_iff h hw hstep
  | advanceUpdate k accepted now => exact editsStand_advanceUpdate_iff h k accepted now
  | update req =>
    refine iff_of_true ?_ trivial
    simp only [fire]
    split
    · intro edit hedit
      exact ⟨(h edit hedit).schedule, (h edit hedit).enabled, fun hsettled =>
        (h edit hedit).inStep fun call hcall => hsettled call (List.mem_append_left _ hcall)⟩
    · exact h

/-- A tick goes on with the job that it has read, and disables it only if it is an At job. -/
theorem pass_next {s : JobState} {scheduledAt : TimestampMs} {job : CronJob} {reply : CronReply}
    {stage : TickStage} {next : TickCall}
    (h : next ∈ (s.pass crates scheduledAt job reply stage).2) :
    ∃ stage', next = .past scheduledAt job stage' ∧ (stage' = .disable → job.schedule.isAt) := by
  have hgo : ∀ {stage' : TickStage}, next ∈ some (TickCall.past scheduledAt job stage') →
      stage' ≠ .disable →
        ∃ stage', next = .past scheduledAt job stage' ∧ (stage' = .disable → job.schedule.isAt) := by
    intro stage' hnext hne
    exact ⟨stage', (Option.some.inj hnext).symm, fun heq => absurd heq hne⟩
  cases stage with
  | resolve | defer attempt | duplicate =>
    simp only [JobState.pass] at h
    split at h
    · cases h
    · exact hgo h TickStage.noConfusion
  | claim =>
    simp only [JobState.pass] at h
    split at h
    · cases h
    · cases hclaim : reply.claim <;> rw [hclaim] at h <;> exact hgo h TickStage.noConfusion
  | execute =>
    simp only [JobState.pass] at h
    cases hresult : reply.result <;> rw [hresult] at h <;> exact hgo h TickStage.noConfusion
  | finish result =>
    simp only [JobState.pass] at h
    split at h
    · cases h
    · cases result <;> exact hgo h TickStage.noConfusion
  | count result =>
    simp only [JobState.pass] at h
    split at h <;> exact hgo h TickStage.noConfusion
  | record result runCount => exact hgo h TickStage.noConfusion
  | skip => exact hgo h TickStage.noConfusion
  | reschedule =>
    simp only [JobState.pass] at h
    split at h
    · cases h
    · split at h
      · rename_i hat
        exact ⟨.disable, (Option.some.inj h).symm, fun _ => hat⟩
      · exact hgo h TickStage.noConfusion
  | countRetry attempt => cases h
  | disable => cases h
  | advance next => cases h

theorem length_proceed_le {call : TickCall} {k : ℕ} (h : w.ticks.length ≤ 1)
    (hk : w.ticks[k]? = some call) (next : Option TickCall) :
    Pool.proceed w.ticks k next.toList = next.toList := by
  obtain ⟨hlt, -⟩ := List.getElem?_eq_some_iff.mp hk
  have hzero : k = 0 := by omega
  subst hzero
  rw [Pool.proceed, List.take_zero, List.drop_eq_nil_of_le h, List.nil_append, List.append_nil]

theorem OneTick.fire (h : w.OneTick) (hstep : (edits crates).admits w step) :
    (w.fire crates step).OneTick := by
  have hsame : ∀ w' : CronWorld, w'.ticks = w.ticks → w'.loaded = w.loaded → w'.OneTick := by
    intro w' hticks hloaded
    refine ⟨by rw [hticks]; exact h.one, fun scheduledAt job stage hmem => ?_,
      fun scheduledAt job hmem => h.disables scheduledAt job (hticks ▸ hmem)⟩
    rw [hloaded]
    exact h.loaded scheduledAt job stage (hticks ▸ hmem)
  cases step with
  | call now => exact hstep.elim
  | update req =>
    simp only [CronWorld.fire]
    split <;> exact hsame _ rfl rfl
  | advanceUpdate k accepted now =>
    simp only [CronWorld.fire]
    split
    · exact h
    · unfold advanceUpdate
      split
      · exact hsame _ rfl rfl
      · split <;> exact hsame _ rfl rfl
  | advance k reply =>
    simp only [CronWorld.fire]
    cases hk : w.ticks[k]? with
    | none => exact h
    | some call =>
      have hticks := length_proceed_le h.one hk (w.state.tick crates reply call).2
      cases call with
      | load scheduledAt =>
        simp only [advance, hticks]
        simp only [JobState.tick]
        cases reply.failed with
        | true => exact ⟨by simp, by simp, by simp⟩
        | false =>
          refine ⟨by simp, fun o job stage hmem => ?_, fun o job hmem => ?_⟩
          · simp only [Bool.false_eq_true, if_false, Option.toList_some, List.mem_singleton,
              TickCall.past.injEq] at hmem
            rw [hmem.2.1]
          · simp at hmem
      | past scheduledAt job stage =>
        have hloaded := h.loaded _ _ _ (List.mem_of_getElem? hk)
        simp only [advance, hticks]
        simp only [JobState.tick]
        refine ⟨?_, fun o job' stage' hmem => ?_, fun o job' hmem => ?_⟩
        · cases (w.state.pass crates scheduledAt job reply stage).2 <;> simp
        · obtain ⟨stage'', heq, -⟩ := pass_next (Option.mem_toList.mp hmem)
          rw [(TickCall.past.inj heq).2.1]
          exact hloaded
        · obtain ⟨stage'', heq, hat⟩ := pass_next (Option.mem_toList.mp hmem)
          obtain ⟨-, rfl, rfl⟩ := TickCall.past.inj heq
          exact hat rfl

theorem oneTick_of_reachable (h : (edits crates).Reachable w) : w.OneTick := by
  refine h.invariant (P := OneTick) (fun v hv => ?_) fun v step hv hstep => hv.fire hstep
  obtain ⟨⟨scheduledAt, hticks⟩, -⟩ := hv
  refine ⟨by rw [hticks]; exact le_rfl, ?_, ?_⟩
  · intro o job stage hmem
    rw [hticks] at hmem
    simp at hmem
  · intro o job hmem
    rw [hticks] at hmem
    simp at hmem

/-- As long as the edits and the execution keep out of each other's way, every edit since the tick
has read the job stands; and the next step lets it stand exactly if it keeps out of the way too. -/
theorem edits_stand (h : ((edits crates).restrict Undisturbed).Reachable w) :
    w.EditsStand ∧ ∀ step, (edits crates).admits w step →
      ((w.fire crates step).EditsStand ↔ w.Undisturbed step) := by
  refine Machine.Reachable.exact (P := EditsStand) (C := Undisturbed) (fun v hv => ?_)
    (fun v step hr hv hstep => editsStand_fire_iff hv (oneTick_of_reachable hr) hstep) h
  obtain ⟨-, -, -, hedited, -⟩ := hv
  intro edit hedit
  rw [hedited] at hedit
  cases hedit

/-- Crates that know no expression. -/
def noCrates : CronCrates := ⟨fun _ _ _ => none, fun _ _ => false⟩

/-- The occurrence at 1000 of a job that runs every second. -/
def everySecond : CronWorld :=
  ⟨⟨⟨true, .every 1000 none, some 1000, none, none, none, 0, 0, false⟩,
    some ⟨.every 1000, 2000, 2000, true⟩, .every 1000 none⟩, [.load 1000], [], none, none⟩

/-- Nothing fails, and the execution ends like this. -/
def allOk (result : ExecutionResult) (now : TimestampMs) : CronReply :=
  ⟨false, true, .claimed, none, result, now⟩

/-- The run loads the job, an update comes and returns, and the run goes on to its end. -/
def editedRun (req : UpdateCronJobRequest) : List CronStep :=
  List.replicate 3 (.advance 0 (allOk .skipped 1000)) ++
    [.update req, .advanceUpdate 0 true 1500, .advanceUpdate 0 true 1500] ++
    List.replicate 6 (.advance 0 (allOk (.success "c") 2500))

/-- The update leaves the schedule and the enabled flag as they are. -/
theorem edits_stand_sample :
    ((edits noCrates).run everySecond (editedRun ⟨none, none, some true⟩)).EditsStand ∧
      ((edits noCrates).run everySecond (editedRun ⟨none, none, some true⟩)).ticks = [] :=
  ⟨(edits_stand (Machine.reachable_run (M := (edits noCrates).restrict Undisturbed)
    (s := everySecond) ⟨⟨1000, rfl⟩, rfl, rfl, rfl, rfl⟩ (by decide))).1, by decide⟩

/-- The update disables the job, and the run arms the timer again. -/
theorem edit_undone : ¬∀ w : CronWorld, (edits noCrates).Reachable w → w.EditsStand := by
  intro h
  have hstands := h ((edits noCrates).run everySecond (editedRun ⟨some false, none, none⟩))
    (Machine.reachable_run ⟨⟨1000, rfl⟩, rfl, rfl, rfl, rfl⟩ (by decide))
  have htimer := ((hstands (false, .every 1000 none) (by decide)).inStep (by decide)).timer
  revert htimer
  decide

end CronWorld

end AionCore.Cron
