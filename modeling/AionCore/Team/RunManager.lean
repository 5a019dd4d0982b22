import AionCore.Team.WorkCoordinator

/-!
# Team runs: the run manager

`TeamRunManager` of `team_run/manager.rs`: the record of the current team run, the
bindings it hands out to enqueue requests, and how the work summaries that the
coordinator publishes move the run's status. The clock is an argument, read once a
call; `generate_id` draws run ids from a supply of distinct identifiers.
-/

namespace AionCore.Team

inductive TeamRunStatus where
  | accepted
  | running
  | cancelling
  | completed
  | cancelled
  | failed
  deriving DecidableEq

inductive TeamRunSource where
  | userMessage

structure TeamRunRecord where
  teamRunId : String
  source : TeamRunSource
  hasUserIntervention : Bool
  targetSlotId : String
  targetRole : TeamRunTargetRole
  status : TeamRunStatus
  startedAtMs : Option TimestampMs
  completedAtMs : Option TimestampMs
  cancelReason : Option String
  summary : Option RunWorkSummary
  acceptedEmitted : Bool

/-- The statuses of a run that is still open. -/
def TeamRunStatus.isActive : TeamRunStatus → Bool
  | .accepted | .running | .cancelling => true
  | .completed | .cancelled | .failed => false

def TeamRunRecord.isActive (run : TeamRunRecord) : Bool := run.status.isActive

inductive TeamSlotWorkState where
  | idle
  | queued
  | starting
  | running
  | paused
  | blocked

inductive TeamSlotBlockedReason where
  | runtimeStarting
  | runtimeFailed
  | removing
  | sessionStopped

structure TeamSlotWorkPayload where
  slotId : String
  role : TeamRunTargetRole
  state : TeamSlotWorkState
  queuedForegroundCount : ℕ
  queuedBackgroundCount : ℕ
  activeTurnId : Option String
  activeTurnStartedAtMs : Option TimestampMs
  activeTurnElapsedMs : Option ℕ
  activeTurnSlow : Option Bool
  activeTurnSlowThresholdMs : Option ℕ
  blockedReason : Option TeamSlotBlockedReason
  teamRunId : Option String

structure TeamRunPayload where
  teamId : String
  teamRunId : String
  source : TeamRunSource
  hasUserIntervention : Bool
  targetSlotId : String
  targetRole : TeamRunTargetRole
  status : TeamRunStatus
  queuedIntentCount : ℕ
  startingBatchCount : ℕ
  runningBatchCount : ℕ
  activeEnqueueLeaseCount : ℕ
  slotWork : List TeamSlotWorkPayload

/-- What the manager broadcasts: an event name and its payload. -/
abbrev TeamRunEvent := String × TeamRunPayload

def teamRunAcceptedEvent : String := "team.runAccepted"
def teamRunStartedEvent : String := "team.runStarted"
def teamRunUpdatedEvent : String := "team.runUpdated"
def teamRunCompletedEvent : String := "team.runCompleted"
def teamRunCancelledEvent : String := "team.runCancelled"
def teamRunFailedEvent : String := "team.runFailed"

def activeTurnSlowThresholdMs : ℕ := 10 * 60 * 1000

/-- `i64::saturating_sub`. -/
def saturatingSub (a b : TimestampMs) : TimestampMs :=
  max (-0x8000000000000000) (min (a - b) 0x7FFFFFFFFFFFFFFF)

/-- The manager's `state`; `created` counts the run ids that it has drawn. -/
structure TeamRunState where
  record : Option TeamRunRecord
  created : ℕ

namespace TeamRunState

def empty : TeamRunState := ⟨none, 0⟩

def recordOf (st : TeamRunState) (teamRunId : String) : Option TeamRunRecord :=
  st.record.filter (·.teamRunId = teamRunId)

/-- The status of this run, while it is the current one. -/
def statusOf (st : TeamRunState) (teamRunId : String) : Option TeamRunStatus :=
  (st.recordOf teamRunId).map (·.status)

end TeamRunState

/-- `TeamRunManager`: its team and its source of run ids. -/
structure TeamRunManager where
  teamId : String
  generateId : Supply String

namespace TeamRunManager

def slotPayload (now : TimestampMs) (slot : SlotWorkSnapshot) : TeamSlotWorkPayload :=
  let activeTurnElapsedMs := slot.activeTurnStartedAtMs.map fun startedAt =>
    (max (saturatingSub now startedAt) 0).toNat
  { slotId := slot.slotId
    role := slot.role
    state :=
      match slot.state with
      | .idle => .idle
      | .queued => .queued
      | .starting => .starting
      | .running => .running
      | .paused => .paused
      | .blocked => .blocked
    queuedForegroundCount := slot.queuedForegroundCount
    queuedBackgroundCount := slot.queuedBackgroundCount
    activeTurnId := slot.activeTurnId
    activeTurnStartedAtMs := slot.activeTurnStartedAtMs
    activeTurnElapsedMs := activeTurnElapsedMs
    activeTurnSlow := activeTurnElapsedMs.map fun elapsed => activeTurnSlowThresholdMs ≤ elapsed
    activeTurnSlowThresholdMs := slot.activeTurnId.map fun _ => activeTurnSlowThresholdMs
    blockedReason :=
      match slot.runtimeConstraint with
      | .ready => none
      | .starting _ => some .runtimeStarting
      | .failed _ _ => some .runtimeFailed
      | .removing _ => some .removing
      | .sessionStopped => some .sessionStopped
    teamRunId := slot.teamRunId }

variable (m : TeamRunManager)

def payloadLocked (now : TimestampMs) (run : TeamRunRecord) (summary : RunWorkSummary) :
    TeamRunPayload where
  teamId := m.teamId
  teamRunId := run.teamRunId
  source := run.source
  hasUserIntervention := run.hasUserIntervention
  targetSlotId := run.targetSlotId
  targetRole := run.targetRole
  status := run.status
  queuedIntentCount := summary.queuedIntentCount
  startingBatchCount := summary.startingBatchCount
  runningBatchCount := summary.runningBatchCount
  activeEnqueueLeaseCount := summary.activeEnqueueLeaseCount
  slotWork := summary.slots.map (slotPayload now)

/-- The record that `bind_user_enqueue` opens. -/
def newRecord (st : TeamRunState) (targetSlotId : String) (targetRole : TeamRunTargetRole) :
    TeamRunRecord where
  teamRunId := m.generateId.draw st.created
  source := .userMessage
  hasUserIntervention := false
  targetSlotId := targetSlotId
  targetRole := targetRole
  status := .accepted
  startedAtMs := none
  completedAtMs := none
  cancelReason := none
  summary := none
  acceptedEmitted := false

def bindUserEnqueue (st : TeamRunState) (targetSlotId : String) (targetRole : TeamRunTargetRole) :
    TeamRunState × RunBinding :=
  match st.record.filter (·.isActive) with
  | some run =>
    ({ st with record := some { run with hasUserIntervention := true } },
      ⟨some run.teamRunId, false, true⟩)
  | none =>
    let run := m.newRecord st targetSlotId targetRole
    (⟨some run, st.created + 1⟩, ⟨some run.teamRunId, true, false⟩)

def currentActiveRunId (st : TeamRunState) : Option String :=
  (st.record.filter (·.isActive)).map (·.teamRunId)

/-- `no_work` of `apply_work_summary`. -/
def noWork (summary : RunWorkSummary) : Bool :=
  summary.queuedIntentCount = 0 ∧ summary.startingBatchCount = 0 ∧
    summary.runningBatchCount = 0 ∧ summary.activeEnqueueLeaseCount = 0 ∧
    summary.pausedIntentCount = 0

/-- The part of `apply_work_summary` that moves the status and its time stamps. -/
def moveStatus (now : TimestampMs) (run : TeamRunRecord) (summary : RunWorkSummary) :
    TeamRunRecord :=
  if summary.failedIntentCount > 0 then
    { run with status := .failed, completedAtMs := some now }
  -- of the previous status only Cancelling matters; a closed one is overwritten too
  else if noWork summary then
    { run with
      status := if run.status = .cancelling then .cancelled else .completed
      completedAtMs := some now }
  else if summary.runningBatchCount > 0 then
    { run with status := .running, startedAtMs := some (run.startedAtMs.getD now) }
  else run

def statusEvent (previous status : TeamRunStatus) : String :=
  match status with
  | .failed => if previous ≠ .failed then teamRunFailedEvent else teamRunUpdatedEvent
  | .cancelled => if previous ≠ .cancelled then teamRunCancelledEvent else teamRunUpdatedEvent
  | .completed => if previous ≠ .completed then teamRunCompletedEvent else teamRunUpdatedEvent
  | .running => if previous ≠ .running then teamRunStartedEvent else teamRunUpdatedEvent
  | .accepted | .cancelling => teamRunUpdatedEvent

def applyWorkSummary (st : TeamRunState) (now : TimestampMs) (summary : RunWorkSummary) :
    TeamRunState × Option TeamRunEvent :=
  match st.recordOf summary.teamRunId with
  | none => (st, none)
  | some run =>
    let moved := { moveStatus now run summary with summary := some summary }
    let eventName :=
      -- the first summary announces the run, whatever it shows
      if !run.acceptedEmitted then teamRunAcceptedEvent
      else statusEvent run.status moved.status
    let moved := { moved with acceptedEmitted := true }
    ({ st with record := some moved }, some (eventName, m.payloadLocked now moved summary))

def beginCancel (st : TeamRunState) (now : TimestampMs) (teamRunId : String)
    (reason : Option String) : Except TeamError (TeamRunState × Option TeamRunEvent) :=
  match (st.recordOf teamRunId).filter (·.isActive) with
  | none => .error (.invalidRequest ("team run is not active: " ++ teamRunId))
  | some run =>
    let run := { run with status := .cancelling, cancelReason := reason }
    .ok ({ st with record := some run },
      run.summary.map fun summary => (teamRunUpdatedEvent, m.payloadLocked now run summary))

def emptySummary (teamRunId : String) : RunWorkSummary := ⟨teamRunId, 0, 0, 0, 0, 0, 0, []⟩

def currentPayload (st : TeamRunState) (now : TimestampMs) (coordinator : CoordinatorSnapshot) :
    Option TeamRunPayload :=
  st.record.map fun run =>
    let summary := run.summary.or
      (coordinator.activeRunSummary.filter (·.teamRunId = run.teamRunId))
    m.payloadLocked now run (summary.getD (emptySummary run.teamRunId))

/-- `publish_snapshot_update`: what it broadcasts. -/
def publishSnapshotUpdate (st : TeamRunState) (now : TimestampMs)
    (coordinator : CoordinatorSnapshot) : Option TeamRunEvent :=
  ((m.currentPayload st now coordinator).filter fun payload =>
    payload.status = .accepted ∨ payload.status = .running).map (teamRunUpdatedEvent, ·)

def bindEnqueue (st : TeamRunState) (request : EnqueueRequest) : TeamRunState × RunBinding :=
  match request.binding with
  | .userVisible => m.bindUserEnqueue st request.slotId request.role
  | .activeRunOrBackground => (st, ⟨currentActiveRunId st, false, false⟩)
  | .inheritRunningBatch _ | .background => (st, ⟨none, false, false⟩)

def abortBinding (st : TeamRunState) (binding : RunBinding) : TeamRunState :=
  if st.record.any fun run => some run.teamRunId = binding.teamRunId then
    { st with record := none }
  else st

/-- Carry out a call that the coordinator makes on its port. -/
def receive (now : TimestampMs) (st : TeamRunState) : PortCall → TeamRunState
  | .abortBinding binding => abortBinding st binding
  | .applyWorkSummary summary => (m.applyWorkSummary st now summary).1

end TeamRunManager

namespace TeamRunState

variable {st : TeamRunState} {run : TeamRunRecord}

theorem recordOf_eq_some {r : String} :
    st.recordOf r = some run ↔ st.record = some run ∧ run.teamRunId = r := by
  simp [recordOf, Option.filter_eq_some_iff]

theorem statusOf_eq_some {r : String} {status : TeamRunStatus} :
    st.statusOf r = some status ↔
      ∃ run, st.record = some run ∧ run.teamRunId = r ∧ run.status = status := by
  simp only [statusOf, Option.map_eq_some_iff, recordOf_eq_some, and_assoc]

theorem statusOf_of_record (h : st.record = some run) (r : String) :
    st.statusOf r = if run.teamRunId = r then some run.status else none := by
  by_cases hr : run.teamRunId = r <;> simp [statusOf, recordOf, h, hr]

end TeamRunState

namespace TeamRunManager

variable (m : TeamRunManager)

def statusAfter (summary : RunWorkSummary) (previous : TeamRunStatus) : TeamRunStatus :=
  if summary.failedIntentCount > 0 then .failed
  else if noWork summary then if previous = .cancelling then .cancelled else .completed
  else if summary.runningBatchCount > 0 then .running
  else previous

@[simp] theorem moveStatus_status (now : TimestampMs) (run : TeamRunRecord)
    (summary : RunWorkSummary) :
    (moveStatus now run summary).status = statusAfter summary run.status := by
  unfold moveStatus statusAfter
  repeat' split
  all_goals rfl

@[simp] theorem moveStatus_teamRunId (now : TimestampMs) (run : TeamRunRecord)
    (summary : RunWorkSummary) : (moveStatus now run summary).teamRunId = run.teamRunId := by
  rw [moveStatus]
  repeat' split
  all_goals rfl

/-- A summary moves the status of its own run only. -/
theorem statusOf_applyWorkSummary (st : TeamRunState) (now : TimestampMs)
    (summary : RunWorkSummary) (r : String) :
    (m.applyWorkSummary st now summary).1.statusOf r =
      if r = summary.teamRunId then (st.statusOf r).map (statusAfter summary)
      else st.statusOf r := by
  rw [applyWorkSummary]
  split
  · rename_i hnone
    split
    · rename_i hr
      rw [hr, TeamRunState.statusOf, hnone]
      rfl
    · rfl
  · rename_i run hrun
    obtain ⟨hrec, hid⟩ := TeamRunState.recordOf_eq_some.mp hrun
    rw [TeamRunState.statusOf_of_record rfl, TeamRunState.statusOf_of_record hrec]
    simp only [moveStatus_status, moveStatus_teamRunId, hid, eq_comm (a := r)]
    split <;> rfl

@[simp] theorem created_applyWorkSummary (st : TeamRunState) (now : TimestampMs)
    (summary : RunWorkSummary) : (m.applyWorkSummary st now summary).1.created = st.created := by
  rw [applyWorkSummary]
  split <;> rfl

/-- Dropping a binding forgets its run and touches no other. -/
theorem statusOf_abortBinding (st : TeamRunState) (binding : RunBinding) (r : String) :
    (abortBinding st binding).statusOf r =
      if binding.teamRunId = some r then none else st.statusOf r := by
  rw [abortBinding]
  cases hrec : st.record with
  | none => simp [TeamRunState.statusOf, TeamRunState.recordOf, hrec]
  | some run =>
    by_cases hb : some run.teamRunId = binding.teamRunId
    · by_cases hr : run.teamRunId = r <;>
        simp [TeamRunState.statusOf, TeamRunState.recordOf, hrec, ← hb, hr]
    · have hne : binding.teamRunId = some r → run.teamRunId ≠ r := by
        rintro hbr rfl
        exact hb hbr.symm
      rw [Option.any_some, if_neg (by simpa using hb), TeamRunState.statusOf_of_record hrec]
      by_cases hr : binding.teamRunId = some r
      · rw [if_pos hr, if_neg (hne hr)]
      · rw [if_neg hr]

@[simp] theorem created_abortBinding (st : TeamRunState) (binding : RunBinding) :
    (abortBinding st binding).created = st.created := by
  rw [abortBinding]
  split <;> rfl

@[simp] theorem created_receive (now : TimestampMs) (st : TeamRunState) (call : PortCall) :
    (m.receive now st call).created = st.created := by
  cases call with
  | abortBinding binding => exact created_abortBinding st binding
  | applyWorkSummary summary => exact m.created_applyWorkSummary st now summary

/-- `begin_cancel` succeeds on an open run only, and makes it `Cancelling`. -/
theorem statusOf_beginCancel {st st' : TeamRunState} {now : TimestampMs} {q : String}
    {reason : Option String} {event : Option TeamRunEvent}
    (h : m.beginCancel st now q reason = .ok (st', event)) :
    (∃ status, st.statusOf q = some status ∧ status.isActive) ∧ st'.created = st.created ∧
      ∀ r, st'.statusOf r = if r = q then some .cancelling else st.statusOf r := by
  unfold beginCancel at h
  split at h
  · cases h
  · rename_i run hrun
    obtain ⟨hof, hactive⟩ := Option.filter_eq_some_iff.mp hrun
    obtain ⟨hrec, rfl⟩ := TeamRunState.recordOf_eq_some.mp hof
    obtain ⟨rfl, -⟩ : _ = st' ∧ _ = event := by simpa using h
    refine ⟨⟨run.status, TeamRunState.statusOf_eq_some.mpr ⟨run, hrec, rfl, rfl⟩, hactive⟩, rfl,
      fun r => ?_⟩
    rw [TeamRunState.statusOf_of_record rfl, TeamRunState.statusOf_of_record hrec]
    simp only [eq_comm (a := r)]
    split <;> rfl

/-- Asking for a binding keeps the record, or opens the next run when none is open. -/
theorem bindEnqueue_cases (st : TeamRunState) (request : EnqueueRequest) :
    ((∀ r, (m.bindEnqueue st request).1.statusOf r = st.statusOf r) ∧
      (m.bindEnqueue st request).1.created = st.created ∧
      ∀ r, (m.bindEnqueue st request).2.teamRunId = some r →
        ∃ status, st.statusOf r = some status ∧ status.isActive) ∨
    request.binding = .userVisible ∧
      (m.bindEnqueue st request).1 =
        ⟨some (m.newRecord st request.slotId request.role), st.created + 1⟩ ∧
      (m.bindEnqueue st request).2.teamRunId = some (m.generateId.draw st.created) := by
  rw [bindEnqueue]
  split
  · rename_i hbinding
    rw [bindUserEnqueue]
    split
    · rename_i run hrun
      obtain ⟨hrec, hactive⟩ := Option.filter_eq_some_iff.mp hrun
      refine .inl ⟨fun r => ?_, rfl, fun r hr => ?_⟩
      · rw [TeamRunState.statusOf_of_record rfl, TeamRunState.statusOf_of_record hrec]
      · obtain rfl : run.teamRunId = r := by simpa using hr
        exact ⟨run.status, TeamRunState.statusOf_eq_some.mpr ⟨run, hrec, rfl, rfl⟩, hactive⟩
    · exact .inr ⟨hbinding, rfl, rfl⟩
  · refine .inl ⟨fun _ => rfl, rfl, fun r hr => ?_⟩
    obtain ⟨run, hrun, rfl⟩ := Option.map_eq_some_iff.mp hr
    obtain ⟨hrec, hactive⟩ := Option.filter_eq_some_iff.mp hrun
    exact ⟨run.status, TeamRunState.statusOf_eq_some.mpr ⟨run, hrec, rfl, rfl⟩, hactive⟩
  · exact .inl ⟨fun _ => rfl, rfl, by simp⟩
  · exact .inl ⟨fun _ => rfl, rfl, by simp⟩

end TeamRunManager

end AionCore.Team
