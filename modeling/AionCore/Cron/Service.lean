import AionCore.Cron.RunTable
import AionCore.Cron.Schedule
import AionCore.Lib.Pool

/-!
# Cron: ticks and edits of a job

`CronService` on one job: `tick` with `handle_execution_result`, `schedule_retry` and
`reschedule_after_execution`, and `update_job`, each split at its awaits. A reply says what the
awaited call returns; the steps between two awaits are one. The row is there throughout.
-/

namespace AionCore.Cron

open AionCore.Team (TimestampMs)

inductive JobStatus where
  | ok
  | error
  | skipped
  | missed

/-- A job, and its row as `cron_job_from_row` reads it. -/
structure CronJob where
  enabled : Bool
  schedule : CronSchedule
  nextRunAt : Option TimestampMs
  lastRunAt : Option TimestampMs
  lastStatus : Option JobStatus
  lastError : Option String
  runCount : Int
  retryCount : Int
  queueEnabled : Bool

structure UpdateCronJobParams where
  enabled : Option Bool := none
  schedule : Option CronSchedule := none
  nextRunAt : Option (Option TimestampMs) := none
  lastRunAt : Option (Option TimestampMs) := none
  lastStatus : Option (Option JobStatus) := none
  lastError : Option (Option String) := none
  runCount : Option Int := none
  retryCount : Option Int := none
  queueEnabled : Option Bool := none

/-- `SqliteCronRepository::update`. -/
def CronJob.update (row : CronJob) (params : UpdateCronJobParams) : CronJob where
  enabled := params.enabled.getD row.enabled
  schedule := params.schedule.getD row.schedule
  nextRunAt := params.nextRunAt.getD row.nextRunAt
  lastRunAt := params.lastRunAt.getD row.lastRunAt
  lastStatus := params.lastStatus.getD row.lastStatus
  lastError := params.lastError.getD row.lastError
  runCount := params.runCount.getD row.runCount
  retryCount := params.retryCount.getD row.retryCount
  queueEnabled := params.queueEnabled.getD row.queueEnabled

/-- `schedule_job`. -/
def CronJob.timer (job : CronJob) : Option Timer :=
  if job.enabled then job.nextRunAt.map (Timer.ofSchedule job.schedule) else none

structure RecoverableCronRun where
  scheduledAt : TimestampMs
  wakeAt : TimestampMs

inductive ExecutionResult where
  | success (conversationId : String)
  | retrying (attempt : Int)
  | skipped
  | error (message : String)

def RETRY_INTERVAL_MS : Int := 30000

/-- The row of the job and the timer that the scheduler holds for it. `nextOf` is the timing that
the row's next run was computed from. -/
structure JobState where
  row : CronJob
  timer : Option Timer
  nextOf : CronSchedule

/-- What a tick that has read the job awaits. -/
inductive TickStage where
  /-- `resolve_job_agent_type`. -/
  | resolve
  /-- `claim_run`. -/
  | claim
  /-- `get_recoverable_run`, for an occurrence that is claimed already. -/
  | duplicate
  /-- The preparation, the binding and the run of the agent. -/
  | execute
  /-- `finish_run`. -/
  | finish (result : ExecutionResult)
  /-- `get_by_id`, for `run_count`. -/
  | count (result : ExecutionResult)
  /-- The update of `update_job_after_success` and of `update_job_after_error`. -/
  | record (result : ExecutionResult) (runCount : Int)
  /-- The update of a skipped run, also that of `record_queue_busy_skip`. -/
  | skip
  /-- `defer_run`. -/
  | defer (attempt : Int)
  /-- The update of `retry_count`. -/
  | countRetry (attempt : Int)
  /-- `get_recoverable_run`. -/
  | reschedule
  /-- The update that disables an At job. -/
  | disable
  /-- The update of `next_run_at`. -/
  | advance (next : Option TimestampMs)

inductive TickCall where
  /-- `get_by_id`. -/
  | load (scheduledAt : TimestampMs)
  | past (scheduledAt : TimestampMs) (job : CronJob) (stage : TickStage)

/-- What the awaited call returns: an error, or the rows affected, the result of the claim, the run
found and the result of the execution, whichever the call returns; and the clock after it. -/
structure CronReply where
  failed : Bool
  affected : Bool
  claim : CronRunClaimResult
  recoverable : Option RecoverableCronRun
  result : ExecutionResult
  now : TimestampMs

/-- The run that `get_recoverable_run` has found; an error is logged. -/
def CronReply.found (reply : CronReply) : Option RecoverableCronRun :=
  if reply.failed then none else reply.recoverable

namespace JobState

/-- `repo.update`. -/
def updateRow (s : JobState) (failed : Bool) (params : UpdateCronJobParams) : JobState :=
  if failed then s else { s with row := s.row.update params }

/-- `update_job_after_success` and `update_job_after_error`, past the read of `run_count`. -/
def recordParams (result : ExecutionResult) (runCount : Int) (now : TimestampMs) :
    UpdateCronJobParams :=
  match result with
  | .error message =>
    { lastRunAt := some (some now), lastStatus := some (some .error),
      lastError := some (some message), retryCount := some 0, runCount := some (runCount + 1) }
  | .success _ | .retrying _ | .skipped =>
    { lastRunAt := some (some now), lastStatus := some (some .ok), lastError := some none,
      retryCount := some 0, runCount := some (runCount + 1) }

/-- A tick that has read the job goes on. -/
def pass (crates : CronCrates) (s : JobState) (scheduledAt : TimestampMs) (job : CronJob)
    (reply : CronReply) (stage : TickStage) : JobState × Option TickCall :=
  let go (stage : TickStage) : Option TickCall := some (.past scheduledAt job stage)
  match stage with
  | .resolve => if reply.failed || !job.enabled then (s, none) else (s, go .claim)
  | .claim =>
    if reply.failed then (s, none)
    else match reply.claim with
      | .claimed => (s, go .execute)
      | .duplicate => (s, go .duplicate)
      | .queueBusy => (s, go .skip)
  | .duplicate =>
    match reply.found with
    | some run => ({ s with timer := some (.occurrence run.scheduledAt run.wakeAt) }, none)
    | none => (s, go .reschedule)
  | .execute =>
    match reply.result with
    | .retrying attempt => (s, go (.defer attempt))
    | .success _ | .skipped | .error _ => (s, go (.finish reply.result))
  | .finish result =>
    if reply.failed || !reply.affected then (s, none)
    else match result with
      | .skipped => (s, go .skip)
      | .success _ | .error _ | .retrying _ => (s, go (.count result))
  | .count result =>
    if reply.failed then (s, go .reschedule) else (s, go (.record result s.row.runCount))
  | .record result runCount =>
    (s.updateRow reply.failed (recordParams result runCount reply.now), go .reschedule)
  | .skip =>
    (s.updateRow reply.failed { lastStatus := some (some .skipped), retryCount := some 0 },
      go .reschedule)
  | .defer attempt =>
    if reply.failed || !reply.affected then (s, none)
    else
      let nextRun := reply.now + RETRY_INTERVAL_MS
      ({ s with timer := some (.occurrence scheduledAt nextRun) }, go (.countRetry attempt))
  | .countRetry attempt => (s.updateRow reply.failed { retryCount := some attempt }, none)
  | .reschedule =>
    match reply.found with
    | some run => ({ s with timer := some (.occurrence run.scheduledAt run.wakeAt) }, none)
    | none =>
      if job.schedule.isAt then (s, go .disable)
      else
        let next := job.schedule.computeNextRunAfterOccurrence crates scheduledAt reply.now
        (s, go (.advance next))
  | .disable =>
    let s' := s.updateRow reply.failed { enabled := some false, nextRunAt := some none }
    ({ s' with timer := none, nextOf := if reply.failed then s.nextOf else job.schedule.timing },
      none)
  | .advance next =>
    let s' := s.updateRow reply.failed { nextRunAt := some next }
    let updated := { job with nextRunAt := next }
    ({ s' with
        timer := updated.timer
        nextOf := if reply.failed then s.nextOf else job.schedule.timing }, none)

/-- `tick`. -/
def tick (crates : CronCrates) (s : JobState) (reply : CronReply) :
    TickCall → JobState × Option TickCall
  | .load scheduledAt => (s, if reply.failed then none else some (.past scheduledAt s.row .resolve))
  | .past scheduledAt job stage => s.pass crates scheduledAt job reply stage

end JobState

structure UpdateCronJobRequest where
  enabled : Option Bool
  schedule : Option CronSchedule
  queueEnabled : Option Bool

namespace UpdateCronJobRequest

/-- Whether `update_job` computes the next run. -/
def setsNext (req : UpdateCronJobRequest) : Bool := req.schedule.isSome || req.enabled.isSome

/-- The job that `update_job` has read, with what the request sets. -/
def edit (req : UpdateCronJobRequest) (job : CronJob) : CronJob where
  enabled := req.enabled.getD job.enabled
  schedule := (req.schedule.map (·.fromDtoWithExistingTimezone job.schedule)).getD job.schedule
  nextRunAt := job.nextRunAt
  lastRunAt := job.lastRunAt
  lastStatus := job.lastStatus
  lastError := job.lastError
  runCount := job.runCount
  retryCount := job.retryCount
  queueEnabled := req.queueEnabled.getD job.queueEnabled

/-- `build_update_params`. -/
def params (req : UpdateCronJobRequest) (job : CronJob) : UpdateCronJobParams where
  enabled := req.enabled
  schedule := req.schedule.map fun _ => job.schedule
  nextRunAt := if req.setsNext then some job.nextRunAt else none
  queueEnabled := req.queueEnabled

end UpdateCronJobRequest

/-- A call of `update_job` that has read the row: before `repo.update`, or past it and before
`reschedule_job`. -/
structure UpdateCall where
  job : CronJob
  req : UpdateCronJobRequest
  written : Bool

namespace UpdateCall

def withNext (crates : CronCrates) (call : UpdateCall) (now : TimestampMs) : CronJob :=
  if call.req.setsNext then
    { call.job with nextRunAt := call.job.schedule.computeNextRun crates now }
  else call.job

end UpdateCall

/-- The job, its ticks and its edits. `loaded` is the job that the last tick has read, and `edited`
the enabled flag and the schedule of the row after the last update since then. -/
structure CronWorld where
  state : JobState
  ticks : List TickCall
  updates : List UpdateCall
  loaded : Option CronJob
  edited : Option (Bool × CronSchedule)

inductive CronStep where
  /-- The timer makes its next callback. -/
  | call (now : TimestampMs)
  | advance (k : ℕ) (reply : CronReply)
  | update (req : UpdateCronJobRequest)
  /-- The update is rejected or fails, unless it is `accepted`. -/
  | advanceUpdate (k : ℕ) (accepted : Bool) (now : TimestampMs)

namespace CronWorld

variable (crates : CronCrates)

def advanceUpdate (w : CronWorld) (k : ℕ) (call : UpdateCall) (accepted : Bool)
    (now : TimestampMs) : CronWorld :=
  if call.written then
    { w with
      state := { w.state with timer := call.job.timer }
      updates := Pool.proceed w.updates k [] }
  else if accepted then
    let job := call.withNext crates now
    let row := w.state.row.update (call.req.params job)
    { w with
      state := { w.state with
        row
        nextOf := if call.req.setsNext then job.schedule.timing else w.state.nextOf }
      updates := Pool.proceed w.updates k [{ call with job, written := true }]
      edited := some (row.enabled, row.schedule) }
  else { w with updates := Pool.proceed w.updates k [] }

def advance (w : CronWorld) (k : ℕ) (call : TickCall) (reply : CronReply) : CronWorld :=
  let result := w.state.tick crates reply call
  match call with
  | .load _ =>
    { w with
      state := result.1
      ticks := Pool.proceed w.ticks k result.2.toList
      loaded := some w.state.row
      edited := none }
  | .past _ _ _ =>
    { w with
      state := result.1
      ticks := Pool.proceed w.ticks k result.2.toList }

def fire (w : CronWorld) : CronStep → CronWorld
  | .call now =>
    match w.state.timer with
    | none => w
    | some timer =>
      if timer.live then
        { w with
          state := { w.state with timer := some (timer.called crates now) }
          ticks := w.ticks ++ [.load timer.scheduledAt] }
      else w
  | .advance k reply =>
    match w.ticks[k]? with
    | none => w
    | some call => w.advance crates k call reply
  | .update req =>
    if (req.schedule.map (·.fromDtoWithExistingTimezone w.state.row.schedule)).all
        (·.validate crates) then
      { w with updates := w.updates ++ [⟨req.edit w.state.row, req, false⟩] }
    else w
  | .advanceUpdate k accepted now =>
    match w.updates[k]? with
    | none => w
    | some call => w.advanceUpdate crates k call accepted now

end CronWorld

end AionCore.Cron
