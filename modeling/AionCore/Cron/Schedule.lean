import AionCore.Team.WorkModel

/-!
# Cron: schedules and timers

The schedules of `types.rs` with the next runs of `scheduler.rs`, and the one timer that
`CronScheduler` holds for a job. Cron expressions and time zones are read by the crates that the
scheduler calls.
-/

namespace AionCore.Cron

open AionCore.Team (TimestampMs)

inductive CronSchedule where
  | atTime (atMs : TimestampMs) (description : Option String)
  | every (everyMs : Int) (description : Option String)
  | cron (expr : String) (tz : Option String) (description : Option String)
  deriving DecidableEq

/-- `compute_cron_next_run` and what `validate_schedule` asks of an expression that is not blank:
both call the crates. -/
structure CronCrates where
  nextRun : String → Option String → TimestampMs → Option TimestampMs
  valid : String → Option String → Bool

namespace CronSchedule

def isAt : CronSchedule → Bool
  | atTime _ _ => true
  | every _ _ | cron _ _ _ => false

def timing : CronSchedule → CronSchedule
  | atTime atMs _ => atTime atMs none
  | every everyMs _ => every everyMs none
  | cron expr tz _ => cron expr tz none

/-- `schedule_from_dto_with_existing_timezone`; the DTO has the schedule's fields. -/
def fromDtoWithExistingTimezone (dto existing : CronSchedule) : CronSchedule :=
  match dto with
  | cron expr tz description =>
    cron expr (tz <|> match existing with
      | cron _ tz _ => tz
      | atTime _ _ | every _ _ => none) description
  | atTime _ _ | every _ _ => dto

variable (crates : CronCrates)

/-- `validate_schedule`. -/
def validate : CronSchedule → Bool
  | atTime _ _ => true
  | every everyMs _ => 0 < everyMs
  | cron expr tz _ => expr.all Char.isWhitespace || crates.valid expr tz

def computeNextRun (schedule : CronSchedule) (now : TimestampMs) : Option TimestampMs :=
  match schedule with
  | atTime atMs _ => some atMs
  | every everyMs _ => if everyMs ≤ 0 then none else some (now + everyMs)
  | cron expr tz _ => crates.nextRun expr tz now

/-- The result of an `i64` operation that is checked for overflow. -/
def checked (n : Int) : Option Int :=
  if -9223372036854775808 ≤ n ∧ n ≤ 9223372036854775807 then some n else none

/-- `i64::saturating_sub`. -/
def saturatingSub (a b : Int) : Int :=
  max (-9223372036854775808) (min (a - b) 9223372036854775807)

def computeNextRunAfterOccurrence (schedule : CronSchedule) (scheduledAt now : TimestampMs) :
    Option TimestampMs :=
  match schedule with
  | atTime _ _ => none
  | every everyMs _ =>
    if everyMs ≤ 0 then none
    else
      let elapsed := saturatingSub now scheduledAt
      let steps := elapsed / everyMs + 1
      (checked (steps * everyMs)).bind fun span => checked (scheduledAt + span)
  | cron expr tz _ => crates.nextRun expr tz (max now scheduledAt)

end CronSchedule

/-- What a timer does after its callback. -/
inductive TimerLoop where
  /-- `spawn_at_timer` and `spawn_occurrence_timer`. -/
  | once
  | every (everyMs : Int)
  | cron (expr : String) (tz : Option String)
  deriving DecidableEq

/-- A timer and its next callback; it is live until it has made the last one. -/
structure Timer where
  loop : TimerLoop
  scheduledAt : TimestampMs
  runAt : TimestampMs
  live : Bool
  deriving DecidableEq

namespace Timer

/-- `spawn_occurrence_timer`. -/
def occurrence (scheduledAt runAt : TimestampMs) : Timer := ⟨.once, scheduledAt, runAt, true⟩

/-- The timer of `schedule_job` for a schedule and its next run. -/
def ofSchedule (schedule : CronSchedule) (nextRunAt : TimestampMs) : Timer :=
  match schedule with
  | .atTime _ _ => occurrence nextRunAt nextRunAt
  | .every everyMs _ => ⟨.every everyMs, nextRunAt, nextRunAt, true⟩
  | .cron expr tz _ => ⟨.cron expr tz, nextRunAt, nextRunAt, true⟩

def called (crates : CronCrates) (timer : Timer) (now : TimestampMs) : Timer :=
  match timer.loop with
  | .once => { timer with live := false }
  | .every everyMs =>
    { timer with scheduledAt := timer.scheduledAt + everyMs, runAt := timer.runAt + everyMs }
  | .cron expr tz =>
    match crates.nextRun expr tz now with
    | some next => { timer with scheduledAt := next, runAt := next }
    | none => { timer with live := false }

end Timer

theorem CronSchedule.isAt_timing (schedule : CronSchedule) :
    schedule.timing.isAt = schedule.isAt := by
  cases schedule <;> rfl

theorem Timer.ofSchedule_timing (schedule : CronSchedule) (nextRunAt : TimestampMs) :
    ofSchedule schedule.timing nextRunAt = ofSchedule schedule nextRunAt := by
  cases schedule <;> rfl

theorem Timer.ofSchedule_congr {schedule schedule' : CronSchedule}
    (h : schedule.timing = schedule'.timing) : ofSchedule schedule = ofSchedule schedule' := by
  funext nextRunAt
  rw [← ofSchedule_timing schedule, h, ofSchedule_timing]

theorem Timer.ofSchedule_live (schedule : CronSchedule) (nextRunAt : TimestampMs) :
    (ofSchedule schedule nextRunAt).live = true := by
  cases schedule <;> rfl

end AionCore.Cron
