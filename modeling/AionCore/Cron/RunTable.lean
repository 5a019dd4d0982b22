import AionCore.Lib.Machine
import AionCore.Team.WorkModel

/-!
# Cron: the table of scheduled runs

The `cron_job_runs` table of `sqlite_cron.rs` and the four statements that move a run:
`claim_run`, `renew_run_lease`, `defer_run` and `finish_run`. A run is keyed by its
occurrence, the job and the time for which it was scheduled; `claim_run` is one
transaction. The owner of a lease is a backend instance.
-/

namespace AionCore.Cron

open AionCore.Team (TimestampMs)

/-- The values that the table admits in its `status` column. -/
inductive RunStatus where
  | running
  | retrying
  | ok
  | error
  | skipped
  deriving DecidableEq

namespace RunStatus

/-- `status IN ('running', 'retrying')`. -/
def isActive : RunStatus → Bool
  | running | retrying => true
  | _ => false

end RunStatus

/-- `(job_id, scheduled_at)`. -/
structure Occurrence where
  jobId : String
  scheduledAt : TimestampMs
  deriving DecidableEq

/-- A row of the table, without the columns of its key. -/
structure CronJobRun where
  status : RunStatus
  ownerId : Option String
  leaseUntil : Option TimestampMs
  conversationId : Option String
  error : Option String
  startedAt : Option TimestampMs
  finishedAt : Option TimestampMs
  createdAt : TimestampMs
  updatedAt : TimestampMs

inductive CronRunClaimResult where
  | claimed
  | duplicate
  | queueBusy
  deriving DecidableEq

structure ClaimCronRunParams where
  occurrence : Occurrence
  ownerId : String
  now : TimestampMs
  leaseUntil : TimestampMs
  queueEnabled : Bool

structure FinishCronRunParams where
  occurrence : Occurrence
  ownerId : String
  status : RunStatus
  conversationId : Option String
  error : Option String
  finishedAt : TimestampMs

/-- The `cron_job_runs` table. -/
abbrev RunTable := Dict Occurrence CronJobRun

namespace RunTable

/-- `UPDATE .. WHERE job_id = ? AND scheduled_at = ? AND p`, and whether it affected a row. -/
def updateWhere (runs : RunTable) (o : Occurrence) (p : CronJobRun → Bool)
    (f : CronJobRun → CronJobRun) : RunTable × Bool :=
  (Dict.modify o (fun run => if p run then f run else run) runs, (runs.lookup o).any p)

/-- `status IN ('running', 'retrying') AND lease_until <= now`. -/
def expired (now : TimestampMs) (run : CronJobRun) : Bool :=
  run.status.isActive ∧ run.leaseUntil.any (· ≤ now)

/-- Whether a run of the job holds a lease, as `claim_run` looks for it. -/
def hasActiveRun (runs : RunTable) (jobId : String) (now : TimestampMs) : Bool :=
  runs.entries.any fun e =>
    e.1.jobId = jobId ∧ e.2.status.isActive ∧ e.2.leaseUntil.any (now < ·)

/-- The run that `claim_run` inserts when the queue of the job is busy. -/
def skippedRun (params : ClaimCronRunParams) : CronJobRun where
  status := .skipped
  ownerId := none
  leaseUntil := none
  conversationId := none
  error := none
  startedAt := none
  finishedAt := some params.now
  createdAt := params.now
  updatedAt := params.now

/-- The run that `claim_run` inserts for a new occurrence. -/
def claimedRun (params : ClaimCronRunParams) : CronJobRun where
  status := .running
  ownerId := some params.ownerId
  leaseUntil := some params.leaseUntil
  conversationId := none
  error := none
  startedAt := some params.now
  finishedAt := none
  createdAt := params.now
  updatedAt := params.now

def reclaimedRun (params : ClaimCronRunParams) (run : CronJobRun) : CronJobRun :=
  { run with
    status := .running
    ownerId := some params.ownerId
    leaseUntil := some params.leaseUntil
    startedAt := run.startedAt.or (some params.now)
    finishedAt := none
    error := none
    updatedAt := params.now }

def claimRun (runs : RunTable) (params : ClaimCronRunParams) : RunTable × CronRunClaimResult :=
  match runs.lookup params.occurrence with
  | some run =>
    if expired params.now run then
      match runs.updateWhere params.occurrence (expired params.now) (reclaimedRun params) with
      | (runs, true) => (runs, .claimed)
      | (runs, false) => (runs, .duplicate)
    else (runs, .duplicate)
  | none =>
    if params.queueEnabled ∧ runs.hasActiveRun params.occurrence.jobId params.now then
      (runs.insert params.occurrence (skippedRun params), .queueBusy)
    else (runs.insert params.occurrence (claimedRun params), .claimed)

/-- `status = 'running' AND owner_id = ?`. -/
def ownedBy (ownerId : String) (run : CronJobRun) : Bool :=
  run.status = .running ∧ run.ownerId = some ownerId

/-- `renew_run_lease`. -/
def renewRunLease (runs : RunTable) (o : Occurrence) (ownerId : String)
    (leaseUntil updatedAt : TimestampMs) : RunTable × Bool :=
  runs.updateWhere o (ownedBy ownerId) fun run =>
    { run with leaseUntil := some leaseUntil, updatedAt := updatedAt }

/-- `defer_run`. -/
def deferRun (runs : RunTable) (o : Occurrence) (ownerId : String)
    (retryAt updatedAt : TimestampMs) : RunTable × Bool :=
  runs.updateWhere o (ownedBy ownerId) fun run =>
    { run with
      status := .retrying
      ownerId := none
      leaseUntil := some retryAt
      updatedAt := updatedAt }

/-- `finish_run`. -/
def finishRun (runs : RunTable) (params : FinishCronRunParams) : RunTable × Bool :=
  runs.updateWhere params.occurrence (ownedBy params.ownerId) fun run =>
    { run with
      status := params.status
      conversationId := params.conversationId
      error := params.error
      leaseUntil := none
      finishedAt := some params.finishedAt
      updatedAt := params.finishedAt }

variable {runs : RunTable}

@[simp] theorem lookup_updateWhere (runs : RunTable) (o k : Occurrence) (p : CronJobRun → Bool)
    (f : CronJobRun → CronJobRun) :
    (runs.updateWhere o p f).1.lookup k =
      (runs.lookup k).map fun run => if k = o ∧ p run then f run else run := by
  rw [updateWhere, Dict.lookup_modify]
  by_cases hk : k = o
  · simp [hk]
  · simp [hk, Option.map_id']

theorem updateWhere_eq_self {o : Occurrence} {p : CronJobRun → Bool}
    (f : CronJobRun → CronJobRun) (h : (runs.lookup o).any p = false) :
    runs.updateWhere o p f = (runs, false) := by
  rw [updateWhere, h, Dict.modify_eq_self]
  intro run hrun
  rw [hrun, Option.any_some] at h
  rw [h, if_neg Bool.false_ne_true]

/-- What a claim does: it takes over an expired run, finds one that it may not touch, or
inserts one. -/
theorem claimRun_cases (runs : RunTable) (params : ClaimCronRunParams) :
    (∃ run, runs.lookup params.occurrence = some run ∧ expired params.now run ∧
      (runs.claimRun params).2 = .claimed ∧
      ∀ k, (runs.claimRun params).1.lookup k =
        if k = params.occurrence then some (reclaimedRun params run) else runs.lookup k) ∨
    (∃ run, runs.lookup params.occurrence = some run ∧ expired params.now run = false ∧
      runs.claimRun params = (runs, .duplicate)) ∨
    (runs.lookup params.occurrence = none ∧
      runs.claimRun params = (runs.insert params.occurrence (skippedRun params), .queueBusy)) ∨
    (runs.lookup params.occurrence = none ∧
      runs.claimRun params = (runs.insert params.occurrence (claimedRun params), .claimed)) := by
  rw [claimRun]
  cases hrun : runs.lookup params.occurrence with
  | some run =>
    by_cases hexpired : expired params.now run
    · -- the statement asks again what has just been read, in the same transaction
      have hany : (runs.lookup params.occurrence).any (expired params.now) = true := by
        rw [hrun, Option.any_some, hexpired]
      refine .inl ⟨run, rfl, hexpired, ?_, fun k => ?_⟩
      · simp only [hexpired, if_true, updateWhere, hany]
      · simp only [hexpired, if_true, updateWhere, hany, Dict.lookup_modify]
        by_cases hk : k = params.occurrence
        · subst hk
          simp [hrun, hexpired]
        · rw [if_neg hk, if_neg hk]
    · have hnot : expired params.now run = false := Bool.eq_false_iff.mpr hexpired
      refine .inr (.inl ⟨run, rfl, hnot, ?_⟩)
      simp only [hnot, Bool.false_eq_true, if_false]
  | none =>
    by_cases hbusy : params.queueEnabled ∧ runs.hasActiveRun params.occurrence.jobId params.now
    · exact .inr (.inr (.inl ⟨rfl, if_pos hbusy⟩))
    · exact .inr (.inr (.inr ⟨rfl, if_neg hbusy⟩))

end RunTable

end AionCore.Cron
