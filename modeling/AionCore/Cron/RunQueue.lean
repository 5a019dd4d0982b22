import AionCore.Cron.RunTable

/-!
# Cron: one run of a job at a time

A job in queue mode: every claim of the job passes `queue_enabled`. The calls on the table come
from any owners, for any occurrences, and read a clock that does not go back.
-/

namespace AionCore.Cron

open AionCore.Team (TimestampMs)
open RunTable

/-- The run is running under a lease that lasts beyond `t`. -/
def CronJobRun.live (t : TimestampMs) (run : CronJobRun) : Bool :=
  run.status = .running ∧ run.leaseUntil.any (t < ·)

inductive QueueCall where
  | claim (params : ClaimCronRunParams)
  | renew (o : Occurrence) (ownerId : String) (leaseUntil now : TimestampMs)
  | defer (o : Occurrence) (ownerId : String) (retryAt now : TimestampMs)
  | finish (params : FinishCronRunParams)

/-- The clock that the call has read. -/
def QueueCall.now : QueueCall → TimestampMs
  | claim params => params.now
  | renew _ _ _ now | defer _ _ _ now => now
  | finish params => params.finishedAt

/-- The table, and the clock of the last call. -/
structure RunQueue where
  runs : RunTable
  clock : TimestampMs

namespace RunQueue

def fire (w : RunQueue) (call : QueueCall) : RunQueue where
  runs := match call with
    | .claim params => (w.runs.claimRun params).1
    | .renew o ownerId leaseUntil now => (w.runs.renewRunLease o ownerId leaseUntil now).1
    | .defer o ownerId retryAt now => (w.runs.deferRun o ownerId retryAt now).1
    | .finish params => (w.runs.finishRun params).1
  clock := call.now

/-- Any calls; those that claim an occurrence of the job pass `queue_enabled`. -/
def machine (jobId : String) : Machine RunQueue QueueCall where
  start w := w.runs = ∅
  admits w call := w.clock ≤ call.now ∧
    match call with
    | .claim params => params.now < params.leaseUntil ∧
      (params.occurrence.jobId = jobId → params.queueEnabled = true)
    | .renew _ _ _ _ | .defer _ _ _ _ | .finish _ => True
  fire := fire

instance (jobId : String) (w : RunQueue) : ∀ call, Decidable ((machine jobId).admits w call)
  | .claim params => inferInstanceAs (Decidable (_ ∧ params.now < params.leaseUntil ∧
      (params.occurrence.jobId = jobId → params.queueEnabled = true)))
  | .renew _ _ _ _ | .defer _ _ _ _ | .finish _ => inferInstanceAs (Decidable (_ ∧ True))

/-- From now on no two occurrences of the job are running under a lease. -/
def OneRun (jobId : String) (w : RunQueue) : Prop :=
  ∀ t, w.clock ≤ t → ∀ o o' run run', o.jobId = jobId → o'.jobId = jobId →
    w.runs.lookup o = some run → w.runs.lookup o' = some run' → run.live t → run'.live t → o = o'

def resumes (w : RunQueue) : QueueCall → Option Occurrence
  | .claim params =>
    if (w.runs.lookup params.occurrence).any (expired params.now) then some params.occurrence
    else none
  | .renew o ownerId leaseUntil now =>
    if now < leaseUntil ∧ (w.runs.lookup o).any fun run => ownedBy ownerId run && !run.live now then
      some o
    else none
  | .defer _ _ _ _ | .finish _ => none

/-- A run of the job goes on only while no other one is running under a lease. -/
def Spaced (jobId : String) (w : RunQueue) (call : QueueCall) : Prop :=
  ∀ o ∈ w.resumes call, o.jobId = jobId → ∀ e ∈ w.runs.entries, e.1.jobId = jobId → e.1 ≠ o →
    e.2.live call.now = false

instance (jobId : String) (w : RunQueue) (call : QueueCall) : Decidable (w.Spaced jobId call) := by
  unfold Spaced
  infer_instance

variable {w : RunQueue} {jobId : String} {o : Occurrence} {call : QueueCall} {t : TimestampMs}
  {run : CronJobRun}

theorem live_iff :
    run.live t ↔ run.status = .running ∧ ∃ lease, run.leaseUntil = some lease ∧ t < lease := by
  rw [CronJobRun.live, decide_eq_true_eq, Option.any_eq_true]
  simp only [decide_eq_true_eq]

theorem live_mono {t t' : TimestampMs} (h : run.live t) (ht : t' ≤ t) :
    run.live t' := by
  obtain ⟨hst, lease, hsome, hlt⟩ := live_iff.mp h
  exact live_iff.mpr ⟨hst, lease, hsome, lt_of_le_of_lt ht hlt⟩

variable {runs : RunTable}

theorem hasActiveRun_of_live (hrun : runs.lookup o = some run) (hlive : run.live t) :
    runs.hasActiveRun o.jobId t := by
  obtain ⟨hst, lease, hsome, hlt⟩ := live_iff.mp hlive
  rw [hasActiveRun, List.any_eq_true]
  refine ⟨⟨o, run⟩, AList.mem_lookup_iff.mp hrun, ?_⟩
  simp [hst, RunStatus.isActive, hsome, hlt]

variable {params : ClaimCronRunParams}

theorem claimRun_inserts (hqueue : params.queueEnabled = true)
    (hnone : runs.lookup params.occurrence = none)
    (hclaimed : (runs.claimRun params).2 = .claimed) :
    runs.hasActiveRun params.occurrence.jobId params.now = false := by
  rw [Bool.eq_false_iff]
  intro hbusy
  rw [claimRun, hnone] at hclaimed
  rw [if_pos ⟨hqueue, hbusy⟩] at hclaimed
  cases hclaimed

theorem mem_resumes_claim : o ∈ w.resumes (.claim params) ↔
    params.occurrence = o ∧ (w.runs.lookup o).any (expired params.now) := by
  rw [resumes]
  split
  · rename_i hexpired
    rw [Option.mem_some_iff]
    exact ⟨fun ho => ⟨ho, ho ▸ hexpired⟩, And.left⟩
  · rename_i hexpired
    exact ⟨fun ho => (by cases ho), fun ho => absurd (ho.1 ▸ ho.2) hexpired⟩

variable {k : Occurrence}

theorem mem_resumes_renew {ownerId : String} {leaseUntil now : TimestampMs} :
    o ∈ w.resumes (.renew k ownerId leaseUntil now) ↔ k = o ∧ now < leaseUntil ∧
      (w.runs.lookup o).any fun run => ownedBy ownerId run && !run.live now := by
  rw [resumes]
  split
  · rename_i hover
    rw [Option.mem_some_iff]
    exact ⟨fun ho => ⟨ho, ho ▸ hover⟩, And.left⟩
  · rename_i hover
    exact ⟨fun ho => (by cases ho), fun ho => absurd (ho.1 ▸ ho.2) hover⟩

/-- How the occurrence that the call is for may come to run: it did before, the call makes it go
on, or the call inserts it. -/
inductive Runs (w : RunQueue) (o : Occurrence) (call : QueueCall) : Prop
  | before (run : CronJobRun) (found : w.runs.lookup o = some run) (live : run.live call.now)
  | resumed (resumes : o ∈ w.resumes call)
  | inserted (params : ClaimCronRunParams) (isClaim : call = .claim params)
    (isFor : params.occurrence = o)
    (free : params.queueEnabled = true → w.runs.hasActiveRun o.jobId params.now = false)

variable {run' : CronJobRun}

/-- A statement that changes a run keeps it running only where it was running. -/
theorem runs_of_update {p : CronJobRun → Bool} {f : CronJobRun → CronJobRun}
    (hfire : (w.fire call).runs = (w.runs.updateWhere k p f).1) (ht : call.now ≤ t)
    (hrun : (w.fire call).runs.lookup o = some run') (hlive : run'.live t)
    (hf : ∀ run, o = k → w.runs.lookup o = some run → p run = true → (f run).live t →
      w.Runs o call) :
    w.Runs o call := by
  rw [hfire, lookup_updateWhere, Option.map_eq_some_iff] at hrun
  obtain ⟨run, hrun, rfl⟩ := hrun
  split at hlive
  · rename_i hupdated
    exact hf run hupdated.1 hrun hupdated.2 hlive
  · exact .before run hrun (live_mono hlive ht)

theorem runs_of_live (ht : call.now ≤ t) (hrun : (w.fire call).runs.lookup o = some run')
    (hlive : run'.live t) : w.Runs o call := by
  cases call with
  | claim params =>
    change (w.runs.claimRun params).1.lookup o = some run' at hrun
    rcases w.runs.claimRun_cases params with ⟨old, hold, hexpired, -, hlookup⟩ | ⟨old, -, -, hsame⟩ |
      ⟨hnone, heq⟩ | ⟨hnone, heq⟩
    · rw [hlookup] at hrun
      by_cases ho : o = params.occurrence
      · refine .resumed (mem_resumes_claim.mpr ⟨ho.symm, ?_⟩)
        rw [ho, hold]
        exact hexpired
      · rw [if_neg ho] at hrun
        exact .before run' hrun (live_mono hlive ht)
    · rw [hsame] at hrun
      exact .before run' hrun (live_mono hlive ht)
    · rw [heq, Dict.lookup_insert'] at hrun
      by_cases ho : o = params.occurrence
      · rw [if_pos ho] at hrun
        obtain rfl := Option.some.inj hrun
        cases (live_iff.mp hlive).1
      · rw [if_neg ho] at hrun
        exact .before run' hrun (live_mono hlive ht)
    · by_cases ho : o = params.occurrence
      · subst ho
        exact .inserted params rfl rfl fun hqueue => claimRun_inserts hqueue hnone (by rw [heq])
      · rw [heq, Dict.lookup_insert', if_neg ho] at hrun
        exact .before run' hrun (live_mono hlive ht)
  | renew k ownerId leaseUntil now =>
    refine runs_of_update (k := k) (p := ownedBy ownerId)
      (f := fun run => { run with leaseUntil := some leaseUntil, updatedAt := now }) rfl ht hrun hlive
      fun run ho hrun howned hlive => ?_
    by_cases hnow : run.live now
    · exact .before run hrun hnow
    · obtain ⟨-, lease, hlease, hlt⟩ := live_iff.mp hlive
      obtain rfl := Option.some.inj hlease
      refine .resumed (mem_resumes_renew.mpr ⟨ho.symm, lt_of_le_of_lt ht hlt, ?_⟩)
      simp [hrun, howned, hnow]
  | defer k ownerId retryAt now =>
    refine runs_of_update (k := k) (p := ownedBy ownerId)
      (f := fun run => { run with
        status := .retrying, ownerId := none, leaseUntil := some retryAt, updatedAt := now })
      rfl ht hrun hlive fun run _ _ _ hlive => ?_
    cases (live_iff.mp hlive).1
  | finish params =>
    refine runs_of_update (k := params.occurrence) (p := ownedBy params.ownerId)
      (f := fun run => { run with
        status := params.status
        conversationId := params.conversationId
        error := params.error
        leaseUntil := none
        finishedAt := some params.finishedAt
        updatedAt := params.finishedAt }) rfl ht hrun hlive fun run _ _ _ hlive => ?_
    obtain ⟨-, lease, hlease, -⟩ := live_iff.mp hlive
    cases hlease

/-- A run that the call makes go on is running afterwards, and the other runs stay. -/
theorem live_of_resumes (h : o ∈ w.resumes call) (hcall : (machine jobId).admits w call) :
    (∃ run, (w.fire call).runs.lookup o = some run ∧ run.live call.now) ∧
      ∀ o', o' ≠ o → (w.fire call).runs.lookup o' = w.runs.lookup o' := by
  cases call with
  | claim params =>
    obtain ⟨rfl, hany⟩ := mem_resumes_claim.mp h
    obtain ⟨run, hrun, hexpired⟩ := (Option.any_eq_true _ _).mp hany
    rcases w.runs.claimRun_cases params with ⟨old, hold, -, -, hlookup⟩ | ⟨old, hold, hnot, -⟩ |
      ⟨hnone, -⟩ | ⟨hnone, -⟩
    · refine ⟨⟨_, (hlookup _).trans (if_pos rfl), ?_⟩, fun o' ho' => (hlookup o').trans (if_neg ho')⟩
      exact live_iff.mpr ⟨rfl, _, rfl, hcall.2.1⟩
    · rw [hrun] at hold
      obtain rfl := Option.some.inj hold
      rw [hexpired] at hnot
      cases hnot
    all_goals
      rw [hrun] at hnone
      cases hnone
  | renew k ownerId leaseUntil now =>
    obtain ⟨rfl, hlt, hany⟩ := mem_resumes_renew.mp h
    obtain ⟨run, hrun, howned⟩ := (Option.any_eq_true _ _).mp hany
    obtain ⟨howned, -⟩ := Bool.and_eq_true_iff.mp howned
    have hlookup : ∀ o', (w.fire (.renew k ownerId leaseUntil now)).runs.lookup o' =
        (w.runs.lookup o').map fun run => if o' = k ∧ ownedBy ownerId run then
          { run with leaseUntil := some leaseUntil, updatedAt := now } else run :=
      fun o' => lookup_updateWhere w.runs k o' _ _
    refine ⟨⟨{ run with leaseUntil := some leaseUntil, updatedAt := now }, ?_, ?_⟩, fun o' ho' => ?_⟩
    · rw [hlookup, hrun, Option.map_some, if_pos ⟨rfl, howned⟩]
    · exact live_iff.mpr ⟨(of_decide_eq_true howned).1, _, rfl, hlt⟩
    · rw [hlookup]
      simp [ho']
  | defer _ _ _ _ | finish _ => cases h

/-- An occurrence that runs beside one that the call has inserted is that one. -/
theorem eq_of_inserted {o' : Occurrence} (hcall : (machine jobId).admits w (.claim params))
    (ho : params.occurrence.jobId = jobId) (ho' : o'.jobId = jobId)
    (hfree : params.queueEnabled = true →
      w.runs.hasActiveRun params.occurrence.jobId params.now = false)
    (h : w.Runs o' (.claim params)) : params.occurrence = o' := by
  cases h with
  | before run found live =>
    have hbusy := hasActiveRun_of_live found live
    rw [ho', ← ho] at hbusy
    exact absurd hbusy (Bool.eq_false_iff.mp (hfree (hcall.2.2 ho)))
  | resumed resumes => exact (mem_resumes_claim.mp resumes).1
  | inserted params' isClaim isFor =>
    obtain rfl := QueueCall.claim.inj isClaim
    exact isFor

/-- The next call keeps one run at a time exactly if it resumes a run only while no other one is
running. -/
theorem oneRun_fire_iff (h : w.OneRun jobId) (hcall : (machine jobId).admits w call) :
    (w.fire call).OneRun jobId ↔ w.Spaced jobId call := by
  constructor
  · rintro hone o hresumes ho ⟨o', run'⟩ hrun' ho' hne
    rw [Bool.eq_false_iff]
    intro hlive'
    obtain ⟨⟨run, hrun, hlive⟩, hothers⟩ := live_of_resumes hresumes hcall
    have hrun' := AList.mem_lookup_iff.mpr hrun'
    rw [← hothers o' hne] at hrun'
    exact hne (hone call.now le_rfl o' o run' run ho' ho hrun' hrun hlive' hlive)
  · intro hspaced t ht o o' run run' ho ho' hrun hrun' hlive hlive'
    have hruns := runs_of_live ht hrun hlive
    have hruns' := runs_of_live ht hrun' hlive'
    cases hruns with
    | inserted params isClaim isFor free =>
      subst isClaim isFor
      exact eq_of_inserted hcall ho ho' free hruns'
    | before old found live =>
      cases hruns' with
      | before old' found' live' =>
        exact h call.now hcall.1 o o' old old' ho ho' found found' live live'
      | resumed resumes =>
        by_contra hne
        rw [hspaced o' resumes ho' ⟨o, old⟩ (AList.mem_lookup_iff.mp found) ho hne] at live
        cases live
      | inserted params isClaim isFor free =>
        subst isClaim isFor
        exact (eq_of_inserted hcall ho' ho free (.before old found live)).symm
    | resumed resumes =>
      cases hruns' with
      | before old' found' live' =>
        by_contra hne
        rw [hspaced o resumes ho ⟨o', old'⟩ (AList.mem_lookup_iff.mp found') ho' (Ne.symm hne)] at live'
        cases live'
      | resumed resumes' => exact Option.mem_unique resumes resumes'
      | inserted params isClaim isFor free =>
        subst isClaim isFor
        exact (mem_resumes_claim.mp resumes).1.symm

theorem oneRun_of_empty (h : w.runs = ∅) : w.OneRun jobId := by
  intro t _ o o' run run' _ _ hrun
  rw [h] at hrun
  cases hrun

/-- As long as a run of the job whose lease is over goes on only while no other one is running, at
most one occurrence of the job is running at a time; and the next call keeps that exactly if it
goes on in this way too. -/
theorem one_run_at_a_time (h : ((machine jobId).restrict (Spaced jobId)).Reachable w) :
    w.OneRun jobId ∧ ∀ call, (machine jobId).admits w call →
      ((w.fire call).OneRun jobId ↔ w.Spaced jobId call) :=
  Machine.Reachable.exact (P := OneRun jobId) (C := Spaced jobId) (fun _ hw => oneRun_of_empty hw)
    (fun _ _ _ hone hcall => oneRun_fire_iff hone hcall) h

/-- A run that is deferred and claimed again, with the next occurrence skipped meanwhile. -/
def deferred : List QueueCall :=
  [.claim ⟨⟨"job", 0⟩, "a", 0, 60000, true⟩, .renew ⟨"job", 0⟩ "a" 90000 30000,
    .defer ⟨"job", 0⟩ "a" 70000 40000, .claim ⟨⟨"job", 60000⟩, "a", 60000, 120000, true⟩,
    .claim ⟨⟨"job", 0⟩, "b", 70000, 130000, true⟩]

theorem one_run_at_a_time_sample :
    OneRun "job" ((machine "job").run ⟨∅, 0⟩ deferred) ∧
      ((machine "job").run ⟨∅, 0⟩ deferred).runs.lookup ⟨"job", 0⟩ ≠ none :=
  ⟨(one_run_at_a_time (Machine.reachable_run (M := (machine "job").restrict (Spaced "job"))
    (s := ⟨∅, 0⟩) rfl (by decide))).1, by decide⟩

def lateHeartbeat : List QueueCall :=
  [.claim ⟨⟨"job", 0⟩, "a", 0, 60000, true⟩, .claim ⟨⟨"job", 60000⟩, "a", 60000, 120000, true⟩,
    .renew ⟨"job", 0⟩ "a" 120001 60001]

theorem two_runs_at_a_time : ¬∀ w : RunQueue, (machine "job").Reachable w → w.OneRun "job" := by
  intro h
  have hone := h ((machine "job").run ⟨∅, 0⟩ lateHeartbeat) (Machine.reachable_run rfl (by decide))
  have heq := hone 60001 (by decide) ⟨"job", 0⟩ ⟨"job", 60000⟩ _ _ rfl rfl rfl rfl (by decide)
    (by decide)
  revert heq
  decide

end RunQueue

end AionCore.Cron
