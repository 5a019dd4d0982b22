import AionCore.Cron.RunTable

/-!
# Cron: leases and the executions that hold them

An execution begins with a claim that returned `Claimed` and then renews, defers or
finishes the run of its occurrence, interleaved with any number of others. The clock
values of the calls are arbitrary.
-/

namespace AionCore.Cron

/-- An execution: the occurrence it claimed and the instance it runs in. -/
structure Execution where
  occurrence : Occurrence
  ownerId : String
  deriving DecidableEq

/-- The table with its history: the executions in the order of their claims, and the
occurrences for which `finish_run` returned true. -/
structure RunHistory where
  runs : RunTable
  executions : List Execution
  finished : List Occurrence

/-- A call of an execution or of one that is about to begin. -/
inductive RunCall where
  | claim (params : ClaimCronRunParams)
  | renew (execution : Execution) (leaseUntil updatedAt : Team.TimestampMs)
  | defer (execution : Execution) (retryAt updatedAt : Team.TimestampMs)
  | finish (execution : Execution) (status : RunStatus) (conversationId error : Option String)
      (finishedAt : Team.TimestampMs)

namespace RunHistory

open RunTable

def empty : RunHistory := ⟨∅, [], []⟩

/-- The execution that claimed the occurrence last. -/
def latest (w : RunHistory) (o : Occurrence) : Option Execution :=
  (w.executions.filter (·.occurrence = o)).getLast?

/-- The occurrence has a run that is over. -/
def Settled (w : RunHistory) (o : Occurrence) : Prop :=
  ∃ run, w.runs.lookup o = some run ∧ run.status.isActive = false

/-- The calls of the execution find nothing to change and say so. -/
def Fenced (w : RunHistory) (e : Execution) : Prop :=
  (∀ leaseUntil updatedAt,
    w.runs.renewRunLease e.occurrence e.ownerId leaseUntil updatedAt = (w.runs, false)) ∧
  (∀ retryAt updatedAt,
    w.runs.deferRun e.occurrence e.ownerId retryAt updatedAt = (w.runs, false)) ∧
  ∀ status conversationId error finishedAt, w.runs.finishRun
    ⟨e.occurrence, e.ownerId, status, conversationId, error, finishedAt⟩ = (w.runs, false)

def fire (w : RunHistory) : RunCall → RunHistory
  | .claim params =>
    let (runs, result) := w.runs.claimRun params
    { w with
      runs := runs
      executions := if result = .claimed then
        w.executions ++ [⟨params.occurrence, params.ownerId⟩] else w.executions }
  | .renew e leaseUntil updatedAt =>
    { w with runs := (w.runs.renewRunLease e.occurrence e.ownerId leaseUntil updatedAt).1 }
  | .defer e retryAt updatedAt =>
    { w with runs := (w.runs.deferRun e.occurrence e.ownerId retryAt updatedAt).1 }
  | .finish e status conversationId error finishedAt =>
    let (runs, done) := w.runs.finishRun
      ⟨e.occurrence, e.ownerId, status, conversationId, error, finishedAt⟩
    { w with
      runs := runs
      finished := if done then w.finished ++ [e.occurrence] else w.finished }

/-- Any number of executions in any order. A run is finished under a status that ends it:
the service passes `ok`, `error` or `skipped`. -/
def machine : Machine RunHistory RunCall where
  start w := w = .empty
  admits w
    | .claim _ => True
    | .renew e _ _ | .defer e _ _ => e ∈ w.executions
    | .finish e status _ _ _ => e ∈ w.executions ∧ status.isActive = false
  fire := fire

instance (w : RunHistory) (call : RunCall) : Decidable (machine.admits w call) := by
  cases call <;> (simp only [machine]; infer_instance)

variable {w w' : RunHistory} {o : Occurrence} {call : RunCall} {f : CronJobRun → CronJobRun}
  {runs : RunTable} {run : CronJobRun}

theorem lookup_updateOwned {k : Occurrence} {ownerId : String} (hrun : runs.lookup o = some run)
    (hover : run.status.isActive = false) :
    (runs.updateWhere k (ownedBy ownerId) f).1.lookup o = some run := by
  have hnot : ownedBy ownerId run = false := by
    cases hst : run.status <;> simp_all [ownedBy, RunStatus.isActive]
  simp [hrun, hnot]

/-- A claim leaves a settled run alone and is told that it is a duplicate. -/
theorem lookup_claimRun (params : ClaimCronRunParams) (hrun : runs.lookup o = some run)
    (hover : run.status.isActive = false) :
    (runs.claimRun params).1.lookup o = some run ∧
      (params.occurrence = o → (runs.claimRun params).2 = .duplicate) := by
  have hother : params.occurrence = o → ∀ {run'}, runs.lookup params.occurrence = some run' →
      run' = run := by
    intro ho run' hrun'
    rw [ho, hrun] at hrun'
    exact (Option.some.inj hrun').symm
  rcases runs.claimRun_cases params with ⟨run', hrun', hexp, -, hlookup⟩ | ⟨run', -, -, hsame⟩ |
    ⟨hnone, heq⟩ | ⟨hnone, heq⟩
  · have hne : params.occurrence ≠ o := by
      intro ho
      rw [hother ho hrun'] at hexp
      simp [expired, hover] at hexp
    rw [hlookup, if_neg (Ne.symm hne)]
    exact ⟨hrun, fun ho => absurd ho hne⟩
  · rw [hsame]
    exact ⟨hrun, fun _ => rfl⟩
  all_goals
    have hne : params.occurrence ≠ o := by
      rintro rfl
      rw [hrun] at hnone
      cases hnone
    rw [heq, AList.lookup_insert_ne (Ne.symm hne)]
    exact ⟨hrun, fun ho => absurd ho hne⟩

theorem Settled.fire (h : w.Settled o) (call : RunCall) : (w.fire call).Settled o := by
  obtain ⟨run, hrun, hover⟩ := h
  refine ⟨run, ?_, hover⟩
  cases call with
  | claim params => exact (lookup_claimRun params hrun hover).1
  | renew e leaseUntil updatedAt => exact lookup_updateOwned hrun hover
  | defer e retryAt updatedAt => exact lookup_updateOwned hrun hover
  | finish e status conversationId error finishedAt => exact lookup_updateOwned hrun hover

/-- The occurrences that were finished have a run that is over, and are listed once. -/
structure FinishedOnce (w : RunHistory) : Prop where
  nodup : w.finished.Nodup
  settled : ∀ o ∈ w.finished, w.Settled o

/-- Only a running run is finished, and it is over from then on. -/
theorem FinishedOnce.step (h : w.FinishedOnce) (hcall : machine.admits w call) :
    (w.fire call).FinishedOnce := by
  cases call with
  | claim params => exact ⟨h.nodup, fun o ho => (h.settled o ho).fire (.claim params)⟩
  | renew e leaseUntil updatedAt =>
    exact ⟨h.nodup, fun o ho => (h.settled o ho).fire (.renew e leaseUntil updatedAt)⟩
  | defer e retryAt updatedAt =>
    exact ⟨h.nodup, fun o ho => (h.settled o ho).fire (.defer e retryAt updatedAt)⟩
  | finish e status conversationId error finishedAt =>
    let call := RunCall.finish e status conversationId error finishedAt
    have hold : ∀ o ∈ w.finished, (w.fire call).Settled o := fun o ho =>
      (h.settled o ho).fire call
    cases hrun : (w.runs.lookup e.occurrence).any (ownedBy e.ownerId) with
    | false =>
      have hfinished : (w.fire call).finished = w.finished := by
        simp only [call, RunHistory.fire, finishRun, updateWhere, hrun, Bool.false_eq_true, if_false]
      exact ⟨hfinished ▸ h.nodup, fun o ho => hold o (hfinished ▸ ho)⟩
    | true =>
      have hfinished : (w.fire call).finished = w.finished ++ [e.occurrence] := by
        simp only [call, RunHistory.fire, finishRun, updateWhere, hrun, if_true]
      obtain ⟨run, hlookup, howned⟩ := (Option.any_eq_true _ _).mp hrun
      have hnew : e.occurrence ∉ w.finished := by
        intro hmem
        obtain ⟨run', hrun', hover⟩ := h.settled _ hmem
        rw [hlookup] at hrun'
        obtain rfl := Option.some.inj hrun'
        have hst := (decide_eq_true_eq.mp howned).1
        rw [hst] at hover
        cases hover
      constructor
      · rw [hfinished]
        exact List.nodup_append.mpr ⟨h.nodup, List.nodup_singleton _, by
          rintro a ha b hb rfl
          exact hnew (List.mem_singleton.mp hb ▸ ha)⟩
      · intro o ho
        rw [hfinished, List.mem_append, List.mem_singleton] at ho
        rcases ho with ho | rfl
        · exact hold o ho
        · refine ⟨{ run with
              status := status
              conversationId := conversationId
              error := error
              leaseUntil := none
              finishedAt := some finishedAt
              updatedAt := finishedAt }, ?_, hcall.2⟩
          simp only [RunHistory.fire, finishRun, lookup_updateWhere, hlookup, Option.map_some, howned,
            and_self, if_true]

def OwnedByLatest (w : RunHistory) : Prop :=
  ∀ o run, w.runs.lookup o = some run → run.status = .running →
    ∃ f, w.latest o = some f ∧ run.ownerId = some f.ownerId

/-- A statement of an execution keeps the owner of every run that is still running. -/
theorem OwnedByLatest.update (h : w.OwnedByLatest) (k : Occurrence) (ownerId : String)
    (hw : w'.runs = (w.runs.updateWhere k (ownedBy ownerId) f).1)
    (hexecutions : w'.executions = w.executions)
    (hf : ∀ run, (f run).status = .running → (f run).ownerId = run.ownerId) :
    w'.OwnedByLatest := by
  intro o run' hrun' hst
  rw [hw, lookup_updateWhere, Option.map_eq_some_iff] at hrun'
  obtain ⟨run, hrun, rfl⟩ := hrun'
  rw [latest, hexecutions]
  split at hst
  · rename_i hupdated
    rw [if_pos hupdated, hf run hst]
    exact h o run hrun (decide_eq_true_eq.mp hupdated.2).1
  · rename_i hkept
    rw [if_neg hkept]
    exact h o run hrun hst

theorem latest_claimed {params : ClaimCronRunParams}
    (h : (w.runs.claimRun params).2 = .claimed) (o : Occurrence) :
    (w.fire (.claim params)).latest o = if params.occurrence = o then
      some ⟨params.occurrence, params.ownerId⟩ else w.latest o := by
  simp only [latest, RunHistory.fire, h, if_true, List.filter_append]
  by_cases ho : params.occurrence = o
  · simp [ho]
  · simp [ho]

theorem fire_claim_executions (params : ClaimCronRunParams)
    (h : (w.runs.claimRun params).2 ≠ .claimed) :
    (w.fire (.claim params)).executions = w.executions := by
  simp only [RunHistory.fire, h, if_false]

/-- A claim hands a running run to the instance that makes it, or leaves its owner. -/
theorem OwnedByLatest.claim (h : w.OwnedByLatest) (params : ClaimCronRunParams) :
    (w.fire (.claim params)).OwnedByLatest := by
  intro o run hrun hst
  change (w.runs.claimRun params).1.lookup o = some run at hrun
  rcases w.runs.claimRun_cases params with ⟨old, -, -, hclaimed, hlookup⟩ | ⟨old, -, -, hsame⟩ |
    ⟨hnone, heq⟩ | ⟨hnone, heq⟩
  · rw [latest_claimed hclaimed]
    rw [hlookup] at hrun
    by_cases ho : o = params.occurrence
    · rw [if_pos ho] at hrun
      obtain rfl := Option.some.inj hrun
      exact ⟨_, if_pos ho.symm, rfl⟩
    · rw [if_neg ho] at hrun
      rw [if_neg (Ne.symm ho)]
      exact h o run hrun hst
  · have hkept := fire_claim_executions (w := w) params (by simp [hsame])
    rw [hsame] at hrun
    rw [latest, hkept]
    exact h o run hrun hst
  · have hkept := fire_claim_executions (w := w) params (by simp [heq])
    rw [heq, Dict.lookup_insert'] at hrun
    rw [latest, hkept]
    by_cases ho : o = params.occurrence
    · rw [if_pos ho] at hrun
      obtain rfl := Option.some.inj hrun
      cases hst
    · rw [if_neg ho] at hrun
      exact h o run hrun hst
  · rw [latest_claimed (by rw [heq])]
    rw [heq, Dict.lookup_insert'] at hrun
    by_cases ho : o = params.occurrence
    · rw [if_pos ho] at hrun
      obtain rfl := Option.some.inj hrun
      exact ⟨_, if_pos ho.symm, rfl⟩
    · rw [if_neg ho] at hrun
      rw [if_neg (Ne.symm ho)]
      exact h o run hrun hst

theorem OwnedByLatest.fire (h : w.OwnedByLatest) (call : RunCall) :
    (w.fire call).OwnedByLatest := by
  cases call with
  | claim params => exact h.claim params
  | renew e leaseUntil updatedAt =>
    exact h.update e.occurrence e.ownerId
      (f := fun run => { run with leaseUntil := some leaseUntil, updatedAt := updatedAt })
      rfl rfl fun _ _ => rfl
  | defer e retryAt updatedAt =>
    refine h.update e.occurrence e.ownerId
      (f := fun run => { run with
        status := .retrying, ownerId := none, leaseUntil := some retryAt, updatedAt := updatedAt })
      rfl rfl fun _ hst => ?_
    cases hst
  | finish e status conversationId error finishedAt =>
    exact h.update e.occurrence e.ownerId
      (f := fun run => { run with
        status := status
        conversationId := conversationId
        error := error
        leaseUntil := none
        finishedAt := some finishedAt
        updatedAt := finishedAt }) rfl rfl fun _ _ => rfl

/-- An execution whose occurrence was last claimed by another instance is fenced. -/
theorem OwnedByLatest.fenced (h : w.OwnedByLatest) {e f : Execution}
    (hlatest : w.latest e.occurrence = some f) (hother : f.ownerId ≠ e.ownerId) : w.Fenced e := by
  have hnone : (w.runs.lookup e.occurrence).any (ownedBy e.ownerId) = false := by
    rw [Bool.eq_false_iff]
    intro hany
    obtain ⟨run, hrun, howned⟩ := (Option.any_eq_true _ _).mp hany
    obtain ⟨hst, howner⟩ := decide_eq_true_eq.mp howned
    obtain ⟨g, hg, hgowner⟩ := h _ run hrun hst
    rw [hlatest] at hg
    obtain rfl := Option.some.inj hg
    rw [howner] at hgowner
    exact hother (Option.some.inj hgowner).symm
  exact ⟨fun _ _ => updateWhere_eq_self _ hnone, fun _ _ => updateWhere_eq_self _ hnone,
    fun _ _ _ _ => updateWhere_eq_self _ hnone⟩

theorem finishedOnce_of_reachable (h : machine.Reachable w) : w.FinishedOnce :=
  h.invariant (fun w hw => by
    obtain rfl : w = .empty := hw
    exact ⟨List.nodup_nil, fun o ho => absurd ho (List.not_mem_nil)⟩) fun _ _ hs hi => hs.step hi

theorem ownedByLatest_of_reachable (h : machine.Reachable w) : w.OwnedByLatest :=
  h.invariant (fun w hw => by
    obtain rfl : w = .empty := hw
    intro o run hrun
    cases hrun) fun _ call hs _ => hs.fire call

/-- An occurrence is finished at most once, one that is finished or skipped is never claimed
again, and an execution whose occurrence was last claimed by another backend instance
finds nothing to renew, to defer or to finish. -/
theorem leases_fence_other_instances (h : machine.Reachable w) :
    w.finished.Nodup ∧ (∀ o ∈ w.finished, w.Settled o) ∧
      (∀ o, w.Settled o → ∀ w', machine.Reaches w w' → w'.Settled o ∧
        ∀ params, params.occurrence = o → (w'.runs.claimRun params).2 ≠ .claimed) ∧
      ∀ e ∈ w.executions, ∀ f, w.latest e.occurrence = some f → f.ownerId ≠ e.ownerId →
        w.Fenced e := by
  have hfinished := finishedOnce_of_reachable h
  refine ⟨hfinished.nodup, hfinished.settled, fun o ho w' hw' => ?_,
    fun e _ f hf hother => (ownedByLatest_of_reachable h).fenced hf hother⟩
  have hsettled : w'.Settled o :=
    hw'.preserves (P := fun w => w.Settled o) (fun _ call hs _ => hs.fire call) ho
  refine ⟨hsettled, fun params hparams => ?_⟩
  obtain ⟨run, hrun, hover⟩ := hsettled
  rw [(lookup_claimRun params hrun hover).2 hparams]
  decide

/-- A run of two instances: the second takes the occurrence over when the lease of the
first has expired, and finishes it. -/
def takeover : List RunCall :=
  [.claim ⟨⟨"job", 0⟩, "a", 0, 60000, true⟩, .claim ⟨⟨"job", 0⟩, "b", 60000, 120000, true⟩,
    .renew ⟨⟨"job", 0⟩, "a"⟩ 130000 70000, .finish ⟨⟨"job", 0⟩, "b"⟩ .ok none none 70000]

theorem leases_fence_other_instances_sample :
    (machine.run .empty takeover).Fenced ⟨⟨"job", 0⟩, "a"⟩ ∧
      (machine.run .empty takeover).finished = [⟨"job", 0⟩] :=
  ⟨(leases_fence_other_instances (Machine.reachable_run rfl (by decide))).2.2.2 _ (by decide)
    ⟨⟨"job", 0⟩, "b"⟩ (by decide) (by decide), by decide⟩

/-- The lease does not tell two executions of one instance apart: the earlier one finishes
the run after the later one has claimed it. -/
theorem same_instance_is_not_fenced :
    ¬∀ w : RunHistory, machine.Reachable w → ∀ before e after,
      w.executions = before ++ e :: after → (∃ f ∈ after, f.occurrence = e.occurrence) →
        w.Fenced e := by
  intro h
  have hfenced := h (machine.run .empty
      [.claim ⟨⟨"job", 0⟩, "a", 0, 60000, true⟩, .claim ⟨⟨"job", 0⟩, "a", 60000, 120000, true⟩])
    (Machine.reachable_run rfl (by decide)) [] ⟨⟨"job", 0⟩, "a"⟩ [⟨⟨"job", 0⟩, "a"⟩] (by decide)
    ⟨_, List.mem_singleton_self _, rfl⟩
  have hfinish := congrArg Prod.snd (hfenced.2.2 .ok none none 60001)
  revert hfinish
  decide

end RunHistory

end AionCore.Cron
