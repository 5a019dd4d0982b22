import AionCore.Cron.Service

/-!
# Cron: the retries of an occurrence

The scheduled ticks and the run-now executions of one job that nobody edits. An execution that
finds its conversation busy is retried; the attempts are counted in a column of the job's row,
which the executions of all occurrences share.
-/

namespace AionCore.Cron

open AionCore.Team (TimestampMs)

/-- What an execution finds: a busy conversation, an earlier conversation of the job that is
active, or its run of the agent. -/
inductive AgentRun where
  | busy
  | active
  | success (conversationId : String)
  | error (message : String)

namespace JobExecutor

def handleBusy (job : CronJob) (maxRetries : Int) : ExecutionResult :=
  if job.queueEnabled then .skipped
  else
    let currentRetry := job.retryCount
    if maxRetries ≤ currentRetry then .skipped else .retrying (currentRetry + 1)

/-- `prepare_scheduled` and `execute_prepared_scheduled`. -/
def executeScheduled (job : CronJob) (maxRetries : Int) : AgentRun → ExecutionResult
  | .busy => handleBusy job maxRetries
  | .active => .skipped
  | .success conversationId => .success conversationId
  | .error message => .error message

end JobExecutor

/-- What a run-now execution awaits: its end, or one of the calls of `handle_run_now_result`. -/
inductive RunNowCall where
  | execute
  /-- `get_by_id`, for `run_count`. -/
  | count (result : ExecutionResult)
  | record (result : ExecutionResult) (runCount : Int)
  | countRetry (attempt : Int)
  | skip

/-- A run-now execution goes on. -/
def JobState.runNow (s : JobState) (reply : CronReply) : RunNowCall → JobState × Option RunNowCall
  | .execute =>
    match reply.result with
    | .success _ | .error _ => (s, some (.count reply.result))
    | .retrying attempt => (s, some (.countRetry attempt))
    | .skipped => (s, some .skip)
  | .count result => (s, if reply.failed then none else some (.record result s.row.runCount))
  | .record result runCount =>
    (s.updateRow reply.failed (recordParams result runCount reply.now), none)
  | .countRetry attempt => (s.updateRow reply.failed { retryCount := some attempt }, none)
  | .skip =>
    (s.updateRow reply.failed { lastStatus := some (some .skipped), retryCount := some 0 }, none)

/-- The job, its ticks and its run-now executions. `retries` says of the occurrences that are not
finished how often they have ended with `Retrying`. -/
structure RetryWorld where
  state : JobState
  ticks : List TickCall
  runNows : List RunNowCall
  retries : Dict TimestampMs ℕ

inductive RetryStep where
  | tick (scheduledAt : TimestampMs)
  /-- A tick goes on; if it executes the job, `run` is what it finds. -/
  | advance (k : ℕ) (run : AgentRun) (reply : CronReply)
  | runNow
  | advanceRunNow (k : ℕ) (reply : CronReply)

namespace TickCall

def scheduledAt : TickCall → TimestampMs
  | .load scheduledAt | .past scheduledAt _ _ => scheduledAt

def answered (maxRetries : Int) (run : AgentRun) (reply : CronReply) : TickCall → CronReply
  | .past _ job .execute => { reply with result := JobExecutor.executeScheduled job maxRetries run }
  | .load _ | .past _ _ _ => reply

def note (reply : CronReply) (retries : Dict TimestampMs ℕ) : TickCall → Dict TimestampMs ℕ
  | .past scheduledAt _ .execute =>
    match reply.result with
    | .retrying _ =>
      AList.insert scheduledAt ((retries.lookup scheduledAt).getD 0 + 1) retries
    | .success _ | .skipped | .error _ => retries
  | .past scheduledAt _ (.finish _) =>
    if reply.failed || !reply.affected then retries else AList.erase scheduledAt retries
  | .load _ | .past _ _ _ => retries

end TickCall

namespace RetryWorld

variable (crates : CronCrates) (maxRetries : Int)

/-- How often the occurrence has ended with `Retrying`, if it is not finished. -/
def retriesOf (w : RetryWorld) (scheduledAt : TimestampMs) : ℕ :=
  (w.retries.lookup scheduledAt).getD 0

def advance (w : RetryWorld) (k : ℕ) (call : TickCall) (reply : CronReply) : RetryWorld :=
  let result := w.state.tick crates reply call
  { w with
    state := result.1
    ticks := Pool.proceed w.ticks k result.2.toList
    retries := call.note reply w.retries }

def advanceRunNow (w : RetryWorld) (k : ℕ) (call : RunNowCall) (reply : CronReply) : RetryWorld :=
  let result := w.state.runNow reply call
  { w with state := result.1, runNows := Pool.proceed w.runNows k result.2.toList }

def fire (w : RetryWorld) : RetryStep → RetryWorld
  | .tick scheduledAt => { w with ticks := w.ticks ++ [.load scheduledAt] }
  | .advance k run reply =>
    match w.ticks[k]? with
    | none => w
    | some call => w.advance crates k call (call.answered maxRetries run reply)
  | .runNow => { w with runNows := w.runNows ++ [.execute] }
  | .advanceRunNow k reply =>
    match w.runNows[k]? with
    | none => w
    | some call => w.advanceRunNow k call reply

/-- Any ticks of any occurrences beside any run-now executions, from a row that has counted no
negative number of attempts. -/
def machine : Machine RetryWorld RetryStep where
  start w := w.ticks = [] ∧ w.runNows = [] ∧ w.retries = ∅ ∧ 0 ≤ w.state.row.retryCount
  admits _ _ := True
  fire := fire crates maxRetries

instance (w : RetryWorld) (step : RetryStep) :
    Decidable ((machine crates maxRetries).admits w step) := .isTrue trivial

/-- `attempts` is as much as any occurrence has been retried. -/
def Covers (w : RetryWorld) (attempts : Int) : Prop :=
  0 ≤ attempts ∧ ∀ n ∈ w.retries.values, (n : Int) ≤ attempts

instance (w : RetryWorld) (attempts : Int) : Decidable (w.Covers attempts) :=
  inferInstanceAs (Decidable (_ ∧ _))

end RetryWorld

/-- What the update of the stage writes to `retry_count`. -/
def TickStage.counts : TickStage → Option Int
  | .record _ _ | .skip => some 0
  | .countRetry attempt => some attempt
  | .resolve | .claim | .duplicate | .execute | .finish _ | .count _ | .defer _ | .reschedule
  | .disable | .advance _ => none

namespace TickCall

def counts : TickCall → Option Int
  | .load _ => none
  | .past _ _ stage => stage.counts

/-- The execution has ended with `Retrying`, and the row has not counted it. -/
def retrying : TickCall → Bool
  | .past _ _ (.defer _) | .past _ _ (.countRetry _) => true
  | .load _ | .past _ _ _ => false

def Counted (reply : CronReply) : TickCall → Prop
  | .past _ _ (.defer _) => reply.failed = false ∧ reply.affected = true
  | .past _ _ (.countRetry _) => reply.failed = false
  | .load _ | .past _ _ _ => True

instance (reply : CronReply) : (call : TickCall) → Decidable (call.Counted reply)
  | .load _ => .isTrue trivial
  | .past _ _ stage => by
    cases stage <;> (simp only [Counted]; infer_instance)

end TickCall

def RunNowCall.counts : RunNowCall → Option Int
  | .record _ _ | .skip => some 0
  | .countRetry attempt => some attempt
  | .execute | .count _ => none

namespace RetryWorld

/-- An occurrence ticks again after its last tick has ended and has counted its retry, and
nothing that is written to the counter is below the retries of an occurrence. -/
def KeepsCount (w : RetryWorld) : RetryStep → Prop
  | .tick scheduledAt => ∀ call ∈ w.ticks, call.scheduledAt ≠ scheduledAt
  | .advance k _ reply => ∀ call ∈ w.ticks[k]?, call.Counted reply ∧
    (reply.failed = false → ∀ attempts ∈ call.counts, w.Covers attempts)
  | .runNow => True
  | .advanceRunNow k reply => ∀ call ∈ w.runNows[k]?,
    reply.failed = false → ∀ attempts ∈ call.counts, w.Covers attempts

instance (w : RetryWorld) : (step : RetryStep) → Decidable (w.KeepsCount step)
  | .tick _ => inferInstanceAs (Decidable (∀ call ∈ w.ticks, _))
  | .advance k _ _ => inferInstanceAs (Decidable (∀ call ∈ w.ticks[k]?, _))
  | .runNow => .isTrue trivial
  | .advanceRunNow k _ => inferInstanceAs (Decidable (∀ call ∈ w.runNows[k]?, _))

end RetryWorld

section Step

variable {crates : CronCrates} {maxRetries : Int}

theorem RetryWorld.covers_iff {w : RetryWorld} {attempts : Int} :
    w.Covers attempts ↔ ∀ o, (w.retriesOf o : Int) ≤ attempts := by
  constructor
  · rintro ⟨hnonneg, hvalues⟩ o
    rw [retriesOf]
    cases hn : w.retries.lookup o with
    | none => exact hnonneg
    | some n => exact hvalues n (Dict.mem_values.mpr ⟨o, hn⟩)
  · intro h
    refine ⟨(Int.natCast_nonneg _).trans (h 0), fun n hn => ?_⟩
    obtain ⟨o, ho⟩ := Dict.mem_values.mp hn
    have := h o
    rwa [retriesOf, ho] at this

/-- The attempts that a stage goes by: those that the job had when it was read, or that of its
retry. -/
def TickStage.attempts (job : CronJob) : TickStage → Option Int
  | .resolve | .claim | .execute => some job.retryCount
  | .defer attempt | .countRetry attempt => some attempt
  | .duplicate | .finish _ | .count _ | .record _ _ | .skip | .reschedule | .disable
  | .advance _ => none

def TickCall.attempts : TickCall → Option Int
  | .load _ => none
  | .past _ job stage => stage.attempts job

namespace JobState

variable {s : JobState} {o : TimestampMs} {job : CronJob} {reply : CronReply} {stage : TickStage}

theorem retryCount_updateRow (s : JobState) (failed : Bool) (params : UpdateCronJobParams) :
    (s.updateRow failed params).row.retryCount =
      (if failed then none else params.retryCount).getD s.row.retryCount := by
  cases failed <;> rfl

/-- A stage writes the counter where it says so. -/
theorem retryCount_pass (s : JobState) (o : TimestampMs) (job : CronJob) (reply : CronReply)
    (stage : TickStage) :
    (s.pass crates o job reply stage).1.row.retryCount =
      (if reply.failed then none else stage.counts).getD s.row.retryCount := by
  have hquiet : stage.counts = none → (s.pass crates o job reply stage).1.row.retryCount =
      s.row.retryCount → (s.pass crates o job reply stage).1.row.retryCount =
      (if reply.failed then none else stage.counts).getD s.row.retryCount := by
    intro hnone hsame
    rw [hsame, hnone, ite_self, Option.getD_none]
  cases stage with
  | record result runCount =>
    cases result <;> exact retryCount_updateRow s reply.failed _
  | skip => exact retryCount_updateRow s reply.failed _
  | countRetry attempt => exact retryCount_updateRow s reply.failed _
  | disable => exact retryCount_updateRow s reply.failed _
  | advance next => exact retryCount_updateRow s reply.failed _
  | resolve | duplicate | count result | defer attempt =>
    apply hquiet rfl
    simp only [pass]
    split <;> rfl
  | claim =>
    apply hquiet rfl
    simp only [pass]
    split
    · rfl
    · cases reply.claim <;> rfl
  | execute =>
    apply hquiet rfl
    simp only [pass]
    cases reply.result <;> rfl
  | finish result =>
    apply hquiet rfl
    simp only [pass]
    split
    · rfl
    · cases result <;> rfl
  | reschedule =>
    apply hquiet rfl
    simp only [pass]
    split
    · rfl
    · split <;> rfl

theorem retryCount_runNow (s : JobState) (reply : CronReply) (call : RunNowCall) :
    (s.runNow reply call).1.row.retryCount =
      (if reply.failed then none else call.counts).getD s.row.retryCount := by
  cases call with
  | execute =>
    rw [RunNowCall.counts, ite_self, Option.getD_none, runNow]
    cases reply.result <;> rfl
  | count result => rw [RunNowCall.counts, ite_self, Option.getD_none, runNow]
  | record result runCount => cases result <;> exact retryCount_updateRow s reply.failed _
  | countRetry attempt => exact retryCount_updateRow s reply.failed _
  | skip => exact retryCount_updateRow s reply.failed _

/-- A tick goes on with the attempts that it goes by, unless its execution has ended with
another one. -/
theorem attempts_pass {next : TickCall} (h : next ∈ (s.pass crates o job reply stage).2) :
    next.scheduledAt = o ∧ ∀ v ∈ next.attempts, v ∈ stage.attempts job ∨
      stage = .execute ∧ reply.result = .retrying v := by
  have hquiet : ∀ stage', next ∈ some (TickCall.past o job stage') →
      (stage'.attempts job = none ∨ stage'.attempts job = stage.attempts job) →
      next.scheduledAt = o ∧ ∀ v ∈ next.attempts, v ∈ stage.attempts job ∨
        stage = .execute ∧ reply.result = .retrying v := by
    rintro stage' hnext hattempts
    obtain rfl := Option.some.inj hnext
    refine ⟨rfl, fun v hv => .inl ?_⟩
    rw [TickCall.attempts] at hv
    rcases hattempts with hnone | hsame
    · rw [hnone] at hv
      cases hv
    · rwa [hsame] at hv
  cases stage with
  | record result runCount => exact hquiet _ h (.inl rfl)
  | skip => exact hquiet _ h (.inl rfl)
  | countRetry attempt | disable | advance next' => cases h
  | resolve | defer attempt =>
    simp only [pass] at h
    split at h
    · cases h
    · exact hquiet _ h (.inr rfl)
  | claim =>
    simp only [pass] at h
    split at h
    · cases h
    · cases hclaim : reply.claim with
      | claimed =>
        rw [hclaim] at h
        exact hquiet _ h (.inr rfl)
      | duplicate | queueBusy =>
        rw [hclaim] at h
        exact hquiet _ h (.inl rfl)
  | duplicate =>
    simp only [pass] at h
    split at h
    · cases h
    · exact hquiet _ h (.inl rfl)
  | execute =>
    simp only [pass] at h
    cases hresult : reply.result with
    | retrying attempt =>
      rw [hresult] at h
      obtain rfl := Option.some.inj h
      refine ⟨rfl, fun v hv => .inr ⟨rfl, ?_⟩⟩
      rw [Option.some.inj hv]
    | success _ | skipped | error _ =>
      rw [hresult] at h
      rw [hresult] at hquiet
      exact hquiet _ h (.inl rfl)
  | finish result =>
    simp only [pass] at h
    split at h
    · cases h
    · cases result <;> exact hquiet _ h (.inl rfl)
  | count result =>
    simp only [pass] at h
    split at h <;> exact hquiet _ h (.inl rfl)
  | reschedule =>
    simp only [pass] at h
    split at h
    · cases h
    · split at h <;> exact hquiet _ h (.inl rfl)

end JobState

theorem JobState.retryCount_tick (s : JobState) (reply : CronReply) (call : TickCall) :
    (s.tick crates reply call).1.row.retryCount =
      (if reply.failed then none else call.counts).getD s.row.retryCount := by
  cases call with
  | load o => rw [TickCall.counts, ite_self, Option.getD_none, tick]
  | past o job stage => exact retryCount_pass s o job reply stage

/-- A tick goes on with its occurrence. -/
theorem JobState.tick_next {s : JobState} {reply : CronReply} {call next : TickCall}
    (h : next ∈ (s.tick crates reply call).2) : next.scheduledAt = call.scheduledAt := by
  cases call with
  | load o =>
    rw [tick] at h
    cases hfailed : reply.failed with
    | true =>
      rw [hfailed] at h
      cases h
    | false =>
      rw [hfailed] at h
      obtain rfl := Option.some.inj h
      rfl
  | past o job stage => exact (attempts_pass h).1

namespace TickCall

variable {reply : CronReply} {retries : Dict TimestampMs ℕ} {o : TimestampMs} {job : CronJob}
  {stage : TickStage} {call : TickCall}

/-- A tick notes its own occurrence. -/
theorem lookup_note_of_ne (reply : CronReply) (retries : Dict TimestampMs ℕ)
    (h : o ≠ call.scheduledAt) : (call.note reply retries).lookup o = retries.lookup o := by
  cases call with
  | load scheduledAt => rfl
  | past scheduledAt job stage =>
    replace h : o ≠ scheduledAt := h
    cases stage with
    | execute =>
      simp only [note]
      cases reply.result with
      | retrying attempt =>
        rw [Dict.lookup_insert', if_neg h]
      | success _ | skipped | error _ => rfl
    | finish result =>
      simp only [note]
      split
      · rfl
      · rw [Dict.lookup_erase', if_neg h]
    | resolve | claim | duplicate | count _ | record _ _ | skip | defer _ | countRetry _
    | reschedule | disable | advance _ => rfl

/-- Only a retry adds to what is noted of an occurrence. -/
theorem lookup_note_le (reply : CronReply) (retries : Dict TimestampMs ℕ) (call : TickCall)
    (o : TimestampMs) :
    ((call.note reply retries).lookup o).getD 0 ≤ (retries.lookup o).getD 0 ∨
      ∃ job attempt, call = .past o job .execute ∧ reply.result = .retrying attempt ∧
        ((call.note reply retries).lookup o).getD 0 = (retries.lookup o).getD 0 + 1 := by
  cases call with
  | load scheduledAt => exact .inl le_rfl
  | past scheduledAt job stage =>
    by_cases ho : o = scheduledAt
    · subst ho
      cases stage with
      | execute =>
        cases hresult : reply.result with
        | retrying attempt =>
          refine .inr ⟨job, attempt, rfl, rfl, ?_⟩
          simp only [note, hresult]
          rw [Dict.lookup_insert', if_pos rfl]
          rfl
        | success _ | skipped | error _ =>
          left
          simp only [note, hresult]
          exact le_rfl
      | finish result =>
        left
        simp only [note]
        split
        · exact le_rfl
        · rw [Dict.lookup_erase', if_pos rfl]
          exact Nat.zero_le _
      | resolve | claim | duplicate | count _ | record _ _ | skip | defer _ | countRetry _
      | reschedule | disable | advance _ => exact .inl le_rfl
    · left
      rw [lookup_note_of_ne reply retries ho]

theorem eq_of_retrying (h : call.retrying = true) :
    ∃ o job attempt, call = .past o job (.defer attempt) ∨
      call = .past o job (.countRetry attempt) := by
  cases call with
  | load o => cases h
  | past o job stage =>
    cases stage with
    | defer attempt => exact ⟨o, job, attempt, .inl rfl⟩
    | countRetry attempt => exact ⟨o, job, attempt, .inr rfl⟩
    | resolve | claim | duplicate | execute | finish _ | count _ | record _ _ | skip | reschedule
    | disable | advance _ => cases h

end TickCall

/-- A busy execution is retried while the job has attempts left. -/
theorem JobExecutor.retrying_of_executeScheduled {job : CronJob} {run : AgentRun} {attempt : Int}
    (h : executeScheduled job maxRetries run = .retrying attempt) :
    attempt = job.retryCount + 1 ∧ job.retryCount < maxRetries := by
  cases run with
  | busy =>
    simp only [executeScheduled, handleBusy] at h
    split at h
    · cases h
    · split at h
      · cases h
      · cases h
        exact ⟨rfl, by omega⟩
  | active | success _ | error _ => cases h

end Step

namespace RetryWorld

variable {crates : CronCrates} {maxRetries : Int} {w : RetryWorld}

/-- The row counts the retries of every occurrence, but for those that a tick is about to count,
and a tick of an occurrence goes by as many attempts. -/
structure Counted (maxRetries : Int) (w : RetryWorld) : Prop where
  bounded : ∀ o, (w.retriesOf o : Int) ≤ maxRetries
  sequential : (w.ticks.map (·.scheduledAt)).Nodup
  ticks : ∀ call ∈ w.ticks, ∀ v ∈ call.attempts, (w.retriesOf call.scheduledAt : Int) ≤ v
  row : ∀ o, (∀ call ∈ w.ticks, call.scheduledAt = o → call.retrying = false) →
    (w.retriesOf o : Int) ≤ w.state.row.retryCount

section

variable (hcounted : w.Counted maxRetries)
include hcounted

/-- A tick goes on. -/
theorem Counted.advance {k : ℕ} {call : TickCall} {reply : CronReply}
    (hcall : w.ticks[k]? = some call)
    (hran : ∀ o job attempt, call = .past o job .execute → reply.result = .retrying attempt →
      attempt = job.retryCount + 1 ∧ job.retryCount < maxRetries) (hdone : call.Counted reply)
    (hcovers : reply.failed = false → ∀ attempts ∈ call.counts, w.Covers attempts) :
    (w.advance crates k call reply).Counted maxRetries := by
  have hmem : call ∈ w.ticks := List.mem_of_getElem? hcall
  have hperm := (Pool.perm_others hcall).map TickCall.scheduledAt
  have hnodup := hperm.nodup_iff.mp hcounted.sequential
  rw [List.map_cons, List.nodup_cons] at hnodup
  have hothers : ∀ other ∈ Pool.others w.ticks k, other.scheduledAt ≠ call.scheduledAt := by
    intro other hother heq
    exact hnodup.1 (heq ▸ List.mem_map_of_mem hother)
  -- what a write of the counter leaves is enough for every occurrence
  have hrow : ∀ o, (w.retriesOf o : Int) ≤ w.state.row.retryCount →
      (w.retriesOf o : Int) ≤ (w.state.tick crates reply call).1.row.retryCount := by
    intro o ho
    rw [JobState.retryCount_tick]
    cases hfailed : reply.failed with
    | true => exact ho
    | false =>
      cases hcounts : call.counts with
      | none => exact ho
      | some v => exact covers_iff.mp (hcovers hfailed v hcounts) o
  have hnote : ∀ o, (w.advance crates k call reply).retriesOf o ≤ w.retriesOf o ∨
      ∃ job attempt, call = .past o job .execute ∧ reply.result = .retrying attempt ∧
        (w.advance crates k call reply).retriesOf o = w.retriesOf o + 1 :=
    TickCall.lookup_note_le reply w.retries call
  -- the retry that an execution has ended with is about to be counted
  have hretry : ∀ o job attempt, call = .past o job .execute → reply.result = .retrying attempt →
      (w.advance crates k call reply).ticks =
        Pool.proceed w.ticks k [.past o job (.defer attempt)] := by
    rintro o job attempt rfl hresult
    simp only [RetryWorld.advance, JobState.tick, JobState.pass, hresult, Option.toList_some]
  constructor
  · intro o
    have hbounded := hcounted.bounded o
    rcases hnote o with hle | ⟨job, attempt, rfl, hresult, heq⟩
    · omega
    · have hread := hcounted.ticks _ hmem job.retryCount rfl
      have hattempt := hran o job attempt rfl hresult
      rw [TickCall.scheduledAt] at hread
      omega
  · show ((Pool.proceed w.ticks k (w.state.tick crates reply call).2.toList).map
      TickCall.scheduledAt).Nodup
    rw [((Pool.perm_proceed w.ticks k _).map TickCall.scheduledAt).nodup_iff, List.map_append]
    cases hnext : (w.state.tick crates reply call).2 with
    | none => exact hnodup.2
    | some next =>
      have hsame : next.scheduledAt = call.scheduledAt := JobState.tick_next hnext
      show (next.scheduledAt :: (Pool.others w.ticks k).map TickCall.scheduledAt).Nodup
      rw [hsame]
      exact List.nodup_cons.mpr hnodup
  · intro call' hcall' v hv
    rcases Pool.mem_proceed.mp hcall' with hnext | hother
    · rw [Option.mem_toList] at hnext
      have hsame : call'.scheduledAt = call.scheduledAt := JobState.tick_next hnext
      rw [hsame]
      cases call with
      | load o =>
        -- a tick reads the counter while none of its occurrence is about to count
        have hread := hcounted.row o fun other hother ho => by
          rcases (Pool.mem_iff hcall).mp hother with rfl | hother
          · rfl
          · exact absurd ho (hothers other hother)
        rw [JobState.tick] at hnext
        cases hfailed : reply.failed with
        | true =>
          rw [hfailed] at hnext
          cases hnext
        | false =>
          rw [hfailed] at hnext
          obtain rfl := Option.some.inj hnext
          obtain rfl := Option.some.inj hv
          exact hread
      | past o job stage =>
        show ((w.advance crates k (.past o job stage) reply).retriesOf o : Int) ≤ v
        have hgoes := (JobState.attempts_pass hnext).2 v hv
        rcases hnote o with hle | ⟨job, attempt, heq, hresult, hmore⟩
        · rcases hgoes with hsame | ⟨rfl, hresult⟩
          · have hread := hcounted.ticks _ hmem v hsame
            rw [TickCall.scheduledAt] at hread
            omega
          · have hread := hcounted.ticks _ hmem job.retryCount rfl
            have hattempt := hran o job v rfl hresult
            rw [TickCall.scheduledAt] at hread
            omega
        · cases heq
          have hread := hcounted.ticks _ hmem job.retryCount rfl
          have hattempt := hran o job attempt rfl hresult
          have hdefer : call' = .past o job (.defer attempt) := by
            simp only [JobState.tick, JobState.pass, hresult] at hnext
            exact (Option.some.inj hnext).symm
          rw [hdefer] at hv
          obtain rfl := Option.some.inj hv
          rw [TickCall.scheduledAt] at hread
          omega
    · have hne : call'.scheduledAt ≠ call.scheduledAt := hothers call' hother
      have hkept := hcounted.ticks call' (Pool.mem_of_others hother) v hv
      rw [retriesOf, ← TickCall.lookup_note_of_ne reply w.retries hne] at hkept
      exact hkept
  · intro o hnone
    by_cases ho : o = call.scheduledAt
    · subst ho
      cases hretrying : call.retrying with
      | true =>
        obtain ⟨o, job, attempt, rfl | rfl⟩ := TickCall.eq_of_retrying hretrying
        · exfalso
          have hnext : TickCall.past o job (.countRetry attempt) ∈
              (w.advance crates k (.past o job (.defer attempt)) reply).ticks := by
            refine Pool.mem_proceed.mpr (.inl ?_)
            rw [JobState.tick, JobState.pass, hdone.1, hdone.2]
            exact List.mem_singleton_self _
          cases hnone _ hnext rfl
        · have hread := hcounted.ticks _ hmem attempt rfl
          have hwritten : (w.state.tick crates reply
              (.past o job (.countRetry attempt))).1.row.retryCount = _ :=
            JobState.retryCount_tick w.state reply _
          rw [show reply.failed = false from hdone] at hwritten
          show _ ≤ (w.state.tick crates reply _).1.row.retryCount
          rw [hwritten]
          exact hread
      | false =>
        have hkept := hrow call.scheduledAt (hcounted.row _ fun other hother heq => by
          rcases (Pool.mem_iff hcall).mp hother with rfl | hother
          · exact hretrying
          · exact absurd heq (hothers other hother))
        rcases hnote call.scheduledAt with hle | ⟨job, attempt, heq, hresult, -⟩
        · exact (Int.ofNat_le.mpr hle).trans hkept
        · have hnext : TickCall.past call.scheduledAt job (.defer attempt) ∈
              (w.advance crates k call reply).ticks := by
            rw [hretry _ job attempt heq hresult]
            exact Pool.mem_proceed.mpr (.inl (List.mem_singleton_self _))
          cases hnone _ hnext rfl
    · have hkept := hrow o (hcounted.row o fun other hother heq => by
        rcases (Pool.mem_iff hcall).mp hother with rfl | hother
        · exact absurd heq.symm ho
        · exact hnone other (Pool.mem_proceed.mpr (.inr hother)) heq)
      rw [retriesOf, ← TickCall.lookup_note_of_ne reply w.retries ho] at hkept
      exact hkept

theorem Counted.advanceRunNow {k : ℕ} {call : RunNowCall} {reply : CronReply}
    (hcovers : reply.failed = false → ∀ attempts ∈ call.counts, w.Covers attempts) :
    (w.advanceRunNow k call reply).Counted maxRetries := by
  refine ⟨hcounted.bounded, hcounted.sequential, hcounted.ticks, fun o hnone => ?_⟩
  have hkept := hcounted.row o hnone
  show _ ≤ (w.state.runNow reply call).1.row.retryCount
  rw [JobState.retryCount_runNow]
  cases hfailed : reply.failed with
  | true => exact hkept
  | false =>
    cases hcounts : call.counts with
    | none => exact hkept
    | some v => exact covers_iff.mp (hcovers hfailed v hcounts) o

theorem Counted.tick {scheduledAt : TimestampMs}
    (hended : ∀ call ∈ w.ticks, call.scheduledAt ≠ scheduledAt) :
    Counted maxRetries { w with ticks := w.ticks ++ [.load scheduledAt] } := by
  refine ⟨hcounted.bounded, ?_, ?_, fun o hnone => ?_⟩
  · rw [List.map_append, List.nodup_append]
    refine ⟨hcounted.sequential, List.nodup_singleton _, ?_⟩
    rintro _ ha _ hb rfl
    obtain ⟨call, hcall, heq⟩ := List.mem_map.mp ha
    rw [List.map_singleton, List.mem_singleton] at hb
    exact hended call hcall (heq.trans hb)
  · intro call hcall v hv
    rcases List.mem_append.mp hcall with hcall | hcall
    · exact hcounted.ticks call hcall v hv
    · obtain rfl := List.mem_singleton.mp hcall
      cases hv
  · exact hcounted.row o fun call hcall => hnone call (List.mem_append_left _ hcall)

/-- A step of the condition counts on. -/
theorem Counted.fire {step : RetryStep} (hkeeps : w.KeepsCount step) :
    (w.fire crates maxRetries step).Counted maxRetries := by
  cases step with
  | tick scheduledAt => exact hcounted.tick hkeeps
  | runNow => exact ⟨hcounted.bounded, hcounted.sequential, hcounted.ticks, hcounted.row⟩
  | advanceRunNow k reply =>
    rw [RetryWorld.fire]
    cases hcall : w.runNows[k]? with
    | none => exact hcounted
    | some call => exact hcounted.advanceRunNow (hkeeps call hcall)
  | advance k run reply =>
    rw [RetryWorld.fire]
    cases hcall : w.ticks[k]? with
    | none => exact hcounted
    | some call =>
      obtain ⟨hdone, hcovers⟩ := hkeeps call hcall
      have hfailed : (call.answered maxRetries run reply).failed = reply.failed := by
        cases call with
        | load o => rfl
        | past o job stage => cases stage <;> rfl
      apply hcounted.advance hcall
      · rintro o job attempt rfl hresult
        exact JobExecutor.retrying_of_executeScheduled hresult
      · cases call with
        | load o => trivial
        | past o job stage => cases stage <;> exact hdone
      · rwa [hfailed]

end

/-- While every occurrence ticks again only after its retry has been counted, and no execution puts
the counter below the retries of an unfinished occurrence, an occurrence ends with `Retrying` at
most `max_retries` times before it is finished. -/
theorem retries_le (hmax : 0 ≤ maxRetries)
    (h : ((machine crates maxRetries).restrict KeepsCount).Reachable w)
    (scheduledAt : TimestampMs) : (w.retriesOf scheduledAt : Int) ≤ maxRetries := by
  have hcounted : w.Counted maxRetries := by
    refine h.invariant (fun w hstart => ?_) fun w step hcounted hstep => hcounted.fire hstep.2
    obtain ⟨hticks, -, hretries, hrow⟩ := hstart
    have hzero : ∀ o, w.retriesOf o = 0 := by
      intro o
      rw [retriesOf, hretries]
      rfl
    refine ⟨fun o => ?_, ?_, ?_, fun o _ => ?_⟩
    · rw [hzero]
      exact hmax
    · rw [hticks]
      exact List.nodup_nil
    · rw [hticks]
      rintro call hcall
      cases hcall
    · rw [hzero]
      exact hrow
  exact hcounted.bounded scheduledAt

def sampleJob : CronJob where
  enabled := true
  schedule := .every 60000 none
  nextRunAt := some 1000
  lastRunAt := none
  lastStatus := none
  lastError := none
  runCount := 0
  retryCount := 0
  queueEnabled := false

def sampleWorld : RetryWorld := ⟨⟨sampleJob, none, sampleJob.schedule⟩, [], [], ∅⟩

def sampleReply (now : TimestampMs) : CronReply where
  failed := false
  affected := true
  claim := .claimed
  recoverable := none
  result := .success "c"
  now := now

/-- The tick of an occurrence that finds the conversation busy and is retried. -/
def busyTick (scheduledAt now : TimestampMs) : List RetryStep :=
  .tick scheduledAt :: List.replicate 6 (.advance 0 .busy (sampleReply now))

/-- Instance: an occurrence is retried twice. -/
theorem retries_le_sample :
    (((machine ⟨fun _ _ _ => none, fun _ _ => false⟩ 2).run sampleWorld
      (busyTick 1000 1000 ++ busyTick 1000 31000)).retriesOf 1000 : Int) ≤ 2 :=
  retries_le (by decide) (Machine.reachable_run ⟨rfl, rfl, rfl, by decide⟩ (by decide)) 1000

/-- A run-now execution between two ticks of the occurrence sets the counter back. -/
theorem run_now_resets_count :
    ∃ w, (machine ⟨fun _ _ _ => none, fun _ _ => false⟩ 1).Reachable w ∧
      ¬(w.retriesOf 1000 : Int) ≤ 1 :=
  ⟨(machine _ 1).run sampleWorld (busyTick 1000 1000 ++
      .runNow :: List.replicate 3 (.advanceRunNow 0 (sampleReply 10000)) ++ busyTick 1000 31000),
    Machine.reachable_run ⟨rfl, rfl, rfl, by decide⟩ (by decide), by decide⟩

end RetryWorld

end AionCore.Cron
