import AionCore.Team.RunWork

/-!
# The coordinator wired to the run manager

A session's coordinator has its run manager as `RunCausalityPort`. Enqueue requests are
bound while the coordinator's lock is held; everything else is told after the lock is
released. So an operation is an atomic step that leaves calls behind, and the calls of
concurrent operations arrive in any order that keeps the order within each operation
(`machine`), at once under callers that wait for one another (`sessionMachine`).
-/

namespace AionCore.Team

/-- The coordinator and the run manager of a session. -/
structure TeamWork where
  coordinator : SlotWorkCoordinator
  manager : TeamRunManager

/-- The state of the coordinator with its history, the state of the manager, and the
calls on the port that running operations have yet to make, a list an operation. -/
structure Wired where
  work : Tracked
  runs : TeamRunState
  pending : List (List PortCall)

def Wired.empty : Wired := ⟨.empty, .empty, []⟩

def Wired.pendingAt (w : Wired) (k : ℕ) : List PortCall := w.pending[k]?.getD []

/-- A step of a session: the locked part of an operation, the next call on the port of a
running operation, or a call of `begin_cancel`. -/
inductive WiredStep where
  | operate (op : Op)
  | deliver (k : ℕ) (now : TimestampMs)
  | beginCancel (teamRunId : String) (now : TimestampMs) (reason : Option String)

/-- A step of a session that runs one operation at a time. -/
inductive SessionStep where
  | operation (op : Op) (now : TimestampMs)
  | beginCancel (teamRunId : String) (now : TimestampMs) (reason : Option String)

namespace TeamWork

variable (t : TeamWork)

def callOf (w : Wired) (op : Op) : Call :=
  ⟨op, fun request => (t.manager.bindEnqueue w.runs request).2⟩

def outcomeOf (w : Wired) (op : Op) : Outcome Reply :=
  t.coordinator.exec (t.callOf w op).bindEnqueue w.work.state op

/-- The manager at the end of the locked part. A request that is turned away asks for no
binding; the manager ignores requests that the coordinator binds by itself. -/
def boundRuns (w : Wired) (op : Op) : TeamRunState :=
  match op, (t.outcomeOf w op).result with
  | .acquireEnqueue request, .lease (.ok _) => (t.manager.bindEnqueue w.runs request).1
  | _, _ => w.runs

def operate (w : Wired) (op : Op) : Wired where
  work := t.coordinator.fire w.work (t.callOf w op)
  runs := t.boundRuns w op
  pending :=
    if (t.outcomeOf w op).calls = [] then w.pending
    else w.pending ++ [(t.outcomeOf w op).calls]

def deliver (w : Wired) (k : ℕ) (now : TimestampMs) : Wired :=
  match w.pendingAt k with
  | [] => w
  | call :: rest =>
    { w with
      runs := t.manager.receive now w.runs call
      pending := if rest = [] then w.pending.eraseIdx k else w.pending.set k rest }

def beginCancel (w : Wired) (teamRunId : String) (now : TimestampMs) (reason : Option String) :
    Wired :=
  match t.manager.beginCancel w.runs now teamRunId reason with
  | .ok (runs, _) => { w with runs }
  | .error _ => w

/-- The session under concurrent callers. -/
def machine : Machine Wired WiredStep where
  start w := w = .empty
  admits w
    | .operate op => ∀ batch ∈ op.batch?, batch ∈ w.work.handed
    | .deliver k _ => w.pendingAt k ≠ []
    | .beginCancel _ _ _ => True
  fire w
    | .operate op => t.operate w op
    | .deliver k now => t.deliver w k now
    | .beginCancel teamRunId now reason => t.beginCancel w teamRunId now reason

/-- An operation run to its end. -/
def operation (w : Wired) (op : Op) (now : TimestampMs) : Wired where
  work := t.coordinator.fire w.work (t.callOf w op)
  runs := (t.outcomeOf w op).calls.foldl (t.manager.receive now) (t.boundRuns w op)
  pending := w.pending

/-- The session under a caller that runs one operation at a time. -/
def sessionMachine : Machine Wired SessionStep where
  start w := w = .empty
  admits w
    | .operation op _ => ∀ batch ∈ op.batch?, batch ∈ w.work.handed
    | .beginCancel _ _ _ => True
  fire w
    | .operation op now => t.operation w op now
    | .beginCancel teamRunId now reason => t.beginCancel w teamRunId now reason

instance (w : Wired) : ∀ step, Decidable (t.machine.admits w step)
  | .operate op => inferInstanceAs (Decidable (∀ batch ∈ op.batch?, batch ∈ w.work.handed))
  | .deliver k _ => inferInstanceAs (Decidable (w.pendingAt k ≠ []))
  | .beginCancel _ _ _ => inferInstanceAs (Decidable True)

instance (w : Wired) : ∀ step, Decidable (t.sessionMachine.admits w step)
  | .operation op _ => inferInstanceAs (Decidable (∀ batch ∈ op.batch?, batch ∈ w.work.handed))
  | .beginCancel _ _ _ => inferInstanceAs (Decidable True)

variable {t}

/-- `begin_cancel` touches the manager only. -/
theorem beginCancel_frame (w : Wired) (q : String) (now : TimestampMs) (reason : Option String) :
    (t.beginCancel w q now reason).work = w.work ∧
      (t.beginCancel w q now reason).pending = w.pending := by
  rw [beginCancel]
  split <;> exact ⟨rfl, rfl⟩

theorem deliver_work (w : Wired) (k : ℕ) (now : TimestampMs) :
    (t.deliver w k now).work = w.work := by
  rw [deliver]
  split <;> rfl

variable {w : Wired}

theorem work_reachable (h : t.machine.Reachable w) :
    t.coordinator.machine.Reachable w.work := by
  refine h.map (N := t.coordinator.machine) Wired.work (fun _ hs => .start (by rw [hs]; rfl))
    fun w step hstep => ?_
  cases step with
  | operate op => exact .single ⟨t.callOf w op, hstep, rfl⟩
  | deliver k now => exact deliver_work (t := t) w k now ▸ .refl
  | beginCancel q now reason => exact (beginCancel_frame (t := t) w q now reason).1 ▸ .refl

theorem session_work_reachable (h : t.sessionMachine.Reachable w) :
    t.coordinator.machine.Reachable w.work := by
  refine h.map (N := t.coordinator.machine) Wired.work (fun _ hs => .start (by rw [hs]; rfl))
    fun w step hstep => ?_
  cases step with
  | operation op now => exact .single ⟨t.callOf w op, hstep, rfl⟩
  | beginCancel q now reason => exact (beginCancel_frame (t := t) w q now reason).1 ▸ .refl

/-- A lone operation makes its calls one after the other. -/
theorem reaches_deliveries (now : TimestampMs) (calls : List PortCall) (w : Wired)
    (h : w.pending = if calls = [] then [] else [calls]) :
    t.machine.Reaches w
      { w with runs := calls.foldl (t.manager.receive now) w.runs, pending := [] } := by
  induction calls generalizing w with
  | nil =>
    rw [if_pos rfl] at h
    obtain ⟨work, runs, pending⟩ := w
    obtain rfl : pending = [] := h
    exact .refl
  | cons call rest ih =>
    rw [if_neg (List.cons_ne_nil _ _)] at h
    have hat : w.pendingAt 0 = call :: rest := by rw [Wired.pendingAt, h]; rfl
    refine .head ⟨.deliver 0 now, ?_, rfl⟩ ?_
    · change w.pendingAt 0 ≠ []
      simp [hat]
    · have hstep : t.deliver w 0 now =
          { w with
            runs := t.manager.receive now w.runs call
            pending := if rest = [] then [] else [rest] } := by
        simp only [deliver, hat, h]
        rfl
      change t.machine.Reaches (t.deliver w 0 now) _
      rw [hstep]
      exact ih _ rfl

/-- The step makes this call on the port. -/
def Delivers (w : Wired) (step : WiredStep) (call : PortCall) : Prop :=
  ∃ k now rest, step = .deliver k now ∧ w.pendingAt k = call :: rest

variable {step : WiredStep} {call : PortCall}

theorem work_of_delivers (h : Delivers w step call) :
    (t.machine.fire w step).work = w.work := by
  obtain ⟨k, now, rest, rfl, -⟩ := h
  exact deliver_work w k now

theorem runs_of_delivers (h : Delivers w step call) :
    ∃ now, (t.machine.fire w step).runs = t.manager.receive now w.runs call := by
  obtain ⟨k, now, rest, rfl, hk⟩ := h
  refine ⟨now, ?_⟩
  change (t.deliver w k now).runs = _
  simp only [deliver, hk]

theorem status_of_delivers {summary : RunWorkSummary}
    (h : Delivers w step (.applyWorkSummary summary)) :
    (t.machine.fire w step).runs.statusOf summary.teamRunId =
      (w.runs.statusOf summary.teamRunId).map (TeamRunManager.statusAfter summary) := by
  obtain ⟨now, hruns⟩ := t.runs_of_delivers h
  rw [hruns, TeamRunManager.receive, t.manager.statusOf_applyWorkSummary, if_pos rfl]

/-- All that a step can do to the status of the runs. -/
inductive RunStep (t : TeamWork) (w : Wired) (step : WiredStep) : Prop
  /-- A granted user request opens the next run. -/
  | opens (op : Op) (operate : step = .operate op)
      (binds : t.coordinator.Binds w.work (t.callOf w op)
        (t.manager.generateId.draw w.runs.created))
      (created : (t.machine.fire w step).runs.created = w.runs.created + 1)
      (status : ∀ r, (t.machine.fire w step).runs.statusOf r =
        if r = t.manager.generateId.draw w.runs.created then some .accepted else none)
  | keeps (created : (t.machine.fire w step).runs.created = w.runs.created)
      (status : ∀ r, (t.machine.fire w step).runs.statusOf r = w.runs.statusOf r)
  | aborts (binding : RunBinding) (delivers : Delivers w step (.abortBinding binding))
      (created : (t.machine.fire w step).runs.created = w.runs.created)
      (status : ∀ r, (t.machine.fire w step).runs.statusOf r =
        if binding.teamRunId = some r then none else w.runs.statusOf r)
  | summarizes (summary : RunWorkSummary) (delivers : Delivers w step (.applyWorkSummary summary))
      (created : (t.machine.fire w step).runs.created = w.runs.created)
      (status : ∀ r, (t.machine.fire w step).runs.statusOf r =
        if r = summary.teamRunId then
          (w.runs.statusOf r).map (TeamRunManager.statusAfter summary)
        else w.runs.statusOf r)
  | cancels (q : String) (now : TimestampMs) (reason : Option String)
      (call : step = .beginCancel q now reason)
      (active : ∃ status, w.runs.statusOf q = some status ∧ status.isActive)
      (created : (t.machine.fire w step).runs.created = w.runs.created)
      (status : ∀ r, (t.machine.fire w step).runs.statusOf r =
        if r = q then some .cancelling else w.runs.statusOf r)

/-- A locked part keeps the record, or opens the next run and grants it a lease. -/
theorem boundRuns_cases (w : Wired) (op : Op) :
    ((t.boundRuns w op).created = w.runs.created ∧
      ∀ r, (t.boundRuns w op).statusOf r = w.runs.statusOf r) ∨
    t.coordinator.Binds w.work (t.callOf w op) (t.manager.generateId.draw w.runs.created) ∧
      (t.boundRuns w op).created = w.runs.created + 1 ∧
      ∀ r, (t.boundRuns w op).statusOf r =
        if r = t.manager.generateId.draw w.runs.created then some .accepted else none := by
  cases op with
  | acquireEnqueue request =>
    cases hresult : (t.coordinator.acquireEnqueue w.work.state
        (t.callOf w (.acquireEnqueue request)).bindEnqueue request).result with
    | error e =>
      left
      simp only [boundRuns, outcomeOf, SlotWorkCoordinator.exec, Outcome.map, hresult]
      exact ⟨trivial, fun _ => trivial⟩
    | ok lease =>
      simp only [boundRuns, outcomeOf, SlotWorkCoordinator.exec, Outcome.map, hresult]
      rcases t.manager.bindEnqueue_cases w.runs request with
        ⟨hstatus, hcreated, -⟩ | ⟨hbinding, hnew, hrun⟩
      · exact .inl ⟨hcreated, hstatus⟩
      · refine .inr ⟨⟨request, lease, rfl, .inl hbinding, hresult, hrun⟩, ?_⟩
        rw [hnew]
        refine ⟨rfl, fun r => ?_⟩
        rw [TeamRunState.statusOf_of_record rfl]
        exact if_congr eq_comm rfl rfl
  | _ => exact .inl ⟨rfl, fun _ => rfl⟩

theorem runStep (t : TeamWork) (w : Wired) (step : WiredStep) : t.RunStep w step := by
  cases step with
  | operate op =>
    rcases t.boundRuns_cases w op with ⟨hcreated, hstatus⟩ | ⟨hbinds, hcreated, hstatus⟩
    · exact .keeps hcreated hstatus
    · exact .opens op rfl hbinds hcreated hstatus
  | deliver k now =>
    cases hk : w.pendingAt k with
    | nil =>
      have hfire : t.machine.fire w (.deliver k now) = w := by
        change t.deliver w k now = w
        simp only [deliver, hk]
      exact .keeps (by rw [hfire]) fun r => by rw [hfire]
    | cons call rest =>
      have hdelivers : Delivers w (.deliver k now) call := ⟨k, now, rest, rfl, hk⟩
      obtain ⟨clock, hruns⟩ := t.runs_of_delivers hdelivers
      have hcreated : (t.machine.fire w (.deliver k now)).runs.created = w.runs.created := by
        rw [hruns, t.manager.created_receive]
      cases call with
      | abortBinding binding =>
        exact .aborts binding hdelivers hcreated fun r => by
          rw [hruns, TeamRunManager.receive, TeamRunManager.statusOf_abortBinding]
      | applyWorkSummary summary =>
        exact .summarizes summary hdelivers hcreated fun r => by
          rw [hruns, TeamRunManager.receive, t.manager.statusOf_applyWorkSummary]
  | beginCancel q now reason =>
    cases hcall : t.manager.beginCancel w.runs now q reason with
    | error e =>
      have hfire : t.machine.fire w (.beginCancel q now reason) = w := by
        change t.beginCancel w q now reason = w
        simp only [beginCancel, hcall]
      exact .keeps (by rw [hfire]) fun r => by rw [hfire]
    | ok out =>
      have hruns : (t.machine.fire w (.beginCancel q now reason)).runs = out.1 := by
        change (t.beginCancel w q now reason).runs = _
        simp only [beginCancel, hcall]
      obtain ⟨hactive, hcreated, hstatus⟩ := t.manager.statusOf_beginCancel hcall
      exact .cancels q now reason rfl hactive (by rw [hruns, hcreated]) fun r => by
        rw [hruns, hstatus]

def Created (t : TeamWork) (w : Wired) (r : String) : Prop :=
  t.manager.generateId.Drawn w.runs.created r

variable {r : String}

theorem Created.fire (h : t.Created w r) (step : WiredStep) :
    t.Created (t.machine.fire w step) r := by
  rw [Created]
  cases t.runStep w step with
  | opens op operate binds created status =>
    rw [created]
    exact h.mono (Nat.le_succ _)
  | keeps created status => rwa [created]
  | aborts binding delivers created status => rwa [created]
  | summarizes summary delivers created status => rwa [created]
  | cancels q now reason call active created status => rwa [created]

/-- How a step can have left a run that was created before with this status: as it was, by
a summary, or by a cancellation that found it open. -/
theorem Created.status_cases (hr : t.Created w r) {b : TeamRunStatus}
    (hb : (t.machine.fire w step).runs.statusOf r = some b) :
    ∃ old, w.runs.statusOf r = some old ∧
      (b = old ∨
        (∃ summary, Delivers w step (.applyWorkSummary summary) ∧ summary.teamRunId = r ∧
          b = TeamRunManager.statusAfter summary old) ∨
        old.isActive ∧ b = .cancelling) := by
  cases t.runStep w step with
  | opens op operate binds created after =>
    -- the next run takes the place of the record and has a new id
    rw [after, if_neg hr.ne_draw] at hb
    cases hb
  | keeps created after => exact ⟨b, (after r).symm.trans hb, .inl rfl⟩
  | aborts binding delivers created after =>
    rw [after] at hb
    split at hb
    · cases hb
    · exact ⟨b, hb, .inl rfl⟩
  | summarizes summary delivers created after =>
    rw [after] at hb
    split at hb
    · rename_i hid
      obtain ⟨old, hold, rfl⟩ := Option.map_eq_some_iff.mp hb
      exact ⟨old, hold, .inr (.inl ⟨summary, delivers, hid.symm, rfl⟩)⟩
    · exact ⟨b, hb, .inl rfl⟩
  | cancels q now reason call active created after =>
    rw [after] at hb
    split at hb
    · rename_i hq
      obtain ⟨old, hold, hopen⟩ := active
      exact ⟨old, hq ▸ hold, .inr (.inr ⟨hopen, (Option.some.inj hb).symm⟩)⟩
    · exact ⟨b, hb, .inl rfl⟩

/-- The run of the manager's record has been created. -/
theorem created_of_reachable (h : t.machine.Reachable w) {status : TeamRunStatus}
    (hr : w.runs.statusOf r = some status) : t.Created w r := by
  refine h.invariant (P := fun w => ∀ r status, w.runs.statusOf r = some status → t.Created w r)
    ?_ (fun w step hw _ r status hr => ?_) r status hr
  · rintro _ rfl r status hr
    simp [Wired.empty, TeamRunState.empty, TeamRunState.statusOf, TeamRunState.recordOf] at hr
  · cases t.runStep w step with
    | opens op operate binds created after =>
      rw [after] at hr
      split at hr
      · rename_i hnew
        rw [Created, created, hnew]
        exact t.manager.generateId.drawn_draw (Nat.lt_succ_self _)
      · cases hr
    | keeps created after =>
      rw [after] at hr
      exact (hw r status hr).fire step
    | aborts binding delivers created after =>
      rw [after] at hr
      split at hr
      · cases hr
      · exact (hw r status hr).fire step
    | summarizes summary delivers created after =>
      rw [after] at hr
      split at hr
      · obtain ⟨status', hr, -⟩ := Option.map_eq_some_iff.mp hr
        exact (hw r status' hr).fire step
      · exact (hw r status hr).fire step
    | cancels q now reason call active created after =>
      rw [after] at hr
      split at hr
      · rename_i hq
        obtain ⟨status', hq', -⟩ := active
        exact (hw r status' (hq ▸ hq')).fire step
      · exact (hw r status hr).fire step

end TeamWork

end AionCore.Team
