import AionCore.Team.RunFinality

/-!
# Cancelled runs

`begin_cancel` marks a run as Cancelling and `cancel_run` ends its work afterwards. A
summary that shows a running batch makes the run Running again, so what arrives in
between decides whether the cancellation is remembered.
-/

namespace AionCore.Team

/-- The moves that a cancellation allows: a Cancelling run becomes Cancelled or Failed. -/
def CancelMove (a b : TeamRunStatus) : Prop :=
  (a = .cancelling ∨ a = .cancelled ∨ a = .failed) ∧
    (b = a ∨ a = .cancelling ∧ (b = .cancelled ∨ b = .failed))

/-- The summary moves a run of this status as its cancellation allows. -/
def KeepsCancelled (summary : RunWorkSummary) : TeamRunStatus → Prop
  | .cancelling =>
    summary.failedIntentCount > 0 ∨ TeamRunManager.noWork summary ∨ summary.runningBatchCount = 0
  | status => StaysClosed summary status

theorem CancelMove.trans {a b d : TeamRunStatus} (h : CancelMove a b) (h' : CancelMove b d) :
    CancelMove a d := by
  obtain ⟨ha, rfl | ⟨rfl, hb⟩⟩ := h
  · exact h'
  · obtain ⟨-, rfl | ⟨rfl, -⟩⟩ := h'
    · exact ⟨ha, .inr ⟨rfl, hb⟩⟩
    · rcases hb with hb | hb <;> cases hb

theorem CancelMove.cancelling_of_active {a b : TeamRunStatus} (h : CancelMove a b)
    (hb : b.isActive) : b = .cancelling := by
  obtain ⟨rfl | rfl | rfl, rfl | ⟨-, rfl | rfl⟩⟩ := h <;> first | rfl | cases hb

theorem CancelMove.refl_right {a b : TeamRunStatus} (h : CancelMove a b) : CancelMove b b := by
  obtain ⟨ha, rfl | ⟨-, hb⟩⟩ := h
  · exact ⟨ha, .inl rfl⟩
  · exact ⟨.inr hb, .inl rfl⟩

namespace TeamRunManager

/-- The condition is exact. -/
theorem statusAfter_cancel_iff {summary : RunWorkSummary} {status : TeamRunStatus}
    (h : CancelMove status status) :
    CancelMove status (statusAfter summary status) ↔ KeepsCancelled summary status := by
  obtain ⟨rfl | rfl | rfl, -⟩ := h
  · simp only [KeepsCancelled, statusAfter, CancelMove]
    split
    · simp_all
    · split
      · simp_all
      · split <;> simp_all
        omega
  · rw [KeepsCancelled, ← statusAfter_closed_iff rfl]
    · simp [CancelMove]
    · nofun
  · rw [KeepsCancelled, ← statusAfter_closed_iff rfl]
    · simp [CancelMove]
    · nofun

end TeamRunManager

namespace TeamWork

open SlotWorkCoordinator (userRequest userLease userBatch)

variable {t : TeamWork}

/-- A summary of the run that the step delivers moves it as its cancellation allows. -/
def KeepsCancel (r : String) (w : Wired) (step : WiredStep) : Prop :=
  ∀ summary status, Delivers w step (.applyWorkSummary summary) → summary.teamRunId = r →
    w.runs.statusOf r = some status → KeepsCancelled summary status

variable {a : TeamRunStatus}

theorem cancel_step {w : Wired} {r : String} (hr : t.Created w r)
    (hmove : ∀ b, w.runs.statusOf r = some b → CancelMove a b) {step : WiredStep}
    (hkeeps : KeepsCancel r w step) {b : TeamRunStatus}
    (hb : (t.machine.fire w step).runs.statusOf r = some b) : CancelMove a b := by
  obtain ⟨old, hold, hstep⟩ := hr.status_cases hb
  have hmoved : CancelMove a old := hmove old hold
  rcases hstep with rfl | ⟨summary, hdelivers, hid, rfl⟩ | ⟨hopen, rfl⟩
  · exact hmoved
  · exact hmoved.trans ((TeamRunManager.statusAfter_cancel_iff hmoved.refl_right).mpr
      (hkeeps summary old hdelivers hid hold))
  · -- only a run that is still Cancelling can be cancelled once more
    obtain rfl := hmoved.cancelling_of_active hopen
    exact hmoved

/-- What the run's status can be, once it is `a`, in a session whose deliveries all allow
the cancellation. -/
theorem cancel_reaches {w w' : Wired} {r : String} (hr : t.Created w r)
    (ha : w.runs.statusOf r = some a) (hself : CancelMove a a)
    (hreaches : (t.machine.restrict (KeepsCancel r)).Reaches w w') :
    t.Created w' r ∧ ∀ b, w'.runs.statusOf r = some b → CancelMove a b := by
  refine hreaches.preserves (M := t.machine.restrict (KeepsCancel r))
    (P := fun w => t.Created w r ∧ ∀ b, w.runs.statusOf r = some b → CancelMove a b)
    (fun w step hw hstep => ?_) ⟨hr, fun b hb => ?_⟩
  · exact ⟨hw.1.fire step, fun _ hb => cancel_step hw.1 hw.2 hstep.2 hb⟩
  · obtain rfl := Option.some.inj (ha.symm.trans hb)
    exact hself

/-- After `begin_cancel` has succeeded the run only moves from Cancelling to Cancelled or
Failed, in every run of the session whose deliveries all allow it. The condition is exact. -/
theorem cancellation_is_remembered {w : Wired} {r : String} (h : t.machine.Reachable w)
    {now : TimestampMs} {reason : Option String} {out : TeamRunState × Option TeamRunEvent}
    (hok : t.manager.beginCancel w.runs now r reason = .ok out) :
    (∀ w₁ w₂ a b, (t.machine.restrict (KeepsCancel r)).Reaches (t.beginCancel w r now reason) w₁ →
      (t.machine.restrict (KeepsCancel r)).Reaches w₁ w₂ → w₁.runs.statusOf r = some a →
      w₂.runs.statusOf r = some b → CancelMove a b) ∧
    ∀ w₁ a, CancelMove a a → w₁.runs.statusOf r = some a → ∀ step summary,
      Delivers w₁ step (.applyWorkSummary summary) → summary.teamRunId = r →
      ((∃ b, (t.machine.fire w₁ step).runs.statusOf r = some b ∧ CancelMove a b) ↔
        KeepsCancelled summary a) := by
  constructor
  · intro w₁ w₂ a b h₁ h₂ ha hb
    obtain ⟨⟨status, hstatus, -⟩, hcreated, hafter⟩ := t.manager.statusOf_beginCancel hok
    have hruns : (t.beginCancel w r now reason).runs = out.1 := by
      simp only [beginCancel, hok]
    have hr : t.Created (t.beginCancel w r now reason) r := by
      rw [Created, hruns, hcreated]
      exact created_of_reachable h hstatus
    obtain ⟨hr₁, hmove⟩ := cancel_reaches hr (by rw [hruns, hafter, if_pos rfl])
      ⟨.inl rfl, .inl rfl⟩ h₁
    exact (cancel_reaches hr₁ ha (hmove a ha).refl_right h₂).2 b hb
  · rintro w₁ a hself ha step summary hdelivers rfl
    rw [status_of_delivers hdelivers, ha, Option.map_some,
      ← TeamRunManager.statusAfter_cancel_iff hself]
    simp

theorem cancellation_is_remembered_sample :
    (∀ w₁ w₂ a b, (sample.machine.restrict (KeepsCancel "r")).Reaches
        (sample.beginCancel (sample.machine.run .empty claimUserMessage) "r" 0 none) w₁ →
      (sample.machine.restrict (KeepsCancel "r")).Reaches w₁ w₂ →
      w₁.runs.statusOf "r" = some a → w₂.runs.statusOf "r" = some b → CancelMove a b) ∧
    ∀ w₁ a, CancelMove a a → w₁.runs.statusOf "r" = some a → ∀ step summary,
      Delivers w₁ step (.applyWorkSummary summary) → summary.teamRunId = "r" →
      ((∃ b, (sample.machine.fire w₁ step).runs.statusOf "r" = some b ∧ CancelMove a b) ↔
        KeepsCancelled summary a) :=
  @cancellation_is_remembered sample _ "r" (Machine.reachable_run rfl (by decide)) 0 none _ rfl

def beginUserCancel : List SessionStep :=
  [.operation (.setRuntimeConstraint "lead" .ready .stored) 0,
    .operation (.acquireEnqueue userRequest) 0,
    .operation (.commitEnqueue userLease (some "m") 0) 0, .operation (.next "lead") 0,
    .beginCancel "r" 0 none]

/-- The turn starts between `begin_cancel` and `cancel_run`: the run is Running again, and
when its work has been cancelled it is Completed. -/
theorem cancellation_is_forgotten :
    ∃ w w₁ w₂, sample.sessionMachine.Reachable w ∧ w.runs.statusOf "r" = some .cancelling ∧
      w₁ = sample.sessionMachine.fire w (.operation (.markStarted userBatch "turn" 0) 0) ∧
      w₁.runs.statusOf "r" = some .running ∧
      w₂ = sample.sessionMachine.fire w₁ (.operation (.cancelRun "r" .stored) 0) ∧
      w₂.runs.statusOf "r" = some .completed :=
  ⟨sample.sessionMachine.run .empty beginUserCancel, _, _,
    Machine.reachable_run rfl (by decide), by decide, rfl, by decide, rfl, by decide⟩

end TeamWork

end AionCore.Team
