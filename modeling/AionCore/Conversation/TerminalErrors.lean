import AionCore.Conversation.TurnOrchestrator
import Mathlib.Algebra.GroupWithZero.Nat

/-!
# Conversations: terminal errors

The relay defers an error by the lifecycle before the send, and the turn is replayed, or the
deferred error told, by the lifecycle after it. An error that ends a turn is told once, and one
that is replayed is not told, exactly if the two agree.
-/

namespace AionCore.Conversation

theorem RuntimeLifecycleState.allows_sendFailureTip (lifecycle : RuntimeLifecycleState) :
    lifecycle.allows .sendFailureTip = true ↔ lifecycle = .active := by
  cases lifecycle <;> decide

namespace UserTurn

variable {input : TurnStartInput} {t : UserTurn} {step : TurnStep}

def shownErrors (t : UserTurn) : ℕ := (t.sends.map (·.state.shownErrors)).sum + t.tips

/-- An error of the stream that fails the turn is told once; one that is replayed is not told. -/
structure ToldOnce (t : UserTurn) : Prop where
  failed : t.stage = .release ∨ t.stage = .done → t.failure = some .stream → t.shownErrors = 1
  replayed : t.FirstAttempt fun send => send.state.shownErrors = 0

instance (t : UserTurn) : Decidable t.ToldOnce :=
  decidable_of_iff
    ((t.stage = .release ∨ t.stage = .done → t.failure = some .stream → t.shownErrors = 1) ∧
      (t.Replays → ∀ send ∈ t.sends, send.replay = false → send.state.shownErrors = 0))
    ⟨fun h => ⟨h.1, h.2⟩, fun h => ⟨h.failed, h.replayed⟩⟩

def WritesSucceed (_ : UserTurn) : TurnStep → Prop
  | .tipped _ ok => ok = true
  | .built _ | .workspacePersisted _ | .sampled _ | .modeApplied _ | .startSend | .relayed _
  | .decided | .settled _ | .evicted | .released => True

/-- A turn is replayed only if the lifecycle was active before the send, and a deferred error is
told while it is active. -/
def LifecyclesAgree (t : UserTurn) : TurnStep → Prop
  | .settled lifecycle => t.replays lifecycle = true → t.lifecycle = .active
  | .tipped lifecycle _ => t.stage = .tip true → lifecycle = .active
  | .built _ | .workspacePersisted _ | .sampled _ | .modeApplied _ | .startSend | .relayed _
  | .decided | .evicted | .released => True

instance (t : UserTurn) : ∀ step, Decidable (t.WritesSucceed step)
  | .tipped _ ok => inferInstanceAs (Decidable (ok = true))
  | .built _ | .workspacePersisted _ | .sampled _ | .modeApplied _ | .startSend | .relayed _
  | .decided | .settled _ | .evicted | .released => .isTrue trivial

instance (t : UserTurn) : ∀ step, Decidable (t.LifecyclesAgree step)
  | .settled lifecycle =>
    inferInstanceAs (Decidable (t.replays lifecycle = true → t.lifecycle = .active))
  | .tipped lifecycle _ => inferInstanceAs (Decidable (t.stage = .tip true → lifecycle = .active))
  | .built _ | .workspacePersisted _ | .sampled _ | .modeApplied _ | .startSend | .relayed _
  | .decided | .evicted | .released => .isTrue trivial

def Counted (t : UserTurn) : Prop :=
  match t.stage with
  | .build | .workspace | .head | .mode | .relay | .evict => t.shownErrors = 0
  | .decide | .settle => (t.sends.dropLast.map (·.state.shownErrors)).sum = 0 ∧ t.tips = 0
  | .tip true => t.shownErrors = 0 ∧ t.failure = some .stream
  | .tip false => t.failure ≠ some .stream
  | .release | .done => t.failure = some .stream → t.shownErrors = 1

/-- After a send nothing is shown but its own error, and that exactly if it was not deferred. -/
theorem Counted.shownErrors_eq (h : t.Recorded) (hcounted : t.Counted)
    (hstage : t.stage = .decide ∨ t.stage = .settle) :
    t.shownErrors = if t.outcome.terminal.isError &&
      !t.outcome.attempt.terminalErrorDeferred then 1 else 0 := by
  have hafter : t.stage.afterRelay = true := by obtain hs | hs := hstage <;> rw [hs] <;> rfl
  obtain ⟨front, send, hsends, -, houtcome, -⟩ := h.last hafter
  have hmem : send ∈ t.sends := by
    rw [hsends]
    exact List.mem_append_right _ (List.mem_singleton_self send)
  have hshown := (h.reports send hmem).shown
  have hcount : (t.sends.dropLast.map (·.state.shownErrors)).sum = 0 ∧ t.tips = 0 := by
    obtain hs | hs := hstage <;> rw [Counted, hs] at hcounted <;> exact hcounted
  rw [hsends, List.dropLast_concat] at hcount
  rw [shownErrors, hsends, List.map_append, List.sum_append, hcount.1, hcount.2, Nat.zero_add,
    Nat.add_zero, List.map_singleton, List.sum_singleton, hshown, houtcome]

theorem Counted.nothing (h : t.Counted)
    (hstage : t.stage.beforeSend = true ∨ t.stage = .relay ∨ t.stage = .evict) :
    t.shownErrors = 0 := by
  unfold Counted at h
  cases hs : t.stage <;> rw [hs] at h hstage <;> first
    | exact h
    | (obtain hb | hb | hb := hstage <;> cases hb)

theorem Counted.fire (h : t.Recorded) (hcounted : t.Counted)
    (hadmits : (machine input).admits t step) (hok : t.WritesSucceed step)
    (hagree : t.LifecyclesAgree step) : (t.fire input step).Counted := by
  obtain ⟨hstage, henabled⟩ := hadmits
  cases step with
  | built reply =>
    have hbuild : t.stage = .build := hstage
    have hnothing := hcounted.nothing (.inl (by rw [hbuild]; rfl))
    cases reply with
    | none => exact fun hfailure => (by cases hfailure)
    | some agentType => exact hnothing
  | workspacePersisted ok =>
    have hworkspace : t.stage = .workspace := hstage
    have hnothing := hcounted.nothing (.inl (by rw [hworkspace]; rfl))
    cases ok with
    | false => exact fun hfailure => (by cases hfailure)
    | true => exact hnothing
  | sampled lifecycle =>
    have hhead : t.stage = .head := hstage
    have hnothing := hcounted.nothing (.inl (by rw [hhead]; rfl))
    simp only [UserTurn.fire]
    split <;> exact hnothing
  | modeApplied ok =>
    have hmode : t.stage = .mode := hstage
    have hnothing := hcounted.nothing (.inl (by rw [hmode]; rfl))
    cases ok with
    | false => exact fun hfailure => (by cases hfailure)
    | true => exact hnothing
  | startSend => exact hcounted
  | relayed stream =>
    obtain hsame | ⟨send, hafter, hsend, -⟩ := relayed_cases henabled
    · simp only [UserTurn.fire, hsame]
      exact hcounted
    · have hnothing := hcounted.nothing (.inr (.inl hstage))
      rw [shownErrors, Nat.add_eq_zero_iff] at hnothing
      simp only [UserTurn.fire, hafter]
      show ((t.sends ++ [send]).dropLast.map (·.state.shownErrors)).sum = 0 ∧ t.tips = 0
      rw [List.dropLast_concat]
      exact hnothing
  | decided =>
    have hshown := hcounted.shownErrors_eq h (.inl hstage)
    simp only [UserTurn.fire, decided_eq]
    split
    · rename_i hgoes
      rw [hgoes.terminal] at hshown
      exact hshown
    · rw [Counted, show t.stage = .decide from hstage] at hcounted
      exact hcounted
  | settled lifecycle =>
    have hshown := hcounted.shownErrors_eq h (.inr hstage)
    have hsettles := t.settles lifecycle
    simp only [UserTurn.fire]
    generalize t.settled lifecycle = t' at hsettles ⊢
    cases hsettles with
    | completes terminal => exact fun hfailure => (by cases hfailure)
    | replays terminal replays =>
      have hdeferred := (deferred_iff h hstage replays).2 (hagree replays)
      rw [hdeferred, Bool.not_true, Bool.and_false] at hshown
      exact hshown
    | tips terminal stays deferred error =>
      rw [deferred, Bool.not_true, Bool.and_false] at hshown
      exact ⟨hshown, rfl⟩
    | fails terminal stays shown =>
      have hdeferred : t.outcome.attempt.terminalErrorDeferred = false := by
        obtain hs | hs := shown
        · exact hs
        · obtain ⟨send, -, hreports⟩ :=
            h.lastSend (by rw [show t.stage = .settle from hstage]; rfl)
          rw [Bool.eq_false_iff]
          intro hd
          have hsome := (hreports.silent hd).2
          rw [hs] at hsome
          cases hsome
      rw [terminal, hdeferred] at hshown
      exact fun _ => hshown
  | evicted =>
    have hevict : t.stage = .evict := hstage
    exact hcounted.nothing (.inr (.inr hevict))
  | tipped lifecycle ok =>
    obtain ⟨deferred, htip⟩ := hstage
    rw [Counted, htip] at hcounted
    cases deferred with
    | false => exact fun hfailure => absurd hfailure hcounted
    | true =>
      intro _
      have hallows : lifecycle.allows .sendFailureTip = true :=
        (RuntimeLifecycleState.allows_sendFailureTip lifecycle).2 (hagree htip)
      have hone : (t.tipped lifecycle ok).tips = t.tips + 1 := if_pos ⟨htip, hallows, hok⟩
      show (t.sends.map (·.state.shownErrors)).sum + (t.tipped lifecycle ok).tips = 1
      rw [hone, ← Nat.add_assoc, show _ + t.tips = 0 from hcounted.1]
  | released =>
    rw [Counted, show t.stage = .release from hstage] at hcounted
    exact hcounted

theorem counted_start (nextId : ℕ) : (start input nextId).Counted := rfl

/-- A replay shows nothing before it if it is decided as the lifecycles agree. -/
theorem toldBefore_fire (h : t.Recorded) (htold : t.ToldOnce)
    (hadmits : (machine input).admits t step) (hagree : t.LifecyclesAgree step)
    (hcounted : t.Counted) :
    (t.fire input step).FirstAttempt fun send => send.state.shownErrors = 0 := by
  rw [firstAttempt_fire_iff h htold.replayed hadmits]
  rintro lifecycle rfl hreplays send hmem
  have hstage : t.stage = .settle := hadmits.1
  have hdeferred := (deferred_iff h hstage hreplays).2 (hagree hreplays)
  have hshown := hcounted.shownErrors_eq h (.inr hstage)
  rw [hdeferred, Bool.not_true, Bool.and_false, shownErrors] at hshown
  have hsum := (Nat.add_eq_zero_iff.1 hshown).1
  exact List.sum_eq_zero_iff_forall_eq_nat.1 hsum _ (List.mem_map_of_mem hmem)

theorem Counted.failed (h : t.Counted) (hstage : t.stage = .release ∨ t.stage = .done)
    (hfailure : t.failure = some .stream) : t.shownErrors = 1 := by
  unfold Counted at h
  obtain hs | hs := hstage <;> rw [hs] at h <;> exact h hfailure

/-- The next step tells errors once exactly if the lifecycles agree on it. -/
theorem toldOnce_fire_iff (h : t.Recorded) (hcounted : t.Counted) (htold : t.ToldOnce)
    (hadmits : (machine input).admits t step) (hok : t.WritesSucceed step) :
    (t.fire input step).ToldOnce ↔ t.LifecyclesAgree step := by
  constructor
  · intro htold'
    cases step with
    | settled lifecycle =>
      intro hreplays
      have herror := ((replays_iff t lifecycle).1 hreplays).2.2.1
      have hstage : t.stage = .settle := hadmits.1
      obtain ⟨send, hmem, hreports⟩ := h.lastSend (by rw [hstage]; rfl)
      have hzero := (firstAttempt_fire_iff h htold.replayed hadmits).1 htold'.replayed lifecycle
        rfl hreplays send hmem
      rw [← deferred_iff h hstage hreplays]
      exact (hreports.shownErrors_eq_zero_iff herror).1 hzero
    | tipped lifecycle ok =>
      intro htip
      rw [Counted, htip] at hcounted
      have hone := htold'.failed (.inl rfl) hcounted.2
      rw [← RuntimeLifecycleState.allows_sendFailureTip]
      by_contra hnot
      have htips : (t.tipped lifecycle ok).tips = t.tips := if_neg fun hall => hnot hall.2.1
      have hzero : (t.sends.map (·.state.shownErrors)).sum + t.tips = 0 := hcounted.1
      have hsum : (t.sends.map (·.state.shownErrors)).sum + (t.tipped lifecycle ok).tips = 1 :=
        hone
      rw [htips, hzero] at hsum
      cases hsum
    | built | workspacePersisted | sampled | modeApplied | startSend | relayed | decided | evicted
    | released => trivial
  · intro hagree
    have hcounted' := hcounted.fire h hadmits hok hagree
    exact ⟨hcounted'.failed, toldBefore_fire h htold hadmits hagree hcounted⟩

/-- A turn with any replies, streams and lifecycles whose tips are written. -/
abbrev writing (input : TurnStartInput) : Machine UserTurn TurnStep :=
  (machine input).restrict WritesSucceed

/-- As long as the lifecycle is active before a send that is replayed and when a deferred error is
told, an error that fails the turn is told once and one that is replayed is not told. The next step
keeps it so exactly if it meets this. -/
theorem failed_turn_told_once (h : ((writing input).restrict LifecyclesAgree).Reachable t) :
    t.ToldOnce ∧ ∀ step, (writing input).admits t step →
      ((t.fire input step).ToldOnce ↔ t.LifecyclesAgree step) := by
  have hboth : t.Counted ∧ t.ToldOnce := by
    refine h.invariant_of_reachable (P := fun t => t.Counted ∧ t.ToldOnce) ?_ ?_
    · rintro _ ⟨nextId, rfl⟩
      refine ⟨counted_start nextId, ⟨?_, fun _ send hmem => absurd hmem List.not_mem_nil⟩⟩
      rintro (hstage | hstage) <;> cases hstage
    · intro s step hr hs hadmits
      have hrecorded := recorded_of_reachable hr.of_restrict.of_restrict
      exact ⟨hs.1.fire hrecorded hadmits.1.1 hadmits.1.2 hadmits.2,
        (toldOnce_fire_iff hrecorded hs.1 hs.2 hadmits.1.1 hadmits.1.2).2 hadmits.2⟩
  have hrecorded := recorded_of_reachable h.of_restrict.of_restrict
  exact ⟨hboth.2, fun step hadmits =>
    toldOnce_fire_iff hrecorded hboth.1 hboth.2 hadmits.1 hadmits.2⟩

def erringRun (before after : RuntimeLifecycleState) : List TurnStep :=
  [.built (some .acp), .workspacePersisted true, .sampled before, .startSend,
    .relayed [.under before (.event (.error ⟨"overloaded", none, some true⟩))], .decided,
    .settled after]

def failedReplay : List TurnStep :=
  erringRun .active .active ++ [.evicted, .built (some .acp), .workspacePersisted true,
    .sampled .active, .startSend,
    .relayed [.under .active (.event (.error ⟨"overloaded", none, some true⟩))], .decided,
    .settled .active, .released]

theorem failed_turn_told_once_sample :
    let t := (machine plainTurn).run (.start plainTurn 0) failedReplay
    t.stage = .done ∧ t.failure = some .stream ∧ t.shownErrors = 1 := by
  have haccepts : ((writing plainTurn).restrict LifecyclesAgree).Accepts (.start plainTurn 0)
      failedReplay := by
    decide +kernel
  have htold := (failed_turn_told_once (Machine.reachable_run ⟨0, rfl⟩ haccepts)).1
  have hdone : ((machine plainTurn).run (.start plainTurn 0) failedReplay).stage = .done := by
    decide +kernel
  have hfailure : ((machine plainTurn).run (.start plainTurn 0) failedReplay).failure =
      some .stream := by
    decide +kernel
  exact ⟨hdone, hfailure, htold.failed (.inr hdone) hfailure⟩

/-- An error that is deferred and never told, because the lifecycle is not active any more; and one
that is shown and replayed. -/
theorem errors_lost_or_replayed :
    ∀ run ∈ [erringRun .active .cancelling ++ [.tipped .cancelling true, .released],
      erringRun .cancelling .active],
    (writing plainTurn).Accepts (.start plainTurn 0) run ∧
      ¬((writing plainTurn).run (.start plainTurn 0) run).ToldOnce := by
  decide +kernel

theorem not_forall_told_once :
    ¬∀ t : UserTurn, (writing plainTurn).Reachable t → t.ToldOnce := by
  intro h
  obtain ⟨haccepts, hnot⟩ := errors_lost_or_replayed _ List.mem_cons_self
  exact hnot (h _ (Machine.reachable_run ⟨0, rfl⟩ haccepts))

end UserTurn

end AionCore.Conversation
