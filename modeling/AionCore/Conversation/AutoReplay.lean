import AionCore.Conversation.TurnOrchestrator

/-!
# Conversations: automatic replays

A replay is decided from the summary of the first attempt. The summary is a fold over what the
relay has handled, so that a replay repeats nothing exactly if nothing went past it and the error
was not shown. The attempts and the sends are bounded in any case.
-/

namespace AionCore.Conversation

/-- The agent has emitted nothing that leaves a trace, nothing is written, no error is shown. -/
structure RelayedSend.LeftNothing (send : RelayedSend) : Prop where
  emitted : ∀ received ∈ send.stream, received.leavesTrace = false
  rows : send.state.rows = []
  shown : send.state.shownErrors = 0

namespace UserTurn

variable {input : TurnStartInput} {t : UserTurn} {step : TurnStep}

/-- A replay repeats nothing. -/
def ReplayIsClean (t : UserTurn) : Prop := t.FirstAttempt RelayedSend.LeftNothing

instance (send : RelayedSend) : Decidable send.LeftNothing :=
  decidable_of_iff (_ ∧ _ ∧ _) ⟨fun h => ⟨h.1, h.2.1, h.2.2⟩, fun h => ⟨h.emitted, h.rows, h.shown⟩⟩

instance (t : UserTurn) : Decidable t.ReplayIsClean :=
  inferInstanceAs (Decidable (t.Replays → ∀ send ∈ t.sends, send.replay = false →
    send.LeftNothing))

/-- An attempt that is replayed began in an active runtime, and the summary has noted all that its
sends have brought. -/
def Conservative (t : UserTurn) : TurnStep → Prop
  | .settled lifecycle => t.replays lifecycle = true →
    t.lifecycle = .active ∧ ∀ send ∈ t.sends, ∀ received ∈ send.stream, received.noted = true
  | .built _ | .workspacePersisted _ | .sampled _ | .modeApplied _ | .startSend | .relayed _
  | .decided | .evicted | .tipped _ _ | .released => True

instance (t : UserTurn) : ∀ step, Decidable (t.Conservative step)
  | .settled lifecycle => inferInstanceAs (Decidable (t.replays lifecycle = true →
      t.lifecycle = .active ∧ ∀ send ∈ t.sends, ∀ received ∈ send.stream, received.noted = true))
  | .built _ | .workspacePersisted _ | .sampled _ | .modeApplied _ | .startSend | .relayed _
  | .decided | .evicted | .tipped _ _ | .released => .isTrue trivial

theorem noted_of_leavesTrace {received : Received} (h : received.leavesTrace = false) :
    received.noted = true := by
  unfold Received.noted
  cases hsignal : received.signal with
  | closed => rfl
  | event event =>
    have hevent : event.leavesTrace = false := by
      simpa [Received.leavesTrace, RelaySignal.emitted, hsignal] using h
    simp [hevent]
  | lagged lost =>
    have hlost : lost.any (·.leavesTrace) = false := by
      simpa only [Received.leavesTrace, RelaySignal.emitted, hsignal] using h
    simp only [hlost, Bool.not_false]

/-- The sends of an attempt that is replayed. -/
theorem leftNothing_iff (h : t.Recorded) (hstage : t.stage = .settle)
    {lifecycle : RuntimeLifecycleState} (hreplays : t.replays lifecycle = true) :
    (∀ send ∈ t.sends, send.LeftNothing) ↔
      t.lifecycle = .active ∧ ∀ send ∈ t.sends, ∀ received ∈ send.stream,
        received.noted = true := by
  obtain ⟨-, -, herror, -, -, hsafe, hreplayed⟩ := (replays_iff t lifecycle).1 hreplays
  obtain ⟨front, send, hsends, -, houtcome, -, hsafe', hdefers, -⟩ :=
    h.last (by rw [hstage]; rfl)
  obtain ⟨rfl, -⟩ := hdefers hreplayed hsafe
  rw [List.nil_append] at hsends
  have hreports := h.reports send (by rw [hsends]; exact List.mem_singleton_self send)
  rw [houtcome] at hreports
  rw [hsends, ← deferred_iff h hstage hreplays, ← hreports.shownErrors_eq_zero_iff herror]
  simp only [List.mem_singleton, forall_eq]
  constructor
  · intro hleft
    exact ⟨hleft.shown, fun received hmem => noted_of_leavesTrace (hleft.emitted received hmem)⟩
  · rintro ⟨hshown, hnoted⟩
    have hdeferred := (hreports.shownErrors_eq_zero_iff herror).1 hshown
    refine ⟨fun received hmem => ?_, (hreports.silent hdeferred).1, hshown⟩
    exact hreports.noted (hsafe' hsafe) received hmem (hnoted received hmem)

/-- The next step keeps replays clean exactly if it is conservative. -/
theorem replayIsClean_fire_iff (h : t.Recorded) (hclean : t.ReplayIsClean)
    (hadmits : (machine input).admits t step) :
    (t.fire input step).ReplayIsClean ↔ t.Conservative step := by
  rw [ReplayIsClean, firstAttempt_fire_iff h hclean hadmits]
  cases step with
  | settled lifecycle =>
    constructor
    · intro hall hreplays
      exact (leftNothing_iff h hadmits.1 hreplays).1 (hall lifecycle rfl hreplays)
    · rintro hconservative _ ⟨⟩ hreplays
      exact (leftNothing_iff h hadmits.1 hreplays).2 (hconservative hreplays)
  | built | workspacePersisted | sampled | modeApplied | startSend | relayed | decided | evicted
  | tipped | released => exact iff_of_true (by simp) trivial

/-- The attempts and their sends are bounded, and the claim is released at the end. -/
structure Bounded (t : UserTurn) : Prop where
  attempts : t.attempts = if t.replayed then 2 else 1
  evict : t.stage = .evict → t.replayed = false
  count : t.continuationCount ≤ MAX_SYSTEM_RESPONSE_CONTINUATIONS_PER_TURN
  current : t.spawned.count t.attempts ≤ t.continuationCount + if t.stage.beforeSend then 0 else 1
  past : ∀ n < t.attempts, t.spawned.count n ≤ MAX_SYSTEM_RESPONSE_CONTINUATIONS_PER_TURN + 1
  future : ∀ n, t.attempts < n → t.spawned.count n = 0
  releases : t.releases = if t.stage = .done then 1 else 0

theorem bounded_start (nextId : ℕ) : (start input nextId).Bounded where
  attempts := rfl
  evict h := by cases h
  count := Nat.zero_le _
  current := le_rfl
  past _ _ := Nat.zero_le _
  future _ _ := rfl
  releases := rfl

/-- A step within an attempt that sends nothing. -/
theorem Bounded.stay (h : t.Bounded) {t' : UserTurn} (hattempts : t'.attempts = t.attempts)
    (hreplayed : t'.replayed = t.replayed) (hspawned : t'.spawned = t.spawned)
    (hcount : t'.continuationCount = t.continuationCount) (hreleases : t'.releases = t.releases)
    (hevict : t'.stage = .evict → t.replayed = false)
    (hbefore : t'.stage.beforeSend = true → t.stage.beforeSend = true)
    (hdone : t'.stage = .done ↔ t.stage = .done) : t'.Bounded := by
  refine ⟨?_, ?_, hcount ▸ h.count, ?_, ?_, ?_, ?_⟩
  · rw [hattempts, hreplayed, h.attempts]
  · rw [hreplayed]
    exact hevict
  · rw [hspawned, hattempts, hcount]
    have hcurrent := h.current
    by_cases hstage' : t'.stage.beforeSend = true
    · rw [if_pos (hbefore hstage')] at hcurrent
      rw [if_pos hstage']
      exact hcurrent
    · rw [if_neg hstage']
      split at hcurrent <;> omega
  · rw [hspawned, hattempts]
    exact h.past
  · rw [hspawned, hattempts]
    exact h.future
  · rw [hreleases, h.releases]
    simp only [hdone]

/-- A send is spawned. -/
theorem Bounded.spawnSend (h : t.Bounded) (hstage : t.stage.beforeSend = true) :
    t.spawnSend.Bounded := by
  have hcurrent := h.current
  rw [if_pos hstage] at hcurrent
  have hreleases : t.releases = 0 := by
    rw [h.releases, if_neg]
    intro hdone
    rw [hdone] at hstage
    cases hstage
  have hother : ∀ n, n ≠ t.attempts →
      (t.spawned ++ [t.attempts]).count n = t.spawned.count n := by
    intro n hn
    rw [List.count_append, List.count_singleton, if_neg (by simpa using hn.symm)]
    rfl
  refine ⟨h.attempts, fun hevict => (by cases hevict), h.count, ?_, ?_, ?_, hreleases⟩
  · show (t.spawned ++ [t.attempts]).count t.attempts ≤ t.continuationCount + 1
    rw [List.count_append, List.count_singleton_self]
    omega
  · intro n hn
    show (t.spawned ++ [t.attempts]).count n ≤ _
    rw [hother n (Nat.ne_of_lt hn)]
    exact h.past n hn
  · intro n hn
    show (t.spawned ++ [t.attempts]).count n = 0
    rw [hother n (Nat.ne_of_gt hn)]
    exact h.future n hn

/-- The second attempt. -/
theorem Bounded.evicted (h : t.Bounded) (hstage : t.stage = .evict) :
    (t.evicted input).Bounded := by
  have hfirst := h.attempts
  rw [h.evict hstage] at hfirst
  have hreleases := h.releases
  rw [hstage, if_neg (by decide)] at hreleases
  have hcurrent := h.current
  rw [hstage] at hcurrent
  refine ⟨?_, fun hevict => (by cases hevict), Nat.zero_le _, ?_, ?_, ?_, hreleases⟩
  · show t.attempts + 1 = 2
    rw [hfirst]
    rfl
  · show t.spawned.count (t.attempts + 1) ≤ 0
    rw [h.future _ (Nat.lt_succ_self _)]
  · intro n hn
    show t.spawned.count n ≤ _
    by_cases heq : n = t.attempts
    · rw [heq]
      have hcount := h.count
      have hone : (if TurnStage.evict.beforeSend = true then 0 else 1) = 1 := rfl
      omega
    · have hlt : n < t.attempts := by
        have : n < t.attempts + 1 := hn
        omega
      exact h.past n hlt
  · intro n hn
    have hlt : t.attempts + 1 < n := hn
    exact h.future n (by omega)

theorem Bounded.fire (h : t.Bounded) (hadmits : (machine input).admits t step) :
    (t.fire input step).Bounded := by
  obtain ⟨hstage, henabled⟩ := hadmits
  -- a step that is neither the spawn of a send, nor a new attempt, nor the release
  have hstay : ∀ t' : UserTurn, t'.attempts = t.attempts → t'.replayed = t.replayed →
      t'.spawned = t.spawned → t'.continuationCount = t.continuationCount →
      t'.releases = t.releases → (t'.stage = .evict → t.replayed = false) →
      (t'.stage.beforeSend = true → t.stage.beforeSend = true) → t'.stage ≠ .done →
      t.stage ≠ .done → t'.Bounded := by
    intro t' h₁ h₂ h₃ h₄ h₅ h₆ h₇ h₈ h₉
    exact h.stay h₁ h₂ h₃ h₄ h₅ h₆ h₇ (iff_of_false h₈ h₉)
  cases step with
  | built reply =>
    have hbuild : t.stage = .build := hstage
    cases reply <;>
      exact hstay _ rfl rfl rfl rfl rfl (fun hevict => (by cases hevict))
        (fun _ => by rw [hbuild]; rfl) (fun hdone => (by cases hdone))
          (by rw [hbuild]; decide)
  | workspacePersisted ok =>
    have hworkspace : t.stage = .workspace := hstage
    cases ok <;>
      exact hstay _ rfl rfl rfl rfl rfl (fun hevict => (by cases hevict))
        (fun _ => by rw [hworkspace]; rfl) (fun hdone => (by cases hdone))
          (by rw [hworkspace]; decide)
  | sampled lifecycle =>
    have hhead : t.stage = .head := hstage
    have hsample : (t.sample lifecycle).Bounded :=
      hstay _ rfl rfl rfl rfl rfl (fun hevict => by rw [sample, hhead] at hevict; cases hevict)
        id (by rw [sample, hhead]; decide) (by rw [hhead]; decide)
    simp only [UserTurn.fire]
    split
    · exact hstay _ rfl rfl rfl rfl rfl (fun hevict => (by cases hevict))
        (fun _ => by rw [hhead]; rfl) (fun hdone => (by cases hdone))
          (by rw [hhead]; decide)
    · apply hsample.spawnSend
      rw [sample, hhead]
      rfl
  | modeApplied ok =>
    have hmode : t.stage = .mode := hstage
    cases ok with
    | false =>
      exact hstay _ rfl rfl rfl rfl rfl (fun hevict => (by cases hevict))
        (fun _ => by rw [hmode]; rfl) (fun hdone => (by cases hdone))
          (by rw [hmode]; decide)
    | true => exact h.spawnSend (by rw [hmode]; rfl)
  | startSend =>
    exact h.stay rfl rfl rfl rfl rfl h.evict id Iff.rfl
  | relayed stream =>
    have hrelay : t.stage = .relay := hstage
    obtain hsame | ⟨send, hafter, -, -⟩ := relayed_cases henabled
    · simp only [UserTurn.fire, hsame]
      exact h
    · simp only [UserTurn.fire, hafter]
      exact hstay _ rfl rfl rfl rfl rfl (fun hevict => (by cases hevict))
        (fun hbefore => (by cases hbefore)) (fun hdone => (by cases hdone))
          (by rw [hrelay]; decide)
  | decided =>
    have hdecide : t.stage = .decide := hstage
    simp only [UserTurn.fire, decided_eq]
    split
    · rename_i hgoes
      have hcurrent := h.current
      have hreleases := h.releases
      rw [hdecide] at hcurrent
      rw [hdecide, if_neg (by decide)] at hreleases
      exact ⟨h.attempts, fun hevict => (by cases hevict), hgoes.count, hcurrent, h.past, h.future,
        hreleases⟩
    · exact hstay _ rfl rfl rfl rfl rfl (fun hevict => (by cases hevict))
        (fun hbefore => (by cases hbefore)) (fun hdone => (by cases hdone))
          (by rw [hdecide]; decide)
  | settled lifecycle =>
    have hsettle : t.stage = .settle := hstage
    have hsettles := t.settles lifecycle
    simp only [UserTurn.fire]
    generalize t.settled lifecycle = t' at hsettles ⊢
    cases hsettles with
    | completes | tips | fails =>
      exact hstay _ rfl rfl rfl rfl rfl (fun hevict => (by cases hevict))
        (fun hbefore => (by cases hbefore)) (fun hdone => (by cases hdone))
          (by rw [hsettle]; decide)
    | replays terminal replays =>
      exact hstay _ rfl rfl rfl rfl rfl
        (fun _ => ((replays_iff t lifecycle).1 replays).2.2.2.2.2.2)
        (fun hbefore => (by cases hbefore)) (fun hdone => (by cases hdone))
          (by rw [hsettle]; decide)
  | evicted => exact h.evicted hstage
  | tipped lifecycle ok =>
    obtain ⟨deferred, htip⟩ := hstage
    exact hstay _ rfl rfl rfl rfl rfl (fun hevict => (by cases hevict))
      (fun hbefore => (by cases hbefore)) (fun hdone => (by cases hdone))
        (fun hdone => by rw [htip] at hdone; cases hdone)
  | released =>
    have hrelease : t.stage = .release := hstage
    have hcurrent := h.current
    have hreleases := h.releases
    rw [hrelease] at hcurrent
    rw [hrelease, if_neg (by decide)] at hreleases
    refine ⟨h.attempts, fun hevict => (by cases hevict), h.count, hcurrent, h.past, h.future, ?_⟩
    show t.releases + 1 = 1
    rw [hreleases]

theorem bounded_of_reachable (h : (machine input).Reachable t) : t.Bounded := by
  refine h.invariant ?_ fun _ _ hbounded hadmits => hbounded.fire hadmits
  rintro _ ⟨nextId, rfl⟩
  exact bounded_start nextId

theorem Bounded.attempts_le (h : t.Bounded) : t.attempts ≤ 2 := by
  rw [h.attempts]
  split <;> omega

theorem Bounded.sends_le (h : t.Bounded) (n : ℕ) :
    t.spawned.count n ≤ MAX_SYSTEM_RESPONSE_CONTINUATIONS_PER_TURN + 1 := by
  obtain hlt | heq | hgt := Nat.lt_trichotomy n t.attempts
  · exact h.past n hlt
  · rw [heq]
    have hcurrent := h.current
    have hcount := h.count
    split at hcurrent <;> omega
  · rw [h.future n hgt]
    exact Nat.zero_le _

/-- There are two attempts at most, and the claim is released once, at the end. As long as each
replay is decided over an attempt whose runtime was active and whose events the summary has noted, a
replay repeats nothing, and the next step keeps it so exactly if it is such a step. -/
theorem replay_repeats_nothing (h : (machine input).Reachable t) :
    t.attempts ≤ 2 ∧
      (∀ n, t.spawned.count n ≤ MAX_SYSTEM_RESPONSE_CONTINUATIONS_PER_TURN + 1) ∧
      (t.releases = if t.stage = .done then 1 else 0) ∧
      (((machine input).restrict Conservative).Reachable t → t.ReplayIsClean ∧
        ∀ step, (machine input).admits t step →
          ((t.fire input step).ReplayIsClean ↔ t.Conservative step)) := by
  have hbounded := bounded_of_reachable h
  refine ⟨hbounded.attempts_le, hbounded.sends_le, hbounded.releases, fun hconservative => ?_⟩
  apply Machine.Reachable.exact
  · rintro _ ⟨nextId, rfl⟩ - send hmem
    exact absurd hmem List.not_mem_nil
  · intro s step hr hs hadmits
    exact replayIsClean_fire_iff (recorded_of_reachable hr) hs hadmits
  · exact hconservative

def replayedRun (lifecycle : RuntimeLifecycleState) (stream : List Received) : List TurnStep :=
  [.built (some .acp), .workspacePersisted true, .sampled lifecycle, .startSend, .relayed stream,
    .decided, .settled .active, .evicted]

def overloaded : RelaySignal := .event (.error ⟨"overloaded", none, some true⟩)

/-- An error before any output. -/
theorem replay_repeats_nothing_sample :
    let t := (machine plainTurn).run (.start plainTurn 0)
      (replayedRun .active [.under .active (.event .start), .under .active overloaded])
    t.ReplayIsClean ∧ t.replayed = true ∧ t.attempts ≤ 2 := by
  have haccepts : ((machine plainTurn).restrict Conservative).Accepts (.start plainTurn 0)
      (replayedRun .active [.under .active (.event .start), .under .active overloaded]) := by
    decide +kernel
  have hreachable := Machine.reachable_run (M := (machine plainTurn).restrict Conservative)
    ⟨0, rfl⟩ haccepts
  obtain ⟨hattempts, -, -, hclean⟩ := replay_repeats_nothing hreachable.of_restrict
  exact ⟨(hclean hreachable).1, by decide +kernel, hattempts⟩

/-- What a replay repeats: a tool call lost to lag, a tip of type error, a thinking that comes with
its end, a text that is skipped, and an error that is shown although it is replayed. -/
theorem replay_repeats :
    ∀ run ∈ [
      replayedRun .active [.under .active (.lagged [.toolCall ⟨"t", .completed, "done"⟩]),
        .under .active overloaded],
      replayedRun .active [.under .active (.event (.tips ⟨"quota", .error⟩)),
        .under .active overloaded],
      replayedRun .active [.under .active (.event (.thinking ⟨"plan", some "done"⟩)),
        .under .active overloaded],
      replayedRun .active [{ Received.under .active (.event (.text "a")) with deleting := true },
        .under .active overloaded],
      replayedRun .cancelling [.under .active overloaded]],
    (machine plainTurn).Accepts (.start plainTurn 0) run ∧
      ¬((machine plainTurn).run (.start plainTurn 0) run).ReplayIsClean := by
  decide +kernel

theorem not_forall_replay_is_clean :
    ¬∀ t : UserTurn, (machine plainTurn).Reachable t → t.ReplayIsClean := by
  intro h
  obtain ⟨haccepts, hnot⟩ := replay_repeats _ List.mem_cons_self
  exact hnot (h _ (Machine.reachable_run ⟨0, rfl⟩ haccepts))

end UserTurn

end AionCore.Conversation
