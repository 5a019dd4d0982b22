import AionCore.Conversation.TurnOrchestrator

/-!
# Conversations: a turn that is stopped

A turn together with the runtime state of all conversations. A cancellation, a deletion or the
shutdown stops the turn, and it should start no send from then on. The turn looks at the lifecycle
at the head of its loop and at its end only.
-/

namespace AionCore.Conversation

/-- A turn and the runtime around it, with the number of its claim. `stopped` says that a
cancellation that found the turn active has returned `Ok`, or that the conversation or the runtime
is closing; `late` counts the sends that were started from then on. -/
structure StoppableTurn where
  runtime : RuntimeWorld
  claim : ℕ
  turn : UserTurn
  stopped : Bool
  late : ℕ

inductive StoppableStep where
  | runtime (step : RuntimeStep)
  | turn (step : TurnStep)

namespace UserTurn

/-- The turn is on its way to a send. -/
def OnTheWay (t : UserTurn) : Prop :=
  0 < t.pending ∨ t.stage.beforeSend = true ∨ t.stage = .evict

instance (t : UserTurn) : Decidable t.OnTheWay := inferInstanceAs (Decidable (_ ∨ _))

theorem OnTheWay.of_off {t t' : UserTurn} (h : t'.OnTheWay) (hpending : t'.pending = t.pending)
    (hstage : t'.stage.beforeSend = false) (hevict : t'.stage ≠ .evict) : t.OnTheWay := by
  obtain hp | hbefore | he := h
  · exact .inl (hpending ▸ hp)
  · rw [hstage] at hbefore
    cases hbefore
  · exact absurd he hevict

/-- A step that sends the turn back on its way decides to continue or to replay. -/
theorem onTheWay_fire {input : TurnStartInput} {t : UserTurn} {step : TurnStep}
    (hadmits : (machine input).admits t step) (h : (t.fire input step).OnTheWay) :
    t.OnTheWay ∨ step = .decided ∧ t.GoesOn ∨
      ∃ lifecycle, step = .settled lifecycle ∧ t.replays lifecycle = true := by
  obtain ⟨hstage, henabled⟩ := hadmits
  cases step with
  | built reply => exact .inl (.inr (.inl (by rw [show t.stage = .build from hstage]; rfl)))
  | workspacePersisted ok =>
    exact .inl (.inr (.inl (by rw [show t.stage = .workspace from hstage]; rfl)))
  | sampled lifecycle => exact .inl (.inr (.inl (by rw [show t.stage = .head from hstage]; rfl)))
  | modeApplied ok => exact .inl (.inr (.inl (by rw [show t.stage = .mode from hstage]; rfl)))
  | startSend => exact .inl (.inl henabled)
  | relayed stream =>
    obtain hsame | ⟨send, hafter, -, -⟩ := relayed_cases henabled
    · simp only [fire, hsame] at h
      exact .inl h
    · simp only [fire, hafter] at h
      exact .inl (h.of_off rfl rfl fun hevict => (by cases hevict))
  | decided =>
    by_cases hgoes : t.GoesOn
    · exact .inr (.inl ⟨rfl, hgoes⟩)
    · simp only [fire, decided_eq, if_neg hgoes] at h
      exact .inl (h.of_off rfl rfl fun hevict => (by cases hevict))
  | settled lifecycle =>
    have hsettles := t.settles lifecycle
    simp only [fire] at h
    generalize t.settled lifecycle = t' at hsettles h
    cases hsettles with
    | replays terminal replays => exact .inr (.inr ⟨lifecycle, rfl, replays⟩)
    | completes | tips | fails => exact .inl (h.of_off rfl rfl fun hevict => (by cases hevict))
  | evicted => exact .inl (.inr (.inr hstage))
  | tipped lifecycle ok | released => exact .inl (h.of_off rfl rfl fun hevict => (by cases hevict))

def samplesOf : TurnStep → Option RuntimeLifecycleState
  | .sampled lifecycle | .settled lifecycle | .tipped lifecycle _ => some lifecycle
  | .built _ | .workspacePersisted _ | .modeApplied _ | .startSend | .relayed _ | .decided
  | .evicted | .released => none

end UserTurn

namespace StoppableTurn

variable (input : TurnStartInput) (conversationId turnId : String)

/-- The step stops the turn: a cancellation of it returns `Ok`, past the comparison of the turns,
or the conversation is marked as deleting, or the runtime as shutting down. -/
def stops (w : StoppableTurn) : RuntimeStep → Bool
  | .delete c => c = conversationId
  | .shutDown => true
  | .advanceCancel k reply =>
    w.runtime.cancels[k]?.any fun call =>
      call.conversationId = conversationId && call.turnId = turnId &&
        (call.stage = .lookup && !reply || call.stage = .agent && reply)
  | .claim _ _ | .release _ | .releaseForTurn _ _ | .advanceDelete _ _ | .cancel _ _ => false

def fire (w : StoppableTurn) : StoppableStep → StoppableTurn
  | .runtime step =>
    { w with
      runtime := w.runtime.fire step
      stopped := w.stopped || w.stops conversationId turnId step }
  | .turn step =>
    { w with
      turn := w.turn.fire input step
      runtime := match step with
        | .released => w.runtime.fire (.releaseForTurn w.claim turnId)
        | _ => w.runtime
      late := match step with
        | .startSend => if w.stopped then w.late + 1 else w.late
        | _ => w.late }

/-- The turn samples the lifecycle of its conversation. -/
def admits (w : StoppableTurn) : StoppableStep → Prop
  | .runtime _ => True
  | .turn step => (UserTurn.machine input).admits w.turn step ∧
    ∀ lifecycle ∈ UserTurn.samplesOf step,
      lifecycle = w.runtime.state.lifecycleFor conversationId

/-- The turn begins when it has claimed its conversation, at any time of the runtime. -/
def machine : Machine StoppableTurn StoppableStep where
  start w := ∃ v nextId claimed, RuntimeWorld.machine.Reachable v ∧
    v.state.tryClaimTurn conversationId turnId = .ok claimed ∧
    w = ⟨v.fire (.claim conversationId turnId), v.claims.length, .start input nextId, false, 0⟩
  admits := admits input conversationId
  fire := fire input conversationId turnId

/-- The turn is stopped while it is not on its way to a send, and a turn that is stopped neither
continues nor is replayed. -/
def StopsInTime (w : StoppableTurn) : StoppableStep → Prop
  | .runtime step => w.stops conversationId turnId step = true → ¬w.turn.OnTheWay
  | .turn .decided => w.stopped = true → ¬w.turn.GoesOn
  | .turn (.settled lifecycle) => w.stopped = true → w.turn.replays lifecycle = false
  | .turn _ => True

/-- Some run from here starts a send of the stopped turn. -/
def MaySendLate (w : StoppableTurn) : Prop :=
  ∃ w', (machine input conversationId turnId).Reaches w w' ∧ 0 < w'.late

instance (w : StoppableTurn) : ∀ step, Decidable ((machine input conversationId turnId).admits w step)
  | .runtime _ => .isTrue trivial
  | .turn step => inferInstanceAs (Decidable ((UserTurn.machine input).admits w.turn step ∧
      ∀ lifecycle ∈ UserTurn.samplesOf step,
        lifecycle = w.runtime.state.lifecycleFor conversationId))

instance (w : StoppableTurn) : ∀ step, Decidable (w.StopsInTime conversationId turnId step)
  | .runtime _ => inferInstanceAs (Decidable (_ = true → ¬_))
  | .turn .decided => inferInstanceAs (Decidable (_ = true → ¬_))
  | .turn (.settled _) => inferInstanceAs (Decidable (_ = true → _ = false))
  | .turn (.built _) | .turn (.workspacePersisted _) | .turn (.sampled _) | .turn (.modeApplied _)
  | .turn .startSend | .turn (.relayed _) | .turn .evicted | .turn (.tipped _ _)
  | .turn .released => .isTrue trivial

/-- A turn that is stopped is not on its way to a send, and has started none since. -/
structure Stopped (w : StoppableTurn) : Prop where
  late : w.late = 0
  off : w.stopped = true → ¬w.turn.OnTheWay

variable {input conversationId turnId} {w : StoppableTurn}

theorem Stopped.runtime_iff (h : w.Stopped) (step : RuntimeStep) :
    (w.fire input conversationId turnId (.runtime step)).Stopped ↔
      w.StopsInTime conversationId turnId (.runtime step) := by
  constructor
  · intro h' hstops
    apply h'.off
    show (w.stopped || w.stops conversationId turnId step) = true
    rw [hstops, Bool.or_true]
  · intro hintime
    refine ⟨h.late, fun hstopped => ?_⟩
    obtain hs | hs := (Bool.or_eq_true _ _).mp hstopped
    · exact h.off hs
    · exact hintime hs

theorem Stopped.turn_iff (h : w.Stopped) {step : TurnStep}
    (hadmits : (UserTurn.machine input).admits w.turn step) :
    (w.fire input conversationId turnId (.turn step)).Stopped ↔
      w.StopsInTime conversationId turnId (.turn step) := by
  have hlate : (w.fire input conversationId turnId (.turn step)).late = 0 := by
    cases step with
    | startSend =>
      have hnot : ¬w.stopped = true := fun hs => h.off hs (.inl hadmits.2)
      show (if w.stopped then w.late + 1 else w.late) = 0
      rw [if_neg hnot]
      exact h.late
    | built | workspacePersisted | sampled | modeApplied | relayed | decided | settled | evicted
    | tipped | released => exact h.late
  have hback := UserTurn.onTheWay_fire hadmits
  constructor
  · intro h'
    cases step with
    | decided =>
      intro hstopped hgoes
      apply h'.off hstopped
      refine .inr (.inl ?_)
      show (w.turn.decided input).stage.beforeSend = true
      rw [UserTurn.decided_eq, if_pos hgoes]
      rfl
    | settled lifecycle =>
      intro hstopped
      rw [Bool.eq_false_iff]
      intro hreplays
      apply h'.off hstopped
      refine .inr (.inr ?_)
      have herror := ((UserTurn.replays_iff w.turn lifecycle).1 hreplays).2.2.1
      show (w.turn.settled lifecycle).stage = .evict
      simp [UserTurn.settled, herror, hreplays]
    | built | workspacePersisted | sampled | modeApplied | startSend | relayed | evicted | tipped
    | released => trivial
  · intro hintime
    refine ⟨hlate, fun hstopped hway => ?_⟩
    obtain hway' | ⟨rfl, hgoes⟩ | ⟨lifecycle, rfl, hreplays⟩ := hback hway
    · exact h.off hstopped hway'
    · exact hintime hstopped hgoes
    · have hstays : w.turn.replays lifecycle = false := hintime hstopped
      rw [hreplays] at hstays
      cases hstays

theorem MaySendLate.of_fire {step : StoppableStep} (hadmits : admits input conversationId w step)
    (h : (w.fire input conversationId turnId step).MaySendLate input conversationId turnId) :
    w.MaySendLate input conversationId turnId := by
  obtain ⟨w', hreaches, hlate⟩ := h
  exact ⟨w', .head ⟨step, hadmits, rfl⟩ hreaches, hlate⟩

section

variable (hstopped : w.stopped = true)
include hstopped

theorem maySendLate_of_pending (hpending : 0 < w.turn.pending) :
    w.MaySendLate input conversationId turnId := by
  have hadmits : admits input conversationId w (.turn .startSend) :=
    ⟨⟨trivial, hpending⟩, fun _ hnone => by cases hnone⟩
  refine .of_fire hadmits ⟨_, .refl, ?_⟩
  show 0 < if w.stopped then w.late + 1 else w.late
  rw [if_pos hstopped]
  exact Nat.succ_pos _

theorem maySendLate_of_mode (hstage : w.turn.stage = .mode) :
    w.MaySendLate input conversationId turnId := by
  have hadmits : admits input conversationId w (.turn (.modeApplied true)) :=
    ⟨⟨hstage, trivial⟩, fun _ hnone => by cases hnone⟩
  exact .of_fire hadmits (maySendLate_of_pending hstopped (Nat.succ_pos _))

/-- The head of the loop samples the lifecycle, and goes on whatever it is. -/
theorem maySendLate_of_head (hstage : w.turn.stage = .head) :
    w.MaySendLate input conversationId turnId := by
  let lifecycle := w.runtime.state.lifecycleFor conversationId
  have hadmits : admits input conversationId w (.turn (.sampled lifecycle)) :=
    ⟨⟨hstage, trivial⟩, fun _ hsome => (Option.some.inj hsome).symm⟩
  refine .of_fire hadmits ?_
  by_cases hmode : input.requiresMode = true
  · apply maySendLate_of_mode
    · exact hstopped
    · simp [fire, UserTurn.fire, hmode]
  · apply maySendLate_of_pending
    · exact hstopped
    · simp [fire, UserTurn.fire, hmode, UserTurn.spawnSend]

theorem maySendLate_of_workspace (hstage : w.turn.stage = .workspace) :
    w.MaySendLate input conversationId turnId := by
  have hadmits : admits input conversationId w (.turn (.workspacePersisted true)) :=
    ⟨⟨hstage, trivial⟩, fun _ hnone => by cases hnone⟩
  exact .of_fire hadmits (maySendLate_of_head hstopped rfl)

theorem maySendLate_of_build (hstage : w.turn.stage = .build) :
    w.MaySendLate input conversationId turnId := by
  have hadmits : admits input conversationId w (.turn (.built (some .acp))) :=
    ⟨⟨hstage, trivial⟩, fun _ hnone => by cases hnone⟩
  exact .of_fire hadmits (maySendLate_of_workspace hstopped rfl)

theorem maySendLate_of_evict (hstage : w.turn.stage = .evict) :
    w.MaySendLate input conversationId turnId := by
  have hadmits : admits input conversationId w (.turn .evicted) :=
    ⟨⟨hstage, trivial⟩, fun _ hnone => by cases hnone⟩
  exact .of_fire hadmits (maySendLate_of_build hstopped rfl)

/-- Nothing on the way to a send looks whether the turn is stopped. -/
theorem maySendLate_of_onTheWay (hway : w.turn.OnTheWay) :
    w.MaySendLate input conversationId turnId := by
  obtain hpending | hbefore | hevict := hway
  · exact maySendLate_of_pending hstopped hpending
  · cases hstage : w.turn.stage with
    | build => exact maySendLate_of_build hstopped hstage
    | workspace => exact maySendLate_of_workspace hstopped hstage
    | head => exact maySendLate_of_head hstopped hstage
    | mode => exact maySendLate_of_mode hstopped hstage
    | relay | decide | settle | evict | tip | release | done =>
      rw [hstage] at hbefore
      cases hbefore
  · exact maySendLate_of_evict hstopped hevict

end

theorem maySendLate_of_not_stopped (h : ¬w.Stopped) :
    w.MaySendLate input conversationId turnId := by
  by_cases hlate : w.late = 0
  · have hway : w.stopped = true ∧ w.turn.OnTheWay := by
      by_contra hnot
      exact h ⟨hlate, fun hstopped hway => hnot ⟨hstopped, hway⟩⟩
    exact maySendLate_of_onTheWay hway.1 hway.2
  · exact ⟨w, .refl, Nat.pos_of_ne_zero hlate⟩

/-- Stops that come in time keep a turn that is stopped from going on. -/
theorem stopped_of_reachable
    (h : ((machine input conversationId turnId).restrict
      (StopsInTime conversationId turnId)).Reachable w) : w.Stopped := by
  apply h.invariant
  · rintro _ ⟨v, nextId, claimed, -, -, rfl⟩
    exact ⟨rfl, fun hstopped => by cases hstopped⟩
  · intro s step hs hadmits
    cases step with
    | runtime step =>
      show (s.fire input conversationId turnId (.runtime step)).Stopped
      exact (hs.runtime_iff step).2 hadmits.2
    | turn step =>
      exact (hs.turn_iff hadmits.1.1).2 hadmits.2

/-- As long as a turn is stopped only while it is not on its way to a send, and is not let go on
once it is stopped, it starts no send after it is stopped. From any other step on, it may. -/
theorem stopped_turn_sends_nothing
    (h : ((machine input conversationId turnId).restrict
      (StopsInTime conversationId turnId)).Reachable w) :
    w.late = 0 ∧ (w.stopped = true → ¬w.turn.OnTheWay) ∧
      ∀ step, admits input conversationId w step → ¬w.StopsInTime conversationId turnId step →
        (w.fire input conversationId turnId step).MaySendLate input conversationId turnId := by
  have hstopped := stopped_of_reachable h
  refine ⟨hstopped.late, hstopped.off, fun step hadmits hlate => ?_⟩
  apply maySendLate_of_not_stopped
  cases step with
  | runtime step => exact fun h' => hlate ((hstopped.runtime_iff step).1 h')
  | turn step => exact fun h' => hlate ((hstopped.turn_iff hadmits.1).1 h')

/-- The turn of a runtime without any other. -/
def fresh (input : TurnStartInput) : StoppableTurn :=
  ⟨RuntimeWorld.empty.fire (.claim "c" "t"), 0, .start input 0, false, 0⟩

theorem start_fresh (input : TurnStartInput) : (machine input "c" "t").start (fresh input) :=
  ⟨.empty, 0, _, .start rfl, rfl, rfl⟩

def firstSend (lifecycle : RuntimeLifecycleState) : List StoppableStep :=
  [.turn (.built (some .acp)), .turn (.workspacePersisted true), .turn (.sampled lifecycle),
    .turn .startSend]

/-- A cancellation of the turn that finds its agent, and succeeds. -/
def cancelRun : List StoppableStep :=
  [.runtime (.cancel "c" "t"), .runtime (.advanceCancel 0 true), .runtime (.advanceCancel 0 true),
    .runtime (.advanceCancel 0 true), .runtime (.advanceCancel 0 true)]

def answer (lifecycle : RuntimeLifecycleState) : StoppableStep :=
  .turn (.relayed [.under lifecycle (.event (.text "a")), .under lifecycle (.event .finish)])

/-- A turn that is cancelled while its agent answers. -/
theorem stopped_turn_sends_nothing_sample :
    let w := (machine plainTurn "c" "t").run (fresh plainTurn) (firstSend .active ++ cancelRun ++
      [answer .cancelling, .turn .decided, .turn (.settled .cancelling), .turn .released])
    w.late = 0 ∧ w.stopped = true ∧ w.turn.spawned = [1] := by
  have haccepts : ((machine plainTurn "c" "t").restrict (StopsInTime "c" "t")).Accepts
      (fresh plainTurn) (firstSend .active ++ cancelRun ++
        [answer .cancelling, .turn .decided, .turn (.settled .cancelling), .turn .released]) := by
    decide +kernel
  have hlate := (stopped_turn_sends_nothing
    (Machine.reachable_run (start_fresh plainTurn) haccepts)).1
  exact ⟨hlate, by decide +kernel⟩

/-- A turn whose middleware answers each reply of the agent. -/
def answeredTurn : TurnStartInput := { plainTurn with process := fun text => ⟨text, ["done"]⟩ }

/-- What a turn sends once it is stopped: the continuation of a send, its first send, when it is
stopped while the agent is built, and its replay. -/
theorem sends_late :
    ∀ run ∈ [
      firstSend .active ++ cancelRun ++
        [answer .cancelling, .turn .decided, .turn (.sampled .cancelling), .turn .startSend],
      [.runtime (.cancel "c" "t"), .runtime (.advanceCancel 0 true),
        .runtime (.advanceCancel 0 false)] ++ firstSend .active,
      .runtime (.delete "c") :: firstSend .deleting,
      firstSend .active ++ [
        .turn (.relayed [.under .active (.event (.error ⟨"overloaded", none, some true⟩))]),
        .turn .decided, .turn (.settled .active), .runtime .shutDown, .turn .evicted] ++
        firstSend .shuttingDown],
    (machine answeredTurn "c" "t").Accepts (fresh answeredTurn) run ∧
      ((machine answeredTurn "c" "t").run (fresh answeredTurn) run).late = 1 := by
  decide +kernel

theorem not_forall_late_eq_zero :
    ¬∀ w : StoppableTurn, (machine answeredTurn "c" "t").Reachable w → w.late = 0 := by
  intro h
  obtain ⟨haccepts, hlate⟩ := sends_late _ List.mem_cons_self
  have hzero := h _ (Machine.reachable_run (start_fresh answeredTurn) haccepts)
  rw [hlate] at hzero
  cases hzero

end StoppableTurn

end AionCore.Conversation
