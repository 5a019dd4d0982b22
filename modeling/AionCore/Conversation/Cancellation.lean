import AionCore.Conversation.TurnClaims

/-!
# Conversations: claims and cancellations

The cancelling flag is the conversation's, and a cancellation names a turn: it compares the turns
first, and then sets the flag and takes it back without a look at them.
-/

namespace AionCore.Conversation

namespace RuntimeWorld

/-- A cancellation touches the turn that it names, and no other. -/
structure CancelsOwnTurn (w : RuntimeWorld) : Prop where
  marks : ∀ mark ∈ w.marks, w.state.activeTurnIdFor mark.1 = some mark.2
  lost : w.lost = []

/-- A cancellation sets the flag while its turn is the active one, and takes the flag back while
its turn is the active one or there is no flag. -/
def Compares (w : RuntimeWorld) : RuntimeStep → Prop
  | .advanceCancel k _ => ∀ call ∈ w.cancels[k]?,
    (call.stage = .mark → w.state.activeTurnIdFor call.conversationId = some call.turnId) ∧
      (call.stage = .failed → w.state.isCancelling call.conversationId →
        w.state.activeTurnIdFor call.conversationId = some call.turnId)
  | .claim _ _ | .release _ | .releaseForTurn _ _ | .delete _ | .advanceDelete _ _ | .cancel _ _
  | .shutDown => True

instance (w : RuntimeWorld) : ∀ step, Decidable (w.Compares step)
  | .advanceCancel k _ => inferInstanceAs (Decidable (∀ call ∈ w.cancels[k]?, (_ → _) ∧ (_ → _ → _)))
  | .claim _ _ | .release _ | .releaseForTurn _ _ | .delete _ | .advanceDelete _ _ | .cancel _ _
  | .shutDown => .isTrue trivial

/-- A cancellation has named the turn. -/
def Names (w : RuntimeWorld) (conversationId turnId : String) : Prop :=
  ∃ call ∈ w.cancels, call.conversationId = conversationId ∧ call.turnId = turnId

/-- The flags are the marks, and each mark is a cancellation's. -/
structure Flagged (w : RuntimeWorld) : Prop where
  flags : ∀ c, c ∈ w.state.cancellingConversations ↔ ∃ t, (c, t) ∈ w.marks
  named : ∀ mark ∈ w.marks, w.Names mark.1 mark.2

variable {w w' : RuntimeWorld} {c t : String} {k : ℕ}

theorem mem_marksBeside {mark : String × String} :
    mark ∈ w.marksBeside c ↔ mark ∈ w.marks ∧ mark.1 ≠ c := by
  simp [marksBeside]

variable {call : CancelCall}

theorem Names.set (h : w.Names c t) (hk : w.cancels[k]? = some call) (stage : CancelStage)
    (hcancels : w'.cancels = w.cancels.set k { call with stage }) :
    w'.Names c t := by
  obtain ⟨call', hmem, hnames⟩ := h
  obtain ⟨j, hj⟩ := List.mem_iff_getElem?.mp hmem
  by_cases hjk : k = j
  · subst hjk
    obtain rfl := Option.some.inj (hk.symm.trans hj)
    refine ⟨{ call with stage }, ?_, hnames⟩
    rw [hcancels]
    exact List.mem_set (List.getElem?_eq_some_iff.mp hk).1 _
  · refine ⟨call', List.mem_iff_getElem?.mpr ⟨j, ?_⟩, hnames⟩
    rw [hcancels, List.getElem?_set_ne hjk, hj]

/-- What a step of a cancellation does to the flags. -/
inductive CancelStep (w w' : RuntimeWorld) (call : CancelCall) : Prop
  | kept (past : call.stage ≠ .mark ∧ call.stage ≠ .failed)
    (flags : w'.state.cancellingConversations = w.state.cancellingConversations)
    (marks : w'.marks = w.marks) (lost : w'.lost = w.lost)
  | marked (stage : call.stage = .mark)
    (flags : w'.state.cancellingConversations =
      insert call.conversationId w.state.cancellingConversations)
    (marks : w'.marks = w.marks ++ [(call.conversationId, call.turnId)]) (lost : w'.lost = w.lost)
  | failed (stage : call.stage = .failed)
    (flags : w'.state.cancellingConversations =
      w.state.cancellingConversations.erase call.conversationId)
    (marks : w'.marks = w.marksBeside call.conversationId)
    (lost : w'.lost = w.lost ++ w.marks.filter fun mark =>
      mark.1 = call.conversationId ∧ mark.2 ≠ call.turnId)

theorem advanceCancel_cases (w : RuntimeWorld) (hk : w.cancels[k]? = some call) (reply : Bool) :
    CancelStep w (w.fire (.advanceCancel k reply)) call ∧
      (w.fire (.advanceCancel k reply)).state.activeTurns = w.state.activeTurns ∧
      ∀ c t, w.Names c t → (w.fire (.advanceCancel k reply)).Names c t := by
  simp only [fire, hk]
  unfold advanceCancel
  cases hstage : call.stage with
  | mark => exact ⟨.marked hstage rfl rfl rfl, rfl, fun c t h => h.set hk .agent rfl⟩
  | failed => exact ⟨.failed hstage rfl rfl rfl, rfl, fun c t h => h.set hk .done rfl⟩
  | done => exact ⟨.kept (by simp [hstage]) rfl rfl rfl, rfl, fun c t h => h⟩
  | compare =>
    dsimp only
    split
    · exact ⟨.kept (by simp [hstage]) rfl rfl rfl, rfl, fun c t h => h.set hk .lookup rfl⟩
    · exact ⟨.kept (by simp [hstage]) rfl rfl rfl, rfl, fun c t h => h.set hk .done rfl⟩
  | lookup =>
    cases reply with
    | true =>
      exact ⟨.kept (by simp [hstage]) rfl rfl rfl, rfl, fun c t h => h.set hk .mark rfl⟩
    | false =>
      exact ⟨.kept (by simp [hstage]) rfl rfl rfl, rfl, fun c t h => h.set hk .done rfl⟩
  | agent =>
    cases reply with
    | true =>
      exact ⟨.kept (by simp [hstage]) rfl rfl rfl, rfl, fun c t h => h.set hk .done rfl⟩
    | false =>
      exact ⟨.kept (by simp [hstage]) rfl rfl rfl, rfl, fun c t h => h.set hk .failed rfl⟩

/-- The flags are left alone. -/
structure Quiet (w w' : RuntimeWorld) : Prop where
  flags : w'.state.cancellingConversations = w.state.cancellingConversations
  marks : w'.marks = w.marks
  lost : w'.lost = w.lost
  cancels : w.cancels ⊆ w'.cancels

theorem Quiet.rfl : Quiet w w := ⟨.refl _, .refl _, .refl _, List.Subset.refl _⟩

/-- A step that is no cancellation's leaves the flags alone, or frees a conversation. -/
theorem quiet_fire (h : w.Exclusive) {step : RuntimeStep}
    (hstep : ∀ k reply, step ≠ .advanceCancel k reply) :
    Quiet w (w.fire step) ∨ ∃ k c t, Frees w (w.fire step) k c t := by
  have hrelease : ∀ k, Quiet w (w.fire (.release k)) ∨
      ∃ j c t, Frees w (w.fire (.release k)) j c t := by
    intro k
    rcases release_cases h k with ⟨-, heq⟩ | ⟨c, t, hfrees⟩
    · rw [heq]
      exact .inl .rfl
    · exact .inr ⟨k, c, t, hfrees⟩
  cases step with
  | release k => exact hrelease k
  | releaseForTurn k turnId =>
    rcases releaseForTurn_cases w k turnId with ⟨-, heq⟩ | ⟨-, heq⟩
    · rw [heq]
      exact .inl .rfl
    · rw [heq]
      exact hrelease k
  | advanceCancel k reply => exact absurd (.refl _) (hstep k reply)
  | claim c t =>
    left
    cases hclaim : w.state.tryClaimTurn c t with
    | error _ =>
      simp only [fire, hclaim]
      exact .rfl
    | ok result =>
      obtain ⟨s', claim⟩ := result
      obtain ⟨-, hs, -⟩ := tryClaimTurn_ok hclaim
      simp only [fire, hclaim, hs]
      exact ⟨.refl _, .refl _, .refl _, List.Subset.refl _⟩
  | cancel c t => exact .inl ⟨.refl _, .refl _, .refl _, List.subset_append_left _ _⟩
  | delete c | shutDown => exact .inl ⟨.refl _, .refl _, .refl _, List.Subset.refl _⟩
  | advanceDelete k reply =>
    left
    simp only [fire]
    split
    · exact .rfl
    · rename_i call _
      unfold advanceDelete
      cases call.stage with
      | hooks | done => exact ⟨.refl _, .refl _, .refl _, List.Subset.refl _⟩
      | repoDeleted ok =>
        dsimp only
        split <;> exact ⟨.refl _, .refl _, .refl _, List.Subset.refl _⟩

theorem flagged_empty : empty.Flagged where
  flags c := by simp [empty, ConversationRuntimeState.empty]
  named mark hmark := by cases hmark

theorem Flagged.quiet (h : w.Flagged) (hquiet : Quiet w w') : w'.Flagged where
  flags c := by rw [hquiet.flags, hquiet.marks, h.flags c]
  named mark hmark := by
    obtain ⟨call, hmem, hnames⟩ := h.named mark (hquiet.marks ▸ hmark)
    exact ⟨call, hquiet.cancels hmem, hnames⟩

/-- Whoever frees a conversation or takes its flag back takes its marks away. -/
theorem Flagged.beside (h : w.Flagged) (hnames : ∀ c t, w.Names c t → w'.Names c t)
    (hflags : w'.state.cancellingConversations = w.state.cancellingConversations.erase c)
    (hmarks : w'.marks = w.marksBeside c) : w'.Flagged where
  flags c' := by
    rw [hflags, hmarks, Finset.mem_erase, h.flags c']
    simp only [mem_marksBeside, exists_and_right]
    exact and_comm
  named mark hmark := by
    rw [hmarks, mem_marksBeside] at hmark
    exact hnames _ _ (h.named mark hmark.1)

theorem Flagged.fire (h : w.Flagged) (hw : w.Exclusive) (step : RuntimeStep) :
    (w.fire step).Flagged := by
  by_cases hstep : ∀ k reply, step ≠ .advanceCancel k reply
  · rcases quiet_fire hw hstep with hquiet | ⟨k, c, t, hfrees⟩
    · exact h.quiet hquiet
    · refine h.beside (c := c) (fun c' t' hnames => ?_) ?_ hfrees.marks
      · rwa [Names, hfrees.cancels]
      · rw [hfrees.state]
        rfl
  · simp only [not_forall, not_not] at hstep
    obtain ⟨k, reply, rfl⟩ := hstep
    cases hk : w.cancels[k]? with
    | none =>
      simp only [RuntimeWorld.fire, hk]
      exact h
    | some call =>
      obtain ⟨hcancel, -, hnames⟩ := advanceCancel_cases w hk reply
      cases hcancel with
      | kept past flags marks lost =>
        refine ⟨fun c => ?_, fun mark hmark => hnames _ _ (h.named mark (marks ▸ hmark))⟩
        rw [flags, marks, h.flags c]
      | failed stage flags marks lost => exact h.beside hnames flags marks
      | marked stage flags marks lost =>
        refine ⟨fun c => ?_, fun mark hmark => hnames _ _ ?_⟩
        · rw [flags, marks, Finset.mem_insert, h.flags c]
          simp only [List.mem_append, List.mem_singleton, Prod.mk.injEq, exists_or]
          by_cases hc : c = call.conversationId <;> simp [hc]
        · rw [marks] at hmark
          rcases List.mem_append.mp hmark with hmark | hmark
          · exact h.named mark hmark
          · rw [List.mem_singleton.mp hmark]
            exact ⟨call, List.mem_of_getElem? hk, .refl _, .refl _⟩

theorem flagged_of_reachable (h : machine.Reachable w) : w.Flagged :=
  h.invariant_of_reachable (P := Flagged) (fun v (hv : v = empty) => by rw [hv]; exact flagged_empty)
    fun v step hr hv _ => hv.fire (exclusive_of_reachable hr) step

theorem cancelsOwnTurn_empty : empty.CancelsOwnTurn where
  marks mark hmark := by cases hmark
  lost := .refl _

section

variable (h : w.CancelsOwnTurn)
include h

theorem CancelsOwnTurn.freed (hfrees : Frees w w' k c t) :
    w'.CancelsOwnTurn where
  marks mark hmark := by
    rw [hfrees.marks, mem_marksBeside] at hmark
    rw [hfrees.state]
    exact (AList.lookup_erase_ne hmark.2).trans (h.marks mark hmark.1)
  lost := hfrees.lost.trans h.lost

/-- Without a cancellation's step each flag stays with its turn. -/
theorem CancelsOwnTurn.quiet (hquiet : Quiet w w') (hstep : ClaimStep w w') :
    w'.CancelsOwnTurn := by
  refine ⟨fun mark hmark => ?_, hquiet.lost.trans h.lost⟩
  have hactive := h.marks mark (hquiet.marks ▸ hmark)
  cases hstep with
  | kept claims turns =>
    rw [ConversationRuntimeState.activeTurnIdFor, turns]
    exact hactive
  | claimed c t free claims turns =>
    rw [ConversationRuntimeState.activeTurnIdFor, turns, Dict.lookup_insert', if_neg]
    · exact hactive
    · intro hc
      rw [← hc, ← ConversationRuntimeState.activeTurnIdFor, hactive] at free
      cases free
  | freed k c t frees => exact (h.freed frees).marks mark hmark

/-- A cancellation's step touches its own turn exactly if it compares the turns. -/
theorem cancelsOwnTurn_advanceCancel_iff (hw : w.Flagged) (k : ℕ) (reply : Bool) :
    (w.fire (.advanceCancel k reply)).CancelsOwnTurn ↔ w.Compares (.advanceCancel k reply) := by
  cases hk : w.cancels[k]? with
  | none =>
    have hsame : w.fire (.advanceCancel k reply) = w := by simp only [RuntimeWorld.fire, hk]
    rw [hsame]
    refine ⟨fun _ call hcall => ?_, fun _ => h⟩
    rw [hk] at hcall
    cases hcall
  | some call =>
    obtain ⟨hcancel, hturns, -⟩ := advanceCancel_cases w hk reply
    have hactive : ∀ c, (w.fire (.advanceCancel k reply)).state.activeTurnIdFor c =
        w.state.activeTurnIdFor c := by
      intro c
      rw [ConversationRuntimeState.activeTurnIdFor, hturns]
      rfl
    simp only [Compares, hk, Option.mem_some_iff, forall_eq']
    generalize w.fire (.advanceCancel k reply) = w' at hcancel hactive
    cases hcancel with
    | kept past flags marks lost =>
      refine ⟨fun _ => ⟨fun hmark => absurd hmark past.1, fun hfailed => absurd hfailed past.2⟩,
        fun _ => ⟨fun mark hmark => ?_, lost.trans h.lost⟩⟩
      rw [hactive]
      exact h.marks mark (marks ▸ hmark)
    | marked stage flags marks lost =>
      simp only [stage, true_implies, reduceCtorEq, false_implies, and_true]
      constructor
      · intro hown
        rw [← hactive]
        exact hown.marks _ (marks ▸ List.mem_append_right _ (List.mem_singleton_self _))
      · intro hnamed
        refine ⟨fun mark hmark => ?_, lost.trans h.lost⟩
        rw [hactive]
        rw [marks] at hmark
        rcases List.mem_append.mp hmark with hmark | hmark
        · exact h.marks mark hmark
        · rw [List.mem_singleton.mp hmark]
          exact hnamed
    | failed stage flags marks lost =>
      simp only [stage, true_implies, reduceCtorEq, false_implies, true_and]
      constructor
      · intro hown hflag
        obtain ⟨t, ht⟩ := (hw.flags _).mp (of_decide_eq_true hflag)
        by_contra hne
        have hmem : (call.conversationId, t) ∈ w'.lost := by
          rw [lost]
          refine List.mem_append_right _ (List.mem_filter.mpr ⟨ht, decide_eq_true ⟨.refl _, ?_⟩⟩)
          rintro rfl
          exact hne (h.marks _ ht)
        rw [hown.lost] at hmem
        cases hmem
      · intro hnamed
        refine ⟨fun mark hmark => ?_, ?_⟩
        · rw [hactive]
          rw [marks, mem_marksBeside] at hmark
          exact h.marks mark hmark.1
        · rw [lost, h.lost, List.nil_append, List.filter_eq_nil_iff]
          rintro ⟨c, t⟩ hmark hlost
          obtain ⟨rfl, hne⟩ := of_decide_eq_true hlost
          have hflag := decide_eq_true ((hw.flags call.conversationId).mpr ⟨t, hmark⟩)
          have heq := (h.marks _ hmark).symm.trans (hnamed hflag)
          exact hne (Option.some.inj heq)

theorem cancelsOwnTurn_fire_iff (hw : w.Exclusive) (hflagged : w.Flagged) (step : RuntimeStep) :
    (w.fire step).CancelsOwnTurn ↔ w.Compares step := by
  by_cases hstep : ∀ k reply, step ≠ .advanceCancel k reply
  · have hcompares : w.Compares step := by
      cases step with
      | advanceCancel k reply => exact absurd (.refl _) (hstep k reply)
      | claim | release | releaseForTurn | delete | advanceDelete | cancel | shutDown => trivial
    refine ⟨fun _ => hcompares, fun _ => ?_⟩
    rcases quiet_fire hw hstep with hquiet | ⟨k, c, t, hfrees⟩
    · exact h.quiet hquiet (claimStep_fire hw step)
    · exact h.freed hfrees
  · simp only [not_forall, not_not] at hstep
    obtain ⟨k, reply, rfl⟩ := hstep
    exact cancelsOwnTurn_advanceCancel_iff h hflagged k reply

end

/-- An idle conversation can be written to. -/
def IdleWritable (w : RuntimeWorld) : Prop :=
  ∀ c taskStatus hasTask, (∀ k t, ¬w.Live k c t) → taskStatus ≠ some .running →
    (w.state.summaryFromParts c taskStatus hasTask 0).canSendMessage = true

theorem idleWritable_of_exclusive (hw : w.Exclusive)
    (hflags : ∀ c, w.state.isCancelling c → w.state.isClaimed c) : w.IdleWritable := by
  intro c taskStatus hasTask hidle hstatus
  have hactive : w.state.activeTurnIdFor c = none := by
    cases hlookup : w.state.activeTurnIdFor c with
    | none => exact .refl _
    | some t =>
      obtain ⟨k, hlive⟩ := (hw.held c t).mp hlookup
      exact absurd hlive (hidle k t)
  have hclaimed : w.state.isClaimed c = false := by
    rw [ConversationRuntimeState.isClaimed, hactive]
    rfl
  have hcancelling : w.state.isCancelling c = false := by
    rw [Bool.eq_false_iff]
    intro hflag
    rw [hflags c hflag] at hclaimed
    cases hclaimed
  simp [ConversationRuntimeState.summaryFromParts, hclaimed, hcancelling, hstatus]

/-- As long as a cancellation sets the flag only while its turn is the active one, and takes no
flag back from another turn, it touches its own turn only. The next step keeps that exactly if it
compares the turns. -/
theorem cancel_touches_its_turn (h : (machine.restrict Compares).Reachable w) :
    (∀ c, w.state.isCancelling c → ∃ t, w.state.activeTurnIdFor c = some t ∧ w.Names c t) ∧
      w.CancelsOwnTurn ∧ w.IdleWritable ∧
      ∀ step, (w.fire step).CancelsOwnTurn ↔ w.Compares step := by
  have hexclusive := exclusive_of_reachable h.of_restrict
  have hflagged := flagged_of_reachable h.of_restrict
  obtain ⟨hown, hstep⟩ := Machine.Reachable.exact (P := CancelsOwnTurn) (C := Compares)
    (fun v (hv : v = empty) => by rw [hv]; exact cancelsOwnTurn_empty)
    (fun v step hr hv _ => cancelsOwnTurn_fire_iff hv (exclusive_of_reachable hr)
      (flagged_of_reachable hr) step) h
  have hflags : ∀ c, w.state.isCancelling c →
      ∃ t, w.state.activeTurnIdFor c = some t ∧ w.Names c t := by
    intro c hflag
    obtain ⟨t, ht⟩ := (hflagged.flags c).mp (of_decide_eq_true hflag)
    exact ⟨t, hown.marks _ ht, hflagged.named _ ht⟩
  refine ⟨hflags, hown, idleWritable_of_exclusive hexclusive fun c hflag => ?_,
    fun step => hstep step trivial⟩
  obtain ⟨t, ht, -⟩ := hflags c hflag
  rw [ConversationRuntimeState.isClaimed, ht]
  rfl

/-- A cancellation that fails, and the turn ends. -/
def failedCancel : List RuntimeStep :=
  [.claim "c" "t", .cancel "c" "t", .advanceCancel 0 true, .advanceCancel 0 true,
    .advanceCancel 0 true, .advanceCancel 0 false, .advanceCancel 0 true, .release 0]

theorem cancel_touches_its_turn_sample :
    (machine.run empty failedCancel).IdleWritable ∧
      (machine.run empty failedCancel).cancels.map (·.stage) = [.done] :=
  ⟨(cancel_touches_its_turn (Machine.reachable_run (M := machine.restrict Compares) (s := empty)
    (.refl _) (by decide))).2.2.1, by decide⟩

/-- The turn ends between the comparison and `mark_cancelling`. -/
def lateCancel : List RuntimeStep :=
  [.claim "c" "t", .cancel "c" "t", .advanceCancel 0 true, .advanceCancel 0 true, .release 0,
    .advanceCancel 0 true]

theorem late_cancel_blocks :
    (¬∀ w : RuntimeWorld, machine.Reachable w → w.CancelsOwnTurn) ∧
      ¬∀ w : RuntimeWorld, machine.Reachable w → w.IdleWritable := by
  have hreach : machine.Reachable (machine.run empty lateCancel) :=
    Machine.reachable_run (.refl _) (by decide)
  constructor
  · intro h
    have hmark := (h _ hreach).marks ("c", "t") (by decide)
    revert hmark
    decide
  · intro h
    have hidle : ∀ k t, ¬(machine.run empty lateCancel).Live k "c" t := by
      intro k t hlive
      have hactive := ((exclusive_of_reachable hreach).held "c" t).mpr ⟨k, hlive⟩
      cases hactive
    have hsend := h _ hreach "c" none false hidle (by decide)
    revert hsend
    decide

end RuntimeWorld

end AionCore.Conversation
