import AionCore.Conversation.RuntimeState

/-!
# Conversations: claims and deletions

The active turns are the live claims, one for a conversation at most. Whoever frees a conversation
takes its deleting flag away, whether or not the deletion that has set it is over.
-/

namespace AionCore.Conversation

/-- The next step is `clear_deleting`. -/
def DeleteCall.clears (call : DeleteCall) : Bool :=
  match call.stage with
  | .repoDeleted ok => !ok || !call.hadActiveTurn
  | .hooks | .done => false

namespace RuntimeWorld

/-- Claim `k` is for the turn of the conversation and has not been released. -/
def Live (w : RuntimeWorld) (k : ℕ) (conversationId turnId : String) : Prop :=
  w.claims[k]? = some ⟨conversationId, turnId, false⟩

/-- The active turns are the live claims. -/
structure Exclusive (w : RuntimeWorld) : Prop where
  held : ∀ c t, w.state.activeTurns.lookup c = some t ↔ ∃ k, w.Live k c t
  single : ∀ c k k' t t', w.Live k c t → w.Live k' c t' → k = k'

variable {w w' : RuntimeWorld} {c t : String} {k : ℕ} {step : RuntimeStep}

theorem exclusive_empty : empty.Exclusive where
  held c t := by
    constructor
    · intro h
      cases h
    · rintro ⟨k, h⟩
      cases h
  single c k k' t t' h := by cases h

def freed (w : RuntimeWorld) (conversationId : String) : ConversationRuntimeState where
  activeTurns := w.state.activeTurns.erase conversationId
  deletingConversations := w.state.deletingConversations.erase conversationId
  cancellingConversations := w.state.cancellingConversations.erase conversationId
  shuttingDown := w.state.shuttingDown

/-- Claim `k` has freed its conversation. -/
structure Frees (w w' : RuntimeWorld) (k : ℕ) (conversationId turnId : String) : Prop where
  live : w.Live k conversationId turnId
  state : w'.state = w.freed conversationId
  claims : w'.claims = w.claims.set k ⟨conversationId, turnId, true⟩
  deletes : w'.deletes = w.deletes
  cancels : w'.cancels = w.cancels
  marks : w'.marks = w.marksBeside conversationId
  lost : w'.lost = w.lost

variable {claim : TurnClaim}

theorem released_self {b : Bool} (h : w.claims[k]? = some claim) :
    w.released k claim (w.state, claim, b) = w := by
  have hset : w.claims.set k claim = w.claims := by
    obtain ⟨hlt, hget⟩ := List.getElem?_eq_some_iff.mp h
    rw [← hget]
    exact List.set_getElem_self hlt
  rw [released, hset, if_pos rfl]

/-- A claim that is used does nothing or frees its conversation. -/
theorem release_cases (h : w.Exclusive) (k : ℕ) :
    (∀ claim ∈ w.claims[k]?, claim.released = true) ∧ w.fire (.release k) = w ∨
      ∃ c t, Frees w (w.fire (.release k)) k c t := by
  cases hk : w.claims[k]? with
  | none =>
    left
    refine ⟨fun claim hclaim => (by cases hclaim), ?_⟩
    simp only [fire, hk]
  | some claim =>
    obtain ⟨c, t, r⟩ := claim
    have hfire : w.fire (.release k) =
        w.released k ⟨c, t, r⟩ (TurnClaim.releaseInner ⟨c, t, r⟩ w.state) := by
      simp only [fire, hk]
    rw [hfire]
    cases r with
    | true =>
      left
      refine ⟨?_, released_self hk⟩
      rintro claim hclaim
      rw [← Option.some.inj hclaim]
    | false =>
      right
      have hactive : w.state.activeTurnIdFor c = some t := (h.held c t).mpr ⟨k, hk⟩
      have hrelease : TurnClaim.releaseInner ⟨c, t, false⟩ w.state =
          (w.freed c, ⟨c, t, true⟩, w.state.isDeleting c) := by
        simp [TurnClaim.releaseInner, ConversationRuntimeState.release, hactive, freed]
      have hnone : (w.freed c).activeTurnIdFor c = none := AList.lookup_erase _ _
      refine ⟨c, t, hk, ?_, ?_, rfl, rfl, ?_, rfl⟩
      · rw [hrelease, released]
      · rw [hrelease, released]
      · simp [hrelease, released, hnone, hactive]

/-- A claim is released for its own turn, or not at all. -/
theorem releaseForTurn_cases (w : RuntimeWorld) (k : ℕ) (turnId : String) :
    (∀ claim ∈ w.claims[k]?, claim.turnId ≠ turnId) ∧ w.fire (.releaseForTurn k turnId) = w ∨
      (∀ claim ∈ w.claims[k]?, claim.turnId = turnId) ∧
        w.fire (.releaseForTurn k turnId) = w.fire (.release k) := by
  cases hk : w.claims[k]? with
  | none =>
    left
    refine ⟨fun claim hclaim => (by cases hclaim), ?_⟩
    simp only [fire, hk]
  | some claim =>
    have hmem : ∀ claim' ∈ some claim, claim'.turnId = claim.turnId := by
      rintro claim' hclaim'
      rw [← Option.some.inj hclaim']
    by_cases hturn : claim.turnId = turnId
    · right
      refine ⟨fun claim' hclaim' => (hmem claim' hclaim').trans hturn, ?_⟩
      simp only [fire, hk, TurnClaim.releaseForTurn]
      rw [if_neg (not_not_intro hturn)]
    · left
      refine ⟨fun claim' hclaim' => hmem claim' hclaim' ▸ hturn, ?_⟩
      simp only [fire, hk, TurnClaim.releaseForTurn]
      rw [if_pos hturn, released_self hk]

/-- What a step does to the claims: it leaves them, hands one out or uses one. -/
inductive ClaimStep (w w' : RuntimeWorld) : Prop
  | kept (claims : w'.claims = w.claims) (turns : w'.state.activeTurns = w.state.activeTurns)
  | claimed (c t : String) (free : w.state.activeTurns.lookup c = none)
    (claims : w'.claims = w.claims ++ [⟨c, t, false⟩])
    (turns : w'.state.activeTurns = w.state.activeTurns.insert c t)
  | freed (k : ℕ) (c t : String) (frees : Frees w w' k c t)

theorem tryClaimTurn_ok {s s' : ConversationRuntimeState}
    (h : s.tryClaimTurn c t = .ok (s', claim)) :
    (s.shuttingDown = false ∧ c ∉ s.deletingConversations ∧ s.activeTurns.lookup c = none) ∧
      s' = { s with activeTurns := s.activeTurns.insert c t } ∧ claim = ⟨c, t, false⟩ := by
  unfold ConversationRuntimeState.tryClaimTurn at h
  split at h
  · cases h
  · rename_i hshut
    split at h
    · cases h
    · rename_i hdeleting
      split at h
      · cases h
      · rename_i hactive
        obtain ⟨hs, hclaim⟩ := Prod.mk.inj (Except.ok.inj h)
        refine ⟨⟨by simpa using hshut, hdeleting, by simpa using hactive⟩, hs.symm, hclaim.symm⟩

theorem claimStep_fire (h : w.Exclusive) (step : RuntimeStep) : ClaimStep w (w.fire step) := by
  have hrelease : ∀ k, ClaimStep w (w.fire (.release k)) := by
    intro k
    rcases release_cases h k with ⟨-, heq⟩ | ⟨c, t, hfrees⟩
    · rw [heq]
      exact .kept rfl rfl
    · exact .freed k c t hfrees
  cases step with
  | claim c t =>
    cases hclaim : w.state.tryClaimTurn c t with
    | error _ =>
      simp only [fire, hclaim]
      exact .kept rfl rfl
    | ok result =>
      obtain ⟨s', claim⟩ := result
      obtain ⟨⟨-, -, hfree⟩, hs, hc⟩ := tryClaimTurn_ok hclaim
      simp only [fire, hclaim]
      exact .claimed c t hfree (by rw [hc]) (by rw [hs])
  | release k => exact hrelease k
  | releaseForTurn k turnId =>
    rcases releaseForTurn_cases w k turnId with ⟨-, heq⟩ | ⟨-, heq⟩
    · rw [heq]
      exact .kept rfl rfl
    · rw [heq]
      exact hrelease k
  | delete c => exact .kept rfl rfl
  | advanceDelete k reply =>
    simp only [fire]
    split
    · exact .kept rfl rfl
    · rename_i call _
      unfold advanceDelete
      cases call.stage with
      | hooks => exact .kept rfl rfl
      | repoDeleted ok => exact .kept rfl (by dsimp only; split <;> rfl)
      | done => exact .kept rfl rfl
  | cancel c t => exact .kept rfl rfl
  | advanceCancel k reply =>
    simp only [fire]
    split
    · exact .kept rfl rfl
    · rename_i call _
      unfold advanceCancel
      cases call.stage with
      | mark | failed | done => exact .kept rfl rfl
      | compare | lookup | agent => exact .kept (by dsimp only; split <;> rfl) (by dsimp only; split <;> rfl)
  | shutDown => exact .kept rfl rfl

theorem live_append (hclaims : w'.claims = w.claims ++ [claim]) :
    w'.Live k c t ↔ w.Live k c t ∨ k = w.claims.length ∧ claim = ⟨c, t, false⟩ := by
  rw [Live, hclaims, List.getElem?_append, Live]
  split
  · rename_i hlt
    constructor
    · exact Or.inl
    · rintro (h | ⟨h, -⟩)
      · exact h
      · omega
  · rename_i hge
    have hnone : w.claims[k]? = none := List.getElem?_eq_none (by omega)
    rw [hnone, List.getElem?_singleton]
    constructor
    · intro h
      split at h
      · exact .inr ⟨by omega, Option.some.inj h⟩
      · cases h
    · rintro (h | ⟨h, rfl⟩)
      · cases h
      · rw [if_pos (by omega)]

theorem Frees.live_iff {j : ℕ} {c' t' : String} (h : w.Exclusive) (hfrees : Frees w w' k c t) :
    w'.Live j c' t' ↔ w.Live j c' t' ∧ c' ≠ c := by
  rw [Live, hfrees.claims, List.getElem?_set, Live]
  constructor
  · intro hlive
    split at hlive
    · split at hlive
      · cases hlive
      · cases hlive
    · rename_i hne
      refine ⟨hlive, ?_⟩
      rintro rfl
      exact hne (h.single c' k j t t' hfrees.live hlive)
  · rintro ⟨hlive, hne⟩
    rw [if_neg]
    · exact hlive
    · rintro rfl
      have heq := hfrees.live.symm.trans hlive
      exact hne (TurnClaim.mk.inj (Option.some.inj heq)).1.symm

theorem Exclusive.fire (h : w.Exclusive) (step : RuntimeStep) : (w.fire step).Exclusive := by
  have hstep := claimStep_fire h step
  generalize w.fire step = w' at hstep
  cases hstep with
  | kept claims turns =>
    refine ⟨fun c t => ?_, fun c k k' t t' => ?_⟩
    · rw [turns, h.held c t]
      simp only [Live, claims]
    · simp only [Live, claims]
      exact h.single c k k' t t'
  | claimed c t free claims turns =>
    have hno : ∀ k t', ¬w.Live k c t' := by
      intro k t' hlive
      rw [(h.held c t').mpr ⟨k, hlive⟩] at free
      cases free
    refine ⟨fun c' t' => ?_, fun c' k k' t₁ t₂ hlive hlive' => ?_⟩
    · rw [turns, Dict.lookup_insert']
      simp only [live_append claims]
      by_cases hc : c' = c
      · subst hc
        rw [if_pos rfl]
        constructor
        · intro ht
          exact ⟨_, .inr ⟨rfl, by rw [Option.some.inj ht]⟩⟩
        · rintro ⟨k, hlive | ⟨-, heq⟩⟩
          · exact absurd hlive (hno k t')
          · rw [(TurnClaim.mk.inj heq).2.1]
      · rw [if_neg hc, h.held c' t']
        constructor
        · rintro ⟨k, hlive⟩
          exact ⟨k, .inl hlive⟩
        · rintro ⟨k, hlive | ⟨-, heq⟩⟩
          · exact ⟨k, hlive⟩
          · exact absurd (TurnClaim.mk.inj heq).1.symm hc
    · rcases (live_append claims).mp hlive with hlive | ⟨hk, heq⟩ <;>
        rcases (live_append claims).mp hlive' with hlive' | ⟨hk', heq'⟩
      · exact h.single c' k k' t₁ t₂ hlive hlive'
      · rw [(TurnClaim.mk.inj heq').1] at hno
        exact absurd hlive (hno k t₁)
      · rw [(TurnClaim.mk.inj heq).1] at hno
        exact absurd hlive' (hno k' t₂)
      · rw [hk, hk']
  | freed k c t frees =>
    refine ⟨fun c' t' => ?_, fun c' j j' t₁ t₂ hlive hlive' => ?_⟩
    · simp only [frees.state, RuntimeWorld.freed, Dict.lookup_erase', frees.live_iff h]
      by_cases hc : c' = c
      · simp [hc]
      · rw [if_neg hc, h.held c' t']
        simp [hc]
    · exact h.single c' j j' t₁ t₂ ((frees.live_iff h).mp hlive).1 ((frees.live_iff h).mp hlive').1

theorem Live.release {k' : ℕ} (hlive : w.Live k' c t) (hw : w.Exclusive) (hne : k ≠ k') :
    (w.fire (.release k)).Live k' c t := by
  rcases release_cases hw k with ⟨-, heq⟩ | ⟨c', t', hfrees⟩
  · rw [heq]
    exact hlive
  · rw [Live, hfrees.claims, List.getElem?_set_ne hne]
    exact hlive

theorem exclusive_of_reachable (h : machine.Reachable w) : w.Exclusive :=
  h.invariant (P := Exclusive) (fun v (hv : v = empty) => by rw [hv]; exact exclusive_empty)
    fun _ step hw _ => hw.fire step

/-- A deletion of the conversation has marked it, and `conversation_repo.delete` is not over. -/
def PendingDelete (w : RuntimeWorld) (conversationId : String) : Prop :=
  ∃ call ∈ w.deletes, call.conversationId = conversationId ∧ call.stage = .hooks

instance (w : RuntimeWorld) (conversationId : String) : Decidable (w.PendingDelete conversationId) :=
  inferInstanceAs (Decidable (∃ call ∈ w.deletes, _ ∧ _))

/-- No turn starts on a conversation that is being deleted. -/
def ShutOut (w : RuntimeWorld) : Prop :=
  ∀ c, w.PendingDelete c → ∀ turnId, ∃ e, w.state.tryClaimTurn c turnId = .error e

/-- No step takes the deleting flag from a conversation with a pending deletion and leaves it open:
no turn ends there, and another deletion clears the flag only under a turn. -/
def KeepsShut (w : RuntimeWorld) : RuntimeStep → Prop
  | .release k => ∀ claim ∈ w.claims[k]?, claim.released = false →
    w.state.shuttingDown ∨ ¬w.PendingDelete claim.conversationId
  | .releaseForTurn k turnId => ∀ claim ∈ w.claims[k]?, claim.released = false →
    claim.turnId = turnId → w.state.shuttingDown ∨ ¬w.PendingDelete claim.conversationId
  | .advanceDelete k _ => ∀ call ∈ w.deletes[k]?, call.clears →
    w.state.shuttingDown ∨ w.state.isClaimed call.conversationId ∨
      ¬w.PendingDelete call.conversationId
  | .claim _ _ | .delete _ | .cancel _ _ | .advanceCancel _ _ | .shutDown => True

instance (w : RuntimeWorld) : ∀ step, Decidable (w.KeepsShut step) := by
  intro step
  cases step <;> dsimp only [KeepsShut] <;> infer_instance

def Closed (w : RuntimeWorld) (conversationId : String) : Prop :=
  w.state.shuttingDown ∨ conversationId ∈ w.state.deletingConversations ∨
    (w.state.activeTurns.lookup conversationId).isSome

theorem tryClaimTurn_error_iff : (∃ e, w.state.tryClaimTurn c t = .error e) ↔ w.Closed c := by
  unfold ConversationRuntimeState.tryClaimTurn Closed
  split
  · simp [*]
  · split
    · simp [*]
    · split <;> simp [*]

theorem shutOut_iff : w.ShutOut ↔ ∀ c, w.PendingDelete c → w.Closed c := by
  constructor
  · intro h c hc
    exact tryClaimTurn_error_iff.mp (h c hc "")
  · intro h c hc turnId
    exact tryClaimTurn_error_iff.mpr (h c hc)

theorem ShutOut.mono (h : w.ShutOut) (hdeletes : ∀ c, w'.PendingDelete c → w.PendingDelete c)
    (hclosed : ∀ c, w.Closed c → w'.Closed c) : w'.ShutOut :=
  shutOut_iff.mpr fun c hc => hclosed c (shutOut_iff.mp h c (hdeletes c hc))

/-- A turn that ends leaves its conversation open, except when everything shuts down. -/
theorem Frees.shutOut_iff (h : w.ShutOut) (hfrees : Frees w w' k c t) :
    w'.ShutOut ↔ w.state.shuttingDown ∨ ¬w.PendingDelete c := by
  have hpending : ∀ c', w'.PendingDelete c' ↔ w.PendingDelete c' := by
    intro c'
    rw [PendingDelete, hfrees.deletes, PendingDelete]
  have hclosed : ∀ c', w'.Closed c' ↔ w.state.shuttingDown ∨ c' ≠ c ∧ w.Closed c' := by
    intro c'
    simp only [Closed, hfrees.state, freed, Finset.mem_erase, Dict.lookup_erase']
    by_cases hc : c' = c <;> simp [hc]
  rw [RuntimeWorld.shutOut_iff]
  constructor
  · intro hout
    by_cases hc : w.PendingDelete c
    · rcases (hclosed c).mp (hout c ((hpending c).mpr hc)) with hshut | ⟨hne, -⟩
      · exact .inl hshut
      · exact absurd rfl hne
    · exact .inr hc
  · rintro hopen c' hc'
    rw [hclosed]
    rcases hopen with hshut | hc
    · exact .inl hshut
    · refine .inr ⟨?_, RuntimeWorld.shutOut_iff.mp h c' ((hpending c').mp hc')⟩
      rintro rfl
      exact hc ((hpending c').mp hc')

theorem pendingDelete_of_set {call : DeleteCall} (hcall : call.stage ≠ .hooks)
    (hdeletes : w'.deletes = w.deletes.set k call) (h : w'.PendingDelete c) :
    w.PendingDelete c := by
  obtain ⟨call', hmem, hc, hstage⟩ := h
  rw [hdeletes] at hmem
  rcases List.mem_or_eq_of_mem_set hmem with hmem | rfl
  · exact ⟨call', hmem, hc, hstage⟩
  · exact absurd hstage hcall

/-- What stays pending past the step of a deletion that is over. -/
theorem PendingDelete.set {old call : DeleteCall} (hk : w.deletes[k]? = some old)
    (hold : old.stage ≠ .hooks) (hdeletes : w'.deletes = w.deletes.set k call)
    (h : w.PendingDelete c) : w'.PendingDelete c := by
  obtain ⟨call', hmem, hc, hstage⟩ := h
  obtain ⟨j, hj⟩ := List.mem_iff_getElem?.mp hmem
  refine ⟨call', List.mem_iff_getElem?.mpr ⟨j, ?_⟩, hc, hstage⟩
  rw [hdeletes, List.getElem?_set_ne, hj]
  rintro rfl
  rw [hk] at hj
  exact hold (Option.some.inj hj ▸ hstage)

theorem shutOut_advanceDelete_iff (h : w.ShutOut) (k : ℕ) (reply : Bool) :
    (w.fire (.advanceDelete k reply)).ShutOut ↔ w.KeepsShut (.advanceDelete k reply) := by
  cases hk : w.deletes[k]? with
  | none => simp only [fire, hk, KeepsShut, Option.not_mem_none, false_implies, implies_true, h]
  | some call =>
    have hkeeps : w.KeepsShut (.advanceDelete k reply) ↔ (call.clears → w.state.shuttingDown ∨
        w.state.isClaimed call.conversationId ∨ ¬w.PendingDelete call.conversationId) := by
      simp only [KeepsShut, hk, Option.mem_some_iff, forall_eq']
    rw [hkeeps]
    simp only [fire, hk]
    cases hstage : call.stage with
    | hooks =>
      have hout : (w.advanceDelete k call reply).ShutOut := by
        simp only [advanceDelete, hstage]
        exact h.mono (fun c => pendingDelete_of_set (by simp) rfl) fun c hc => hc
      simp only [DeleteCall.clears, hstage, hout, true_iff]
      exact fun hfalse => absurd hfalse (by decide)
    | done =>
      have hout : (w.advanceDelete k call reply).ShutOut := by
        simp only [advanceDelete, hstage]
        exact h
      simp only [DeleteCall.clears, hstage, hout, true_iff]
      exact fun hfalse => absurd hfalse (by decide)
    | repoDeleted ok =>
      simp only [advanceDelete, hstage, DeleteCall.clears]
      by_cases hclear : (!ok || !call.hadActiveTurn) = true
      · rw [if_pos hclear, RuntimeWorld.shutOut_iff]
        simp only [hclear, true_implies]
        constructor
        · intro hout
          by_cases hc : w.PendingDelete call.conversationId
          · rcases hout _ (hc.set hk (by simp [hstage]) rfl) with hshut | hdeleting | hactive
            · exact .inl hshut
            · exact absurd hdeleting (Finset.notMem_erase _ _)
            · exact .inr (.inl hactive)
          · exact .inr (.inr hc)
        · intro hopen c hc
          have hpending := pendingDelete_of_set (by simp) rfl hc
          rcases RuntimeWorld.shutOut_iff.mp h c hpending with hshut | hdeleting | hactive
          · exact .inl hshut
          · by_cases heq : c = call.conversationId
            · rcases hopen with hshut | hactive | hnot
              · exact .inl hshut
              · exact .inr (.inr (heq ▸ hactive))
              · exact absurd (heq ▸ hpending) hnot
            · exact .inr (.inl (Finset.mem_erase.mpr ⟨heq, hdeleting⟩))
          · exact .inr (.inr hactive)
      · rw [if_neg hclear]
        refine ⟨fun _ htrue => absurd htrue hclear, fun _ => ?_⟩
        have hdone : ({ call with stage := .done } : DeleteCall).stage ≠ .hooks := DeleteStage.noConfusion
        exact h.mono (fun c hc => pendingDelete_of_set hdone rfl hc) fun c hc => hc

/-- A release keeps the pending deletions shut exactly if it frees none of their conversations,
or everything shuts down. -/
theorem shutOut_release_iff (h : w.ShutOut) (hw : w.Exclusive) (k : ℕ) :
    (w.fire (.release k)).ShutOut ↔ w.KeepsShut (.release k) := by
  rcases release_cases hw k with ⟨hreleased, heq⟩ | ⟨c, t, hfrees⟩
  · rw [heq]
    refine ⟨fun _ claim hclaim hlive => ?_, fun _ => h⟩
    rw [hreleased claim hclaim] at hlive
    cases hlive
  · rw [hfrees.shutOut_iff h]
    have hlive : w.claims[k]? = some ⟨c, t, false⟩ := hfrees.live
    simp only [KeepsShut, hlive, Option.mem_some_iff, forall_eq', true_implies]

theorem shutOut_fire_iff (h : w.ShutOut) (hw : w.Exclusive) (step : RuntimeStep) :
    (w.fire step).ShutOut ↔ w.KeepsShut step := by
  cases step with
  | release k => exact shutOut_release_iff h hw k
  | advanceDelete k reply => exact shutOut_advanceDelete_iff h k reply
  | releaseForTurn k turnId =>
    rcases releaseForTurn_cases w k turnId with ⟨hother, heq⟩ | ⟨hturn, heq⟩
    · rw [heq]
      exact ⟨fun _ claim hclaim _ hturn => absurd hturn (hother claim hclaim), fun _ => h⟩
    · rw [heq, shutOut_release_iff h hw k]
      exact ⟨fun hkeeps claim hclaim hlive _ => hkeeps claim hclaim hlive,
        fun hkeeps claim hclaim hlive => hkeeps claim hclaim hlive (hturn claim hclaim)⟩
  | claim c t =>
    refine ⟨fun _ => trivial, fun _ => ?_⟩
    cases hclaim : w.state.tryClaimTurn c t with
    | error _ =>
      simp only [fire, hclaim]
      exact h
    | ok result =>
      obtain ⟨s', claim⟩ := result
      obtain ⟨-, hs, -⟩ := tryClaimTurn_ok hclaim
      simp only [fire, hclaim, hs]
      refine h.mono (fun _ hc => hc) fun c' hclosed => ?_
      rcases hclosed with hshut | hdeleting | hactive
      · exact .inl hshut
      · exact .inr (.inl hdeleting)
      · refine .inr (.inr ?_)
        rw [Dict.lookup_insert']
        split
        · rfl
        · exact hactive
  | delete c =>
    refine ⟨fun _ => trivial, fun _ => RuntimeWorld.shutOut_iff.mpr ?_⟩
    rintro c' ⟨call, hmem, rfl, hstage⟩
    rcases List.mem_append.mp hmem with hmem | hmem
    · rcases RuntimeWorld.shutOut_iff.mp h _ ⟨call, hmem, rfl, hstage⟩ with hshut | hdeleting | hactive
      · exact .inl hshut
      · exact .inr (.inl (Finset.mem_insert_of_mem hdeleting))
      · exact .inr (.inr hactive)
    · rw [List.mem_singleton.mp hmem]
      exact .inr (.inl (Finset.mem_insert_self _ _))
  | shutDown => exact ⟨fun _ => trivial, fun _ => shutOut_iff.mpr fun c _ => .inl rfl⟩
  | cancel c t => exact ⟨fun _ => trivial, fun _ => h⟩
  | advanceCancel k reply =>
    have hsame : (w.fire (.advanceCancel k reply)).deletes = w.deletes ∧
        ∀ c, w.Closed c → (w.fire (.advanceCancel k reply)).Closed c := by
      simp only [fire]
      split
      · exact ⟨rfl, fun _ hc => hc⟩
      · rename_i call _
        unfold advanceCancel
        cases call.stage with
        | mark | failed | done => exact ⟨rfl, fun _ hc => hc⟩
        | compare | lookup | agent => dsimp only; split <;> exact ⟨rfl, fun _ hc => hc⟩
    refine ⟨fun _ => trivial, fun _ => h.mono (fun c hc => ?_) hsame.2⟩
    rwa [PendingDelete, hsame.1] at hc

theorem shutOut_empty : empty.ShutOut := by
  rintro c ⟨call, hmem, -⟩
  cases hmem

/-- A conversation has at most one live claim. As long as no step takes the deleting flag from a
conversation with a pending deletion and leaves it open, no turn starts on it; and the next step
keeps that exactly if it takes no such flag. -/
theorem no_turn_starts_while_deleting (h : (machine.restrict KeepsShut).Reachable w) :
    (∀ c k k' t t', w.Live k c t → w.Live k' c t' → k = k') ∧
      (∀ c k k' t step, w.Live k' c t → k ≠ k' →
        (step = .release k ∨ ∃ turnId, step = .releaseForTurn k turnId) →
        (w.fire step).state.activeTurnIdFor c = some t) ∧
      w.ShutOut ∧ ∀ step, (w.fire step).ShutOut ↔ w.KeepsShut step := by
  have hexclusive := exclusive_of_reachable h.of_restrict
  obtain ⟨hout, hstep⟩ := Machine.Reachable.exact (P := ShutOut) (C := KeepsShut)
    (fun v (hv : v = empty) => by rw [hv]; exact shutOut_empty)
    (fun v step hr hv _ => shutOut_fire_iff hv (exclusive_of_reachable hr) step) h
  refine ⟨hexclusive.single, fun c k k' t step hlive hne hstep => ?_, hout,
    fun step => hstep step trivial⟩
  refine ((hexclusive.fire step).held c t).mpr ⟨k', ?_⟩
  rcases hstep with rfl | ⟨turnId, rfl⟩
  · exact hlive.release hexclusive hne
  · rcases releaseForTurn_cases w k turnId with ⟨-, heq⟩ | ⟨-, heq⟩
    · rw [heq]
      exact hlive
    · rw [heq]
      exact hlive.release hexclusive hne

/-- After any run a turn is let in unless a claim of the conversation is live, the conversation is
being deleted or the service shuts down. -/
theorem turn_admitted_iff (h : machine.Reachable w) (c t : String) :
    (∃ claimed, w.state.tryClaimTurn c t = .ok claimed) ↔ w.state.shuttingDown = false ∧
      c ∉ w.state.deletingConversations ∧ ∀ t' k, ¬w.Live k c t' := by
  have hfree : w.state.activeTurns.lookup c = none ↔ ∀ t' k, ¬w.Live k c t' := by
    simp only [Option.eq_none_iff_forall_ne_some, ne_eq, (exclusive_of_reachable h).held,
      not_exists]
  rw [← hfree]
  constructor
  · rintro ⟨_, hok⟩
    exact (tryClaimTurn_ok hok).1
  · rintro ⟨hshut, hdeleting, hnone⟩
    simp [ConversationRuntimeState.tryClaimTurn, hshut, hdeleting, hnone]

theorem turn_admitted_iff_sample :
    ¬∃ claimed, (machine.run empty [.claim "c" "t"]).state.tryClaimTurn "c" "u" = .ok claimed :=
  fun hok =>
    ((turn_admitted_iff (Machine.reachable_run rfl (by decide)) "c" "u").mp hok).2.2 "t" 0 rfl

/-- A turn ends, and its conversation is deleted. -/
def deletedLater : List RuntimeStep :=
  [.claim "c" "t", .release 0, .delete "c", .claim "c" "t2", .advanceDelete 0 true,
    .advanceDelete 0 true]

theorem no_turn_starts_while_deleting_sample :
    (machine.run empty deletedLater).ShutOut ∧ (machine.run empty deletedLater).claims.length = 1 :=
  ⟨(no_turn_starts_while_deleting (Machine.reachable_run (M := machine.restrict KeepsShut)
    (s := empty) rfl (by decide))).2.2.1, by decide⟩

def turnEndsInHooks : List RuntimeStep := [.claim "c" "t", .delete "c", .release 0]

theorem turn_starts_while_deleting : ¬∀ w : RuntimeWorld, machine.Reachable w → w.ShutOut := by
  intro h
  obtain ⟨e, he⟩ := h (machine.run empty turnEndsInHooks) (Machine.reachable_run rfl (by decide)) "c"
    (by decide) "t2"
  cases he

end RuntimeWorld

end AionCore.Conversation
