import AionCore.Team.WorkLedger

/-!
# What no operation changes

An operation changes of an existing intent at most its state, and a slot comes to
hold a batch only through `next`, which gives it a new identifier. No lemma of this
file asks anything of the state or the arguments.
-/

namespace AionCore.Team

namespace CoordinatorState

def enqueuedAs (s : CoordinatorState) (i : String) : Option WorkIntent :=
  (s.intents.lookup i).map (·.asQueued)

/-- The batch that is active in a slot. -/
def batchOf (s : CoordinatorState) (t : String) : Option WorkBatch := (s.activeOf t).map (·.batch)

/-- The intents of `s'` differ from those of `s` only in their states, and its slots
hold at most the batches that they held. -/
structure Retains (s s' : CoordinatorState) : Prop where
  generated : s.generated ≤ s'.generated
  enqueuedAs : ∀ i, s'.enqueuedAs i = s.enqueuedAs i
  batchOf : ∀ t b, s'.batchOf t = some b → s.batchOf t = some b

namespace Retains

variable {s s' s'' : CoordinatorState}

theorem refl (s : CoordinatorState) : Retains s s := ⟨le_rfl, fun _ => rfl, fun _ _ h => h⟩

theorem trans (h : Retains s s') (h' : Retains s' s'') : Retains s s'' where
  generated := h.generated.trans h'.generated
  enqueuedAs i := (h'.enqueuedAs i).trans (h.enqueuedAs i)
  batchOf t b hb := h.batchOf t b (h'.batchOf t b hb)

theorem congr (hi : s'.intents = s.intents) (hs : s'.slots = s.slots)
    (hg : s.generated ≤ s'.generated) : Retains s s' where
  generated := hg
  enqueuedAs i := by rw [CoordinatorState.enqueuedAs, hi, CoordinatorState.enqueuedAs]
  batchOf t b hb := by
    simpa only [CoordinatorState.batchOf, activeOf, hs] using hb

theorem foldl {α : Type} {f : CoordinatorState → α → CoordinatorState}
    (h : ∀ s a, Retains s (f s a)) (s : CoordinatorState) (l : List α) :
    Retains s (l.foldl f s) := by
  induction l generalizing s with
  | nil => exact refl s
  | cons a l ih => exact (h s a).trans (ih (f s a))

end Retains

section

variable (s : CoordinatorState)
include s

theorem enqueuedAs_setIntentStates (ids : List String) (state : WorkIntentState) (i : String) :
    (s.setIntentStates ids state).enqueuedAs i = s.enqueuedAs i := by
  simp only [enqueuedAs, lookup_setIntentStates]
  split
  · simp only [Option.map_map]
    rfl
  · rfl

theorem retains_setIntentStates (ids : List String) (state : WorkIntentState) :
    Retains s (s.setIntentStates ids state) :=
  ⟨le_rfl, enqueuedAs_setIntentStates s ids state, fun _ _ h => h⟩

theorem activeOf_putSlot (t u : String) (slot : SlotState) :
    (s.putSlot t slot).activeOf u = if u = t then slot.active else s.activeOf u := by
  simp only [activeOf, putSlot, Dict.lookup_insert']
  split <;> rfl

theorem activeOf_modifySlot (t u : String) (f : SlotState → SlotState) :
    (s.modifySlot t f).activeOf u =
      if u = t then (s.slots.lookup u).bind fun slot => (f slot).active else s.activeOf u := by
  simp only [activeOf, modifySlot, Dict.lookup_modify]
  split
  · cases s.slots.lookup u <;> rfl
  · rfl

theorem active_entrySlot (t : String) (role : TeamRunTargetRole) :
    (s.entrySlot t role).active = s.activeOf t := by
  simp only [entrySlot, activeOf]
  cases s.slots.lookup t <;> rfl

/-- Writing a slot back with its batch or with none. -/
theorem retains_putSlot (t : String) {slot : SlotState}
    (h : slot.active = none ∨ slot.active = s.activeOf t) : Retains s (s.putSlot t slot) where
  generated := le_rfl
  enqueuedAs _ := rfl
  batchOf u b hb := by
    rw [batchOf, activeOf_putSlot] at hb
    split at hb
    · rename_i hu
      rcases h with h | h
      · simp [h] at hb
      · rwa [h, ← hu] at hb
    · exact hb

/-- An edit of a slot that keeps its batch, possibly with a new turn, or drops it. -/
theorem retains_modifySlot (t : String) {f : SlotState → SlotState}
    (h : ∀ slot, (f slot).active = none ∨
      (f slot).active.map (·.batch) = slot.active.map (·.batch)) :
    Retains s (s.modifySlot t f) where
  generated := le_rfl
  enqueuedAs _ := rfl
  batchOf u b hb := by
    rw [batchOf, activeOf_modifySlot] at hb
    split at hb
    · simp only [batchOf, activeOf]
      cases hs : s.slots.lookup u with
      | none => simp [hs] at hb
      | some slot =>
        simp only [hs, Option.bind_some] at hb ⊢
        rcases h slot with h | h
        · simp [h] at hb
        · rwa [h] at hb
    · exact hb

theorem retains_removeAllQueued (t : String) (ids : List String) :
    Retains s (s.removeAllQueued t ids) :=
  retains_modifySlot s t fun slot => .inr (by rw [SlotState.active_foldl_removeQueued])

end

end CoordinatorState

open CoordinatorState (Retains)

/-- The loop of `remove_slot` cancels intents, as far as it runs, and does nothing else. -/
theorem SlotWorkCoordinator.cancelListed_fst (s : CoordinatorState) (ids : List String) :
    ∃ done, (cancelListed s ids).1 = s.setIntentStates done (.cancelled "slot_removed") := by
  induction ids generalizing s with
  | nil => exact ⟨[], rfl⟩
  | cons i ids ih =>
    rw [cancelListed]
    split
    · exact ⟨[], rfl⟩
    · obtain ⟨done, hdone⟩ := ih (s.setIntentStates [i] (.cancelled "slot_removed"))
      exact ⟨i :: done, hdone⟩

def Op.brings : Op → Bool
  | .commitEnqueue _ _ _ | .reconcileMailbox _ _ _ _ | .next _ => true
  | _ => false

namespace SlotWorkCoordinator

variable (c : SlotWorkCoordinator)

/-- `s'` has the intents of `s` and those that were created on the way, each under an
identifier drawn in between. -/
structure Extends (s s' : CoordinatorState) (created : List String) : Prop where
  generated : s.generated ≤ s'.generated
  others : ∀ i ∉ created, s'.enqueuedAs i = s.enqueuedAs i
  nodup : created.Nodup
  drawn : ∀ i ∈ created, ∃ k, s.generated ≤ k ∧ k < s'.generated ∧ c.generateId.draw k = i
  intents : ∀ i ∈ created, ∃ x, s'.enqueuedAs i = some x ∧ x.intentId = i

variable {c} {s s' s'' : CoordinatorState} {new new' : List String}

theorem Extends.of_retains (h : Retains s s') : c.Extends s s' [] where
  generated := h.generated
  others i _ := h.enqueuedAs i
  nodup := List.nodup_nil
  drawn _ hi := by simp at hi
  intents _ hi := by simp at hi

theorem Extends.trans (h : c.Extends s s' new) (h' : c.Extends s' s'' new') :
    c.Extends s s'' (new ++ new') := by
  have hdisj : ∀ i ∈ new, i ∉ new' := by
    intro i hi hi'
    obtain ⟨k, -, hk, rfl⟩ := h.drawn i hi
    obtain ⟨k', hk', -, he⟩ := h'.drawn _ hi'
    have := c.generateId.fresh he
    omega
  refine ⟨h.generated.trans h'.generated, fun i hi => ?_, ?_, fun i hi => ?_, fun i hi => ?_⟩
  · rw [List.mem_append, not_or] at hi
    rw [h'.others i hi.2, h.others i hi.1]
  · refine List.nodup_append.mpr ⟨h.nodup, h'.nodup, fun a ha b hb => ?_⟩
    rintro rfl
    exact hdisj a ha hb
  · have hg := h.generated
    have hg' := h'.generated
    rcases List.mem_append.mp hi with hi | hi
    · obtain ⟨k, hk, hk', he⟩ := h.drawn i hi
      exact ⟨k, hk, by omega, he⟩
    · obtain ⟨k, hk, hk', he⟩ := h'.drawn i hi
      exact ⟨k, by omega, hk', he⟩
  · rcases List.mem_append.mp hi with hi | hi
    · rw [h'.others i (hdisj i hi)]
      exact h.intents i hi
    · exact h'.intents i hi

/-- One new intent under the next identifier. -/
theorem Extends.insert {intent : WorkIntent}
    (hid : intent.intentId = c.generateId.draw s.generated)
    (hi : s'.intents = s.intents.insert intent.intentId intent)
    (hg : s'.generated = s.generated + 1) : c.Extends s s' [intent.intentId] where
  generated := by omega
  others i hni := by
    rw [CoordinatorState.enqueuedAs, hi, Dict.lookup_insert', if_neg (by simpa using hni)]
    rfl
  nodup := List.nodup_singleton _
  drawn i hmem := by
    obtain rfl : i = intent.intentId := by simpa using hmem
    exact ⟨s.generated, le_rfl, by omega, hid.symm⟩
  intents i hmem := by
    obtain rfl : i = intent.intentId := by simpa using hmem
    exact ⟨intent.asQueued, by rw [CoordinatorState.enqueuedAs, hi]; simp, rfl⟩

variable (c) (s : CoordinatorState)

theorem acquireEnqueue_retains (bindEnqueue : EnqueueRequest → RunBinding)
    (request : EnqueueRequest) : Retains s (c.acquireEnqueue s bindEnqueue request).state := by
  rw [acquireEnqueue]
  have hput : Retains s (s.putSlot request.slotId
      { s.entrySlot request.slotId request.role with role := request.role }) :=
    s.retains_putSlot _ (.inr (s.active_entrySlot _ _))
  split
  · exact hput
  · exact hput.trans (.congr rfl rfl (Nat.le_succ _))

theorem slot_of_checkCommit {lease : EnqueueLease} {messageId : Option String} {slot : SlotState}
    (h : c.checkCommit s lease messageId = .ok slot) : s.slots.lookup lease.slotId = some slot := by
  unfold checkCommit at h
  repeat' split at h
  all_goals simp_all

theorem commitEnqueue_extends (lease : EnqueueLease) (messageId : Option String)
    (now : TimestampMs) :
    c.Extends s (c.commitEnqueue s lease messageId now).state
      (Reply.commit (c.commitEnqueue s lease messageId now).result).enqueued := by
  rw [commitEnqueue]
  split
  · exact .of_retains (.refl s)
  · exact .insert rfl rfl rfl

variable {b : WorkBatch} {t : String}

theorem commitEnqueue_batchOf (lease : EnqueueLease) (messageId : Option String)
    (now : TimestampMs) (h : (c.commitEnqueue s lease messageId now).state.batchOf t = some b) :
    s.batchOf t = some b := by
  unfold commitEnqueue at h
  split at h
  · exact h
  · rename_i slot hslot
    have hl := c.slot_of_checkCommit s hslot
    simp only [CoordinatorState.batchOf, CoordinatorState.activeOf, Dict.lookup_insert'] at h ⊢
    split at h
    · rename_i ht
      rw [ht, hl]
      cases hr : lease.source.resumesPausedSlot <;> simpa [hr, SlotState.pushBack] using h
    · exact h

theorem abortEnqueue_retains (lease : EnqueueLease) :
    Retains s (c.abortEnqueue s lease).state := by
  rw [abortEnqueue]
  split
  · exact .refl s
  · split <;> exact .congr rfl rfl le_rfl

section

variable (slotId : String)
include slotId

theorem recoverMessage_extends (role : TeamRunTargetRole) (now : TimestampMs)
    (acc : CoordinatorState × List String) (messageId : String) :
    ∃ new, (c.recoverMessage slotId role now acc messageId).2 = acc.2 ++ new ∧
      c.Extends acc.1 (c.recoverMessage slotId role now acc messageId).1 new ∧
      ∀ t b, (c.recoverMessage slotId role now acc messageId).1.batchOf t = some b →
        acc.1.batchOf t = some b := by
  simp only [recoverMessage]
  split
  · exact ⟨[], by simp, .of_retains (.refl _), fun _ _ h => h⟩
  · refine ⟨_, rfl, .insert rfl rfl rfl, fun t b h => ?_⟩
    refine (CoordinatorState.retains_modifySlot _ slotId fun slot => .inr ?_).batchOf t b h
    rw [SlotState.pushBack, SlotState.active_modifyQueue]

theorem foldl_recoverMessage_extends (role : TeamRunTargetRole) (now : TimestampMs)
    (acc : CoordinatorState × List String) (messageIds : List String) :
    ∃ new, (messageIds.foldl (c.recoverMessage slotId role now) acc).2 = acc.2 ++ new ∧
      c.Extends acc.1 (messageIds.foldl (c.recoverMessage slotId role now) acc).1 new ∧
      ∀ t b, (messageIds.foldl (c.recoverMessage slotId role now) acc).1.batchOf t = some b →
        acc.1.batchOf t = some b := by
  induction messageIds generalizing acc with
  | nil => exact ⟨[], by simp, .of_retains (.refl _), fun _ _ h => h⟩
  | cons m messageIds ih =>
    obtain ⟨new, he, hx, hb⟩ := c.recoverMessage_extends slotId role now acc m
    obtain ⟨new', he', hx', hb'⟩ := ih (c.recoverMessage slotId role now acc m)
    rw [List.foldl_cons]
    refine ⟨new ++ new', ?_, hx.trans hx', fun t b h => hb t b (hb' t b h)⟩
    rw [he', he, List.append_assoc]

/-- The part of `reconcile_mailbox` before its recovery loop. -/
theorem reconcileMailbox_retains (unread : List String) (role : TeamRunTargetRole)
    (cleared : List String) :
    Retains s (((s.putSlot slotId { s.entrySlot slotId role with
      role := role, knownUnreadMessageIds := unread.toFinset }).setIntentStates cleared
        .completed).removeAllQueued slotId cleared) := by
  refine (Retains.trans ?_ (CoordinatorState.retains_setIntentStates _ _ _)).trans
    (CoordinatorState.retains_removeAllQueued _ _ _)
  exact s.retains_putSlot slotId (.inr (s.active_entrySlot slotId role))

theorem reconcileMailbox_extends (unread : List String) (role : TeamRunTargetRole)
    (now : TimestampMs) :
    c.Extends s (c.reconcileMailbox s slotId unread role now).state
      (c.reconcileMailbox s slotId unread role now).result.createdRecoveryIntentIds := by
  simp only [reconcileMailbox]
  obtain ⟨new, he, hx, -⟩ := c.foldl_recoverMessage_extends slotId role now (_, []) unread
  rw [he]
  exact (Extends.of_retains (reconcileMailbox_retains s slotId unread role _)).trans hx

theorem reconcileMailbox_batchOf (unread : List String) (role : TeamRunTargetRole)
    (now : TimestampMs)
    (h : (c.reconcileMailbox s slotId unread role now).state.batchOf t = some b) :
    s.batchOf t = some b := by
  unfold reconcileMailbox at h
  obtain ⟨-, -, -, hb⟩ := c.foldl_recoverMessage_extends slotId role now (_, []) unread
  exact (reconcileMailbox_retains s slotId unread role _).batchOf t b (hb t b h)

/-- `next` changes nothing, or the slot is idle and ready and the messages of its
first nonempty queue are claimed. -/
theorem next_cases :
    ((c.next s slotId).state = s ∧ (c.next s slotId).calls = [] ∧
      ∀ b, (c.next s slotId).result ≠ .claim b) ∨
    ∃ slot p, s.slots.lookup slotId = some slot ∧ slot.active = none ∧
      slot.runtimeConstraint = .ready ∧ slot.paused = false ∧
      [WorkPriority.foreground, .control, .background].find? (slot.queue · ≠ []) = some p ∧
      (slot.queue p).filter (bearsMessage s) ≠ [] ∧
      c.next s slotId = c.claimBatch s slotId p ((slot.queue p).filter (bearsMessage s)) := by
  rw [next]
  split
  · exact .inl ⟨rfl, rfl, nofun⟩
  · rename_i slot hslot
    by_cases ha : slot.active.isSome
    · simp [ha]
    by_cases hr : slot.runtimeConstraint = .ready
    · cases hp : slot.paused with
      | true => simp [ha, hr]
      | false =>
        simp only [ha, hr, ne_eq, not_true, if_false, Bool.false_eq_true]
        split
        · exact .inl ⟨rfl, rfl, nofun⟩
        · rename_i p hfind
          split
          · exact .inl ⟨rfl, rfl, nofun⟩
          · rename_i hm
            exact .inr ⟨slot, p, hslot, by simpa using ha, hr, hp, hfind, hm, rfl⟩
    · simp [ha, hr]

theorem claimBatch_enqueuedAs (p : WorkPriority) (ids : List String) (i : String) :
    (c.claimBatch s slotId p ids).state.enqueuedAs i = s.enqueuedAs i :=
  CoordinatorState.enqueuedAs_setIntentStates _ _ _ i

theorem claimBatch_batchOf (p : WorkPriority) (ids : List String)
    (h : (c.claimBatch s slotId p ids).state.batchOf t = some b) :
    s.batchOf t = some b ∨ t = slotId ∧ b = c.claimedBatch s slotId p ids := by
  simp only [claimBatch, CoordinatorState.batchOf, CoordinatorState.activeOf_modifySlot] at h
  split at h
  · rename_i ht
    right
    simp only [Option.map_eq_some_iff, Option.bind_eq_some_iff] at h
    obtain ⟨active, ⟨slot, -, ha⟩, rfl⟩ := h
    obtain rfl := Option.some.inj ha
    exact ⟨ht, rfl⟩
  · exact .inl h

theorem next_extends : c.Extends s (c.next s slotId).state [] := by
  rcases c.next_cases s slotId with ⟨h, -, -⟩ | ⟨slot, p, -, -, -, -, -, -, h⟩
  · rw [h]
    exact .of_retains (.refl s)
  · rw [h]
    refine ⟨by simp [claimBatch, CoordinatorState.modifySlot,
      CoordinatorState.setIntentStates], fun i _ => c.claimBatch_enqueuedAs s slotId p _ i,
      List.nodup_nil, ?_, ?_⟩ <;> simp

end

theorem markStarted_retains (batch : WorkBatch) (turnId : String) (now : TimestampMs) :
    Retains s (c.markStarted s batch turnId now).state := by
  rw [markStarted]
  split
  · exact .refl s
  · refine (s.retains_setIntentStates _ _).trans
      (CoordinatorState.retains_modifySlot _ _ fun slot => .inr ?_)
    cases slot.active <;> rfl

theorem retryStart_retains (batch : WorkBatch) : Retains s (c.retryStart s batch).state := by
  rw [retryStart]
  split
  · exact .refl s
  · refine (s.retains_setIntentStates _ _).trans
      (CoordinatorState.retains_modifySlot _ _ fun slot => .inl ?_)
    have h := SlotState.active_foldl_pushFront { slot with active := none }
      (batch.intentIds.reverse.map fun id => (batch.highestPriority, id))
    rwa [List.foldl_map] at h

theorem terminalizeBatch_retains (batch : WorkBatch) (state : WorkIntentState) :
    Retains s (c.terminalizeBatch s batch state).state := by
  rw [terminalizeBatch]
  split
  · exact .refl s
  · exact (s.retains_setIntentStates _ _).trans
      (CoordinatorState.retains_modifySlot _ _ fun slot => .inl rfl)

theorem cancelActive_retains (teamRunId : String) (target : String × ActiveBatch) :
    Retains s (cancelActive teamRunId s target) := by
  refine ((s.retains_setIntentStates _ _).trans
    (CoordinatorState.retains_setIntentStates _ _ _)).trans
      (CoordinatorState.retains_modifySlot _ _ fun slot => .inl ?_)
  rw [SlotState.active_foldl_pushFront]

theorem cancelQueued_retains (intentId : String) : Retains s (cancelQueued s intentId) := by
  rw [cancelQueued]
  split
  · exact .refl s
  · exact (s.retains_setIntentStates _ _).trans
      (CoordinatorState.retains_modifySlot _ _ fun slot => .inr rfl)

theorem cancelRun_retains (teamRunId : String) (order : IterOrder WorkIntent) :
    Retains s (cancelRun s teamRunId order).state :=
  ((Retains.foldl (fun s target => cancelActive_retains s teamRunId target) s _).trans
    (Retains.foldl cancelQueued_retains _ _)).trans (.congr rfl rfl le_rfl)

theorem completeSignals_retains (slotId : String) (ids : List String) :
    Retains s (completeSignals s slotId ids).state := by
  rw [completeSignals]
  split
  · exact .refl s
  · exact (s.retains_setIntentStates _ _).trans
      (CoordinatorState.retains_removeAllQueued _ _ _)

theorem pauseSlot_retains (slotId : String) : Retains s (pauseSlot s slotId).state :=
  s.retains_putSlot slotId (.inr (s.active_entrySlot slotId .teammate))

theorem setRuntimeConstraint_retains (slotId : String) (constraint : RuntimeConstraint)
    (order : IterOrder WorkIntent) :
    Retains s (setRuntimeConstraint s slotId constraint order).state := by
  have hput : Retains s (s.putSlot slotId
      { s.entrySlot slotId .teammate with runtimeConstraint := constraint }) :=
    s.retains_putSlot slotId (.inr (s.active_entrySlot slotId .teammate))
  simp only [setRuntimeConstraint]
  split
  · exact hput
  · refine ((hput.trans (CoordinatorState.retains_setIntentStates _ _ _)).trans
      (CoordinatorState.retains_setIntentStates _ _ _)).trans
        (CoordinatorState.retains_putSlot _ slotId (.inl ?_))
    rw [SlotState.active_foldl_pushBack]
    rfl

theorem removeSlot_retains (slotId : String) : Retains s (removeSlot s slotId).state := by
  obtain ⟨done, hdone⟩ := cancelListed_fst s (removedIntentIds s slotId)
  have hlist := s.retains_setIntentStates done (.cancelled "slot_removed")
  rw [← hdone] at hlist
  simp only [removeSlot]
  split
  · rename_i h
    simpa only [h] using hlist
  · rename_i h
    rw [h] at hlist
    exact hlist.trans (CoordinatorState.retains_modifySlot _ slotId fun slot => .inl rfl)

theorem stop_retains : Retains s (stop s).state where
  generated := le_rfl
  enqueuedAs i := by
    simp only [stop, CoordinatorState.enqueuedAs, Dict.lookup_mapValues, Option.map_map]
    congr 1
    funext x
    simp only [Function.comp_apply]
    split <;> rfl
  batchOf t b h := by
    simp only [stop, CoordinatorState.batchOf, CoordinatorState.activeOf,
      Dict.lookup_mapValues] at h
    cases ht : s.slots.lookup t <;> simp [ht, SlotState.clearWork] at h

section

variable (bindEnqueue : EnqueueRequest → RunBinding)
include bindEnqueue

/-- Apart from the two operations that create intents and the one that claims, an
operation retains what it finds. -/
theorem exec_retains (op : Op) (h : op.brings = false) :
    Retains s (c.exec bindEnqueue s op).state ∧
      (c.exec bindEnqueue s op).result.enqueued = [] := by
  cases op with
  | acquireEnqueue request => exact ⟨c.acquireEnqueue_retains s bindEnqueue request, rfl⟩
  | abortEnqueue lease => exact ⟨c.abortEnqueue_retains s lease, rfl⟩
  | commitEnqueue _ _ _ | reconcileMailbox _ _ _ _ | next _ => simp [Op.brings] at h
  | markStarted batch turnId now => exact ⟨c.markStarted_retains s batch turnId now, rfl⟩
  | retryStart batch => exact ⟨c.retryStart_retains s batch, rfl⟩
  | completeBatch batch => exact ⟨c.terminalizeBatch_retains s batch _, rfl⟩
  | failBatch batch classification => exact ⟨c.terminalizeBatch_retains s batch _, rfl⟩
  | cancelBatch batch classification => exact ⟨c.terminalizeBatch_retains s batch _, rfl⟩
  | cancelRun teamRunId order => exact ⟨cancelRun_retains s teamRunId order, rfl⟩
  | completeSignals t ids => exact ⟨completeSignals_retains s t ids, rfl⟩
  | pauseSlot t => exact ⟨pauseSlot_retains s t, rfl⟩
  | setRuntimeConstraint t constraint order =>
    exact ⟨setRuntimeConstraint_retains s t constraint order, rfl⟩
  | removeSlot t => exact ⟨removeSlot_retains s t, rfl⟩
  | stop => exact ⟨stop_retains s, rfl⟩

/-- No operation changes more of an existing intent than its state, and a new intent
carries a new identifier. -/
theorem exec_extends (op : Op) :
    c.Extends s (c.exec bindEnqueue s op).state (c.exec bindEnqueue s op).result.enqueued := by
  cases hop : op.brings with
  | false =>
    obtain ⟨hr, he⟩ := c.exec_retains s bindEnqueue op hop
    rw [he]
    exact .of_retains hr
  | true =>
    cases op with
    | commitEnqueue lease m now => exact c.commitEnqueue_extends s lease m now
    | reconcileMailbox t unread role now => exact c.reconcileMailbox_extends s t unread role now
    | next t => exact c.next_extends s t
    | _ => simp [Op.brings] at hop

/-- A slot comes to hold a batch only when `next` hands it out, under a new identifier. -/
theorem exec_batchOf (op : Op) (h : (c.exec bindEnqueue s op).state.batchOf t = some b) :
    s.batchOf t = some b ∨
      (c.exec bindEnqueue s op).result.handed = [b] ∧ b.slotId = t ∧
        b.batchId = c.generateId.draw s.generated ∧
        (c.exec bindEnqueue s op).state.generated = s.generated + 1 := by
  cases hop : op.brings with
  | false => exact .inl ((c.exec_retains s bindEnqueue op hop).1.batchOf t b h)
  | true =>
    cases op with
    | commitEnqueue lease m now => exact .inl (c.commitEnqueue_batchOf s lease m now h)
    | reconcileMailbox u unread role now =>
      exact .inl (c.reconcileMailbox_batchOf s u unread role now h)
    | next u =>
      simp only [exec, Outcome.map] at h ⊢
      rcases c.next_cases s u with ⟨hs, -, -⟩ | ⟨slot, p, -, -, -, -, -, -, hc⟩
      · rw [hs] at h
        exact .inl h
      · rw [hc] at h ⊢
        rcases c.claimBatch_batchOf s u p _ h with h | ⟨rfl, rfl⟩
        · exact .inl h
        · exact .inr ⟨rfl, rfl, rfl, rfl⟩
    | _ => simp [Op.brings] at hop

/-- A call hands out at most one batch, under a new identifier, and its slot holds it. -/
theorem exec_handed (op : Op) (h : b ∈ (c.exec bindEnqueue s op).result.handed) :
    (c.exec bindEnqueue s op).result.handed = [b] ∧ b.sessionGeneration = c.sessionGeneration ∧
      b.batchId = c.generateId.draw s.generated ∧
      (c.exec bindEnqueue s op).state.generated = s.generated + 1 ∧
      (c.exec bindEnqueue s op).state.batchOf b.slotId = some b := by
  cases op with
  | next t =>
    simp only [exec, Outcome.map] at h ⊢
    rcases c.next_cases s t with ⟨-, -, hno⟩ | ⟨slot, p, hslot, -, -, -, -, -, hclaim⟩
    · cases hr : (c.next s t).result with
      | claim b' => exact absurd hr (hno b')
      | _ => simp [hr, Reply.handed] at h
    · rw [hclaim] at h ⊢
      obtain rfl : b = c.claimedBatch s t p ((slot.queue p).filter (bearsMessage s)) := by
        simpa [claimBatch, Reply.handed] using h
      refine ⟨rfl, rfl, rfl, rfl, ?_⟩
      change (c.claimBatch s t p ((slot.queue p).filter (bearsMessage s))).state.batchOf t = _
      rw [CoordinatorState.batchOf, claimBatch, CoordinatorState.activeOf_modifySlot, if_pos rfl]
      simp [CoordinatorState.setIntentStates, hslot]
  | _ => simp [exec, Outcome.map, Reply.handed] at h

end

end SlotWorkCoordinator

end AionCore.Team
