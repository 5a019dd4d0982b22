import AionCore.Team.WorkInvariant

/-!
# What `reconcile_mailbox` does to each intent

It completes the queued message intents of its slot whose message is not in the
unread list, leaves every other intent as it is, and adds intents without run for
unread messages.
-/

namespace AionCore.Team

namespace SlotWorkCoordinator

variable {c : SlotWorkCoordinator} {s : CoordinatorState} {slotId : String}
  {role : TeamRunTargetRole} {now : TimestampMs}

def Recovered (c : SlotWorkCoordinator) (slotId : String) (role : TeamRunTargetRole)
    (now : TimestampMs) (messageIds : List String) (x : WorkIntent) : Prop :=
  ∃ s, ∃ m ∈ messageIds, x = c.recoveryIntent s slotId m role now

variable {x : WorkIntent} {i : String} {log : List String} {acc : CoordinatorState × List String}

/-- One turn of the recovery loop keeps the intents it finds. -/
theorem lookup_recoverMessage (h : c.Logged acc.1 log) (m : String)
    (hx : acc.1.intents.lookup i = some x) :
    (c.recoverMessage slotId role now acc m).1.intents.lookup i = some x := by
  simp only [recoverMessage]
  split
  · exact hx
  · have hne : i ≠ c.generateId.draw acc.1.generated := by
      rintro rfl
      rw [h.absent] at hx
      cases hx
    simpa [CoordinatorState.modifySlot, recoveryIntent, Dict.lookup_insert', hne] using hx

theorem lookup_foldl_recoverMessage (h : c.Logged acc.1 log) (messageIds : List String)
    (hx : acc.1.intents.lookup i = some x) :
    (messageIds.foldl (c.recoverMessage slotId role now) acc).1.intents.lookup i = some x := by
  induction messageIds generalizing acc log with
  | nil => exact hx
  | cons m messageIds ih =>
    obtain ⟨new, -, hext, -⟩ := c.recoverMessage_extends slotId role now acc m
    exact ih (h.extends hext) (lookup_recoverMessage h m hx)

/-- An intent after the recovery loop was there before it, or the loop has created it. -/
theorem recovered_of_foldl (acc : CoordinatorState × List String) (messageIds : List String)
    (hx : (messageIds.foldl (c.recoverMessage slotId role now) acc).1.intents.lookup i = some x) :
    acc.1.intents.lookup i = some x ∨ c.Recovered slotId role now messageIds x := by
  induction messageIds generalizing acc with
  | nil => exact .inl hx
  | cons m messageIds ih =>
    rcases ih _ hx with hx | ⟨s₀, m', hm', rfl⟩
    · unfold recoverMessage at hx
      dsimp only at hx
      split at hx
      · exact .inl hx
      · rw [CoordinatorState.modifySlot, Dict.lookup_insert'] at hx
        split at hx
        · exact .inr ⟨acc.1, m, List.mem_cons_self, (Option.some.inj hx).symm⟩
        · exact .inl hx
    · exact .inr ⟨s₀, m', List.mem_cons_of_mem m hm', rfl⟩

/-- How a call of `reconcile_mailbox` leaves an intent that it finds. -/
def reconciled (s : CoordinatorState) (slotId : String) (unread : List String) (i : String)
    (x : WorkIntent) : WorkIntent :=
  if i ∈ s.queuesOf slotId ∧ isStale s unread i then { x with state := .completed } else x

theorem queuedIds_entrySlot (s : CoordinatorState) (t : String) (role : TeamRunTargetRole) :
    (s.entrySlot t role).queuedIds = s.queuesOf t := by
  rw [CoordinatorState.entrySlot, CoordinatorState.queuesOf]
  simp only [CoordinatorState.queueOf]
  cases s.slots.lookup t <;> rfl

/-- The intents when the stale ones have been completed, before the recovery loop. -/
theorem lookup_cleared (unread : List String) (hx : s.intents.lookup i = some x)
    {cleared : List String}
    (hcleared : ∀ i, i ∈ cleared ↔
      (i ∈ s.queuesOf slotId ∧ (s.intents.lookup i).isSome) ∧ isStale s unread i) :
    (s.setIntentStates cleared .completed).intents.lookup i =
      some (reconciled s slotId unread i x) := by
  rw [CoordinatorState.lookup_setIntentStates, hx, reconciled]
  by_cases hi : i ∈ s.queuesOf slotId ∧ isStale s unread i
  · rw [if_pos ((hcleared i).mpr ⟨⟨hi.1, by simp [hx]⟩, hi.2⟩), if_pos hi]
    rfl
  · rw [if_neg fun hm => hi ⟨((hcleared i).mp hm).1.1, ((hcleared i).mp hm).2⟩, if_neg hi]

theorem lookup_reconcileMailbox (h : c.Logged s log) (unread : List String)
    (hx : s.intents.lookup i = some x) :
    (c.reconcileMailbox s slotId unread role now).state.intents.lookup i =
      some (reconciled s slotId unread i x) := by
  simp only [reconcileMailbox]
  refine lookup_foldl_recoverMessage (h.retains (reconcileMailbox_retains s slotId unread role _))
    unread (lookup_cleared unread hx fun j => ?_)
  rw [← queuedIds_entrySlot s slotId role, List.mem_filter, List.mem_filter]
  rfl

theorem lookup_of_reconcileMailbox (unread : List String)
    (hx : (c.reconcileMailbox s slotId unread role now).state.intents.lookup i = some x) :
    (s.intents.lookup i).isSome ∨ c.Recovered slotId role now unread x := by
  unfold reconcileMailbox at hx
  refine (recovered_of_foldl _ unread hx).imp_left fun hx => ?_
  rw [← isSome_enqueuedAs, ← (reconcileMailbox_retains s slotId unread role _).enqueuedAs i,
    isSome_enqueuedAs]
  exact Option.isSome_of_eq_some hx

/-- An intent that a call creates is the one that a commit stores, or a recovered one. -/
theorem created_cases {w : Tracked} {call : Call} {y : WorkIntent}
    (habsent : w.state.intents.lookup i = none)
    (hy : (c.fire w call).state.intents.lookup i = some y) :
    (∃ lease m now slot, call.op = .commitEnqueue lease m now ∧
      c.checkCommit w.state lease m = .ok slot ∧ y = c.committedIntent w.state lease m now) ∨
    ∃ slotId unread role now, call.op = .reconcileMailbox slotId unread role now ∧
      c.Recovered slotId role now unread y := by
  obtain ⟨op, bindEnqueue⟩ := call
  cases hop : op.brings with
  | false =>
    have hsame := ((c.exec_retains w.state bindEnqueue op hop).1).enqueuedAs i
    simp only [fire] at hy
    simp [CoordinatorState.enqueuedAs, hy, habsent] at hsame
  | true =>
    cases op with
    | commitEnqueue lease m now =>
      simp only [fire, exec, Outcome.map] at hy
      unfold commitEnqueue at hy
      split at hy
      · simp [habsent] at hy
      · rename_i slot hcheck
        rw [Dict.lookup_insert'] at hy
        split at hy
        · exact .inl ⟨lease, m, now, slot, rfl, hcheck, (Option.some.inj hy).symm⟩
        · simp [habsent] at hy
    | reconcileMailbox t unread role now =>
      rcases lookup_of_reconcileMailbox unread hy with hsome | hrecovered
      · simp [habsent] at hsome
      · exact .inr ⟨t, unread, role, now, rfl, hrecovered⟩
    | next t =>
      have hsame := (c.next_extends w.state t).others i List.not_mem_nil
      simp only [fire, exec, Outcome.map] at hy
      simp [CoordinatorState.enqueuedAs, hy, habsent] at hsame
    | _ => simp [Op.brings] at hop

end SlotWorkCoordinator

end AionCore.Team
