import AionCore.Team.WorkFrame

/-!
# Leases

What the operations do to the enqueue leases. Only `acquire_enqueue` grants one,
under a new identifier and with the run of its binding; `commit_enqueue` and
`abort_enqueue` use one up, `cancel_run` and `stop` take leases away.
-/

namespace AionCore.Team

namespace CoordinatorState

def LeasesKeyed (s : CoordinatorState) : Prop :=
  ∀ k r, s.enqueueLeases.lookup k = some r → r.lease.leaseId = k

end CoordinatorState

def Op.touchesLeases : Op → Bool
  | .acquireEnqueue _ | .commitEnqueue _ _ _ | .abortEnqueue _ | .cancelRun _ _ | .stop => true
  | _ => false

namespace SlotWorkCoordinator

variable (c : SlotWorkCoordinator) (s : CoordinatorState)

/-- The record of a lease that `acquire_enqueue` grants. -/
def grantedLease (bindEnqueue : EnqueueRequest → RunBinding) (request : EnqueueRequest) :
    EnqueueLeaseRecord where
  lease :=
    { leaseId := c.generateId.draw s.generated
      sessionGeneration := c.sessionGeneration
      slotId := request.slotId
      role := request.role
      source := request.source
      teamRunId := (requestBinding s bindEnqueue request).teamRunId }
  binding := requestBinding s bindEnqueue request

theorem requestBinding_putSlot (bindEnqueue : EnqueueRequest → RunBinding)
    (request : EnqueueRequest) (t : String) {slot : SlotState}
    (h : slot.active = s.activeOf t) :
    requestBinding (s.putSlot t slot) bindEnqueue request =
      requestBinding s bindEnqueue request := by
  have hactive : ∀ u, (s.putSlot t slot).activeOf u = s.activeOf u := by
    intro u
    rw [CoordinatorState.activeOf_putSlot]
    split
    · rename_i hu
      rw [h, hu]
    · rfl
  unfold requestBinding
  cases request.binding <;> simp only [hactive]

/-- `acquire_enqueue` refuses and grants nothing, or stores one new record. -/
theorem acquireEnqueue_cases (bindEnqueue : EnqueueRequest → RunBinding)
    (request : EnqueueRequest) :
    (∃ e, (c.acquireEnqueue s bindEnqueue request).result = .error e ∧
      (c.acquireEnqueue s bindEnqueue request).state.enqueueLeases = s.enqueueLeases) ∨
    (c.acquireEnqueue s bindEnqueue request).result =
        .ok (c.grantedLease s bindEnqueue request).lease ∧
      (c.acquireEnqueue s bindEnqueue request).state.enqueueLeases =
        s.enqueueLeases.insert (c.generateId.draw s.generated)
          (c.grantedLease s bindEnqueue request) := by
  simp only [acquireEnqueue]
  split
  · exact .inl ⟨_, rfl, rfl⟩
  · have hbinding : requestBinding (s.putSlot request.slotId
        { s.entrySlot request.slotId request.role with role := request.role }) bindEnqueue
        request = requestBinding s bindEnqueue request :=
      requestBinding_putSlot s bindEnqueue request _ (s.active_entrySlot _ request.role)
    rw [hbinding]
    exact .inr ⟨rfl, rfl⟩

theorem commitEnqueue_leases (lease : EnqueueLease) (m : Option String) (now : TimestampMs) :
    (∃ e, (c.commitEnqueue s lease m now).result = .error e ∧
      (c.commitEnqueue s lease m now).state = s) ∨
    (∃ r, (c.commitEnqueue s lease m now).result = .ok r) ∧
      (c.commitEnqueue s lease m now).state.enqueueLeases =
        s.enqueueLeases.erase lease.leaseId := by
  rw [commitEnqueue]
  split
  · exact .inl ⟨_, rfl, rfl⟩
  · exact .inr ⟨⟨_, rfl⟩, rfl⟩

/-- A refused abort puts the record back; otherwise the lease is gone. -/
theorem abortEnqueue_cases (hk : s.LeasesKeyed) (lease : EnqueueLease) :
    ((c.abortEnqueue s lease).result = .staleOwner ∧ (c.abortEnqueue s lease).calls = [] ∧
      ∀ k, (c.abortEnqueue s lease).state.enqueueLeases.lookup k = s.enqueueLeases.lookup k) ∨
    (c.abortEnqueue s lease).result = .committed ∧
      (∃ r, s.enqueueLeases.lookup lease.leaseId = some r ∧ r.lease = lease) ∧
      (c.abortEnqueue s lease).state.enqueueLeases = s.enqueueLeases.erase lease.leaseId := by
  rw [abortEnqueue]
  split
  · exact .inl ⟨rfl, rfl, fun _ => rfl⟩
  · rename_i record hrecord
    split
    · refine .inl ⟨rfl, rfl, fun k => ?_⟩
      rw [Dict.lookup_insert', Dict.lookup_erase', hk _ _ hrecord]
      split
      · rename_i he
        rw [he, hrecord]
      · rfl
    · rename_i howner
      rw [not_or, not_not] at howner
      exact .inr ⟨rfl, ⟨record, hrecord, howner.1⟩, rfl⟩

theorem foldl_recoverMessage_leases (slotId : String) (role : TeamRunTargetRole)
    (now : TimestampMs) (acc : CoordinatorState × List String) (messageIds : List String) :
    (messageIds.foldl (c.recoverMessage slotId role now) acc).1.enqueueLeases =
      acc.1.enqueueLeases := by
  induction messageIds generalizing acc with
  | nil => rfl
  | cons m messageIds ih =>
    rw [List.foldl_cons, ih, recoverMessage]
    split <;> rfl

theorem foldl_cancelQueued_leases (ids : List String) :
    (ids.foldl cancelQueued s).enqueueLeases = s.enqueueLeases := by
  induction ids generalizing s with
  | nil => rfl
  | cons i ids ih =>
    rw [List.foldl_cons, ih, cancelQueued]
    split <;> rfl

theorem foldl_cancelActive_leases (teamRunId : String) (targets : List (String × ActiveBatch)) :
    (targets.foldl (cancelActive teamRunId) s).enqueueLeases = s.enqueueLeases := by
  induction targets generalizing s with
  | nil => rfl
  | cons target targets ih =>
    rw [List.foldl_cons, ih]
    rfl

theorem lookup_foldl_erase {β : Type} (ids : List String) (d : Dict String β) (k : String) :
    AList.lookup k (ids.foldl (fun d id => AList.erase id d) d) =
      if k ∈ ids then none else d.lookup k := by
  induction ids generalizing d with
  | nil => simp
  | cons i ids ih =>
    rw [List.foldl_cons, ih, Dict.lookup_erase']
    by_cases hk : k = i
    · by_cases hm : k ∈ ids <;> simp [hk]
    · simp [hk]

variable {r : EnqueueLeaseRecord}

/-- `cancel_run` takes exactly the leases of the run away. -/
theorem cancelRun_leases (hk : s.LeasesKeyed) (teamRunId : String) (order : IterOrder WorkIntent)
    (k : String) :
    (cancelRun s teamRunId order).state.enqueueLeases.lookup k = some r ↔
      s.enqueueLeases.lookup k = some r ∧ r.lease.teamRunId ≠ some teamRunId := by
  simp only [cancelRun]
  rw [lookup_foldl_erase]
  simp only [CoordinatorState.runLeases, foldl_cancelQueued_leases, foldl_cancelActive_leases]
  have hmem : k ∈ (s.enqueueLeases.values.filter
      (·.lease.teamRunId = some teamRunId)).map (·.lease.leaseId) ↔
      ∃ r, s.enqueueLeases.lookup k = some r ∧ r.lease.teamRunId = some teamRunId := by
    simp only [List.mem_map, List.mem_filter, Dict.mem_values]
    constructor
    · rintro ⟨r, ⟨⟨j, hj⟩, hr⟩, rfl⟩
      exact ⟨r, by rw [hk j r hj, hj], of_decide_eq_true hr⟩
    · rintro ⟨r, hr, hrun⟩
      exact ⟨r, ⟨⟨k, hr⟩, decide_eq_true hrun⟩, hk k r hr⟩
  split
  · rename_i hin
    obtain ⟨r', hr', hrun⟩ := hmem.mp hin
    simp only [reduceCtorEq, false_iff, not_and]
    intro hr hne
    obtain rfl : r = r' := by simpa [hr] using hr'
    exact hne hrun
  · rename_i hnot
    refine ⟨fun hr => ⟨hr, fun hrun => hnot (hmem.mpr ⟨r, hr, hrun⟩)⟩, fun hr => hr.1⟩

/-- The other operations leave all leases as they are. -/
theorem exec_leases_eq (bindEnqueue : EnqueueRequest → RunBinding) (op : Op)
    (h : op.touchesLeases = false) :
    (c.exec bindEnqueue s op).state.enqueueLeases = s.enqueueLeases := by
  cases op with
  | acquireEnqueue _ | commitEnqueue _ _ _ | abortEnqueue _ | cancelRun _ _ | stop =>
    simp [Op.touchesLeases] at h
  | reconcileMailbox t unread role now =>
    exact c.foldl_recoverMessage_leases t role now _ unread
  | next t =>
    simp only [exec, Outcome.map]
    rcases c.next_cases s t with ⟨hs, -, -⟩ | ⟨slot, p, -, -, -, -, -, -, hc⟩
    · rw [hs]
    · rw [hc]
      rfl
  | markStarted b turnId now =>
    simp only [exec, Outcome.map, markStarted]
    split <;> rfl
  | retryStart b =>
    simp only [exec, Outcome.map, retryStart]
    split <;> rfl
  | completeBatch b =>
    simp only [exec, Outcome.map, completeBatch, terminalizeBatch]
    split <;> rfl
  | failBatch b classification =>
    simp only [exec, Outcome.map, failBatch, terminalizeBatch]
    split <;> rfl
  | cancelBatch b classification =>
    simp only [exec, Outcome.map, cancelBatch, terminalizeBatch]
    split <;> rfl
  | completeSignals t ids =>
    simp only [exec, Outcome.map, completeSignals]
    split <;> rfl
  | pauseSlot t => rfl
  | setRuntimeConstraint t constraint order =>
    simp only [exec, Outcome.map, setRuntimeConstraint]
    split <;> rfl
  | removeSlot t =>
    obtain ⟨done, hdone⟩ := cancelListed_fst s (removedIntentIds s t)
    have hlist : (cancelListed s (removedIntentIds s t)).1.enqueueLeases = s.enqueueLeases := by
      rw [hdone]
      rfl
    simp only [exec, Outcome.map, removeSlot]
    split <;> rename_i h <;> rw [h] at hlist <;> exact hlist

/-- A lease after a call was there before, or the call has granted it. -/
theorem exec_leases (hk : s.LeasesKeyed) (bindEnqueue : EnqueueRequest → RunBinding) (op : Op)
    {k : String} (h : (c.exec bindEnqueue s op).state.enqueueLeases.lookup k = some r) :
    s.enqueueLeases.lookup k = some r ∨
      ∃ request, op = .acquireEnqueue request ∧ r = c.grantedLease s bindEnqueue request ∧
        k = c.generateId.draw s.generated := by
  cases hop : op.touchesLeases with
  | false => exact .inl (c.exec_leases_eq s bindEnqueue op hop ▸ h)
  | true =>
    cases op with
    | acquireEnqueue request =>
      simp only [exec, Outcome.map] at h
      rcases c.acquireEnqueue_cases s bindEnqueue request with ⟨e, -, he⟩ | ⟨-, he⟩
      · exact .inl (he ▸ h)
      · rw [he, Dict.lookup_insert'] at h
        split at h
        · rename_i hkid
          exact .inr ⟨request, rfl, (Option.some.inj h).symm, hkid⟩
        · exact .inl h
    | commitEnqueue lease m now =>
      simp only [exec, Outcome.map] at h
      rcases c.commitEnqueue_leases s lease m now with ⟨e, -, he⟩ | ⟨-, he⟩
      · exact .inl (he ▸ h)
      · rw [he, Dict.lookup_erase'] at h
        split at h
        · simp at h
        · exact .inl h
    | abortEnqueue lease =>
      simp only [exec, Outcome.map] at h
      rcases c.abortEnqueue_cases s hk lease with ⟨-, -, he⟩ | ⟨-, -, he⟩
      · exact .inl (he k ▸ h)
      · rw [he, Dict.lookup_erase'] at h
        split at h
        · simp at h
        · exact .inl h
    | cancelRun teamRunId order => exact .inl ((cancelRun_leases s hk teamRunId order k).mp h).1
    | stop => simp [exec, Outcome.map, stop] at h
    | _ => simp [Op.touchesLeases] at hop

theorem exec_leasesKeyed (hk : s.LeasesKeyed) (bindEnqueue : EnqueueRequest → RunBinding)
    (op : Op) : (c.exec bindEnqueue s op).state.LeasesKeyed := by
  intro k r hr
  rcases c.exec_leases s hk bindEnqueue op hr with hr | ⟨request, -, rfl, rfl⟩
  · exact hk k r hr
  · rfl

end SlotWorkCoordinator

end AionCore.Team
