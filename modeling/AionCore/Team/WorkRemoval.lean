import AionCore.Team.WorkOwners
import AionCore.Team.WorkRevocation
import AionCore.Team.WorkStop

/-!
# After a slot has been removed

A removed slot stays removed and takes no lease and no intent ever after. What it does not
turn away is the recovery of unread messages: neither `reconcile_mailbox` nor `next` asks for the
removed flag.
-/

namespace AionCore.Team

namespace CoordinatorState

/-- A removed slot `t` is there, removed, and paused if it was. -/
def KeepsRemoved (t : String) (s s' : CoordinatorState) : Prop :=
  ∀ g, s.gateOf t = some g → g.removed → ∃ g', s'.gateOf t = some g' ∧ g'.removed ∧
    (g.paused → g'.paused)

/-- The slot is removed and has no live work. -/
structure Retired (s : CoordinatorState) (t : String) : Prop where
  removed : ∃ g, s.gateOf t = some g ∧ g.removed
  ended : ∀ i x, s.intents.lookup i = some x → x.slotId = t → x.state.isTerminal

/-- The slot is removed, and it has no live work or cannot be woken. -/
structure Vacated (s : CoordinatorState) (t : String) : Prop where
  removed : ∃ g, s.gateOf t = some g ∧ g.removed
  idle : (s.slots.lookup t).any (·.paused) ∨
    ∀ i x, s.intents.lookup i = some x → x.slotId = t → x.state.isTerminal

variable {s s' s'' : CoordinatorState} {t : String}

theorem KeepsRemoved.refl (t : String) (s : CoordinatorState) : KeepsRemoved t s s :=
  fun g hg hr => ⟨g, hg, hr, id⟩

theorem KeepsRemoved.trans (h : KeepsRemoved t s s') (h' : KeepsRemoved t s' s'') :
    KeepsRemoved t s s'' := by
  intro g hg hr
  obtain ⟨g', hg', hr', hp⟩ := h g hg hr
  obtain ⟨g'', hg'', hr'', hp'⟩ := h' g' hg' hr'
  exact ⟨g'', hg'', hr'', fun h => hp' (hp h)⟩

theorem SameGates.keepsRemoved (h : s.SameGates s') : KeepsRemoved t s s' :=
  fun g hg hr => ⟨g, (h t).trans hg, hr, id⟩

/-- Writing a slot back keeps a removal that the slot shows. -/
theorem keepsRemoved_putSlot {u : String} {slot : SlotState} (role : TeamRunTargetRole)
    (hremoved : slot.removed = (s.entrySlot u role).removed)
    (hpaused : (s.entrySlot u role).paused → slot.paused) :
    KeepsRemoved t s (s.putSlot u slot) := by
  intro g hg hr
  rw [gateOf_putSlot]
  by_cases hu : t = u
  · subst hu
    obtain ⟨old, hold, rfl⟩ := Option.map_eq_some_iff.mp hg
    rw [entrySlot_of_lookup hold] at hremoved hpaused
    exact ⟨slot.gate, if_pos rfl, hremoved.trans hr, hpaused⟩
  · exact ⟨g, by rw [if_neg hu, hg], hr, id⟩

theorem paused_of_gateOf {g : Gate} (hg : s.gateOf t = some g) (hp : g.paused) :
    (s.slots.lookup t).any (·.paused) := by
  obtain ⟨slot, hslot, rfl⟩ := Option.map_eq_some_iff.mp hg
  rw [hslot]
  exact hp

theorem exists_of_gateOf {g : Gate} (hg : s.gateOf t = some g) :
    ∃ slot, s.slots.lookup t = some slot ∧ slot.gate = g :=
  Option.map_eq_some_iff.mp hg

end CoordinatorState

namespace SlotWorkCoordinator

open CoordinatorState

variable {c : SlotWorkCoordinator} {s : CoordinatorState} {w w' : Tracked} {t : String}
  {slot : SlotState}

theorem validate_of_removed (h : slot.removed) (t : String) :
    ∃ e, validateEnqueueConstraint t slot = .error e := by
  rw [validateEnqueueConstraint, if_pos h]
  exact ⟨_, rfl⟩

/-- The last of the checks of `commit_enqueue` finds the slot that lets the intent in. -/
theorem validate_of_checkCommit {lease : EnqueueLease} {m : Option String}
    (h : c.checkCommit s lease m = .ok slot) :
    s.slots.lookup lease.slotId = some slot ∧
      validateEnqueueConstraint lease.slotId slot = .ok () := by
  unfold checkCommit at h
  repeat' split at h
  all_goals simp_all

theorem commitEnqueue_keepsRemoved (lease : EnqueueLease) (m : Option String)
    (now : TimestampMs) : KeepsRemoved t s (c.commitEnqueue s lease m now).state := by
  intro g hg hr
  rw [commitEnqueue]
  cases hcheck : c.checkCommit s lease m with
  | error e => exact ⟨g, hg, hr, id⟩
  | ok slot =>
    obtain ⟨hslot, hok⟩ := validate_of_checkCommit hcheck
    have hne : t ≠ lease.slotId := by
      rintro rfl
      obtain ⟨old, hold, rfl⟩ := exists_of_gateOf hg
      obtain rfl : slot = old := by simpa [hslot] using hold
      obtain ⟨e, he⟩ := validate_of_removed hr lease.slotId
      rw [hok] at he
      cases he
    refine ⟨g, ?_, hr, id⟩
    rw [gateOf, Dict.lookup_insert', if_neg hne]
    exact hg

theorem removeSlot_keepsRemoved (u : String) : KeepsRemoved t s (removeSlot s u).state := by
  obtain ⟨done, hdone⟩ := cancelListed_fst s (removedIntentIds s u)
  have hlist : (cancelListed s (removedIntentIds s u)).1.slots = s.slots := by
    rw [hdone]
    rfl
  intro g hg hr
  obtain ⟨slot, hslot, rfl⟩ := exists_of_gateOf hg
  simp only [removeSlot]
  split
  · rename_i hl
    rw [hl] at hlist
    refine ⟨slot.gate, ?_, hr, id⟩
    rw [gateOf, hlist, hslot, Option.map_some]
  · rename_i s' hl
    rw [hl] at hlist
    rw [gateOf, modifySlot, Dict.lookup_modify, hlist, hslot]
    split
    · exact ⟨_, rfl, rfl, id⟩
    · exact ⟨_, rfl, hr, id⟩

theorem stop_keepsRemoved : KeepsRemoved t s (stop s).state := by
  intro g hg hr
  obtain ⟨slot, hslot, rfl⟩ := exists_of_gateOf hg
  refine ⟨({ slot.clearWork with runtimeConstraint := .sessionStopped } : SlotState).gate, ?_, hr,
    id⟩
  rw [gateOf, stop, Dict.lookup_mapValues, hslot, Option.map_some, Option.map_some]

theorem setRuntimeConstraint_keepsRemoved (u : String) (constraint : RuntimeConstraint)
    (order : IterOrder WorkIntent) :
    KeepsRemoved t s (setRuntimeConstraint s u constraint order).state := by
  have hput : KeepsRemoved t s
      (s.putSlot u { s.entrySlot u .teammate with runtimeConstraint := constraint }) :=
    keepsRemoved_putSlot .teammate rfl id
  simp only [setRuntimeConstraint]
  split
  · exact hput
  · intro g hg hr
    obtain ⟨g', hg', hr', hp⟩ := hput g hg hr
    -- the slot is written once more, with its queues filled anew
    refine ⟨g', ?_, hr', hp⟩
    rw [gateOf_putSlot, SlotState.gate_foldl_pushBack]
    split
    · rename_i hu
      rw [gateOf_putSlot, if_pos hu] at hg'
      exact hg'
    · exact hg'

/-- No call brings a removed slot back. -/
theorem exec_keepsRemoved (bindEnqueue : EnqueueRequest → RunBinding) (op : Op) :
    KeepsRemoved t s (c.exec bindEnqueue s op).state := by
  cases op with
  | acquireEnqueue request =>
    simp only [exec, Outcome.map, acquireEnqueue]
    have hput : KeepsRemoved t s (s.putSlot request.slotId
        { s.entrySlot request.slotId request.role with role := request.role }) :=
      keepsRemoved_putSlot request.role rfl id
    split
    · exact hput
    · exact hput
  | commitEnqueue lease m now => exact commitEnqueue_keepsRemoved lease m now
  | abortEnqueue lease => exact (abortEnqueue_sameGates lease).keepsRemoved
  | reconcileMailbox u unread role now =>
    simp only [exec, Outcome.map, reconcileMailbox]
    have hput : KeepsRemoved t s (s.putSlot u { s.entrySlot u role with
        role := role, knownUnreadMessageIds := unread.toFinset }) :=
      keepsRemoved_putSlot role rfl id
    refine (hput.trans ?_).trans
      (recoverMessage_sameGates u role now unread (_, [])).keepsRemoved
    refine SameGates.keepsRemoved (sameGates_modifySlot _ _ fun slot => ?_)
    rw [SlotState.gate_foldl_removeQueued]
  | next u =>
    simp only [exec, Outcome.map]
    rcases c.next_cases s u with ⟨hs, -⟩ | ⟨slot, p, -, -, -, -, -, -, hclaim⟩
    · rw [hs]
      exact .refl t s
    · rw [hclaim]
      exact SameGates.keepsRemoved (sameGates_modifySlot _ _ fun slot => by
        exact SlotState.gate_foldl_removeQueued slot _)
  | markStarted b turnId now => exact (markStarted_sameGates b turnId now).keepsRemoved
  | retryStart b => exact (batch_sameGates b).1.keepsRemoved
  | completeBatch b => exact ((batch_sameGates b).2 _).keepsRemoved
  | failBatch b classification => exact ((batch_sameGates b).2 _).keepsRemoved
  | cancelBatch b classification => exact ((batch_sameGates b).2 _).keepsRemoved
  | cancelRun r order => exact (cancelRun_sameGates r order).keepsRemoved
  | completeSignals u ids => exact (completeSignals_sameGates u ids).keepsRemoved
  | pauseSlot u => exact keepsRemoved_putSlot .teammate rfl fun _ => rfl
  | setRuntimeConstraint u constraint order =>
    exact setRuntimeConstraint_keepsRemoved u constraint order
  | removeSlot u => exact removeSlot_keepsRemoved u
  | stop => exact stop_keepsRemoved

variable (c) in
/-- The slot takes no lease and no intent, and hands out no batch. -/
structure Refuses (s : CoordinatorState) (t : String) : Prop where
  acquire : ∀ bindEnqueue request, request.slotId = t →
    ∃ e, (c.acquireEnqueue s bindEnqueue request).result = .error e
  commit : ∀ lease m now, lease.slotId = t → ∃ e, (c.commitEnqueue s lease m now).result = .error e
  next : ∀ b, (c.next s t).result ≠ .claim b

/-- The call does not reconcile the mailbox of the slot with a message in it, unless the slot
is paused. -/
def LeavesVacated (t : String) (w : Tracked) (call : Call) : Prop :=
  ∀ unread role now, call.op = .reconcileMailbox t unread role now →
    unread = [] ∨ (w.state.slots.lookup t).any (·.paused)

theorem next_of_vacated (hs : s.ledger.Coherent) (h : s.Vacated t) (b : WorkBatch) :
    (c.next s t).result ≠ .claim b := by
  rcases c.next_cases s t with ⟨-, -, hno⟩ | ⟨slot, p, hslot, -, -, hpaused, -, hne, -⟩
  · exact hno b
  · exfalso
    rcases h.idle with hp | hended
    · rw [hslot, Option.any_some, hpaused] at hp
      cases hp
    · obtain ⟨i, hi⟩ := List.exists_mem_of_ne_nil _ hne
      obtain ⟨x, hx, ht, -, hq⟩ := lookup_of_queued hs hslot (List.mem_of_mem_filter hi)
      have hterminal := hended i x hx ht
      rw [hq] at hterminal
      cases hterminal

theorem acquireEnqueue_of_removed (h : ∃ g, s.gateOf t = some g ∧ g.removed)
    (bindEnqueue : EnqueueRequest → RunBinding) {request : EnqueueRequest}
    (ht : request.slotId = t) :
    ∃ e, (c.acquireEnqueue s bindEnqueue request).result = .error e := by
  subst ht
  obtain ⟨g, hg, hr⟩ := h
  obtain ⟨slot, hslot, rfl⟩ := exists_of_gateOf hg
  have hr' : { slot with role := request.role }.removed := hr
  obtain ⟨e, he⟩ := validate_of_removed hr' request.slotId
  refine ⟨e, ?_⟩
  simp only [acquireEnqueue, entrySlot_of_lookup hslot, he]

theorem refuses_of_vacated (hs : s.ledger.Coherent) (h : s.Vacated t) : c.Refuses s t := by
  refine ⟨fun bindEnqueue request ht => acquireEnqueue_of_removed h.removed bindEnqueue ht, ?_,
    next_of_vacated hs h⟩
  obtain ⟨g, hg, hr⟩ := h.removed
  obtain ⟨slot, hslot, rfl⟩ := exists_of_gateOf hg
  rintro lease m now rfl
  rw [commitEnqueue]
  cases hcheck : c.checkCommit s lease m with
  | error e => exact ⟨e, rfl⟩
  | ok slot' =>
    obtain ⟨hslot', hok⟩ := validate_of_checkCommit hcheck
    obtain rfl : slot' = slot := by simpa [hslot'] using hslot
    obtain ⟨e, he⟩ := validate_of_removed hr lease.slotId
    rw [hok] at he
    cases he

/-- `remove_slot` retires a slot that is there. -/
theorem retired_removeSlot (hw : c.Sound w) (hslot : (w.state.slots.lookup t).isSome)
    (bindEnqueue : EnqueueRequest → RunBinding) :
    (c.fire w ⟨.removeSlot t, bindEnqueue⟩).state.Retired t := by
  obtain ⟨slot, ht⟩ := Option.isSome_iff_exists.mp hslot
  constructor
  · refine ⟨({ slot.clearWork with removed := true } : SlotState).gate, ?_, rfl⟩
    change (removeSlot w.state t).state.gateOf t = _
    simp only [removeSlot, cancelListed_removed hw.coherent hw.keyed t, gateOf, modifySlot,
      Dict.lookup_modify, if_true, setIntentStates, ht, Option.map_some]
  · intro i y hy hyt
    cases hx : w.state.intents.lookup i with
    | none =>
      have hnew := (removeSlot_retains w.state t).enqueuedAs i
      change (removeSlot w.state t).state.intents.lookup i = some y at hy
      simp [enqueuedAs, hx, hy] at hnew
    | some x =>
      have hcall : c.machine.admits w ⟨.removeSlot t, bindEnqueue⟩ := fun b hb => by cases hb
      obtain ⟨state, hx', hend⟩ := hw.persists hcall hx
      obtain rfl : { x with state } = y := Option.some.inj (hx'.symm.trans hy)
      cases hlive : x.state.isTerminal with
      | true =>
        rw [hend hlive, hlive]
      | false =>
        obtain ⟨z, hz, hstate⟩ := lookup_removeSlot hw.coherent hw.keyed hx hyt hlive
        obtain rfl : { x with state } = z := Option.some.inj (hx'.symm.trans hz)
        rw [show state = .cancelled "slot_removed" from hstate]
        rfl

theorem vacated_removeSlot (hw : c.Sound w) (hslot : (w.state.slots.lookup t).isSome)
    (bindEnqueue : EnqueueRequest → RunBinding) :
    (c.fire w ⟨.removeSlot t, bindEnqueue⟩).state.Vacated t :=
  have hretired := retired_removeSlot hw hslot bindEnqueue
  ⟨hretired.removed, .inr hretired.ended⟩

variable {call : Call}

/-- A retired slot gets no work unless its mailbox is reconciled. -/
theorem retired_step (h : w.state.Retired t) (hw : c.Sound w) (hcall : c.machine.admits w call)
    (hunread : ∀ unread role now, call.op = .reconcileMailbox t unread role now → unread = []) :
    (c.fire w call).state.Retired t := by
  obtain ⟨g, hg, hr⟩ := h.removed
  obtain ⟨g', hg', hr', -⟩ := c.exec_keepsRemoved call.bindEnqueue call.op g hg hr
  refine ⟨⟨g', hg', hr'⟩, fun i y hy hyt => ?_⟩
  cases hx : w.state.intents.lookup i with
  | some x =>
    obtain ⟨state, hx', hend⟩ := hw.persists hcall hx
    obtain rfl : { x with state } = y := Option.some.inj (hx'.symm.trans hy)
    have hterminal := h.ended i x hx hyt
    rw [hend hterminal, hterminal]
  | none =>
    rcases created_cases hx hy with ⟨lease, m, now, slot, -, hcheck, rfl⟩ |
      ⟨u, unread, role, now, hop, s₀, m, hm, rfl⟩
    -- a removed slot lets no intent in
    · obtain ⟨hslot, hok⟩ := validate_of_checkCommit hcheck
      have hlease : lease.slotId = t := hyt
      rw [hlease] at hslot hok
      rw [gateOf, hslot] at hg
      obtain rfl := Option.some.inj hg
      obtain ⟨e, he⟩ := validate_of_removed hr t
      rw [hok] at he
      cases he
    · have hu : u = t := hyt
      rw [hu] at hop
      rw [hunread unread role now hop] at hm
      cases hm

/-- A vacated slot stays so under every call that meets the condition. -/
theorem vacated_step (h : w.state.Vacated t) (hw : c.Sound w) (hcall : c.machine.admits w call)
    (hleaves : LeavesVacated t w call) :
    (c.fire w call).state.Vacated t := by
  obtain ⟨g, hg, hr⟩ := h.removed
  obtain ⟨g', hg', hr', hp⟩ := c.exec_keepsRemoved call.bindEnqueue call.op g hg hr
  refine ⟨⟨g', hg', hr'⟩, ?_⟩
  by_cases hpaused : g.paused
  · exact .inl (paused_of_gateOf hg' (hp hpaused))
  · have hnot : ¬(w.state.slots.lookup t).any (·.paused) := by
      obtain ⟨slot, hslot, rfl⟩ := exists_of_gateOf hg
      rw [hslot]
      exact hpaused
    have hretired : w.state.Retired t := ⟨h.removed, h.idle.resolve_left hnot⟩
    exact .inr (retired_step hretired hw hcall fun unread role now hop =>
      (hleaves unread role now hop).resolve_right hnot).ended

variable (c) in
/-- The coordinator under callers that leave a removed slot `t` alone. -/
def leavingMachine (t : String) : Machine Tracked Call :=
  c.machine.restrict (LeavesVacated t)

theorem vacated_reaches (hw : c.machine.Reachable w) (h : w.state.Vacated t)
    (hr : (c.leavingMachine t).Reaches w w') :
    c.machine.Reachable w' ∧ w'.state.Vacated t := by
  refine hr.preserves (P := fun w => c.machine.Reachable w ∧ w.state.Vacated t)
    (fun v call hv hcall => ?_) ⟨hw, h⟩
  exact ⟨hv.1.fire hcall.1, vacated_step hv.2 (sound_of_reachable hv.1) hcall.1 hcall.2⟩

variable {log : List String}

/-- After the recovery loop every listed message has an owner. -/
theorem alreadyOwned_foldl_recoverMessage {acc : CoordinatorState × List String}
    (h : c.Logged acc.1 log) (slotId : String) (role : TeamRunTargetRole) (now : TimestampMs)
    {messageIds : List String} {m : String} (hm : m ∈ messageIds) :
    alreadyOwned (messageIds.foldl (c.recoverMessage slotId role now) acc).1 slotId m := by
  induction messageIds generalizing acc log with
  | nil => cases hm
  | cons m' messageIds ih =>
    obtain ⟨new, -, hext, -⟩ := c.recoverMessage_extends slotId role now acc m'
    rcases List.mem_cons.mp hm with rfl | hm
    · have howned : alreadyOwned (c.recoverMessage slotId role now acc m).1 slotId m := by
        by_cases hown : alreadyOwned acc.1 slotId m
        · rw [recoverMessage, if_pos hown]
          exact hown
        · rw [recoverMessage, if_neg hown, alreadyOwned_iff]
          exact ⟨_, c.recoveryIntent acc.1 slotId m role now, AList.lookup_insert _, rfl, rfl, rfl⟩
      obtain ⟨i, x, hx, howns⟩ := alreadyOwned_iff.mp howned
      exact alreadyOwned_iff.mpr
        ⟨i, x, lookup_foldl_recoverMessage (h.extends hext) messageIds hx, howns⟩
    · exact ih (h.extends hext) hm

variable {unread : List String}

/-- After `reconcile_mailbox` every unread message has an owner. -/
theorem alreadyOwned_reconcileMailbox (h : c.Logged s log) (slotId : String)
    (role : TeamRunTargetRole) (now : TimestampMs) {m : String} (hm : m ∈ unread) :
    alreadyOwned (c.reconcileMailbox s slotId unread role now).state slotId m :=
  alreadyOwned_foldl_recoverMessage
    (h.retains (reconcileMailbox_retains s slotId unread role _)) slotId role now hm

/-- A ready idle slot that has only recovered intents to offer hands them out. -/
theorem next_claims (slot : SlotState) (hslot : s.slots.lookup t = some slot)
    (hactive : slot.active = none) (hready : slot.runtimeConstraint = .ready)
    (hpaused : slot.paused = false)
    (hqueues : ∀ p, ∀ i ∈ slot.queue p, p = .background ∧ bearsMessage s i)
    (hne : slot.queue .background ≠ []) : ∃ b, (c.next s t).result = .claim b := by
  have hempty : ∀ p, p ≠ .background → slot.queue p = [] := fun p hp =>
    List.eq_nil_iff_forall_not_mem.mpr fun i hi => hp (hqueues p i hi).1
  have hall : (slot.queue .background).filter (bearsMessage s) = slot.queue .background :=
    List.filter_eq_self.mpr fun i hi => (hqueues .background i hi).2
  have hfind : [WorkPriority.foreground, .control, .background].find?
      (fun priority => slot.queue priority ≠ []) = some .background := by
    rw [List.find?_cons_of_neg (by simpa using hempty .foreground nofun),
      List.find?_cons_of_neg (by simpa using hempty .control nofun),
      List.find?_cons_of_pos (by simpa using hne)]
  refine ⟨c.claimedBatch s t .background (slot.queue .background), ?_⟩
  rw [next, hslot]
  simp only [hactive, Option.isSome_none, Bool.false_eq_true, if_false, hready, ne_eq, not_true,
    hpaused]
  rw [hfind]
  simp only [hall, if_neg hne, claimBatch]

/-- The intents of a vacated slot after a reconciliation are recovered ones. -/
theorem recovered_of_reconcile (hw : c.Sound w)
    (hended : ∀ i x, w.state.intents.lookup i = some x → x.slotId = t → x.state.isTerminal)
    (hcall : c.machine.admits w call) {role : TeamRunTargetRole} {now : TimestampMs}
    (hop : call.op = .reconcileMailbox t unread role now) {i : String} {y : WorkIntent}
    (hy : (c.fire w call).state.intents.lookup i = some y) (hyt : y.slotId = t)
    (hlive : y.state.isTerminal = false) : c.Recovered t role now unread y := by
  cases hx : w.state.intents.lookup i with
  | some x =>
    obtain ⟨state, hx', hend⟩ := hw.persists hcall hx
    obtain rfl : { x with state } = y := Option.some.inj (hx'.symm.trans hy)
    have hterminal := hended i x hx hyt
    rw [hend hterminal, hterminal] at hlive
    cases hlive
  | none =>
    rw [fire, hop] at hy
    rcases lookup_of_reconcileMailbox unread hy with hsome | hrecovered
    · rw [hx] at hsome
      cases hsome
    · exact hrecovered

/-- Reconciling the mailbox of a removed slot that is not paused wakes it: once its runtime
is reported ready, `next` hands out the message. -/
theorem claims_of_reconcile (hw : c.machine.Reachable w) (h : w.state.Vacated t)
    (hcall : c.machine.admits w call) (hwakes : ¬LeavesVacated t w call) :
    ∃ w', (c.leavingMachine t).Reaches (c.fire w call) w' ∧
      ∃ b, (c.next w'.state t).result = .claim b := by
  simp only [LeavesVacated, not_forall, not_or] at hwakes
  obtain ⟨unread, role, now, hop, hne, hnot⟩ := hwakes
  have hsound := sound_of_reachable hw
  have hended := h.idle.resolve_left hnot
  obtain ⟨g, hg, hr⟩ := h.removed
  obtain ⟨slot, hslot, rfl⟩ := exists_of_gateOf hg
  let ready : Call := ⟨.setRuntimeConstraint t .ready .stored, fun _ => ⟨none, false, false⟩⟩
  have hready : (c.leavingMachine t).admits (c.fire w call) ready :=
    ⟨nofun, nofun⟩
  refine ⟨c.fire (c.fire w call) ready, .single ⟨ready, hready, rfl⟩, ?_⟩
  have hv : c.Sound (c.fire w call) := sound_of_reachable (hw.fire hcall)
  have hrecovered : ∀ {i y}, (c.fire w call).state.intents.lookup i = some y → y.slotId = t →
      y.state.isTerminal = false → c.Recovered t role now unread y := fun hy hyt hlive =>
    recovered_of_reconcile hsound hended hcall hop hy hyt hlive
  -- the slot as the reconciliation leaves it: its gate is the old one, its work is new
  have hgate : (c.fire w call).state.gateOf t = some slot.gate := by
    rw [fire, hop]
    exact (reconcileMailbox_sameGates hslot unread role now t).trans hg
  obtain ⟨slot', hslot', hgate'⟩ := exists_of_gateOf hgate
  have hpaused : slot'.paused = false := by
    have hsame : slot'.paused = slot.paused := congrArg Gate.paused hgate'
    rw [hslot, Option.any_some, Bool.not_eq_true] at hnot
    rw [hsame, hnot]
  have hactive : slot'.active = none := by
    cases ha : slot'.active with
    | none => rfl
    | some active =>
      have hb : (c.fire w call).state.batchOf t = some active.batch := by
        simp only [batchOf, activeOf, hslot', Option.bind_some, ha, Option.map_some]
      obtain ⟨hmem, -⟩ := hv.fenced.held t _ hb
      obtain ⟨i, hi⟩ := List.exists_mem_of_ne_nil _ (hv.describes _ hmem).nonempty
      obtain ⟨x, hx, hxt, hheld⟩ := (mem_batchOf hv.coherent hb).mp hi
      have hlive : x.state.isTerminal = false := by
        cases hst : x.state <;> simp_all [WorkIntentState.heldBy, WorkIntentState.isTerminal]
      obtain ⟨s₀, m, -, rfl⟩ := hrecovered hx hxt hlive
      exact hheld.elim
  have hqueues : ∀ p, ∀ i ∈ slot'.queue p,
      p = .background ∧ bearsMessage (c.fire w call).state i := by
    intro p i hi
    obtain ⟨x, hx, hxt, hp, hq⟩ := lookup_of_queued hv.coherent hslot' hi
    obtain ⟨s₀, m, -, rfl⟩ := hrecovered hx hxt (by rw [hq]; rfl)
    exact ⟨hp.symm, by rw [bearsMessage, hx]; rfl⟩
  have hqueued : slot'.queue .background ≠ [] := by
    obtain ⟨m, hm⟩ := List.exists_mem_of_ne_nil _ hne
    have howned : alreadyOwned (c.fire w call).state t m := by
      rw [fire, hop]
      exact alreadyOwned_reconcileMailbox hsound.logged t role now hm
    obtain ⟨i, x, hx, hxt, -, hlive⟩ := alreadyOwned_iff.mp howned
    obtain ⟨s₀, m', -, rfl⟩ := hrecovered hx hxt hlive
    have hmem : i ∈ (c.fire w call).state.queueOf t .background :=
      (mem_queueOf hv.coherent).mpr ⟨_, hx, hxt, rfl, rfl⟩
    rw [queueOf, hslot'] at hmem
    exact List.ne_nil_of_mem hmem
  refine next_claims { slot' with runtimeConstraint := .ready } ?_ hactive rfl hpaused
    hqueues hqueued
  change ((c.fire w call).state.putSlot t
    { (c.fire w call).state.entrySlot t .teammate with runtimeConstraint := .ready }).slots.lookup t
      = _
  rw [entrySlot_of_lookup hslot', putSlot, AList.lookup_insert]

/-- A removed slot never works again, as long as its mailbox is not reconciled with a
message in it while the slot is not paused. The condition is exact. -/
theorem removed_slot_refuses (hw : c.machine.Reachable w)
    (hslot : (w.state.slots.lookup t).isSome) {bindEnqueue : EnqueueRequest → RunBinding}
    (hr : (c.leavingMachine t).Reaches (c.fire w ⟨.removeSlot t, bindEnqueue⟩) w') :
    c.Refuses w'.state t ∧ ∀ call, c.machine.admits w' call →
      ((∀ w'', (c.leavingMachine t).Reaches (c.fire w' call) w'' → c.Refuses w''.state t) ↔
        LeavesVacated t w' call) := by
  have hremoved : c.machine.Reachable (c.fire w ⟨.removeSlot t, bindEnqueue⟩) :=
    hw.fire (i := ⟨.removeSlot t, bindEnqueue⟩) fun b hb => by cases hb
  obtain ⟨hw', hvacated⟩ := vacated_reaches hremoved
    (vacated_removeSlot (sound_of_reachable hw) hslot bindEnqueue) hr
  refine ⟨refuses_of_vacated (sound_of_reachable hw').coherent hvacated, fun call hcall => ?_⟩
  constructor
  · intro hrefuses
    by_contra hwakes
    obtain ⟨w'', hr', b, hclaim⟩ := claims_of_reconcile hw' hvacated hcall hwakes
    exact (hrefuses w'' hr').next b hclaim
  · intro hleaves w'' hr'
    obtain ⟨hw'', hvacated'⟩ := vacated_reaches (hw'.fire hcall)
      (vacated_step hvacated (sound_of_reachable hw') hcall hleaves) hr'
    exact refuses_of_vacated (sound_of_reachable hw'').coherent hvacated'

def removeSample : List Call := enqueueSample none ++ [bound none (.removeSlot "lead")]

/-- Instance: right after the removal. -/
theorem removed_slot_refuses_sample :
    let w := sample.machine.run .empty removeSample
    sample.Refuses w.state "lead" ∧ ∀ call, sample.machine.admits w call →
      ((∀ w', (sample.leavingMachine "lead").Reaches (sample.fire w call) w' →
        sample.Refuses w'.state "lead") ↔ LeavesVacated "lead" w call) :=
  removed_slot_refuses (c := sample) (w := sample.machine.run .empty (enqueueSample none))
    (Machine.reachable_run rfl (by decide)) (by decide) .refl

/-- An event loop that is still there reconciles the mailbox after the removal, reports the
runtime ready and is handed a batch. -/
theorem late_recovery_wakes_removed_slot :
    let w := sample.machine.run .empty (removeSample ++
      [bound none (.reconcileMailbox "lead" ["n"] .lead 0),
        bound none (.setRuntimeConstraint "lead" .ready .stored)])
    sample.machine.Reachable w ∧
      (sample.exec (fun _ => ⟨none, false, false⟩) w.state (.next "lead")).result.succeeds :=
  ⟨Machine.reachable_run rfl (by decide), by decide⟩

end SlotWorkCoordinator

end AionCore.Team
