import AionCore.Team.WorkInvariant

/-!
# What a claim takes

The exact postcondition of `next`. A claim takes the messages of the highest nonempty
priority of an idle, ready slot and nothing else; every other decision leaves the
state as it is. The operation ids of the batches that were handed out grow, because
`next` alone moves their counter.
-/

namespace AionCore.Team

/-- The priorities that `next` tries before this one. -/
def WorkPriority.higher : WorkPriority → List WorkPriority
  | .foreground => []
  | .control => [.foreground]
  | .background => [.foreground, .control]

/-- `queue` is the first nonempty one in the order of `next`. -/
theorem WorkPriority.higher_of_find {queue : WorkPriority → List String} {p : WorkPriority}
    (h : [WorkPriority.foreground, .control, .background].find? (queue · ≠ []) = some p) :
    queue p ≠ [] ∧ ∀ q ∈ p.higher, queue q = [] := by
  refine ⟨by simpa using List.find?_some h, ?_⟩
  by_cases hf : queue .foreground = []
  · by_cases hc : queue .control = []
    · cases p <;> simp_all [higher]
    · obtain rfl : WorkPriority.control = p := by simpa [hf, hc] using h
      simp [higher, hf]
  · obtain rfl : WorkPriority.foreground = p := by simpa [hf] using h
    simp [higher]

section FirstOccurrences

variable {α : Type*} [DecidableEq α]

/-- Collect the entries that are not there yet, as the loop of `next` collects runs. -/
def addNew (ids : List α) (id : α) : List α := if id ∈ ids then ids else ids ++ [id]

/-- `kept` lists the members of `l`, ordered by their first occurrence and so without
repetition. -/
def FirstOccurrences (l kept : List α) : Prop :=
  (∀ a, a ∈ kept ↔ a ∈ l) ∧ kept.Pairwise fun a b => l.idxOf a < l.idxOf b

theorem FirstOccurrences.addNew {l kept : List α} (h : FirstOccurrences l kept) (a : α) :
    FirstOccurrences (l ++ [a]) (addNew kept a) := by
  have hidx : ∀ b ∈ l, (l ++ [a]).idxOf b = l.idxOf b := fun b hb => List.idxOf_append_of_mem hb
  have hpair : kept.Pairwise fun b b' => (l ++ [a]).idxOf b < (l ++ [a]).idxOf b' := by
    refine h.2.imp_of_mem fun {b b'} hb hb' hlt => ?_
    rw [hidx b ((h.1 b).mp hb), hidx b' ((h.1 b').mp hb')]
    exact hlt
  by_cases ha : a ∈ kept
  · have hal : a ∈ l := (h.1 a).mp ha
    rw [Team.addNew, if_pos ha]
    refine ⟨fun b => ?_, hpair⟩
    rw [h.1 b, List.mem_append, List.mem_singleton]
    constructor
    · exact .inl
    · rintro (hb | rfl)
      · exact hb
      · exact hal
  · have hal : a ∉ l := fun hl => ha ((h.1 a).mpr hl)
    rw [Team.addNew, if_neg ha]
    refine ⟨fun b => by rw [List.mem_append, List.mem_append, h.1 b], ?_⟩
    refine List.pairwise_append.mpr ⟨hpair, List.pairwise_singleton _ _, fun b hb b' hb' => ?_⟩
    obtain rfl := List.mem_singleton.mp hb'
    have hbl : b ∈ l := (h.1 b).mp hb
    -- the new entry occurs first at the end
    rw [hidx b hbl, List.idxOf_append_of_notMem hal]
    have := List.idxOf_lt_length_iff.mpr hbl
    omega

theorem firstOccurrences_foldl (l : List α) : FirstOccurrences l (l.foldl addNew []) := by
  induction l using List.reverseRecOn with
  | nil => exact ⟨fun a => Iff.rfl, List.Pairwise.nil⟩
  | append_singleton l a ih =>
    rw [List.foldl_append]
    exact ih.addNew a

end FirstOccurrences

namespace SlotWorkCoordinator

variable (c : SlotWorkCoordinator) (s : CoordinatorState)

theorem foldl_nextOperationId {α : Type} {f : CoordinatorState → α → CoordinatorState}
    (h : ∀ s a, (f s a).nextOperationId = s.nextOperationId) (l : List α) :
    (l.foldl f s).nextOperationId = s.nextOperationId := by
  induction l generalizing s with
  | nil => rfl
  | cons a l ih => exact (ih (f s a)).trans (h s a)

theorem recoverMessage_nextOperationId (slotId : String) (role : TeamRunTargetRole)
    (now : TimestampMs) (acc : CoordinatorState × List String) (messageIds : List String) :
    (messageIds.foldl (c.recoverMessage slotId role now) acc).1.nextOperationId =
      acc.1.nextOperationId := by
  induction messageIds generalizing acc with
  | nil => rfl
  | cons m messageIds ih =>
    refine (ih _).trans ?_
    simp only [recoverMessage]
    split <;> rfl

theorem cancelRun_nextOperationId (teamRunId : String) (order : IterOrder WorkIntent) :
    (cancelRun s teamRunId order).state.nextOperationId = s.nextOperationId := by
  refine (foldl_nextOperationId _ (fun s i => ?_) _).trans
    (foldl_nextOperationId (f := cancelActive teamRunId) s (fun s target => rfl) _)
  rw [cancelQueued]
  split <;> rfl

theorem removeSlot_nextOperationId (slotId : String) :
    (removeSlot s slotId).state.nextOperationId = s.nextOperationId := by
  obtain ⟨done, hdone⟩ := cancelListed_fst s (removedIntentIds s slotId)
  simp only [removeSlot]
  split
  all_goals
    rename_i s' h
    rw [h] at hdone
    obtain rfl : s' = s.setIntentStates done (.cancelled "slot_removed") := hdone
    rfl

/-- Only a claim moves the counter of operation ids, by one. -/
theorem exec_nextOperationId (bindEnqueue : EnqueueRequest → RunBinding) (op : Op) :
    ((c.exec bindEnqueue s op).result.handed = [] ∧
      (c.exec bindEnqueue s op).state.nextOperationId = s.nextOperationId) ∨
    ∃ b, (c.exec bindEnqueue s op).result.handed = [b] ∧
      b.operationId = saturatingAdd s.nextOperationId 1 ∧
      (c.exec bindEnqueue s op).state.nextOperationId = b.operationId := by
  cases op with
  | acquireEnqueue request =>
    refine .inl ⟨rfl, ?_⟩
    simp only [exec, Outcome.map, acquireEnqueue]
    split <;> rfl
  | commitEnqueue lease m now =>
    refine .inl ⟨rfl, ?_⟩
    simp only [exec, Outcome.map, commitEnqueue]
    split <;> rfl
  | abortEnqueue lease =>
    refine .inl ⟨rfl, ?_⟩
    simp only [exec, Outcome.map, abortEnqueue]
    split
    · rfl
    · split <;> rfl
  | reconcileMailbox t unread role now =>
    exact .inl ⟨rfl, c.recoverMessage_nextOperationId t role now (_, []) unread⟩
  | next t =>
    simp only [exec, Outcome.map]
    rcases c.next_cases s t with ⟨hs, -, hno⟩ | ⟨slot, p, -, -, -, -, -, -, hclaim⟩
    · refine .inl ⟨?_, by rw [hs]⟩
      cases hr : (c.next s t).result with
      | claim b => exact absurd hr (hno b)
      | _ => rfl
    · rw [hclaim]
      exact .inr ⟨_, rfl, rfl, rfl⟩
  | markStarted b turnId now =>
    refine .inl ⟨rfl, ?_⟩
    simp only [exec, Outcome.map, markStarted]
    split <;> rfl
  | retryStart b =>
    refine .inl ⟨rfl, ?_⟩
    simp only [exec, Outcome.map, retryStart]
    split <;> rfl
  | completeBatch b | failBatch b _ | cancelBatch b _ =>
    refine .inl ⟨rfl, ?_⟩
    simp only [exec, Outcome.map, completeBatch, failBatch, cancelBatch, terminalizeBatch]
    split <;> rfl
  | cancelRun teamRunId order => exact .inl ⟨rfl, cancelRun_nextOperationId s teamRunId order⟩
  | completeSignals t ids =>
    refine .inl ⟨rfl, ?_⟩
    simp only [exec, Outcome.map, completeSignals]
    split <;> rfl
  | pauseSlot t => exact .inl ⟨rfl, rfl⟩
  | setRuntimeConstraint t constraint order =>
    refine .inl ⟨rfl, ?_⟩
    simp only [exec, Outcome.map, setRuntimeConstraint]
    split <;> rfl
  | removeSlot t => exact .inl ⟨rfl, removeSlot_nextOperationId s t⟩
  | stop => exact .inl ⟨rfl, rfl⟩

/-- The counter counts the claims as far as it goes, and no batch is ahead of it. -/
structure Counted (w : Tracked) : Prop where
  counter : w.state.nextOperationId = min w.handed.length u64Max
  handed : ∀ b ∈ w.handed, b.operationId ≤ w.state.nextOperationId

variable {c} {w : Tracked}

theorem Counted.step (h : Counted w) (call : Call) : Counted (c.fire w call) := by
  have hsat : saturatingAdd w.state.nextOperationId 1 = min (w.handed.length + 1) u64Max := by
    rw [saturatingAdd, h.counter]
    omega
  rcases c.exec_nextOperationId w.state call.bindEnqueue call.op with ⟨hno, hs⟩ | ⟨b, hb, hid, hs⟩
  · constructor
    · simpa [fire, hno, hs] using h.counter
    · simpa [fire, hno, hs] using h.handed
  · have hcounter : (c.fire w call).state.nextOperationId =
        min (w.handed.length + 1) u64Max := hs.trans (hid.trans hsat)
    constructor
    · rw [hcounter, fire, hb, List.length_append, List.length_singleton]
    · intro b' hb'
      rw [fire, hb] at hb'
      rcases List.mem_append.mp hb' with hold | hnew
      · have hle := h.handed b' hold
        rw [h.counter] at hle
        omega
      · obtain rfl := List.mem_singleton.mp hnew
        exact hs.ge

theorem counted_of_reachable (h : c.openMachine.Reachable w) : Counted w := by
  refine h.invariant ?_ fun _ call hw _ => hw.step call
  rintro _ rfl
  exact ⟨rfl, fun b hb => by simp [Tracked.empty] at hb⟩

/-- The runs of the intents, in their order and with repetitions. -/
def runsOf (s : CoordinatorState) (ids : List String) : List String :=
  ids.filterMap fun id => (s.intents.lookup id).bind (·.teamRunId)

def slotAfterClaim (slot : SlotState) (b : WorkBatch) : SlotState :=
  { slot with
    foreground := slot.foreground.filter (· ∉ b.intentIds)
    control := slot.control.filter (· ∉ b.intentIds)
    background := slot.background.filter (· ∉ b.intentIds)
    active := some ⟨b, none, none⟩ }

/-- The postcondition of a claim of `b` from the slot `t`, which leads from the state
of `w` to `s'`. -/
structure ClaimExact (c : SlotWorkCoordinator) (w : Tracked) (t : String) (b : WorkBatch)
    (s' : CoordinatorState) : Prop where
  /-- The slot had no batch, was ready and not paused; it keeps all but the batch's
  intents and holds the batch. -/
  slot : ∃ slot, w.state.slots.lookup t = some slot ∧ slot.active = none ∧
    slot.runtimeConstraint = .ready ∧ slot.paused = false ∧
    s'.slots.lookup t = some (slotAfterClaim slot b)
  nonempty : b.intentIds ≠ []
  owner : b.slotId = t ∧ b.sessionGeneration = c.sessionGeneration
  /-- No higher priority has anything queued. -/
  highest : w.state.queueOf t b.highestPriority ≠ [] ∧
    ∀ q ∈ b.highestPriority.higher, w.state.queueOf t q = []
  /-- The batch holds the messages of that queue, in its order. -/
  intentIds : b.intentIds = (w.state.queueOf t b.highestPriority).filter (bearsMessage w.state)
  queued : ∀ i ∈ b.intentIds, ∃ x, w.state.intents.lookup i = some x ∧ x.slotId = t ∧
    x.priority = b.highestPriority ∧ x.state = .queued ∧ x.mailboxMessageId.isSome
  messages : b.mailboxMessageIds.map some =
    b.intentIds.map fun i => (w.state.intents.lookup i).bind (·.mailboxMessageId)
  teamRuns : FirstOccurrences (runsOf w.state b.intentIds) b.teamRunIds
  /-- Nothing else changes. -/
  others : ∀ u ≠ t, s'.slots.lookup u = w.state.slots.lookup u
  claimed : ∀ i ∈ b.intentIds, s'.intents.lookup i = (w.state.intents.lookup i).map
    fun x => { x with state := .starting b.batchId b.operationId }
  unclaimed : ∀ i ∉ b.intentIds, s'.intents.lookup i = w.state.intents.lookup i
  leases : s'.enqueueLeases = w.state.enqueueLeases
  /-- The operation id is new as long as the counter has not reached its bound. -/
  operation : w.handed.length < u64Max → ∀ b' ∈ w.handed, b'.operationId < b.operationId

theorem map_some_filterMap {ι α : Type*} {f : ι → Option α} {l : List ι}
    (h : ∀ i ∈ l, (f i).isSome) : (l.filterMap f).map some = l.map f := by
  induction l with
  | nil => rfl
  | cons i l ih =>
    obtain ⟨a, ha⟩ := Option.isSome_iff_exists.mp (h i List.mem_cons_self)
    rw [List.filterMap_cons, ha, List.map_cons, List.map_cons, ha]
    exact congrArg _ (ih fun j hj => h j (List.mem_cons_of_mem i hj))

variable {t : String}

theorem queueOf_eq {slot : SlotState} (h : s.slots.lookup t = some slot) (p : WorkPriority) :
    s.queueOf t p = slot.queue p := by
  rw [CoordinatorState.queueOf, h]
  rfl

theorem Counted.operationId_lt (h : Counted w) (hlt : w.handed.length < u64Max) {b : WorkBatch}
    (hb : b.operationId = saturatingAdd w.state.nextOperationId 1) :
    ∀ b' ∈ w.handed, b'.operationId < b.operationId := by
  intro b' hb'
  have hle := h.handed b' hb'
  have hcounter := h.counter
  rw [hb, saturatingAdd]
  omega

theorem claimed_slot (slot : SlotState) (b : WorkBatch) :
    { b.intentIds.foldl SlotState.removeQueued slot with active := some ⟨b, none, none⟩ } =
      slotAfterClaim slot b := by
  rw [SlotState.foldl_removeQueued]
  rfl

theorem claimExact_of_claim (h : c.machine.Reachable w) {b : WorkBatch}
    (hb : (c.next w.state t).result = .claim b) :
    ClaimExact c w t b (c.next w.state t).state := by
  rcases c.next_cases w.state t with ⟨-, -, hno⟩ |
    ⟨slot, p, hslot, hactive, hready, hpaused, hfind, hne, hclaim⟩
  · exact absurd hb (hno b)
  obtain ⟨hp, hhigher⟩ := WorkPriority.higher_of_find hfind
  rw [hclaim] at hb ⊢
  obtain rfl : c.claimedBatch w.state t p ((slot.queue p).filter (bearsMessage w.state)) = b :=
    ReconcileDecision.claim.inj hb
  set ids := (slot.queue p).filter (bearsMessage w.state) with hids
  have hrep := represents_of_reachable h
  have hqueue := queueOf_eq _ hslot
  -- every claimed intent is a queued message of the slot
  have hqueued : ∀ i ∈ ids, ∃ x, w.state.intents.lookup i = some x ∧ x.slotId = t ∧
      x.priority = p ∧ x.state = .queued ∧ x.mailboxMessageId.isSome := by
    intro i hi
    obtain ⟨hi, hm⟩ := List.mem_filter.mp hi
    rw [← hqueue p] at hi
    obtain ⟨x, hx, ht, hprio, hq⟩ := (hrep.queued t p i).mp hi
    refine ⟨x, hx, ht, hprio, hq, ?_⟩
    simpa [bearsMessage, hx] using hm
  constructor
  case slot =>
    refine ⟨slot, hslot, hactive, hready, hpaused, ?_⟩
    rw [claimBatch, CoordinatorState.modifySlot, Dict.lookup_modify, if_pos rfl]
    simp only [CoordinatorState.setIntentStates, hslot, Option.map_some]
    exact congrArg some (claimed_slot slot (c.claimedBatch w.state t p ids))
  case nonempty => exact hne
  case owner => exact ⟨rfl, rfl⟩
  case highest =>
    refine ⟨?_, fun q hq => ?_⟩
    · rw [hqueue]
      exact hp
    · rw [hqueue]
      exact hhigher q hq
  case intentIds =>
    rw [hqueue]
    rfl
  case queued => exact hqueued
  case messages =>
    refine map_some_filterMap fun i hi => ?_
    obtain ⟨x, hx, -, -, -, hm⟩ := hqueued i hi
    rw [hx]
    exact hm
  case teamRuns => exact firstOccurrences_foldl _
  case others =>
    intro u hu
    rw [claimBatch, CoordinatorState.modifySlot, Dict.lookup_modify, if_neg hu]
    rfl
  case claimed =>
    intro i hi
    rw [claimBatch]
    exact (CoordinatorState.lookup_setIntentStates _ _ _ i).trans (if_pos hi)
  case unclaimed =>
    intro i hi
    rw [claimBatch]
    exact (CoordinatorState.lookup_setIntentStates _ _ _ i).trans (if_neg hi)
  case leases => rfl
  case operation =>
    exact fun hlt => (counted_of_reachable (c.reachable_open h)).operationId_lt hlt rfl

/-- Signals that `next` asks to settle are still queued in their slot. -/
theorem completeSignals_of_settleSignals (h : c.machine.Reachable w) {ids : List String}
    (hr : (c.next w.state t).result = .settleSignals ids) :
    (completeSignals w.state t ids).result = .committed := by
  have hids : ∃ p, ids = w.state.queueOf t p ∧ ids.filter (bearsMessage w.state) = [] := by
    simp only [next] at hr
    split at hr
    · cases hr
    · rename_i slot hslot
      repeat' split at hr
      all_goals cases hr
      rename_i p _ hm
      exact ⟨p, (queueOf_eq _ hslot p).symm, hm⟩
  obtain ⟨p, hp, hsignals⟩ := hids
  have hvalid : ids.all (isQueuedSignal w.state t) = true := by
    rw [List.all_eq_true]
    intro i hi
    have hm : bearsMessage w.state i = false := by
      simpa using List.filter_eq_nil_iff.mp hsignals i hi
    rw [hp] at hi
    obtain ⟨x, hx, ht, -, hq⟩ := ((represents_of_reachable h).queued t p i).mp hi
    simpa [isQueuedSignal, bearsMessage, hx, ht, hq] using hm
  rw [completeSignals, if_neg (by simpa using hvalid)]

/-- In every reachable state a claim has taken the messages of the highest nonempty priority
of an idle, ready slot and nothing else, under an operation id that exceeds all earlier
ones; any other decision leaves the state as it is. -/
theorem claim_is_exact (h : c.machine.Reachable w) (t : String) :
    (∀ b, (c.next w.state t).result = .claim b →
      ClaimExact c w t b (c.next w.state t).state) ∧
    ((∀ b, (c.next w.state t).result ≠ .claim b) → (c.next w.state t).state = w.state) ∧
    ∀ ids, (c.next w.state t).result = .settleSignals ids →
      (completeSignals (c.next w.state t).state t ids).result = .committed := by
  have hsame : (∀ b, (c.next w.state t).result ≠ .claim b) →
      (c.next w.state t).state = w.state := by
    intro hno
    rcases c.next_cases w.state t with ⟨hs, -, -⟩ | ⟨slot, p, -, -, -, -, -, -, hclaim⟩
    · exact hs
    · rw [hclaim] at hno
      exact absurd rfl (hno _)
  refine ⟨fun b hb => claimExact_of_claim h hb, hsame, fun ids hids => ?_⟩
  rw [hsame fun b hb => by rw [hids] at hb; cases hb]
  exact completeSignals_of_settleSignals h hids

/-- Instance: a message of run `r` waits in the lead's slot. -/
theorem claim_is_exact_sample :
    let w := sample.machine.run .empty (enqueueSample (some "r"))
    (∀ b, (sample.next w.state "lead").result = .claim b →
      ClaimExact sample w "lead" b (sample.next w.state "lead").state) ∧
    ((∀ b, (sample.next w.state "lead").result ≠ .claim b) →
      (sample.next w.state "lead").state = w.state) ∧
    ∀ ids, (sample.next w.state "lead").result = .settleSignals ids →
      (completeSignals (sample.next w.state "lead").state "lead" ids).result = .committed :=
  claim_is_exact (c := sample) (Machine.reachable_run rfl (by decide)) "lead"

end SlotWorkCoordinator

end AionCore.Team
