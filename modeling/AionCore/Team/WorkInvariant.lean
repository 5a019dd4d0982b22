import AionCore.Team.WorkHistory

/-!
# The representation invariant of the coordinator

Queues, active batches and intent states agree in every reachable state.
-/

namespace AionCore.Team

namespace CoordinatorState

def queueOf (s : CoordinatorState) (t : String) (p : WorkPriority) : List String :=
  (s.slots.lookup t).elim [] (·.queue p)

def queuesOf (s : CoordinatorState) (t : String) : List String :=
  s.queueOf t .foreground ++ s.queueOf t .control ++ s.queueOf t .background

end CoordinatorState

def WorkIntentState.heldBy (b : WorkBatch) : WorkIntentState → Prop
  | .starting batchId operationId | .running batchId operationId _ =>
    batchId = b.batchId ∧ operationId = b.operationId
  | _ => False

def WorkIntentState.isClaimed : WorkIntentState → Bool
  | .starting _ _ | .running _ _ _ => true
  | _ => false

/-- The representation invariant of the coordinator. -/
structure CoordinatorState.Represents (s : CoordinatorState) : Prop where
  /-- No identifier is queued twice in a slot. -/
  once : ∀ t i, (s.queuesOf t).count i ≤ 1
  /-- A queue holds exactly the queued intents of its slot and priority. -/
  queued : ∀ t p i, i ∈ s.queueOf t p ↔
    ∃ x, s.intents.lookup i = some x ∧ x.slotId = t ∧ x.priority = p ∧ x.state = .queued
  /-- An active batch holds exactly the intents of its slot that carry its ids. -/
  active : ∀ t b i, s.batchOf t = some b → (i ∈ b.intentIds ↔
    ∃ x, s.intents.lookup i = some x ∧ x.slotId = t ∧ x.state.heldBy b)
  /-- Every Starting or Running intent is in the active batch of its slot. -/
  claimed : ∀ i x, s.intents.lookup i = some x → x.state.isClaimed →
    ∃ b, s.batchOf x.slotId = some b ∧ i ∈ b.intentIds
  /-- An intent that has ended is in no queue and in no batch. -/
  ended : ∀ i x, s.intents.lookup i = some x → x.state.isTerminal →
    ∀ t, i ∉ s.queuesOf t ∧ ∀ b, s.batchOf t = some b → i ∉ b.intentIds

namespace CoordinatorState

variable {s : CoordinatorState}

theorem queueOf_ledger (s : CoordinatorState) (t : String) (p : WorkPriority) :
    s.queueOf t p = (s.ledger.lane t).queue p := by
  rw [queueOf, ledger_lane]
  cases s.slots.lookup t <;> rfl

variable {t i : String}

theorem mem_queueOf (h : s.ledger.Coherent) {p : WorkPriority} :
    i ∈ s.queueOf t p ↔
      ∃ x, s.intents.lookup i = some x ∧ x.slotId = t ∧ x.priority = p ∧ x.state = .queued := by
  rw [queueOf_ledger, h.queued_iff]
  constructor
  · rintro ⟨y, hy, ht, hp, hq⟩
    obtain ⟨x, hx, rfl⟩ := exists_of_ledger_item hy
    exact ⟨x, hx, ht, hp, WorkIntentState.phase_eq_queued.mp hq⟩
  · rintro ⟨x, hx, ht, hp, hq⟩
    exact ⟨x.item, ledger_item_eq hx, ht, hp, WorkIntentState.phase_eq_queued.mpr hq⟩

theorem mem_queuesOf : i ∈ s.queuesOf t ↔ ∃ p, i ∈ s.queueOf t p := by
  simp only [queuesOf, List.mem_append]
  constructor
  · rintro ((h | h) | h)
    · exact ⟨.foreground, h⟩
    · exact ⟨.control, h⟩
    · exact ⟨.background, h⟩
  · rintro ⟨p, h⟩
    cases p
    · exact .inl (.inl h)
    · exact .inl (.inr h)
    · exact .inr h

theorem heldBy_iff (state : WorkIntentState) (b : WorkBatch) :
    state.heldBy b ↔ state.phase = .claimed (b.batchId, b.operationId) := by
  cases state <;> simp [WorkIntentState.heldBy, WorkIntentState.phase]

theorem mem_batchOf (h : s.ledger.Coherent) {b : WorkBatch} (hb : s.batchOf t = some b) :
    i ∈ b.intentIds ↔
      ∃ x, s.intents.lookup i = some x ∧ x.slotId = t ∧ x.state.heldBy b := by
  have hactive := SlotWorkCoordinator.active_of_batchOf hb
  constructor
  · intro hi
    obtain ⟨y, hy, ht, hp⟩ := h.of_active hactive hi
    obtain ⟨x, hx, rfl⟩ := exists_of_ledger_item hy
    exact ⟨x, hx, ht, (heldBy_iff _ b).mpr hp⟩
  · rintro ⟨x, hx, ht, hp⟩
    exact (h.mem_active hactive (ledger_item_eq hx) ht ((heldBy_iff _ b).mp hp)).2

/-- A queued intent is in one queue only. -/
theorem nodup_queuesOf (h : s.ledger.Coherent) (t : String) : (s.queuesOf t).Nodup := by
  have hn : ∀ p, (s.queueOf t p).Nodup := fun p => queueOf_ledger s t p ▸ h.nodup t p
  have hdisj : ∀ p q, p ≠ q → ∀ a ∈ s.queueOf t p, ∀ b ∈ s.queueOf t q, a ≠ b := by
    rintro p q hpq a ha _ hb rfl
    obtain ⟨x, hx, -, rfl, -⟩ := (mem_queueOf h).mp ha
    obtain ⟨y, hy, -, rfl, -⟩ := (mem_queueOf h).mp hb
    obtain rfl : x = y := by simpa [hx] using hy
    exact hpq rfl
  refine List.nodup_append.mpr ⟨List.nodup_append.mpr ⟨hn _, hn _, hdisj _ _ nofun⟩, hn _,
    fun a ha => ?_⟩
  rcases List.mem_append.mp ha with ha | ha
  · exact hdisj .foreground .background nofun a ha
  · exact hdisj .control .background nofun a ha

/-- A coherent ledger is a well-represented state. -/
theorem represents_of_coherent (h : s.ledger.Coherent) : s.Represents where
  once t i := List.nodup_iff_count_le_one.mp (nodup_queuesOf h t) i
  queued t p i := mem_queueOf h
  active t b i hb := mem_batchOf h hb
  claimed i x hx hclaimed := by
    obtain ⟨k, hk⟩ : ∃ k, x.state.phase = .claimed k := by
      cases hs : x.state <;>
        simp [hs, WorkIntentState.isClaimed, WorkIntentState.phase] at hclaimed ⊢
    obtain ⟨ids, ha, hi⟩ := (h.claimed_iff x.slotId k i).mpr
      ⟨x.item, ledger_item_eq hx, rfl, hk⟩
    cases hb : s.batchOf x.slotId with
    | some b =>
      have hactive := SlotWorkCoordinator.active_of_batchOf hb
      rw [ha] at hactive
      obtain ⟨-, rfl⟩ : _ ∧ ids = b.intentIds := by simpa using hactive
      exact ⟨b, rfl, hi⟩
    | none =>
      rw [ledger_lane] at ha
      simp only [batchOf, activeOf, Option.map_eq_none_iff, Option.bind_eq_none_iff] at hb
      cases hs : s.slots.lookup x.slotId with
      | none => simp [hs, Lane.empty] at ha
      | some slot => simp [hs, hb slot hs, SlotState.lane] at ha
  ended i x hx hend t := by
    refine ⟨fun hi => ?_, fun b hb hi => ?_⟩
    · obtain ⟨p, hp⟩ := mem_queuesOf.mp hi
      obtain ⟨y, hy, -, -, hq⟩ := (mem_queueOf h).mp hp
      obtain rfl : x = y := by simpa [hx] using hy
      simp [hq, WorkIntentState.isTerminal] at hend
    · obtain ⟨y, hy, -, hheld⟩ := (mem_batchOf h hb).mp hi
      obtain rfl : x = y := by simpa [hx] using hy
      cases hs : x.state <;> simp_all [WorkIntentState.isTerminal, WorkIntentState.heldBy]

end CoordinatorState

namespace SlotWorkCoordinator

/-- The representation invariant holds in every reachable state: whatever operations
are called in whatever order with whatever arguments, batches being passed as `next`
returned them. -/
theorem represents_of_reachable {c : SlotWorkCoordinator} {w : Tracked}
    (h : c.machine.Reachable w) : w.state.Represents :=
  CoordinatorState.represents_of_coherent (sound_of_reachable h).coherent

/-- Instance: a batch has been claimed, started and given back. -/
theorem represents_sample : (sample.machine.run .empty (enqueueSample (some "r") ++
    [bound none (.next "lead"), bound none (.markStarted (sampleBatch ["r"]) "turn" 1),
      bound none (.retryStart (sampleBatch ["r"]))])).state.Represents :=
  represents_of_reachable (c := sample) (Machine.reachable_run rfl (by decide))

end SlotWorkCoordinator

end AionCore.Team
