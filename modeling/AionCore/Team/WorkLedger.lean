import AionCore.Lib.LedgerMoves
import AionCore.Team.WorkOps

/-!
# The coordinator state as a ledger

Intents are items, slots are lanes, the active batch is the claim under its batch and
operation id, and what an intent carries is the intent as it was enqueued. The lemmas say
how the edits that the operations are made of act on this view.
-/

namespace AionCore.Team

abbrev ClaimKey := String × ℕ

abbrev WorkLedger := Ledger String String WorkPriority WorkIntent ClaimKey WorkIntentState

def WorkIntentState.phase : WorkIntentState → Phase ClaimKey WorkIntentState
  | .queued => .queued
  | .starting batchId operationId | .running batchId operationId _ =>
    .claimed (batchId, operationId)
  | state => .done state

@[simp] theorem WorkIntentState.isDone_phase (state : WorkIntentState) :
    state.phase.isDone = state.isTerminal := by
  cases state <;> rfl

@[simp] theorem WorkIntentState.phase_queued : WorkIntentState.queued.phase = .queued := rfl

variable {state : WorkIntentState}

theorem WorkIntentState.phase_terminal (h : state.isTerminal) :
    state.phase = .done state := by
  cases state <;> simp_all [isTerminal, phase]

theorem WorkIntentState.phase_eq_done {outcome : WorkIntentState}
    (h : state.phase = .done outcome) : state = outcome := by
  cases state <;> simp_all [phase]

theorem WorkIntentState.phase_eq_queued :
    state.phase = .queued ↔ state = .queued := by
  cases state <;> simp [phase]

def WorkIntent.asQueued (intent : WorkIntent) : WorkIntent := { intent with state := .queued }

@[simp] theorem WorkIntent.asQueued_teamRunId (intent : WorkIntent) :
    intent.asQueued.teamRunId = intent.teamRunId := rfl

@[simp] theorem WorkIntent.asQueued_mailboxMessageId (intent : WorkIntent) :
    intent.asQueued.mailboxMessageId = intent.mailboxMessageId := rfl

def WorkIntent.item (intent : WorkIntent) :
    Item String WorkPriority WorkIntent ClaimKey WorkIntentState :=
  ⟨intent.slotId, intent.priority, intent.asQueued, intent.state.phase⟩

/-- Whether an intent carries a mailbox message; only such intents are claimed. -/
def WorkIntent.isMessage (intent : WorkIntent) : Bool := intent.mailboxMessageId.isSome

def ActiveBatch.claim (active : ActiveBatch) : ClaimKey × List String :=
  ((active.batch.batchId, active.batch.operationId), active.batch.intentIds)

def SlotState.lane (slot : SlotState) : Lane String WorkPriority ClaimKey :=
  ⟨slot.queue, slot.active.map (·.claim)⟩

def CoordinatorState.ledger (s : CoordinatorState) : WorkLedger :=
  ⟨fun i => (s.intents.lookup i).map (·.item), fun t => (s.slots.lookup t).elim .empty (·.lane)⟩

namespace SlotState

@[simp] theorem lane_new (role : TeamRunTargetRole) : (SlotState.new role).lane = Lane.empty := by
  unfold lane Lane.empty new
  congr
  funext p
  cases p <;> rfl

section

variable (slot : SlotState)
include slot

theorem queue_modifyQueue (p q : WorkPriority) (f : List String → List String) :
    (slot.modifyQueue p f).queue q = if q = p then f (slot.queue q) else slot.queue q := by
  cases p <;> cases q <;> rfl

@[simp] theorem active_modifyQueue (p : WorkPriority) (f) :
    (slot.modifyQueue p f).active = slot.active := by
  cases p <;> rfl

@[simp] theorem queue_removeQueued (i : String) (p : WorkPriority) :
    (slot.removeQueued i).queue p = (slot.queue p).filter (· ≠ i) := by
  cases p <;> rfl

theorem foldl_removeQueued (ids : List String) :
    ids.foldl removeQueued slot =
      { slot with
        foreground := slot.foreground.filter (· ∉ ids)
        control := slot.control.filter (· ∉ ids)
        background := slot.background.filter (· ∉ ids) } := by
  induction ids generalizing slot with
  | nil => simp
  | cons i ids ih =>
    rw [List.foldl_cons, ih]
    simp [removeQueued, List.filter_filter, Bool.and_comm]

@[simp] theorem queue_foldl_removeQueued (ids : List String) (p : WorkPriority) :
    (ids.foldl removeQueued slot).queue p = (slot.queue p).filter (· ∉ ids) := by
  rw [foldl_removeQueued]
  cases p <;> rfl

@[simp] theorem active_foldl_removeQueued (ids : List String) :
    (ids.foldl removeQueued slot).active = slot.active := by
  rw [foldl_removeQueued]

/-- Pushing the reversed entries to the front puts them there in their own order. -/
theorem queue_foldl_pushFront (entries : List (WorkPriority × String)) (p : WorkPriority) :
    (entries.reverse.foldl (fun slot e => slot.pushFront e.1 e.2) slot).queue p =
      (entries.filter (·.1 = p)).map (·.2) ++ slot.queue p := by
  induction entries with
  | nil => rfl
  | cons e entries ih =>
    rw [List.reverse_cons, List.foldl_append, List.foldl_cons, List.foldl_nil, pushFront,
      queue_modifyQueue, ih]
    by_cases h : p = e.1
    · simp [h]
    · simp [h, Ne.symm h]

@[simp] theorem active_foldl_pushFront (entries : List (WorkPriority × String)) :
    (entries.foldl (fun slot e => slot.pushFront e.1 e.2) slot).active = slot.active := by
  induction entries generalizing slot with
  | nil => rfl
  | cons e entries ih => rw [List.foldl_cons, ih, pushFront, active_modifyQueue]

theorem queue_foldl_pushBack (kept : List WorkIntent) (p : WorkPriority) :
    (kept.foldl (fun slot x => slot.pushBack x.priority x.intentId) slot).queue p =
      slot.queue p ++ (kept.filter (·.priority = p)).map (·.intentId) := by
  induction kept generalizing slot with
  | nil => simp
  | cons x kept ih =>
    rw [List.foldl_cons, ih, pushBack, queue_modifyQueue]
    by_cases h : p = x.priority
    · simp [h]
    · simp [h, Ne.symm h]

@[simp] theorem active_foldl_pushBack (kept : List WorkIntent) :
    (kept.foldl (fun slot x => slot.pushBack x.priority x.intentId) slot).active =
      slot.active := by
  induction kept generalizing slot with
  | nil => rfl
  | cons x kept ih => rw [List.foldl_cons, ih, pushBack, active_modifyQueue]

@[simp] theorem lane_clearWork : slot.clearWork.lane = Lane.empty := by
  unfold lane Lane.empty clearWork
  congr
  funext p
  cases p <;> rfl

theorem queue_clearWork (p : WorkPriority) : slot.clearWork.queue p = [] := by
  cases p <;> rfl

end

theorem mem_queuedIds {slot : SlotState} {i : String} :
    i ∈ slot.queuedIds ↔ ∃ p, i ∈ slot.queue p := by
  simp only [queuedIds, List.mem_append]
  constructor
  · rintro ((h | h) | h)
    · exact ⟨.foreground, h⟩
    · exact ⟨.control, h⟩
    · exact ⟨.background, h⟩
  · rintro ⟨p, h⟩
    cases p
    · exact .inl (.inl h)
    · exact .inl (.inr h)
    · exact .inr h

end SlotState

namespace CoordinatorState

theorem ledger_item (s : CoordinatorState) (i : String) :
    s.ledger.item i = (s.intents.lookup i).map (·.item) := rfl

theorem ledger_lane (s : CoordinatorState) (t : String) :
    s.ledger.lane t = (s.slots.lookup t).elim .empty (·.lane) := rfl

variable {s : CoordinatorState}

theorem ledger_item_eq {i : String} {x : WorkIntent} (h : s.intents.lookup i = some x) :
    s.ledger.item i = some x.item := by
  rw [ledger_item, h, Option.map_some]

theorem exists_of_ledger_item {i : String}
    {y : Item String WorkPriority WorkIntent ClaimKey WorkIntentState}
    (h : s.ledger.item i = some y) : ∃ x, s.intents.lookup i = some x ∧ x.item = y :=
  Option.map_eq_some_iff.mp h

@[simp] theorem lookup_setIntentStates (s : CoordinatorState) (ids : List String)
    (state : WorkIntentState) (i : String) :
    (s.setIntentStates ids state).intents.lookup i =
      if i ∈ ids then (s.intents.lookup i).map fun x => { x with state } else
        s.intents.lookup i := by
  simp only [setIntentStates]
  generalize s.intents = intents
  induction ids generalizing intents with
  | nil => simp
  | cons j ids ih =>
    rw [List.foldl_cons, ih, Dict.lookup_modify]
    by_cases hj : i = j
    · subst j
      by_cases hi : i ∈ ids
      · simp [hi, Function.comp_def]
      · simp [hi]
    · by_cases hi : i ∈ ids <;> simp [hi, hj]

theorem ledger_setIntentStates (s : CoordinatorState) (ids : List String)
    (state : WorkIntentState) :
    (s.setIntentStates ids state).ledger =
      s.ledger.rephase fun i x => if i ∈ ids then state.phase else x.phase := by
  refine Ledger.ext (funext fun i => ?_) rfl
  rw [ledger_item, lookup_setIntentStates, Ledger.rephase_item, ledger_item]
  by_cases hi : i ∈ ids
  · simp only [hi, if_true, Option.map_map]
    rfl
  · simp only [hi, if_false, Option.map_map]
    rfl

theorem ledger_putSlot (s : CoordinatorState) (t : String) (slot : SlotState) :
    (s.putSlot t slot).ledger = s.ledger.setLane t slot.lane := by
  refine Ledger.ext rfl (funext fun u => ?_)
  rw [ledger_lane, putSlot, Dict.lookup_insert', Ledger.setLane_lane, ledger_lane]
  by_cases hu : u = t <;> simp [hu]

theorem lane_entrySlot (s : CoordinatorState) (t : String) (role : TeamRunTargetRole) :
    (s.entrySlot t role).lane = s.ledger.lane t := by
  rw [entrySlot, ledger_lane]
  cases s.slots.lookup t <;> simp

variable {slot : SlotState}

theorem ledger_putSlot_same (s : CoordinatorState) (t : String) (h : slot.lane = s.ledger.lane t) :
    (s.putSlot t slot).ledger = s.ledger := by
  rw [ledger_putSlot, h]
  refine Ledger.ext rfl (funext fun u => ?_)
  rw [Ledger.setLane_lane]
  split
  · rename_i hu
    rw [hu]
  · rfl

variable {t : String}

theorem ledger_modifySlot (h : s.slots.lookup t = some slot) (f : SlotState → SlotState) :
    (s.modifySlot t f).ledger = s.ledger.setLane t (f slot).lane := by
  refine Ledger.ext rfl (funext fun u => ?_)
  rw [ledger_lane, modifySlot, Dict.lookup_modify, Ledger.setLane_lane, ledger_lane]
  by_cases hu : u = t
  · subst u
    simp [h]
  · simp [hu]

theorem ledger_lane_of_slot (h : s.slots.lookup t = some slot) :
    s.ledger.lane t = slot.lane := by
  rw [ledger_lane, h]
  rfl

theorem active_of_activeOf {active : ActiveBatch} (h : s.activeOf t = some active) :
    (s.ledger.lane t).active = some active.claim := by
  obtain ⟨slot, hs, ha⟩ := Option.bind_eq_some_iff.mp h
  rw [ledger_lane_of_slot hs, SlotState.lane, ha, Option.map_some]

theorem bears_ledger (s : CoordinatorState) :
    s.ledger.bears (·.isMessage) = SlotWorkCoordinator.bearsMessage s := by
  funext i
  simp only [Ledger.bears, ledger_item, SlotWorkCoordinator.bearsMessage]
  cases s.intents.lookup i <;> rfl

theorem prioOf_ledger (s : CoordinatorState) (i : String) :
    s.ledger.prioOf i = (s.intents.lookup i).map (·.priority) := by
  simp only [Ledger.prioOf, ledger_item, Option.map_map]
  rfl

end CoordinatorState

end AionCore.Team
