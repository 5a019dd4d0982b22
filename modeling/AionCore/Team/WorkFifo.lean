import AionCore.Team.WorkInvariant

/-!
# First in, first out

Inside a slot and a priority the messages are claimed in the order in which they were
enqueued, over every run that rebuilds no queue against this order, as
`set_runtime_constraint` can do in the iteration order of a hash map.
-/

namespace AionCore.Team

/-- Of two entries of an ordered list that are not in the opposite order, the first
stands before the second. -/
theorem exists_index_lt {ι : Type*} {R : ι → ι → Prop} {l : List ι} (h : l.Pairwise R) {i j : ι}
    (hi : i ∈ l) (hj : j ∈ l) (hne : i ≠ j) (hR : ¬R j i) :
    ∃ m n : ℕ, m < n ∧ l[m]? = some i ∧ l[n]? = some j := by
  obtain ⟨m, hm, rfl⟩ := List.mem_iff_getElem.mp hi
  obtain ⟨n, hn, rfl⟩ := List.mem_iff_getElem.mp hj
  refine ⟨m, n, ?_, List.getElem?_eq_getElem hm, List.getElem?_eq_getElem hn⟩
  rcases Nat.lt_trichotomy m n with hlt | rfl | hgt
  · exact hlt
  · exact absurd rfl hne
  · exact absurd (List.pairwise_iff_getElem.mp h n m hn hm hgt) hR

/-- A filter map that drops nothing keeps the positions. -/
theorem getElem?_filterMap {ι α : Type*} {f : ι → Option α} {l : List ι}
    (h : ∀ i ∈ l, (f i).isSome) (n : ℕ) : (l.filterMap f)[n]? = l[n]?.bind f := by
  induction l generalizing n with
  | nil => simp
  | cons i l ih =>
    obtain ⟨a, ha⟩ := Option.isSome_iff_exists.mp (h i List.mem_cons_self)
    rw [List.filterMap_cons, ha]
    cases n with
    | zero => simp [ha]
    | succ n => simpa using ih (fun j hj => h j (List.mem_cons_of_mem i hj)) n

namespace SlotWorkCoordinator

variable (c : SlotWorkCoordinator)

/-- The coordinator in an environment that rebuilds no queue out of order. -/
def orderedMachine : Machine Tracked Call :=
  c.machine.restrict fun w call => KeepsOrder w call.op

/-- Queues, claims and all batches handed out follow the log. -/
structure Ordered (w : Tracked) : Prop where
  fifo : Ledger.Fifo (·.isMessage) (Before w.enqueued) w.state.ledger
  batches : ∀ b ∈ w.handed, b.intentIds.Pairwise (Before w.enqueued)

variable {c} {w : Tracked}

theorem Ordered.step (hw : c.Sound w) (h : Ordered w) {call : Call}
    (hcall : c.orderedMachine.admits w call) : Ordered (c.fire w call) := by
  have hmono : ∀ i j, Before w.enqueued i j → Before (c.fire w call).enqueued i j :=
    fun i j hij => hij.mono _
  have hfifo : Ledger.Fifo (·.isMessage) (Before (c.fire w call).enqueued)
      (c.fire w call).state.ledger :=
    Ledger.Moves.fifo (hw.moves hcall.1 True fun _ => hcall.2) hw.coherent (h.fifo.mono hmono)
  refine ⟨hfifo, fun b hb => ?_⟩
  rcases List.mem_append.mp hb with hb | hb
  · exact (h.batches b hb).imp fun hij => hmono _ _ hij
  · obtain ⟨-, -, -, -, hheld⟩ := c.exec_handed w.state call.bindEnqueue call.op hb
    obtain ⟨q, -, hp⟩ := hfifo.active _ _ _ (active_of_batchOf hheld)
    exact (List.pairwise_append.mp hp).1

theorem ordered_of_reachable (h : c.orderedMachine.Reachable w) : Ordered w := by
  refine h.invariant_of_reachable ?_ fun v call hv ho hcall =>
    ho.step (sound_of_reachable (Machine.Reachable.of_restrict hv)) hcall
  rintro _ rfl
  exact ⟨Ledger.Fifo.empty _ _, fun _ hb => by simp [Tracked.empty] at hb⟩

/-- Every run of the coordinator is a run of the abstract ledger, where new work enters after all
that is logged before it. -/
theorem runs_refine_ledger {w' : Tracked} (hw : c.machine.Reachable w)
    (h : c.machine.Reaches w w') :
    WorkMoves (Before w'.enqueued) False w.state.ledger w'.state.ledger := by
  induction h with
  | refl => exact .refl
  | @tail v _ hr hnext ih =>
    obtain ⟨call, hcall, rfl⟩ := hnext
    have hsound := sound_of_reachable (hw.trans hr)
    have hgrown : WorkMoves (Before (c.fire v call).enqueued) False w.state.ledger v.state.ledger :=
      Relation.ReflTransGen.mono (fun _ _ hmove => hmove.mono fun _ _ hij => hij.mono _) _ _ ih
    exact hgrown.trans (hsound.moves hcall False False.elim)

/-- Instance: two messages are enqueued and claimed. -/
theorem runs_refine_ledger_sample :
    let w := sample.machine.run .empty (enqueueTwo ++ [bound none (.next "lead")])
    WorkMoves (Before w.enqueued) False Tracked.empty.state.ledger w.state.ledger :=
  runs_refine_ledger (c := sample) (.start rfl) (Machine.reaches_run (by decide))

/-- First in, first out: of two intents of one slot and priority, the first with a
message, the one that was enqueued later is not claimed while the earlier one is queued,
and in a batch of both the earlier one comes first. -/
theorem fifo_per_priority (h : c.orderedMachine.Reachable w) {i j : String} {x y : WorkIntent}
    (hij : Before w.enqueued i j) (hx : w.state.intents.lookup i = some x)
    (hy : w.state.intents.lookup j = some y) (hslot : x.slotId = y.slotId)
    (hprio : x.priority = y.priority) (hxm : x.isMessage) :
    (x.state = .queued → ∀ t b, w.state.batchOf t = some b → j ∉ b.intentIds) ∧
    ∀ b ∈ w.handed, i ∈ b.intentIds → j ∈ b.intentIds → ∃ m n : ℕ, m < n ∧
      b.intentIds[m]? = some i ∧ b.mailboxMessageIds[m]? = x.mailboxMessageId ∧
      b.intentIds[n]? = some j ∧ b.mailboxMessageIds[n]? = y.mailboxMessageId := by
  have hw : c.Sound w := sound_of_reachable (Machine.Reachable.of_restrict h)
  have ho := ordered_of_reachable h
  have hback : ¬Before w.enqueued j i := hij.asymm hw.logged.nodup
  constructor
  · intro hq t b hb hj
    obtain ⟨z, hz, ht, -⟩ := (CoordinatorState.mem_batchOf hw.coherent hb).mp hj
    obtain rfl : y = z := by simpa [hy] using hz
    obtain ⟨q, hids, hp⟩ := ho.fifo.active _ _ _ (active_of_batchOf hb)
    -- the earlier message waits in the queue that the batch was taken from
    have hqy : q = y.priority := by
      have hprioOf := (hids j hj).2
      rw [CoordinatorState.prioOf_ledger, hy] at hprioOf
      exact (Option.some.inj hprioOf).symm
    have hmem : i ∈ ((w.state.ledger.lane t).queue q).filter
        (w.state.ledger.bears (·.isMessage)) := by
      refine List.mem_filter.mpr ⟨?_, ?_⟩
      · rw [← CoordinatorState.queueOf_ledger, CoordinatorState.mem_queueOf hw.coherent]
        exact ⟨x, hx, hslot.trans ht, hprio.trans hqy.symm, hq⟩
      · rw [CoordinatorState.bears_ledger, bearsMessage, hx]
        exact hxm
    exact hback ((List.pairwise_append.mp hp).2.2 j hj i hmem)
  · intro b hb hi hj
    have hne : i ≠ j := by
      rintro rfl
      exact hback hij
    obtain ⟨m, n, hmn, hm, hn⟩ := exists_index_lt (ho.batches b hb) hi hj hne hback
    have hsome : ∀ k ∈ b.intentIds,
        ((w.state.enqueuedAs k).bind (·.mailboxMessageId)).isSome := by
      intro k hk
      obtain ⟨z, hz, -, -, hmsg⟩ := (hw.describes b hb).intents k hk
      rw [hz]
      exact hmsg
    refine ⟨m, n, hmn, hm, ?_, hn, ?_⟩
    · rw [(hw.describes b hb).messages, getElem?_filterMap hsome, hm]
      simp [CoordinatorState.enqueuedAs, hx]
    · rw [(hw.describes b hb).messages, getElem?_filterMap hsome, hn]
      simp [CoordinatorState.enqueuedAs, hy]

/-- Instance: both messages are claimed in one batch. -/
theorem fifo_per_priority_sample :
    let w := sample.machine.run .empty (enqueueTwo ++ [bound none (.next "lead")])
    let x := sampleIntent "xxx" "m" none (.starting "xxxxx" 1)
    let y := sampleIntent "xxxx" "n" none (.starting "xxxxx" 1)
    (x.state = .queued → ∀ t b, w.state.batchOf t = some b → "xxxx" ∉ b.intentIds) ∧
    ∀ b ∈ w.handed, "xxx" ∈ b.intentIds → "xxxx" ∈ b.intentIds → ∃ m n : ℕ, m < n ∧
      b.intentIds[m]? = some "xxx" ∧ b.mailboxMessageIds[m]? = x.mailboxMessageId ∧
      b.intentIds[n]? = some "xxxx" ∧ b.mailboxMessageIds[n]? = y.mailboxMessageId :=
  fifo_per_priority (c := sample)
    (Machine.reachable_run (M := sample.orderedMachine) rfl
      (show sample.orderedMachine.Accepts .empty (enqueueTwo ++ [bound none (.next "lead")]) from
        ⟨⟨by decide, fun h => absurd rfl h⟩, ⟨by decide, trivial⟩, ⟨by decide, trivial⟩,
          ⟨by decide, trivial⟩, ⟨by decide, trivial⟩, ⟨by decide, trivial⟩, trivial⟩))
    ⟨0, 1, by decide, by decide, by decide⟩ (by decide) (by decide) rfl rfl rfl

/-- The lead's runtime fails and recovers between the two messages and their claim; the
hash map hands out the second message first. -/
def recoverReversed : List Call :=
  enqueueTwo ++ [bound none (.setRuntimeConstraint "lead" (.failed 1 "crashed") .stored),
    bound none (.setRuntimeConstraint "lead" .ready .stored), bound none (.next "lead")]

/-- After a failure of the runtime the message that was enqueued first is the second one
of its batch. -/
theorem failed_runtime_breaks_fifo :
    let w := sample.machine.run .empty recoverReversed
    sample.machine.Reachable w ∧ Before w.enqueued "xxx" "xxxx" ∧
    w.state.intents.lookup "xxx" = some (sampleIntent "xxx" "m" none (.starting "xxxxx" 1)) ∧
    w.state.intents.lookup "xxxx" = some (sampleIntent "xxxx" "n" none (.starting "xxxxx" 1)) ∧
    w.handed.map (fun b => (b.intentIds, b.mailboxMessageIds)) =
      [(["xxxx", "xxx"], ["n", "m"])] :=
  ⟨Machine.reachable_run rfl (by decide), ⟨0, 1, by decide, by decide, by decide⟩, by decide,
    by decide, by decide⟩

end SlotWorkCoordinator

end AionCore.Team
