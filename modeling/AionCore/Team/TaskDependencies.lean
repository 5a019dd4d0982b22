import AionCore.Lib.Waits
import AionCore.Team.TaskUnblocking

/-!
# Task dependencies cannot deadlock a team

`create_task` checks its dependencies, and a new task is nobody's dependency yet, so it
closes no cycle. `update_task` checks nothing. The dependencies stay within the team and
free of cycles exactly as long as the lists given to `update_task` are.
-/

namespace AionCore.Team

namespace TaskTable

open Relation

/-- `x` waits for `y`. -/
def Waits (s : TaskTable) (x y : String) : Prop := y ∈ s.blockersOf x

/-- Dependencies name tasks of the same team and close no cycle. -/
structure WellOrdered (s : TaskTable) : Prop where
  known : ∀ x, ∀ y ∈ s.blockersOf x, ∃ teamId, s.teamOf x = some teamId ∧ s.teamOf y = some teamId
  acyclic : Waits.Acyclic s.Waits

/-- Who waits for whom once a call that completes `taskId` has let go whom it knows. -/
def WaitsAfter (s : TaskTable) (taskId : String) (update : TaskUpdate) (x y : String) : Prop :=
  s.Waits x y ∧ ¬(update.status = some .completed ∧ x ∈ s.blocksOf taskId ∧ y = taskId)

/-- A list given to `update_task` names tasks of the team none of which is the updated task
or waits for it. -/
def LeavesOrdered (s : TaskTable) : TaskCall → Prop
  | .createTask _ _ _ _ _ _ => True
  | .updateTask teamId taskId update _ => ∀ y ∈ update.blockedBy.getD [],
    s.teamOf y = some teamId ∧ ¬ReflTransGen (s.WaitsAfter taskId update) y taskId

variable {s s' : TaskTable} {taskId teamId : String}

/-- A new task waits for tasks that were there before, and nobody waits for it. -/
theorem Created.wellOrdered {blockedBy : List String} (h : s.Created s' taskId teamId blockedBy)
    (hs : s.WellOrdered) : s'.WellOrdered := by
  have hunknown : ∀ x, ¬s.Waits x taskId := by
    intro x hx
    obtain ⟨t, -, ht⟩ := hs.known x taskId hx
    rw [h.fresh] at ht
    cases ht
  have hne : ∀ y ∈ blockedBy, y ≠ taskId := by
    rintro y hy rfl
    have hteam := h.known y hy
    rw [h.fresh] at hteam
    cases hteam
  constructor
  case known =>
    intro x y hy
    rw [h.blockers] at hy
    rw [h.team, h.team]
    split at hy
    · rename_i hx
      exact ⟨teamId, if_pos hx, by rw [if_neg (hne y hy), h.known y hy]⟩
    · rename_i hx
      obtain ⟨t, hxt, hyt⟩ := hs.known x y hy
      have hyne : y ≠ taskId := by
        rintro rfl
        exact hunknown x hy
      exact ⟨t, by rw [if_neg hx, hxt], by rw [if_neg hyne, hyt]⟩
  case acyclic =>
    have hwaits : ∀ x y, s'.Waits x y → Waits.rewait s.Waits taskId (· ∈ blockedBy) x y := by
      intro x y hy
      rw [Waits, h.blockers] at hy
      split at hy
      · rename_i hx
        exact .inl ⟨hx, hy⟩
      · rename_i hx
        exact .inr ⟨hx, hy⟩
    refine Waits.Acyclic.mono ((Waits.acyclic_rewait_iff hs.acyclic).mpr ?_) hwaits
    intro y hy hchain
    rcases hchain.cases_tail with heq | ⟨x, -, hx⟩
    · exact hne y hy heq.symm
    · exact hunknown x hx

variable {update : TaskUpdate}

/-- The updated task waits for the list it was given, everybody else for no more than
before. -/
theorem Updated.waits_iff (h : s.Updated s' taskId teamId update) (hothers : s.BlocksOthers)
    (x y : String) :
    s'.Waits x y ↔ Waits.rewait (s.WaitsAfter taskId update) taskId
      (· ∈ update.blockedBy.getD (s.blockersOf taskId)) x y := by
  rw [Waits, h.blockers, Waits.rewait]
  by_cases hx : x = taskId
  · subst hx
    simp [hothers x]
  · by_cases hfreed : update.status = some .completed ∧ x ∈ s.blocksOf taskId
    · simp [hx, hfreed, WaitsAfter, Waits]
    · have hkept : ¬(update.status = some .completed ∧ x ∈ s.blocksOf taskId ∧ y = taskId) :=
        fun hc => hfreed ⟨hc.1, hc.2.1⟩
      simp only [hx, hfreed, if_false, WaitsAfter, Waits, hkept, false_and, ne_eq, not_false_eq_true,
        and_true, true_and, false_or]

theorem WellOrdered.acyclic_after (hs : s.WellOrdered) (taskId : String) (update : TaskUpdate) :
    Waits.Acyclic (s.WaitsAfter taskId update) :=
  hs.acyclic.mono fun _ _ h => h.1

theorem Updated.wellOrdered_iff {now : TimestampMs} (h : s.Updated s' taskId teamId update)
    (hs : s.WellOrdered) (hothers : s.BlocksOthers) :
    s'.WellOrdered ↔ s.LeavesOrdered (.updateTask teamId taskId update now) := by
  have hwaits := h.waits_iff hothers
  cases hgiven : update.blockedBy with
  | none =>
    -- without a list the call only takes dependencies away
    rw [hgiven, Option.getD_none] at hwaits
    have hfewer : ∀ x y, s'.Waits x y → s.Waits x y := by
      intro x y hxy
      rcases (hwaits x y).mp hxy with ⟨rfl, hy⟩ | ⟨-, hy⟩
      · exact hy
      · exact hy.1
    refine iff_of_true ⟨fun x y hy => ?_, hs.acyclic.mono hfewer⟩ ?_
    · rw [h.team, h.team]
      exact hs.known x y (hfewer x y hy)
    · intro y hy
      simp [hgiven] at hy
  | some l =>
    rw [hgiven, Option.getD_some] at hwaits
    have hacyclic : Waits.Acyclic s'.Waits ↔
        ∀ y ∈ l, ¬ReflTransGen (s.WaitsAfter taskId update) y taskId := by
      have heq : s'.Waits = Waits.rewait (s.WaitsAfter taskId update) taskId (· ∈ l) :=
        funext fun x => funext fun y => propext (hwaits x y)
      rw [heq]
      exact Waits.acyclic_rewait_iff (hs.acyclic_after taskId update)
    have hknown : (∀ x, ∀ y ∈ s'.blockersOf x, ∃ t, s'.teamOf x = some t ∧ s'.teamOf y = some t) ↔
        ∀ y ∈ l, s.teamOf y = some teamId := by
      simp only [h.team]
      constructor
      · intro hafter y hy
        obtain ⟨t, hx, hyt⟩ := hafter taskId y ((hwaits taskId y).mpr (.inl ⟨rfl, hy⟩))
        rw [h.known] at hx
        rw [hyt, hx]
      · intro hl x y hy
        rcases (hwaits x y).mp hy with ⟨rfl, hyl⟩ | ⟨-, hyo⟩
        · exact ⟨teamId, h.known, hl y hyl⟩
        · exact hs.known x y hyo.1
    constructor
    · intro hafter y hy
      rw [hgiven, Option.getD_some] at hy
      exact ⟨hknown.mp hafter.known y hy, hacyclic.mp hafter.acyclic y hy⟩
    · intro hl
      rw [LeavesOrdered, hgiven, Option.getD_some] at hl
      exact ⟨hknown.mpr fun y hy => (hl y hy).1, hacyclic.mpr fun y hy => (hl y hy).2⟩

theorem not_reaches_of_blockersOf {y : String} (hy : s.blockersOf y = []) (hne : y ≠ taskId) :
    ¬ReflTransGen (s.WaitsAfter taskId update) y taskId := by
  intro hchain
  rcases hchain.cases_head with heq | ⟨z, hz, -⟩
  · exact hne heq
  · have hz' : z ∈ s.blockersOf y := hz.1
    simp [hy] at hz'

/-- Some open task of the team waits for no open task. -/
theorem WellOrdered.exists_ready (hs : s.WellOrdered) {x : String} {st : TaskStatus}
    (hteam : s.teamOf x = some teamId) (hst : s.statusOf x = some st) (hopen : st ≠ .completed) :
    ∃ y st', s.teamOf y = some teamId ∧ s.statusOf y = some st' ∧ st' ≠ .completed ∧
      ∀ z ∈ s.blockersOf y, s.statusOf z = some .completed := by
  have hkey : ∀ {y st}, s.statusOf y = some st → y ∈ s.rows.keys := by
    intro y st hy
    obtain ⟨t, ht, -⟩ := Option.map_eq_some_iff.mp hy
    exact AList.lookup_isSome.mp (by rw [ht, Option.isSome_some])
  -- the open tasks of the team
  let S : Finset String := s.rows.keys.toFinset.filter fun y =>
    s.teamOf y = some teamId ∧ s.statusOf y ≠ some .completed
  have hx : x ∈ S := by
    simp only [S, Finset.mem_filter, List.mem_toFinset, hst, hteam, true_and, ne_eq,
      Option.some.injEq]
    exact ⟨hkey hst, hopen⟩
  obtain ⟨y, hy, hfree⟩ := hs.acyclic.exists_free ⟨x, hx⟩
  simp only [S, Finset.mem_filter, List.mem_toFinset] at hy
  obtain ⟨-, hyteam, hyopen⟩ := hy
  obtain ⟨t, ht, htteam⟩ := Option.map_eq_some_iff.mp hyteam
  refine ⟨y, t.status, hyteam, by rw [statusOf, ht, Option.map_some], ?_, fun z hz => ?_⟩
  · intro hcompleted
    exact hyopen (by rw [statusOf, ht, Option.map_some, hcompleted])
  · obtain ⟨t', hyt', hzt'⟩ := hs.known y z hz
    obtain ⟨u, hu, -⟩ := Option.map_eq_some_iff.mp hzt'
    by_contra hzopen
    refine hfree z ?_ hz
    simp only [S, Finset.mem_filter, List.mem_toFinset]
    refine ⟨hkey (by rw [statusOf, hu, Option.map_some]), ?_, hzopen⟩
    rw [hzt', ← hyt', hyteam]

end TaskTable

namespace TaskBoard

open TaskTable

variable {board : TaskBoard}

/-- In every run of successful calls whose `update_task` calls give only lists of tasks of
the team that do not wait for the updated task, every dependency names a task of the same
team and no task waits for itself along any chain. The condition is exact. -/
theorem dependencies_stay_ordered {s : TaskTable}
    (h : (board.machine.restrict LeavesOrdered).Reachable s) :
    (s.WellOrdered ∧ ∀ x st teamId, s.teamOf x = some teamId → s.statusOf x = some st →
      st ≠ .completed → ∃ y st', s.teamOf y = some teamId ∧ s.statusOf y = some st' ∧
        st' ≠ .completed ∧ ∀ z ∈ s.blockersOf y, s.statusOf z = some .completed) ∧
    ∀ call, board.machine.admits s call →
      ((board.machine.fire s call).WellOrdered ↔ s.LeavesOrdered call) := by
  have hexact : s.WellOrdered ∧ ∀ call, board.machine.admits s call →
      ((board.machine.fire s call).WellOrdered ↔ s.LeavesOrdered call) := by
    refine h.exact ?_ fun s call hr hs hcall => ?_
    · rintro _ rfl
      refine ⟨fun x y hy => ?_, fun x hx => ?_⟩
      · simp [blockersOf, TaskTable.empty] at hy
      · obtain ⟨y, hy, -⟩ := Relation.TransGen.head'_iff.mp hx
        simp [Waits, blockersOf, TaskTable.empty] at hy
    · rcases edit_of_admits hcall with ⟨_, _, _, _, _, _, rfl, hcreated⟩ | ⟨_, _, _, _, rfl, hup⟩
      · exact iff_of_true (hcreated.wellOrdered hs) trivial
      · exact hup.wellOrdered_iff hs (blocksOthers_of_reachable hr)
  exact ⟨⟨hexact.1, fun x st teamId hteam hst hopen => hexact.1.exists_ready hteam hst hopen⟩,
    hexact.2⟩

/-- Give a task of the team `t` a list of dependencies. -/
def rewaitSample (taskId : String) (blockedBy : List String) : TaskCall :=
  .updateTask "t" taskId { TaskUpdate.empty with blockedBy := some blockedBy } 0

/-- The task `x` is told to wait for `xx`. -/
theorem dependencies_stay_ordered_sample :
    let s := sample.machine.run .empty [createSample [], createSample [], rewaitSample "x" ["xx"]]
    (s.WellOrdered ∧ ∀ x st teamId, s.teamOf x = some teamId → s.statusOf x = some st →
      st ≠ .completed → ∃ y st', s.teamOf y = some teamId ∧ s.statusOf y = some st' ∧
        st' ≠ .completed ∧ ∀ z ∈ s.blockersOf y, s.statusOf z = some .completed) ∧
    ∀ call, sample.machine.admits s call →
      ((sample.machine.fire s call).WellOrdered ↔ s.LeavesOrdered call) := by
  refine dependencies_stay_ordered (Machine.reachable_run
    (M := sample.machine.restrict LeavesOrdered) rfl
    ⟨⟨by decide, trivial⟩, ⟨by decide, trivial⟩, ⟨by decide, fun y hy => ?_⟩, trivial⟩)
  obtain rfl : y = "xx" := List.mem_singleton.mp hy
  exact ⟨by decide, not_reaches_of_blockersOf (by decide) (by decide)⟩

/-- A task is told to wait for itself and for a task that does not exist. -/
theorem update_takes_any_dependency :
    ∃ s, sample.machine.Reachable s ∧ s.Waits "x" "x" ∧ s.Waits "x" "y" ∧ s.teamOf "y" = none :=
  ⟨sample.machine.run .empty [createSample [], rewaitSample "x" ["x", "y"]],
    Machine.reachable_run rfl (by decide),
    show "x" ∈ _ by decide, show "y" ∈ _ by decide, by decide⟩

end TaskBoard

end AionCore.Team
