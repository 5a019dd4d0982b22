import AionCore.Team.TaskEdits

/-!
# Finished tasks and the tasks that wait for them

Completing a task frees the tasks that its own `blocks` names. `create_task` keeps that
list in step with `blocked_by`, but accepts a dependency that is completed already;
`update_task` replaces `blocked_by` and leaves `blocks` as it is.
-/

namespace AionCore.Team

namespace TaskTable

/-- Nobody waits for a completed task. -/
def Unblocked (s : TaskTable) : Prop :=
  ∀ x, ∀ y ∈ s.blockersOf x, s.statusOf y ≠ some .completed

/-- The status that a task has once the update of `taskId` is written. -/
def statusAfter (s : TaskTable) (taskId : String) (update : TaskUpdate) (y : String) :
    Option TaskStatus :=
  if y = taskId then (s.statusOf y).map update.status.getD else s.statusOf y

/-- The call names no completed task as a dependency, and the task that it completes knows
everybody who waits for it. -/
def LeavesUnblocked (s : TaskTable) : TaskCall → Prop
  | .createTask _ _ _ _ blockedBy _ => ∀ y ∈ blockedBy, s.statusOf y ≠ some .completed
  | .updateTask _ taskId update _ =>
    (∀ y ∈ update.blockedBy.getD [], s.statusAfter taskId update y ≠ some .completed) ∧
    (update.status = some .completed → ∀ x ∈ s.rows.keys, taskId ∈ s.blockersOf x →
      x ∈ s.blocksOf taskId ∨ x = taskId ∧ update.blockedBy.isSome)

instance (s : TaskTable) (call : TaskCall) : Decidable (s.LeavesUnblocked call) := by
  cases call <;> (simp only [LeavesUnblocked]; infer_instance)

def BlocksOthers (s : TaskTable) : Prop := ∀ x, x ∉ s.blocksOf x

variable {s s' : TaskTable} {taskId teamId : String} {blockedBy : List String}

theorem Created.blocksOthers (h : s.Created s' taskId teamId blockedBy) (hs : s.BlocksOthers) :
    s'.BlocksOthers := by
  intro x hx
  rcases (h.blocks x x).mp hx with hx | ⟨rfl, hdep⟩
  · exact hs x hx
  · -- a dependency exists before the new task does
    have hknown := h.known x hdep
    rw [h.fresh] at hknown
    cases hknown

variable {update : TaskUpdate}

theorem Updated.blocksOthers (h : s.Updated s' taskId teamId update) (hs : s.BlocksOthers) :
    s'.BlocksOthers := by
  intro x
  rw [h.blocks]
  exact hs x

/-- The new task is pending and waits for what it was given. -/
theorem Created.unblocked_iff (h : s.Created s' taskId teamId blockedBy) (hs : s.Unblocked) :
    s'.Unblocked ↔ ∀ y ∈ blockedBy, s.statusOf y ≠ some .completed := by
  have hne : ∀ y ∈ blockedBy, y ≠ taskId := by
    rintro y hy rfl
    have hknown := h.known y hy
    rw [h.fresh] at hknown
    cases hknown
  constructor
  · intro hafter y hy
    have hstatus := hafter taskId y (by rw [h.blockers, if_pos rfl]; exact hy)
    rwa [h.status, if_neg (hne y hy)] at hstatus
  · intro hdeps x y hy
    rw [h.status]
    split
    · simp
    · rw [h.blockers] at hy
      split at hy
      · exact hdeps y hy
      · exact hs x y hy

/-- Before the update nobody waits for a completed task; after it, somebody does only if
the update says so, or if it completes a task that somebody waits for unnoted. -/
theorem Updated.unblocked_iff {now : TimestampMs} (h : s.Updated s' taskId teamId update)
    (hs : s.Unblocked) (hothers : s.BlocksOthers) :
    s'.Unblocked ↔ s.LeavesUnblocked (.updateTask teamId taskId update now) := by
  have hself : ¬(update.status = some .completed ∧ taskId ∈ s.blocksOf taskId) :=
    fun hmem => hothers taskId hmem.2
  constructor
  · intro hafter
    constructor
    · intro y hy
      have hstatus := hafter taskId y (by
        rw [h.blockers]
        simp only [if_true, if_neg hself]
        cases hgiven : update.blockedBy with
        | none => simp [hgiven] at hy
        | some l => simpa [hgiven] using hy)
      rwa [h.status] at hstatus
    · intro hcompletes x hx hwaits
      by_contra hunknown
      rw [not_or, not_and] at hunknown
      obtain ⟨hblocks, hown⟩ := hunknown
      refine hafter x taskId ?_ ?_
      · rw [h.blockers, if_neg (fun hmem => hblocks hmem.2)]
        split
        · rename_i hxt
          have hnone : update.blockedBy = none :=
            Option.not_isSome_iff_eq_none.mp (hown hxt)
          rw [hnone]
          exact hwaits
        · exact hwaits
      · have hknown : s.statusOf taskId ≠ none := by
          have hteam := h.known
          rw [teamOf, Option.map_eq_some_iff] at hteam
          obtain ⟨t, ht, -⟩ := hteam
          rw [statusOf, ht]
          simp
        obtain ⟨st, hst⟩ := Option.ne_none_iff_exists'.mp hknown
        rw [h.status, if_pos rfl, hst, hcompletes]
        rfl
  · rintro ⟨hgiven, hnoted⟩ x y hy hcompleted
    rw [h.status] at hcompleted
    have hmem : y ∈ (if x = taskId then update.blockedBy.getD (s.blockersOf x)
        else s.blockersOf x) := by
      rw [h.blockers] at hy
      dsimp only at hy
      split at hy
      · exact (List.mem_filter.mp hy).1
      · exact hy
    by_cases hnew : x = taskId ∧ update.blockedBy.isSome
    · -- the update itself makes the task wait for `y`
      obtain ⟨l, hl⟩ := Option.isSome_iff_exists.mp hnew.2
      rw [if_pos hnew.1, hl, Option.getD_some] at hmem
      exact hgiven y (by rw [hl, Option.getD_some]; exact hmem) hcompleted
    · have hold : y ∈ s.blockersOf x := by
        split at hmem
        · rename_i hx
          have hnone : update.blockedBy = none :=
            Option.not_isSome_iff_eq_none.mp fun hsome => hnew ⟨hx, hsome⟩
          rwa [hnone, Option.getD_none] at hmem
        · exact hmem
      split at hcompleted
      · rename_i hyt
        subst hyt
        cases hst : update.status with
        | none =>
          obtain ⟨old, hstatus, hdone⟩ := Option.map_eq_some_iff.mp hcompleted
          rw [hst, Option.getD_none] at hdone
          exact hs x y hold (hdone ▸ hstatus)
        | some st =>
          obtain ⟨old, -, hdone⟩ := Option.map_eq_some_iff.mp hcompleted
          rw [hst, Option.getD_some] at hdone
          subst hdone
          rcases hnoted hst x (mem_keys_of_blockersOf hold) hold with hblocks | hown
          · -- the completed task has let `x` go
            rw [h.blockers, if_pos ⟨hst, hblocks⟩] at hy
            simp at hy
          · exact hnew hown
      · exact hs x y hold hcompleted

end TaskTable

namespace TaskBoard

open TaskTable

variable {board : TaskBoard}

theorem blocksOthers_of_reachable {s : TaskTable} (h : board.machine.Reachable s) :
    s.BlocksOthers := by
  refine h.invariant ?_ fun s call hs hcall => ?_
  · rintro _ rfl x
    simp [blocksOf, TaskTable.empty]
  · rcases edit_of_admits hcall with ⟨_, _, _, _, _, _, -, hcreated⟩ | ⟨_, _, _, _, -, hupdated⟩
    · exact hcreated.blocksOthers hs
    · exact hupdated.blocksOthers hs

/-- In every run of successful calls that name no completed task as a dependency and
complete no task that somebody waits for unnoted, nobody waits for a completed task. The
condition is exact. -/
theorem finished_tasks_block_nobody {s : TaskTable}
    (h : (board.machine.restrict LeavesUnblocked).Reachable s) :
    s.Unblocked ∧ ∀ call, board.machine.admits s call →
      ((board.machine.fire s call).Unblocked ↔ s.LeavesUnblocked call) := by
  refine h.exact ?_ fun s call hr hs hcall => ?_
  · rintro _ rfl x y hy
    simp [blockersOf, TaskTable.empty] at hy
  · rcases edit_of_admits hcall with ⟨_, _, _, _, _, _, rfl, hcreated⟩ | ⟨_, _, _, _, rfl, hupdated⟩
    · exact hcreated.unblocked_iff hs
    · exact hupdated.unblocked_iff hs (blocksOthers_of_reachable hr)

/-- A board whose tasks are `x`, `xx`, `xxx` and so on. -/
def sample : TaskBoard := ⟨.tally⟩

/-- A new task of the team `t`. -/
def createSample (blockedBy : List String) : TaskCall :=
  .createTask "t" "subject" none none blockedBy 0

/-- Complete a task of the team `t`. -/
def completeSample (taskId : String) : TaskCall :=
  .updateTask "t" taskId { TaskUpdate.empty with status := some .completed } 0

/-- The task `xx` waits for `x`, and `x` is completed. -/
theorem finished_tasks_block_nobody_sample :
    (sample.machine.run .empty
      [createSample [], createSample ["x"], completeSample "x"]).Unblocked ∧
    ∀ call, sample.machine.admits (sample.machine.run .empty
        [createSample [], createSample ["x"], completeSample "x"]) call →
      ((sample.machine.fire (sample.machine.run .empty
          [createSample [], createSample ["x"], completeSample "x"]) call).Unblocked ↔
        (sample.machine.run .empty
          [createSample [], createSample ["x"], completeSample "x"]).LeavesUnblocked call) :=
  finished_tasks_block_nobody
    (Machine.reachable_run (M := sample.machine.restrict LeavesUnblocked) rfl
      ⟨⟨by decide, by decide⟩, ⟨by decide, by decide⟩, ⟨by decide, by decide⟩, trivial⟩)

/-- A task that is created after its dependency was completed waits for it for ever. -/
theorem new_task_waits_for_finished_one :
    ∃ s, sample.machine.Reachable s ∧ "x" ∈ s.blockersOf "xx" ∧
      s.statusOf "x" = some .completed :=
  ⟨sample.machine.run .empty [createSample [], completeSample "x", createSample ["x"]],
    Machine.reachable_run rfl (by decide), by decide, by decide⟩

end TaskBoard

end AionCore.Team
