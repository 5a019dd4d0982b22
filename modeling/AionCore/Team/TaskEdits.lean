import AionCore.Team.TaskBoard

/-!
# What a successful call leaves on the task board

A task is seen through four questions: its team, its status, the tasks it waits for and
the tasks it is noted to block. One lemma for each call answers them for every task of
the table that the call leaves.
-/

namespace AionCore.Team

namespace TaskTable

def teamOf (s : TaskTable) (taskId : String) : Option String :=
  (s.rows.lookup taskId).map (·.teamId)

def statusOf (s : TaskTable) (taskId : String) : Option TaskStatus :=
  (s.rows.lookup taskId).map (·.status)

/-- The tasks that this one waits for. -/
def blockersOf (s : TaskTable) (taskId : String) : List String :=
  (s.rows.lookup taskId).elim [] (·.blockedBy)

def blocksOf (s : TaskTable) (taskId : String) : List String :=
  (s.rows.lookup taskId).elim [] (·.blocks)

variable {s s' : TaskTable} {taskId : String}

theorem teamOf_eq_none :
    s.teamOf taskId = none ↔ s.rows.lookup taskId = none := by
  rw [teamOf, Option.map_eq_none_iff]

theorem mem_keys_of_blockersOf {x y : String} (h : y ∈ s.blockersOf x) : x ∈ s.rows.keys := by
  rw [blockersOf] at h
  cases hx : s.rows.lookup x with
  | none => simp [hx] at h
  | some t => exact AList.lookup_isSome.mp (by rw [hx, Option.isSome_some])

theorem findTaskById_eq_some {teamId : String} {t : TeamTask} :
    s.findTaskById teamId taskId = some t ↔ s.rows.lookup taskId = some t ∧ t.teamId = teamId := by
  simp only [findTaskById, Option.filter_eq_some_iff, decide_eq_true_eq]

variable {f : TeamTask → TeamTask}

theorem editRow_eq_ok :
    s.editRow taskId f = .ok s' ↔
      (s.rows.lookup taskId).isSome ∧ s' = { s with rows := Dict.modify taskId f s.rows } := by
  rw [editRow]
  split
  · rename_i hrow
    rw [Except.ok.injEq]
    exact ⟨fun he => ⟨hrow, he.symm⟩, fun he => he.2.symm⟩
  · rename_i hrow
    constructor
    · intro he
      cases he
    · intro he
      exact absurd he.1 hrow

/-- A loop of the same edit over a list of rows, if it comes to its end. -/
theorem lookup_forEach (hf : ∀ t, f (f t) = f t) {ids : List String}
    (h : forEach (fun s id => s.editRow id f) s ids = (s', .ok ())) (k : String) :
    s'.rows.lookup k = if k ∈ ids then (s.rows.lookup k).map f else s.rows.lookup k := by
  induction ids generalizing s with
  | nil =>
    obtain rfl := (Prod.mk.inj h).1
    simp
  | cons id ids ih =>
    rw [forEach] at h
    cases he : s.editRow id f with
    | error e => simp [he] at h
    | ok s₁ =>
      obtain ⟨-, rfl⟩ := editRow_eq_ok.mp he
      simp only [he] at h
      rw [ih h, Dict.lookup_modify]
      by_cases hk : k = id
      · -- a row that is listed again is edited again, to no effect
        subst hk
        have hff : f ∘ f = f := funext hf
        simp [Option.map_map, hff]
      · simp [hk]

theorem addBlocked_idem (taskId : String) (now : TimestampMs) (t : TeamTask) :
    addBlocked taskId now (addBlocked taskId now t) = addBlocked taskId now t := by
  by_cases h : taskId ∈ t.blocks <;> simp [addBlocked, h]

theorem dropBlocker_idem (taskId : String) (now : TimestampMs) (t : TeamTask) :
    dropBlocker taskId now (dropBlocker taskId now t) = dropBlocker taskId now t := by
  simp [dropBlocker, List.filter_filter]

/-- What a successful `create_task` leaves, if the new task has this id. -/
structure Created (s s' : TaskTable) (taskId teamId : String) (blockedBy : List String) :
    Prop where
  fresh : s.teamOf taskId = none
  known : ∀ depId ∈ blockedBy, s.teamOf depId = some teamId
  team : ∀ k, s'.teamOf k = if k = taskId then some teamId else s.teamOf k
  status : ∀ k, s'.statusOf k = if k = taskId then some .pending else s.statusOf k
  blockers : ∀ k, s'.blockersOf k = if k = taskId then blockedBy else s.blockersOf k
  blocks : ∀ k x, x ∈ s'.blocksOf k ↔ x ∈ s.blocksOf k ∨ x = taskId ∧ k ∈ blockedBy

/-- What a successful `update_task` of a known task leaves. -/
structure Updated (s s' : TaskTable) (taskId teamId : String) (update : TaskUpdate) : Prop where
  known : s.teamOf taskId = some teamId
  team : ∀ k, s'.teamOf k = s.teamOf k
  status : ∀ k, s'.statusOf k =
    if k = taskId then (s.statusOf k).map update.status.getD else s.statusOf k
  blockers : ∀ k, s'.blockersOf k =
    let blockedBy := if k = taskId then update.blockedBy.getD (s.blockersOf k) else s.blockersOf k
    if update.status = some .completed ∧ k ∈ s.blocksOf taskId then blockedBy.filter (· ≠ taskId)
    else blockedBy
  blocks : ∀ k, s'.blocksOf k = s.blocksOf k

end TaskTable

namespace TaskBoard

open TaskTable

variable {board : TaskBoard} {s s' : TaskTable}

/-- A table with a new row, from which the loop over its dependencies starts. -/
theorem created_of_lookup (row : TeamTask) (now : TimestampMs)
    (hknown : ∀ depId ∈ row.blockedBy, s.teamOf depId = some row.teamId)
    (hfresh : s.rows.lookup row.id = none) (hstatus : row.status = .pending)
    (hblocks : row.blocks = [])
    (h : ∀ k, s'.rows.lookup k = if k = row.id then some row else
      (s.rows.lookup k).map fun t => if k ∈ row.blockedBy then addBlocked row.id now t else t) :
    s.Created s' row.id row.teamId row.blockedBy := by
  constructor
  case fresh => rw [teamOf, hfresh, Option.map_none]
  case known => exact hknown
  case team =>
    intro k
    rw [teamOf, h]
    split
    · rfl
    · rw [Option.map_map, teamOf]
      congr 1
      funext t
      simp only [Function.comp_apply]
      split <;> rfl
  case status =>
    intro k
    rw [statusOf, h]
    split
    · rw [Option.map_some, hstatus]
    · rw [Option.map_map, statusOf]
      congr 1
      funext t
      simp only [Function.comp_apply]
      split <;> rfl
  case blockers =>
    intro k
    rw [blockersOf, h]
    split
    · rfl
    · rw [blockersOf]
      cases s.rows.lookup k with
      | none => rfl
      | some t =>
        simp only [Option.map_some, Option.elim_some]
        split <;> rfl
  case blocks =>
    intro k x
    have hteam : k ∈ row.blockedBy → ∃ t, s.rows.lookup k = some t := by
      intro hk
      obtain ⟨t, ht, -⟩ := Option.map_eq_some_iff.mp (hknown k hk)
      exact ⟨t, ht⟩
    by_cases hk : k = row.id
    · subst hk
      have hnot : row.id ∉ row.blockedBy := fun hmem => by
        obtain ⟨t, ht⟩ := hteam hmem
        simp [hfresh] at ht
      simp [blocksOf, h, hfresh, hblocks, hnot]
    · by_cases hdep : k ∈ row.blockedBy
      · obtain ⟨t, ht⟩ := hteam hdep
        by_cases hmem : row.id ∈ t.blocks <;>
          simp [blocksOf, h, hk, ht, hdep, addBlocked, hmem]
        rintro rfl
        exact hmem
      · simp [blocksOf, h, hk, hdep]

variable {now : TimestampMs} {task : TeamTask}

theorem created_of_createTask {teamId subject : String} {description owner : Option String}
    {blockedBy : List String}
    (h : board.createTask s teamId subject description owner blockedBy now = (s', .ok task)) :
    s.Created s' (board.generateId.draw s.generated) teamId blockedBy := by
  rw [createTask] at h
  split at h
  · simp at h
  rename_i hfind
  have hknown : ∀ depId ∈ blockedBy, s.teamOf depId = some teamId := by
    intro depId hdep
    have hsome := List.find?_eq_none.mp hfind depId hdep
    rw [Option.isNone_iff_eq_none, ← ne_eq, Option.ne_none_iff_exists'] at hsome
    obtain ⟨t, ht⟩ := hsome
    obtain ⟨hlookup, hteam⟩ := findTaskById_eq_some.mp ht
    rw [teamOf, hlookup, Option.map_some, hteam]
  simp only [TaskTable.createTask] at h
  split at h
  · simp at h
  rename_i hinsert
  split at hinsert
  · simp at hinsert
  rename_i hnew
  obtain rfl := Except.ok.inj hinsert
  have hfresh := Option.not_isSome_iff_eq_none.mp hnew
  split at h
  · simp at h
  rename_i hloop
  obtain rfl := (Prod.mk.inj h).1
  have hlookup := lookup_forEach (addBlocked_idem _ now) hloop
  refine created_of_lookup (board.newTask s teamId subject description owner blockedBy now) now
    hknown hfresh rfl rfl fun k => ?_
  rw [hlookup, Dict.lookup_insert']
  have hblocked : (board.newTask s teamId subject description owner blockedBy now).blockedBy =
    blockedBy := rfl
  by_cases hk : k = (board.newTask s teamId subject description owner blockedBy now).id
  · -- the new task is not among its own dependencies
    have hnot : k ∉ blockedBy := fun hmem => by
      have hteam := hknown k hmem
      rw [hk, teamOf, hfresh] at hteam
      cases hteam
    rw [if_neg hnot, if_pos hk, if_pos hk]
  · rw [if_neg hk, if_neg hk, hblocked]
    by_cases hdep : k ∈ blockedBy
    · simp only [hdep, if_true]
    · simp only [hdep, if_false, Option.map_id']

variable {taskId : String} {update : TaskUpdate}

/-- What the repository's `update_task` leaves of a row that is there. -/
theorem updated_row (h : s.updateTask taskId update now = .ok s') (k : String) :
    s'.teamOf k = s.teamOf k ∧ s'.blocksOf k = s.blocksOf k ∧
    s'.statusOf k = (if k = taskId then (s.statusOf k).map update.status.getD else s.statusOf k) ∧
    (s.teamOf taskId ≠ none → s'.blockersOf k =
      if k = taskId then update.blockedBy.getD (s.blockersOf k) else s.blockersOf k) := by
  rw [TaskTable.updateTask] at h
  split at h
  · -- no field is set, no statement is executed
    rename_i hempty
    obtain rfl := Except.ok.inj h
    rw [hempty]
    refine ⟨rfl, rfl, ?_, fun _ => ?_⟩
    · cases s.statusOf k <;> simp [TaskUpdate.empty]
    · simp [TaskUpdate.empty]
  · obtain ⟨-, rfl⟩ := editRow_eq_ok.mp h
    by_cases hk : k = taskId
    · subst hk
      refine ⟨?_, ?_, ?_, fun hknown => ?_⟩
      · simp only [teamOf, Dict.lookup_modify, if_true, Option.map_map]
        rfl
      · simp only [blocksOf, Dict.lookup_modify, if_true]
        cases s.rows.lookup k <;> rfl
      · simp only [statusOf, Dict.lookup_modify, if_true, Option.map_map]
        rfl
      · obtain ⟨t, ht⟩ := Option.ne_none_iff_exists'.mp (mt teamOf_eq_none.mpr hknown)
        simp only [blockersOf, Dict.lookup_modify, if_true, ht, Option.map_some, Option.elim_some,
          applyUpdate]
    · simp [teamOf, blocksOf, statusOf, blockersOf, hk]

/-- What `check_unblocks` leaves of a row. -/
theorem unblocked_row {completed : TeamTask}
    (h : checkUnblocks s taskId completed now = (s', .ok ())) (k : String) :
    s'.teamOf k = s.teamOf k ∧ s'.blocksOf k = s.blocksOf k ∧ s'.statusOf k = s.statusOf k ∧
    s'.blockersOf k = if k ∈ completed.blocks then (s.blockersOf k).filter (· ≠ taskId)
      else s.blockersOf k := by
  have hlookup := lookup_forEach (dropBlocker_idem taskId now) h k
  by_cases hk : k ∈ completed.blocks
  · rw [if_pos hk] at hlookup
    simp only [teamOf, blocksOf, statusOf, blockersOf, hlookup, hk, if_true]
    cases s.rows.lookup k with
    | none => exact ⟨rfl, rfl, rfl, rfl⟩
    | some t => exact ⟨rfl, rfl, rfl, rfl⟩
  · rw [if_neg hk] at hlookup
    simp only [teamOf, blocksOf, statusOf, blockersOf, hlookup, hk, if_false, and_self]

theorem updated_of_updateTask {teamId : String}
    (h : updateTask s teamId taskId update now = (s', .ok task)) :
    s.Updated s' taskId teamId update := by
  rw [updateTask] at h
  split at h
  · simp at h
  rename_i existing hfound
  obtain ⟨hlookup, hteam⟩ := findTaskById_eq_some.mp hfound
  have hknown : s.teamOf taskId = some teamId := by rw [teamOf, hlookup, Option.map_some, hteam]
  have hblocks : s.blocksOf taskId = existing.blocks := by rw [blocksOf, hlookup, Option.elim_some]
  split at h
  · simp at h
  rename_i s₁ hupdate
  have hrow := fun k => updated_row hupdate k
  have hsome : s.teamOf taskId ≠ none := by
    rw [hknown]
    exact Option.some_ne_none teamId
  split at h
  · simp at h
  rename_i s₂ hloop
  -- the last read does not change the table
  have hs : s₂ = s' := by
    split at h
    · simp at h
    · exact (Prod.mk.inj h).1
  subst hs
  split at hloop
  · rename_i hcompleted
    have hdone := fun k => unblocked_row hloop k
    constructor
    case known => exact hknown
    case team => exact fun k => (hdone k).1.trans (hrow k).1
    case blocks => exact fun k => (hdone k).2.1.trans (hrow k).2.1
    case status => exact fun k => (hdone k).2.2.1.trans (hrow k).2.2.1
    case blockers =>
      intro k
      simp only [(hdone k).2.2.2, (hrow k).2.2.2 hsome, hblocks, hcompleted, true_and]
  · rename_i hopen
    obtain rfl := (Prod.mk.inj hloop).1
    constructor
    case known => exact hknown
    case team => exact fun k => (hrow k).1
    case blocks => exact fun k => (hrow k).2.1
    case status => exact fun k => (hrow k).2.2.1
    case blockers =>
      intro k
      simp only [(hrow k).2.2.2 hsome, hopen, false_and, if_false]

/-- A successful call is one of the two edits. -/
theorem edit_of_admits {call : TaskCall} (h : board.machine.admits s call) :
    (∃ teamId subject description owner blockedBy now,
      call = .createTask teamId subject description owner blockedBy now ∧
      s.Created (board.machine.fire s call) (board.generateId.draw s.generated) teamId blockedBy) ∨
    ∃ teamId taskId update now, call = .updateTask teamId taskId update now ∧
      s.Updated (board.machine.fire s call) taskId teamId update := by
  change (board.exec s call).2.isOk at h
  have hfire : board.machine.fire s call = (board.exec s call).1 := rfl
  rw [hfire]
  cases hexec : board.exec s call with
  | mk s' result =>
    cases result with
    | error e => simp [hexec, Except.isOk, Except.toBool] at h
    | ok task =>
      cases call with
      | createTask teamId subject description owner blockedBy now =>
        refine .inl ⟨teamId, subject, description, owner, blockedBy, now, rfl, ?_⟩
        exact created_of_createTask hexec
      | updateTask teamId taskId update now =>
        exact .inr ⟨teamId, taskId, update, now, rfl, updated_of_updateTask hexec⟩

end TaskBoard

end AionCore.Team
