import AionCore.Lib.Machine
import AionCore.Team.WorkModel

/-!
# The task board

`TaskBoard` of `task_board.rs` over the `team_tasks` table of `sqlite_team.rs`. A row
and the `TeamTask` read from it are one structure: the text of `status` is what its
`Display` prints, the JSON of `blocked_by` and `blocks` encodes a list of ids. The clock
does not move during a call.
-/

namespace AionCore.Team

inductive TaskStatus where
  | pending
  | inProgress
  | completed
  | deleted
  deriving DecidableEq

structure TeamTask where
  id : String
  teamId : String
  subject : String
  description : Option String
  status : TaskStatus
  owner : Option String
  blockedBy : List String
  blocks : List String
  metadata : Option String
  createdAt : TimestampMs
  updatedAt : TimestampMs

/-- Optional fields for task update. -/
structure TaskUpdate where
  status : Option TaskStatus
  description : Option String
  owner : Option String
  blockedBy : Option (List String)
  metadata : Option String
  deriving DecidableEq

/-- `TaskUpdate::default()`. -/
def TaskUpdate.empty : TaskUpdate := ⟨none, none, none, none, none⟩

/-- The `team_tasks` table, keyed by its primary key; `generated` counts the identifiers
that `generate_id` has handed out to the board. -/
structure TaskTable where
  rows : Dict String TeamTask
  generated : ℕ

namespace TaskTable

def empty : TaskTable := ⟨∅, 0⟩

/-- The repository's `create_task`. -/
def createTask (s : TaskTable) (row : TeamTask) : Except TeamError TaskTable :=
  if (s.rows.lookup row.id).isSome then
    .error (.database (.query "UNIQUE constraint failed: team_tasks.id"))
  else .ok { s with rows := s.rows.insert row.id row }

def findTaskById (s : TaskTable) (teamId taskId : String) : Option TeamTask :=
  (s.rows.lookup taskId).filter (·.teamId = teamId)

def editRow (s : TaskTable) (taskId : String) (f : TeamTask → TeamTask) :
    Except TeamError TaskTable :=
  if (s.rows.lookup taskId).isSome then .ok { s with rows := Dict.modify taskId f s.rows }
  else .error (.database (.notFound ("task " ++ taskId)))

def applyUpdate (update : TaskUpdate) (now : TimestampMs) (row : TeamTask) : TeamTask :=
  { row with
    status := update.status.getD row.status
    description := update.description.or row.description
    owner := update.owner.or row.owner
    blockedBy := update.blockedBy.getD row.blockedBy
    metadata := update.metadata.or row.metadata
    updatedAt := now }

/-- The repository's `update_task`. -/
def updateTask (s : TaskTable) (taskId : String) (update : TaskUpdate) (now : TimestampMs) :
    Except TeamError TaskTable :=
  -- without a field to set no statement is executed
  if update = .empty then .ok s else s.editRow taskId (applyUpdate update now)

def addBlocked (blockedTaskId : String) (now : TimestampMs) (row : TeamTask) : TeamTask :=
  { row with
    blocks := if blockedTaskId ∈ row.blocks then row.blocks else row.blocks ++ [blockedTaskId]
    updatedAt := now }

def appendToBlocks (s : TaskTable) (taskId blockedTaskId : String) (now : TimestampMs) :
    Except TeamError TaskTable :=
  s.editRow taskId (addBlocked blockedTaskId now)

def dropBlocker (unblockedTaskId : String) (now : TimestampMs) (row : TeamTask) : TeamTask :=
  { row with blockedBy := row.blockedBy.filter (· ≠ unblockedTaskId), updatedAt := now }

def removeFromBlockedBy (s : TaskTable) (taskId unblockedTaskId : String) (now : TimestampMs) :
    Except TeamError TaskTable :=
  s.editRow taskId (dropBlocker unblockedTaskId now)

/-- `for id in ids { f(id).await?; }`: what has been written before a failure stays. -/
def forEach (f : TaskTable → String → Except TeamError TaskTable) :
    TaskTable → List String → TaskTable × Except TeamError Unit
  | s, [] => (s, .ok ())
  | s, id :: ids =>
    match f s id with
    | .error e => (s, .error e)
    | .ok s => forEach f s ids

end TaskTable

/-- `TaskBoard`: its source of identifiers. -/
structure TaskBoard where
  generateId : Supply String

namespace TaskBoard

variable (board : TaskBoard)

/-- The row that `create_task` inserts. -/
def newTask (s : TaskTable) (teamId subject : String) (description owner : Option String)
    (blockedBy : List String) (now : TimestampMs) : TeamTask where
  id := board.generateId.draw s.generated
  teamId := teamId
  subject := subject
  description := description
  status := .pending
  owner := owner
  blockedBy := blockedBy
  blocks := []
  metadata := none
  createdAt := now
  updatedAt := now

def createTask (s : TaskTable) (teamId subject : String) (description owner : Option String)
    (blockedBy : List String) (now : TimestampMs) : TaskTable × Except TeamError TeamTask :=
  match blockedBy.find? fun depId => (s.findTaskById teamId depId).isNone with
  | some depId => (s, .error (.blockedTaskNotFound depId))
  | none =>
    let row := board.newTask s teamId subject description owner blockedBy now
    let s := { s with generated := s.generated + 1 }
    match s.createTask row with
    | .error e => (s, .error e)
    | .ok s =>
      match TaskTable.forEach (fun s depId => s.appendToBlocks depId row.id now) s blockedBy with
      | (s, .error e) => (s, .error e)
      -- the answer is built from the row as it was inserted
      | (s, .ok ()) => (s, .ok row)

/-- `check_unblocks`; `completedRow` is the row as it was before the update. -/
def checkUnblocks (s : TaskTable) (completedTaskId : String) (completedRow : TeamTask)
    (now : TimestampMs) : TaskTable × Except TeamError Unit :=
  TaskTable.forEach (fun s downstreamId => s.removeFromBlockedBy downstreamId completedTaskId now)
    s completedRow.blocks

def updateTask (s : TaskTable) (teamId taskId : String) (update : TaskUpdate)
    (now : TimestampMs) : TaskTable × Except TeamError TeamTask :=
  match s.findTaskById teamId taskId with
  | none => (s, .error (.taskNotFound taskId))
  | some existing =>
    match s.updateTask taskId update now with
    | .error e => (s, .error e)
    | .ok s =>
      match (if update.status = some .completed then checkUnblocks s taskId existing now
        else (s, .ok ())) with
      | (s, .error e) => (s, .error e)
      | (s, .ok ()) =>
        match s.findTaskById teamId taskId with
        | none => (s, .error (.taskNotFound taskId))
        | some updated => (s, .ok updated)

end TaskBoard

/-- A call of one of the board's operations. -/
inductive TaskCall where
  | createTask (teamId subject : String) (description owner : Option String)
      (blockedBy : List String) (now : TimestampMs)
  | updateTask (teamId taskId : String) (update : TaskUpdate) (now : TimestampMs)

namespace TaskBoard

variable (board : TaskBoard)

def exec (s : TaskTable) : TaskCall → TaskTable × Except TeamError TeamTask
  | .createTask teamId subject description owner blockedBy now =>
    board.createTask s teamId subject description owner blockedBy now
  | .updateTask teamId taskId update now => updateTask s teamId taskId update now

/-- The board under any sequence of calls that succeed. -/
def machine : Machine TaskTable TaskCall where
  start s := s = .empty
  admits s call := (board.exec s call).2.isOk
  fire s call := (board.exec s call).1

instance (s : TaskTable) (call : TaskCall) : Decidable (board.machine.admits s call) :=
  inferInstanceAs (Decidable ((board.exec s call).2.isOk))

end TaskBoard

end AionCore.Team
