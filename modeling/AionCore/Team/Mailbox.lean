import AionCore.Team.WorkReconcile

/-!
# The team mailbox and its delivery to slots

The mailbox store (`mailbox.rs`) and how a session delivers from it. A sender acquires a
lease, writes its message and commits it; `prepare_next_batch` peeks at the unread
messages of its slot, reconciles the coordinator with the list it has seen and asks for
the next batch, with other senders in between.
-/

namespace AionCore.Team

/-- A row of the mailbox table. -/
structure MailboxMessageRow where
  id : String
  teamId : String
  toAgentId : String
  fromAgentId : String
  read : Bool
  createdAt : TimestampMs
  deriving DecidableEq

namespace Mailbox

def writeMessage (rows : List MailboxMessageRow) (row : MailboxMessageRow) :
    List MailboxMessageRow :=
  rows ++ [row]

def peekUnread (rows : List MailboxMessageRow) (teamId toAgentId : String) :
    List MailboxMessageRow :=
  (rows.filter fun row => row.teamId = teamId ∧ row.toAgentId = toAgentId ∧ !row.read).insertionSort
    fun a b => a.createdAt ≤ b.createdAt

def markReadBatch (rows : List MailboxMessageRow) (ids : List String) : List MailboxMessageRow :=
  rows.map fun row => if row.id ∈ ids then { row with read := true } else row

def Read (rows : List MailboxMessageRow) (messageId : String) : Prop :=
  ∃ row ∈ rows, row.id = messageId ∧ row.read

instance (rows : List MailboxMessageRow) (messageId : String) : Decidable (Read rows messageId) :=
  inferInstanceAs (Decidable (∃ row ∈ rows, row.id = messageId ∧ row.read))

def Grows (rows rows' : List MailboxMessageRow) : Prop :=
  ∀ (n : ℕ) (row : MailboxMessageRow), rows[n]? = some row →
    ∃ read : Bool, rows'[n]? = some { row with read := read } ∧ (row.read → read)

variable {rows rows' : List MailboxMessageRow}

theorem grows_writeMessage (rows : List MailboxMessageRow) (row : MailboxMessageRow) :
    Grows rows (writeMessage rows row) := by
  intro n row' h
  refine ⟨row'.read, ?_, id⟩
  rw [writeMessage, List.getElem?_append_left (List.getElem?_eq_some_iff.mp h).1, h]

theorem getElem?_markReadBatch (rows : List MailboxMessageRow) (ids : List String) (n : ℕ) :
    (markReadBatch rows ids)[n]? =
      rows[n]?.map fun row => if row.id ∈ ids then { row with read := true } else row :=
  List.getElem?_map

theorem grows_markReadBatch (rows : List MailboxMessageRow) (ids : List String) :
    Grows rows (markReadBatch rows ids) := by
  intro n row h
  rw [getElem?_markReadBatch, h, Option.map_some]
  split
  · exact ⟨true, rfl, fun _ => rfl⟩
  · exact ⟨row.read, rfl, id⟩

variable {row : MailboxMessageRow}

theorem Grows.exists_mem (h : Grows rows rows') (hrow : row ∈ rows) :
    ∃ read : Bool, { row with read := read } ∈ rows' ∧ (row.read → read) := by
  obtain ⟨n, hn⟩ := List.mem_iff_getElem?.mp hrow
  obtain ⟨read, hread, himp⟩ := h n row hn
  exact ⟨read, List.mem_iff_getElem?.mpr ⟨n, hread⟩, himp⟩

theorem Read.grows {m : String} (h : Read rows m) (hg : Grows rows rows') : Read rows' m := by
  obtain ⟨row, hrow, hid, hread⟩ := h
  obtain ⟨read, hmem, himp⟩ := hg.exists_mem hrow
  exact ⟨_, hmem, hid, himp hread⟩

theorem mem_peekUnread {teamId toAgentId : String} :
    row ∈ peekUnread rows teamId toAgentId ↔
      row ∈ rows ∧ row.teamId = teamId ∧ row.toAgentId = toAgentId ∧ row.read = false := by
  simp [peekUnread]

end Mailbox

/-- The list of unread messages that a run of `prepare_next_batch` has seen; `seen` counts
the messages that had been written by then. -/
structure Peek where
  slotId : String
  unreadIds : List String
  seen : ℕ

/-- A message as it was committed. -/
structure CommittedMessage where
  messageId : String
  intentId : String
  slotId : String
  priority : WorkPriority
  teamRunId : Option String
  deriving DecidableEq

/-- Coordinator, mailbox, the peeks that have yet to be reconciled, and the messages that
have been committed. -/
structure Delivery where
  work : Tracked
  rows : List MailboxMessageRow
  peeks : List Peek
  committed : List CommittedMessage

def Delivery.empty : Delivery := ⟨.empty, [], [], []⟩

/-- A step of a sender, of `prepare_next_batch`, or of whoever marks messages as read;
`operate` is a call of the coordinator. -/
inductive DeliveryStep where
  | write (toAgentId fromAgentId : String) (now : TimestampMs)
  | markRead (messageIds : List String)
  | peek (slotId : String)
  | reconcile (k : ℕ) (role : TeamRunTargetRole) (now : TimestampMs)
  | operate (call : Call)

def Op.message? : Op → Option (String × String)
  | .commitEnqueue lease (some messageId) _ => some (lease.slotId, messageId)
  | _ => none

def committedBy (op : Op) (reply : Reply) : List CommittedMessage :=
  match op, reply with
  | .commitEnqueue lease (some messageId) _, .commit (.ok result) =>
    [⟨messageId, result.intentId, lease.slotId, lease.source.priority, lease.teamRunId⟩]
  | _, _ => []

/-- The coordinator and the mailbox of a team. -/
structure TeamMail where
  coordinator : SlotWorkCoordinator
  teamId : String
  generateId : Supply String

namespace TeamMail

variable (t : TeamMail)

/-- The ids that `prepare_next_batch` takes from the mailbox. -/
def unreadIds (rows : List MailboxMessageRow) (slotId : String) : List String :=
  ((Mailbox.peekUnread rows t.teamId slotId).filter (·.fromAgentId ≠ slotId)).map (·.id)

def reconcileCall (p : Peek) (role : TeamRunTargetRole) (now : TimestampMs) : Call :=
  ⟨.reconcileMailbox p.slotId p.unreadIds role now, fun _ => ⟨none, false, false⟩⟩

/-- The row that `write_with_files` inserts. -/
def newRow (rows : List MailboxMessageRow) (toAgentId fromAgentId : String) (now : TimestampMs) :
    MailboxMessageRow where
  id := t.generateId.draw rows.length
  teamId := t.teamId
  toAgentId := toAgentId
  fromAgentId := fromAgentId
  read := false
  createdAt := now

def fire (d : Delivery) : DeliveryStep → Delivery
  | .write toAgentId fromAgentId now =>
    { d with rows := Mailbox.writeMessage d.rows (t.newRow d.rows toAgentId fromAgentId now) }
  | .markRead messageIds => { d with rows := Mailbox.markReadBatch d.rows messageIds }
  | .peek slotId =>
    { d with peeks := d.peeks ++ [⟨slotId, t.unreadIds d.rows slotId, d.rows.length⟩] }
  | .reconcile k role now =>
    match d.peeks[k]? with
    | none => d
    | some p =>
      { d with
        work := t.coordinator.fire d.work (reconcileCall p role now)
        peeks := d.peeks.eraseIdx k }
  | .operate call =>
    { d with
      work := t.coordinator.fire d.work call
      committed := d.committed ++
        committedBy call.op (t.coordinator.exec call.bindEnqueue d.work.state call.op).result }

/-- Any number of senders and of runs of `prepare_next_batch`. A sender commits a message
that has been written for its slot. -/
def machine : Machine Delivery DeliveryStep where
  start d := d = .empty
  admits d
    | .write _ _ _ | .markRead _ | .peek _ => True
    | .reconcile k _ _ => k < d.peeks.length
    | .operate call =>
      call.op.endsIntents = false ∧ (∀ batch ∈ call.op.batch?, batch ∈ d.work.handed) ∧
        ∀ target ∈ call.op.message?, ∃ row ∈ d.rows, row.id = target.2 ∧
          row.teamId = t.teamId ∧ row.toAgentId = target.1
  fire := t.fire

instance (d : Delivery) : ∀ step, Decidable (t.machine.admits d step)
  | .write _ _ _ | .markRead _ | .peek _ => inferInstanceAs (Decidable True)
  | .reconcile k _ _ => inferInstanceAs (Decidable (k < d.peeks.length))
  | .operate call => inferInstanceAs (Decidable (call.op.endsIntents = false ∧
      (∀ batch ∈ call.op.batch?, batch ∈ d.work.handed) ∧
      ∀ target ∈ call.op.message?, ∃ row ∈ d.rows, row.id = target.2 ∧
        row.teamId = t.teamId ∧ row.toAgentId = target.1))

end TeamMail

end AionCore.Team
