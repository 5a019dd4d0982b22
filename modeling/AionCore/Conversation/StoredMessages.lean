import AionCore.Lib.Table
import AionCore.Conversation.StreamRelay

/-!
# Conversations: the table of messages

Rows of `messages`, of all conversations, and the statements of `SqliteConversationRepository` that
write them one at a time. The primary key is the id alone. A statement that fails leaves the table
as it is.
-/

namespace AionCore.Conversation

/-- The column `type`. -/
inductive MessageType where
  | toolCall
  | acpToolCall
  | toolGroup
  | cronTrigger
  | skillSuggest
  | other (name : String)
  deriving DecidableEq

/-- The column `status`. -/
inductive StoredStatus where
  | work
  | pending
  | finish
  | error
  deriving DecidableEq

structure StoredMessage where
  id : String
  conversationId : String
  msgId : Option String
  type : MessageType
  content : String
  position : Option String
  status : Option StoredStatus
  hidden : Bool
  createdAt : ℤ
  deriving DecidableEq

/-- The JSON functions of SQLite on texts; `none` is an error. -/
structure SqliteJson where
  /-- `json_patch(old, new)`. -/
  patch : String → String → Option String
  /-- `json_set(new, path, json_extract(old, path))`, of the path, of `old` and of `new`. -/
  keep : String → String → String → Option String

abbrev StoredMessages := List StoredMessage

namespace StoredMessages

variable (rows : StoredMessages)

def byId (id : String) : Option StoredMessage := Table.find StoredMessage.id rows id

/-- `insert_message`. -/
def insertMessage (row : StoredMessage) : Option StoredMessages :=
  match byId rows row.id with
  | some _ => none
  | none => some (rows ++ [row])

/-- `update_message`, of the content and the status. -/
def updateMessage (id content : String) (status : Option StoredStatus) : Option StoredMessages :=
  match byId rows id with
  | none => none
  | some row =>
    some (Table.modify StoredMessage.id rows id fun _ => { row with content, status })

/-- `get_message_by_msg_id`, whether there is such a row. -/
def hasMsgId (conversationId msgId : String) (type : MessageType) : Bool :=
  rows.any fun row => row.conversationId = conversationId ∧ row.msgId = some msgId ∧ row.type = type

variable {rows} {row old : StoredMessage} {id content : String} {status : Option StoredStatus}

theorem insertMessage_free (h : byId rows row.id = none) :
    insertMessage rows row = some (rows ++ [row]) := by
  unfold insertMessage
  rw [h]

theorem insertMessage_taken (h : byId rows row.id = some old) : insertMessage rows row = none := by
  unfold insertMessage
  rw [h]

theorem updateMessage_free (h : byId rows id = none) :
    updateMessage rows id content status = none := by
  unfold updateMessage
  rw [h]

theorem updateMessage_taken (h : byId rows id = some old) :
    updateMessage rows id content status =
      some (Table.modify StoredMessage.id rows id fun _ => { old with content, status }) := by
  unfold updateMessage
  rw [h]

end StoredMessages

namespace StoredMessage

variable (json : SqliteJson) (row excluded : StoredMessage)

def Late : Prop :=
  (row.status = some .finish ∨ row.status = some .error) ∧ excluded.status = some .work

instance : Decidable (row.Late excluded) := by unfold Late; infer_instance

def statusPath : String := if row.type = .acpToolCall then "$.update.status" else "$.status"

def mergedContent : Option String :=
  (json.patch row.content excluded.content).bind fun patched =>
    if row.Late excluded then json.keep row.statusPath row.content patched else some patched

/-- What `upsert_message` leaves of a row whose id is taken: its conversation and its type stay. -/
def merged : Option StoredMessage :=
  (row.mergedContent json excluded).map fun content =>
    { row with
      content
      status := if row.Late excluded then row.status else excluded.status
      position := row.position.or excluded.position
      hidden := excluded.hidden
      createdAt := min row.createdAt excluded.createdAt }

/-- `upsert_message`. -/
def upsert (rows : StoredMessages) : Option StoredMessages :=
  match rows.byId excluded.id with
  | none => some (rows ++ [excluded])
  | some row =>
    (row.merged json excluded).map fun new =>
      Table.modify StoredMessage.id rows excluded.id fun _ => new

variable {json row excluded} {new : StoredMessage} {rows : StoredMessages}

theorem upsert_free (h : rows.byId excluded.id = none) :
    excluded.upsert json rows = some (rows ++ [excluded]) := by
  unfold upsert
  rw [h]

theorem upsert_taken (h : rows.byId excluded.id = some row) :
    excluded.upsert json rows = (row.merged json excluded).map fun new =>
      Table.modify StoredMessage.id rows excluded.id fun _ => new := by
  unfold upsert
  rw [h]

theorem merged_eq_some (h : row.merged json excluded = some new) :
    new.id = row.id ∧ new.conversationId = row.conversationId ∧ new.type = row.type ∧
      row.mergedContent json excluded = some new.content := by
  obtain ⟨content, hcontent, rfl⟩ := Option.map_eq_some_iff.mp h
  exact ⟨rfl, rfl, rfl, hcontent⟩

end StoredMessage

end AionCore.Conversation
