import AionCore.Conversation.StoredMessages
import AionCore.Lib.Keyset
import Mathlib.Data.Prod.Lex
import Mathlib.Data.String.Basic

/-!
# Conversations: pages of messages

`list_messages_page` of `SqliteConversationRepository`, the cursors of `message_cursor.rs` and
`list_messages` of the service. Base64 and the JSON reader are parameters. The texts of SQLite and
of Rust are both ordered by their bytes, which is the order of `String` here.
-/

namespace AionCore.Conversation

open Keyset

structure MessagePageCursor where
  createdAt : ℤ
  id : String
  deriving DecidableEq

/-- The key by which the pages are ordered. -/
def MessagePageCursor.key (cursor : MessagePageCursor) : ℤ ×ₗ String :=
  toLex (cursor.createdAt, cursor.id)

/-- `MessagePageCursor::from`. -/
def StoredMessage.cursor (row : StoredMessage) : MessagePageCursor := ⟨row.createdAt, row.id⟩

abbrev StoredMessage.key (row : StoredMessage) : ℤ ×ₗ String := row.cursor.key

def MessageType.isHidden : MessageType → Bool
  | .cronTrigger | .skillSuggest => true
  | _ => false

inductive MessagePageDirection where
  | initialLatest
  | before (cursor : MessagePageCursor)
  | after (cursor : MessagePageCursor)
  | anchor (messageId : String)

structure MessagePageResult where
  items : List StoredMessage
  hasMoreBefore : Bool
  hasMoreAfter : Bool

namespace StoredMessages

variable (rows : StoredMessages) (convId : String) (cursor : MessagePageCursor)

/-- The rows that the queries select from. -/
def visible : StoredMessages := rows.filter fun row => row.conversationId = convId ∧ !row.type.isHidden

/-- `created_at < ? OR (created_at = ? AND id < ?)`. -/
def precedes (row : StoredMessage) : Bool :=
  row.createdAt < cursor.createdAt ∨ (row.createdAt = cursor.createdAt ∧ row.id < cursor.id)

/-- `created_at > ? OR (created_at = ? AND id > ?)`. -/
def follows (row : StoredMessage) : Bool :=
  cursor.createdAt < row.createdAt ∨ (row.createdAt = cursor.createdAt ∧ cursor.id < row.id)

def visibleMessageExistsBefore : Bool := (visible rows convId).any (precedes cursor)

def visibleMessageExistsAfter : Bool := (visible rows convId).any (follows cursor)

def pageWithFlags (items : List StoredMessage) : MessagePageResult :=
  match items.head?, items.getLast? with
  | some first, some last =>
    ⟨items, visibleMessageExistsBefore rows convId first.cursor,
      visibleMessageExistsAfter rows convId last.cursor⟩
  | _, _ => ⟨items, false, false⟩

def anchorTakes (limit before after : ℕ) : ℕ × ℕ :=
  let beforeTarget := (limit - 1) / 2
  let afterTarget := limit - (1 + beforeTarget)
  let beforeTake := min before beforeTarget
  let afterTake := min after afterTarget
  let remaining := limit - (1 + beforeTake + afterTake)
  let extraAfter := min (after - afterTake) remaining
  let extraBefore := min (before - beforeTake) (remaining - extraAfter)
  (beforeTake + extraBefore, afterTake + extraAfter)

def anchorRows (limit : ℕ) (anchor : StoredMessage) : List StoredMessage :=
  let before :=
    ((descending StoredMessage.key
      ((visible rows convId).filter (precedes anchor.cursor))).take limit).reverse
  let after :=
    (ascending StoredMessage.key ((visible rows convId).filter (follows anchor.cursor))).take limit
  let takes := anchorTakes limit before.length after.length
  before.drop (before.length - takes.1) ++ anchor :: after.take takes.2

def messageNotFound (messageId : String) : String := "Message '" ++ messageId ++ "' not found"

/-- The rows of a page; the error is that of a row that is not found. -/
def pageRows (limit : ℕ) : MessagePageDirection → Except String (List StoredMessage)
  | .initialLatest =>
    .ok (((descending StoredMessage.key (visible rows convId)).take (limit + 1)).take limit).reverse
  | .before cursor =>
    .ok (((descending StoredMessage.key
      ((visible rows convId).filter (precedes cursor))).take (limit + 1)).take limit).reverse
  | .after cursor =>
    .ok ((ascending StoredMessage.key
      ((visible rows convId).filter (follows cursor))).take (limit + 1) |>.take limit)
  | .anchor messageId =>
    match (visible rows convId).find? fun row => row.id = messageId with
    | none => .error (messageNotFound messageId)
    | some anchor => .ok (anchorRows rows convId limit anchor)

def listMessagesPage (limit : ℕ) (direction : MessagePageDirection) :
    Except String MessagePageResult :=
  (pageRows rows convId (max limit 1) direction).map fun items =>
    pageWithFlags rows convId (ascending StoredMessage.key items)

end StoredMessages

section Cursor

/-- What the cursors use of base64 and of the JSON reader: decoding reads back what was encoded. -/
structure CursorCodec where
  encode : MessagePageCursor → String
  decode : String → Option MessagePageCursor
  decode_encode : ∀ cursor, decode (encode cursor) = some cursor

inductive MessageListError where
  | notFound (id : String)
  | badRequest (reason : String)
  | notFoundReason (reason : String)
  | internal (reason : String)
  deriving DecidableEq

variable (codec : CursorCodec)

def encodeMessageCursor (cursor : MessagePageCursor) : String := "v1." ++ codec.encode cursor

/-- `str::strip_prefix`. -/
def stripPrefix (pre text : String) : Option String :=
  if pre.toList.isPrefixOf text.toList then
    some (String.ofList (text.toList.drop pre.toList.length))
  else none

def invalidMessageCursor : MessageListError := .badRequest "invalid message cursor"

def decodeMessageCursor (raw : String) : Except MessageListError MessagePageCursor :=
  match (stripPrefix "v1." raw).bind codec.decode with
  | none => .error invalidMessageCursor
  | some cursor => if cursor.id = "" then .error invalidMessageCursor else .ok cursor

end Cursor

section Response

/-- The errors that `serde_json` reports, for a content and for a name of an enumeration. -/
structure SerdeErrors where
  content : String → Option String
  enumValue : String → String

def MessageType.unknown : MessageType → Option String
  | .other name =>
    if name ∈ ["text", "tips", "agent_status", "permission", "plan", "thinking",
        "available_commands"] then none
    else some name
  | _ => none

def unknownPosition (position : Option String) : Option String :=
  position.filter fun name => name ∉ ["right", "left", "center", "pop"]

/-- `row_to_message_response`; the response has the fields of the row. -/
def rowToMessageResponse (serde : SerdeErrors) (row : StoredMessage) :
    Except MessageListError StoredMessage :=
  match row.type.unknown.or (unknownPosition row.position) with
  | some name => .error (.internal ("Invalid enum value '" ++ name ++ "': " ++ serde.enumValue name))
  | none =>
    match serde.content row.content with
    | some err => .error (.internal ("Invalid message content JSON: " ++ err))
    | none => .ok row

end Response

structure ListMessagesQuery where
  limit : Option ℕ := none
  before : Option String := none
  after : Option String := none
  anchorMessageId : Option String := none

structure MessageListResponse where
  items : List StoredMessage
  oldestCursor : Option String
  newestCursor : Option String
  hasMoreBefore : Bool
  hasMoreAfter : Bool
  deriving DecidableEq

def defaultMessagePageLimit : ℕ := 50

def maxMessagePageLimit : ℕ := 200

def effectiveMessageLimit (limit : Option ℕ) : ℕ :=
  match limit.getD defaultMessagePageLimit with
  | 0 => defaultMessagePageLimit
  | n + 1 => min (n + 1) maxMessagePageLimit

namespace ListMessagesQuery

variable (codec : CursorCodec) (query : ListMessagesQuery)

def locatorCount : ℕ :=
  query.before.toList.length + query.after.toList.length + query.anchorMessageId.toList.length

def direction : Except MessageListError MessagePageDirection :=
  match query.before, query.after, query.anchorMessageId with
  | some raw, _, _ => (decodeMessageCursor codec raw).map .before
  | none, some raw, _ => (decodeMessageCursor codec raw).map .after
  | none, none, some messageId => .ok (.anchor messageId)
  | none, none, none => .ok .initialLatest

end ListMessagesQuery

/-- What a conversation's messages are read from: who owns which conversation, and the messages. -/
structure MessageDb where
  owner : String → Option String
  rows : StoredMessages

/-- `list_messages`, without the compact mode, which only shortens contents. -/
def listMessages (codec : CursorCodec) (serde : SerdeErrors) (db : MessageDb)
    (userId conversationId : String) (query : ListMessagesQuery) :
    Except MessageListError MessageListResponse := do
  if db.owner conversationId ≠ some userId then
    throw (.notFound conversationId)
  if 1 < query.locatorCount then
    throw (.badRequest "before, after, and anchor_message_id are mutually exclusive")
  let direction ← query.direction codec
  let limit := effectiveMessageLimit query.limit
  let page ← (db.rows.listMessagesPage conversationId limit direction).mapError .notFoundReason
  let items ← page.items.mapM (rowToMessageResponse serde)
  return {
    items
    oldestCursor := page.items.head?.map fun row => encodeMessageCursor codec row.cursor
    newestCursor := page.items.getLast?.map fun row => encodeMessageCursor codec row.cursor
    hasMoreBefore := page.hasMoreBefore
    hasMoreAfter := page.hasMoreAfter }

end AionCore.Conversation
