import AionCore.Conversation.StreamRelay
import AionCore.Lib.MergePatch

/-!
# Conversations: what is stored of a tool call

The events of `tool_call.rs` with all their data and the JSON that they are stored as, those that
`BackendOutputSink` emits, and `case_convert.rs`, which renames the keys of an ACP event. JSON is a
value here and not a text.
-/

namespace AionCore.Conversation.ToolCalls

def isLowerOrDigit (c : Char) : Bool := c.isLower || c.isDigit

/-- The rest of a key, after the character before it. -/
def snakeFrom (prev : Option Char) : List Char → List Char
  | [] => []
  | c :: rest =>
    if c.isUpper then
      let prevIsLowerOrDigit := prev.any isLowerOrDigit
      let nextIsLower := rest.head?.any Char.isLower
      let prevIsUpper := prev.any Char.isUpper
      if prevIsLowerOrDigit || (prevIsUpper && nextIsLower) then
        '_' :: c.toLower :: snakeFrom (some c) rest
      else c.toLower :: snakeFrom (some c) rest
    else c :: snakeFrom (some c) rest

def camelToSnake (input : String) : String := String.ofList (snakeFrom none input.toList)

def newKey (k : String) : String := if k = "_meta" then k else camelToSnake k

/-- `normalize_keys_to_snake_case`. The members of an object come in the order of their keys, and
of two that get one key the later one is kept. -/
def normalizeKeys : JsonValue → JsonValue
  | .object keys value =>
    .build (keys.image newKey) fun k =>
      if h : (keys.filter fun k' => newKey k' = k).Nonempty then
        let k' : { k' // k' ∈ keys } :=
          ⟨(keys.filter fun k' => newKey k' = k).max' h,
            (Finset.mem_filter.mp (Finset.max'_mem _ h)).1⟩
        some (if k'.1 = "_meta" then value k' else normalizeKeys (value k'))
      else none
  | .array length item => .array length fun i => normalizeKeys (item i)
  | value => value

def normalizeMember (k : String) (v : JsonValue) : JsonValue :=
  if k = "_meta" then v else normalizeKeys v

/-- A member whose new key no other gets is found under it. -/
theorem get_normalizeKeys {j : JsonValue} (hobject : j.isObject = true) {k : String}
    (halone : ∀ k' ∈ j.keys, newKey k' = newKey k → k' = k) :
    (normalizeKeys j).get (newKey k) = (j.get k).map (normalizeMember k) := by
  cases j with
  | object keys value =>
    rw [normalizeKeys, JsonValue.get_build]
    by_cases hk : k ∈ keys
    · have hmem : k ∈ keys.filter fun k' => newKey k' = newKey k := Finset.mem_filter.mpr ⟨hk, rfl⟩
      have hmax : ∀ h, (keys.filter fun k' => newKey k' = newKey k).max' h = k := by
        intro h
        obtain ⟨hin, heq⟩ := Finset.mem_filter.mp (Finset.max'_mem _ h)
        exact halone _ hin heq
      have hget : (JsonValue.object keys value).get k = some (value ⟨k, hk⟩) := dif_pos hk
      have hvalue : ∀ k' : { k' // k' ∈ keys }, k' = ⟨k, hk⟩ →
          some (if k'.1 = "_meta" then value k' else normalizeKeys (value k')) =
            (some (value ⟨k, hk⟩)).map (normalizeMember k) := by
        rintro k' rfl
        rfl
      rw [if_pos (Finset.mem_image_of_mem newKey hk), dif_pos ⟨k, hmem⟩, hget]
      exact hvalue _ (Subtype.ext (hmax ⟨k, hmem⟩))
    · have hnone : ¬(keys.filter fun k' => newKey k' = newKey k).Nonempty := by
        rintro ⟨k', hk'⟩
        obtain ⟨hin, heq⟩ := Finset.mem_filter.mp hk'
        exact hk (halone k' hin heq ▸ hin)
      have hget : (JsonValue.object keys value).get k = none := dif_neg hk
      rw [dif_neg hnone, hget]
      split
      · rfl
      · rfl
  | _ => cases hobject

theorem get_normalizeKeys_record {fields : List (String × Option JsonValue)} {k : String}
    (hapart : ∀ k' ∈ fields.map Prod.fst, newKey k' = newKey k → k' = k) :
    (normalizeKeys (.record fields)).get (newKey k) =
      (fields.lookup k).join.map (normalizeMember k) := by
  rw [get_normalizeKeys (JsonValue.isObject_record fields), JsonValue.get_record]
  exact fun k' hk' => hapart k' (JsonValue.mem_of_mem_keys_record hk')

def ToolCallStatus.json : ToolCallStatus → JsonValue
  | .running => .string "running"
  | .completed => .string "completed"
  | .error => .string "error"

/-- The data of a `ToolCall` event. -/
structure ToolCallEventData where
  callId : String
  name : String
  args : JsonValue
  status : ToolCallStatus
  input : Option JsonValue
  output : Option String
  description : Option String

/-- The content of the row. -/
def ToolCallEventData.json (data : ToolCallEventData) : JsonValue :=
  .record
    [("call_id", some (.string data.callId)), ("name", some (.string data.name)),
      ("args", some data.args), ("status", some (ToolCallStatus.json data.status)),
      ("input", data.input), ("output", data.output.map .string),
      ("description", data.description.map .string)]

/-- `internal_call_id`. -/
def internalCallId (toolUseId : String) : Option String :=
  let id := trim toolUseId
  if id = "" then none else some ("aionrs-" ++ id)

/-- `emit_tool_call`; `parse` is the JSON reader. -/
def emitToolCall (parse : String → Option JsonValue) (toolUseId name input : String) :
    Option ToolCallEventData :=
  match internalCallId toolUseId with
  | none => none
  | some callId =>
    if trim name = "" then none
    else
      let parsedInput := (parse input).getD (.string input)
      some
        { callId
          name
          args := parsedInput
          status := .running
          input := some parsedInput
          output := none
          description := none }

/-- `emit_tool_result`. -/
def emitToolResult (toolUseId name : String) (isError : Bool) (content : String) :
    Option ToolCallEventData :=
  match internalCallId toolUseId with
  | none => none
  | some callId =>
    if trim name = "" then none
    else
      some
        { callId
          name
          args := .null
          status := if isError then .error else .completed
          input := none
          output := if content = "" then none else some content
          description := none }

def AcpToolCallStatus.json : AcpToolCallStatus → JsonValue
  | .pending => .string "pending"
  | .inProgress => .string "in_progress"
  | .completed => .string "completed"
  | .failed => .string "failed"

inductive AcpToolCallSessionUpdateKind where
  | toolCall
  | toolCallUpdate

def AcpToolCallSessionUpdateKind.json : AcpToolCallSessionUpdateKind → JsonValue
  | .toolCall => .string "tool_call"
  | .toolCallUpdate => .string "tool_call_update"

inductive AcpToolCallKind where
  | read
  | edit
  | execute

def AcpToolCallKind.json : AcpToolCallKind → JsonValue
  | .read => .string "read"
  | .edit => .string "edit"
  | .execute => .string "execute"

/-- The type of a text block is `text`, there being no other. -/
inductive AcpToolCallContentItem where
  | content (text : String)
  | diff (path : String) (oldText : Option String) (newText : String)

def AcpToolCallContentItem.json : AcpToolCallContentItem → JsonValue
  | .content text =>
    .record
      [("type", some (.string "content")),
        ("content", some (.record [("type", some (.string "text")), ("text", some (.string text))]))]
  | .diff path oldText newText =>
    .record
      [("type", some (.string "diff")), ("path", some (.string path)),
        ("old_text", oldText.map .string), ("new_text", some (.string newText))]

structure AcpToolCallLocationItem where
  path : String

def AcpToolCallLocationItem.json (item : AcpToolCallLocationItem) : JsonValue :=
  .record [("path", some (.string item.path))]

structure AcpToolCallUpdateData where
  sessionUpdate : AcpToolCallSessionUpdateKind
  toolCallId : String
  status : Option AcpToolCallStatus
  title : Option String
  kind : Option AcpToolCallKind
  rawInput : Option JsonValue
  rawOutput : Option JsonValue
  content : Option (List AcpToolCallContentItem)
  locations : Option (List AcpToolCallLocationItem)

def AcpToolCallUpdateData.members (update : AcpToolCallUpdateData) :
    List (String × Option JsonValue) :=
  [("sessionUpdate", some (AcpToolCallSessionUpdateKind.json update.sessionUpdate)),
    ("tool_call_id", some (.string update.toolCallId)),
    ("status", update.status.map AcpToolCallStatus.json),
    ("title", update.title.map .string), ("kind", update.kind.map AcpToolCallKind.json),
    ("rawInput", update.rawInput), ("rawOutput", update.rawOutput),
    ("content", update.content.map fun items => .ofList (items.map AcpToolCallContentItem.json)),
    ("locations", update.locations.map fun items =>
      .ofList (items.map AcpToolCallLocationItem.json))]

def AcpToolCallUpdateData.json (update : AcpToolCallUpdateData) : JsonValue :=
  .record update.members

structure AcpToolCallEventData where
  sessionId : String
  update : AcpToolCallUpdateData
  sdkMeta : Option JsonValue

def AcpToolCallEventData.json (data : AcpToolCallEventData) : JsonValue :=
  .record
    [("session_id", some (.string data.sessionId)), ("update", some data.update.json),
      ("_meta", data.sdkMeta)]

/-- The two kinds of events that a row of their call merges. -/
inductive CallKind where
  | toolCall
  | acpToolCall

namespace CallKind

def body : CallKind → List String
  | .toolCall => []
  | .acpToolCall => ["update"]

/-- The fields that carry the payload. -/
def payload : CallKind → List String
  | .toolCall => ["args", "input", "output", "description"]
  | .acpToolCall => ["title", "kind", "raw_input", "raw_output", "content", "locations"]

theorem status_not_payload (kind : CallKind) : "status" ∉ kind.payload := by
  cases kind with
  | toolCall => decide
  | acpToolCall => decide

end CallKind

/-- An event, as it is persisted. -/
inductive CallEvent where
  | toolCall (data : ToolCallEventData)
  | acpToolCall (data : AcpToolCallEventData)

namespace CallEvent

def kind : CallEvent → CallKind
  | .toolCall _ => .toolCall
  | .acpToolCall _ => .acpToolCall

def id : CallEvent → String
  | .toolCall data => data.callId
  | .acpToolCall data => data.update.toolCallId

def content : CallEvent → JsonValue
  | .toolCall data => data.json
  | .acpToolCall data => normalizeKeys data.json

def fields : CallEvent → JsonValue
  | .toolCall data => data.json
  | .acpToolCall data => normalizeKeys data.update.json

theorem isObject_fields (event : CallEvent) : event.fields.isObject = true := by
  cases event with
  | toolCall data => rfl
  | acpToolCall data => rfl

/-- The keys of an ACP event stay apart. -/
theorem at?_content (event : CallEvent) :
    event.content.at? event.kind.body = some event.fields := by
  cases event with
  | toolCall data => rfl
  | acpToolCall data =>
    have hnames : ∀ k ∈ ["session_id", "update", "_meta"],
        newKey k = newKey "update" → k = "update" := by decide
    have hget : (normalizeKeys data.json).get (newKey "update") =
        some (normalizeKeys data.update.json) := get_normalizeKeys_record hnames
    have hkey : newKey "update" = "update" := by decide
    rw [hkey] at hget
    show ((normalizeKeys data.json).get "update").bind _ = _
    rw [hget]
    rfl

def field (event : CallEvent) (f : String) : Option JsonValue := event.fields.get f

def updateNames : List String :=
  ["sessionUpdate", "tool_call_id", "status", "title", "kind", "rawInput", "rawOutput", "content",
    "locations"]

theorem updateNames_apart : ∀ k ∈ updateNames, ∀ k' ∈ updateNames, newKey k' = newKey k → k' = k := by
  decide +kernel

theorem field_newKey (data : AcpToolCallEventData) {k : String} (hk : k ∈ updateNames) :
    (CallEvent.acpToolCall data).field (newKey k) =
      (data.update.members.lookup k).join.map (normalizeMember k) :=
  get_normalizeKeys_record (updateNames_apart k hk)

end CallEvent

end AionCore.Conversation.ToolCalls
