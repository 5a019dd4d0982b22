import AionCore.Conversation.StreamEvents

/-!
# Conversations: the relay of one send

`StreamRelay` of `stream_relay.rs` with the adapter of `stream_persistence.rs`: it consumes what an
agent streams, forwards it and writes the messages. The middleware and the JSON merge of the
database are parameters. An error of the send itself comes as an `Error` event.
-/

namespace AionCore.Conversation

inductive MessageKind where
  | text
  | thinking
  | tips
  | toolCall
  | acpToolCall
  | toolGroup
  deriving DecidableEq

inductive MessageStatus where
  | work
  | finish
  | error
  deriving DecidableEq

/-- A row of the conversation; the content of a text, of a thinking or of a tip is what its JSON
holds as content. -/
structure MessageRow where
  id : String
  kind : MessageKind
  content : String
  status : MessageStatus
  hidden : Bool

structure MessageRowUpdate where
  content : Option String := none
  status : Option MessageStatus := none
  hidden : Option Bool := none

def MessageRowUpdate.apply (updates : MessageRowUpdate) (row : MessageRow) : MessageRow :=
  { row with
    content := updates.content.getD row.content
    status := updates.status.getD row.status
    hidden := updates.hidden.getD row.hidden }

theorem MessageRowUpdate.apply_apply (updates : MessageRowUpdate) (row : MessageRow) :
    updates.apply (updates.apply row) = updates.apply row := by
  obtain ⟨content, status, hidden⟩ := updates
  cases content <;> cases status <;> cases hidden <;> rfl

abbrev MessageTable := List MessageRow

namespace MessageTable

def hasId (rows : MessageTable) (id : String) : Bool := rows.any (·.id = id)

/-- Change the row with the id. -/
def modify (rows : MessageTable) (id : String) (f : MessageRow → MessageRow) : MessageTable :=
  rows.map fun row => if row.id = id then f row else row

/-- `insert_message`, and whether it has succeeded; `ok` is whether the statement runs. -/
def insertMessage (rows : MessageTable) (ok : Bool) (row : MessageRow) : MessageTable × Bool :=
  if ok && !rows.hasId row.id then (rows ++ [row], true) else (rows, false)

/-- `update_message`, and whether it has succeeded. -/
def updateMessage (rows : MessageTable) (ok : Bool) (id : String) (updates : MessageRowUpdate) :
    MessageTable × Bool :=
  if ok && rows.hasId id then (rows.modify id updates.apply, true) else (rows, false)

/-- The row that `upsert_message` leaves where the id is taken. -/
def merged (patch : String → String → String) (row excluded : MessageRow) : MessageRow :=
  { row with
    content := patch row.content excluded.content
    status :=
      if row.status ≠ .work ∧ excluded.status = .work then row.status else excluded.status
    hidden := excluded.hidden }

/-- `upsert_message`. -/
def upsertMessage (patch : String → String → String) (rows : MessageTable) (ok : Bool)
    (row : MessageRow) : MessageTable :=
  if !ok then rows
  else if rows.hasId row.id then rows.modify row.id (merged patch · row)
  else rows ++ [row]

/-- The rows of one kind. -/
def ofKind (rows : MessageTable) (kind : MessageKind) : MessageTable :=
  rows.filter (·.kind = kind)

theorem hasId_iff (rows : MessageTable) (id : String) :
    rows.hasId id = true ↔ id ∈ rows.map (·.id) := by
  simp [hasId]

variable {rows : MessageTable} {id : String}

theorem hasId_eq_false (h : id ∉ rows.map (·.id)) :
    rows.hasId id = false := by
  rw [← Bool.not_eq_true, hasId_iff]
  exact h

variable {f : MessageRow → MessageRow}

theorem modify_of_notMem (h : id ∉ rows.map (·.id)) :
    rows.modify id f = rows := by
  conv_rhs => rw [← List.map_id rows]
  apply List.map_congr_left
  intro row hrow
  have hne : row.id ≠ id := fun he => h (List.mem_map.2 ⟨row, hrow, he⟩)
  simp [hne]

theorem map_id_modify (hf : ∀ row, (f row).id = row.id) :
    (rows.modify id f).map (·.id) = rows.map (·.id) := by
  rw [modify, List.map_map]
  apply List.map_congr_left
  intro row _
  show (if row.id = id then f row else row).id = row.id
  split
  · exact hf row
  · rfl

variable {kind : MessageKind}

theorem ofKind_map (hf : ∀ row, (f row).kind = row.kind) :
    ofKind (rows.map f) kind = (rows.ofKind kind).map f := by
  simp only [ofKind, List.filter_map, Function.comp_def, hf]

theorem ofKind_modify (hf : ∀ row, (f row).kind = row.kind) :
    (rows.modify id f).ofKind kind = (rows.ofKind kind).modify id f := by
  apply ofKind_map
  intro row
  split
  · exact hf row
  · rfl

theorem ofKind_append (rows : MessageTable) (row : MessageRow) (kind : MessageKind) :
    ofKind (rows ++ [row]) kind = rows.ofKind kind ++ if row.kind = kind then [row] else [] := by
  rw [ofKind, List.filter_append, List.filter_singleton]
  by_cases h : row.kind = kind <;> simp [h, ofKind]

theorem map_id_ofKind_sublist (rows : MessageTable) (kind : MessageKind) :
    ((rows.ofKind kind).map (·.id)).Sublist (rows.map (·.id)) :=
  List.filter_sublist.map _

variable {row : MessageRow}

theorem mem_ofKind :
    row ∈ rows.ofKind kind ↔ row ∈ rows ∧ row.kind = kind := by
  simp [ofKind]

theorem notMem_ofKind (kind : MessageKind) (hn : (rows.map (·.id)).Nodup) (hrow : row ∈ rows)
    (hkind : row.kind ≠ kind) :
    row.id ∉ (rows.ofKind kind).map (·.id) := by
  intro hmem
  obtain ⟨row', hrow', hid⟩ := List.mem_map.1 hmem
  obtain ⟨hin, hk⟩ := mem_ofKind.1 hrow'
  have heq : row' = row := List.inj_on_of_nodup_map hn hin hrow hid
  exact hkind (heq ▸ hk)

theorem exists_of_mem_modify (hf : ∀ row, (f row).id = row.id ∧ (f row).kind = row.kind)
    (hrow : row ∈ rows.modify id f) :
    ∃ row' ∈ rows, row'.id = row.id ∧ row'.kind = row.kind := by
  obtain ⟨row', hin, rfl⟩ := List.mem_map.1 hrow
  refine ⟨row', hin, ?_⟩
  split
  · exact ⟨(hf row').1.symm, (hf row').2.symm⟩
  · exact ⟨rfl, rfl⟩

theorem insertMessage_of_notMem (row : MessageRow) (h : row.id ∉ rows.map (·.id)) :
    rows.insertMessage true row = (rows ++ [row], true) := by
  simp [insertMessage, hasId_eq_false h]

theorem updateMessage_of_mem (updates : MessageRowUpdate) (h : id ∈ rows.map (·.id)) :
    rows.updateMessage true id updates = (rows.modify id updates.apply, true) := by
  simp [updateMessage, (hasId_iff rows id).2 h]

theorem updateMessage_fst (rows : MessageTable) (id : String) (updates : MessageRowUpdate) :
    (rows.updateMessage true id updates).1 = rows.modify id updates.apply := by
  by_cases h : id ∈ rows.map (·.id)
  · rw [updateMessage_of_mem updates h]
  · simp [updateMessage, hasId_eq_false h, modify_of_notMem h]

/-- The same update of several rows. -/
theorem foldl_updateMessage (ids : List String) (rows : MessageTable)
    (updates : MessageRowUpdate) :
    ids.foldl (fun rows id => (updateMessage rows true id updates).1) rows =
      rows.map fun row => if row.id ∈ ids then updates.apply row else row := by
  induction ids generalizing rows with
  | nil => simp
  | cons id ids ih =>
    rw [List.foldl_cons, ih, updateMessage_fst, modify, List.map_map]
    apply List.map_congr_left
    intro row _
    have hid : (updates.apply row).id = row.id := rfl
    by_cases h : row.id = id
    · by_cases hm : id ∈ ids
      · simp [h, hm, hid, MessageRowUpdate.apply_apply]
      · simp [h, hm, hid]
    · simp [h]

end MessageTable

/-- The lifecycle that a write of the adapter reads, and the rows on which its statements run. -/
structure WriteSample where
  lifecycle : RuntimeLifecycleState
  ok : String → Bool

/-- What the loop of the relay takes next. -/
inductive RelaySignal where
  | event (event : AgentStreamEvent)
  /-- `Lagged`, with the events that are lost. -/
  | lagged (lost : List AgentStreamEvent)
  | closed

/-- A signal, with `is_deleting` after it and what the writes for it meet: the write of the thinking
segment, that of the text segment, and the last one. -/
structure Received where
  signal : RelaySignal
  deleting : Bool
  onThinking : WriteSample
  onText : WriteSample
  onLast : WriteSample

/-- A signal whose writes meet the lifecycle and succeed. -/
def Received.under (lifecycle : RuntimeLifecycleState) (signal : RelaySignal) : Received :=
  let sample : WriteSample := ⟨lifecycle, fun _ => true⟩
  ⟨signal, false, sample, sample, sample⟩

structure MiddlewareResult where
  message : String
  systemResponses : List String

/-- The relay's own data. Fresh ids are drawn from a supply. -/
structure StreamRelay where
  msgId : String
  deferCleanTerminalErrors : Bool
  ids : Supply String
  process : String → MiddlewareResult
  patch : String → String → String

def FLUSH_INTERVAL : ℕ := 20

structure TextSegmentState where
  id : String
  buffer : String
  recordCreated : Bool
  flushCounter : ℕ

structure ThinkingSegmentState where
  id : String
  buffer : String

/-- A `message.stream` payload. -/
inductive StreamPayload where
  | event (msgId : String) (event : AgentStreamEvent)
  | finalText (msgId text : String) (hidden : Bool)
  | system (response : String)

/-- The local variables of `consume_inner`, the messages written, and the payloads sent. -/
structure RelayState where
  rows : MessageTable
  sent : List StreamPayload
  nextId : ℕ
  fullTextBuffer : String
  textSegments : List String
  activeText : Option TextSegmentState
  activeThinking : Option ThinkingSegmentState
  usedPrimarySegmentMsgId : Bool
  attempt : TurnAttemptSummary

/-- `char::is_whitespace`. -/
def isWhitespace (c : Char) : Bool :=
  let n := c.toNat
  (9 ≤ n && n ≤ 13) || n = 32 || n = 133 || n = 160 || n = 5760 || (8192 ≤ n && n ≤ 8202) ||
    n = 8232 || n = 8233 || n = 8239 || n = 8287 || n = 12288

/-- `str::trim`. -/
def trim (text : String) : String :=
  String.ofList ((text.toList.dropWhile isWhitespace).reverse.dropWhile isWhitespace).reverse

namespace RelayState

def start (nextId : ℕ) : RelayState := ⟨[], [], nextId, "", [], none, none, false, {}⟩

variable (relay : StreamRelay)

/-- `forward_to_websocket_with_msg_id`. -/
def forward (s : RelayState) (msgId : String) (event : AgentStreamEvent) : RelayState :=
  { s with sent := s.sent ++ [.event msgId event] }

/-- `mint_segment_msg_id`: the id, and the state after it. -/
def mintSegmentMsgId (s : RelayState) : String × RelayState :=
  if s.usedPrimarySegmentMsgId then (relay.ids.draw s.nextId, { s with nextId := s.nextId + 1 })
  else (relay.msgId, { s with usedPrimarySegmentMsgId := true })

/-- `mint_msg_id`, for a message that is no segment. -/
def mintMsgId (s : RelayState) : String × RelayState :=
  (relay.ids.draw s.nextId, { s with nextId := s.nextId + 1 })

/-- `persist_thinking_segment`. -/
def persistThinkingSegment (s : RelayState) (sample : WriteSample)
    (segment : ThinkingSegmentState) : RelayState :=
  if segment.buffer = "" then s
  else if !sample.lifecycle.allows .assistantThinkingFinalize then s
  else
    let row : MessageRow := ⟨segment.id, .thinking, segment.buffer, .finish, false⟩
    { s with rows := (s.rows.insertMessage (sample.ok row.id) row).1 }

def completeActiveThinking (s : RelayState) (sample : WriteSample) : RelayState :=
  match s.activeThinking with
  | none => s
  | some segment =>
    -- `send_thinking_done`
    ({ s with activeThinking := none }.forward segment.id
      (.thinking ⟨"", some "done"⟩)).persistThinkingSegment sample segment

/-- `flush_text_segment`, and the segment after it. -/
def flushTextSegment (s : RelayState) (sample : WriteSample) (segment : TextSegmentState) :
    RelayState × TextSegmentState :=
  if !sample.lifecycle.allows .assistantTextFlush then (s, segment)
  else if segment.buffer = "" then (s, segment)
  else if segment.recordCreated then
    ({ s with
        rows := (s.rows.updateMessage (sample.ok segment.id) segment.id
          { content := some segment.buffer, status := some .work }).1 }, segment)
  else
    let row : MessageRow := ⟨segment.id, .text, segment.buffer, .work, false⟩
    ({ s with rows := (s.rows.insertMessage (sample.ok row.id) row).1 },
      { segment with recordCreated := true })

/-- `finalize_text_segment`, and whether the segment is persisted. -/
def finalizeTextSegment (s : RelayState) (sample : WriteSample) (segment : TextSegmentState)
    (status : MessageStatus) : RelayState × Bool :=
  if !sample.lifecycle.allows .assistantTextFinalize then (s, false)
  else if segment.buffer = "" then (s, false)
  else if segment.recordCreated then
    let result := s.rows.updateMessage (sample.ok segment.id) segment.id
      { content := some segment.buffer, status := some status, hidden := some false }
    ({ s with rows := result.1 }, result.2)
  else
    let row : MessageRow := ⟨segment.id, .text, segment.buffer, status, false⟩
    let result := s.rows.insertMessage (sample.ok row.id) row
    ({ s with rows := result.1 }, result.2)

def closeActiveTextSegment (s : RelayState) (sample : WriteSample) (status : MessageStatus) :
    RelayState :=
  match s.activeText with
  | none => s
  | some segment =>
    let (s, persisted) := { s with activeText := none }.finalizeTextSegment sample segment status
    if persisted then { s with textSegments := s.textSegments ++ [segment.id] } else s

/-- `persist_tool_call`. -/
def persistToolCall (s : RelayState) (sample : WriteSample) (data : ToolCallEventData) :
    RelayState :=
  if !sample.lifecycle.allows .toolCallPersist then s
  else if trim data.callId = "" then s
  else
    let status : MessageStatus := match data.status with
      | .running => .work
      | .completed => .finish
      | .error => .error
    let row : MessageRow := ⟨data.callId, .toolCall, data.json, status, false⟩
    { s with rows := s.rows.upsertMessage relay.patch (sample.ok row.id) row }

/-- `persist_acp_tool_call`. -/
def persistAcpToolCall (s : RelayState) (sample : WriteSample) (data : AcpToolCallEventData) :
    RelayState :=
  if !sample.lifecycle.allows .acpToolCallPersist then s
  else
    let status : MessageStatus := match data.status with
      | some .pending | some .inProgress | none => .work
      | some .completed => .finish
      | some .failed => .error
    let row : MessageRow := ⟨data.toolCallId, .acpToolCall, data.json, status, false⟩
    { s with rows := s.rows.upsertMessage relay.patch (sample.ok row.id) row }

/-- `persist_tool_group`. -/
def persistToolGroup (s : RelayState) (sample : WriteSample) (entries : List ToolGroupEntry)
    (json : String) : RelayState :=
  if !sample.lifecycle.allows .toolGroupPersist then s
  else
    let allDone := entries.all fun e => e.status = .completed || e.status = .error
    let status : MessageStatus := if allDone then .finish else .work
    let (groupId, s) := match entries.head? with
      | some entry => (entry.callId, s)
      | none => s.mintMsgId relay
    if s.rows.any fun row => row.id = groupId && row.kind = .toolGroup then
      { s with
        rows := (s.rows.updateMessage (sample.ok groupId) groupId
          { content := some json, status := some status }).1 }
    else
      let row : MessageRow := ⟨groupId, .toolGroup, json, status, false⟩
      { s with rows := (s.rows.insertMessage (sample.ok row.id) row).1 }

/-- `persist_tip` and `persist_error_tip`. -/
def persistTip (s : RelayState) (sample : WriteSample) (content : String)
    (status : MessageStatus) : RelayState :=
  if !sample.lifecycle.allows .terminalFinalize then s
  else
    let (id, s) := s.mintMsgId relay
    let row : MessageRow := ⟨id, .tips, content, status, false⟩
    { s with rows := (s.rows.insertMessage (sample.ok row.id) row).1 }

/-- `persist_final_text`, with its overrides sent. -/
def persistFinalText (s : RelayState) (sample : WriteSample) (status : MessageStatus)
    (finalText : String) (hidden rewriteSegments : Bool) : RelayState :=
  if !sample.lifecycle.allows .terminalFinalize then s
  else
    match s.textSegments with
    | primary :: rest =>
      if rewriteSegments then
        let rows := (s.rows.updateMessage (sample.ok primary) primary
          { content := some finalText, status := some status, hidden := some hidden }).1
        { s with
          rows := rest.foldl (fun rows id => (rows.updateMessage (sample.ok id) id
            { status := some status, hidden := some true }).1) rows
          sent := s.sent ++ .finalText primary finalText hidden ::
            rest.map fun id => .finalText id "" true }
      else
        { s with
          rows := (primary :: rest).foldl (fun rows id => (rows.updateMessage (sample.ok id) id
            { status := some status, hidden := some false }).1) s.rows }
    | [] =>
      if hidden then s
      else
        let row : MessageRow := ⟨relay.msgId, .text, finalText, status, false⟩
        { s with rows := (s.rows.insertMessage (sample.ok row.id) row).1 }

/-- `finalize`, and the system responses; `error` is the event's, if it is an error. -/
def finalize (s : RelayState) (sample : WriteSample) (error : Option ErrorEventData) :
    RelayState × List String :=
  let status : MessageStatus := if error.isSome then .error else .finish
  if s.fullTextBuffer ≠ "" then
    let processed := relay.process s.fullTextBuffer
    let finalText := trim processed.message
    let hidden : Bool := finalText = ""
    let rewriteSegments : Bool := processed.message ≠ s.fullTextBuffer || hidden
    let s := s.persistFinalText relay sample status finalText hidden rewriteSegments
    ({ s with sent := s.sent ++ processed.systemResponses.map .system }, processed.systemResponses)
  else
    match error with
    | some data => (s.persistTip relay sample data.message .error, [])
    | none => (s, [])

def closeSegments (s : RelayState) (received : Received) (status : MessageStatus) : RelayState :=
  if received.deleting then s
  else (s.completeActiveThinking received.onThinking).closeActiveTextSegment received.onText status

def forwardTerminal (s : RelayState) (event : Option AgentStreamEvent) : RelayState :=
  match event with
  | some event => s.forward relay.msgId event
  | none => s

def conclude (s : RelayState) (received : Received) (terminal : RelayTerminal)
    (event : Option AgentStreamEvent) (error : Option ErrorEventData) :
    RelayState × Option RelayOutcome :=
  let s := s.forwardTerminal relay event
  let attempt := { s.attempt with
    persistedAssistantOutput := s.attempt.persistedAssistantOutput || s.fullTextBuffer ≠ ""
    terminalError := error <|> s.attempt.terminalError }
  let result := if received.deleting then (s, []) else s.finalize relay received.onLast error
  (result.1, some ⟨result.2, terminal, attempt⟩)

def terminate (s : RelayState) (received : Received) (terminal : RelayTerminal)
    (event : Option AgentStreamEvent) (error : Option ErrorEventData) :
    RelayState × Option RelayOutcome :=
  (s.closeSegments received (if error.isSome then .error else .finish)).conclude relay received
    terminal event error

def defers (s : RelayState) (data : ErrorEventData) : Bool :=
  relay.deferCleanTerminalErrors && data.retryable = some true &&
    data.code ≠ some .userLlmProviderModelNotFound && s.attempt.safeToAutoReplay

def handleError (s : RelayState) (received : Received) (data : ErrorEventData) :
    RelayState × Option RelayOutcome :=
  let terminal := RelayTerminal.error data.code data.retryable
  if s.defers relay data then
    (s, some ⟨[], terminal,
      { s.attempt with terminalError := some data, terminalErrorDeferred := true }⟩)
  else s.terminate relay received terminal (some (.error data)) (some data)

def noteVisible (s : RelayState) (content : String) : RelayState :=
  { s with attempt := { s.attempt with
      sawVisibleOutput := s.attempt.sawVisibleOutput || content ≠ "" } }

def noteSideEffect (s : RelayState) : RelayState :=
  { s with attempt := { s.attempt with sawToolOrSideEffect := true } }

def openThinking (s : RelayState) : ThinkingSegmentState × RelayState :=
  match s.activeThinking with
  | some segment => (segment, s)
  | none =>
    let (id, s) := s.mintSegmentMsgId relay
    (⟨id, ""⟩, { s with activeThinking := some ⟨id, ""⟩ })

def openText (s : RelayState) : TextSegmentState × RelayState :=
  match s.activeText with
  | some segment => (segment, s)
  | none =>
    let (id, s) := s.mintSegmentMsgId relay
    (⟨id, "", false, 0⟩, { s with activeText := some ⟨id, "", false, 0⟩ })

def handleThinking (s : RelayState) (received : Received) (data : ThinkingEventData) :
    RelayState :=
  if data.status = some "done" then s.completeActiveThinking received.onThinking
  else
    let s := (s.closeActiveTextSegment received.onText .finish).noteVisible data.content
    let (segment, s) := s.openThinking relay
    let segment := { segment with buffer := segment.buffer ++ data.content }
    { s with activeThinking := some segment }.forward segment.id (.thinking data)

def handleText (s : RelayState) (received : Received) (content : String) : RelayState :=
  let s := (s.completeActiveThinking received.onThinking).noteVisible content
  let (segment, s) := s.openText relay
  let s := s.forward segment.id (.text content)
  let s := { s with fullTextBuffer := s.fullTextBuffer ++ content }
  let segment := { segment with
    buffer := segment.buffer ++ content
    flushCounter := segment.flushCounter + 1 }
  if FLUSH_INTERVAL ≤ segment.flushCounter then
    let (s, segment) := s.flushTextSegment received.onText segment
    { s with activeText := some { segment with flushCounter := 0 } }
  else { s with activeText := some segment }

def beforeTool (s : RelayState) (received : Received) (event : AgentStreamEvent) : RelayState :=
  ((s.noteSideEffect.completeActiveThinking received.onThinking).closeActiveTextSegment
    received.onText .finish).forward relay.msgId event

def handleTips (s : RelayState) (received : Received) (data : TipsEventData) : RelayState :=
  let kept := data.tipType ≠ .error
  let s := if kept then
    { s with attempt := { s.attempt with sawVisibleOutput := true } } else s
  let s := s.forward relay.msgId (.tips data)
  if kept then s.persistTip relay received.onLast data.content .finish else s

/-- One event, unless it is skipped. -/
def handle (s : RelayState) (received : Received) (event : AgentStreamEvent) :
    RelayState × Option RelayOutcome :=
  match event with
  | .thinking data => (s.handleThinking relay received data, none)
  | .text content => (s.handleText relay received content, none)
  | .finish => s.terminate relay received .finish (some .finish) none
  | .error data => s.handleError relay received data
  | .toolCall data =>
    ((s.beforeTool relay received event).persistToolCall relay received.onLast data, none)
  | .acpToolCall data =>
    ((s.beforeTool relay received event).persistAcpToolCall relay received.onLast data, none)
  | .toolGroup entries json =>
    ((s.beforeTool relay received event).persistToolGroup relay received.onLast entries json, none)
  | .tips data => (s.handleTips relay received data, none)
  | .cronTrigger | .permission | .acpPermission =>
    (s.noteSideEffect.forward relay.msgId event, none)
  | .start | .agentStatus | .plan | .skillSuggest | .acpModelInfo | .acpModeInfo
  | .acpConfigOption | .acpSessionInfo | .acpContextUsage | .acpPromptHookWarning
  | .slashCommandsUpdated | .availableCommands | .system | .requestTrace | .sessionAssigned =>
    (s.forward relay.msgId event, none)

end RelayState

def AgentStreamEvent.isTerminal : AgentStreamEvent → Bool
  | .finish | .error _ => true
  | .start | .text _ | .tips _ | .toolCall _ | .acpToolCall _ | .toolGroup _ _ | .agentStatus
  | .thinking _ | .plan | .permission | .acpPermission | .skillSuggest | .cronTrigger
  | .acpModelInfo | .acpModeInfo | .acpConfigOption | .acpSessionInfo | .acpContextUsage
  | .acpPromptHookWarning | .slashCommandsUpdated | .availableCommands | .system | .requestTrace
  | .sessionAssigned => false

namespace StreamRelay

/-- One turn of the loop, and the outcome if it ends the loop. -/
def step (relay : StreamRelay) (s : RelayState) (received : Received) :
    RelayState × Option RelayOutcome :=
  match received.signal with
  | .event event =>
    if received.deleting && !event.isTerminal then (s, none) else s.handle relay received event
  | .lagged _ => (s, none)
  | .closed => s.terminate relay received .channelClosed none none

/-- `consume_inner`; there is no outcome while the stream goes on. -/
def consume (relay : StreamRelay) : List Received → RelayState → RelayState × Option RelayOutcome
  | [], s => (s, none)
  | received :: rest, s =>
    match relay.step s received with
    | (s, some outcome) => (s, some outcome)
    | (s, none) => relay.consume rest s

end StreamRelay

end AionCore.Conversation
