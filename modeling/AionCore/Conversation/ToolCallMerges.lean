import AionCore.Conversation.StoredMessages
import AionCore.Conversation.ToolCallContents

/-!
# Conversations: the events of one tool call

`persist_tool_call` and `persist_acp_tool_call` with `upsert_message`, over rows whose content is
the JSON of the text: each event of a call is merged into the row that the first one has made.
-/

namespace AionCore.Conversation.ToolCalls

open JsonValue

/-- A row of `messages`; the content is the JSON of the text. -/
structure CallRow where
  id : String
  conversationId : String
  msgId : Option String
  type : MessageType
  content : JsonValue
  position : Option String
  status : Option StoredStatus
  hidden : Bool
  createdAt : ℤ

def CallKind.type : CallKind → MessageType
  | .toolCall => .toolCall
  | .acpToolCall => .acpToolCall

namespace CallEvent

def status : CallEvent → StoredStatus
  | .toolCall data =>
    match data.status with
    | .running => .work
    | .completed => .finish
    | .error => .error
  | .acpToolCall data =>
    match data.update.status with
    | some .pending | none => .work
    | some .inProgress => .work
    | some .completed => .finish
    | some .failed => .error

def skipped : CallEvent → Bool
  | .toolCall data => trim data.callId = ""
  | .acpToolCall _ => false

/-- The row of an event in a conversation. -/
def row (event : CallEvent) (conversationId : String) (now : ℤ) : CallRow where
  id := event.id
  conversationId := conversationId
  msgId := some event.id
  type := event.kind.type
  content := event.content
  position := some "left"
  status := some event.status
  hidden := false
  createdAt := now

end CallEvent

namespace CallRow

variable (row excluded : CallRow)

def Late : Prop :=
  (row.status = some .finish ∨ row.status = some .error) ∧ excluded.status = some .work

instance : Decidable (row.Late excluded) := by unfold Late; infer_instance

def statusPath : List String := if row.type = .acpToolCall then ["update", "status"] else ["status"]

def mergedContent : JsonValue :=
  let patched := row.content.mergePatch excluded.content
  if row.Late excluded then
    patched.setAt row.statusPath ((row.content.at? row.statusPath).getD .null)
  else patched

/-- What `ON CONFLICT(id) DO UPDATE` leaves. -/
def merged : CallRow :=
  { row with
    content := row.mergedContent excluded
    status := if row.Late excluded then row.status else excluded.status
    position := row.position.or excluded.position
    hidden := excluded.hidden
    createdAt := min row.createdAt excluded.createdAt }

end CallRow

/-- `upsert_message`. -/
def upsertMessage (rows : List CallRow) (excluded : CallRow) : List CallRow :=
  match Table.find CallRow.id rows excluded.id with
  | none => rows ++ [excluded]
  | some row => Table.modify CallRow.id rows excluded.id fun _ => row.merged excluded

/-- `persist_tool_call` and `persist_acp_tool_call` of an event and the time, where the lifecycle
allows the write. -/
def persist (conversationId : String) (rows : List CallRow) (event : CallEvent × ℤ) : List CallRow :=
  if event.1.skipped then rows else upsertMessage rows (event.1.row conversationId event.2)

def CallEvent.carried (event : CallEvent) (f : String) : Option JsonValue :=
  (event.field f).filter fun v => !v.isNull

/-- The value of a field that the last event carried of those that carried one. -/
def lastCarried (f : String) (events : List (CallEvent × ℤ)) : Option JsonValue :=
  events.reverse.findSome? fun event => event.1.carried f

/-- The state that a status in the content names. -/
def CallKind.named : CallKind → Option JsonValue → Option StoredStatus
  | .toolCall, some (.string "running") => some .work
  | .toolCall, some (.string "completed") => some .finish
  | .toolCall, some (.string "error") => some .error
  | .acpToolCall, none => some .work
  | .acpToolCall, some (.string "pending") => some .work
  | .acpToolCall, some (.string "in_progress") => some .work
  | .acpToolCall, some (.string "completed") => some .finish
  | .acpToolCall, some (.string "failed") => some .error
  | _, _ => none

/-- What the row of a call tells of its events beside the payload. -/
structure Settled (kind : CallKind) (row : CallRow) (events : List (CallEvent × ℤ)) : Prop where
  final : (∃ event ∈ events, event.1.status ≠ .work) →
    row.status = some .finish ∨ row.status = some .error
  named : kind.named (row.content.at? (kind.body ++ ["status"])) = row.status
  createdAt_le : ∀ event ∈ events, row.createdAt ≤ event.2
  createdAt_mem : row.createdAt ∈ events.map Prod.snd

/-- The row of a call has what its events have told. -/
structure Merged (kind : CallKind) (row : CallRow) (events : List (CallEvent × ℤ)) : Prop extends
    Settled kind row events where
  payload : ∀ f ∈ kind.payload, ∀ v, lastCarried f events = some v →
    row.content.at? (kind.body ++ [f]) = some v

/-- What the event has for a field of the payload is no null after a value, and an object only if
it fits the value that was carried last. -/
def KeepsPayload (kind : CallKind) (front : List (CallEvent × ℤ)) (event : CallEvent) : Prop :=
  ∀ f ∈ kind.payload, ∀ v, event.field f = some v →
    (v.isNull = true → lastCarried f front = none) ∧ Fits ((lastCarried f front).getD .null) v

variable {kind : CallKind} {row : CallRow} {events front : List (CallEvent × ℤ)} {event : CallEvent}
  {conversationId id f : String} {now : ℤ} {rows : List CallRow} {v : JsonValue}

theorem lastCarried_snoc (f : String) (events : List (CallEvent × ℤ)) (event : CallEvent × ℤ) :
    lastCarried f (events ++ [event]) = (event.1.carried f).or (lastCarried f events) := by
  rw [lastCarried, List.reverse_append, List.reverse_singleton, List.singleton_append,
    List.findSome?_cons]
  cases event.1.carried f with
  | none => rfl
  | some v => rfl

theorem carried_of_field (h : event.field f = some v) :
    event.carried f = if v.isNull then none else some v := by
  rw [CallEvent.carried, h, Option.filter_some]
  cases v.isNull <;> rfl

theorem carried_of_no_field (h : event.field f = none) : event.carried f = none := by
  rw [CallEvent.carried, h]
  rfl

/-- The status in an event names the state of its row; it is missing in an update that has none. -/
theorem named_status (event : CallEvent) :
    (event.field "status" = none ∧ event.kind = .acpToolCall ∧ event.status = .work) ∨
      ∃ s, event.field "status" = some (.string s) ∧
        event.kind.named (some (.string s)) = some event.status := by
  cases event with
  | toolCall data =>
    have hfield : (CallEvent.toolCall data).field "status" = some (ToolCallStatus.json data.status) :=
      get_record _ _
    obtain ⟨callId, name, args, status, input, output, description⟩ := data
    cases status with
    | running => exact .inr ⟨"running", hfield, rfl⟩
    | completed => exact .inr ⟨"completed", hfield, rfl⟩
    | error => exact .inr ⟨"error", hfield, rfl⟩
  | acpToolCall data =>
    have hmem : "status" ∈ CallEvent.updateNames := by decide
    have hkey : newKey "status" = "status" := by decide
    have hfield := CallEvent.field_newKey data hmem
    rw [hkey] at hfield
    obtain ⟨sessionId, ⟨sessionUpdate, callId, status, rest⟩, sdkMeta⟩ := data
    cases status with
    | none => exact .inl ⟨hfield, rfl, rfl⟩
    | some status =>
      cases status with
      | pending => exact .inr ⟨"pending", hfield, rfl⟩
      | inProgress => exact .inr ⟨"in_progress", hfield, rfl⟩
      | completed => exact .inr ⟨"completed", hfield, rfl⟩
      | failed => exact .inr ⟨"failed", hfield, rfl⟩

/-- The object of the fields after a merge. -/
theorem at?_mergedContent (conversationId : String) (now : ℤ) {b : JsonValue}
    (htype : row.type = event.kind.type) (hbody : row.content.at? event.kind.body = some b) :
    ∃ b', (row.mergedContent (event.row conversationId now)).at? event.kind.body = some b' ∧
      b'.isObject = true ∧
      (∀ f, f ≠ "status" → b'.get f = mergeMember (b.get f) (event.field f)) ∧
      b'.get "status" = if row.Late (event.row conversationId now) then
        some ((b.get "status").getD .null)
      else mergeMember (b.get "status") (event.field "status") := by
  have hpath : row.statusPath = event.kind.body ++ ["status"] := by
    rw [CallRow.statusPath, htype]
    cases event with
    | toolCall data => rfl
    | acpToolCall data => rfl
  have hpatched : (row.content.mergePatch event.content).at? event.kind.body =
      some (b.mergePatch event.fields) :=
    at?_mergePatch hbody (CallEvent.at?_content event) event.isObject_fields
  have hmember : ∀ f, (b.mergePatch event.fields).get f = mergeMember (b.get f) (event.field f) :=
    get_mergePatch event.isObject_fields
  have hobject' : (b.mergePatch event.fields).isObject = true :=
    isObject_mergePatch event.isObject_fields
  by_cases hlate : row.Late (event.row conversationId now)
  · refine ⟨(b.mergePatch event.fields).set "status" ((b.get "status").getD .null), ?_,
      isObject_set hobject', ?_, ?_⟩
    · rw [CallRow.mergedContent, if_pos hlate, hpath, at?_snoc, hbody]
      exact at?_setAt hpatched
    · intro f hf
      rw [get_set hobject', if_neg hf, hmember]
    · rw [if_pos hlate, get_set hobject', if_pos rfl]
  · refine ⟨_, ?_, hobject', fun f _ => hmember f, ?_⟩
    · rw [CallRow.mergedContent, if_neg hlate]
      exact hpatched
    · rw [if_neg hlate, hmember]

/-- What holds of the row of a call whatever its events are. -/
structure Tracked (kind : CallKind) (row : CallRow) (events : List (CallEvent × ℤ)) : Prop extends
    Settled kind row events where
  type : row.type = kind.type
  body : ∃ b, row.content.at? kind.body = some b ∧ b.isObject = true
  status : row.status = some .work ∨ row.status = some .finish ∨ row.status = some .error
  uncarried : ∀ f ∈ kind.payload, lastCarried f events = none →
    ∀ v, row.content.at? (kind.body ++ [f]) = some v → v.isNull = true

theorem status_cases (event : CallEvent) :
    event.status = .work ∨ event.status = .finish ∨ event.status = .error := by
  cases event with
  | toolCall data =>
    unfold CallEvent.status
    dsimp only
    split
    · exact .inl rfl
    · exact .inr (.inl rfl)
    · exact .inr (.inr rfl)
  | acpToolCall data =>
    unfold CallEvent.status
    dsimp only
    split
    · exact .inl rfl
    · exact .inl rfl
    · exact .inl rfl
    · exact .inr (.inl rfl)
    · exact .inr (.inr rfl)

theorem isNull_of_not_carried (hf : event.field f = some v) (h : event.carried f = none) :
    v.isNull = true := by
  rw [carried_of_field hf] at h
  by_contra hnull
  rw [if_neg hnull] at h
  cases h

namespace Tracked

/-- The row that the first event makes. -/
theorem first (event : CallEvent) (conversationId : String) (now : ℤ) :
    Tracked event.kind (event.row conversationId now) [(event, now)] where
  final := by
    rintro ⟨event', hmem, hfinal⟩
    rw [List.mem_singleton.mp hmem] at hfinal
    rcases status_cases event with hs | hs | hs
    · exact absurd hs hfinal
    · exact .inl (congrArg some hs)
    · exact .inr (congrArg some hs)
  named := by
    rw [at?_snoc, show (event.row conversationId now).content = event.content from rfl,
      CallEvent.at?_content]
    rcases named_status event with ⟨hfield, hkind, hwork⟩ | ⟨s, hfield, hnamed⟩
    · show event.kind.named (event.field "status") = some event.status
      rw [hfield, hkind, hwork]
      rfl
    · show event.kind.named (event.field "status") = some event.status
      rw [hfield, hnamed]
  createdAt_le := by
    intro event' hmem
    rw [List.mem_singleton.mp hmem]
    exact le_rfl
  createdAt_mem := List.mem_singleton_self _
  type := rfl
  body := ⟨event.fields, CallEvent.at?_content event, event.isObject_fields⟩
  status := by
    rcases status_cases event with hs | hs | hs
    · exact .inl (congrArg some hs)
    · exact .inr (.inl (congrArg some hs))
    · exact .inr (.inr (congrArg some hs))
  uncarried := by
    intro f _ hnone v hv
    have hcarried : event.carried f = none := by
      have hsnoc := lastCarried_snoc f [] (event, now)
      rw [List.nil_append, hnone] at hsnoc
      exact (Option.or_eq_none_iff.mp hsnoc.symm).1
    rw [at?_snoc, show (event.row conversationId now).content = event.content from rfl,
      CallEvent.at?_content] at hv
    exact isNull_of_not_carried hv hcarried

section

variable (h : Tracked event.kind row front)
include h

theorem field_merged (conversationId : String) (now : ℤ) (hf : f ∈ event.kind.payload) :
    (row.mergedContent (event.row conversationId now)).at? (event.kind.body ++ [f]) =
      mergeMember (row.content.at? (event.kind.body ++ [f])) (event.field f) := by
  obtain ⟨b, hbody, -⟩ := h.body
  obtain ⟨b', hbody', -, hget, -⟩ := at?_mergedContent conversationId now h.type hbody
  have hstatus : f ≠ "status" := fun heq => event.kind.status_not_payload (heq ▸ hf)
  rw [at?_snoc, at?_snoc, hbody', hbody]
  exact hget f hstatus

/-- The status of the row after one more event, and what the content says of it. -/
theorem named_merged (conversationId : String) (now : ℤ) :
    event.kind.named
        ((row.mergedContent (event.row conversationId now)).at? (event.kind.body ++ ["status"])) =
      (row.merged (event.row conversationId now)).status := by
  obtain ⟨b, hbody, -⟩ := h.body
  obtain ⟨b', hbody', -, -, hstatus⟩ :=
    at?_mergedContent conversationId now h.type hbody
  have hnamed := h.named
  rw [at?_snoc, hbody, Option.bind_some] at hnamed
  rw [at?_snoc, hbody', Option.bind_some, hstatus]
  by_cases hlate : row.Late (event.row conversationId now)
  · rw [if_pos hlate, show (row.merged (event.row conversationId now)).status = row.status from
      if_pos hlate, ← hnamed]
    cases hold : b.get "status" with
    | some old => rfl
    | none =>
      -- a row that is over has a status in its content
      rw [hold] at hnamed
      have hover := hlate.1
      rw [← hnamed] at hover
      cases hkind : event.kind with
      | toolCall | acpToolCall =>
        rw [hkind] at hover
        rcases hover with hover | hover <;> cases hover
  · rw [if_neg hlate, show (row.merged (event.row conversationId now)).status = some event.status
      from if_neg hlate]
    rcases named_status event with ⟨hfield, -, hwork⟩ | ⟨s, hfield, hnew⟩
    · rw [hfield, hwork]
      refine hnamed.trans (h.status.resolve_right fun hover => hlate ⟨hover, ?_⟩)
      exact congrArg some hwork
    · rw [hfield]
      exact hnew

theorem next (conversationId : String) (now : ℤ) :
    Tracked event.kind (row.merged (event.row conversationId now)) (front ++ [(event, now)]) where
  final := by
    rintro ⟨event', hmem, hfinal⟩
    by_cases hlate : row.Late (event.row conversationId now)
    · rw [show (row.merged (event.row conversationId now)).status = row.status from if_pos hlate]
      exact hlate.1
    · rw [show (row.merged (event.row conversationId now)).status = some event.status from
        if_neg hlate]
      rcases status_cases event with hs | hs | hs
      · rcases List.mem_append.mp hmem with hfront | hlast
        · exact absurd ⟨h.final ⟨event', hfront, hfinal⟩, congrArg some hs⟩ hlate
        · rw [List.mem_singleton.mp hlast] at hfinal
          exact absurd hs hfinal
      · exact .inl (congrArg some hs)
      · exact .inr (congrArg some hs)
  named := h.named_merged conversationId now
  createdAt_le := by
    intro event' hmem
    rcases List.mem_append.mp hmem with hfront | hlast
    · exact (min_le_left _ _).trans (h.createdAt_le event' hfront)
    · rw [List.mem_singleton.mp hlast]
      exact min_le_right _ _
  createdAt_mem := by
    rw [List.map_append, List.mem_append]
    show min row.createdAt now ∈ _ ∨ min row.createdAt now ∈ _
    rcases min_choice row.createdAt now with hmin | hmin
    · rw [hmin]
      exact .inl h.createdAt_mem
    · rw [hmin]
      exact .inr (List.mem_singleton_self _)
  type := h.type
  body := by
    obtain ⟨b, hbody, -⟩ := h.body
    obtain ⟨b', hbody', hobject', -, -⟩ :=
      at?_mergedContent conversationId now h.type hbody
    exact ⟨b', hbody', hobject'⟩
  status := by
    by_cases hlate : row.Late (event.row conversationId now)
    · rw [show (row.merged (event.row conversationId now)).status = row.status from if_pos hlate]
      exact h.status
    · rw [show (row.merged (event.row conversationId now)).status = some event.status from
        if_neg hlate]
      rcases status_cases event with hs | hs | hs
      · exact .inl (congrArg some hs)
      · exact .inr (.inl (congrArg some hs))
      · exact .inr (.inr (congrArg some hs))
  uncarried := by
    intro f hf hnone v hv
    rw [lastCarried_snoc, Option.or_eq_none_iff] at hnone
    rw [show (row.merged (event.row conversationId now)).content =
      row.mergedContent (event.row conversationId now) from rfl,
      h.field_merged conversationId now hf] at hv
    cases hfield : event.field f with
    | none =>
      rw [hfield] at hv
      exact h.uncarried f hf hnone.2 v hv
    | some w =>
      rw [hfield, mergeMember, isNull_of_not_carried hfield hnone.1] at hv
      cases hv

end

/-- While the payload is kept, a merge meets the value that was carried last. -/
theorem old_field (h : Tracked kind row front)
    (hpayload : ∀ f ∈ kind.payload, ∀ v, lastCarried f front = some v →
      row.content.at? (kind.body ++ [f]) = some v) (hf : f ∈ kind.payload) :
    (row.content.at? (kind.body ++ [f])).getD .null = (lastCarried f front).getD .null := by
  cases hlast : lastCarried f front with
  | some v => rw [hpayload f hf v hlast]
  | none =>
    cases hold : row.content.at? (kind.body ++ [f]) with
    | none => rfl
    | some v =>
      have hnull := h.uncarried f hf hlast v hold
      cases v with
      | null => rfl
      | _ => cases hnull

/-- One more event keeps the payload exactly if it says nothing that a merge does not take. -/
theorem payload_next (h : Tracked event.kind row front) (conversationId : String) (now : ℤ)
    (hpayload : ∀ f ∈ event.kind.payload, ∀ v, lastCarried f front = some v →
      row.content.at? (event.kind.body ++ [f]) = some v) :
    (∀ f ∈ event.kind.payload, ∀ v, lastCarried f (front ++ [(event, now)]) = some v →
      (row.merged (event.row conversationId now)).content.at? (event.kind.body ++ [f]) = some v) ↔
      KeepsPayload event.kind front event := by
  have hmerged : ∀ f ∈ event.kind.payload,
      (row.merged (event.row conversationId now)).content.at? (event.kind.body ++ [f]) =
        mergeMember (row.content.at? (event.kind.body ++ [f])) (event.field f) :=
    fun f hf => h.field_merged conversationId now hf
  constructor
  · intro hnew f hf v hfield
    have hold := h.old_field hpayload hf
    have hkept := hnew f hf
    rw [lastCarried_snoc, carried_of_field hfield, hmerged f hf, hfield] at hkept
    cases hnull : v.isNull with
    | true =>
      rw [hnull, if_pos rfl, Option.none_or, mergeMember, hnull, if_pos rfl] at hkept
      refine ⟨fun _ => ?_, ?_⟩
      · cases hlast : lastCarried f front with
        | none => rfl
        | some w => cases hkept w hlast
      · cases v with
        | null => trivial
        | _ => cases hnull
    | false =>
      rw [hnull, if_neg Bool.false_ne_true, Option.some_or, mergeMember, hnull,
        if_neg Bool.false_ne_true, hold] at hkept
      exact ⟨fun htrue => absurd htrue Bool.false_ne_true,
        mergePatch_eq_iff.mp (Option.some.inj (hkept v rfl))⟩
  · intro hkeeps f hf v hlast
    have hold := h.old_field hpayload hf
    rw [hmerged f hf]
    rw [lastCarried_snoc] at hlast
    cases hfield : event.field f with
    | none =>
      rw [carried_of_no_field hfield, Option.none_or] at hlast
      exact hpayload f hf v hlast
    | some w =>
      obtain ⟨hnone, hfits⟩ := hkeeps f hf w hfield
      rw [carried_of_field hfield] at hlast
      cases hnull : w.isNull with
      | true =>
        rw [hnull, if_pos rfl, Option.none_or, hnone hnull] at hlast
        cases hlast
      | false =>
        rw [hnull, if_neg Bool.false_ne_true, Option.some_or] at hlast
        cases hlast
        rw [mergeMember, hnull, if_neg Bool.false_ne_true, hold, mergePatch_eq_iff.mpr hfits]

end Tracked

/-- The rows after the events of a call, each with its time. -/
def persistAll (conversationId : String) (rows : List CallRow) (events : List (CallEvent × ℤ)) :
    List CallRow :=
  events.foldl (persist conversationId) rows

theorem persistAll_snoc (conversationId : String) (rows : List CallRow)
    (events : List (CallEvent × ℤ)) (event : CallEvent × ℤ) :
    persistAll conversationId rows (events ++ [event]) =
      persist conversationId (persistAll conversationId rows events) event := by
  rw [persistAll, List.foldl_append]
  rfl

theorem find_persist_first {event : CallEvent × ℤ} (hfree : Table.find CallRow.id rows id = none)
    (hid : event.1.id = id) (hskip : event.1.skipped = false) :
    Table.find CallRow.id (persist conversationId rows event) id =
      some (event.1.row conversationId event.2) := by
  have hkey : (event.1.row conversationId event.2).id = id := hid
  rw [persist, hskip, if_neg Bool.false_ne_true, upsertMessage, hkey, hfree]
  show (rows ++ [_]).find? _ = _
  rw [List.find?_append, show rows.find? _ = none from hfree, Option.none_or, List.find?_singleton,
    decide_eq_true hkey, if_pos rfl]

theorem find_persist_next {event : CallEvent × ℤ} (hrow : Table.find CallRow.id rows id = some row)
    (hid : event.1.id = id) (hskip : event.1.skipped = false) :
    Table.find CallRow.id (persist conversationId rows event) id =
      some (row.merged (event.1.row conversationId event.2)) := by
  have hkey : (event.1.row conversationId event.2).id = id := hid
  rw [persist, hskip, if_neg Bool.false_ne_true, upsertMessage, hkey, hrow]
  have hid' : row.id = id := Table.key_of_find hrow
  have hkeep : ∀ r : CallRow, r.id = id → (row.merged (event.1.row conversationId event.2)).id = id :=
    fun _ _ => hid'
  exact (Table.find_modify hkeep).trans (congrArg _ hrow)

/-- The events of a call have one kind, and an id that is persisted. -/
def OfCall (kind : CallKind) (id : String) (events : List (CallEvent × ℤ)) : Prop :=
  ∀ event ∈ events, event.1.kind = kind ∧ event.1.id = id ∧ event.1.skipped = false

theorem exists_tracked (conversationId : String) (hfree : Table.find CallRow.id rows id = none)
    (hcall : OfCall kind id front) (hne : front ≠ []) :
    ∃ row, Table.find CallRow.id (persistAll conversationId rows front) id = some row ∧
      Tracked kind row front := by
  induction front using List.reverseRecOn with
  | nil => exact absurd rfl hne
  | append_singleton front event ih =>
    obtain ⟨rfl, hid, hskip⟩ := hcall event (by simp)
    rw [persistAll_snoc]
    cases front with
    | nil => exact ⟨_, find_persist_first hfree hid hskip, .first event.1 conversationId event.2⟩
    | cons first rest =>
      obtain ⟨row, hrow, htracked⟩ :=
        ih (fun e he => hcall e (List.mem_append_left _ he)) (List.cons_ne_nil _ _)
      exact ⟨_, find_persist_next hrow hid hskip, htracked.next conversationId event.2⟩

/-- Before the second event the payload is that of the first. -/
theorem payload_first (event : CallEvent) (conversationId : String) (now : ℤ) :
    ∀ f ∈ event.kind.payload, ∀ v, lastCarried f [(event, now)] = some v →
      (event.row conversationId now).content.at? (event.kind.body ++ [f]) = some v := by
  intro f _ v hlast
  have hcarried : event.carried f = some v := by
    have hsnoc := lastCarried_snoc f [] (event, now)
    rw [List.nil_append, hlast] at hsnoc
    exact ((Option.or_none (o := event.carried f)).symm.trans hsnoc.symm)
  rw [at?_snoc]
  exact (congrArg (Option.bind · _) (CallEvent.at?_content event)).trans
    (Option.eq_some_of_filter_eq_some hcarried)

/-- After every event of a call its row has what the events have told, exactly if no event has a
null in the place of a value that was carried or an object that does not fit it. -/
theorem merges_events_iff (conversationId : String) (rows : List CallRow) (kind : CallKind)
    (id : String) (events : List (CallEvent × ℤ)) (hfree : Table.find CallRow.id rows id = none)
    (hcall : OfCall kind id events) :
    (∀ front, front ≠ [] → front <+: events →
      ∃ row, Table.find CallRow.id (persistAll conversationId rows front) id = some row ∧
        Merged kind row front) ↔
      ∀ front event, front ≠ [] → front ++ [event] <+: events →
        KeepsPayload kind front event.1 := by
  constructor
  · intro hmerged front event hne hpre
    have hfront : front <+: events := (List.prefix_append front [event]).trans hpre
    obtain ⟨row, hrow, htracked⟩ := exists_tracked conversationId hfree
      (fun e he => hcall e (hfront.subset he)) hne
    obtain ⟨row', hrow', hold⟩ := hmerged front hne hfront
    cases hrow.symm.trans hrow'
    obtain ⟨row', hrow', hnew⟩ := hmerged (front ++ [event]) (by simp) hpre
    obtain ⟨rfl, hid, hskip⟩ := hcall event (hpre.subset (by simp))
    rw [persistAll_snoc, find_persist_next hrow hid hskip] at hrow'
    cases hrow'
    exact (htracked.payload_next conversationId event.2 hold.payload).mp hnew.payload
  · intro hkeeps front
    induction front using List.reverseRecOn with
    | nil => exact fun hne => absurd rfl hne
    | append_singleton front event ih =>
      intro _ hpre
      have hfront : front <+: events := (List.prefix_append front [event]).trans hpre
      obtain ⟨rfl, hid, hskip⟩ := hcall event (hpre.subset (by simp))
      rw [persistAll_snoc]
      by_cases hne : front = []
      · subst hne
        exact ⟨_, find_persist_first hfree hid hskip,
          (Tracked.first event.1 conversationId event.2).toSettled,
          payload_first event.1 conversationId event.2⟩
      · obtain ⟨row, hrow, htracked⟩ := exists_tracked conversationId hfree
          (fun e he => hcall e (hfront.subset he)) hne
        obtain ⟨row', hrow', hold⟩ := ih hne hfront
        cases hrow.symm.trans hrow'
        exact ⟨_, find_persist_next hrow hid hskip,
          (htracked.next conversationId event.2).toSettled,
          (htracked.payload_next conversationId event.2 hold.payload).mpr
            (hkeeps front event hne hpre)⟩

/-- A call whose input is no JSON. -/
def sampleCall : ToolCallEventData where
  callId := "aionrs-1"
  name := "read"
  args := .string "x"
  status := .running
  input := some (.string "x")
  output := none
  description := none

/-- The result of the call. -/
def sampleResult : ToolCallEventData where
  callId := "aionrs-1"
  name := "read"
  args := .null
  status := .completed
  input := none
  output := some "y"
  description := none

def sampleRepeat : ToolCallEventData := { sampleResult with args := .string "x" }

def sampleEvents : List (CallEvent × ℤ) := [(.toolCall sampleCall, 2), (.toolCall sampleRepeat, 1)]

theorem ofCall_sampleEvents : OfCall .toolCall "aionrs-1" sampleEvents := by
  intro event hmem
  rcases List.mem_pair.mp hmem with rfl | rfl
  · exact ⟨rfl, rfl, by decide⟩
  · exact ⟨rfl, rfl, by decide⟩

theorem keepsPayload_sampleRepeat (front : List (CallEvent × ℤ)) :
    KeepsPayload .toolCall front (.toolCall sampleRepeat) := by
  have hargs : (CallEvent.toolCall sampleRepeat).field "args" = some (.string "x") := get_record _ _
  have hinput : (CallEvent.toolCall sampleRepeat).field "input" = none := get_record _ _
  have houtput : (CallEvent.toolCall sampleRepeat).field "output" = some (.string "y") :=
    get_record _ _
  have hdescription : (CallEvent.toolCall sampleRepeat).field "description" = none :=
    get_record _ _
  intro f hf v hfield
  simp only [CallKind.payload, List.mem_cons, List.not_mem_nil, or_false] at hf
  rcases hf with rfl | rfl | rfl | rfl
  · cases hargs.symm.trans hfield
    exact ⟨fun hnull => absurd hnull Bool.false_ne_true, trivial⟩
  · cases hinput.symm.trans hfield
  · cases houtput.symm.trans hfield
    exact ⟨fun hnull => absurd hnull Bool.false_ne_true, trivial⟩
  · cases hdescription.symm.trans hfield

theorem merges_events_sample :
    OfCall .toolCall "aionrs-1" sampleEvents ∧
      ∀ front, front ≠ [] → front <+: sampleEvents →
        ∃ row, Table.find CallRow.id (persistAll "c" [] front) "aionrs-1" = some row ∧
          Merged .toolCall row front := by
  refine ⟨ofCall_sampleEvents, (merges_events_iff "c" [] .toolCall "aionrs-1" sampleEvents rfl
    ofCall_sampleEvents).mpr ?_⟩
  intro front event hne hpre
  have hlast : event.1 = .toolCall sampleRepeat := by
    obtain ⟨rest, hrest⟩ := hpre
    match front, hne, hrest with
    | [_], _, hrest => cases hrest; rfl
    | _ :: _ :: front, _, hrest => cases front <;> cases hrest
  rw [hlast]
  exact keepsPayload_sampleRepeat front

/-- The result event of a call takes the arguments away that the call was stored with. -/
theorem result_event_drops_args :
    emitToolCall (fun _ => none) "1" "read" "x" = some sampleCall ∧
      emitToolResult "1" "read" false "y" = some sampleResult ∧
      lastCarried "args" [(.toolCall sampleCall, 1), (.toolCall sampleResult, 2)] =
        some (.string "x") ∧
      ∃ row, Table.find CallRow.id
          (persistAll "c" [] [(.toolCall sampleCall, 1), (.toolCall sampleResult, 2)]) "aionrs-1" =
            some row ∧
        row.content.at? ["args"] = none ∧
        ¬Merged .toolCall row [(.toolCall sampleCall, 1), (.toolCall sampleResult, 2)] := by
  let first : CallRow := (CallEvent.toolCall sampleCall).row "c" 1
  let last : CallRow := (CallEvent.toolCall sampleResult).row "c" 2
  have hcarried : lastCarried "args" [(.toolCall sampleCall, 1), (.toolCall sampleResult, 2)] =
      some (.string "x") := by
    have hcall : (CallEvent.toolCall sampleCall).field "args" = some (.string "x") := get_record _ _
    have hresult : (CallEvent.toolCall sampleResult).field "args" = some .null := get_record _ _
    rw [show [(CallEvent.toolCall sampleCall, (1 : ℤ)), (.toolCall sampleResult, 2)] =
      ([] ++ [(.toolCall sampleCall, 1)]) ++ [(.toolCall sampleResult, 2)] from rfl,
      lastCarried_snoc, lastCarried_snoc, carried_of_field hcall, carried_of_field hresult]
    rfl
  have hargs : (first.merged last).content.at? ["args"] = none := by
    have htracked : Tracked (CallEvent.toolCall sampleResult).kind first
        [(.toolCall sampleCall, 1)] := .first (.toolCall sampleCall) "c" 1
    have hargs : "args" ∈ (CallEvent.toolCall sampleResult).kind.payload := by decide
    have hresult : (CallEvent.toolCall sampleResult).field "args" = some .null := get_record _ _
    have hfield := htracked.field_merged "c" 2 hargs
    rw [hresult] at hfield
    exact hfield
  have hid : internalCallId "1" = some "aionrs-1" := by decide +kernel
  have hname : trim "read" ≠ "" := by decide
  have hfirst : Table.find CallRow.id (persist "c" [] (.toolCall sampleCall, 1)) "aionrs-1" =
      some first := find_persist_first rfl rfl (by decide)
  have hlast : Table.find CallRow.id (persist "c" (persist "c" [] (.toolCall sampleCall, 1))
      (.toolCall sampleResult, 2)) "aionrs-1" = some (first.merged last) :=
    find_persist_next hfirst rfl (by decide)
  refine ⟨?_, ?_, hcarried, first.merged last, hlast, hargs, ?_⟩
  · rw [emitToolCall, hid]
    exact if_neg hname
  · rw [emitToolResult, hid]
    exact if_neg hname
  · intro hmerged
    have hkept := hmerged.payload "args" (by decide) _ hcarried
    rw [show CallKind.toolCall.body ++ ["args"] = ["args"] from rfl, hargs] at hkept
    cases hkept

end AionCore.Conversation.ToolCalls
