import AionCore.Conversation.StoredMessages

/-!
# Conversations: rows of tool calls

`persist_tool_call`, `persist_acp_tool_call` and `persist_tool_group` of `stream_persistence.rs`.
The id of a row is the one that the agent gave to the call, in a table that all conversations
share.
-/

namespace AionCore.Conversation

/-- What one of the three functions persists. A group without entries gets an id that is minted. -/
inductive ToolEvent where
  | toolCall (data : ToolCallEventData)
  | acpToolCall (data : AcpToolCallEventData)
  | toolGroup (entries : List ToolGroupEntry) (minted : String) (json : String)

namespace ToolEvent

variable (event : ToolEvent)

def id : ToolEvent → String
  | .toolCall data => data.callId
  | .acpToolCall data => data.toolCallId
  | .toolGroup entries minted _ => (entries.head?.map ToolGroupEntry.callId).getD minted

def type : ToolEvent → MessageType
  | .toolCall .. => .toolCall
  | .acpToolCall .. => .acpToolCall
  | .toolGroup .. => .toolGroup

def content : ToolEvent → String
  | .toolCall data => data.json
  | .acpToolCall data => data.json
  | .toolGroup _ _ json => json

def status : ToolEvent → StoredStatus
  | .toolCall data =>
    match data.status with
    | .running => .work
    | .completed => .finish
    | .error => .error
  | .acpToolCall data =>
    match data.status with
    | none | some .pending | some .inProgress => .work
    | some .completed => .finish
    | some .failed => .error
  | .toolGroup entries _ _ =>
    if entries.all fun e => e.status = .completed ∨ e.status = .error then .finish else .work

def writeKind : ToolEvent → RuntimeWriteKind
  | .toolCall .. => .toolCallPersist
  | .acpToolCall .. => .acpToolCallPersist
  | .toolGroup .. => .toolGroupPersist

/-- The row of an event in a conversation. -/
def row (conversationId : String) (now : ℤ) : StoredMessage :=
  { id := event.id, conversationId, msgId := some event.id, type := event.type
    content := event.content, position := some "left", status := some event.status
    hidden := false, createdAt := now }

end ToolEvent

/-- A call of one of the three functions: the lifecycle that it reads, whether the lookup and the
write of the database run, and the time. -/
structure PersistCall where
  event : ToolEvent
  lifecycle : RuntimeLifecycleState
  lookupRuns : Bool
  runs : Bool
  now : ℤ

/-- The messages, with what they were and what was persisted last. -/
structure ToolRows where
  rows : StoredMessages
  start : StoredMessages
  last : Option ToolEvent

namespace ToolRows

variable (json : SqliteJson) (conversationId : String) (rows : StoredMessages)

section Persist

variable (call : PersistCall)

/-- The table after a statement; one that fails is only logged. -/
def after (result : Option StoredMessages) : StoredMessages :=
  if call.runs then result.getD rows else rows

def persistUpsert : StoredMessages :=
  after rows call ((call.event.row conversationId call.now).upsert json rows)

def persistToolCall (data : ToolCallEventData) : StoredMessages :=
  if !call.lifecycle.allows .toolCallPersist then rows
  else if trim data.callId = "" then rows
  else persistUpsert json conversationId rows call

def persistAcpToolCall : StoredMessages :=
  if !call.lifecycle.allows .acpToolCallPersist then rows
  else persistUpsert json conversationId rows call

/-- Whether `persist_tool_group` finds a row of the group; a lookup that fails finds none. -/
def groupFound : Bool :=
  call.lookupRuns && rows.hasMsgId conversationId call.event.id .toolGroup

def persistToolGroup : StoredMessages :=
  let row := call.event.row conversationId call.now
  if !call.lifecycle.allows .toolGroupPersist then rows
  else if groupFound conversationId rows call then
    after rows call (rows.updateMessage row.id row.content row.status)
  else after rows call (rows.insertMessage row)

def persist : StoredMessages :=
  match call.event with
  | .toolCall data => persistToolCall json conversationId rows call data
  | .acpToolCall _ => persistAcpToolCall json conversationId rows call
  | .toolGroup .. => persistToolGroup conversationId rows call

def skipped : ToolEvent → Bool
  | .toolCall data => trim data.callId = ""
  | _ => false

end Persist

def OthersKept (start : StoredMessages) : Prop :=
  ∀ row : StoredMessage, row.conversationId ≠ conversationId → (row ∈ rows ↔ row ∈ start)

def Reflects (event : ToolEvent) (content : String) : Prop :=
  content = event.content ∨
    ∃ (prior : StoredMessage) (now : ℤ), prior.conversationId = conversationId ∧
      prior.type = event.type ∧
      prior.mergedContent json (event.row conversationId now) = some content

def HasRow (event : ToolEvent) : Prop :=
  ∃ row ∈ rows, row.id = event.id ∧ row.conversationId = conversationId ∧
    row.type = event.type ∧ Reflects json conversationId event row.content

/-- The id is free, or is that of a row of the conversation and of that kind which takes the
write: for a group it is found, and otherwise the JSON merges. -/
def Target (call : PersistCall) : Prop :=
  match rows.byId call.event.id with
  | none => call.event.type = .toolGroup → groupFound conversationId rows call = false
  | some row =>
    row.conversationId = conversationId ∧ row.type = call.event.type ∧
      if call.event.type = .toolGroup then groupFound conversationId rows call = true
      else (row.mergedContent json (call.event.row conversationId call.now)).isSome = true

/-- The write goes to a row that the conversation has for the call, or is not needed. -/
def WritesOwnRow (t : ToolRows) (call : PersistCall) : Prop :=
  (call.lifecycle.allows call.event.writeKind = true ∧ call.runs = true ∧
    Target json conversationId t.rows call) ∨
  HasRow json conversationId t.rows call.event ∨ skipped call.event = true

/-- Other conversations are as they were, and the last call that has an id has its row. -/
structure Kept (t : ToolRows) : Prop where
  others : OthersKept conversationId t.rows t.start
  last : ∀ event, t.last = some event → trim event.id ≠ "" →
    HasRow json conversationId t.rows event

/-- Calls for one conversation, one after another. -/
def machine : Machine ToolRows PersistCall where
  start t := Table.Distinct StoredMessage.id t.rows ∧ t.start = t.rows ∧ t.last = none
  admits _ _ := True
  fire t call :=
    { t with rows := persist json conversationId t.rows call, last := some call.event }

section Writes

variable {json conversationId rows} {rows' : StoredMessages} {call : PersistCall}

/-- What a call does: nothing, where its target is not right; a row is added; or the row with the id
is changed. -/
inductive Persisted (json : SqliteJson) (conversationId : String) (rows : StoredMessages)
    (call : PersistCall) : StoredMessages → Prop
  | nothing (h : call.lifecycle.allows call.event.writeKind = true → call.runs = true →
      skipped call.event = true ∨ ¬Target json conversationId rows call) :
    Persisted json conversationId rows call rows
  | inserted (allowed : call.lifecycle.allows call.event.writeKind = true) (runs : call.runs = true)
    (free : rows.byId call.event.id = none) (target : Target json conversationId rows call) :
    Persisted json conversationId rows call (rows ++ [call.event.row conversationId call.now])
  | changed (allowed : call.lifecycle.allows call.event.writeKind = true) (runs : call.runs = true)
    (row new : StoredMessage) (taken : rows.byId call.event.id = some row)
    (id : new.id = row.id) (conversation : new.conversationId = row.conversationId)
    (type : new.type = row.type)
    (content : new.content = call.event.content ∨
      row.mergedContent json (call.event.row conversationId call.now) = some new.content)
    (target : row.conversationId = conversationId → row.type = call.event.type →
      Target json conversationId rows call) :
    Persisted json conversationId rows call
      (Table.modify StoredMessage.id rows call.event.id fun _ => new)

theorem persisted_upsert (hkind : call.event.type ≠ .toolGroup)
    (hallowed : call.lifecycle.allows call.event.writeKind = true) :
    Persisted json conversationId rows call (persistUpsert json conversationId rows call) := by
  unfold persistUpsert after
  cases hruns : call.runs with
  | false => exact .nothing fun _ h => (by rw [hruns] at h; cases h)
  | true =>
    rw [if_pos rfl]
    cases hfind : rows.byId call.event.id with
    | none =>
      have hfree : rows.byId (call.event.row conversationId call.now).id = none := hfind
      rw [StoredMessage.upsert_free hfree]
      refine .inserted hallowed hruns hfind ?_
      unfold Target
      rw [hfind]
      exact fun h => absurd h hkind
    | some row =>
      have htaken : rows.byId (call.event.row conversationId call.now).id = some row := hfind
      rw [StoredMessage.upsert_taken htaken]
      cases hmerged : row.merged json (call.event.row conversationId call.now) with
      | none =>
        refine .nothing fun _ _ => .inr fun htarget => ?_
        unfold Target at htarget
        rw [hfind] at htarget
        have hsome := htarget.2.2
        rw [if_neg hkind, Option.isSome_iff_exists] at hsome
        obtain ⟨content, hcontent⟩ := hsome
        unfold StoredMessage.merged at hmerged
        rw [hcontent] at hmerged
        cases hmerged
      | some new =>
        obtain ⟨hid, hc, ht, hcontent⟩ := StoredMessage.merged_eq_some hmerged
        refine .changed hallowed hruns row new hfind hid hc ht (.inr hcontent) fun hown htype => ?_
        unfold Target
        rw [hfind]
        refine ⟨hown, htype, ?_⟩
        rw [if_neg hkind, hcontent]
        rfl

theorem persisted_group (hkind : call.event.type = .toolGroup)
    (hallowed : call.lifecycle.allows .toolGroupPersist = true)
    (hwrite : call.event.writeKind = .toolGroupPersist) :
    Persisted json conversationId rows call (persistToolGroup conversationId rows call) := by
  have allowed : call.lifecycle.allows call.event.writeKind = true := hwrite ▸ hallowed
  unfold persistToolGroup after
  rw [hallowed]
  cases hruns : call.runs with
  | false =>
    have nothing : Persisted json conversationId rows call rows :=
      .nothing fun _ h => (by rw [hruns] at h; cases h)
    cases groupFound conversationId rows call <;> exact nothing
  | true =>
    cases hfound : groupFound conversationId rows call with
    | true =>
      show Persisted json conversationId rows call
        (Option.getD (rows.updateMessage call.event.id call.event.content
          (some call.event.status)) rows)
      cases hfind : rows.byId call.event.id with
      | none =>
        rw [StoredMessages.updateMessage_free hfind]
        refine .nothing fun _ _ => .inr fun htarget => ?_
        unfold Target at htarget
        rw [hfind] at htarget
        rw [htarget hkind] at hfound
        cases hfound
      | some row =>
        rw [StoredMessages.updateMessage_taken hfind]
        refine .changed allowed hruns row _ hfind rfl rfl rfl (.inl rfl) fun hown htype => ?_
        unfold Target
        rw [hfind]
        refine ⟨hown, htype, ?_⟩
        rw [if_pos hkind]
        exact hfound
    | false =>
      show Persisted json conversationId rows call
        (Option.getD (rows.insertMessage (call.event.row conversationId call.now)) rows)
      cases hfind : rows.byId call.event.id with
      | none =>
        have hfree : rows.byId (call.event.row conversationId call.now).id = none := hfind
        rw [StoredMessages.insertMessage_free hfree]
        refine .inserted allowed hruns hfind ?_
        unfold Target
        rw [hfind]
        exact fun _ => hfound
      | some row =>
        have htaken : rows.byId (call.event.row conversationId call.now).id = some row := hfind
        rw [StoredMessages.insertMessage_taken htaken]
        refine .nothing fun _ _ => .inr fun htarget => ?_
        unfold Target at htarget
        rw [hfind] at htarget
        have hf := htarget.2.2
        rw [if_pos hkind, hfound] at hf
        cases hf

theorem persisted_persist :
    Persisted json conversationId rows call (persist json conversationId rows call) := by
  have forbidden : ∀ {kind}, call.event.writeKind = kind →
      call.lifecycle.allows kind = false → Persisted json conversationId rows call rows := by
    intro kind hkind hallows
    exact .nothing fun h => (by rw [hkind, hallows] at h; cases h)
  unfold persist
  cases hevent : call.event with
  | toolCall data =>
    have hkind : call.event.writeKind = .toolCallPersist := by rw [hevent]; rfl
    unfold persistToolCall
    cases hallows : call.lifecycle.allows .toolCallPersist with
    | false => exact forbidden hkind hallows
    | true =>
      simp only [Bool.not_true, Bool.false_eq_true, if_false]
      split
      · next hblank =>
        have hskip : skipped call.event = true := by rw [hevent]; exact decide_eq_true hblank
        exact .nothing fun _ _ => .inl hskip
      · exact persisted_upsert (by rw [hevent]; exact fun h => (by cases h)) (hkind ▸ hallows)
  | acpToolCall data =>
    have hkind : call.event.writeKind = .acpToolCallPersist := by rw [hevent]; rfl
    unfold persistAcpToolCall
    cases hallows : call.lifecycle.allows .acpToolCallPersist with
    | false => exact forbidden hkind hallows
    | true => exact persisted_upsert (by rw [hevent]; exact fun h => (by cases h)) (hkind ▸ hallows)
  | toolGroup entries minted content =>
    have hkind : call.event.writeKind = .toolGroupPersist := by rw [hevent]; rfl
    cases hallows : call.lifecycle.allows .toolGroupPersist with
    | false =>
      unfold persistToolGroup
      rw [hallows]
      exact forbidden hkind hallows
    | true => exact persisted_group (by rw [hevent]; rfl) hallows hkind

variable {row : StoredMessage}

theorem mem_changed (hd : Table.Distinct StoredMessage.id rows) {new r : StoredMessage}
    (taken : rows.byId call.event.id = some row) :
    r ∈ Table.modify StoredMessage.id rows call.event.id (fun _ => new) ↔
      (r ∈ rows ∧ r.id ≠ call.event.id) ∨ r = new :=
  hd.mem_modify_of_find taken

theorem Persisted.distinct (h : Persisted json conversationId rows call rows')
    (hd : Table.Distinct StoredMessage.id rows) : Table.Distinct StoredMessage.id rows' := by
  cases h with
  | nothing => exact hd
  | inserted allowed runs free target => exact hd.insert free
  | changed allowed runs row new taken id conversation type content target =>
    refine hd.modify fun r hr => ?_
    rw [id, hr]
    exact Table.key_of_find taken

theorem reflects_of_content {new : StoredMessage} (hown : row.conversationId = conversationId)
    (htype : row.type = call.event.type)
    (content : new.content = call.event.content ∨
      row.mergedContent json (call.event.row conversationId call.now) = some new.content) :
    Reflects json conversationId call.event new.content := by
  obtain h | h := content
  · exact .inl h
  · exact .inr ⟨row, call.now, hown, htype, h⟩

theorem own_of_hasRow (hd : Table.Distinct StoredMessage.id rows)
    (taken : rows.byId call.event.id = some row) (h : HasRow json conversationId rows call.event) :
    row.conversationId = conversationId ∧ row.type = call.event.type := by
  obtain ⟨r, hr, hid, hc, ht, -⟩ := h
  have hrow : r = row := hd.inj hr (Table.mem_of_find taken)
    (hid.trans (Table.key_of_find taken).symm)
  exact hrow ▸ ⟨hc, ht⟩

theorem own_of_target (taken : rows.byId call.event.id = some row)
    (h : Target json conversationId rows call) :
    row.conversationId = conversationId ∧ row.type = call.event.type := by
  unfold Target at h
  rw [taken] at h
  exact ⟨h.1, h.2.1⟩

theorem blank_of_skipped {event : ToolEvent} (h : skipped event = true) : trim event.id = "" := by
  cases event with
  | toolCall data => exact of_decide_eq_true h
  | _ => cases h

/-- A call on its own row leaves the others, and its row reflects it. -/
theorem Persisted.kept (h : Persisted json conversationId rows call rows')
    (hd : Table.Distinct StoredMessage.id rows)
    (hown : (call.lifecycle.allows call.event.writeKind = true ∧ call.runs = true ∧
      Target json conversationId rows call) ∨ HasRow json conversationId rows call.event)
    (hskip : skipped call.event = false) :
    OthersKept conversationId rows' rows ∧ HasRow json conversationId rows' call.event := by
  cases h with
  | nothing blocked =>
    refine ⟨fun _ _ => Iff.rfl, ?_⟩
    obtain ⟨allowed, runs, target⟩ | had := hown
    · obtain h | h := blocked allowed runs
      · rw [hskip] at h
        cases h
      · exact absurd target h
    · exact had
  | inserted allowed runs free target =>
    refine ⟨fun row hrow => ?_, ?_⟩
    · rw [List.mem_append, List.mem_singleton]
      constructor
      · rintro (h | rfl)
        · exact h
        · exact absurd rfl hrow
      · exact Or.inl
    · exact ⟨_, List.mem_append_right _ (List.mem_singleton_self _), rfl, rfl, rfl, .inl rfl⟩
  | changed allowed runs row new taken id conversation type content target =>
    have hrow : row.conversationId = conversationId ∧ row.type = call.event.type := by
      obtain ⟨-, -, target⟩ | had := hown
      · exact own_of_target taken target
      · exact own_of_hasRow hd taken had
    refine ⟨fun r hr => ?_, ?_⟩
    · rw [mem_changed hd taken]
      constructor
      · rintro (⟨h, -⟩ | rfl)
        · exact h
        · exact absurd (conversation.trans hrow.1) hr
      · intro h
        refine .inl ⟨h, fun hid => ?_⟩
        have heq : r = row := hd.inj h (Table.mem_of_find taken)
          (hid.trans (Table.key_of_find taken).symm)
        exact hr (heq ▸ hrow.1)
    · exact ⟨new, (mem_changed hd taken).mpr (.inr rfl), id.trans (Table.key_of_find taken),
        conversation.trans hrow.1, type.trans hrow.2, reflects_of_content hrow.1 hrow.2 content⟩

/-- A call whose row is there afterwards was on its own row. -/
theorem Persisted.own (h : Persisted json conversationId rows call rows')
    (hd : Table.Distinct StoredMessage.id rows)
    (hrow : HasRow json conversationId rows' call.event) :
    (call.lifecycle.allows call.event.writeKind = true ∧ call.runs = true ∧
      Target json conversationId rows call) ∨ HasRow json conversationId rows call.event := by
  cases h with
  | nothing blocked => exact .inr hrow
  | inserted allowed runs free target => exact .inl ⟨allowed, runs, target⟩
  | changed allowed runs row new taken id conversation type content target =>
    refine .inl ⟨allowed, runs, ?_⟩
    obtain ⟨r, hr, hid, hc, ht, -⟩ := hrow
    obtain ⟨-, hne⟩ | rfl := (mem_changed hd taken).mp hr
    · exact absurd hid hne
    · exact target (conversation.symm.trans hc) (type.symm.trans ht)

theorem persist_of_skipped (h : skipped call.event = true) :
    persist json conversationId rows call = rows := by
  unfold persist
  cases hevent : call.event with
  | toolCall data =>
    rw [hevent] at h
    have hblank : trim data.callId = "" := of_decide_eq_true h
    simp [persistToolCall, hblank]
  | _ =>
    rw [hevent] at h
    cases h

end Writes

section Runs

variable {json conversationId} {t : ToolRows} {call : PersistCall}

theorem kept_fire (hd : Table.Distinct StoredMessage.id t.rows)
    (ht : OthersKept conversationId t.rows t.start)
    (hown : WritesOwnRow json conversationId t call) :
    Kept json conversationId ((machine json conversationId).fire t call) := by
  have spec : Persisted json conversationId t.rows call (persist json conversationId t.rows call) :=
    persisted_persist
  have finish : OthersKept conversationId (persist json conversationId t.rows call) t.rows →
      (trim call.event.id ≠ "" →
        HasRow json conversationId (persist json conversationId t.rows call) call.event) →
      Kept json conversationId ((machine json conversationId).fire t call) := by
    intro hothers hrow
    refine ⟨fun r hr => (hothers r hr).trans (ht r hr), fun event hevent hblank => ?_⟩
    obtain rfl := Option.some.inj hevent
    exact hrow hblank
  cases hskip : skipped call.event with
  | true =>
    refine finish ?_ fun hblank => absurd (blank_of_skipped hskip) hblank
    rw [persist_of_skipped hskip]
    exact fun _ _ => Iff.rfl
  | false =>
    have hown' : (call.lifecycle.allows call.event.writeKind = true ∧ call.runs = true ∧
        Target json conversationId t.rows call) ∨
        HasRow json conversationId t.rows call.event := by
      obtain h | h | h := hown
      · exact .inl h
      · exact .inr h
      · rw [hskip] at h
        cases h
    obtain ⟨hothers, hrow⟩ := spec.kept hd hown' hskip
    exact finish hothers fun _ => hrow

theorem reachable_kept
    (h : ((machine json conversationId).restrict (WritesOwnRow json conversationId)).Reachable t) :
    Table.Distinct StoredMessage.id t.rows ∧ Kept json conversationId t := by
  refine h.invariant (M := (machine json conversationId).restrict (WritesOwnRow json conversationId))
    (P := fun t => Table.Distinct StoredMessage.id t.rows ∧ Kept json conversationId t) ?_ ?_
  · rintro t ⟨hd, hstart, hlast⟩
    refine ⟨hd, fun r _ => (by rw [hstart]), fun event hevent => ?_⟩
    rw [hlast] at hevent
    cases hevent
  · intro t call ⟨hd, ht⟩ hcall
    exact ⟨persisted_persist.distinct hd, kept_fire hd ht.others hcall.2⟩

/-- As long as every call is on its own row, the rows of other conversations stay and each call
with an id has its row; the next call keeps this exactly if it is on its own row. -/
theorem tool_calls_kept
    (h : ((machine json conversationId).restrict (WritesOwnRow json conversationId)).Reachable t) :
    Kept json conversationId t ∧ ∀ call : PersistCall, trim call.event.id ≠ "" →
      (Kept json conversationId ((machine json conversationId).fire t call) ↔
        WritesOwnRow json conversationId t call) := by
  obtain ⟨hd, ht⟩ := reachable_kept h
  refine ⟨ht, fun call hblank => ⟨fun hkept => ?_, kept_fire hd ht.others⟩⟩
  have hrow := hkept.last call.event rfl hblank
  have spec : Persisted json conversationId t.rows call (persist json conversationId t.rows call) :=
    persisted_persist
  have hown := spec.own hd hrow
  exact hown.elim .inl fun h => .inr (.inl h)

end Runs

section Execution

/-- A JSON merge that takes the new text. -/
def replacing : SqliteJson := ⟨fun _ new => some new, fun _ _ new => some new⟩

def toolCallOf (conversationId id content : String) : StoredMessage :=
  ⟨id, conversationId, some id, .toolCall, content, some "left", some .work, false, 0⟩

def toolCallCompleted (id content : String) : PersistCall :=
  ⟨.toolCall ⟨id, .completed, content⟩, .active, true, true, 1⟩

def twoConversations (id : String) : ToolRows :=
  let rows := [toolCallOf "b" id "theirs"]
  ⟨rows, rows, none⟩

/-- An agent reuses the id of a call of another conversation: that row is overwritten. -/
theorem foreign_tool_call_overwritten :
    ¬∀ t, (machine replacing "a").Reachable t → Kept replacing "a" t := by
  intro h
  let t := (machine replacing "a").fire (twoConversations "call_1")
    (toolCallCompleted "call_1" "ours")
  have distinct : Table.Distinct StoredMessage.id (twoConversations "call_1").rows :=
    List.nodup_singleton _
  have start : (machine replacing "a").Reachable (twoConversations "call_1") :=
    .start ⟨distinct, rfl, rfl⟩
  have kept := (h t (start.fire trivial)).others (toolCallOf "b" "call_1" "theirs") (by decide)
  have before : toolCallOf "b" "call_1" "theirs" ∈ t.start := List.mem_singleton_self _
  have gone : toolCallOf "b" "call_1" "theirs" ∉ t.rows := by decide +kernel
  exact gone (kept.mpr before)

theorem tool_calls_kept_free_id :
    let t := (machine replacing "a").fire (twoConversations "call_1")
      (toolCallCompleted "call_2" "ours")
    Kept replacing "a" t ∧ ∀ call : PersistCall, trim call.event.id ≠ "" →
      (Kept replacing "a" ((machine replacing "a").fire t call) ↔
        WritesOwnRow replacing "a" t call) := by
  intro t
  have start : ((machine replacing "a").restrict (WritesOwnRow replacing "a")).Reachable
      (twoConversations "call_1") := .start ⟨List.nodup_singleton _, rfl, rfl⟩
  have free : (twoConversations "call_1").rows.byId "call_2" = none := by decide
  have target : Target replacing "a" (twoConversations "call_1").rows
      (toolCallCompleted "call_2" "ours") := by
    unfold Target
    rw [show (toolCallCompleted "call_2" "ours").event.id = "call_2" from rfl, free]
    exact fun h => (by cases h)
  have own : WritesOwnRow replacing "a" (twoConversations "call_1")
      (toolCallCompleted "call_2" "ours") := .inl ⟨rfl, rfl, target⟩
  have reached : ((machine replacing "a").restrict (WritesOwnRow replacing "a")).Reachable t :=
    start.fire ⟨trivial, own⟩
  exact tool_calls_kept reached

end Execution

end ToolRows

end AionCore.Conversation
