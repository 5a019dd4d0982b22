import AionCore.Conversation.StreamRelay
import AionCore.Lib.Runs

/-!
# Conversations: what the relay stores

A reply that the relay has received whole is stored whole. The text rows are the runs of text
between the events that close a text segment, in their order, and the thinking rows are the runs of
thinking.
-/

namespace AionCore.Conversation

namespace AgentStreamEvent

def textContent : AgentStreamEvent → String
  | text content => content
  | _ => ""

def thinkingContent : AgentStreamEvent → String
  | thinking data => if data.status = some "done" then "" else data.content
  | _ => ""

/-- The event closes a text segment. -/
def closesText : AgentStreamEvent → Bool
  | thinking data => data.status ≠ some "done"
  | toolCall _ | acpToolCall _ | toolGroup _ _ => true
  | _ => false

/-- The event closes a thinking segment. -/
def closesThinking : AgentStreamEvent → Bool
  | thinking data => data.status = some "done"
  | text _ | toolCall _ | acpToolCall _ | toolGroup _ _ => true
  | _ => false

theorem textContent_of_closesText (event : AgentStreamEvent) (h : event.closesText) :
    event.textContent = "" := by
  cases event <;> first | rfl | exact absurd h (by simp [closesText])

/-- The ids under which the event stores a tool call. -/
def callIds : AgentStreamEvent → List String
  | toolCall data => [data.callId]
  | acpToolCall data => [data.toolCallId]
  | toolGroup entries _ => entries.map (·.callId)
  | _ => []

end AgentStreamEvent

/-- The events of a stream. -/
def eventsOf (stream : List Received) : List AgentStreamEvent :=
  stream.filterMap fun received =>
    match received.signal with
    | .event event => some event
    | .lagged _ | .closed => none

/-- The relay may write, and the statement runs. -/
structure WriteSample.Succeeds (sample : WriteSample) : Prop where
  lifecycle : sample.lifecycle = .active ∨ sample.lifecycle = .cancelling
  ok : ∀ id, sample.ok id = true

/-- The conversation is not being deleted, and the writes succeed. -/
structure Received.Undisturbed (received : Received) : Prop where
  deleting : received.deleting = false
  onThinking : received.onThinking.Succeeds
  onText : received.onText.Succeeds
  onLast : received.onLast.Succeeds

def RuntimeWriteKind.ofRelay : RuntimeWriteKind → Bool
  | .assistantTextFlush | .assistantTextFinalize | .assistantThinkingFinalize | .toolCallPersist
  | .acpToolCallPersist | .toolGroupPersist | .terminalFinalize => true
  | _ => false

theorem WriteSample.Succeeds.allows {sample : WriteSample} (h : sample.Succeeds)
    (kind : RuntimeWriteKind) (hkind : kind.ofRelay) : sample.lifecycle.allows kind = true := by
  obtain hl | hl := h.lifecycle
  · simp [hl, RuntimeLifecycleState.allows]
  · rw [hl]
    cases kind <;> first | rfl | exact absurd hkind (by decide)

namespace StreamRelay

variable (relay : StreamRelay) (n₀ : ℕ)

/-- An id that the relay gives to its messages. -/
def Own (id : String) : Prop := id = relay.msgId ∨ ∃ n, n₀ ≤ n ∧ relay.ids.draw n = id

def Given (s : RelayState) (id : String) : Prop :=
  (s.usedPrimarySegmentMsgId = true ∧ id = relay.msgId) ∨
    ∃ n, n₀ ≤ n ∧ n < s.nextId ∧ relay.ids.draw n = id

variable {relay n₀}

theorem Given.own {s : RelayState} {id : String} (h : relay.Given n₀ s id) : relay.Own n₀ id := by
  obtain ⟨-, h⟩ | ⟨n, hn, -, h⟩ := h
  · exact .inl h
  · exact .inr ⟨n, hn, h⟩

theorem Given.mono {s s' : RelayState} {id : String} (h : relay.Given n₀ s id)
    (hused : s.usedPrimarySegmentMsgId = true → s'.usedPrimarySegmentMsgId = true)
    (hnext : s.nextId ≤ s'.nextId) : relay.Given n₀ s' id := by
  obtain ⟨hu, h⟩ | ⟨n, hn, hlt, h⟩ := h
  · exact .inl ⟨hused hu, h⟩
  · exact .inr ⟨n, hn, by omega, h⟩

end StreamRelay

def TextSegmentState.flushedIds (segment : TextSegmentState) : List String :=
  if segment.recordCreated then [segment.id] else []

/-- The messages of the relay against a reader of the text and one of the thinking. -/
structure Stored (relay : StreamRelay) (n₀ : ℕ) (texts thoughts : Runs) (s : RelayState) :
    Prop where
  bound : n₀ ≤ s.nextId
  nodup : (s.rows.map (·.id)).Nodup
  origin : ∀ row ∈ s.rows, relay.Given n₀ s row.id ∨
    ¬relay.Own n₀ row.id ∧ row.kind ≠ .text ∧ row.kind ≠ .thinking
  /-- The rows of the closed segments, then the row of the open one if it has been flushed. -/
  text : ∃ closed flushed, s.rows.ofKind .text = closed ++ flushed ∧
    closed.map (·.content) = texts.closed ∧ closed.map (·.id) = s.textSegments ∧
    (∀ row ∈ closed, row.status ≠ .work ∧ row.hidden = false) ∧
    flushed.map (·.id) = (s.activeText.map (·.flushedIds)).getD []
  currentText : texts.current = (s.activeText.map (·.buffer)).getD ""
  thought : (s.rows.ofKind .thinking).map (·.content) = thoughts.closed
  currentThought : thoughts.current = (s.activeThinking.map (·.buffer)).getD ""
  full : s.fullTextBuffer = String.join texts.closed ++ texts.current
  textGiven : ∀ segment, s.activeText = some segment → relay.Given n₀ s segment.id ∧
    (if segment.recordCreated then segment.buffer ≠ "" else segment.id ∉ s.rows.map (·.id))
  thoughtGiven : ∀ segment, s.activeThinking = some segment → relay.Given n₀ s segment.id ∧
    segment.id ∉ s.rows.map (·.id)
  apart : s.activeText = none ∨ s.activeThinking = none

namespace Stored

variable {relay : StreamRelay} {n₀ : ℕ} {texts thoughts : Runs} {s : RelayState}

theorem start (relay : StreamRelay) (n₀ : ℕ) : Stored relay n₀ ⟨[], ""⟩ ⟨[], ""⟩ (.start n₀) where
  bound := le_rfl
  nodup := List.nodup_nil
  origin row hrow := absurd hrow List.not_mem_nil
  text := ⟨[], [], rfl, rfl, rfl, fun row hrow => absurd hrow List.not_mem_nil, rfl⟩
  currentText := rfl
  thought := rfl
  currentThought := rfl
  full := rfl
  textGiven segment h := by cases h
  thoughtGiven segment h := by cases h
  apart := .inl rfl

variable {row : MessageRow}

theorem own (h : Stored relay n₀ texts thoughts s) (hrow : row ∈ s.rows)
    (hkind : row.kind = .text ∨ row.kind = .thinking) : relay.Own n₀ row.id := by
  obtain hg | ⟨-, ht, hth⟩ := h.origin row hrow
  · exact hg.own
  · obtain hk | hk := hkind
    · exact absurd hk ht
    · exact absurd hk hth

variable {id : String}

section

variable (h : Stored relay n₀ texts thoughts s)
include h

theorem fresh (hown : relay.Own n₀ id) (hnot : ¬relay.Given n₀ s id) : id ∉ s.rows.map (·.id) := by
  intro hmem
  obtain ⟨row, hrow, rfl⟩ := List.mem_map.1 hmem
  obtain hg | ⟨hno, -⟩ := h.origin row hrow
  · exact hnot hg
  · exact hno hown

theorem quiet (sent : List StreamPayload) (attempt : TurnAttemptSummary) :
    Stored relay n₀ texts thoughts { s with sent := sent, attempt := attempt } :=
  ⟨h.bound, h.nodup, h.origin, h.text, h.currentText, h.thought, h.currentThought, h.full, h.textGiven,
    h.thoughtGiven, h.apart⟩

theorem forward (msgId : String) (event : AgentStreamEvent) :
    Stored relay n₀ texts thoughts (s.forward msgId event) :=
  h.quiet _ _

end

theorem nodup_concat {rows : MessageTable} (row : MessageRow) (hn : (rows.map (·.id)).Nodup)
    (hfresh : row.id ∉ rows.map (·.id)) : ((rows ++ [row]).map (·.id)).Nodup := by
  rw [List.map_append, List.nodup_append]
  refine ⟨hn, List.nodup_singleton _, ?_⟩
  intro id hid id' hid'
  rw [List.map_singleton, List.mem_singleton] at hid'
  rintro rfl
  exact hfresh (hid' ▸ hid)

/-- The origin of the rows when one is added. -/
theorem origin_append (h : Stored relay n₀ texts thoughts s)
    (hrow : relay.Given n₀ s row.id ∨
      ¬relay.Own n₀ row.id ∧ row.kind ≠ .text ∧ row.kind ≠ .thinking) :
    ∀ row' ∈ s.rows ++ [row], relay.Given n₀ s row'.id ∨
      ¬relay.Own n₀ row'.id ∧ row'.kind ≠ .text ∧ row'.kind ≠ .thinking := by
  intro row' hrow'
  obtain hrow' | hrow' := List.mem_append.1 hrow'
  · exact h.origin row' hrow'
  · rwa [List.mem_singleton.1 hrow']

variable {f : MessageRow → MessageRow}

theorem origin_modify (h : Stored relay n₀ texts thoughts s)
    (hf : ∀ row, (f row).id = row.id ∧ (f row).kind = row.kind) :
    ∀ row ∈ s.rows.modify id f, relay.Given n₀ s row.id ∨
      ¬relay.Own n₀ row.id ∧ row.kind ≠ .text ∧ row.kind ≠ .thinking := by
  intro row hrow
  obtain ⟨row₀, hrow₀, hid, hkind⟩ := MessageTable.exists_of_mem_modify hf hrow
  rw [← hid, ← hkind]
  exact h.origin row₀ hrow₀

variable {sample : WriteSample}

theorem completeActiveThinking (h : Stored relay n₀ texts thoughts s) (hsample : sample.Succeeds) :
    Stored relay n₀ texts thoughts.cut (s.completeActiveThinking sample) := by
  cases hseg : s.activeThinking with
  | none =>
    have hcut : thoughts.cut = thoughts :=
      Runs.cut_of_current_eq (by rw [h.currentThought, hseg]; rfl)
    have hsame : s.completeActiveThinking sample = s := by
      simp [RelayState.completeActiveThinking, hseg]
    rw [hcut, hsame]
    exact h
  | some segment =>
    have hcurrent : thoughts.current = segment.buffer := by rw [h.currentThought, hseg]; rfl
    obtain ⟨hgiven, hfresh⟩ := h.thoughtGiven segment hseg
    have htext : s.activeText = none := by
      obtain hn | hn := h.apart
      · exact hn
      · rw [hseg] at hn
        cases hn
    have hallows := hsample.allows .assistantThinkingFinalize rfl
    by_cases hbuffer : segment.buffer = ""
    · have hcut : thoughts.cut = thoughts := Runs.cut_of_current_eq (hcurrent.trans hbuffer)
      simp only [RelayState.completeActiveThinking, hseg, RelayState.persistThinkingSegment,
        hbuffer, if_true]
      rw [hcut]
      refine ⟨h.bound, h.nodup, h.origin, h.text, h.currentText, h.thought, ?_, h.full, h.textGiven,
        fun _ hs => (by cases hs), .inr rfl⟩
      exact hcurrent.trans hbuffer
    · have hne : thoughts.current ≠ "" := fun he => hbuffer (hcurrent.symm.trans he)
      have hinsert := MessageTable.insertMessage_of_notMem
        ⟨segment.id, .thinking, segment.buffer, .finish, false⟩ hfresh
      simp only [RelayState.completeActiveThinking, hseg, RelayState.persistThinkingSegment,
        hbuffer, if_false, RelayState.forward, hallows, hsample.ok, Bool.not_true,
        Bool.false_eq_true, hinsert]
      refine ⟨h.bound, nodup_concat _ h.nodup hfresh, h.origin_append (.inl hgiven), ?_,
        h.currentText, ?_, rfl, h.full, ?_, fun _ hs => (by cases hs), .inr rfl⟩
      · rw [MessageTable.ofKind_append]
        simpa using h.text
      · rw [MessageTable.ofKind_append, Runs.cut_closed_of_current_ne hne, ← h.thought, hcurrent]
        simp
      · intro segment' hs
        rw [show s.activeText = some segment' from hs] at htext
        cases htext

theorem completeActiveThinking_activeThinking (s : RelayState) (sample : WriteSample) :
    (s.completeActiveThinking sample).activeThinking = none := by
  cases hseg : s.activeThinking with
  | none => simp [RelayState.completeActiveThinking, hseg]
  | some segment =>
    simp only [RelayState.completeActiveThinking, hseg, RelayState.persistThinkingSegment]
    split
    · rfl
    · split <;> rfl

theorem closeActiveTextSegment_activeText (s : RelayState) (sample : WriteSample)
    (status : MessageStatus) : (s.closeActiveTextSegment sample status).activeText = none := by
  cases hseg : s.activeText with
  | none => simp [RelayState.closeActiveTextSegment, hseg]
  | some segment =>
    simp only [RelayState.closeActiveTextSegment, hseg, RelayState.finalizeTextSegment]
    repeat' split
    all_goals rfl

variable {segment : TextSegmentState}

theorem exists_flushed {closed flushed : MessageTable}
    (hrows : s.rows.ofKind .text = closed ++ flushed) (hcreated : segment.recordCreated = true)
    (hids : flushed.map (·.id) = segment.flushedIds) :
    ∃ row ∈ s.rows, row.kind = .text ∧ row.id = segment.id ∧ flushed = [row] := by
  rw [TextSegmentState.flushedIds, if_pos hcreated, List.map_eq_singleton_iff] at hids
  obtain ⟨row, rfl, hid⟩ := hids
  have hmem : row ∈ s.rows.ofKind .text := hrows ▸ List.mem_append_right _ (List.mem_singleton_self _)
  obtain ⟨hin, hkind⟩ := MessageTable.mem_ofKind.1 hmem
  exact ⟨row, hin, hkind, hid, rfl⟩

/-- A change of the flushed row of the open segment. -/
theorem ofKind_modify_flushed {closed : MessageTable} (hn : (s.rows.map (·.id)).Nodup)
    (hrows : s.rows.ofKind .text = closed ++ [row])
    (hf : ∀ row, (f row).id = row.id ∧ (f row).kind = row.kind) :
    (s.rows.modify row.id f).ofKind .text = closed ++ [f row] ∧
      (s.rows.modify row.id f).ofKind .thinking = s.rows.ofKind .thinking := by
  have hmem : row ∈ s.rows.ofKind .text := hrows ▸ List.mem_append_right _ (List.mem_singleton_self _)
  obtain ⟨hin, hkind⟩ := MessageTable.mem_ofKind.1 hmem
  have hn' := (MessageTable.map_id_ofKind_sublist s.rows .text).nodup hn
  rw [hrows, List.map_append, List.nodup_append] at hn'
  have hnot : row.id ∉ closed.map (·.id) := fun hc =>
    hn'.2.2 _ hc _ (List.mem_singleton_self _) rfl
  constructor
  · rw [MessageTable.ofKind_modify fun row => (hf row).2, hrows]
    have hclosed := MessageTable.modify_of_notMem (f := f) hnot
    rw [MessageTable.modify] at hclosed
    rw [MessageTable.modify, List.map_append, hclosed]
    simp
  · rw [MessageTable.ofKind_modify fun row => (hf row).2]
    apply MessageTable.modify_of_notMem
    apply MessageTable.notMem_ofKind .thinking hn hin
    rw [hkind]
    decide

/-- The rows when the open segment is written: into its row, if it has one. -/
def openRows (s : RelayState) (segment : TextSegmentState) (updates : MessageRowUpdate)
    (row : MessageRow) : MessageTable :=
  if segment.recordCreated then s.rows.modify segment.id updates.apply else s.rows ++ [row]

/-- These are rows in which the open segment stands behind the closed ones, in a row with `P`. -/
structure WritesOpen (relay : StreamRelay) (n₀ : ℕ) (texts : Runs) (s : RelayState) (id : String)
    (rows : MessageTable) (P : MessageRow → Prop) : Prop where
  nodup : (rows.map (·.id)).Nodup
  origin : ∀ row ∈ rows, relay.Given n₀ s row.id ∨
    ¬relay.Own n₀ row.id ∧ row.kind ≠ .text ∧ row.kind ≠ .thinking
  text : ∃ closed row, rows.ofKind .text = closed ++ [row] ∧
    closed.map (·.content) = texts.closed ∧ closed.map (·.id) = s.textSegments ∧
    (∀ row ∈ closed, row.status ≠ .work ∧ row.hidden = false) ∧ row.id = id ∧ P row
  thinking : rows.ofKind .thinking = s.rows.ofKind .thinking

section

variable (h : Stored relay n₀ texts thoughts s)
include h

theorem writesOpen (hseg : s.activeText = some segment) (updates : MessageRowUpdate)
    (row : MessageRow) (hid : row.id = segment.id) (hkind : row.kind = .text)
    {P : MessageRow → Prop} (hupdates : ∀ row, P (updates.apply row)) (hrow : P row) :
    WritesOpen relay n₀ texts s segment.id (openRows s segment updates row) P := by
  obtain ⟨hgiven, hrecord⟩ := h.textGiven segment hseg
  obtain ⟨closed, flushed, hrows, hcontents, hsegments, hclosed, hflushed⟩ := h.text
  rw [hseg] at hflushed
  have hf : ∀ row, (updates.apply row).id = row.id ∧ (updates.apply row).kind = row.kind :=
    fun row => ⟨rfl, rfl⟩
  unfold openRows
  by_cases hcreated : segment.recordCreated = true
  · obtain ⟨old, hin, -, hold, rfl⟩ := exists_flushed hrows hcreated hflushed
    obtain ⟨htexts, hthoughts⟩ := ofKind_modify_flushed h.nodup hrows hf
    rw [hold] at htexts hthoughts
    rw [if_pos hcreated]
    refine ⟨?_, h.origin_modify hf, ⟨closed, _, htexts, hcontents, hsegments, hclosed, hold,
      hupdates old⟩, hthoughts⟩
    rw [MessageTable.map_id_modify fun row => (hf row).1]
    exact h.nodup
  · rw [if_neg hcreated] at hrecord ⊢
    have hempty : flushed = [] := by simpa [TextSegmentState.flushedIds, hcreated] using hflushed
    refine ⟨nodup_concat _ h.nodup (hid ▸ hrecord), h.origin_append (.inl (hid ▸ hgiven)),
      ⟨closed, row, ?_, hcontents, hsegments, hclosed, hid, hrow⟩, ?_⟩
    · rw [MessageTable.ofKind_append, hrows, hempty, if_pos hkind, List.append_nil]
    · rw [MessageTable.ofKind_append, if_neg (by simp [hkind]), List.append_nil]

/-- The statements that write the open segment, where they succeed. -/
theorem openRows_eq (hseg : s.activeText = some segment) (updates : MessageRowUpdate)
    (row : MessageRow) (hid : row.id = segment.id) :
    (if segment.recordCreated then s.rows.updateMessage true segment.id updates
      else s.rows.insertMessage true row) = (openRows s segment updates row, true) := by
  obtain ⟨-, hrecord⟩ := h.textGiven segment hseg
  obtain ⟨closed, flushed, hrows, -, -, -, hflushed⟩ := h.text
  rw [hseg] at hflushed
  unfold openRows
  by_cases hcreated : segment.recordCreated = true
  · obtain ⟨old, hin, -, hold, -⟩ := exists_flushed hrows hcreated hflushed
    rw [if_pos hcreated, if_pos hcreated]
    exact MessageTable.updateMessage_of_mem updates (List.mem_map.2 ⟨old, hin, hold⟩)
  · rw [if_neg hcreated] at hrecord
    rw [if_neg hcreated, if_neg hcreated]
    exact MessageTable.insertMessage_of_notMem row (hid ▸ hrecord)

/-- Where one segment is open, the other one is not. -/
theorem activeThinking_eq_none (hseg : s.activeText = some segment) : s.activeThinking = none := by
  obtain hn | hn := h.apart
  · rw [hseg] at hn
    cases hn
  · exact hn

theorem closeActiveTextSegment (hsample : sample.Succeeds) (status : MessageStatus)
    (hstatus : status ≠ .work) :
    Stored relay n₀ texts.cut thoughts (s.closeActiveTextSegment sample status) := by
  cases hseg : s.activeText with
  | none =>
    have hcut : texts.cut = texts := Runs.cut_of_current_eq (by rw [h.currentText, hseg]; rfl)
    have hsame : s.closeActiveTextSegment sample status = s := by
      simp [RelayState.closeActiveTextSegment, hseg]
    rw [hcut, hsame]
    exact h
  | some segment =>
    have hcurrent : texts.current = segment.buffer := by rw [h.currentText, hseg]; rfl
    have hallows := hsample.allows .assistantTextFinalize rfl
    by_cases hbuffer : segment.buffer = ""
    · have hcut : texts.cut = texts := Runs.cut_of_current_eq (hcurrent.trans hbuffer)
      have hnew : segment.recordCreated = false := by
        by_contra hc
        have hrecord := (h.textGiven segment hseg).2
        rw [if_pos (by simpa using hc)] at hrecord
        exact hrecord hbuffer
      obtain ⟨closed, flushed, hrows, hcontents, hsegments, hclosed, hflushed⟩ := h.text
      have hempty : flushed = [] := by
        simpa [hseg, TextSegmentState.flushedIds, hnew] using hflushed
      simp only [RelayState.closeActiveTextSegment, hseg, RelayState.finalizeTextSegment, hallows,
        hbuffer, Bool.not_true, Bool.false_eq_true, if_false, if_true]
      rw [hcut]
      exact ⟨h.bound, h.nodup, h.origin,
        ⟨closed, [], by rw [hrows, hempty], hcontents, hsegments, hclosed, rfl⟩,
        hcurrent.trans hbuffer, h.thought, h.currentThought, h.full, fun _ hs => (by cases hs),
        h.thoughtGiven, .inl rfl⟩
    · have hcut := Runs.cut_closed_of_current_ne fun he => hbuffer (hcurrent.symm.trans he)
      have hwrite := h.openRows_eq hseg
        { content := some segment.buffer, status := some status, hidden := some false }
        ⟨segment.id, .text, segment.buffer, status, false⟩ rfl
      have hresult : s.closeActiveTextSegment sample status =
          { s with
            activeText := none
            rows := openRows s segment
              { content := some segment.buffer, status := some status, hidden := some false }
              ⟨segment.id, .text, segment.buffer, status, false⟩
            textSegments := s.textSegments ++ [segment.id] } := by
        simp only [RelayState.closeActiveTextSegment, hseg, RelayState.finalizeTextSegment,
          hallows, hbuffer, hsample.ok, Bool.not_true, Bool.false_eq_true, if_false]
        split at hwrite <;> simp [*]
      obtain ⟨hnodup, horigin, ⟨closed, row, htexts, hcontents, hsegments, hclosed, hid, hcontent,
        hrow⟩, hthinking⟩ := h.writesOpen hseg
          { content := some segment.buffer, status := some status, hidden := some false }
          ⟨segment.id, .text, segment.buffer, status, false⟩ rfl rfl
          (P := fun row => row.content = segment.buffer ∧ row.status ≠ .work ∧ row.hidden = false)
          (fun _ => ⟨rfl, hstatus, rfl⟩) ⟨rfl, hstatus, rfl⟩
      rw [hresult]
      refine ⟨h.bound, hnodup, horigin, ⟨closed ++ [row], [], ?_, ?_, ?_, ?_, rfl⟩, rfl, ?_,
        h.currentThought, ?_, fun _ hs => (by cases hs), fun segment' hs => ?_, .inl rfl⟩
      · rw [List.append_nil]
        exact htexts
      · rw [List.map_append, hcontents, hcut, hcurrent, List.map_singleton, hcontent]
      · rw [List.map_append, hsegments, List.map_singleton, hid]
      · exact List.forall_mem_append.2 ⟨hclosed, fun row' hrow' => List.mem_singleton.1 hrow' ▸ hrow⟩
      · rw [hthinking]
        exact h.thought
      · rw [Runs.join_cut, Runs.cut_current, String.append_empty]
        exact h.full
      · have hnone := h.activeThinking_eq_none hseg
        rw [show s.activeThinking = some segment' from hs] at hnone
        cases hnone

/-- More ids are given. -/
theorem grow {used : Bool} {next : ℕ} (hused : s.usedPrimarySegmentMsgId = true → used = true)
    (hnext : s.nextId ≤ next) :
    Stored relay n₀ texts thoughts { s with usedPrimarySegmentMsgId := used, nextId := next } := by
  have hmono : ∀ id, relay.Given n₀ s id →
      relay.Given n₀ { s with usedPrimarySegmentMsgId := used, nextId := next } id :=
    fun id hid => hid.mono hused hnext
  refine ⟨h.bound.trans hnext, h.nodup, fun row hrow => ?_, h.text, h.currentText, h.thought,
    h.currentThought, h.full, fun segment hs => ?_, fun segment hs => ?_, h.apart⟩
  · exact (h.origin row hrow).imp_left (hmono _)
  · exact (h.textGiven segment hs).imp_left (hmono _)
  · exact (h.thoughtGiven segment hs).imp_left (hmono _)

end

theorem not_given_draw (hmsg : relay.ids.Drawn n₀ relay.msgId) (hbound : n₀ ≤ s.nextId) :
    ¬relay.Given n₀ s (relay.ids.draw s.nextId) := by
  rintro (⟨-, he⟩ | ⟨n, -, hlt, he⟩)
  · exact (hmsg.mono hbound).ne_draw he.symm
  · have := relay.ids.fresh he
    omega

section

variable (h : Stored relay n₀ texts thoughts s)
include h

theorem mintSegmentMsgId (hmsg : relay.ids.Drawn n₀ relay.msgId) :
    Stored relay n₀ texts thoughts (s.mintSegmentMsgId relay).2 ∧
      relay.Given n₀ (s.mintSegmentMsgId relay).2 (s.mintSegmentMsgId relay).1 ∧
      (s.mintSegmentMsgId relay).1 ∉ (s.mintSegmentMsgId relay).2.rows.map (·.id) := by
  by_cases hused : s.usedPrimarySegmentMsgId = true
  · have hfresh := h.fresh (.inr ⟨s.nextId, h.bound, rfl⟩) (not_given_draw hmsg h.bound)
    have hgrow := h.grow (fun hu => hu) (Nat.le_succ s.nextId)
    simp only [RelayState.mintSegmentMsgId, hused, if_true]
    exact ⟨hused ▸ hgrow, .inr ⟨s.nextId, h.bound, Nat.lt_succ_self _, rfl⟩, hfresh⟩
  · have hnot : ¬relay.Given n₀ s relay.msgId := by
      rintro (⟨hu, -⟩ | ⟨n, hn, -, he⟩)
      · exact hused hu
      · exact (hmsg.mono hn).ne_draw he.symm
    have hfresh := h.fresh (.inl rfl) hnot
    have hgrow := h.grow (fun _ => rfl) (le_refl s.nextId)
    rw [Bool.not_eq_true] at hused
    simp only [RelayState.mintSegmentMsgId, hused, Bool.false_eq_true, if_false]
    exact ⟨hgrow, .inl ⟨rfl, rfl⟩, hfresh⟩

theorem mintMsgId (hmsg : relay.ids.Drawn n₀ relay.msgId) :
    Stored relay n₀ texts thoughts (s.mintMsgId relay).2 ∧
      relay.Given n₀ (s.mintMsgId relay).2 (s.mintMsgId relay).1 ∧
      (s.mintMsgId relay).1 ∉ (s.mintMsgId relay).2.rows.map (·.id) :=
  ⟨h.grow (fun hu => hu) (Nat.le_succ s.nextId),
    .inr ⟨s.nextId, h.bound, Nat.lt_succ_self _, rfl⟩,
    h.fresh (.inr ⟨s.nextId, h.bound, rfl⟩) (not_given_draw hmsg h.bound)⟩

theorem openText (hmsg : relay.ids.Drawn n₀ relay.msgId) (hthinking : s.activeThinking = none) :
    Stored relay n₀ texts thoughts (s.openText relay).2 ∧
      (s.openText relay).2.activeText = some (s.openText relay).1 ∧
      (s.openText relay).2.activeThinking = none := by
  cases hseg : s.activeText with
  | some segment =>
    simp only [RelayState.openText, hseg]
    exact ⟨h, trivial, hthinking⟩
  | none =>
    obtain ⟨hs, hgiven, hfresh⟩ := h.mintSegmentMsgId hmsg
    have htext : (s.mintSegmentMsgId relay).2.activeText = none := by
      unfold RelayState.mintSegmentMsgId
      split <;> exact hseg
    have hthinking' : (s.mintSegmentMsgId relay).2.activeThinking = none := by
      unfold RelayState.mintSegmentMsgId
      split <;> exact hthinking
    simp only [RelayState.openText, hseg]
    obtain ⟨closed, flushed, hrows, hcontents, hsegments, hclosed, hflushed⟩ := hs.text
    have hopen := hs.currentText
    rw [htext] at hflushed hopen
    refine ⟨⟨hs.bound, hs.nodup, hs.origin, ⟨closed, flushed, hrows, hcontents, hsegments, hclosed,
      hflushed⟩, hopen, hs.thought, hs.currentThought, hs.full, ?_, hs.thoughtGiven, .inr hthinking'⟩,
      trivial, hthinking'⟩
    intro segment hsegment
    cases hsegment
    exact ⟨hgiven, hfresh⟩

theorem openThinking (hmsg : relay.ids.Drawn n₀ relay.msgId) (htext : s.activeText = none) :
    Stored relay n₀ texts thoughts (s.openThinking relay).2 ∧
      (s.openThinking relay).2.activeThinking = some (s.openThinking relay).1 ∧
      (s.openThinking relay).2.activeText = none := by
  cases hseg : s.activeThinking with
  | some segment =>
    simp only [RelayState.openThinking, hseg]
    exact ⟨h, trivial, htext⟩
  | none =>
    obtain ⟨hs, hgiven, hfresh⟩ := h.mintSegmentMsgId hmsg
    have htext' : (s.mintSegmentMsgId relay).2.activeText = none := by
      unfold RelayState.mintSegmentMsgId
      split <;> exact htext
    have hthinking : (s.mintSegmentMsgId relay).2.activeThinking = none := by
      unfold RelayState.mintSegmentMsgId
      split <;> exact hseg
    simp only [RelayState.openThinking, hseg]
    have hopen := hs.currentThought
    rw [hthinking] at hopen
    refine ⟨⟨hs.bound, hs.nodup, hs.origin, hs.text, hs.currentText, hs.thought, hopen, hs.full,
      hs.textGiven, ?_, .inl htext'⟩, trivial, htext'⟩
    intro segment hsegment
    cases hsegment
    exact ⟨hgiven, hfresh⟩

/-- The open text segment takes a chunk. -/
theorem prolongText (hseg : s.activeText = some segment) (content : String) (counter : ℕ) :
    Stored relay n₀ (texts.prolong content) thoughts
      { s with
        fullTextBuffer := s.fullTextBuffer ++ content
        activeText := some { segment with
          buffer := segment.buffer ++ content
          flushCounter := counter } } := by
  obtain ⟨closed, flushed, hrows, hcontents, hsegments, hclosed, hflushed⟩ := h.text
  obtain ⟨hgiven, hrecord⟩ := h.textGiven segment hseg
  have hcurrent := h.currentText
  have hapart := h.apart
  rw [hseg] at hflushed hcurrent hapart
  refine ⟨h.bound, h.nodup, h.origin, ⟨closed, flushed, hrows, hcontents, hsegments, hclosed,
    hflushed⟩, ?_, h.thought, h.currentThought, ?_, ?_, h.thoughtGiven, ?_⟩
  · show texts.current ++ content = segment.buffer ++ content
    rw [hcurrent]
    rfl
  · show s.fullTextBuffer ++ content = String.join texts.closed ++ (texts.current ++ content)
    rw [h.full, String.append_assoc]
  · intro segment' hs
    cases hs
    refine ⟨hgiven, ?_⟩
    by_cases hcreated : segment.recordCreated = true
    · rw [if_pos hcreated] at hrecord ⊢
      intro he
      exact hrecord (String.append_eq_empty_iff.1 he).1
    · rw [if_neg hcreated] at hrecord ⊢
      exact hrecord
  · obtain ha | ha := hapart
    · cases ha
    · exact .inr ha

/-- The open thinking segment takes a chunk. -/
theorem prolongThinking {segment : ThinkingSegmentState} (hseg : s.activeThinking = some segment)
    (content : String) :
    Stored relay n₀ texts (thoughts.prolong content)
      { s with activeThinking := some { segment with buffer := segment.buffer ++ content } } := by
  have hcurrent := h.currentThought
  have hapart := h.apart
  have hgiven := h.thoughtGiven segment hseg
  rw [hseg] at hcurrent hapart
  refine ⟨h.bound, h.nodup, h.origin, h.text, h.currentText, h.thought, ?_, h.full, h.textGiven,
    ?_, ?_⟩
  · show thoughts.current ++ content = segment.buffer ++ content
    rw [hcurrent]
    rfl
  · intro segment' hs
    cases hs
    exact hgiven
  · obtain ha | ha := hapart
    · exact .inl ha
    · cases ha

end

theorem flushTextSegment
    (h : Stored relay n₀ texts thoughts { s with activeText := some segment })
    (hsample : sample.Succeeds) :
    Stored relay n₀ texts thoughts
      { (s.flushTextSegment sample segment).1 with
        activeText := some { (s.flushTextSegment sample segment).2 with flushCounter := 0 } } := by
  have hallows := hsample.allows .assistantTextFlush rfl
  obtain ⟨hgiven, hrecord⟩ := h.textGiven segment rfl
  have hthinking : s.activeThinking = none := h.activeThinking_eq_none rfl
  by_cases hbuffer : segment.buffer = ""
  · have hflush : s.flushTextSegment sample segment = (s, segment) := by
      simp [RelayState.flushTextSegment, hallows, hbuffer]
    obtain ⟨closed, flushed, hrows, hcontents, hsegments, hclosed, hflushed⟩ := h.text
    rw [hflush]
    refine ⟨h.bound, h.nodup, h.origin, ⟨closed, flushed, hrows, hcontents, hsegments, hclosed,
      hflushed⟩, h.currentText, h.thought, h.currentThought, h.full, ?_, h.thoughtGiven,
      .inr hthinking⟩
    intro segment' hs
    cases hs
    exact ⟨hgiven, hrecord⟩
  · let updates : MessageRowUpdate := { content := some segment.buffer, status := some .work }
    let row : MessageRow := ⟨segment.id, .text, segment.buffer, .work, false⟩
    have hwrite := h.openRows_eq rfl updates row rfl
    have hflush : s.flushTextSegment sample segment =
        ({ s with rows := openRows s segment updates row },
          { segment with recordCreated := true }) := by
      simp only [RelayState.flushTextSegment, hallows, hbuffer, hsample.ok, Bool.not_true,
        Bool.false_eq_true, if_false]
      obtain ⟨id, buffer, created, counter⟩ := segment
      cases created <;> exact Prod.ext (congrArg (fun r => { s with rows := r.1 }) hwrite) rfl
    obtain ⟨hnodup, horigin, ⟨closed, row', htexts, hcontents, hsegments, hclosed, hid, -⟩, hkept⟩ :=
      h.writesOpen rfl updates row rfl rfl (P := fun _ => True) (fun _ => trivial) trivial
    rw [hflush]
    refine ⟨h.bound, hnodup, horigin, ⟨closed, [row'], htexts, hcontents, hsegments, hclosed, ?_⟩,
      h.currentText, ?_, h.currentThought, h.full, fun segment' hs => ?_, fun segment' hs => ?_,
      .inr hthinking⟩
    · rw [List.map_singleton, hid]
      rfl
    · rw [show (openRows s segment updates row).ofKind .thinking = _ from hkept]
      exact h.thought
    · cases hs
      exact ⟨hgiven, by rwa [if_pos rfl]⟩
    · rw [show s.activeThinking = some segment' from hs] at hthinking
      cases hthinking

section

variable (h : Stored relay n₀ texts thoughts s)
include h

/-- A new message that is neither text nor thinking. -/
theorem insertAside (row : MessageRow) (hid : relay.Given n₀ s row.id ∨ ¬relay.Own n₀ row.id)
    (hkind : row.kind ≠ .text ∧ row.kind ≠ .thinking)
    (htext : ∀ segment, s.activeText = some segment → segment.id ≠ row.id)
    (hthinking : ∀ segment, s.activeThinking = some segment → segment.id ≠ row.id) :
    Stored relay n₀ texts thoughts { s with rows := (s.rows.insertMessage true row).1 } := by
  by_cases hmem : row.id ∈ s.rows.map (·.id)
  · have hsame : (s.rows.insertMessage true row).1 = s.rows := by
      simp [MessageTable.insertMessage, (MessageTable.hasId_iff s.rows row.id).2 hmem]
    rw [hsame]
    exact h
  · rw [MessageTable.insertMessage_of_notMem row hmem]
    have hother : ∀ id : String, id ≠ row.id → id ∉ s.rows.map (·.id) →
        id ∉ (s.rows ++ [row]).map (·.id) := by
      intro id hne hnot hin
      rw [List.map_append, List.map_singleton, List.mem_append, List.mem_singleton] at hin
      obtain hin | hin := hin
      · exact hnot hin
      · exact hne hin
    refine ⟨h.bound, nodup_concat row h.nodup hmem,
      h.origin_append (hid.imp_right fun hno => ⟨hno, hkind⟩), ?_, h.currentText, ?_,
      h.currentThought, h.full, ?_, ?_, h.apart⟩
    · rw [MessageTable.ofKind_append, if_neg hkind.1, List.append_nil]
      exact h.text
    · rw [MessageTable.ofKind_append, if_neg hkind.2, List.append_nil]
      exact h.thought
    · intro segment hs
      obtain ⟨hgiven, hrecord⟩ := h.textGiven segment hs
      refine ⟨hgiven, ?_⟩
      split
      · rwa [if_pos ‹_›] at hrecord
      · rw [if_neg ‹_›] at hrecord
        exact hother _ (htext segment hs) hrecord
    · intro segment hs
      obtain ⟨hgiven, hnot⟩ := h.thoughtGiven segment hs
      exact ⟨hgiven, hother _ (hthinking segment hs) hnot⟩

/-- A change of a message that is neither text nor thinking. -/
theorem modifyAside (id : String) (hf : ∀ row, (f row).id = row.id ∧ (f row).kind = row.kind)
    (hother : ∀ row ∈ s.rows, row.id = id → row.kind ≠ .text ∧ row.kind ≠ .thinking) :
    Stored relay n₀ texts thoughts { s with rows := s.rows.modify id f } := by
  have hids : (s.rows.modify id f).map (·.id) = s.rows.map (·.id) :=
    MessageTable.map_id_modify fun row => (hf row).1
  have hsame : ∀ kind : MessageKind, kind = .text ∨ kind = .thinking →
      (s.rows.modify id f).ofKind kind = s.rows.ofKind kind := by
    intro kind hkind
    rw [MessageTable.ofKind_modify fun row => (hf row).2]
    apply MessageTable.modify_of_notMem
    intro hmem
    obtain ⟨row, hrow, hid⟩ := List.mem_map.1 hmem
    obtain ⟨hin, hk⟩ := MessageTable.mem_ofKind.1 hrow
    obtain ⟨ht, hth⟩ := hother row hin hid
    obtain rfl | rfl := hkind
    · exact ht hk
    · exact hth hk
  refine ⟨h.bound, hids ▸ h.nodup, h.origin_modify hf, ?_, h.currentText, ?_, h.currentThought,
    h.full, ?_, ?_, h.apart⟩
  · rw [hsame _ (.inl rfl)]
    exact h.text
  · rw [hsame _ (.inr rfl)]
    exact h.thought
  · intro segment hs
    obtain ⟨hgiven, hrecord⟩ := h.textGiven segment hs
    exact ⟨hgiven, by simpa only [hids] using hrecord⟩
  · intro segment hs
    obtain ⟨hgiven, hnot⟩ := h.thoughtGiven segment hs
    exact ⟨hgiven, by simpa only [hids] using hnot⟩

theorem kind_of_not_own (hown : ¬relay.Own n₀ id) :
    ∀ row ∈ s.rows, row.id = id → row.kind ≠ .text ∧ row.kind ≠ .thinking := by
  rintro row hrow rfl
  exact ⟨fun hk => hown (h.own hrow (.inl hk)), fun hk => hown (h.own hrow (.inr hk))⟩

theorem upsertAside (patch : String → String → String) (row : MessageRow)
    (hown : ¬relay.Own n₀ row.id) (hkind : row.kind ≠ .text ∧ row.kind ≠ .thinking) :
    Stored relay n₀ texts thoughts { s with rows := s.rows.upsertMessage patch true row } := by
  by_cases hmem : row.id ∈ s.rows.map (·.id)
  · have hhas := (MessageTable.hasId_iff s.rows row.id).2 hmem
    have hupsert : s.rows.upsertMessage patch true row =
        s.rows.modify row.id (MessageTable.merged patch · row) := by
      simp [MessageTable.upsertMessage, hhas]
    rw [hupsert]
    exact h.modifyAside row.id (fun row' => ⟨rfl, rfl⟩) (h.kind_of_not_own hown)
  · have hupsert : s.rows.upsertMessage patch true row = (s.rows.insertMessage true row).1 := by
      simp [MessageTable.upsertMessage, MessageTable.insertMessage,
        MessageTable.hasId_eq_false hmem]
    rw [hupsert]
    apply h.insertAside row (.inr hown) hkind
    · intro segment hs heq
      exact hown (heq ▸ (h.textGiven segment hs).1.own)
    · intro segment hs heq
      exact hown (heq ▸ (h.thoughtGiven segment hs).1.own)

theorem persistToolCall (hsample : sample.Succeeds) (data : ToolCallEventData)
    (hown : ¬relay.Own n₀ data.callId) :
    Stored relay n₀ texts thoughts (s.persistToolCall relay sample data) := by
  have hallows := hsample.allows .toolCallPersist rfl
  unfold RelayState.persistToolCall
  rw [if_neg (by simp [hallows])]
  split
  · exact h
  · simp only [hsample.ok]
    exact h.upsertAside relay.patch _ hown ⟨nofun, nofun⟩

theorem persistAcpToolCall (hsample : sample.Succeeds) (data : AcpToolCallEventData)
    (hown : ¬relay.Own n₀ data.toolCallId) :
    Stored relay n₀ texts thoughts (s.persistAcpToolCall relay sample data) := by
  have hallows := hsample.allows .acpToolCallPersist rfl
  unfold RelayState.persistAcpToolCall
  rw [if_neg (by simp [hallows])]
  simp only [hsample.ok]
  exact h.upsertAside relay.patch _ hown ⟨nofun, nofun⟩

/-- A tool group under an id that no text and no thinking has. -/
theorem writeToolGroup (htext : s.activeText = none) (hthinking : s.activeThinking = none)
    {groupId : String} (json : String) (status : MessageStatus)
    (hid : relay.Given n₀ s groupId ∨ ¬relay.Own n₀ groupId)
    (hother : ∀ row ∈ s.rows, row.id = groupId → row.kind ≠ .text ∧ row.kind ≠ .thinking) :
    Stored relay n₀ texts thoughts
      (if s.rows.any fun row => row.id = groupId && row.kind = .toolGroup then
        { s with
          rows := (s.rows.updateMessage true groupId
            { content := some json, status := some status }).1 }
      else
        { s with
          rows := (s.rows.insertMessage true ⟨groupId, .toolGroup, json, status, false⟩).1 }) := by
  split
  · rw [MessageTable.updateMessage_fst]
    exact h.modifyAside groupId (fun row => ⟨rfl, rfl⟩) hother
  · apply h.insertAside ⟨groupId, .toolGroup, json, status, false⟩ hid ⟨nofun, nofun⟩
    · intro segment hs
      rw [htext] at hs
      cases hs
    · intro segment hs
      rw [hthinking] at hs
      cases hs

theorem persistToolGroup (hsample : sample.Succeeds) (hmsg : relay.ids.Drawn n₀ relay.msgId)
    (htext : s.activeText = none) (hthinking : s.activeThinking = none)
    (entries : List ToolGroupEntry) (json : String)
    (hown : ∀ entry ∈ entries, ¬relay.Own n₀ entry.callId) :
    Stored relay n₀ texts thoughts (s.persistToolGroup relay sample entries json) := by
  have hallows := hsample.allows .toolGroupPersist rfl
  unfold RelayState.persistToolGroup
  rw [if_neg (by simp [hallows])]
  cases entries with
  | nil =>
    obtain ⟨hs, hgiven, hfresh⟩ := h.mintMsgId hmsg
    simp only [hsample.ok, List.head?_nil]
    apply hs.writeToolGroup htext hthinking json _ (.inl hgiven)
    intro row hrow hid
    exact absurd (List.mem_map.2 ⟨row, hrow, hid⟩) hfresh
  | cons entry entries =>
    have hentry := hown entry List.mem_cons_self
    simp only [hsample.ok, List.head?_cons]
    exact h.writeToolGroup htext hthinking json _ (.inr hentry) (h.kind_of_not_own hentry)

theorem persistTip (hsample : sample.Succeeds) (hmsg : relay.ids.Drawn n₀ relay.msgId)
    (content : String) (status : MessageStatus) :
    Stored relay n₀ texts thoughts (s.persistTip relay sample content status) := by
  have hallows := hsample.allows .terminalFinalize rfl
  obtain ⟨hs, hgiven, -⟩ := h.mintMsgId hmsg
  have hnot := not_given_draw hmsg h.bound
  unfold RelayState.persistTip
  rw [if_neg (by simp [hallows])]
  simp only [hsample.ok]
  apply hs.insertAside ⟨relay.ids.draw s.nextId, .tips, content, status, false⟩ (.inl hgiven)
    ⟨nofun, nofun⟩
  · intro segment hseg heq
    have hgiven' := (h.textGiven segment hseg).1
    rw [heq] at hgiven'
    exact hnot hgiven'
  · intro segment hseg heq
    have hgiven' := (h.thoughtGiven segment hseg).1
    rw [heq] at hgiven'
    exact hnot hgiven'

end

/-- The ids of tool calls are not ids of the relay. -/
def Apart (relay : StreamRelay) (n₀ : ℕ) (event : AgentStreamEvent) : Prop :=
  ∀ id ∈ event.callIds, ¬relay.Own n₀ id

variable {received : Received}

section

variable (h : Stored relay n₀ texts thoughts s)
include h

theorem handleThinking (hreceived : received.Undisturbed) (hmsg : relay.ids.Drawn n₀ relay.msgId)
    {data : ThinkingEventData} (hdata : data.status ≠ some "done") :
    Stored relay n₀ texts.cut (thoughts.prolong data.content)
      (s.handleThinking relay received data) := by
  have hclose := h.closeActiveTextSegment hreceived.onText .finish (by decide)
  have htext := closeActiveTextSegment_activeText s received.onText .finish
  have hnote : Stored relay n₀ texts.cut thoughts
      ((s.closeActiveTextSegment received.onText .finish).noteVisible data.content) :=
    hclose.quiet _ _
  obtain ⟨hopen, hseg, -⟩ := hnote.openThinking hmsg htext
  unfold RelayState.handleThinking
  rw [if_neg hdata]
  exact (hopen.prolongThinking hseg data.content).forward _ _

theorem handleText (hreceived : received.Undisturbed) (hmsg : relay.ids.Drawn n₀ relay.msgId)
    (content : String) :
    Stored relay n₀ (texts.prolong content) thoughts.cut
      (s.handleText relay received content) := by
  have hcomplete := h.completeActiveThinking hreceived.onThinking
  have hthinking := completeActiveThinking_activeThinking s received.onThinking
  have hnote : Stored relay n₀ texts thoughts.cut
      ((s.completeActiveThinking received.onThinking).noteVisible content) :=
    hcomplete.quiet _ _
  obtain ⟨hopen, hseg, -⟩ := hnote.openText hmsg hthinking
  have hgrown := fun msgId counter =>
    (hopen.forward msgId (.text content)).prolongText hseg content counter
  unfold RelayState.handleText
  simp only
  split
  · exact (hgrown _ _).flushTextSegment hreceived.onText
  · exact hgrown _ _

/-- The open segments are closed before a tool call. -/
theorem beforeTool (hreceived : received.Undisturbed) (event : AgentStreamEvent) :
    Stored relay n₀ texts.cut thoughts.cut (s.beforeTool relay received event) ∧
      (s.beforeTool relay received event).activeText = none ∧
      (s.beforeTool relay received event).activeThinking = none := by
  have hnote : Stored relay n₀ texts thoughts s.noteSideEffect := h.quiet _ _
  have hcomplete := hnote.completeActiveThinking hreceived.onThinking
  have hclose := hcomplete.closeActiveTextSegment hreceived.onText .finish (by decide)
  refine ⟨hclose.forward _ _, closeActiveTextSegment_activeText _ _ _, ?_⟩
  have hthinking := completeActiveThinking_activeThinking s.noteSideEffect received.onThinking
  show ((s.noteSideEffect.completeActiveThinking received.onThinking).closeActiveTextSegment
    received.onText .finish).activeThinking = none
  unfold RelayState.closeActiveTextSegment
  split
  · exact hthinking
  · simp only [RelayState.finalizeTextSegment]
    repeat' split
    all_goals exact hthinking

/-- An event that does not end the stream is read by both readers. -/
theorem handle (hreceived : received.Undisturbed) (hmsg : relay.ids.Drawn n₀ relay.msgId)
    {event : AgentStreamEvent} (hevent : event.isTerminal = false) (hapart : Apart relay n₀ event) :
    (s.handle relay received event).2 = none ∧
      Stored relay n₀ (texts.read AgentStreamEvent.closesText AgentStreamEvent.textContent event)
        (thoughts.read AgentStreamEvent.closesThinking AgentStreamEvent.thinkingContent event)
        (s.handle relay received event).1 := by
  cases event with
  | thinking data =>
    refine ⟨rfl, ?_⟩
    by_cases hdata : data.status = some "done"
    · have htexts : texts.read AgentStreamEvent.closesText AgentStreamEvent.textContent
          (.thinking data) = texts := by
        simp [Runs.read, AgentStreamEvent.closesText, hdata, AgentStreamEvent.textContent,
          Runs.prolong_empty]
      have hthoughts : thoughts.read AgentStreamEvent.closesThinking
          AgentStreamEvent.thinkingContent (.thinking data) = thoughts.cut := by
        simp [Runs.read, AgentStreamEvent.closesThinking, hdata]
      rw [htexts, hthoughts]
      show Stored relay n₀ texts thoughts.cut (s.handleThinking relay received data)
      unfold RelayState.handleThinking
      rw [if_pos hdata]
      exact h.completeActiveThinking hreceived.onThinking
    · have htexts : texts.read AgentStreamEvent.closesText AgentStreamEvent.textContent
          (.thinking data) = texts.cut := by
        simp [Runs.read, AgentStreamEvent.closesText, hdata]
      have hthoughts : thoughts.read AgentStreamEvent.closesThinking
          AgentStreamEvent.thinkingContent (.thinking data) = thoughts.prolong data.content := by
        simp [Runs.read, AgentStreamEvent.closesThinking, AgentStreamEvent.thinkingContent, hdata]
      rw [htexts, hthoughts]
      exact h.handleThinking hreceived hmsg hdata
  | text content => exact ⟨rfl, h.handleText hreceived hmsg content⟩
  | toolCall data =>
    obtain ⟨hbefore, -, -⟩ := h.beforeTool hreceived (.toolCall data)
    exact ⟨rfl, hbefore.persistToolCall hreceived.onLast data (hapart _ List.mem_cons_self)⟩
  | acpToolCall data =>
    obtain ⟨hbefore, -, -⟩ := h.beforeTool hreceived (.acpToolCall data)
    exact ⟨rfl, hbefore.persistAcpToolCall hreceived.onLast data (hapart _ List.mem_cons_self)⟩
  | toolGroup entries json =>
    obtain ⟨hbefore, htext, hthinking⟩ := h.beforeTool hreceived (.toolGroup entries json)
    exact ⟨rfl, hbefore.persistToolGroup hreceived.onLast hmsg htext hthinking entries json
      fun entry hentry => hapart _ (List.mem_map_of_mem hentry)⟩
  | finish => cases hevent
  | error data => cases hevent
  | tips data =>
    refine ⟨rfl, ?_⟩
    have htexts : texts.read AgentStreamEvent.closesText AgentStreamEvent.textContent
        (.tips data) = texts := texts.prolong_empty
    have hthoughts : thoughts.read AgentStreamEvent.closesThinking
        AgentStreamEvent.thinkingContent (.tips data) = thoughts := thoughts.prolong_empty
    rw [htexts, hthoughts]
    show Stored relay n₀ texts thoughts (s.handleTips relay received data)
    unfold RelayState.handleTips
    by_cases hkept : data.tipType ≠ .error
    · simp only [hkept, ne_eq, not_false_eq_true, if_true]
      have hnote : Stored relay n₀ texts thoughts
          { s with attempt := { s.attempt with sawVisibleOutput := true } } := h.quiet _ _
      exact (hnote.forward relay.msgId (.tips data)).persistTip hreceived.onLast hmsg _ _
    · simp only [hkept, if_false]
      exact h.forward relay.msgId (.tips data)
  | _ =>
    refine ⟨rfl, ?_⟩
    have htexts : texts.prolong "" = texts := texts.prolong_empty
    have hthoughts : thoughts.prolong "" = thoughts := thoughts.prolong_empty
    simp only [Runs.read, AgentStreamEvent.closesText, AgentStreamEvent.closesThinking,
      AgentStreamEvent.textContent, AgentStreamEvent.thinkingContent, Bool.false_eq_true, if_false,
      htexts, hthoughts]
    exact h.quiet _ _

end

/-- A stream whose events do not end it. -/
theorem run {front : List Received} (hfront : ∀ received ∈ front, received.Undisturbed ∧
      ∃ event, received.signal = .event event ∧ event.isTerminal = false ∧ Apart relay n₀ event)
    (hmsg : relay.ids.Drawn n₀ relay.msgId) (h : Stored relay n₀ texts thoughts s) :
    ∃ s', (∀ tail, relay.consume (front ++ tail) s = relay.consume tail s') ∧
      Stored relay n₀
        ((eventsOf front).foldl
          (Runs.read AgentStreamEvent.closesText AgentStreamEvent.textContent) texts)
        ((eventsOf front).foldl
          (Runs.read AgentStreamEvent.closesThinking AgentStreamEvent.thinkingContent) thoughts)
        s' := by
  induction front generalizing texts thoughts s with
  | nil => exact ⟨s, fun _ => rfl, h⟩
  | cons received front ih =>
    obtain ⟨hreceived, event, hsignal, hevent, hapart⟩ := hfront received List.mem_cons_self
    obtain ⟨hnone, hhandled⟩ := h.handle hreceived hmsg hevent hapart
    obtain ⟨s', hrun, hs'⟩ := ih (fun r hr => hfront r (List.mem_cons_of_mem _ hr)) hhandled
    refine ⟨s', fun tail => ?_, ?_⟩
    · have hstep : relay.step s received = ((s.handle relay received event).1, none) := by
        rw [StreamRelay.step, hsignal]
        simp only [hreceived.deleting, Bool.false_and, Bool.false_eq_true, if_false]
        exact Prod.ext rfl hnone
      rw [List.cons_append, StreamRelay.consume, hstep]
      exact hrun tail
    · have hevents : eventsOf (received :: front) = event :: eventsOf front := by
        simp [eventsOf, hsignal]
      rw [hevents, List.foldl_cons, List.foldl_cons]
      exact hs'

end Stored

/-- The rows hold a reply with these runs of text and of thinking. -/
structure Whole (relay : StreamRelay) (texts thoughts : List String) (rows : MessageTable) :
    Prop where
  distinct : ((rows.ofKind .text).map (·.id)).Nodup
  settled : ∀ row ∈ rows.ofKind .text, row.status ≠ .work
  kept : String.join texts = "" ∨
      (relay.process (String.join texts)).message = String.join texts ∧
        trim (String.join texts) ≠ "" →
    ((rows.ofKind .text).filter (!·.hidden)).map (·.content) = texts
  rewritten : String.join texts ≠ "" →
      (relay.process (String.join texts)).message ≠ String.join texts ∨
        trim (relay.process (String.join texts)).message = "" →
    ∃ first rest, rows.ofKind .text = first :: rest ∧
      first.content = trim (relay.process (String.join texts)).message ∧
      (first.hidden = true ↔ trim (relay.process (String.join texts)).message = "") ∧
      ∀ row ∈ rest, row.hidden = true
  thinking : (rows.ofKind .thinking).map (·.content) = thoughts

namespace Stored

variable {relay : StreamRelay} {n₀ : ℕ} {texts thoughts : Runs} {s : RelayState}

section

variable (h : Stored relay n₀ texts thoughts s)
include h

/-- The text rows once no segment is open. -/
theorem textRows (htext : s.activeText = none) :
    (s.rows.ofKind .text).map (·.content) = texts.closed ∧
      (s.rows.ofKind .text).map (·.id) = s.textSegments ∧
      (∀ row ∈ s.rows.ofKind .text, row.status ≠ .work ∧ row.hidden = false) ∧
      s.fullTextBuffer = String.join texts.closed := by
  obtain ⟨closed, flushed, hrows, hcontents, hsegments, hclosed, hflushed⟩ := h.text
  have hcurrent := h.currentText
  rw [htext] at hflushed hcurrent
  have hempty : flushed = [] := List.map_eq_nil_iff.1 hflushed
  rw [hrows, hempty, List.append_nil]
  refine ⟨hcontents, hsegments, hclosed, ?_⟩
  rw [h.full, hcurrent]
  exact String.append_empty

/-- A change of text rows leaves the thinking rows alone. -/
theorem ofKind_thinking_map (htext : s.activeText = none) (ids : List String)
    (hids : ids ⊆ s.textSegments) (updates : MessageRowUpdate) :
    MessageTable.ofKind (s.rows.map fun row => if row.id ∈ ids then updates.apply row else row)
      .thinking = s.rows.ofKind .thinking := by
  rw [MessageTable.ofKind_map (by intro row; split <;> rfl)]
  conv_rhs => rw [← List.map_id (s.rows.ofKind .thinking)]
  apply List.map_congr_left
  intro row hrow
  rw [if_neg, id]
  intro hmem
  obtain ⟨hin, hkind⟩ := MessageTable.mem_ofKind.1 hrow
  have hnot := MessageTable.notMem_ofKind .text h.nodup hin (by rw [hkind]; decide)
  rw [(h.textRows htext).2.1] at hnot
  exact hnot (hids hmem)

theorem distinct (kind : MessageKind) :
    ((s.rows.ofKind kind).map (·.id)).Nodup :=
  (MessageTable.map_id_ofKind_sublist s.rows kind).nodup h.nodup

end

/-- Rows that are all visible hold the reply where the text is not changed. -/
theorem whole_of_visible {texts thoughts : List String} {rows : MessageTable}
    (hdistinct : ((rows.ofKind .text).map (·.id)).Nodup)
    (hrows : ∀ row ∈ rows.ofKind .text, row.status ≠ .work ∧ row.hidden = false)
    (hcontents : (rows.ofKind .text).map (·.content) = texts)
    (hthinking : (rows.ofKind .thinking).map (·.content) = thoughts)
    (hkept : String.join texts = "" ∨
      (relay.process (String.join texts)).message = String.join texts ∧
        trim (String.join texts) ≠ "") :
    Whole relay texts thoughts rows := by
  refine ⟨hdistinct, fun row hrow => (hrows row hrow).1, fun _ => ?_, ?_, hthinking⟩
  · rw [List.filter_eq_self.2 fun row hrow => by simp [(hrows row hrow).2]]
    exact hcontents
  · intro hne hchanged
    obtain hk | ⟨hmessage, htrim⟩ := hkept
    · exact absurd hk hne
    · obtain hc | hc := hchanged
      · exact absurd hmessage hc
      · rw [hmessage] at hc
        exact absurd hc htrim

theorem whole (h : Stored relay n₀ texts thoughts s) (htext : s.activeText = none)
    (hkept : String.join texts.closed = "" ∨
      (relay.process (String.join texts.closed)).message = String.join texts.closed ∧
        trim (String.join texts.closed) ≠ "") :
    Whole relay texts.closed thoughts.closed s.rows :=
  have ⟨hcontents, _, hrows, _⟩ := h.textRows htext
  whole_of_visible (h.distinct .text) hrows hcontents h.thought hkept

variable {status : MessageStatus}

/-- The status of the text rows is set once more. -/
theorem whole_setStatus (h : Stored relay n₀ texts thoughts s) (htext : s.activeText = none)
    (hstatus : status ≠ .work)
    (hkept : String.join texts.closed = "" ∨
      (relay.process (String.join texts.closed)).message = String.join texts.closed ∧
        trim (String.join texts.closed) ≠ "") :
    Whole relay texts.closed thoughts.closed
      (s.rows.map fun row =>
        if row.id ∈ s.textSegments then
          MessageRowUpdate.apply { status := some status, hidden := some false } row
        else row) := by
  let updates : MessageRowUpdate := { status := some status, hidden := some false }
  obtain ⟨hcontents, hsegments, -, -⟩ := h.textRows htext
  have htexts : MessageTable.ofKind
      (s.rows.map fun row => if row.id ∈ s.textSegments then updates.apply row else row) .text =
        (s.rows.ofKind .text).map updates.apply := by
    rw [MessageTable.ofKind_map (by intro row; split <;> rfl)]
    exact List.map_congr_left fun row hrow => if_pos (hsegments ▸ List.mem_map_of_mem hrow)
  apply whole_of_visible _ _ _ _ hkept
  · rw [htexts, List.map_map]
    exact h.distinct .text
  · rw [htexts]
    intro row hrow
    obtain ⟨row₀, -, rfl⟩ := List.mem_map.1 hrow
    exact ⟨hstatus, rfl⟩
  · rw [htexts, List.map_map]
    exact hcontents
  · rw [h.ofKind_thinking_map htext s.textSegments (List.Subset.refl _) updates]
    exact h.thought

variable {rest : List String} {primary : String}

/-- The first text row takes the final text and the others are hidden. -/
theorem rewriteText (h : Stored relay n₀ texts thoughts s) (htext : s.activeText = none)
    (hstatus : status ≠ .work) (hsegments : s.textSegments = primary :: rest)
    (hne : String.join texts.closed ≠ "")
    (hchanged : (relay.process (String.join texts.closed)).message ≠ String.join texts.closed ∨
      trim (relay.process (String.join texts.closed)).message = "") :
    Whole relay texts.closed thoughts.closed
      ((s.rows.modify primary (MessageRowUpdate.apply
        { content := some (trim (relay.process (String.join texts.closed)).message)
          status := some status
          hidden := some
            (trim (relay.process (String.join texts.closed)).message = "" : Bool) })).map fun row =>
        if row.id ∈ rest then
          MessageRowUpdate.apply { status := some status, hidden := some true } row
        else row) := by
  generalize hfinal : trim (relay.process (String.join texts.closed)).message = final at hchanged ⊢
  let first : MessageRowUpdate :=
    { content := some final, status := some status, hidden := some (final = "" : Bool) }
  let other : MessageRowUpdate := { status := some status, hidden := some true }
  let f : MessageRow → MessageRow := fun row => if row.id ∈ rest then other.apply row else row
  have hf : ∀ row, (f row).id = row.id ∧ (f row).kind = row.kind := by
    intro row
    show (if _ then _ else _ : MessageRow).id = _ ∧ (if _ then _ else _ : MessageRow).kind = _
    split <;> exact ⟨rfl, rfl⟩
  have hfirst : ∀ row, (first.apply row).kind = row.kind := fun _ => rfl
  obtain ⟨-, hids, -, -⟩ := h.textRows htext
  have hdistinct := h.distinct .text
  obtain ⟨row, rows, hsplit⟩ : ∃ row rows, s.rows.ofKind .text = row :: rows := by
    apply List.exists_cons_of_ne_nil
    intro hnil
    rw [hnil, hsegments] at hids
    cases hids
  rw [hsplit, hsegments, List.map_cons, List.cons.injEq] at hids
  rw [hsplit, List.map_cons, List.nodup_cons, hids.1, hids.2] at hdistinct
  obtain ⟨hprimary, hrest⟩ := hdistinct
  have hrowsMem : ∀ row' ∈ rows, row'.id ∈ rest := by
    intro row' hrow'
    rw [← hids.2]
    exact List.mem_map_of_mem hrow'
  -- the first update touches the first row only, the second one the others
  have hmodify : (s.rows.modify primary first.apply).ofKind .text = first.apply row :: rows := by
    rw [MessageTable.ofKind_modify hfirst, hsplit, MessageTable.modify, List.map_cons,
      if_pos hids.1]
    congr 1
    apply MessageTable.modify_of_notMem
    rw [hids.2]
    exact hprimary
  have htexts : MessageTable.ofKind ((s.rows.modify primary first.apply).map f) .text =
      first.apply row :: rows.map other.apply := by
    rw [MessageTable.ofKind_map fun row => (hf row).2, hmodify, List.map_cons]
    have hkeep : f (first.apply row) = first.apply row := by
      apply if_neg
      show row.id ∉ rest
      rw [hids.1]
      exact hprimary
    rw [hkeep]
    congr 1
    exact List.map_congr_left fun row' hrow' => if_pos (hrowsMem row' hrow')
  have hthoughts : MessageTable.ofKind ((s.rows.modify primary first.apply).map f) .thinking =
      s.rows.ofKind .thinking := by
    have hsub : ∀ id ∈ primary :: rest, id ∉ (s.rows.ofKind .thinking).map (·.id) := by
      intro id hid hmem
      rw [← hids.1, ← hids.2, ← List.map_cons (f := MessageRow.id), ← hsplit] at hid
      obtain ⟨row', hrow', rfl⟩ := List.mem_map.1 hid
      obtain ⟨hin, hkind⟩ := MessageTable.mem_ofKind.1 hrow'
      exact MessageTable.notMem_ofKind .thinking h.nodup hin (by rw [hkind]; decide) hmem
    rw [MessageTable.ofKind_map fun row => (hf row).2, MessageTable.ofKind_modify hfirst,
      MessageTable.modify_of_notMem (hsub primary List.mem_cons_self)]
    conv_rhs => rw [← List.map_id (s.rows.ofKind .thinking)]
    apply List.map_congr_left
    intro row' hrow'
    apply if_neg
    intro hin
    exact hsub _ (List.mem_cons_of_mem _ hin) (List.mem_map_of_mem hrow')
  refine ⟨?_, ?_, ?_, ?_, ?_⟩
  · rw [htexts, List.map_cons, List.map_map]
    show (row.id :: rows.map (·.id)).Nodup
    rw [hids.1, hids.2]
    exact List.nodup_cons.2 ⟨hprimary, hrest⟩
  · rw [htexts]
    intro row' hrow'
    obtain rfl | hrow' := List.mem_cons.1 hrow'
    · exact hstatus
    · obtain ⟨row₀, -, rfl⟩ := List.mem_map.1 hrow'
      exact hstatus
  · rintro (hk | ⟨hmessage, htrim⟩)
    · exact absurd hk hne
    · obtain hc | hc := hchanged
      · exact absurd hmessage hc
      · rw [← hfinal, hmessage] at hc
        exact absurd hc htrim
  · intro _ _
    refine ⟨_, _, htexts, hfinal.symm, ?_, ?_⟩
    · rw [hfinal]
      exact decide_eq_true_iff
    · intro row' hrow'
      obtain ⟨row₀, -, rfl⟩ := List.mem_map.1 hrow'
      rfl
  · rw [hthoughts]
    exact h.thought

variable {sample : WriteSample}

/-- The rows where the final text takes the place of the segments. -/
theorem persistFinalText_rewrite (hsample : sample.Succeeds)
    (hsegments : s.textSegments = primary :: rest) (status : MessageStatus) (finalText : String)
    (hidden : Bool) :
    (s.persistFinalText relay sample status finalText hidden true).rows =
      (s.rows.modify primary (MessageRowUpdate.apply
        { content := some finalText, status := some status, hidden := some hidden })).map
        fun row =>
          if row.id ∈ rest then
            MessageRowUpdate.apply { status := some status, hidden := some true } row
          else row := by
  have hallows := hsample.allows .terminalFinalize rfl
  rw [← MessageTable.foldl_updateMessage, ← MessageTable.updateMessage_fst]
  unfold RelayState.persistFinalText
  rw [if_neg (by simp [hallows])]
  simp only [hsegments, hsample.ok, if_true]

/-- The rows where the segments stay. -/
theorem persistFinalText_keep (hsample : sample.Succeeds)
    (hsegments : s.textSegments = primary :: rest) (status : MessageStatus) (finalText : String)
    (hidden : Bool) :
    (s.persistFinalText relay sample status finalText hidden false).rows =
      s.rows.map fun row =>
        if row.id ∈ s.textSegments then
          MessageRowUpdate.apply { status := some status, hidden := some false } row
        else row := by
  have hallows := hsample.allows .terminalFinalize rfl
  rw [← MessageTable.foldl_updateMessage]
  unfold RelayState.persistFinalText
  rw [if_neg (by simp [hallows])]
  simp only [hsegments, hsample.ok, Bool.false_eq_true, if_false]

section

variable (h : Stored relay n₀ texts thoughts s)
include h

/-- The final text over text rows of which there is at least one. -/
theorem persistFinalText (htext : s.activeText = none) (hsample : sample.Succeeds)
    (hstatus : status ≠ .work) (hne : String.join texts.closed ≠ "") :
    let processed := relay.process (String.join texts.closed)
    Whole relay texts.closed thoughts.closed
      (s.persistFinalText relay sample status (trim processed.message)
        (trim processed.message = "" : Bool)
        (processed.message ≠ String.join texts.closed ||
          (trim processed.message = "" : Bool))).rows := by
  intro processed
  obtain ⟨hcontents, hids, -, -⟩ := h.textRows htext
  obtain ⟨primary, rest, hsegments⟩ : ∃ primary rest, s.textSegments = primary :: rest := by
    apply List.exists_cons_of_ne_nil
    intro hnil
    rw [hnil, List.map_eq_nil_iff] at hids
    rw [hids, List.map_nil] at hcontents
    rw [← hcontents] at hne
    exact hne String.join_nil
  by_cases hchanged : processed.message ≠ String.join texts.closed ∨ trim processed.message = ""
  · have hrewrite : (processed.message ≠ String.join texts.closed ||
        (trim processed.message = "" : Bool)) = true := by
      simpa using hchanged
    rw [hrewrite, persistFinalText_rewrite hsample hsegments]
    exact h.rewriteText htext hstatus hsegments hne hchanged
  · have hkeep : (processed.message ≠ String.join texts.closed ||
        (trim processed.message = "" : Bool)) = false := by
      simpa using hchanged
    rw [not_or, not_not] at hchanged
    rw [hkeep, persistFinalText_keep hsample hsegments]
    apply h.whole_setStatus htext hstatus
    refine .inr ⟨hchanged.1, ?_⟩
    rw [← hchanged.1]
    exact hchanged.2

theorem finalize (htext : s.activeText = none) (hmsg : relay.ids.Drawn n₀ relay.msgId)
    (hsample : sample.Succeeds) (error : Option ErrorEventData) :
    Whole relay texts.closed thoughts.closed (s.finalize relay sample error).1.rows := by
  obtain ⟨-, -, -, hfull⟩ := h.textRows htext
  unfold RelayState.finalize
  by_cases hne : String.join texts.closed = ""
  · rw [if_neg (by rw [hfull, hne]; simp)]
    cases error with
    | none => exact h.whole htext (.inl hne)
    | some data =>
      have htip := h.persistTip hsample hmsg data.message .error
      apply htip.whole _ (.inl hne)
      unfold RelayState.persistTip
      split <;> exact htext
  · rw [if_pos (by rw [hfull]; exact hne)]
    simp only [hfull]
    apply h.persistFinalText htext hsample _ hne
    split <;> decide

/-- The end of the stream closes what is open and settles the rows. -/
theorem terminate {received : Received} (hreceived : received.Undisturbed)
    (hmsg : relay.ids.Drawn n₀ relay.msgId) (terminal : RelayTerminal)
    (event : Option AgentStreamEvent) (error : Option ErrorEventData) :
    ∃ outcome, (s.terminate relay received terminal event error).2 = some outcome ∧
      Whole relay texts.cut.closed thoughts.cut.closed
        (s.terminate relay received terminal event error).1.rows := by
  have hcomplete := h.completeActiveThinking hreceived.onThinking
  have hstatus : (if error.isSome then .error else .finish : MessageStatus) ≠ .work := by
    split <;> decide
  have hclose := hcomplete.closeActiveTextSegment hreceived.onText _ hstatus
  have htext := closeActiveTextSegment_activeText
    (s.completeActiveThinking received.onThinking) received.onText
    (if error.isSome then .error else .finish)
  refine ⟨_, rfl, ?_⟩
  unfold RelayState.terminate RelayState.closeSegments RelayState.conclude
    RelayState.forwardTerminal
  simp only [hreceived.deleting, Bool.false_eq_true, if_false]
  cases event with
  | none => exact hclose.finalize htext hmsg hreceived.onLast error
  | some event => exact (hclose.forward _ _).finalize htext hmsg hreceived.onLast error

end

end Stored

/-- The last signal ends the relay; unless its error is deferred, the rows are settled. -/
theorem Stored.last {relay : StreamRelay} {n₀ : ℕ} {texts thoughts : Runs} {s : RelayState}
    (h : Stored relay n₀ texts thoughts s) (hmsg : relay.ids.Drawn n₀ relay.msgId)
    {last : Received} (hreceived : last.Undisturbed)
    (hlast : last.signal = .closed ∨ ∃ event, last.signal = .event event ∧ event.isTerminal) :
    ∃ s' outcome, relay.step s last = (s', some outcome) ∧
      (outcome.attempt.terminalErrorDeferred = false →
        Whole relay texts.cut.closed thoughts.cut.closed s'.rows) := by
  have hterminate : ∀ terminal event error,
      relay.step s last = s.terminate relay last terminal event error →
      ∃ s' outcome, relay.step s last = (s', some outcome) ∧
        (outcome.attempt.terminalErrorDeferred = false →
          Whole relay texts.cut.closed thoughts.cut.closed s'.rows) := by
    intro terminal event error hstep
    obtain ⟨outcome, houtcome, hwhole⟩ := h.terminate hreceived hmsg terminal event error
    exact ⟨_, outcome, hstep.trans (Prod.ext rfl houtcome), fun _ => hwhole⟩
  obtain hclosed | ⟨event, hevent, hterminal⟩ := hlast
  · apply hterminate .channelClosed none none
    rw [StreamRelay.step, hclosed]
  · cases event with
    | finish =>
      apply hterminate .finish (some .finish) none
      simp [StreamRelay.step, hevent, hreceived.deleting, RelayState.handle]
    | error data =>
      have hstep : relay.step s last = s.handleError relay last data := by
        simp [StreamRelay.step, hevent, hreceived.deleting, RelayState.handle]
      by_cases hdefers : s.defers relay data = true
      · rw [RelayState.handleError, if_pos hdefers] at hstep
        refine ⟨_, _, hstep, ?_⟩
        intro hnot
        cases hnot
      · rw [RelayState.handleError, if_neg hdefers] at hstep
        exact hterminate _ _ _ hstep
    | _ => cases hterminal

/-- A reply that ends without a deferred error is stored whole if no event is lost, the conversation
is not being deleted, the runtime is not shutting down and the writes succeed. -/
theorem reply_stored_whole (relay : StreamRelay) (n₀ : ℕ) (front : List Received) (last : Received)
    (hmsg : relay.ids.Drawn n₀ relay.msgId)
    (hfront : ∀ received ∈ front, received.Undisturbed ∧
      ∃ event, received.signal = .event event ∧ event.isTerminal = false ∧
        ∀ id ∈ event.callIds, ¬relay.Own n₀ id)
    (hlast : last.Undisturbed)
    (hends : last.signal = .closed ∨ ∃ event, last.signal = .event event ∧ event.isTerminal) :
    ∃ s outcome, relay.consume (front ++ [last]) (.start n₀) = (s, some outcome) ∧
      (outcome.attempt.terminalErrorDeferred = false →
        Whole relay
          (Runs.runsOf AgentStreamEvent.closesText AgentStreamEvent.textContent (eventsOf front))
          (Runs.runsOf AgentStreamEvent.closesThinking AgentStreamEvent.thinkingContent
            (eventsOf front)) s.rows ∧
        String.join
            (Runs.runsOf AgentStreamEvent.closesText AgentStreamEvent.textContent
              (eventsOf front)) =
          String.join ((eventsOf front).map AgentStreamEvent.textContent)) := by
  obtain ⟨s, hrun, hs⟩ := (Stored.start relay n₀).run hfront hmsg
  obtain ⟨s', outcome, hstep, hwhole⟩ := hs.last hmsg hlast hends
  refine ⟨s', outcome, ?_, fun hdeferred => ⟨?_, ?_⟩⟩
  · rw [hrun, StreamRelay.consume, hstep]
  · rw [← Runs.scan_cut_closed, ← Runs.scan_cut_closed]
    exact hwhole hdeferred
  · exact Runs.join_runsOf AgentStreamEvent.textContent_of_closesText _

/-- A relay whose middleware changes nothing. -/
def plainRelay : StreamRelay where
  msgId := "x"
  deferCleanTerminalErrors := false
  ids := Supply.tallyOf 'x'
  process text := ⟨text, []⟩
  patch _ json := json

/-- A text and a tool call. -/
theorem text_before_tool_stored :
    ∃ s outcome, plainRelay.consume
        [.under .active (.event (.text "a")),
          .under .cancelling (.event (.toolCall ⟨"t", .completed, "done"⟩)),
          .under .active (.event .finish)] (.start 1) = (s, some outcome) ∧
      (outcome.attempt.terminalErrorDeferred = false →
        Whole plainRelay ["a"] [] s.rows ∧ String.join ["a"] = "a") := by
  have hactive : ∀ signal, (Received.under .active signal).Undisturbed := fun signal =>
    ⟨rfl, ⟨.inl rfl, fun _ => rfl⟩, ⟨.inl rfl, fun _ => rfl⟩, ⟨.inl rfl, fun _ => rfl⟩⟩
  have hcancelling : ∀ signal, (Received.under .cancelling signal).Undisturbed := fun signal =>
    ⟨rfl, ⟨.inr rfl, fun _ => rfl⟩, ⟨.inr rfl, fun _ => rfl⟩, ⟨.inr rfl, fun _ => rfl⟩⟩
  have hown : ¬plainRelay.Own 1 "t" := by
    rintro (he | ⟨n, hn, he⟩)
    · exact absurd he (by decide)
    · have hlist := congrArg String.toList he
      rw [show plainRelay.ids.draw n = String.ofList (List.replicate (n + 1) 'x') from rfl,
        String.toList_ofList] at hlist
      have hmem : 't' ∈ List.replicate (n + 1) 'x' := hlist ▸ by decide
      exact absurd (List.eq_of_mem_replicate hmem) (by decide)
  refine reply_stored_whole plainRelay 1
    [.under .active (.event (.text "a")),
      .under .cancelling (.event (.toolCall ⟨"t", .completed, "done"⟩))]
    (.under .active (.event .finish)) ⟨0, by decide, rfl⟩ ?_ (hactive _) (.inr ⟨_, rfl, rfl⟩)
  intro received hreceived
  obtain rfl | hreceived := List.mem_cons.1 hreceived
  · exact ⟨hactive _, _, rfl, rfl, fun id hid => absurd hid List.not_mem_nil⟩
  · rw [List.mem_singleton.1 hreceived]
    refine ⟨hcancelling _, _, rfl, rfl, fun id hid => ?_⟩
    rw [List.mem_singleton.1 hid]
    exact hown

/-- Four streams whose texts are not stored as they came: a flushed row stays at work, white space
is hidden, the end of a thinking does not part the text, and a tool call has taken the id. -/
theorem reply_not_stored :
    (∃ row ∈ (plainRelay.consume
        (List.replicate 20 (.under .active (.event (.text "a"))) ++
          [.under .shuttingDown (.event .finish)]) (.start 1)).1.rows,
      row.kind = .text ∧ row.status = .work) ∧
    ((plainRelay.consume [.under .active (.event (.text " ")), .under .active (.event .finish)]
      (.start 1)).1.rows.ofKind .text).filter (!·.hidden) = [] ∧
    ((plainRelay.consume
      [.under .active (.event (.text "a")),
        .under .active (.event (.thinking ⟨"", some "done"⟩)),
        .under .active (.event (.text "b")), .under .active (.event .finish)]
      (.start 1)).1.rows.ofKind .text).map (·.content) = ["ab"] ∧
    (plainRelay.consume
      [.under .active (.event (.toolCall ⟨"x", .completed, "done"⟩)),
        .under .active (.event (.text "a")), .under .active (.event .finish)]
      (.start 1)).1.rows.ofKind .text = [] := by
  decide +kernel

end AionCore.Conversation
