import AionCore.Conversation.StoredText
import AionCore.Conversation.RelaySummary

/-!
# Conversations: flushes that fail

While a text segment is open its text is written every so many chunks, and an error of that write
is only logged. The run of a relay in which such writes fail is compared with its run over the same
stream in which they do not: the two differ in the row of the open segment alone, as long as the
write that creates the row does not fail.
-/

namespace AionCore.Conversation

def RelaySignal.ends : RelaySignal → Bool
  | .event e => e.isTerminal
  | .lagged _ => false
  | .closed => true

namespace Received

def chunk (received : Received) : Option String :=
  match received.signal with
  | .event (.text content) => some content
  | _ => none

def isText (received : Received) : Bool := received.chunk.isSome

theorem signal_of_chunk {received : Received} {content : String}
    (h : received.chunk = some content) : received.signal = .event (.text content) := by
  unfold chunk at h
  split at h
  · next content' hsignal =>
    cases h
    exact hsignal
  · cases h

/-- The signal with its flush, if it makes one, running. -/
def flushed (received : Received) : Received :=
  if received.isText then
    { received with onText := { received.onText with ok := fun _ => true } }
  else received

/-- What is to be written of a text segment at its end is written. -/
structure EndsSegments (received : Received) : Prop where
  deleting : received.signal.ends = true → received.deleting = false
  onText : received.isText = false → received.deleting = false → received.onText.Succeeds

end Received

/-- The text of the reply that the messages show. -/
def visibleText (rows : MessageTable) : String :=
  String.join ((rows.filter fun row => row.kind = .text && !row.hidden).map (·.content))

namespace RelayState

variable (relay : StreamRelay) (s : RelayState) (received : Received)

def taken (content : String) : TextSegmentState :=
  let segment :=
    (((s.completeActiveThinking received.onThinking).noteVisible content).openText relay).1
  { segment with
    buffer := segment.buffer ++ content
    flushCounter := segment.flushCounter + 1 }

def CreatesRow : Prop :=
  ∀ content ∈ received.chunk, received.deleting = false →
    FLUSH_INTERVAL ≤ (s.taken relay received content).flushCounter →
    (s.taken relay received content).buffer ≠ "" →
    (s.taken relay received content).recordCreated = false →
    received.onText.lifecycle.allows .assistantTextFlush = true →
    received.onText.ok (s.taken relay received content).id = true

instance : Decidable (s.CreatesRow relay received) := by
  unfold CreatesRow
  infer_instance

end RelayState

/-- Every flush of a stream that has to create the row of its segment does so. -/
def StreamRelay.CreatesRows (relay : StreamRelay) : List Received → RelayState → Prop
  | [], _ => True
  | received :: rest, s =>
    s.CreatesRow relay received ∧
      ((relay.step s received).2 = none → CreatesRows relay rest (relay.step s received).1)

instance (relay : StreamRelay) :
    ∀ (stream : List Received) (s : RelayState), Decidable (relay.CreatesRows stream s)
  | [], _ => .isTrue trivial
  | received :: rest, s =>
    have := instDecidableCreatesRows relay rest (relay.step s received).1
    inferInstanceAs (Decidable (_ ∧ (_ → _)))

def MessageRow.blank (id : Option String) (row : MessageRow) : MessageRow :=
  if id = some row.id then { row with content := "", status := .work } else row

namespace MessageTable

variable {rows rows' : MessageTable} {id : Option String}

def AgreeBut (id : Option String) (rows rows' : MessageTable) : Prop :=
  rows.map (MessageRow.blank id) = rows'.map (MessageRow.blank id)

theorem blank_id (id : Option String) (row : MessageRow) : (row.blank id).id = row.id := by
  unfold MessageRow.blank
  split <;> rfl

theorem blank_none : MessageRow.blank none = fun row => row := by
  funext row
  exact if_neg (by simp)

theorem agreeBut_none : AgreeBut none rows rows' ↔ rows = rows' := by
  rw [AgreeBut, blank_none, List.map_id', List.map_id']

theorem blank_of_notMem {k : String} (h : k ∉ rows.map (·.id)) :
    rows.map (MessageRow.blank (some k)) = rows := by
  conv_rhs => rw [← List.map_id rows]
  apply List.map_congr_left
  intro row hrow
  have hne : k ≠ row.id := fun he => h (he ▸ List.mem_map_of_mem hrow)
  exact if_neg (by simpa using hne)

theorem AgreeBut.refl (id : Option String) (rows : MessageTable) : AgreeBut id rows rows := rfl

theorem AgreeBut.ids (h : AgreeBut id rows rows') : rows.map (·.id) = rows'.map (·.id) := by
  have hids := congrArg (List.map (·.id)) h
  rw [List.map_map, List.map_map] at hids
  simpa only [Function.comp_def, blank_id] using hids

theorem AgreeBut.hasId (h : AgreeBut id rows rows') (k : String) : rows.hasId k = rows'.hasId k := by
  rw [Bool.eq_iff_iff, hasId_iff, hasId_iff, h.ids]

theorem AgreeBut.insertMessage (h : AgreeBut id rows rows') (ok : Bool) (row : MessageRow) :
    AgreeBut id (rows.insertMessage ok row).1 (rows'.insertMessage ok row).1 := by
  unfold MessageTable.insertMessage
  rw [h.hasId]
  split
  · show (rows ++ [row]).map _ = (rows' ++ [row]).map _
    rw [List.map_append, List.map_append, h]
  · exact h

/-- A flush writes what is left out, if its statement runs. -/
theorem agreeBut_updateMessage (rows : MessageTable) (ok : Bool) (k content : String) :
    AgreeBut (some k) (rows.updateMessage ok k { content := some content, status := some .work }).1
      rows := by
  unfold MessageTable.updateMessage
  split
  · show (rows.modify k _).map _ = rows.map _
    rw [modify, List.map_map]
    apply List.map_congr_left
    intro row _
    by_cases hid : row.id = k
    · simp [MessageRow.blank, MessageRowUpdate.apply, hid]
    · simp [hid]
  · rfl

theorem modify_blank (rows : MessageTable) (k content : String) (status : MessageStatus)
    (hidden : Bool) :
    modify (rows.map (MessageRow.blank (some k))) k
        ({ content := some content, status := some status, hidden := some hidden } :
          MessageRowUpdate).apply =
      rows.modify k ({ content := some content, status := some status, hidden := some hidden } :
          MessageRowUpdate).apply := by
  rw [modify, modify, List.map_map]
  apply List.map_congr_left
  intro row _
  by_cases hid : row.id = k
  · simp [MessageRow.blank, MessageRowUpdate.apply, hid]
  · simp [MessageRow.blank, hid, Ne.symm hid]

/-- The end of the segment writes all that a flush does. -/
theorem AgreeBut.updateMessage {k : String} (h : AgreeBut (some k) rows rows') (content : String)
    (status : MessageStatus) (hidden : Bool) :
    rows.updateMessage true k
        { content := some content, status := some status, hidden := some hidden } =
      rows'.updateMessage true k
        { content := some content, status := some status, hidden := some hidden } := by
  unfold MessageTable.updateMessage
  rw [h.hasId]
  split
  · rw [← modify_blank rows, ← modify_blank rows', h]
  · next hnone =>
    have hmem : k ∉ rows'.map (·.id) := fun hmem => hnone ((hasId_iff rows' k).mpr hmem)
    have hmem' : k ∉ rows.map (·.id) := by
      rw [h.ids]
      exact hmem
    have hsame : rows = rows' := by
      rw [← blank_of_notMem hmem, ← blank_of_notMem hmem']
      exact h
    rw [hsame]

end MessageTable

def TextSegmentState.row (segment : TextSegmentState) : Option String :=
  if segment.recordCreated then some segment.id else none

def RelayState.openRow (s : RelayState) : Option String := s.activeText.bind TextSegmentState.row

/-- A row is created for a text that is not empty, and such a text has been noted. -/
def RelayState.Tidy (s : RelayState) : Prop :=
  ∀ segment, s.activeText = some segment →
    (segment.recordCreated = true → segment.buffer ≠ "") ∧
      (segment.buffer ≠ "" → s.attempt.sawVisibleOutput = true)

namespace RelayState.Tidy

variable {relay : StreamRelay} {s s' : RelayState} {received : Received}

theorem of_closed (h : s.activeText = none) : s.Tidy := by
  intro segment hseg
  rw [h] at hseg
  cases hseg

theorem of_same (h : s.Tidy) (htext : s'.activeText = s.activeText)
    (hnoted : s.attempt.sawVisibleOutput = true → s'.attempt.sawVisibleOutput = true) : s'.Tidy := by
  intro segment hseg
  rw [htext] at hseg
  exact ⟨(h segment hseg).1, fun hbuffer => hnoted ((h segment hseg).2 hbuffer)⟩

theorem completeActiveThinking (h : s.Tidy) (sample : WriteSample) :
    (s.completeActiveThinking sample).Tidy := by
  have hattempt := (Mute.completeActiveThinking s sample).attempt
  refine h.of_same ?_ fun hnoted => by rw [hattempt]; exact hnoted
  cases hseg : s.activeThinking with
  | none => simp only [RelayState.completeActiveThinking, hseg]
  | some segment =>
    simp only [RelayState.completeActiveThinking, hseg, RelayState.persistThinkingSegment,
      RelayState.forward]
    split
    · rfl
    · split <;> rfl

/-- The text of the open segment was noted, and what a chunk adds is noted with the chunk. -/
theorem openText (h : s.Tidy) (relay : StreamRelay) (content : String) :
    (((s.noteVisible content).openText relay).1.recordCreated = true →
        ((s.noteVisible content).openText relay).1.buffer ≠ "") ∧
      (((s.noteVisible content).openText relay).1.buffer ++ content ≠ "" →
        ((s.noteVisible content).openText relay).2.attempt.sawVisibleOutput = true) := by
  rw [(Mute.openText relay (s.noteVisible content)).attempt]
  have hcontent : content ≠ "" → (s.noteVisible content).attempt.sawVisibleOutput = true := by
    intro hne
    simp [RelayState.noteVisible, hne]
  cases hseg : s.activeText with
  | none =>
    have hopen : ((s.noteVisible content).openText relay).1 =
        ⟨((s.noteVisible content).mintSegmentMsgId relay).1, "", false, 0⟩ := by
      simp only [RelayState.openText, RelayState.noteVisible, hseg]
    rw [hopen, String.empty_append]
    refine ⟨fun hcreated => ?_, hcontent⟩
    cases hcreated
  | some segment =>
    have hopen : ((s.noteVisible content).openText relay).1 = segment := by
      simp only [RelayState.openText, RelayState.noteVisible, hseg]
    rw [hopen]
    refine ⟨(h segment hseg).1, fun hne => ?_⟩
    by_cases hempty : content = ""
    · rw [hempty, String.append_empty] at hne
      have hsaw := (h segment hseg).2 hne
      simp [RelayState.noteVisible, hsaw]
    · exact hcontent hempty

theorem flushTextSegment (sample : WriteSample) {segment : TextSegmentState}
    (hcreated : segment.recordCreated = true → segment.buffer ≠ "")
    (hnoted : segment.buffer ≠ "" → s.attempt.sawVisibleOutput = true) :
    RelayState.Tidy
      { (s.flushTextSegment sample segment).1 with
        activeText := some { (s.flushTextSegment sample segment).2 with flushCounter := 0 } } := by
  have hattempt := (Mute.flushTextSegment s sample segment).attempt
  have hsegment : (s.flushTextSegment sample segment).2.buffer = segment.buffer ∧
      ((s.flushTextSegment sample segment).2.recordCreated = true → segment.buffer ≠ "") := by
    unfold RelayState.flushTextSegment
    split
    · exact ⟨rfl, hcreated⟩
    · split
      · exact ⟨rfl, hcreated⟩
      · next hne =>
        split
        · exact ⟨rfl, hcreated⟩
        · exact ⟨rfl, fun _ => hne⟩
  intro segment' hseg
  cases hseg
  rw [hattempt, hsegment.1]
  exact ⟨hsegment.2, hnoted⟩

theorem handleText (h : s.Tidy) (relay : StreamRelay) (received : Received) (content : String) :
    (s.handleText relay received content).Tidy := by
  obtain ⟨hcreated, hnoted⟩ := (h.completeActiveThinking received.onThinking).openText relay content
  unfold RelayState.handleText
  dsimp only
  generalize ((s.completeActiveThinking received.onThinking).noteVisible content).openText relay =
    opened at hcreated hnoted ⊢
  obtain ⟨segment, t⟩ := opened
  have hgrown : segment.recordCreated = true → segment.buffer ++ content ≠ "" := by
    intro hrecord hempty
    exact hcreated hrecord (String.append_eq_empty_iff.mp hempty).1
  split
  · exact flushTextSegment received.onText hgrown hnoted
  · intro segment' hseg
    cases hseg
    exact ⟨hgrown, hnoted⟩

end RelayState.Tidy

def Behind (s t : RelayState) : Prop :=
  ∃ rows, s = { t with rows := rows } ∧ MessageTable.AgreeBut t.openRow rows t.rows

namespace Behind

variable {relay : StreamRelay} {s t : RelayState} {received : Received} {sample : WriteSample}

theorem refl (s : RelayState) : Behind s s := ⟨s.rows, rfl, .refl _ _⟩

section

variable (h : Behind s t)
include h

theorem eq_of_openRow (hnone : t.openRow = none) : s = t := by
  obtain ⟨rows, rfl, hrows⟩ := h
  rw [hnone, MessageTable.agreeBut_none] at hrows
  rw [hrows]

theorem completeActiveThinking (sample : WriteSample) :
    Behind (s.completeActiveThinking sample) (t.completeActiveThinking sample) := by
  obtain ⟨rows, rfl, hrows⟩ := h
  obtain ⟨rows', sent, nextId, full, segments, activeText, activeThinking, used, attempt⟩ := t
  cases activeThinking with
  | none => exact ⟨rows, rfl, hrows⟩
  | some segment =>
    simp only [RelayState.completeActiveThinking, RelayState.persistThinkingSegment,
      RelayState.forward]
    split
    · exact ⟨rows, rfl, hrows⟩
    · split
      · exact ⟨rows, rfl, hrows⟩
      · exact ⟨_, rfl, hrows.insertMessage _ _⟩

/-- With the end of the segment the states are the same. -/
theorem closeActiveTextSegment (ht : t.Tidy) (hsample : sample.Succeeds) (status : MessageStatus) :
    s.closeActiveTextSegment sample status = t.closeActiveTextSegment sample status := by
  cases hseg : t.activeText with
  | none => rw [h.eq_of_openRow (by rw [RelayState.openRow, hseg]; rfl)]
  | some segment =>
    by_cases hcreated : segment.recordCreated = true
    · obtain ⟨rows, rfl, hrows⟩ := h
      have hbuffer : segment.buffer ≠ "" := (ht segment hseg).1 hcreated
      have hallows := hsample.allows .assistantTextFinalize rfl
      rw [RelayState.openRow, hseg, Option.bind_some, TextSegmentState.row, if_pos hcreated] at hrows
      simp only [RelayState.closeActiveTextSegment, hseg, RelayState.finalizeTextSegment, hallows,
        hbuffer, hcreated, hsample.ok, Bool.not_true, Bool.false_eq_true, if_false, if_true,
        hrows.updateMessage]
    · rw [h.eq_of_openRow]
      rw [RelayState.openRow, hseg, Option.bind_some, TextSegmentState.row, if_neg hcreated]

theorem noteVisible (content : String) :
    Behind (s.noteVisible content) (t.noteVisible content) := by
  obtain ⟨rows, rfl, hrows⟩ := h
  exact ⟨rows, rfl, hrows⟩

theorem forward (msgId : String) (event : AgentStreamEvent) :
    Behind (s.forward msgId event) (t.forward msgId event) := by
  obtain ⟨rows, rfl, hrows⟩ := h
  exact ⟨rows, rfl, hrows⟩

/-- The open segment is the same. -/
theorem openText (relay : StreamRelay) :
    (s.openText relay).1 = (t.openText relay).1 ∧
      Behind (s.openText relay).2 (t.openText relay).2 ∧
      (t.openText relay).2.openRow = (t.openText relay).1.row := by
  cases hseg : t.activeText with
  | none =>
    obtain rfl : s = t := h.eq_of_openRow (by rw [RelayState.openRow, hseg]; rfl)
    simp only [RelayState.openText, hseg]
    exact ⟨trivial, .refl _, rfl⟩
  | some segment =>
    obtain ⟨rows, rfl, hrows⟩ := h
    have hopen : ∀ u : RelayState, u.activeText = some segment → u.openText relay = (segment, u) := by
      intro u hu
      simp only [RelayState.openText, hu]
    rw [hopen t hseg, hopen { t with rows := rows } hseg]
    exact ⟨rfl, ⟨rows, rfl, hrows⟩, by rw [RelayState.openRow, hseg]; rfl⟩

end

/-- A flush of the open segment, and the same flush without a failure. -/
theorem flushTextSegment {rows : MessageTable} {segment : TextSegmentState}
    (hrows : MessageTable.AgreeBut segment.row rows t.rows)
    (hok : segment.buffer ≠ "" → segment.recordCreated = false →
      sample.lifecycle.allows .assistantTextFlush = true → sample.ok segment.id = true) :
    Behind
      { ({ t with rows := rows }.flushTextSegment sample segment).1 with
        activeText := some
          { ({ t with rows := rows }.flushTextSegment sample segment).2 with flushCounter := 0 } }
      { (t.flushTextSegment { sample with ok := fun _ => true } segment).1 with
        activeText := some
          { (t.flushTextSegment { sample with ok := fun _ => true } segment).2 with
            flushCounter := 0 } } := by
  by_cases hallows : sample.lifecycle.allows .assistantTextFlush = true
  · by_cases hbuffer : segment.buffer = ""
    · simp only [RelayState.flushTextSegment, hallows, hbuffer, Bool.not_true, Bool.false_eq_true,
        if_false, if_true]
      exact ⟨rows, rfl, hrows⟩
    · by_cases hcreated : segment.recordCreated = true
      · have hrow : segment.row = some segment.id := if_pos hcreated
        rw [hrow] at hrows
        simp only [RelayState.flushTextSegment, hallows, hbuffer, hcreated, Bool.not_true,
          Bool.false_eq_true, if_false, if_true]
        refine ⟨_, rfl, ?_⟩
        exact (MessageTable.agreeBut_updateMessage _ _ _ _).trans
          (hrows.trans (MessageTable.agreeBut_updateMessage _ _ _ _).symm)
      · have hrow : segment.row = none := if_neg hcreated
        rw [hrow, MessageTable.agreeBut_none] at hrows
        rw [Bool.not_eq_true] at hcreated
        simp only [RelayState.flushTextSegment, hallows, hbuffer, hcreated, Bool.not_true,
          Bool.false_eq_true, if_false, hok hbuffer hcreated hallows, hrows]
        exact .refl _
  · simp only [RelayState.flushTextSegment, hallows, Bool.not_false, if_true]
    exact ⟨rows, rfl, hrows⟩

theorem handleText (h : Behind s t) {content : String}
    (hchunk : received.chunk = some content) (hdeleting : received.deleting = false)
    (hcreates : s.CreatesRow relay received) :
    Behind (s.handleText relay received content) (t.handleText relay received.flushed content) := by
  have hflushed : received.flushed =
      { received with onText := { received.onText with ok := fun _ => true } } := by
    rw [Received.flushed, Received.isText, hchunk]
    rfl
  obtain ⟨hsegment, ⟨rows, hrest, hrows⟩, hrow⟩ :=
    ((h.completeActiveThinking received.onThinking).noteVisible content).openText relay
  have hcreate := hcreates content hchunk hdeleting
  unfold RelayState.taken at hcreate
  unfold RelayState.handleText
  rw [hflushed]
  dsimp only
  rw [hrow] at hrows
  rw [hsegment] at hcreate ⊢
  rw [hrest]
  generalize (((t.completeActiveThinking received.onThinking).noteVisible content).openText
    relay).1 = segment at hcreate hrows ⊢
  generalize (((t.completeActiveThinking received.onThinking).noteVisible content).openText
    relay).2 = u at hrows ⊢
  let grown : TextSegmentState := { segment with
    buffer := segment.buffer ++ content
    flushCounter := segment.flushCounter + 1 }
  let shown : RelayState := { u.forward segment.id (.text content) with
    fullTextBuffer := u.fullTextBuffer ++ content }
  have hgrown : MessageTable.AgreeBut grown.row rows shown.rows := hrows
  split
  · next hcount => exact flushTextSegment hgrown (hcreate hcount)
  · exact ⟨rows, rfl, hgrown⟩

/-- The states before a tool call are the same. -/
theorem beforeTool (h : Behind s t) (ht : t.Tidy) (hends : received.onText.Succeeds)
    (event : AgentStreamEvent) :
    s.beforeTool relay received event = t.beforeTool relay received event := by
  have hnote : Behind s.noteSideEffect t.noteSideEffect := by
    obtain ⟨rows, rfl, hrows⟩ := h
    exact ⟨rows, rfl, hrows⟩
  have htidy : t.noteSideEffect.Tidy := ht.of_same rfl fun hnoted => hnoted
  have hcomplete := hnote.completeActiveThinking received.onThinking
  rw [RelayState.beforeTool, RelayState.beforeTool,
    hcomplete.closeActiveTextSegment (htidy.completeActiveThinking _) hends]

theorem persistTip (h : Behind s t) (sample : WriteSample) (content : String)
    (status : MessageStatus) :
    Behind (s.persistTip relay sample content status) (t.persistTip relay sample content status) := by
  obtain ⟨rows, rfl, hrows⟩ := h
  unfold RelayState.persistTip
  split
  · exact ⟨rows, rfl, hrows⟩
  · exact ⟨_, rfl, hrows.insertMessage _ _⟩

end Behind

section ActiveText

variable (relay : StreamRelay) (s : RelayState) (sample : WriteSample)

theorem openThinking_activeText : (s.openThinking relay).2.activeText = s.activeText := by
  have hmint : (s.mintSegmentMsgId relay).2.activeText = s.activeText := by
    unfold RelayState.mintSegmentMsgId
    split <;> rfl
  cases hseg : s.activeThinking with
  | none =>
    simp only [RelayState.openThinking, hseg]
    exact hmint
  | some segment => simp only [RelayState.openThinking, hseg]

theorem persistToolCall_activeText (data : ToolCallEventData) :
    (s.persistToolCall relay sample data).activeText = s.activeText := by
  unfold RelayState.persistToolCall
  repeat' split
  all_goals rfl

theorem persistAcpToolCall_activeText (data : AcpToolCallEventData) :
    (s.persistAcpToolCall relay sample data).activeText = s.activeText := by
  unfold RelayState.persistAcpToolCall
  repeat' split
  all_goals rfl

theorem persistToolGroup_activeText (entries : List ToolGroupEntry) (json : String) :
    (s.persistToolGroup relay sample entries json).activeText = s.activeText := by
  cases entries with
  | nil =>
    unfold RelayState.persistToolGroup
    split
    · rfl
    · dsimp only [List.head?_nil, RelayState.mintMsgId]
      split <;> rfl
  | cons entry entries =>
    unfold RelayState.persistToolGroup
    split
    · rfl
    · dsimp only [List.head?_cons]
      split <;> rfl

theorem persistTip_activeText (content : String) (status : MessageStatus) :
    (s.persistTip relay sample content status).activeText = s.activeText := by
  unfold RelayState.persistTip
  split
  · rfl
  · rfl

theorem beforeTool_activeText (received : Received) (event : AgentStreamEvent) :
    (s.beforeTool relay received event).activeText = none :=
  Stored.closeActiveTextSegment_activeText _ _ _

end ActiveText

/-- A step of the run in which flushes fail, beside that of the run in which they do not. -/
structure Follows (result result' : RelayState × Option RelayOutcome) : Prop where
  outcome : result.2 = result'.2
  ended : result.2.isSome = true → result.1 = result'.1
  goesOn : result.2 = none → Behind result.1 result'.1 ∧ result'.1.Tidy

namespace Follows

variable {relay : StreamRelay} {s t : RelayState} {received : Received}

theorem going (h : Behind s t) (ht : t.Tidy) : Follows (s, none) (t, none) where
  outcome := rfl
  ended := fun hended => absurd hended Bool.false_ne_true
  goesOn := fun _ => ⟨h, ht⟩

theorem same {result : RelayState × Option RelayOutcome} (ht : result.2 = none → result.1.Tidy) :
    Follows result result :=
  ⟨rfl, fun _ => rfl, fun hnone => ⟨.refl _, ht hnone⟩⟩

section

variable (h : Behind s t)
include h

theorem terminate (ht : t.Tidy) (hdeleting : received.deleting = false)
    (hends : received.onText.Succeeds) (terminal : RelayTerminal)
    (event : Option AgentStreamEvent) (error : Option ErrorEventData) :
    Follows (s.terminate relay received terminal event error)
      (t.terminate relay received terminal event error) := by
  have hcomplete := h.completeActiveThinking received.onThinking
  have hclose := hcomplete.closeActiveTextSegment (ht.completeActiveThinking _) hends
    (if error.isSome then .error else .finish)
  have heq : s.terminate relay received terminal event error =
      t.terminate relay received terminal event error := by
    rw [RelayState.terminate, RelayState.terminate, RelayState.closeSegments,
      RelayState.closeSegments, hdeleting, if_neg Bool.false_ne_true, if_neg Bool.false_ne_true, hclose]
  rw [heq]
  exact same fun hnone => by cases hnone

/-- An error that is kept back leaves the segment open, and then there is no text in it. -/
theorem handleError (ht : t.Tidy) (hdeleting : received.deleting = false)
    (hends : received.onText.Succeeds) (data : ErrorEventData) :
    Follows (s.handleError relay received data) (t.handleError relay received data) := by
  have hdefers : s.defers relay data = t.defers relay data := by
    obtain ⟨rows, rfl, -⟩ := h
    rfl
  by_cases hdefer : t.defers relay data = true
  · have hquiet : t.attempt.sawVisibleOutput = false := by
      simp only [RelayState.defers, TurnAttemptSummary.safeToAutoReplay, Bool.and_eq_true,
        Bool.not_eq_true'] at hdefer
      exact hdefer.2.1.1
    have hnone : t.openRow = none := by
      unfold RelayState.openRow
      cases hseg : t.activeText with
      | none => rfl
      | some segment =>
        refine if_neg fun hcreated => ?_
        have hsaw := (ht segment hseg).2 ((ht segment hseg).1 hcreated)
        rw [hquiet] at hsaw
        cases hsaw
    rw [h.eq_of_openRow hnone]
    refine same fun hgoes => ?_
    rw [RelayState.handleError, if_pos hdefer] at hgoes
    cases hgoes
  · rw [RelayState.handleError, RelayState.handleError, hdefers, if_neg hdefer, if_neg hdefer]
    exact terminate h ht hdeleting hends _ _ _

theorem handleThinking (ht : t.Tidy) (hends : received.onText.Succeeds) (data : ThinkingEventData) :
    Follows (s.handleThinking relay received data, none)
      (t.handleThinking relay received data, none) := by
  by_cases hdone : data.status = some "done"
  · rw [RelayState.handleThinking, RelayState.handleThinking, if_pos hdone, if_pos hdone]
    exact going (h.completeActiveThinking _) (ht.completeActiveThinking _)
  · have hsame : s.handleThinking relay received data = t.handleThinking relay received data := by
      rw [RelayState.handleThinking, RelayState.handleThinking, if_neg hdone, if_neg hdone,
        h.closeActiveTextSegment ht hends]
    rw [hsame]
    refine same fun _ => .of_closed ?_
    rw [RelayState.handleThinking, if_neg hdone]
    dsimp only [RelayState.forward]
    rw [openThinking_activeText]
    exact Stored.closeActiveTextSegment_activeText t received.onText .finish

theorem handleTips (ht : t.Tidy) (data : TipsEventData) :
    Follows (s.handleTips relay received data, none) (t.handleTips relay received data, none) := by
  unfold RelayState.handleTips
  by_cases hkept : data.tipType ≠ .error
  · simp only [hkept, ne_eq, not_false_eq_true, if_true]
    have hshown : Behind { s with attempt := { s.attempt with sawVisibleOutput := true } }
        { t with attempt := { t.attempt with sawVisibleOutput := true } } := by
      obtain ⟨rows, rfl, hrows⟩ := h
      exact ⟨rows, rfl, hrows⟩
    refine going ((hshown.forward relay.msgId (.tips data)).persistTip _ _ _) ?_
    refine ht.of_same (persistTip_activeText _ _ _ _ _) fun _ => ?_
    rw [(Mute.persistTip _ _ _ _).attempt]
    rfl
  · simp only [hkept, if_false]
    exact going (h.forward _ _) (ht.of_same rfl fun hnoted => hnoted)

theorem handle (ht : t.Tidy) (hdeleting : received.deleting = false)
    (hends : received.onText.Succeeds) {event : AgentStreamEvent}
    (htext : ∀ content, event ≠ .text content) :
    Follows (s.handle relay received event) (t.handle relay received event) := by
  cases event with
  | text content => exact absurd rfl (htext content)
  | thinking data => exact handleThinking h ht hends data
  | tips data => exact handleTips h ht data
  | finish => exact terminate h ht hdeleting hends _ _ _
  | error data => exact handleError h ht hdeleting hends data
  | toolCall data =>
    rw [RelayState.handle, RelayState.handle, h.beforeTool ht hends]
    refine same fun _ => .of_closed ?_
    exact (persistToolCall_activeText _ _ _ _).trans (beforeTool_activeText _ _ _ _)
  | acpToolCall data =>
    rw [RelayState.handle, RelayState.handle, h.beforeTool ht hends]
    refine same fun _ => .of_closed ?_
    exact (persistAcpToolCall_activeText _ _ _ _).trans (beforeTool_activeText _ _ _ _)
  | toolGroup entries json =>
    rw [RelayState.handle, RelayState.handle, h.beforeTool ht hends]
    refine same fun _ => .of_closed ?_
    exact (persistToolGroup_activeText _ _ _ _ _).trans (beforeTool_activeText _ _ _ _)
  | cronTrigger | permission | acpPermission | _ =>
    obtain ⟨rows, rfl, hrows⟩ := h
    exact going ⟨rows, rfl, hrows⟩ (ht.of_same rfl fun hnoted => hnoted)

theorem step (ht : t.Tidy) (hends : received.EndsSegments)
    (hcreates : s.CreatesRow relay received) :
    Follows (relay.step s received) (relay.step t received.flushed) := by
  by_cases htext : received.isText = true
  · obtain ⟨content, hchunk⟩ := Option.isSome_iff_exists.mp htext
    have hsignal := Received.signal_of_chunk hchunk
    have hflushed : received.flushed.signal = .event (.text content) ∧
        received.flushed.deleting = received.deleting := by
      rw [Received.flushed, if_pos htext]
      exact ⟨hsignal, rfl⟩
    rw [StreamRelay.step, StreamRelay.step, hflushed.1, hflushed.2, hsignal]
    cases hdeleting : received.deleting with
    | true => exact going h ht
    | false => exact going (h.handleText hchunk hdeleting hcreates) (ht.handleText _ _ _)
  · have hnot : received.isText = false := by simpa using htext
    have hflushed : received.flushed = received := if_neg htext
    rw [hflushed, StreamRelay.step, StreamRelay.step]
    cases hsignal : received.signal with
    | lagged lost => exact going h ht
    | closed =>
      have hdeleting : received.deleting = false := hends.deleting (by rw [hsignal]; rfl)
      exact terminate h ht hdeleting (hends.onText hnot hdeleting) _ _ _
    | event event =>
      dsimp only
      cases hdeleting : received.deleting with
      | true =>
        have hgoes : event.isTerminal = false := by
          by_contra hterminal
          have hends' : received.signal.ends = true := by
            rw [hsignal]
            exact Bool.not_eq_false _ ▸ hterminal
          have hfalse := hends.deleting hends'
          rw [hdeleting] at hfalse
          cases hfalse
        rw [hgoes]
        exact going h ht
      | false =>
        refine handle h ht hdeleting (hends.onText hnot hdeleting) fun content heq => ?_
        rw [Received.isText, Received.chunk, hsignal, heq] at hnot
        cases hnot

end

end Follows

namespace StreamRelay

variable {relay : StreamRelay} {s t : RelayState}

/-- A reply that has ended is the same whether flushes have failed or not. -/
theorem consume_flushed (h : Behind s t) (ht : t.Tidy) {stream : List Received}
    (hends : ∀ received ∈ stream, received.EndsSegments) (hcreates : relay.CreatesRows stream s)
    (hended : (relay.consume stream s).2.isSome = true) :
    relay.consume stream s = relay.consume (stream.map Received.flushed) t := by
  induction stream generalizing s t with
  | nil => cases hended
  | cons received rest ih =>
    have hstep := Follows.step h ht (hends received List.mem_cons_self) hcreates.1
    rw [List.map_cons]
    cases houtcome : (relay.step s received).2 with
    | some outcome =>
      have hs : relay.step s received = ((relay.step s received).1, some outcome) :=
        Prod.ext rfl houtcome
      have hends : relay.step t received.flushed = relay.step s received :=
        (Prod.ext (hstep.ended (by rw [houtcome]; rfl)) hstep.outcome).symm
      rw [StreamRelay.consume, StreamRelay.consume, hends, hs]
    | none =>
      obtain ⟨hbehind, htidy⟩ := hstep.goesOn houtcome
      have hs : relay.step s received = ((relay.step s received).1, none) := Prod.ext rfl houtcome
      have ht' : relay.step t received.flushed = ((relay.step t received.flushed).1, none) :=
        Prod.ext rfl (hstep.outcome.symm.trans houtcome)
      rw [StreamRelay.consume, hs] at hended
      rw [StreamRelay.consume, StreamRelay.consume, hs, ht']
      exact ih hbehind htidy (fun r hr => hends r (List.mem_cons_of_mem _ hr)) (hcreates.2 houtcome)
        hended

/-- If all the writes from the end of a segment on are made, and each flush that has to create a
row, then failed flushes lose no text of the reply. -/
theorem failed_flush_loses_no_text (relay : StreamRelay) (n₀ : ℕ) (stream : List Received)
    (hends : ∀ received ∈ stream, received.EndsSegments)
    (hcreates : relay.CreatesRows stream (.start n₀))
    (hended : (relay.consume stream (.start n₀)).2.isSome = true) :
    visibleText (relay.consume stream (.start n₀)).1.rows =
      visibleText (relay.consume (stream.map Received.flushed) (.start n₀)).1.rows := by
  rw [consume_flushed (.refl _) (.of_closed rfl) hends hcreates hended]

/-- A chunk of text, the flush of which runs or does not. -/
def chunkOf (content : String) (ok : Bool) : Received :=
  { Received.under .active (.event (.text content)) with onText := ⟨.active, fun _ => ok⟩ }

theorem endsSegments_chunkOf (content : String) (ok : Bool) : (chunkOf content ok).EndsSegments :=
  ⟨fun _ => rfl, fun hnot => absurd hnot.symm Bool.false_ne_true⟩

theorem endsSegments_under (signal : RelaySignal) : (Received.under .active signal).EndsSegments :=
  ⟨fun _ => rfl, fun _ _ => ⟨.inl rfl, fun _ => rfl⟩⟩

theorem endsSegments_chunks {content : String} {ok : Bool} {n : ℕ} {rest : List Received}
    (hrest : ∀ received ∈ rest, received.EndsSegments) :
    ∀ received ∈ List.replicate n (chunkOf content ok) ++ rest, received.EndsSegments := by
  intro received hmem
  rcases List.mem_append.mp hmem with hchunk | hmem
  · rw [List.eq_of_mem_replicate hchunk]
    exact endsSegments_chunkOf _ _
  · exact hrest received hmem

/-- The second flush of a segment fails. -/
theorem failed_flush_loses_no_text_sample :
    visibleText (plainRelay.consume (List.replicate 39 (chunkOf "a" true) ++
        [chunkOf "a" false, .under .active (.event .finish)]) (.start 1)).1.rows =
      visibleText (plainRelay.consume ((List.replicate 39 (chunkOf "a" true) ++
        [chunkOf "a" false, .under .active (.event .finish)]).map Received.flushed)
          (.start 1)).1.rows := by
  refine failed_flush_loses_no_text plainRelay 1 _ (endsSegments_chunks ?_) (by decide +kernel)
    (by decide +kernel)
  exact List.forall_mem_cons.mpr
    ⟨endsSegments_chunkOf _ _, List.forall_mem_singleton.mpr (endsSegments_under _)⟩

/-- The flush fails that has to create the row of the first segment. -/
def lostSegment : List Received :=
  List.replicate 20 (chunkOf "a" false) ++
    [.under .active (.event (.toolCall ⟨"t", .completed, "done"⟩)),
      .under .active (.event (.text "b")), .under .active (.event .finish)]

/-- The same in a reply of one segment that ends with a space: it is stored trimmed. -/
def lostSpace : List Received :=
  List.replicate 19 (chunkOf "a" false) ++ [chunkOf " " false, .under .active (.event .finish)]

/-- The segment is lost though all that is written at its end could be. -/
theorem failed_insert_loses_segment :
    ((∀ received ∈ lostSegment, received.EndsSegments) ∧
      visibleText (plainRelay.consume lostSegment (.start 1)).1.rows = "b" ∧
      visibleText (plainRelay.consume (lostSegment.map Received.flushed) (.start 1)).1.rows =
        "aaaaaaaaaaaaaaaaaaaab") ∧
    ((∀ received ∈ lostSpace, received.EndsSegments) ∧
      visibleText (plainRelay.consume lostSpace (.start 1)).1.rows = "aaaaaaaaaaaaaaaaaaa" ∧
      visibleText (plainRelay.consume (lostSpace.map Received.flushed) (.start 1)).1.rows =
        "aaaaaaaaaaaaaaaaaaa ") := by
  refine ⟨⟨endsSegments_chunks ?_, by decide +kernel, by decide +kernel⟩,
    endsSegments_chunks ?_, by decide +kernel, by decide +kernel⟩
  · intro received hmem
    simp only [List.mem_cons, List.not_mem_nil, or_false] at hmem
    obtain rfl | rfl | rfl := hmem <;> exact endsSegments_under _
  · exact List.forall_mem_cons.mpr
      ⟨endsSegments_chunkOf _ _, List.forall_mem_singleton.mpr (endsSegments_under _)⟩

end StreamRelay

end AionCore.Conversation
