import AionCore.Conversation.StreamRelay

/-!
# Conversations: what the relay reports of a send

The summary of a send is a fold over the events that are not skipped. While it calls a replay safe
the relay has written nothing, and the events that it accounts for have left nothing; a terminal
error is shown once or deferred.
-/

namespace AionCore.Conversation

namespace AgentStreamEvent

def leavesTrace : AgentStreamEvent → Bool
  | text content => content ≠ ""
  | thinking data => data.content ≠ ""
  | tips _ | toolCall _ | acpToolCall _ | toolGroup _ _ | permission | acpPermission
  | cronTrigger => true
  | _ => false

def countsVisible : AgentStreamEvent → Bool
  | text content => content ≠ ""
  | thinking data => data.status ≠ some "done" && data.content ≠ ""
  | tips data => data.tipType ≠ .error
  | _ => false

def countsSideEffect : AgentStreamEvent → Bool
  | toolCall _ | acpToolCall _ | toolGroup _ _ | permission | acpPermission | cronTrigger => true
  | _ => false

end AgentStreamEvent

def RelaySignal.emitted : RelaySignal → List AgentStreamEvent
  | event e => [e]
  | lagged lost => lost
  | closed => []

def Received.leavesTrace (received : Received) : Bool :=
  received.signal.emitted.any (·.leavesTrace)

def Received.noted (received : Received) : Bool :=
  match received.signal with
  | .event event =>
    !event.leavesTrace || !received.deleting && (event.countsVisible || event.countsSideEffect)
  | .lagged lost => !lost.any (·.leavesTrace)
  | .closed => true

def TurnAttemptSummary.note (attempt : TurnAttemptSummary) (event : AgentStreamEvent) :
    TurnAttemptSummary :=
  { attempt with
    sawVisibleOutput := attempt.sawVisibleOutput || event.countsVisible
    sawToolOrSideEffect := attempt.sawToolOrSideEffect || event.countsSideEffect }

theorem TurnAttemptSummary.note_of_not_counts (attempt : TurnAttemptSummary)
    {event : AgentStreamEvent} (hvisible : event.countsVisible = false)
    (heffect : event.countsSideEffect = false) : attempt.note event = attempt := by
  simp [note, hvisible, heffect]

theorem TurnAttemptSummary.safeToAutoReplay_note (attempt : TurnAttemptSummary)
    (event : AgentStreamEvent) :
    (attempt.note event).safeToAutoReplay = true ↔ attempt.safeToAutoReplay = true ∧
      event.countsVisible = false ∧ event.countsSideEffect = false := by
  simp only [note, safeToAutoReplay, Bool.and_eq_true, Bool.not_eq_true', Bool.or_eq_false_iff]
  constructor
  · rintro ⟨⟨⟨ha, hv⟩, hb, he⟩, hc⟩
    exact ⟨⟨⟨ha, hb⟩, hc⟩, hv, he⟩
  · rintro ⟨⟨⟨ha, hb⟩, hc⟩, hv, he⟩
    exact ⟨⟨⟨ha, hv⟩, hb, he⟩, hc⟩

def StreamPayload.isError : StreamPayload → Bool
  | event _ (.error _) => true
  | event _ _ | finalText _ _ _ | system _ => false

def RelayState.shownErrors (s : RelayState) : ℕ := s.sent.countP (·.isError)

/-- The summary stays, and no error is shown. -/
structure Mute (s s' : RelayState) : Prop where
  attempt : s'.attempt = s.attempt
  shown : s'.shownErrors = s.shownErrors

namespace Mute

variable {relay : StreamRelay} {s s' s'' : RelayState}

theorem rfl : Mute s s := ⟨.refl _, .refl _⟩

theorem trans (h : Mute s s') (h' : Mute s' s'') : Mute s s'' :=
  ⟨h'.attempt.trans h.attempt, h'.shown.trans h.shown⟩

theorem of_eq (hattempt : s'.attempt = s.attempt) (hsent : s'.sent = s.sent) : Mute s s' :=
  ⟨hattempt, by rw [RelayState.shownErrors, hsent, RelayState.shownErrors]⟩

theorem ite {c : Prop} [Decidable c] (h : Mute s s') (h' : Mute s s'') :
    Mute s (if c then s' else s'') := by
  split
  · exact h
  · exact h'

theorem append (s : RelayState) {payloads : List StreamPayload}
    (h : ∀ payload ∈ payloads, payload.isError = false) :
    Mute s { s with sent := s.sent ++ payloads } := by
  refine ⟨.refl _, ?_⟩
  have hnone : payloads.countP (·.isError) = 0 :=
    List.countP_eq_zero.2 fun payload hmem => by simp [h payload hmem]
  rw [RelayState.shownErrors, List.countP_append, hnone, Nat.add_zero, RelayState.shownErrors]

theorem forward (s : RelayState) (msgId : String) (event : AgentStreamEvent)
    (h : StreamPayload.isError (.event msgId event) = false) : Mute s (s.forward msgId event) := by
  apply append
  intro payload hmem
  rw [List.mem_singleton.1 hmem]
  exact h

theorem persistThinkingSegment (s : RelayState) (sample : WriteSample)
    (segment : ThinkingSegmentState) : Mute s (s.persistThinkingSegment sample segment) := by
  unfold RelayState.persistThinkingSegment
  repeat' split
  all_goals exact of_eq (.refl _) (.refl _)

theorem completeActiveThinking (s : RelayState) (sample : WriteSample) :
    Mute s (s.completeActiveThinking sample) := by
  unfold RelayState.completeActiveThinking
  split
  · exact .rfl
  · rename_i segment _
    have hnone : Mute s { s with activeThinking := none } := of_eq (.refl _) (.refl _)
    exact (hnone.trans (forward _ segment.id _ (.refl _))).trans (persistThinkingSegment _ _ _)

theorem closeActiveTextSegment (s : RelayState) (sample : WriteSample) (status : MessageStatus) :
    Mute s (s.closeActiveTextSegment sample status) := by
  unfold RelayState.closeActiveTextSegment
  split
  · exact .rfl
  · simp only [RelayState.finalizeTextSegment]
    repeat' split
    all_goals exact of_eq (.refl _) (.refl _)

theorem flushTextSegment (s : RelayState) (sample : WriteSample) (segment : TextSegmentState) :
    Mute s (s.flushTextSegment sample segment).1 := by
  unfold RelayState.flushTextSegment
  repeat' split
  all_goals exact of_eq (.refl _) (.refl _)

theorem mintSegmentMsgId (relay : StreamRelay) (s : RelayState) : Mute s (s.mintSegmentMsgId relay).2 := by
  unfold RelayState.mintSegmentMsgId
  split <;> exact of_eq (.refl _) (.refl _)

theorem openThinking (relay : StreamRelay) (s : RelayState) : Mute s (s.openThinking relay).2 := by
  unfold RelayState.openThinking
  split
  · exact .rfl
  · exact (mintSegmentMsgId relay s).trans (of_eq (.refl _) (.refl _))

theorem openText (relay : StreamRelay) (s : RelayState) : Mute s (s.openText relay).2 := by
  unfold RelayState.openText
  split
  · exact .rfl
  · exact (mintSegmentMsgId relay s).trans (of_eq (.refl _) (.refl _))

theorem persistToolCall (s : RelayState) (sample : WriteSample) (data : ToolCallEventData) :
    Mute s (s.persistToolCall relay sample data) := by
  unfold RelayState.persistToolCall
  repeat' split
  all_goals exact of_eq (.refl _) (.refl _)

theorem persistAcpToolCall (s : RelayState) (sample : WriteSample) (data : AcpToolCallEventData) :
    Mute s (s.persistAcpToolCall relay sample data) := by
  unfold RelayState.persistAcpToolCall
  split <;> exact of_eq (.refl _) (.refl _)

theorem persistToolGroup (s : RelayState) (sample : WriteSample) (entries : List ToolGroupEntry)
    (json : String) : Mute s (s.persistToolGroup relay sample entries json) := by
  unfold RelayState.persistToolGroup
  cases entries with
  | nil => exact .ite .rfl (.ite (of_eq (.refl _) (.refl _)) (of_eq (.refl _) (.refl _)))
  | cons entry entries =>
    exact .ite .rfl (.ite (of_eq (.refl _) (.refl _)) (of_eq (.refl _) (.refl _)))

theorem persistTip (s : RelayState) (sample : WriteSample) (content : String)
    (status : MessageStatus) : Mute s (s.persistTip relay sample content status) := by
  unfold RelayState.persistTip
  split <;> exact of_eq (.refl _) (.refl _)

theorem persistFinalText (s : RelayState) (sample : WriteSample) (status : MessageStatus)
    (finalText : String) (hidden rewriteSegments : Bool) :
    Mute s (s.persistFinalText relay sample status finalText hidden rewriteSegments) := by
  unfold RelayState.persistFinalText
  split
  · exact .rfl
  · split
    · split
      · refine ⟨.refl _, ?_⟩
        refine (append s ?_).shown
        intro payload hmem
        obtain rfl | hmem := List.mem_cons.1 hmem
        · exact .refl _
        · obtain ⟨id, -, rfl⟩ := List.mem_map.1 hmem
          exact .refl _
      · exact of_eq (.refl _) (.refl _)
    · split <;> exact of_eq (.refl _) (.refl _)

theorem finalize (s : RelayState) (sample : WriteSample) (error : Option ErrorEventData) :
    Mute s (s.finalize relay sample error).1 := by
  unfold RelayState.finalize
  by_cases hfull : s.fullTextBuffer ≠ ""
  · rw [if_pos hfull]
    refine (persistFinalText s _ _ _ _ _).trans (append _ ?_)
    intro payload hmem
    obtain ⟨response, -, rfl⟩ := List.mem_map.1 hmem
    exact .refl _
  · rw [if_neg hfull]
    cases error with
    | none => exact .rfl
    | some data => exact persistTip s _ _ _

end Mute

/-- The summary takes the event into account, and no error is shown. -/
structure Notes (event : AgentStreamEvent) (s s' : RelayState) : Prop where
  attempt : s'.attempt = s.attempt.note event
  shown : s'.shownErrors = s.shownErrors

namespace Notes

variable {relay : StreamRelay} {event : AgentStreamEvent} {s s' s'' : RelayState}

theorem after (event : AgentStreamEvent) (h : Mute s s') (h' : Notes event s' s'') :
    Notes event s s'' :=
  ⟨h'.attempt.trans (by rw [h.attempt]), h'.shown.trans h.shown⟩

theorem before (h : Notes event s s') (h' : Mute s' s'') : Notes event s s'' :=
  ⟨h'.attempt.trans h.attempt, h'.shown.trans h.shown⟩

theorem of_mute (h : Mute s s') (hvisible : event.countsVisible = false)
    (heffect : event.countsSideEffect = false) : Notes event s s' :=
  ⟨h.attempt.trans (s.attempt.note_of_not_counts hvisible heffect).symm, h.shown⟩

theorem noteVisible (s : RelayState) (content : String)
    (hvisible : event.countsVisible = decide (content ≠ ""))
    (heffect : event.countsSideEffect = false) : Notes event s (s.noteVisible content) := by
  refine ⟨?_, .refl _⟩
  rw [TurnAttemptSummary.note, hvisible, heffect, Bool.or_false]
  rfl

theorem noteSideEffect (s : RelayState) (hvisible : event.countsVisible = false)
    (heffect : event.countsSideEffect = true) : Notes event s s.noteSideEffect := by
  refine ⟨?_, .refl _⟩
  rw [TurnAttemptSummary.note, hvisible, heffect, Bool.or_false, Bool.or_true]
  rfl

theorem handleThinking (s : RelayState) (received : Received) (data : ThinkingEventData) :
    Notes (.thinking data) s (s.handleThinking relay received data) := by
  unfold RelayState.handleThinking
  by_cases hdone : data.status = some "done"
  · rw [if_pos hdone]
    exact of_mute (.completeActiveThinking s _) (by simp [AgentStreamEvent.countsVisible, hdone])
      (.refl _)
  · rw [if_neg hdone]
    have hvisible : AgentStreamEvent.countsVisible (.thinking data) = decide (data.content ≠ "") := by
      simp [AgentStreamEvent.countsVisible, hdone]
    have hnote := after _ (.closeActiveTextSegment s received.onText .finish)
      (noteVisible _ data.content hvisible (.refl _))
    have hopen := hnote.before (Mute.openThinking relay _)
    dsimp only
    generalize RelayState.openThinking relay _ = opened at hopen ⊢
    obtain ⟨segment, s'⟩ := opened
    let grown : RelayState :=
      { s' with activeThinking := some { segment with buffer := segment.buffer ++ data.content } }
    have hgrown : Mute s' grown := .of_eq (.refl _) (.refl _)
    exact hopen.before (hgrown.trans (.forward grown segment.id (.thinking data) (.refl _)))

theorem handleText (s : RelayState) (received : Received) (content : String) :
    Notes (.text content) s (s.handleText relay received content) := by
  have hnote := after (.text content) (.completeActiveThinking s received.onThinking)
    (noteVisible _ content (.refl _) (.refl _))
  have hopen := hnote.before (Mute.openText relay _)
  unfold RelayState.handleText
  dsimp only
  generalize RelayState.openText relay _ = opened at hopen ⊢
  obtain ⟨segment, s'⟩ := opened
  refine (hopen.before (.forward s' segment.id (.text content) (.refl _))).before ?_
  split
  · let grown : RelayState :=
      { s'.forward segment.id (.text content) with
        fullTextBuffer := s'.fullTextBuffer ++ content }
    have hgrown : Mute (s'.forward segment.id (.text content)) grown :=
      .of_eq (.refl _) (.refl _)
    have hflush := Mute.flushTextSegment grown received.onText
      { segment with
        buffer := segment.buffer ++ content
        flushCounter := segment.flushCounter + 1 }
    exact (hgrown.trans hflush).trans (.of_eq (.refl _) (.refl _))
  · exact .of_eq (.refl _) (.refl _)

theorem beforeTool (s : RelayState) (received : Received)
    (hvisible : event.countsVisible = false) (heffect : event.countsSideEffect = true)
    (herror : ∀ msgId, StreamPayload.isError (.event msgId event) = false) :
    Notes event s (s.beforeTool relay received event) :=
  (((noteSideEffect s hvisible heffect).before (.completeActiveThinking _ _)).before
    (.closeActiveTextSegment _ _ _)).before (.forward _ _ _ (herror _))

theorem handleTips (s : RelayState) (received : Received) (data : TipsEventData) :
    Notes (.tips data) s (s.handleTips relay received data) := by
  unfold RelayState.handleTips
  by_cases hkept : data.tipType ≠ .error
  · simp only [hkept, ne_eq, not_false_eq_true, if_true]
    have hnote : Notes (.tips data) s
        { s with attempt := { s.attempt with sawVisibleOutput := true } } := by
      refine ⟨?_, .refl _⟩
      simp [TurnAttemptSummary.note, AgentStreamEvent.countsVisible,
        AgentStreamEvent.countsSideEffect, hkept]
    exact (hnote.before (.forward _ _ _ (.refl _))).before (.persistTip _ _ _ _)
  · simp only [hkept, if_false]
    exact of_mute (.forward _ _ _ (.refl _)) (by simpa [AgentStreamEvent.countsVisible] using hkept)
      (.refl _)

/-- The summary is a fold over the events that do not end the stream. -/
theorem handle (relay : StreamRelay) (s : RelayState) (received : Received)
    (hevent : event.isTerminal = false) :
    (s.handle relay received event).2 = none ∧ Notes event s (s.handle relay received event).1 := by
  refine ⟨?_, ?_⟩
  · cases event <;> first | rfl | cases hevent
  · cases event with
    | thinking data => exact handleThinking s received data
    | text content => exact handleText s received content
    | toolCall data =>
      exact (beforeTool s received (.refl _) (.refl _) fun _ => .refl _).before
        (.persistToolCall _ _ _)
    | acpToolCall data =>
      exact (beforeTool s received (.refl _) (.refl _) fun _ => .refl _).before
        (.persistAcpToolCall _ _ _)
    | toolGroup entries json =>
      exact (beforeTool s received (.refl _) (.refl _) fun _ => .refl _).before
        (.persistToolGroup _ _ _ _)
    | tips data => exact handleTips s received data
    | finish => cases hevent
    | error data => cases hevent
    | cronTrigger | permission | acpPermission =>
      exact (noteSideEffect s (.refl _) (.refl _)).before (.forward _ _ _ (.refl _))
    | _ => exact of_mute (.forward _ _ _ (.refl _)) (.refl _) (.refl _)

end Notes

/-- The relay has nothing to write and has written nothing. -/
structure Silent (s : RelayState) : Prop where
  rows : s.rows = []
  full : s.fullTextBuffer = ""
  text : ∀ segment, s.activeText = some segment → segment.buffer = ""
  thinking : ∀ segment, s.activeThinking = some segment → segment.buffer = ""

namespace Silent

variable {relay : StreamRelay} {s : RelayState}

section

variable (h : Silent s)
include h

theorem forward (msgId : String) (event : AgentStreamEvent) :
    Silent (s.forward msgId event) := ⟨h.rows, h.full, h.text, h.thinking⟩

theorem completeActiveThinking (sample : WriteSample) :
    Silent (s.completeActiveThinking sample) := by
  cases hseg : s.activeThinking with
  | none =>
    simp only [RelayState.completeActiveThinking, hseg]
    exact h
  | some segment =>
    have hbuffer := h.thinking segment hseg
    simp only [RelayState.completeActiveThinking, hseg, RelayState.persistThinkingSegment, hbuffer,
      if_true]
    exact ⟨h.rows, h.full, h.text, fun _ hs => (by cases hs)⟩

theorem closeActiveTextSegment (sample : WriteSample) (status : MessageStatus) :
    Silent (s.closeActiveTextSegment sample status) := by
  cases hseg : s.activeText with
  | none =>
    simp only [RelayState.closeActiveTextSegment, hseg]
    exact h
  | some segment =>
    have hbuffer := h.text segment hseg
    have hclose : s.closeActiveTextSegment sample status = { s with activeText := none } := by
      simp [RelayState.closeActiveTextSegment, hseg, RelayState.finalizeTextSegment, hbuffer]
    rw [hclose]
    exact ⟨h.rows, h.full, fun _ hs => (by cases hs), h.thinking⟩

theorem mintSegmentMsgId (relay : StreamRelay) :
    Silent (s.mintSegmentMsgId relay).2 := by
  unfold RelayState.mintSegmentMsgId
  split <;> exact ⟨h.rows, h.full, h.text, h.thinking⟩

theorem openThinking (relay : StreamRelay) :
    Silent (s.openThinking relay).2 ∧ (s.openThinking relay).1.buffer = "" := by
  cases hseg : s.activeThinking with
  | none =>
    have hmint := h.mintSegmentMsgId relay
    simp only [RelayState.openThinking, hseg]
    refine ⟨⟨hmint.rows, hmint.full, hmint.text, ?_⟩, trivial⟩
    intro segment hs
    cases hs
    rfl
  | some segment =>
    simp only [RelayState.openThinking, hseg]
    exact ⟨h, h.thinking segment hseg⟩

theorem openText (relay : StreamRelay) :
    Silent (s.openText relay).2 ∧ (s.openText relay).1.buffer = "" := by
  cases hseg : s.activeText with
  | none =>
    have hmint := h.mintSegmentMsgId relay
    simp only [RelayState.openText, hseg]
    refine ⟨⟨hmint.rows, hmint.full, ?_, hmint.thinking⟩, trivial⟩
    intro segment hs
    cases hs
    rfl
  | some segment =>
    simp only [RelayState.openText, hseg]
    exact ⟨h, h.text segment hseg⟩

theorem handleThinking (received : Received) {data : ThinkingEventData}
    (hcount : AgentStreamEvent.countsVisible (.thinking data) = false) :
    Silent (s.handleThinking relay received data) := by
  unfold RelayState.handleThinking
  by_cases hdone : data.status = some "done"
  · rw [if_pos hdone]
    exact h.completeActiveThinking _
  · have hcontent : data.content = "" := by
      simpa [AgentStreamEvent.countsVisible, hdone] using hcount
    have hclose := h.closeActiveTextSegment received.onText .finish
    have hnote : Silent
        ((s.closeActiveTextSegment received.onText .finish).noteVisible data.content) :=
      ⟨hclose.rows, hclose.full, hclose.text, hclose.thinking⟩
    obtain ⟨hopen, hbuffer⟩ := hnote.openThinking relay
    rw [if_neg hdone]
    dsimp only
    generalize RelayState.openThinking relay _ = opened at hopen hbuffer ⊢
    obtain ⟨segment, s'⟩ := opened
    let grown : RelayState :=
      { s' with activeThinking := some { segment with buffer := segment.buffer ++ data.content } }
    have hgrown : Silent grown := by
      refine ⟨hopen.rows, hopen.full, hopen.text, ?_⟩
      intro segment' hs
      cases hs
      rw [show segment.buffer = "" from hbuffer, hcontent]
      rfl
    exact hgrown.forward segment.id (.thinking data)

theorem handleText (received : Received) :
    Silent (s.handleText relay received "") := by
  have hcomplete := h.completeActiveThinking received.onThinking
  have hnote : Silent ((s.completeActiveThinking received.onThinking).noteVisible "") :=
    ⟨hcomplete.rows, hcomplete.full, hcomplete.text, hcomplete.thinking⟩
  obtain ⟨hopen, hbuffer⟩ := hnote.openText relay
  unfold RelayState.handleText
  dsimp only
  generalize RelayState.openText relay _ = opened at hopen hbuffer ⊢
  obtain ⟨segment, s'⟩ := opened
  have hforward := hopen.forward segment.id (.text "")
  have hfull : s'.fullTextBuffer ++ "" = "" := by
    rw [hopen.full]
    rfl
  have hgrown : segment.buffer ++ "" = "" := by
    rw [hbuffer]
    rfl
  have htext : ∀ (counter : ℕ) (created : Bool) (segment' : TextSegmentState),
      some (⟨segment.id, segment.buffer ++ "", created, counter⟩ : TextSegmentState) =
        some segment' → segment'.buffer = "" := by
    intro counter created segment' hs
    cases hs
    exact hgrown
  split
  · have hflush : ∀ t : RelayState, t.flushTextSegment received.onText
        ⟨segment.id, segment.buffer ++ "", segment.recordCreated, segment.flushCounter + 1⟩ =
        (t, ⟨segment.id, segment.buffer ++ "", segment.recordCreated,
          segment.flushCounter + 1⟩) := by
      intro t
      simp [RelayState.flushTextSegment, show segment.buffer = "" from hbuffer]
    rw [hflush]
    exact ⟨hforward.rows, hfull, htext _ _, hforward.thinking⟩
  · exact ⟨hforward.rows, hfull, htext _ _, hforward.thinking⟩

/-- An event that does not count writes nothing. -/
theorem handle (received : Received) {event : AgentStreamEvent}
    (hevent : event.isTerminal = false) (hvisible : event.countsVisible = false)
    (heffect : event.countsSideEffect = false) : Silent (s.handle relay received event).1 := by
  cases event with
  | thinking data => exact h.handleThinking received hvisible
  | text content =>
    obtain rfl : content = "" := by simpa [AgentStreamEvent.countsVisible] using hvisible
    exact h.handleText received
  | tips data =>
    have htip : ¬data.tipType ≠ .error := by
      simpa [AgentStreamEvent.countsVisible] using hvisible
    show Silent (s.handleTips relay received data)
    simp only [RelayState.handleTips, htip, if_false]
    exact h.forward _ _
  | finish | error => cases hevent
  | toolCall | acpToolCall | toolGroup | cronTrigger | permission | acpPermission => cases heffect
  | _ => exact h.forward _ _

end

end Silent

theorem completeActiveThinking_fullTextBuffer (s : RelayState) (sample : WriteSample) :
    (s.completeActiveThinking sample).fullTextBuffer = s.fullTextBuffer := by
  unfold RelayState.completeActiveThinking
  split
  · rfl
  · simp only [RelayState.persistThinkingSegment]
    repeat' split
    all_goals rfl

theorem closeActiveTextSegment_fullTextBuffer (s : RelayState) (sample : WriteSample)
    (status : MessageStatus) :
    (s.closeActiveTextSegment sample status).fullTextBuffer = s.fullTextBuffer := by
  unfold RelayState.closeActiveTextSegment
  split
  · rfl
  · simp only [RelayState.finalizeTextSegment]
    repeat' split
    all_goals rfl

theorem finalize_systemResponses {relay : StreamRelay} {s : RelayState} {sample : WriteSample}
    {error : Option ErrorEventData} (h : (s.finalize relay sample error).2 ≠ []) :
    s.fullTextBuffer ≠ "" := by
  intro hfull
  apply h
  unfold RelayState.finalize
  rw [if_neg (by simp [hfull])]
  cases error <;> rfl

def errorsOf : Option AgentStreamEvent → ℕ
  | some (.error _) => 1
  | _ => 0

/-- What a stream ends in that is not deferred. -/
structure Terminates (s s' : RelayState) (outcome : RelayOutcome) (terminal : RelayTerminal)
    (event : Option AgentStreamEvent) (error : Option ErrorEventData) : Prop where
  terminal : outcome.terminal = terminal
  attempt : outcome.attempt = { s.attempt with
    persistedAssistantOutput := s.attempt.persistedAssistantOutput || s.fullTextBuffer ≠ ""
    terminalError := error <|> s.attempt.terminalError }
  responses : outcome.systemResponses ≠ [] → s.fullTextBuffer ≠ ""
  shown : s'.shownErrors = s.shownErrors + errorsOf event

theorem conclude_spec {relay : StreamRelay} {s closed : RelayState} (received : Received)
    (terminal : RelayTerminal) (event : Option AgentStreamEvent) (error : Option ErrorEventData)
    (hmute : Mute s closed) (hfull : closed.fullTextBuffer = s.fullTextBuffer) :
    ∃ s' outcome, closed.conclude relay received terminal event error = (s', some outcome) ∧
      Terminates s s' outcome terminal event error := by
  have hforwarded : (closed.forwardTerminal relay event).attempt = s.attempt ∧
      (closed.forwardTerminal relay event).fullTextBuffer = s.fullTextBuffer ∧
      (closed.forwardTerminal relay event).shownErrors = s.shownErrors + errorsOf event := by
    cases event with
    | none => exact ⟨hmute.attempt, hfull, hmute.shown⟩
    | some event =>
      refine ⟨hmute.attempt, hfull, ?_⟩
      rw [← hmute.shown]
      show (closed.sent ++ [StreamPayload.event relay.msgId event]).countP (·.isError) = _
      rw [List.countP_append, RelayState.shownErrors]
      cases event <;> rfl
  refine ⟨_, _, rfl, ?_⟩
  generalize closed.forwardTerminal relay event = forwarded at hforwarded ⊢
  obtain ⟨hattempt, hbuffer, hshown⟩ := hforwarded
  refine ⟨rfl, ?_, ?_, ?_⟩
  · simp only [hattempt, hbuffer]
  · intro hresponses
    rw [← hbuffer]
    by_cases hdeleting : received.deleting = true
    · simp only [hdeleting, if_true] at hresponses
      exact absurd rfl hresponses
    · simp only [hdeleting, Bool.false_eq_true, if_false] at hresponses
      exact finalize_systemResponses hresponses
  · rw [← hshown]
    by_cases hdeleting : received.deleting = true
    · simp only [hdeleting, if_true]
    · simp only [hdeleting, Bool.false_eq_true, if_false]
      exact (Mute.finalize forwarded _ _).shown

theorem terminate_spec (relay : StreamRelay) (s : RelayState) (received : Received)
    (terminal : RelayTerminal) (event : Option AgentStreamEvent) (error : Option ErrorEventData) :
    ∃ s' outcome, s.terminate relay received terminal event error = (s', some outcome) ∧
      Terminates s s' outcome terminal event error := by
  apply conclude_spec
  · exact .ite .rfl ((Mute.completeActiveThinking _ _).trans (.closeActiveTextSegment _ _ _))
  · unfold RelayState.closeSegments
    split
    · rfl
    · rw [closeActiveTextSegment_fullTextBuffer, completeActiveThinking_fullTextBuffer]

/-- The stream so far: no error is shown, and while a replay is safe nothing is written and what
the summary notes has left nothing. -/
structure Accounts (stream : List Received) (s : RelayState) : Prop where
  shown : s.shownErrors = 0
  notDeferred : s.attempt.terminalErrorDeferred = false
  silent : s.attempt.safeToAutoReplay = true → Silent s
  noted : s.attempt.safeToAutoReplay = true →
    ∀ received ∈ stream, received.noted = true → received.leavesTrace = false

/-- What the outcome of a send says about its stream. -/
structure Reports (relay : StreamRelay) (stream : List Received) (s : RelayState)
    (outcome : RelayOutcome) : Prop where
  noted : outcome.attempt.safeToAutoReplay = true →
    ∀ received ∈ stream, received.noted = true → received.leavesTrace = false
  deferred : outcome.attempt.terminalErrorDeferred = true ↔
    relay.deferCleanTerminalErrors = true ∧ outcome.terminal.isError = true ∧
      outcome.terminal.retryable = some true ∧
      outcome.terminal.code ≠ some .userLlmProviderModelNotFound ∧
      outcome.attempt.safeToAutoReplay = true
  silent : outcome.attempt.terminalErrorDeferred = true →
    s.rows = [] ∧ outcome.attempt.terminalError.isSome = true
  shown : s.shownErrors =
    if outcome.terminal.isError && !outcome.attempt.terminalErrorDeferred then 1 else 0
  responses : outcome.systemResponses ≠ [] → outcome.attempt.safeToAutoReplay = false

theorem Reports.shownErrors_eq_zero_iff {relay : StreamRelay} {stream : List Received}
    {s : RelayState} {outcome : RelayOutcome} (h : Reports relay stream s outcome)
    (herror : outcome.terminal.isError = true) :
    s.shownErrors = 0 ↔ outcome.attempt.terminalErrorDeferred = true := by
  rw [h.shown, herror, Bool.true_and]
  cases outcome.attempt.terminalErrorDeferred <;> decide

namespace Accounts

variable {relay : StreamRelay} {stream : List Received} {s : RelayState}

theorem start (n : ℕ) : Accounts [] (.start n) :=
  ⟨rfl, rfl, fun _ => ⟨rfl, rfl, fun _ hs => (by cases hs), fun _ hs => (by cases hs)⟩,
    fun _ received hmem => absurd hmem List.not_mem_nil⟩

variable {received : Received}

section

variable (h : Accounts stream s)
include h

theorem noted_append (hsafe : s.attempt.safeToAutoReplay = true)
    (hreceived : received.noted = true → received.leavesTrace = false) :
    ∀ r ∈ stream ++ [received], r.noted = true → r.leavesTrace = false := by
  intro r hmem
  obtain hmem | hmem := List.mem_append.1 hmem
  · exact h.noted hsafe r hmem
  · rw [List.mem_singleton.1 hmem]
    exact hreceived

/-- A signal that does not end the relay. -/
theorem step (hnone : (relay.step s received).2 = none) :
    Accounts (stream ++ [received]) (relay.step s received).1 := by
  cases hsignal : received.signal with
  | closed =>
    obtain ⟨s', outcome, hterminate, -⟩ :=
      terminate_spec relay s received .channelClosed none none
    rw [StreamRelay.step, hsignal] at hnone
    simp only [hterminate] at hnone
    cases hnone
  | lagged lost =>
    have hstep : (relay.step s received).1 = s := by rw [StreamRelay.step, hsignal]
    rw [hstep]
    refine ⟨h.shown, h.notDeferred, h.silent, fun hsafe => h.noted_append hsafe fun hnoted => ?_⟩
    simpa [Received.noted, Received.leavesTrace, RelaySignal.emitted, hsignal] using hnoted
  | event event =>
    by_cases hskip : (received.deleting && !event.isTerminal) = true
    · have hstep : (relay.step s received).1 = s := by
        rw [StreamRelay.step, hsignal]
        simp only [hskip, if_true]
      rw [hstep]
      refine ⟨h.shown, h.notDeferred, h.silent, fun hsafe => h.noted_append hsafe fun hnoted => ?_⟩
      obtain ⟨hdeleting, -⟩ := (Bool.and_eq_true _ _).mp hskip
      simpa [Received.noted, Received.leavesTrace, RelaySignal.emitted, hsignal, hdeleting]
        using hnoted
    · have hstep : relay.step s received = s.handle relay received event := by
        rw [StreamRelay.step, hsignal]
        simp only [hskip, Bool.false_eq_true, if_false]
      rw [hstep] at hnone ⊢
      have hevent : event.isTerminal = false := by
        cases event with
        | finish =>
          obtain ⟨s', outcome, hterminate, -⟩ :=
            terminate_spec relay s received .finish (some .finish) none
          rw [RelayState.handle, hterminate] at hnone
          cases hnone
        | error data =>
          rw [RelayState.handle, RelayState.handleError] at hnone
          obtain ⟨s', outcome, hterminate, -⟩ := terminate_spec relay s received
            (.error data.code data.retryable) (some (.error data)) (some data)
          split at hnone
          · cases hnone
          · rw [hterminate] at hnone
            cases hnone
        | _ => rfl
      obtain ⟨-, hattempt, hshown⟩ := Notes.handle relay s received hevent
      refine ⟨hshown.trans h.shown, ?_, fun hsafe => ?_, fun hsafe => ?_⟩
      · rw [hattempt]
        exact h.notDeferred
      · rw [hattempt, TurnAttemptSummary.safeToAutoReplay_note] at hsafe
        exact (h.silent hsafe.1).handle received hevent hsafe.2.1 hsafe.2.2
      · rw [hattempt, TurnAttemptSummary.safeToAutoReplay_note] at hsafe
        refine h.noted_append hsafe.1 fun hnoted => ?_
        simpa [Received.noted, Received.leavesTrace, RelaySignal.emitted, hsignal, hsafe.2.1,
          hsafe.2.2] using hnoted

theorem run {front : List Received} (hnone : (relay.consume front s).2 = none) :
    Accounts (stream ++ front) (relay.consume front s).1 ∧
      ∀ tail, relay.consume (front ++ tail) s = relay.consume tail (relay.consume front s).1 := by
  induction front generalizing stream s with
  | nil =>
    rw [List.append_nil]
    exact ⟨h, fun _ => rfl⟩
  | cons received front ih =>
    obtain ⟨s', hstep⟩ : ∃ s', relay.step s received = (s', none) := by
      cases hresult : relay.step s received with
      | mk s' outcome =>
        cases outcome with
        | none => exact ⟨s', rfl⟩
        | some outcome =>
          rw [StreamRelay.consume, hresult] at hnone
          cases hnone
    have hs' : Accounts (stream ++ [received]) s' := by
      have hnone' : (relay.step s received).2 = none := by rw [hstep]
      have hnext := h.step hnone'
      rwa [hstep] at hnext
    have hconsume : ∀ tail, relay.consume (received :: tail) s = relay.consume tail s' := by
      intro tail
      rw [StreamRelay.consume, hstep]
    rw [hconsume] at hnone ⊢
    obtain ⟨haccounts, hrun⟩ := ih hs' hnone
    rw [List.append_assoc] at haccounts
    refine ⟨haccounts, fun tail => ?_⟩
    rw [List.cons_append, hconsume]
    exact hrun tail

variable {outcome : RelayOutcome}

/-- An end of the stream that is not deferred. -/
theorem terminated {s' : RelayState} {terminal : RelayTerminal} {event : Option AgentStreamEvent}
    {error : Option ErrorEventData} (hs' : Terminates s s' outcome terminal event error)
    (htrace : received.leavesTrace = false)
    (herrors : errorsOf event = if terminal.isError then 1 else 0)
    (hdefers : ¬(relay.deferCleanTerminalErrors = true ∧ terminal.isError = true ∧
      terminal.retryable = some true ∧ terminal.code ≠ some .userLlmProviderModelNotFound ∧
      s.attempt.safeToAutoReplay = true)) :
    Reports relay (stream ++ [received]) s' outcome := by
  have hsafe : outcome.attempt.safeToAutoReplay = true →
      s.attempt.safeToAutoReplay = true ∧ s.fullTextBuffer = "" := by
    intro hsafe
    rw [hs'.attempt] at hsafe
    simp only [TurnAttemptSummary.safeToAutoReplay, Bool.and_eq_true, Bool.not_eq_true',
      Bool.or_eq_false_iff, decide_eq_false_iff_not, not_not] at hsafe ⊢
    exact ⟨⟨hsafe.1, hsafe.2.1⟩, hsafe.2.2⟩
  have hnot : outcome.attempt.terminalErrorDeferred = false := by
    rw [hs'.attempt]
    exact h.notDeferred
  refine ⟨fun hs => h.noted_append (hsafe hs).1 fun _ => htrace, ?_, ?_, ?_, ?_⟩
  · rw [hnot, hs'.terminal]
    refine ⟨fun hfalse => (by cases hfalse), fun hall => absurd ?_ hdefers⟩
    exact ⟨hall.1, hall.2.1, hall.2.2.1, hall.2.2.2.1, (hsafe hall.2.2.2.2).1⟩
  · rw [hnot]
    intro hfalse
    cases hfalse
  · rw [hs'.shown, h.shown, hs'.terminal, hnot, herrors, Nat.zero_add]
    cases terminal.isError <;> rfl
  · intro hresponses
    rw [Bool.eq_false_iff]
    intro hs
    exact hs'.responses hresponses (hsafe hs).2

/-- The signal that ends the relay. -/
theorem last {s' : RelayState} (hstep : relay.step s received = (s', some outcome)) :
    Reports relay (stream ++ [received]) s' outcome := by
  cases hsignal : received.signal with
  | lagged lost =>
    rw [StreamRelay.step, hsignal] at hstep
    cases hstep
  | closed =>
    obtain ⟨s'', outcome', hterminate, hspec⟩ :=
      terminate_spec relay s received .channelClosed none none
    rw [StreamRelay.step, hsignal] at hstep
    simp only [hterminate] at hstep
    cases hstep
    apply h.terminated hspec
    · simp [Received.leavesTrace, RelaySignal.emitted, hsignal]
    · rfl
    · rintro ⟨-, herror, -⟩
      cases herror
  | event event =>
    have htrace : event.leavesTrace = false → received.leavesTrace = false := by
      intro hevent
      simp [Received.leavesTrace, RelaySignal.emitted, hsignal, hevent]
    rw [StreamRelay.step, hsignal] at hstep
    dsimp only at hstep
    split at hstep
    · cases hstep
    · have hgoesOn : event.isTerminal ≠ false := by
        intro hevent
        obtain ⟨hnone, -⟩ := Notes.handle relay s received hevent
        rw [hstep] at hnone
        cases hnone
      cases event with
      | finish =>
        obtain ⟨s'', outcome', hterminate, hspec⟩ :=
          terminate_spec relay s received .finish (some .finish) none
        rw [RelayState.handle, hterminate] at hstep
        cases hstep
        apply h.terminated hspec (htrace rfl) rfl
        rintro ⟨-, herror, -⟩
        cases herror
      | error data =>
        rw [RelayState.handle, RelayState.handleError] at hstep
        by_cases hdefers : s.defers relay data = true
        · rw [if_pos hdefers] at hstep
          simp only [RelayState.defers, Bool.and_eq_true, decide_eq_true_eq] at hdefers
          obtain ⟨⟨⟨hflag, hretryable⟩, hcode⟩, hsafe⟩ := hdefers
          cases hstep
          have hsilent := h.silent hsafe
          refine ⟨fun _ => h.noted_append hsafe fun _ => htrace rfl, ?_, ?_, ?_, ?_⟩
          · exact ⟨fun _ => ⟨hflag, rfl, hretryable, hcode, hsafe⟩, fun _ => rfl⟩
          · exact fun _ => ⟨hsilent.rows, rfl⟩
          · exact h.shown
          · exact fun hresponses => absurd rfl hresponses
        · rw [if_neg hdefers] at hstep
          obtain ⟨s'', outcome', hterminate, hspec⟩ := terminate_spec relay s received
            (.error data.code data.retryable) (some (.error data)) (some data)
          rw [hterminate] at hstep
          cases hstep
          apply h.terminated hspec (htrace rfl) rfl
          rintro ⟨hflag, -, hretryable, hcode, hsafe⟩
          apply hdefers
          simp only [RelayState.defers, Bool.and_eq_true, decide_eq_true_eq]
          exact ⟨⟨⟨hflag, hretryable⟩, hcode⟩, hsafe⟩
      | _ => exact absurd rfl hgoesOn

end

end Accounts

/-- The stream of a send up to the signal that ends the relay. -/
def StreamRelay.Ends (relay : StreamRelay) (stream : List Received) (n : ℕ) : Prop :=
  (relay.consume stream.dropLast (.start n)).2 = none

instance (relay : StreamRelay) (stream : List Received) (n : ℕ) :
    Decidable (relay.Ends stream n) :=
  inferInstanceAs (Decidable (_ = none))

/-- A send is reported for what it was. -/
theorem reports_of_consume {relay : StreamRelay} {stream : List Received} {n : ℕ}
    {s : RelayState} {outcome : RelayOutcome} (hends : relay.Ends stream n)
    (hconsume : relay.consume stream (.start n) = (s, some outcome)) :
    Reports relay stream s outcome := by
  have hne : stream ≠ [] := by
    rintro rfl
    cases hconsume
  obtain ⟨haccounts, hrun⟩ := (Accounts.start n).run hends
  have hsplit := List.dropLast_append_getLast hne
  rw [← hsplit, hrun, StreamRelay.consume] at hconsume
  rw [List.nil_append] at haccounts
  rw [← hsplit]
  apply haccounts.last
  generalize relay.step _ _ = result at hconsume ⊢
  obtain ⟨s', outcome'⟩ := result
  cases outcome' with
  | none => cases hconsume
  | some outcome' => exact hconsume

end AionCore.Conversation
