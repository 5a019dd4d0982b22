import AionCore.Channel.Formatter

/-!
# Channels: replies as they stream

`ChannelStreamRelay` of `stream_relay.rs`, which brings the events of an agent to the chat. On WeChat
and WeCom the text is collected and sent in parts; on the other platforms a placeholder is sent at
once and edited from then on. Every send and every edit that follows succeeds; a stream of events
that ends without a terminal event is one whose channel was closed.
-/

namespace AionCore.Channel.StreamRelay

open AionCore.Conversation (ToolCallStatus trim)

/-- The events of an agent, with what `process_stream_event` reads of them. -/
inductive AgentStreamEvent where
  | start
  | text (content : String)
  | tips
  | toolCall (name : String) (status : ToolCallStatus)
  | acpToolCall
  | toolGroup
  | agentStatus
  | thinking (content : String)
  | plan
  | permission
  | acpPermission
  | skillSuggest
  | cronTrigger
  | acpModelInfo
  | acpModeInfo
  | acpConfigOption
  | acpSessionInfo
  | acpContextUsage
  | acpPromptHookWarning
  | slashCommandsUpdated
  | availableCommands
  | finish
  | error (message : String)
  | system
  | requestTrace
  | sessionAssigned

inductive StreamAction where
  | appendText (chunk : String)
  | finish
  | error (message : String)
  | thinking (content : String)
  | toolCall (name status : String)

/-- The name of the variant, as `{:?}` writes it. -/
def debugStatus : ToolCallStatus → String
  | .running => "Running"
  | .completed => "Completed"
  | .error => "Error"

def processStreamEvent : AgentStreamEvent → Option StreamAction
  | .text content => some (.appendText content)
  | .finish => some .finish
  | .error message => some (.error message)
  | .thinking content => some (.thinking content)
  | .toolCall name status => some (.toolCall name (debugStatus status))
  | _ => none

inductive OutgoingMessageType where
  | text
  | image
  | file
  | buttons

structure ActionButton where
  label : String
  action : String

structure UnifiedOutgoingMessage where
  messageType : OutgoingMessageType
  text : Option String
  buttons : Option (List (List ActionButton))

def buildStreamingMessage (text : String) : UnifiedOutgoingMessage := ⟨.text, some text, none⟩

def buildThinkingMessage : UnifiedOutgoingMessage := ⟨.text, some "⏳ Thinking...", none⟩

def buildFinalMessage (text : String) : UnifiedOutgoingMessage :=
  ⟨.buttons, some text, some [[⟨"🔄 Regenerate", "chat.regenerate"⟩, ⟨"▶️ Continue", "chat.continue"⟩,
    ⟨"➕ New Session", "session.new"⟩]]⟩

def errorMessage (message : String) : UnifiedOutgoingMessage :=
  ⟨.text, some ("❌ " ++ message), none⟩

def toolMessage (name : String) : UnifiedOutgoingMessage :=
  buildStreamingMessage ("⏳ " ++ name ++ "...")

/-- What the receiver of the events gives, and whether the throttle has run out by then. -/
inductive Received where
  | event (event : AgentStreamEvent) (throttleElapsed : Bool)
  | lagged (missed : ℕ)

/-- A message that goes to the chat, on its own or in place of another, and the part of the reply
that it is made of. -/
inductive Post where
  | send (message : UnifiedOutgoingMessage) (part : Option String)
  | edit (messageId : String) (message : UnifiedOutgoingMessage) (part : Option String)

namespace Post

def message : Post → UnifiedOutgoingMessage
  | .send message _ => message
  | .edit _ message _ => message

def part : Post → Option String
  | .send _ part => part
  | .edit _ _ part => part

end Post

def isWeixinPlatform (platform : PluginType) : Bool :=
  platform = .weixin || platform = .wecom

section

variable (isWord : Char → Bool) (platform : PluginType)

def runWeixin (textBuffer : String) (hasContent : Bool) : List Received → List Post
  | [] =>
    if hasContent && trim textBuffer ≠ "" then
      [.send (buildFinalMessage (formatTextForPlatform isWord textBuffer platform)) (some textBuffer)]
    else []
  | .lagged _ :: rest => runWeixin textBuffer hasContent rest
  | .event event _ :: rest =>
    match processStreamEvent event with
    | some (.appendText chunk) => runWeixin (textBuffer ++ chunk) true rest
    | some (.thinking _) => runWeixin textBuffer hasContent rest
    | some (.toolCall _ _) =>
      if hasContent && trim textBuffer ≠ "" then
        .send (buildStreamingMessage (formatTextForPlatform isWord textBuffer platform))
          (some textBuffer) :: runWeixin "" false rest
      else runWeixin textBuffer hasContent rest
    | some .finish =>
      if hasContent && trim textBuffer ≠ "" then
        [.send (buildFinalMessage (formatTextForPlatform isWord textBuffer platform))
          (some textBuffer)]
      else []
    | some (.error message) => [.send (errorMessage message) none]
    | none => runWeixin textBuffer hasContent rest

def sendFinalEdit (textBuffer : String) (hasContent : Bool) (messageId : String) : List Post :=
  if hasContent then
    [.edit messageId (buildFinalMessage (formatTextForPlatform isWord textBuffer platform))
      (some textBuffer)]
  else []

/-- The loop of `run_editable`, once the placeholder was sent. -/
def editLoop (messageId : String) (textBuffer : String) (hasContent : Bool) :
    List Received → List Post
  | [] => sendFinalEdit isWord platform textBuffer hasContent messageId
  | .lagged _ :: rest => editLoop messageId textBuffer hasContent rest
  | .event event throttleElapsed :: rest =>
    match processStreamEvent event with
    | some (.appendText chunk) =>
      let buffer := textBuffer ++ chunk
      let edits := editLoop messageId buffer true rest
      if throttleElapsed then
        .edit messageId (buildStreamingMessage (formatTextForPlatform isWord buffer platform))
          (some buffer) :: edits
      else edits
    | some (.thinking _) => editLoop messageId textBuffer hasContent rest
    | some (.toolCall name _) =>
      .edit messageId (toolMessage name) none :: editLoop messageId textBuffer hasContent rest
    | some .finish => sendFinalEdit isWord platform textBuffer hasContent messageId
    | some (.error message) => [.edit messageId (errorMessage message) none]
    | none => editLoop messageId textBuffer hasContent rest

def runEditable (thinkingMsgId : Option String) (received : List Received) : List Post :=
  match thinkingMsgId with
  | some messageId =>
    .send buildThinkingMessage none :: editLoop isWord platform messageId "" false received
  | none => []

def run (thinkingMsgId : Option String) (received : List Received) : List Post :=
  if isWeixinPlatform platform then runWeixin isWord platform "" false received
  else runEditable isWord platform thinkingMsgId received

end

inductive Ending where
  | finish
  | error (message : String)
  | closed

def ending : List Received → Ending
  | [] => .closed
  | .event .finish _ :: _ => .finish
  | .event (.error message) _ :: _ => .error message
  | _ :: rest => ending rest

def chunks : List Received → List String
  | [] => []
  | .event .finish _ :: _ => []
  | .event (.error _) _ :: _ => []
  | .event (.text content) _ :: rest => content :: chunks rest
  | _ :: rest => chunks rest

def replyText (received : List Received) : String := String.join (chunks received)

def remainder (before : String) : List Received → String
  | [] => before
  | .event .finish _ :: _ => before
  | .event (.error _) _ :: _ => before
  | .event (.text content) _ :: rest => remainder (before ++ content) rest
  | .event (.toolCall _ _) _ :: rest => remainder (if trim before = "" then before else "") rest
  | _ :: rest => remainder before rest

def Ending.isError : Ending → Bool
  | .error _ => true
  | _ => false

section

variable (isWord : Char → Bool) (platform : PluginType) (posts : List Post)
  (received : List Received)

/-- The texts that were sent are the parts of the reply in order, each once; but for these there is
the notice of an error. -/
structure SentWhole : Prop where
  parts : String.join (posts.filterMap Post.part) = replyText received
  formatted : ∀ post ∈ posts, ∀ part, post.part = some part →
    post.message.text = some (formatTextForPlatform isWord part platform)
  notice : ∀ post ∈ posts, post.part = none →
    ∃ message, ending received = .error message ∧ post.message = errorMessage message

def IsWaiting (message : UnifiedOutgoingMessage) : Prop :=
  message = buildThinkingMessage ∨ ∃ name, message = toolMessage name

def ShownWhole : Prop :=
  ∃ messageId message part, posts.getLast? = some (.edit messageId message part) ∧
    ¬IsWaiting message ∧
    (∀ error, ending received = .error error → message = errorMessage error) ∧
    ((ending received).isError = false →
      message.text = some (formatTextForPlatform isWord (replyText received) platform))

def Delivered : Prop :=
  if isWeixinPlatform platform then SentWhole isWord platform posts received
  else ShownWhole isWord platform posts received

/-- On WeChat and WeCom, nothing is left at the end, or something that is not blank and the stream
does not end in an error; on the others, some text came, or an error. -/
def EndsWell : Prop :=
  if isWeixinPlatform platform then
    remainder "" received = "" ∨
      (trim (remainder "" received) ≠ "" ∧ (ending received).isError = false)
  else chunks received ≠ [] ∨ (ending received).isError = true

end

section

variable {isWord : Char → Bool} {platform : PluginType} {received : List Received}
  {buffer messageId : String} {hasContent : Bool}

def unsent (before : String) (received : List Received) : String :=
  if trim (remainder before received) = "" ∨ (ending received).isError = true then
    remainder before received
  else ""

section

variable (h : hasContent = false → buffer = "")
include h

theorem sends_iff :
    (hasContent && decide (trim buffer ≠ "")) = true ↔ trim buffer ≠ "" := by
  cases hasContent with
  | false =>
    obtain rfl := h rfl
    exact iff_of_false (by simp) fun hne => hne rfl
  | true => simp

theorem join_last (post : Post) (hpost : post.part = some buffer) :
    String.join ((if (hasContent && decide (trim buffer ≠ "")) = true then [post]
      else []).filterMap Post.part) ++ (if trim buffer = "" then buffer else "") = buffer := by
  by_cases hblank : trim buffer = ""
  · rw [if_neg (by rw [sends_iff h]; exact not_not.mpr hblank), if_pos hblank]
    simp
  · rw [if_pos ((sends_iff h).mpr hblank), if_neg hblank]
    simp [hpost]

/-- What is sent and what is not are the buffer and the text that is received. -/
theorem weixin_parts :
    String.join ((runWeixin isWord platform buffer hasContent received).filterMap Post.part) ++
      unsent buffer received = buffer ++ String.join (chunks received) := by
  induction received generalizing buffer hasContent with
  | nil =>
    rw [chunks, String.join_nil, String.append_empty, runWeixin]
    simpa [unsent, ending, remainder, Ending.isError] using join_last h (.send _ (some buffer)) rfl
  | cons r rest ih =>
    cases r with
    | lagged missed => exact ih h
    | event event due =>
      cases event with
      | text content =>
        rw [chunks, String.join_cons, ← String.append_assoc]
        exact ih fun htrue => by cases htrue
      | toolCall name status =>
        have hchunks : chunks (.event (.toolCall name status) due :: rest) = chunks rest := rfl
        rw [hchunks, runWeixin]
        dsimp only [processStreamEvent]
        by_cases hblank : trim buffer = ""
        · rw [if_neg (by rw [sends_iff h]; exact not_not.mpr hblank)]
          simpa [unsent, ending, remainder, hblank] using ih h
        · rw [if_pos ((sends_iff h).mpr hblank)]
          have hrest := @ih "" false fun _ => rfl
          rw [String.empty_append] at hrest
          rw [List.filterMap_cons]
          simpa [Post.part, String.append_assoc, unsent, ending, remainder, hblank] using hrest
      | finish =>
        rw [chunks, String.join_nil, String.append_empty, runWeixin]
        simpa [processStreamEvent, unsent, ending, remainder, Ending.isError] using
          join_last h (.send _ (some buffer)) rfl
      | error message =>
        rw [chunks, String.join_nil, String.append_empty, runWeixin]
        have hnone : [Post.send (errorMessage message) none].filterMap Post.part = [] := rfl
        simp [processStreamEvent, unsent, ending, remainder, Ending.isError, hnone]
      | _ => exact ih h

end

def Fits (isWord : Char → Bool) (platform : PluginType) (e : Ending) (post : Post) : Prop :=
  (∀ part, post.part = some part →
    post.message.text = some (formatTextForPlatform isWord part platform)) ∧
  (post.part = none → ∃ message, e = .error message ∧ post.message = errorMessage message)

theorem fits_send {e : Ending} {text : String} {message : UnifiedOutgoingMessage}
    (h : message.text = some (formatTextForPlatform isWord text platform)) :
    Fits isWord platform e (.send message (some text)) :=
  ⟨fun _ hpart => Option.some.inj hpart ▸ h, fun hpart => by cases hpart⟩

theorem fits_last {e : Ending} {post : Post} :
    post ∈ (if (hasContent && decide (trim buffer ≠ "")) = true then
      [.send (buildFinalMessage (formatTextForPlatform isWord buffer platform)) (some buffer)]
      else []) → Fits isWord platform e post := by
  intro hpost
  split at hpost
  · obtain rfl := List.mem_singleton.mp hpost
    exact fits_send rfl
  · cases hpost

theorem weixin_fits : ∀ post ∈ runWeixin isWord platform buffer hasContent received,
    Fits isWord platform (ending received) post := by
  induction received generalizing buffer hasContent with
  | nil => exact fun post hpost => fits_last hpost
  | cons r rest ih =>
    cases r with
    | lagged missed => exact ih
    | event event due =>
      cases event with
      | toolCall name status =>
        intro post hpost
        rw [runWeixin] at hpost
        dsimp only [processStreamEvent] at hpost
        split at hpost
        · rcases List.mem_cons.mp hpost with rfl | hpost
          · exact fits_send rfl
          · exact ih post hpost
        · exact ih post hpost
      | finish => exact fun post hpost => fits_last hpost
      | error message =>
        intro post hpost
        obtain rfl := List.mem_singleton.mp hpost
        exact ⟨fun _ hpart => (by cases hpart), fun _ => ⟨message, rfl, rfl⟩⟩
      | _ => exact ih

theorem sentWhole_iff :
    SentWhole isWord platform (runWeixin isWord platform "" false received) received ↔
      remainder "" received = "" ∨
        (trim (remainder "" received) ≠ "" ∧ (ending received).isError = false) := by
  have hparts := @weixin_parts isWord platform received "" false fun _ => rfl
  have hfits := @weixin_fits isWord platform received "" false
  rw [String.empty_append] at hparts
  have hunsent : unsent "" received = "" ↔ remainder "" received = "" ∨
      (trim (remainder "" received) ≠ "" ∧ (ending received).isError = false) := by
    unfold unsent
    split
    · next hlost =>
      refine (or_iff_left fun hsent => ?_).symm
      rcases hlost with hblank | herror
      · exact hsent.1 hblank
      · rw [hsent.2] at herror
        cases herror
    · next hsent =>
      rw [not_or, Bool.not_eq_true] at hsent
      exact iff_of_true rfl (.inr hsent)
  rw [← hunsent]
  constructor
  · intro h
    rw [h.parts, replyText] at hparts
    exact String.append_eq_left_iff.mp hparts
  · intro hnone
    rw [hnone, String.append_empty] at hparts
    exact ⟨hparts, fun post hpost => (hfits post hpost).1, fun post hpost => (hfits post hpost).2⟩

theorem not_isWaiting_final {text : String} : ¬IsWaiting (buildFinalMessage text) := by
  rintro (h | ⟨name, h⟩)
  · cases congrArg UnifiedOutgoingMessage.messageType h
  · cases congrArg UnifiedOutgoingMessage.messageType h

theorem not_isWaiting_error {message : String} : ¬IsWaiting (errorMessage message) := by
  have hfirst : ∀ text : String, ("❌ " ++ message).toList ≠ '⏳' :: text.toList := by
    intro text h
    rw [String.toList_append] at h
    exact absurd (List.cons.inj h).1 (by decide)
  rintro (h | ⟨name, h⟩)
  · have htext := Option.some.inj (congrArg UnifiedOutgoingMessage.text h)
    exact hfirst " Thinking..." (congrArg String.toList htext)
  · have htext := Option.some.inj (congrArg UnifiedOutgoingMessage.text h)
    refine hfirst (" " ++ name ++ "...") ((congrArg String.toList htext).trans ?_)
    simp

theorem getLast?_cons_of_some {post last : Post} {posts : List Post}
    (h : posts.getLast? = some last) : (post :: posts).getLast? = some last := by
  rw [List.getLast?_cons, h, Option.getD_some]

theorem editLoop_error {error : String} (h : ending received = .error error) :
    (editLoop isWord platform messageId buffer hasContent received).getLast? =
      some (.edit messageId (errorMessage error) none) := by
  induction received generalizing buffer hasContent with
  | nil => cases h
  | cons r rest ih =>
    cases r with
    | lagged missed => exact ih h
    | event event due =>
      cases event with
      | text content =>
        rw [editLoop]
        dsimp only [processStreamEvent]
        split
        · exact getLast?_cons_of_some (ih h)
        · exact ih h
      | toolCall name status => exact getLast?_cons_of_some (ih h)
      | finish => cases h
      | error message =>
        obtain rfl := Ending.error.inj h
        rfl
      | _ => exact ih h

/-- The last edit is the whole text, if there is some. -/
theorem editLoop_final (h : (ending received).isError = false)
    (htext : hasContent = true ∨ chunks received ≠ []) :
    (editLoop isWord platform messageId buffer hasContent received).getLast? =
      some (.edit messageId (buildFinalMessage (formatTextForPlatform isWord
        (buffer ++ String.join (chunks received)) platform))
        (some (buffer ++ String.join (chunks received)))) := by
  induction received generalizing buffer hasContent with
  | nil =>
    obtain rfl : hasContent = true := htext.resolve_right fun hne => hne rfl
    simp [editLoop, sendFinalEdit, chunks]
  | cons r rest ih =>
    cases r with
    | lagged missed => exact ih h htext
    | event event due =>
      cases event with
      | text content =>
        rw [editLoop, chunks, String.join_cons, ← String.append_assoc]
        dsimp only [processStreamEvent]
        split
        · exact getLast?_cons_of_some (ih h (.inl rfl))
        · exact ih h (.inl rfl)
      | toolCall name status => exact getLast?_cons_of_some (ih h htext)
      | finish =>
        obtain rfl : hasContent = true := htext.resolve_right fun hne => hne rfl
        simp [editLoop, processStreamEvent, sendFinalEdit, chunks]
      | error message => cases h
      | _ => exact ih h htext

/-- Without any text there are lines of tools only. -/
theorem editLoop_waiting (h : (ending received).isError = false) (htext : chunks received = []) :
    ∀ post ∈ editLoop isWord platform messageId buffer false received,
      ∃ name, post.message = toolMessage name := by
  induction received with
  | nil => exact fun post hpost => by cases hpost
  | cons r rest ih =>
    cases r with
    | lagged missed => exact ih h htext
    | event event due =>
      cases event with
      | text content => cases htext
      | toolCall name status =>
        intro post hpost
        rcases List.mem_cons.mp hpost with rfl | hpost
        · exact ⟨name, rfl⟩
        · exact ih h htext post hpost
      | finish => exact fun post hpost => by cases hpost
      | error message => cases h
      | _ => exact ih h htext

theorem shownWhole_iff :
    ShownWhole isWord platform (runEditable isWord platform (some messageId) received) received ↔
      chunks received ≠ [] ∨ (ending received).isError = true := by
  constructor
  · rintro ⟨id, message, part, hlast, hwaiting, -, -⟩
    by_contra hnone
    rw [not_or, not_not, Bool.not_eq_true] at hnone
    rcases List.mem_cons.mp (List.mem_of_getLast? hlast) with hfirst | hedit
    · cases hfirst
    · exact hwaiting (.inr (editLoop_waiting hnone.2 hnone.1 _ hedit))
  · intro h
    cases hending : ending received with
    | error error =>
      refine ⟨messageId, errorMessage error, none, ?_, not_isWaiting_error, ?_, ?_⟩
      · exact getLast?_cons_of_some (editLoop_error hending)
      · rw [hending]
        exact fun error' heq => congrArg errorMessage (Ending.error.inj heq)
      · rw [hending]
        exact fun hfalse => by cases hfalse
    | _ =>
      have hno : (ending received).isError = false := by rw [hending]; rfl
      have htext : chunks received ≠ [] := h.resolve_right (by rw [hno]; exact Bool.false_ne_true)
      refine ⟨messageId, _, _, getLast?_cons_of_some (editLoop_final hno (.inr htext)),
        not_isWaiting_final, ?_, fun _ => ?_⟩
      · rw [hending]
        exact fun _ heq => by cases heq
      · rw [String.empty_append]
        rfl

/-- A reply is delivered whole exactly if it ends well. -/
theorem delivered_iff_endsWell (isWord : Char → Bool) (platform : PluginType) (messageId : String)
    (received : List Received) :
    Delivered isWord platform (run isWord platform (some messageId) received) received ↔
      EndsWell platform received := by
  unfold Delivered EndsWell run
  by_cases hplatform : isWeixinPlatform platform = true
  · rw [if_pos hplatform, if_pos hplatform, if_pos hplatform]
    exact sentWhole_iff
  · rw [if_neg hplatform, if_neg hplatform, if_neg hplatform]
    exact shownWhole_iff

/-- On WeChat an answer that is followed by an error is lost; on Telegram the placeholder stays when
the agent ends without a text. -/
theorem answer_lost_placeholder_left :
    ¬Delivered Char.isAlphanum .weixin (run Char.isAlphanum .weixin (some "msg-1")
      [.event (.text "Hello") true, .event (.error "timeout") true])
      [.event (.text "Hello") true, .event (.error "timeout") true] ∧
    ¬Delivered Char.isAlphanum .telegram (run Char.isAlphanum .telegram (some "msg-1")
      [.event (.toolCall "read_file" .running) true, .event .finish true])
      [.event (.toolCall "read_file" .running) true, .event .finish true] := by
  refine ⟨fun h => ?_, fun h => ?_⟩
  · have hparts := (show SentWhole _ _ _ _ from h).parts
    exact absurd hparts (by decide +kernel)
  · rcases (@shownWhole_iff _ _ _ "msg-1").mp h with hchunks | herror
    · exact hchunks rfl
    · cases herror

end

end AionCore.Channel.StreamRelay
