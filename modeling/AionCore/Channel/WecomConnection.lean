import AionCore.Lib.Dict
import AionCore.Lib.Machine
import AionCore.Lib.Tickets

/-!
# Channels: what a WeCom send is told

The loop of `connect_once` in `plugin.rs` of the WeCom plugin, with the callers of `send_message` and
`edit_message` before it. An iteration expires what is pending and then waits for one event.
-/

namespace AionCore.Channel

def responseAckTimeout : ℕ := 10000

def maxMessageChars : ℕ := 4096

def outboundCapacity : ℕ := 64

inductive OutgoingMessageType where
  | text
  | image
  | file
  | buttons
  deriving DecidableEq

/-- What the plugin reads of a message; `hasButtons` if it has buttons or a keyboard, and
`hasParseMode` if it has a parse mode. -/
structure OutgoingMessage where
  messageType : OutgoingMessageType
  text : Option String
  hasButtons : Bool
  imageUrl : Option String
  fileUrl : Option String
  hasParseMode : Bool
  deriving DecidableEq

inductive SendError where
  | stopping
  | stopped
  | body (text : String)
  | write (error : String)
  | rejected (errcode : ℤ)
  | timedOut
  deriving DecidableEq

def SendError.text : SendError → String
  | .stopping => "WeCom connection is stopping"
  | .stopped => "WeCom send task stopped"
  | .body text => text
  | .write error => "WeCom response send failed: " ++ error
  | .rejected errcode => "WeCom response rejected (errcode=" ++ toString errcode ++ ")"
  | .timedOut => "WeCom response confirmation timed out"

inductive SendOutcome where
  | ok (id : String)
  | error (e : SendError)
  deriving DecidableEq

/-- A request of a caller, by its number: a message, or the refresh of a stream. -/
structure Outbound where
  number : ℕ
  chatId : String
  reqId : String
  forceActive : Bool
  streamId : Option String
  message : OutgoingMessage
  deriving DecidableEq

structure PendingOutbound where
  number : ℕ
  sentAt : ℕ
  streamId : String

/-- What a frame carries: a part of the text, or the message as a whole. -/
inductive FrameBody where
  | markdown (content : String)
  | stream (id : String) (finish : Bool) (content : String)
  | whole (message : OutgoingMessage)
  deriving DecidableEq

/-- A frame written to the server, as the frame of this index of a request. -/
structure WireFrame where
  number : ℕ
  index : ℕ
  cmd : String
  reqId : String
  body : FrameBody
  deriving DecidableEq

/-- A frame from the server: an acknowledgement if it has an `errcode`, a callback if it brings a
message of a chat. For an acknowledgement, `acks` is the frame that the server acknowledges by it,
which it does not say. -/
structure IncomingFrame where
  reqId : String
  errcode : Option ℤ
  callback : Option String
  acks : Option (ℕ × ℕ)

/-- What a caller was told, and when; a request that was sent also when that was. -/
structure SendResult where
  number : ℕ
  outcome : SendOutcome
  sentAt : Option ℕ
  now : ℕ
  deriving DecidableEq

def nonEmpty (s : Option String) : Bool := s.any fun s => decide (s ≠ "")

/-- The error of `message_body`, if it has one. -/
def messageBody (message : OutgoingMessage) : Option SendError :=
  match message.messageType with
  | .image =>
    if nonEmpty message.imageUrl then none
    else some (.body "WeCom image message requires image_url as media_id")
  | .file =>
    if nonEmpty message.fileUrl then none
    else some (.body "WeCom file message requires file_url as media_id")
  | .buttons =>
    if message.hasButtons then none else some (.body "WeCom template card requires buttons")
  | .text => none

def splitText (text : String) (max : ℕ) : List String :=
  if text = "" then [" "]
  else
    (List.range ((text.toList.length + max - 1) / max)).map fun i =>
      String.ofList ((text.toList.drop (i * max)).take max)

/-- The frames of a request; without a request of the chat to respond to it is a push. -/
def outboundFrames (o : Outbound) (request : Option String) (streamId : String) :
    Except SendError (List (String × FrameBody)) :=
  if request.isNone then
    match messageBody o.message with
    | some e => .error e
    | none => .ok [("aibot_send_msg", .whole o.message)]
  else if o.streamId.isSome || decide (o.message.messageType = .text) ||
      decide (o.message.messageType = .buttons) then
    let chunks := splitText (o.message.text.getD "") maxMessageChars
    .ok (chunks.mapIdx fun index chunk => ("aibot_respond_msg",
      if o.message.hasParseMode then .markdown chunk
      else .stream streamId (decide (index + 1 = chunks.length)) chunk))
  else
    match messageBody o.message with
    | some e => .error e
    | none => .ok [("aibot_respond_msg", .whole o.message)]

/-- The loop is between two connections, at the top of an iteration, or waits for an event. -/
inductive LoopPhase where
  | disconnected
  | top
  | waiting
  deriving DecidableEq

/-- The callers that wait for room in the channel, the channel, which is open while the connection
task runs, the pending requests, and the last request of each chat; as history the number of
requests, the frames written and acknowledged, and what the callers were told. -/
structure WecomConnection where
  clock : ℕ
  requestMap : Dict String String
  callers : List Outbound
  queue : List Outbound
  running : Bool
  phase : LoopPhase
  authReqId : String
  authenticated : Bool
  pending : Dict String (List PendingOutbound)
  issued : ℕ
  wire : List WireFrame
  acked : List (ℕ × ℕ)
  results : List SendResult

/-- What happens to the connection. A write may fail after some of the frames. The ids that
`next_id` generates are given. -/
inductive WecomStep where
  | enqueueOutbound (chatId : String) (forceActive : Bool) (streamId : Option String)
      (message : OutgoingMessage) (nextId : String)
  | channelSend (o : Outbound)
  | connect (authReqId : String)
  | expirePending
  | ackTimer
  | outbound (nextId : String) (failure : Option (ℕ × String))
  | incoming (frame : IncomingFrame)
  | disconnect
  | stop
  | advance (now : ℕ)

namespace WecomConnection

def boot (clock : ℕ) : WecomConnection :=
  { clock := clock, requestMap := ∅, callers := [], queue := [], running := true
    phase := .disconnected, authReqId := "", authenticated := false, pending := ∅, issued := 0
    wire := [], acked := [], results := [] }

def latestRequest (w : WecomConnection) (chatId : String) : Option String :=
  w.requestMap.lookup chatId

def enqueueOutbound (w : WecomConnection) (chatId : String) (forceActive : Bool)
    (streamId : Option String) (message : OutgoingMessage) (nextId : String) : WecomConnection :=
  let reqId := if forceActive then nextId else (w.latestRequest chatId).getD nextId
  { w with
    callers := w.callers ++ [⟨w.issued, chatId, reqId, forceActive, streamId, message⟩]
    issued := w.issued + 1 }

def tellUnsent (w : WecomConnection) (requests : List Outbound) (e : SendError) :
    List SendResult :=
  requests.map fun o => ⟨o.number, .error e, none, w.clock⟩

def refuse (w : WecomConnection) (o : Outbound) (e : SendError) : WecomConnection :=
  { w with results := w.results ++ w.tellUnsent [o] e }

def channelSend (w : WecomConnection) (o : Outbound) : WecomConnection :=
  let w' := { w with callers := w.callers.erase o }
  if w.running then { w' with queue := w.queue ++ [o] } else w'.refuse o .stopping

def tell (w : WecomConnection) (requests : List PendingOutbound)
    (outcome : PendingOutbound → SendOutcome) : List SendResult :=
  requests.map fun p => ⟨p.number, outcome p, some p.sentAt, w.clock⟩

def waited (w : WecomConnection) (p : PendingOutbound) : Bool :=
  decide (p.sentAt + responseAckTimeout ≤ w.clock)

def expirePending (w : WecomConnection) : WecomConnection :=
  { w with
    pending := w.pending.retain fun _ requests => !requests.any w.waited
    results := w.results ++ w.tell (w.pending.values.filter fun requests =>
      requests.any w.waited).flatten fun _ => .error .timedOut }

def wireFrames (o : Outbound) (frames : List (String × FrameBody)) : List WireFrame :=
  frames.mapIdx fun index frame => ⟨o.number, index, frame.1, o.reqId, frame.2⟩

def group (w : WecomConnection) (reqId : String) : List PendingOutbound :=
  (w.pending.lookup reqId).getD []

/-- `send_outbound`, and what the loop does with its result. -/
def sendOutbound (w : WecomConnection) (o : Outbound) (nextId : String)
    (failure : Option (ℕ × String)) : WecomConnection :=
  let request := if o.forceActive then none else w.latestRequest o.chatId
  let streamId := o.streamId.getD nextId
  match outboundFrames o request streamId, failure with
  | .error e, _ => w.refuse o e
  | .ok frames, some (written, error) =>
    { w with wire := w.wire ++ wireFrames o (frames.take written) }.refuse o (.write error)
  | .ok frames, none =>
    { w with
      wire := w.wire ++ wireFrames o frames
      pending := w.pending.insert o.reqId
        (w.group o.reqId ++ [⟨o.number, w.clock, if o.forceActive then o.reqId else streamId⟩]) }

def outbound (w : WecomConnection) (nextId : String) (failure : Option (ℕ × String)) :
    WecomConnection :=
  match w.queue with
  | [] => w
  | o :: queue =>
    { w with queue := queue, phase := .top }.sendOutbound o nextId failure

/-- The end of `connect_once` drops what is pending. -/
def disconnect (w : WecomConnection) : WecomConnection :=
  { w with
    phase := .disconnected
    authenticated := false
    pending := ∅
    results := w.results ++ w.tell w.pending.values.flatten fun _ => .error .stopped }

/-- The connection task ends, and with it the receiver of the channel. -/
def stop (w : WecomConnection) : WecomConnection :=
  let w := w.disconnect
  { w with
    running := false
    queue := []
    results := w.results ++ w.tellUnsent w.queue .stopped }

def acknowledge (w : WecomConnection) (reqId : String) (errcode : ℤ) (acks : Option (ℕ × ℕ)) :
    WecomConnection :=
  { w with
    pending := w.pending.erase reqId
    acked := if errcode = 0 then w.acked ++ acks.toList else w.acked
    results := w.results ++ w.tell (w.group reqId) fun p =>
      if errcode = 0 then .ok p.streamId else .error (.rejected errcode) }

def rememberRequest (w : WecomConnection) (chatId reqId : String) : WecomConnection :=
  if reqId = "" then w else { w with requestMap := w.requestMap.insert chatId reqId }

def incoming (w : WecomConnection) (frame : IncomingFrame) : WecomConnection :=
  let w := { w with phase := .top }
  if frame.reqId = w.authReqId then
    if frame.errcode.getD (-1) = 0 then { w with authenticated := true } else w.disconnect
  else
    let w := frame.errcode.elim w fun errcode => w.acknowledge frame.reqId errcode frame.acks
    if w.authenticated then frame.callback.elim w fun chatId => w.rememberRequest chatId frame.reqId
    else w

def fire (w : WecomConnection) : WecomStep → WecomConnection
  | .enqueueOutbound chatId forceActive streamId message nextId =>
    w.enqueueOutbound chatId forceActive streamId message nextId
  | .channelSend o => w.channelSend o
  | .connect authReqId => { w with phase := .top, authReqId := authReqId }
  | .expirePending => { w.expirePending with phase := .waiting }
  | .ackTimer => { w.expirePending with phase := .top }
  | .outbound nextId failure => w.outbound nextId failure
  | .incoming frame => w.incoming frame
  | .disconnect => w.disconnect
  | .stop => w.stop
  | .advance now => { w with clock := now }

def Answers (w : WecomConnection) (frame : IncomingFrame) : Prop :=
  ∀ a ∈ frame.acks, ∃ f ∈ w.wire, (f.number, f.index) = a ∧ f.reqId = frame.reqId

/-- Events come while the loop waits for them; callers, the end of the task and the time do not
wait. A channel that is full takes no request while it is open. -/
def machine : Machine WecomConnection WecomStep where
  start w := w = boot w.clock
  admits w
    | .enqueueOutbound _ _ _ _ _ => True
    | .channelSend o =>
      o ∈ w.callers ∧ (w.running = true → w.queue.length < outboundCapacity)
    | .connect _ => w.phase = .disconnected ∧ w.running = true
    | .expirePending => w.phase = .top
    | .ackTimer => w.phase = .waiting ∧ w.pending.values ≠ []
    | .outbound _ _ => w.phase = .waiting ∧ w.queue ≠ []
    | .incoming frame => w.phase = .waiting ∧ w.Answers frame
    | .disconnect => w.phase = .waiting
    | .stop => w.running = true
    | .advance now => w.clock ≤ now
  fire := fire

def held (w : WecomConnection) : List ℕ :=
  (w.callers ++ w.queue).map (·.number) ++ w.pending.values.flatten.map (·.number)

/-- Each request is waiting, queued or pending, or its caller was told once; success if every frame
of the request was acknowledged, and a timeout if the request has waited for that long. -/
structure Informs (w : WecomConnection) : Prop where
  once : Tickets w.issued w.held (w.results.map (·.number))
  acknowledged : ∀ r ∈ w.results, ∀ id, r.outcome = .ok id → ∀ f ∈ w.wire, f.number = r.number →
    (f.number, f.index) ∈ w.acked
  timedOut : ∀ r ∈ w.results, r.outcome = .error .timedOut →
    ∃ t ∈ r.sentAt, t + responseAckTimeout ≤ r.now

def Settles (w : WecomConnection) (frame : IncomingFrame) : Prop :=
  ∀ p ∈ w.group frame.reqId, ∀ f ∈ w.wire, f.number = p.number →
    frame.acks = some (f.number, f.index)

def AgeTogether (w : WecomConnection) : Prop :=
  ∀ requests ∈ w.pending.values, requests.any w.waited = true → ∀ p ∈ requests, w.waited p = true

/-- An acknowledgement without error finds only requests whose one frame it acknowledges, and no
request is expired before its time with another of the same id. -/
def Matched (w : WecomConnection) : WecomStep → Prop
  | .incoming frame =>
    frame.reqId ≠ w.authReqId → frame.errcode = some 0 → w.Settles frame
  | .expirePending | .ackTimer => w.AgeTogether
  | _ => True

instance (w : WecomConnection) (frame : IncomingFrame) : Decidable (w.Answers frame) := by
  unfold Answers
  infer_instance

instance (w : WecomConnection) (frame : IncomingFrame) : Decidable (w.Settles frame) := by
  unfold Settles
  infer_instance

instance (w : WecomConnection) : Decidable w.AgeTogether := by
  unfold AgeTogether
  infer_instance

instance decidableAdmits : ∀ (w : WecomConnection) step, Decidable (machine.admits w step) := by
  intro w step
  cases step <;> (simp only [machine]; infer_instance)

instance decidableMatched : ∀ (w : WecomConnection) step, Decidable (w.Matched step) := by
  intro w step
  cases step <;> (simp only [Matched]; infer_instance)

variable {w : WecomConnection} {o : Outbound} {i : WecomStep}

theorem flatten_insert (p : PendingOutbound) (reqId : String) :
    (Dict.values (w.pending.insert reqId (w.group reqId ++ [p]))).flatten.Perm
      (p :: w.pending.values.flatten) := by
  rw [Dict.values_insert, List.flatten_cons]
  cases hfound : w.pending.lookup reqId with
  | none =>
    rw [Dict.erase_eq_self hfound, group, hfound, Option.getD_none, List.nil_append]
    exact List.Perm.refl _
  | some requests =>
    rw [group, hfound, Option.getD_some, List.append_assoc]
    have hall : w.pending.values.flatten.Perm
        (requests ++ (Dict.values (w.pending.erase reqId)).flatten) :=
      (Dict.values_perm hfound).flatten
    exact List.perm_middle.trans (hall.symm.cons p)

theorem flatten_erase (reqId : String) :
    w.pending.values.flatten.Perm
      (w.group reqId ++ (Dict.values (w.pending.erase reqId)).flatten) := by
  cases hfound : w.pending.lookup reqId with
  | none =>
    rw [Dict.erase_eq_self hfound, group, hfound, Option.getD_none, List.nil_append]
  | some requests =>
    rw [group, hfound, Option.getD_some]
    exact (Dict.values_perm hfound).flatten

theorem flatten_retain (p : List PendingOutbound → Bool) :
    w.pending.values.flatten.Perm ((w.pending.values.filter p).flatten ++
      (Dict.values (w.pending.retain fun _ requests => !p requests)).flatten) := by
  rw [Dict.values_retain fun requests => !p requests, ← List.flatten_append]
  exact (List.filter_append_perm p w.pending.values).symm.flatten

theorem map_number_tell (requests : List PendingOutbound) (outcome : PendingOutbound → SendOutcome) :
    (w.tell requests outcome).map (·.number) = requests.map (·.number) := by
  show (requests.map _).map _ = _
  rw [List.map_map]
  rfl

theorem map_number_tellUnsent (requests : List Outbound) (e : SendError) :
    (w.tellUnsent requests e).map (·.number) = requests.map (·.number) := by
  show (requests.map _).map _ = _
  rw [List.map_map]
  rfl

theorem of_mem_wireFrames {frames : List (String × FrameBody)} {f : WireFrame}
    (hf : f ∈ wireFrames o frames) : f.number = o.number ∧ f.reqId = o.reqId := by
  obtain ⟨index, -, rfl⟩ := List.mem_mapIdx.mp hf
  exact ⟨rfl, rfl⟩

/-- The frames of a request bear one id, the one it is pending under; none of them is acknowledged
while the request is pending, and none is written before. -/
structure Linked (w : WecomConnection) : Prop where
  acknowledged : ∀ r ∈ w.results, ∀ id, r.outcome = .ok id → ∀ f ∈ w.wire, f.number = r.number →
    (f.number, f.index) ∈ w.acked
  timedOut : ∀ r ∈ w.results, r.outcome = .error .timedOut →
    ∃ t ∈ r.sentAt, t + responseAckTimeout ≤ r.now
  unsent : ∀ o ∈ w.callers ++ w.queue, ∀ f ∈ w.wire, f.number ≠ o.number
  issued : ∀ f ∈ w.wire, f.number < w.issued
  uniform : ∀ f ∈ w.wire, ∀ g ∈ w.wire, f.number = g.number → f.reqId = g.reqId
  pending : ∀ reqId requests, w.pending.lookup reqId = some requests → ∀ p ∈ requests,
    ∀ f ∈ w.wire, f.number = p.number → f.reqId = reqId ∧ (f.number, f.index) ∉ w.acked
  written : ∀ a ∈ w.acked, ∃ f ∈ w.wire, (f.number, f.index) = a

/-- The invariant: the requests are accounted for, and their frames are linked to them. -/
structure Kept (w : WecomConnection) : Prop extends Linked w where
  tickets : Tickets w.issued w.held (w.results.map (·.number))

theorem Kept.informs (h : w.Kept) : w.Informs := ⟨h.tickets, h.acknowledged, h.timedOut⟩

theorem kept_boot (clock : ℕ) : (boot clock).Kept where
  acknowledged _ h := by cases h
  timedOut _ h := by cases h
  unsent _ h := by cases h
  issued _ h := by cases h
  uniform _ h := by cases h
  pending _ _ h := by cases h
  written _ h := by cases h
  tickets := Tickets.nil

theorem Kept.of_frame (h : w.Kept) {clock : ℕ} {phase : LoopPhase} {authReqId : String}
    {authenticated running : Bool} {requestMap : Dict String String} :
    { w with
      clock := clock, phase := phase, authReqId := authReqId, authenticated := authenticated
      running := running, requestMap := requestMap }.Kept :=
  ⟨⟨h.acknowledged, h.timedOut, h.unsent, h.issued, h.uniform, h.pending, h.written⟩, h.tickets⟩

theorem Kept.enqueueOutbound (h : w.Kept) {chatId nextId : String} {forceActive : Bool}
    {streamId : Option String} {message : OutgoingMessage} :
    (w.enqueueOutbound chatId forceActive streamId message nextId).Kept := by
  refine ⟨⟨h.acknowledged, h.timedOut, fun o ho f hf => ?_,
    fun f hf => Nat.lt_succ_of_lt (h.issued f hf), h.uniform, h.pending, h.written⟩, ?_⟩
  · obtain ho | ho := List.mem_append.mp ho
    · obtain ho | ho := List.mem_append.mp ho
      · exact h.unsent o (List.mem_append_left _ ho) f hf
      · -- the number of the new request is none of a frame
        rw [List.mem_singleton.mp ho]
        exact Nat.ne_of_lt (h.issued f hf)
    · exact h.unsent o (List.mem_append_right _ ho) f hf
  · refine h.tickets.draw.pass ?_
    have hmiddle : ∀ o : Outbound, (o :: (w.callers ++ w.queue)).Perm
        ((w.callers ++ [o]) ++ w.queue) := fun o => by
      rw [List.append_assoc, List.singleton_append]
      exact List.perm_middle.symm
    exact ((hmiddle ⟨w.issued, _, _, _, _, _⟩).map Outbound.number).append_right _

variable {e : SendError}

/-- Requests that are not sent move on, or end with an error. -/
theorem Kept.drop (h : w.Kept) {callers queue ended : List Outbound} (he : e ≠ .timedOut)
    (hperm : (w.callers ++ w.queue).Perm (ended ++ (callers ++ queue))) :
    { w with
      callers := callers, queue := queue
      results := w.results ++ w.tellUnsent ended e }.Kept := by
  have hended : ∀ r ∈ w.tellUnsent ended e, r.outcome = .error e := by
    intro r hr
    obtain ⟨o, -, rfl⟩ := List.mem_map.mp hr
    rfl
  refine ⟨⟨fun r hr id hok => ?_, fun r hr hout => ?_, fun o ho => h.unsent o ?_, h.issued, h.uniform,
    h.pending, h.written⟩, ?_⟩
  · obtain hr | hr := List.mem_append.mp hr
    · exact h.acknowledged r hr id hok
    · rw [hended r hr] at hok
      cases hok
  · obtain hr | hr := List.mem_append.mp hr
    · exact h.timedOut r hr hout
    · rw [hended r hr] at hout
      exact absurd (SendOutcome.error.inj hout) he
  · exact hperm.mem_iff.mpr (List.mem_append_right _ ho)
  · rw [List.map_append, map_number_tellUnsent]
    refine h.tickets.spendAll ?_
    have hnumbers : ((w.callers ++ w.queue).map Outbound.number).Perm
        (ended.map Outbound.number ++ (callers ++ queue).map Outbound.number) := by
      rw [← List.map_append]
      exact hperm.map Outbound.number
    show (List.map _ (w.callers ++ w.queue) ++ _).Perm (_ ++ (List.map _ (callers ++ queue) ++ _))
    rw [← List.append_assoc]
    exact hnumbers.append_right _

/-- Pending requests end: with success if all their frames are acknowledged by now, with a timeout
if they have waited. -/
theorem Kept.release (h : w.Kept) {pending : Dict String (List PendingOutbound)}
    {ended : List PendingOutbound} {outcome : PendingOutbound → SendOutcome}
    {acked : List (ℕ × ℕ)}
    (hperm : w.pending.values.flatten.Perm (ended ++ pending.values.flatten))
    (hlookup : ∀ reqId requests, pending.lookup reqId = some requests →
      w.pending.lookup reqId = some requests)
    (hacked : ∀ a ∈ w.acked, a ∈ acked)
    (hwritten : ∀ a ∈ acked, ∃ f ∈ w.wire, (f.number, f.index) = a)
    (hopen : ∀ reqId requests, pending.lookup reqId = some requests → ∀ p ∈ requests,
      ∀ f ∈ w.wire, f.number = p.number → (f.number, f.index) ∉ acked)
    (hok : ∀ p ∈ ended, ∀ id, outcome p = .ok id → ∀ f ∈ w.wire, f.number = p.number →
      (f.number, f.index) ∈ acked)
    (hwaited : ∀ p ∈ ended, outcome p = .error .timedOut → w.waited p = true) :
    { w with
      pending := pending, acked := acked, results := w.results ++ w.tell ended outcome }.Kept := by
  refine ⟨⟨fun r hr id hout f hf hnumber => ?_, fun r hr hout => ?_, h.unsent, h.issued, h.uniform,
    fun reqId requests hfound p hp f hf hnumber =>
      ⟨(h.pending reqId requests (hlookup _ _ hfound) p hp f hf hnumber).1,
        hopen reqId requests hfound p hp f hf hnumber⟩, hwritten⟩, ?_⟩
  · obtain hr | hr := List.mem_append.mp hr
    · exact hacked _ (h.acknowledged r hr id hout f hf hnumber)
    · obtain ⟨p, hp, rfl⟩ := List.mem_map.mp hr
      exact hok p hp id hout f hf hnumber
  · obtain hr | hr := List.mem_append.mp hr
    · exact h.timedOut r hr hout
    · obtain ⟨p, hp, rfl⟩ := List.mem_map.mp hr
      exact ⟨p.sentAt, rfl, of_decide_eq_true (hwaited p hp hout)⟩
  · rw [List.map_append, map_number_tell]
    refine h.tickets.spendAll ?_
    have hnumbers := hperm.map PendingOutbound.number
    rw [List.map_append] at hnumbers
    exact (hnumbers.append_left _).trans (List.perm_append_comm_assoc _ _ _)

variable {reqId : String} {requests : List PendingOutbound}

theorem group_eq (h : w.pending.lookup reqId = some requests) : w.group reqId = requests := by
  rw [group, h, Option.getD_some]

variable {p : PendingOutbound}

theorem lookup_of_mem_group (hp : p ∈ w.group reqId) :
    w.pending.lookup reqId = some (w.group reqId) := by
  cases hfound : w.pending.lookup reqId with
  | none =>
    rw [group, hfound, Option.getD_none] at hp
    cases hp
  | some requests => rw [group_eq hfound]

theorem number_mem_held (hfound : w.pending.lookup reqId = some requests) (hp : p ∈ requests) :
    p.number ∈ w.pending.values.flatten.map (·.number) :=
  List.mem_map.mpr ⟨p, List.mem_flatten.mpr ⟨requests, Dict.mem_values.mpr ⟨reqId, hfound⟩, hp⟩, rfl⟩

variable {queue : List Outbound}

/-- Frames of the first request in the queue are written: no other request has its number. -/
theorem Kept.write (h : w.Kept) (hqueue : w.queue = o :: queue)
    (frames : List (String × FrameBody)) :
    { w with queue := queue, wire := w.wire ++ wireFrames o frames }.Linked ∧
      ∀ f ∈ w.wire ++ wireFrames o frames, f.number = o.number →
        f.reqId = o.reqId ∧ (f.number, f.index) ∉ w.acked := by
  have hmem : o ∈ w.callers ++ w.queue := by
    rw [hqueue]
    exact List.mem_append_right _ List.mem_cons_self
  have hheld : o.number ∈ w.held :=
    List.mem_append_left _ (List.mem_map_of_mem (f := Outbound.number) hmem)
  have hnodup : ((w.callers ++ w.queue).map Outbound.number ++
      w.pending.values.flatten.map (·.number)).Nodup :=
    (List.nodup_append.mp h.tickets.nodup).1
  obtain ⟨hwaiting, -, hapart⟩ := List.nodup_append.mp hnodup
  have hothers : ∀ o' ∈ w.callers ++ queue, o'.number ≠ o.number := by
    intro o' ho' hsame
    rw [hqueue] at hwaiting
    have hperm : (w.callers ++ o :: queue).Perm (o :: (w.callers ++ queue)) := List.perm_middle
    have hcons := (hperm.map Outbound.number).nodup_iff.mp hwaiting
    exact (List.nodup_cons.mp hcons).1 (List.mem_map.mpr ⟨o', ho', hsame⟩)
  have hsub : ∀ o' ∈ w.callers ++ queue, o' ∈ w.callers ++ w.queue := by
    intro o' ho'
    rw [hqueue]
    exact (List.mem_append.mp ho').elim (List.mem_append_left _) fun hin =>
      List.mem_append_right _ (List.mem_cons_of_mem _ hin)
  have hnone : ∀ f ∈ w.wire, f.number ≠ o.number := h.unsent o hmem
  have hunacked : ∀ index, (o.number, index) ∉ w.acked := by
    intro index hacked
    obtain ⟨f, hf, he⟩ := h.written _ hacked
    exact hnone f hf (congrArg Prod.fst he)
  -- each frame is an old one or one of the request, and no old one has its number
  have hframe : ∀ f ∈ w.wire ++ wireFrames o frames,
      f ∈ w.wire ∨ f.number = o.number ∧ f.reqId = o.reqId := fun f hf =>
    (List.mem_append.mp hf).imp_right of_mem_wireFrames
  refine ⟨⟨fun r hr id hok f hf hnumber => ?_, h.timedOut, fun o' ho' f hf => ?_, fun f hf => ?_,
    fun f hf g hg hnumber => ?_, fun reqId requests hfound p hp f hf hnumber => ?_, fun a ha => ?_⟩,
    fun f hf hnumber => ?_⟩
  · obtain hold | ⟨hnew, -⟩ := hframe f hf
    · exact h.acknowledged r hr id hok f hold hnumber
    · -- nobody was told of the request that is sent
      exact absurd (List.mem_map.mpr ⟨r, hr, hnumber.symm.trans hnew⟩) (h.tickets.unspent hheld)
  · obtain hold | ⟨hnew, -⟩ := hframe f hf
    · exact h.unsent o' (hsub o' ho') f hold
    · exact fun hsame => hothers o' ho' (hsame.symm.trans hnew)
  · obtain hold | ⟨hnew, -⟩ := hframe f hf
    · exact h.issued f hold
    · exact hnew ▸ h.tickets.lt_of_held hheld
  · obtain hold | ⟨hnew, hreq⟩ := hframe f hf
    · obtain hold' | ⟨hnew', -⟩ := hframe g hg
      · exact h.uniform f hold g hold' hnumber
      · exact absurd (hnumber.trans hnew') (hnone f hold)
    · obtain hold' | ⟨-, hreq'⟩ := hframe g hg
      · exact absurd (hnumber.symm.trans hnew) (hnone g hold')
      · exact hreq.trans hreq'.symm
  · obtain hold | ⟨hnew, -⟩ := hframe f hf
    · exact h.pending reqId requests hfound p hp f hold hnumber
    · exact absurd (hnew.symm.trans hnumber) (hapart _ (List.mem_map_of_mem hmem) _
        (number_mem_held hfound hp))
  · obtain ⟨f, hf, he⟩ := h.written a ha
    exact ⟨f, List.mem_append_left _ hf, he⟩
  · obtain hold | ⟨hnew, hreq⟩ := hframe f hf
    · exact absurd hnumber (hnone f hold)
    · exact ⟨hreq, hnew ▸ hunacked f.index⟩

/-- The request is pending with its frames. -/
theorem Kept.sent (h : w.Kept) (hqueue : w.queue = o :: queue)
    (frames : List (String × FrameBody)) (streamId : String) :
    { w with
      queue := queue, wire := w.wire ++ wireFrames o frames
      pending := w.pending.insert o.reqId
        (w.group o.reqId ++ [(⟨o.number, w.clock, streamId⟩ : PendingOutbound)]) }.Kept := by
  obtain ⟨hlinked, hmine⟩ := h.write hqueue frames
  refine ⟨⟨hlinked.acknowledged, hlinked.timedOut, hlinked.unsent, hlinked.issued, hlinked.uniform,
    fun reqId requests hfound p hp f hf hnumber => ?_, hlinked.written⟩, ?_⟩
  · -- the group under the id has grown by the request, the others are as before
    have hfound' : (if reqId = o.reqId then some (w.group o.reqId ++
        [(⟨o.number, w.clock, streamId⟩ : PendingOutbound)]) else w.pending.lookup reqId) =
          some requests := by
      rw [← hfound]
      exact (Dict.lookup_insert' w.pending o.reqId reqId _).symm
    by_cases hreq : reqId = o.reqId
    · rw [if_pos hreq] at hfound'
      obtain rfl := Option.some.inj hfound'
      subst hreq
      obtain hp | hp := List.mem_append.mp hp
      · exact hlinked.pending _ _ (lookup_of_mem_group hp) p hp f hf hnumber
      · rw [List.mem_singleton.mp hp] at hnumber
        exact hmine f hf hnumber
    · rw [if_neg hreq] at hfound'
      exact hlinked.pending reqId requests hfound' p hp f hf hnumber
  · -- the ticket of the request passes from the queue to the map
    refine h.tickets.pass ?_
    have hpending := (flatten_insert (w := w) ⟨o.number, w.clock, streamId⟩ o.reqId).map
      PendingOutbound.number
    have hwaiting : ((w.callers ++ w.queue).map Outbound.number).Perm
        (o.number :: (w.callers ++ queue).map Outbound.number) := by
      rw [hqueue]
      exact (List.perm_middle (a := o)).map Outbound.number
    have hmove := hwaiting.append_right (w.pending.values.flatten.map PendingOutbound.number)
    exact hmove.trans (List.perm_middle.symm.trans (hpending.symm.append_left _))

/-- The request ends with an error, whatever of its frames was written. -/
theorem Kept.refused (h : w.Kept) (hqueue : w.queue = o :: queue)
    (frames : List (String × FrameBody)) (he : e ≠ .timedOut) :
    ({ w with queue := queue, wire := w.wire ++ wireFrames o frames }.refuse o e).Kept := by
  obtain ⟨hlinked, -⟩ := h.write hqueue frames
  have hdropped : { w with
      callers := w.callers, queue := queue
      results := w.results ++ w.tellUnsent [o] e }.Kept := h.drop he (by
    rw [hqueue]
    exact List.perm_middle)
  have hlast : ∀ r ∈ w.results ++ w.tellUnsent [o] e, r ∈ w.results ∨ r.outcome = .error e :=
    fun r hr => (List.mem_append.mp hr).imp_right fun hnew => by
      rw [List.mem_singleton.mp hnew]
  refine ⟨⟨fun r hr id hok => ?_, hdropped.timedOut, hlinked.unsent, hlinked.issued, hlinked.uniform,
    hlinked.pending, hlinked.written⟩, hdropped.tickets⟩
  obtain hold | hnew := hlast r hr
  · exact hlinked.acknowledged r hold id hok
  · rw [hnew] at hok
    cases hok

/-- A message that has no body is not sent, and that is no timeout. -/
theorem outboundFrames_error {request : Option String} {streamId : String}
    (h : outboundFrames o request streamId = .error e) : e ≠ .timedOut := by
  have hbody : ∀ e', messageBody o.message = some e' → e' ≠ .timedOut := by
    intro e' he'
    unfold messageBody at he'
    split at he'
    · split at he'
      · cases he'
      · cases he'
        exact fun he => (by cases he)
    · split at he'
      · cases he'
      · cases he'
        exact fun he => (by cases he)
    · split at he'
      · cases he'
      · cases he'
        exact fun he => (by cases he)
    · cases he'
  unfold outboundFrames at h
  split at h
  · split at h
    · rename_i e' he'
      cases h
      exact hbody _ he'
    · cases h
  · split at h
    · cases h
    · split at h
      · rename_i e' he'
        cases h
        exact hbody _ he'
      · cases h

theorem Kept.outbound (h : w.Kept) {nextId : String} {failure : Option (ℕ × String)} :
    (w.outbound nextId failure).Kept := by
  unfold WecomConnection.outbound
  split
  · exact h
  · rename_i o queue hqueue
    unfold sendOutbound
    extract_lets request streamId
    split
    · rename_i e herror
      have hdropped : { w with
          callers := w.callers, queue := queue
          results := w.results ++ w.tellUnsent [o] e }.Kept := h.drop (outboundFrames_error herror) (by
        rw [hqueue]
        exact List.perm_middle)
      exact hdropped.of_frame
    · rename_i frames written error _
      have hrefused := h.refused hqueue (frames.take written) (e := .write error)
        fun he => (by cases he)
      exact hrefused.of_frame
    · rename_i frames _
      exact (h.sent hqueue frames _).of_frame

theorem Kept.channelSend (h : w.Kept) (hmem : o ∈ w.callers) : (w.channelSend o).Kept := by
  have hperm : (w.callers ++ w.queue).Perm (o :: (w.callers.erase o ++ w.queue)) :=
    (List.perm_cons_erase hmem).append_right w.queue
  unfold WecomConnection.channelSend
  extract_lets w'
  split
  · have hmoved : { w with
        callers := w.callers.erase o, queue := w.queue ++ [o]
        results := w.results ++ w.tellUnsent [] .stopping }.Kept := by
      refine h.drop (fun he => (by cases he)) (hperm.trans ?_)
      rw [List.nil_append, ← List.append_assoc]
      exact (List.perm_append_singleton _ _).symm
    have hnone : w.tellUnsent [] .stopping = [] := rfl
    rw [hnone, List.append_nil] at hmoved
    exact hmoved
  · exact h.drop (fun he => (by cases he)) hperm

theorem Kept.expirePending (h : w.Kept) (hage : w.AgeTogether) : w.expirePending.Kept := by
  have hlookup : ∀ reqId requests,
      AList.lookup reqId (w.pending.retain fun _ requests => !requests.any w.waited) =
        some requests → w.pending.lookup reqId = some requests := by
    intro reqId requests hfound
    rw [Dict.lookup_retain, Option.filter_eq_some_iff] at hfound
    exact hfound.1
  refine h.release (flatten_retain fun requests => requests.any w.waited) hlookup (fun _ ha => ha)
    h.written (fun reqId requests hfound p hp f hf hnumber =>
      (h.pending reqId requests (hlookup _ _ hfound) p hp f hf hnumber).2)
    (fun _ _ _ hok => (by cases hok)) fun p hp _ => ?_
  -- a group is expired for one that has waited, and then all of it has
  obtain ⟨requests, hrequests, hp⟩ := List.mem_flatten.mp hp
  obtain ⟨hvalue, hany⟩ := List.mem_filter.mp hrequests
  exact hage requests hvalue hany p hp

theorem Kept.disconnect (h : w.Kept) : w.disconnect.Kept := by
  have hreleased : { w with
      pending := ∅, acked := w.acked
      results := w.results ++ w.tell w.pending.values.flatten fun _ => .error .stopped }.Kept := by
    refine h.release ?_ (fun _ _ hfound => (by cases hfound)) (fun _ ha => ha) h.written
      (fun _ _ hfound => (by cases hfound)) (fun _ _ _ hok => (by cases hok))
      fun _ _ he => (by cases he)
    have hempty : (Dict.values (∅ : Dict String (List PendingOutbound))).flatten = [] := rfl
    rw [hempty, List.append_nil]
  exact hreleased.of_frame

theorem Kept.stop (h : w.Kept) : w.stop.Kept := by
  have hdropped : { w.disconnect with
      callers := w.callers, queue := []
      results := w.disconnect.results ++ w.disconnect.tellUnsent w.queue .stopped }.Kept := by
    refine h.disconnect.drop (fun he => (by cases he)) ?_
    rw [List.append_nil]
    exact List.perm_append_comm
  exact hdropped.of_frame

variable {frame : IncomingFrame}

/-- Only requests whose one frame is acknowledged are told of success. -/
theorem Kept.acknowledge (h : w.Kept) {errcode : ℤ} (hanswers : w.Answers frame)
    (hsettles : errcode = 0 → w.Settles frame) :
    (w.acknowledge frame.reqId errcode frame.acks).Kept := by
  have hlookup : ∀ reqId requests, AList.lookup reqId (w.pending.erase frame.reqId) = some requests →
      reqId ≠ frame.reqId ∧ w.pending.lookup reqId = some requests := by
    intro reqId requests hfound
    rw [Dict.lookup_erase'] at hfound
    by_cases hreq : reqId = frame.reqId
    · rw [if_pos hreq] at hfound
      cases hfound
    · rw [if_neg hreq] at hfound
      exact ⟨hreq, hfound⟩
  have hacked : ∀ a ∈ (if errcode = 0 then w.acked ++ frame.acks.toList else w.acked),
      a ∈ w.acked ∨ a ∈ frame.acks := by
    intro a ha
    split at ha
    · exact (List.mem_append.mp ha).imp_right Option.mem_toList.mp
    · exact .inl ha
  refine h.release (flatten_erase frame.reqId) (fun reqId requests hfound => (hlookup _ _ hfound).2)
    (fun a ha => ?_) (fun a ha => ?_) (fun reqId requests hfound p hp f hf hnumber ha => ?_)
    (fun p hp id hok f hf hnumber => ?_) fun p _ hout => ?_
  · split
    · exact List.mem_append_left _ ha
    · exact ha
  · obtain ha | ha := hacked a ha
    · exact h.written a ha
    · obtain ⟨f, hf, he, -⟩ := hanswers a ha
      exact ⟨f, hf, he⟩
  · obtain ⟨hne, hpending⟩ := hlookup _ _ hfound
    obtain ⟨hreq, hopen⟩ := h.pending reqId requests hpending p hp f hf hnumber
    obtain ha | ha := hacked _ ha
    · exact hopen ha
    · -- the frame that is acknowledged bears the other id
      obtain ⟨g, hg, he, hgreq⟩ := hanswers _ ha
      have hsame := h.uniform f hf g hg (congrArg Prod.fst he).symm
      exact hne (hreq.symm.trans (hsame.trans hgreq))
  · -- success is told at errcode 0, to requests with the one frame that is acknowledged
    by_cases hzero : errcode = 0
    · rw [if_pos hzero]
      have hone := hsettles hzero p hp f hf hnumber
      rw [hone]
      exact List.mem_append_right _ List.mem_cons_self
    · rw [if_neg hzero] at hok
      cases hok
  · split at hout
    · cases hout
    · cases hout

theorem Kept.incoming (h : w.Kept) (hanswers : w.Answers frame)
    (hmatched : frame.reqId ≠ w.authReqId → frame.errcode = some 0 → w.Settles frame) :
    (w.incoming frame).Kept := by
  have htop : { w with phase := .top }.Kept := h.of_frame
  unfold WecomConnection.incoming
  extract_lets w₁ w₂
  split
  · -- the answer to the authentication: an error closes the connection
    split
    · exact h.of_frame
    · exact htop.disconnect
  · rename_i hreq
    have hsettled : w₂.Kept := by
      show (frame.errcode.elim w₁ fun errcode =>
        w₁.acknowledge frame.reqId errcode frame.acks).Kept
      cases herrcode : frame.errcode with
      | none => exact htop
      | some errcode =>
        refine htop.acknowledge hanswers fun hzero => ?_
        subst hzero
        exact hmatched hreq herrcode
    split
    · cases frame.callback with
      | none => exact hsettled
      | some chatId =>
        unfold rememberRequest
        split
        · exact hsettled
        · exact hsettled.of_frame
    · exact hsettled

theorem Kept.step (h : w.Kept) (hstep : machine.admits w i) (hmatched : w.Matched i) :
    (w.fire i).Kept := by
  cases i with
  | enqueueOutbound chatId forceActive streamId message nextId => exact h.enqueueOutbound
  | channelSend o => exact h.channelSend hstep.1
  | connect authReqId => exact h.of_frame
  | expirePending => exact (h.expirePending hmatched).of_frame
  | ackTimer => exact (h.expirePending hmatched).of_frame
  | outbound nextId failure => exact h.outbound
  | incoming frame => exact h.incoming hstep.2 hmatched
  | disconnect => exact h.disconnect
  | stop => exact h.stop
  | advance now => exact h.of_frame

/-- A request that is told of a timeout has waited. -/
theorem Informs.ageTogether {w' : WecomConnection} (h : w'.Informs)
    (hresults : w'.results = w.expirePending.results) : w.AgeTogether := by
  intro requests hrequests hany p hp
  have hmem : (⟨p.number, .error .timedOut, some p.sentAt, w.clock⟩ : SendResult) ∈ w'.results := by
    rw [hresults]
    refine List.mem_append_right _ (List.mem_map.mpr ⟨p, ?_, rfl⟩)
    exact List.mem_flatten.mpr ⟨requests, List.mem_filter.mpr ⟨hrequests, hany⟩, hp⟩
  obtain ⟨t, ht, hwaited⟩ := h.timedOut _ hmem rfl
  obtain rfl := Option.some.inj ht
  exact decide_eq_true hwaited

/-- A request that is told of success had one frame, the one that is acknowledged. -/
theorem Kept.settles (h : w.Kept) (hreq : frame.reqId ≠ w.authReqId)
    (hzero : frame.errcode = some 0) (hnext : (w.incoming frame).Informs) : w.Settles frame := by
  intro p hp f hf hnumber
  have hkept : (w.incoming frame).results =
        (w.acknowledge frame.reqId 0 frame.acks).results ∧
      (w.incoming frame).acked = (w.acknowledge frame.reqId 0 frame.acks).acked ∧
      (w.incoming frame).wire = w.wire := by
    unfold WecomConnection.incoming
    extract_lets w₁ w₂
    have hsettled : w₂ = w₁.acknowledge frame.reqId 0 frame.acks := by
      show frame.errcode.elim w₁ _ = _
      rw [hzero]
      rfl
    clear_value w₂
    subst hsettled
    rw [if_neg hreq]
    split
    · cases frame.callback with
      | none => exact ⟨rfl, rfl, rfl⟩
      | some chatId =>
        unfold rememberRequest
        split
        · exact ⟨rfl, rfl, rfl⟩
        · exact ⟨rfl, rfl, rfl⟩
    · exact ⟨rfl, rfl, rfl⟩
  obtain ⟨hresults, hacked, hwire⟩ := hkept
  have hmem : (⟨p.number, .ok p.streamId, some p.sentAt, w.clock⟩ : SendResult) ∈
      (w.incoming frame).results := by
    rw [hresults]
    exact List.mem_append_right _ (List.mem_map.mpr ⟨p, hp, rfl⟩)
  have hin := hnext.acknowledged _ hmem p.streamId rfl f (hwire ▸ hf) hnumber
  rw [hacked] at hin
  -- the frame was open before, so it is the one that this answer acknowledges
  obtain hin | hin := List.mem_append.mp hin
  · exact absurd hin (h.pending _ _ (lookup_of_mem_group hp) p hp f hf hnumber).2
  · exact Option.mem_toList.mp hin

theorem Kept.matched (h : w.Kept) (hnext : (w.fire i).Informs) : w.Matched i := by
  cases i with
  | expirePending => exact hnext.ageTogether rfl
  | ackTimer => exact hnext.ageTogether rfl
  | incoming frame => exact fun hreq hzero => h.settles hreq hzero hnext
  | enqueueOutbound | channelSend | connect | outbound | disconnect | stop | advance => trivial

/-- While every step is matched the callers are informed in every state reached, and the next step
keeps them so exactly if it is matched too. -/
theorem sends_informed (h : (machine.restrict Matched).Reachable w) :
    w.Informs ∧ ∀ i, machine.admits w i → ((w.fire i).Informs ↔ w.Matched i) := by
  have hkept : w.Kept := h.invariant (M := machine.restrict Matched) (P := Kept)
    (fun w hw => by
      have hboot : w = boot w.clock := hw
      rw [hboot]
      exact kept_boot _)
    fun _ _ hs hi => hs.step hi.1 hi.2
  exact ⟨hkept.informs, fun i hi =>
    ⟨hkept.matched, fun hmatched => (hkept.step hi hmatched).informs⟩⟩

section Sample

def sampleText (text : String) : OutgoingMessage := ⟨.text, some text, false, none, none, false⟩

/-- A send, or an edit of the stream, in the chat whose last request is `r1`. -/
def sampleOutbound (number : ℕ) (streamId : Option String) (text : String) : Outbound :=
  ⟨number, "chat", "r1", false, streamId, sampleText text⟩

def sampleConnected : List WecomStep :=
  [.connect "subscribe-1", .expirePending, .incoming ⟨"subscribe-1", some 0, none, none⟩,
    .expirePending, .incoming ⟨"r1", none, some "chat", none⟩, .expirePending]

def sampleSend (number : ℕ) (streamId : Option String) (text : String) : List WecomStep :=
  [.enqueueOutbound "chat" false streamId (sampleText text) "send-1",
    .channelSend (sampleOutbound number streamId text), .outbound "stream-1" none, .expirePending]

def sampleAck (number : ℕ) : WecomStep := .incoming ⟨"r1", some 0, none, some (number, 0)⟩

/-- A send is acknowledged; an edit of its stream is not, and times out. -/
def sampleSteps : List WecomStep :=
  sampleConnected ++ sampleSend 0 none "..." ++ [sampleAck 0, .expirePending] ++
    sampleSend 1 (some "stream-1") "done" ++ [.advance 10000, .ackTimer]

/-- The edit is sent while the send is pending, and only the frame of the send is acknowledged. -/
def sampleShared : List WecomStep :=
  sampleConnected ++ sampleSend 0 none "..." ++ sampleSend 1 (some "stream-1") "done" ++
    [sampleAck 0]

theorem sample_matched :
    (machine.restrict Matched).Reachable ((machine.restrict Matched).run (boot 0) sampleSteps) :=
  Machine.reachable_run rfl (by decide +kernel)

theorem sends_informed_sample :
    ((machine.restrict Matched).run (boot 0) sampleSteps).Informs ∧
      ((machine.restrict Matched).run (boot 0) sampleSteps).results =
        [⟨0, .ok "stream-1", some 0, 0⟩, ⟨1, .error .timedOut, some 0, 10000⟩] :=
  ⟨(sends_informed sample_matched).1, by decide +kernel⟩

/-- One acknowledgement settles two requests, one of them with a frame nobody acknowledged. -/
theorem shared_ack_misinforms :
    machine.Reachable (machine.run (boot 0) sampleShared) ∧
      ¬(machine.run (boot 0) sampleShared).Informs := by
  have hresult : (⟨1, .ok "stream-1", some 0, 0⟩ : SendResult) ∈
      (machine.run (boot 0) sampleShared).results := by decide +kernel
  have hframe : (⟨1, 0, "aibot_respond_msg", "r1", .stream "stream-1" true "done"⟩ : WireFrame) ∈
      (machine.run (boot 0) sampleShared).wire := by decide +kernel
  have hacked : (1, 0) ∉ (machine.run (boot 0) sampleShared).acked := by decide +kernel
  refine ⟨Machine.reachable_run rfl (by decide +kernel), fun h => ?_⟩
  exact hacked (h.acknowledged _ hresult "stream-1" rfl _ hframe rfl)

end Sample

end WecomConnection

end AionCore.Channel
