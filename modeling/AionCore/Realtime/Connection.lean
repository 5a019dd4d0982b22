import AionCore.Lib.Machine
import Mathlib.Data.List.Basic

/-!
# Realtime: one WebSocket connection

The entry of a connection in the map of `manager.rs`, its bounded outbound queue, and the two loops
of `handler.rs`. A tick of the heartbeat visits the entry and removes it only when it has visited
all; between the two, and between any two steps of the loops, the others may come in. Writing to a
socket over which a close frame was sent fails.
-/

namespace AionCore.Realtime

/-- A JSON value; a number is kept as its text. -/
inductive Json where
  | null
  | bool (b : Bool)
  | number (text : String)
  | string (s : String)
  | array (items : List Json)
  | object (fields : List (String × Json))

namespace Json

def get (key : String) : Json → Option Json
  | object fields => (fields.find? (·.1 = key)).map Prod.snd
  | _ => none

def asStr : Json → Option String
  | string s => some s
  | _ => none

def asArray : Json → Option (List Json)
  | array items => some items
  | _ => none

end Json

structure WebSocketMessage where
  name : String
  data : Json

/-- The errors of the realtime boundary that a connection can meet. -/
inductive RealtimeError where
  | authExpired
  | invalidMessage
  | unsupportedMessage
  | heartbeatTimeout
  deriving DecidableEq

namespace RealtimeError

def code : RealtimeError → String
  | authExpired => "REALTIME_AUTH_EXPIRED"
  | invalidMessage => "REALTIME_INVALID_MESSAGE"
  | unsupportedMessage => "REALTIME_UNSUPPORTED_MESSAGE"
  | heartbeatTimeout => "REALTIME_HEARTBEAT_TIMEOUT"

def message : RealtimeError → String
  | authExpired => "Authentication has expired."
  | invalidMessage => "Message must use the standard realtime envelope."
  | unsupportedMessage => "Realtime message is not supported."
  | heartbeatTimeout => "Realtime connection heartbeat timed out."

def recoverable : RealtimeError → Bool
  | authExpired | heartbeatTimeout => false
  | invalidMessage | unsupportedMessage => true

def details : RealtimeError → Json
  | invalidMessage =>
    .object [("expected", .string "\x7b \"name\": \"event-name\", \"data\": \x7b...\x7d \x7d")]
  | _ => .object []

def intoEvent (e : RealtimeError) : WebSocketMessage :=
  ⟨"realtime.error", .object [("code", .string e.code), ("message", .string e.message),
    ("recoverable", .bool e.recoverable), ("details", e.details)]⟩

end RealtimeError

def policyViolation : ℕ := 1008

inductive WsOutbound where
  | text (event : WebSocketMessage)
  | textThenClose (event : WebSocketMessage) (code : ℕ) (reason : String)

namespace WsOutbound

def event : WsOutbound → WebSocketMessage
  | text event | textThenClose event _ _ => event

def closes : WsOutbound → Bool
  | text _ => false
  | textThenClose _ _ _ => true

end WsOutbound

def terminalRealtimeError (e : RealtimeError) (reason : String) : WsOutbound :=
  .textThenClose e.intoEvent policyViolation reason

/-- The entry in the map; times are in milliseconds. -/
structure ClientInfo where
  token : String
  lastPing : ℕ

def heartbeatTimeout : ℕ := 60 * 1000

def perConnectionBuffer : ℕ := 64

/-- The send loop waits for the queue, has a close frame to write after a text, or has ended and
dropped its end of the queue. -/
inductive SendStage where
  | running
  | closing
  | ended
  deriving DecidableEq

/-- What is queued, and whether it answers a text frame that was read after a tick had found the
connection timed out or its token rejected. -/
structure Queued where
  outbound : WsOutbound
  late : Bool

/-- One connection. As history: the events that the client has received, the error for which a tick
has closed the connection, and the names routed after that. -/
structure Connection where
  client : Option ClientInfo
  queue : List Queued
  sending : SendStage
  closeSent : Bool
  receiving : Bool
  toRemove : Bool
  delivered : List Queued
  rejected : Option RealtimeError
  routedLate : List String

/-- A frame of the client, or the end of its stream. -/
inductive Frame where
  | text (text : String)
  | close
  | other
  | error

/-- `now` and `valid` are what the tick reads of the clock and hears of the token; `ok` says whether
the socket takes the write. -/
inductive ConnectionStep where
  | tick (now : ℕ) (valid : Bool)
  | removeVisited
  | broadcast (event : WebSocketMessage)
  | read (frame : Frame) (now : ℕ)
  | write (ok : Bool)

namespace Connection

/-- The connection once its client is added. -/
def opened (token : String) (now : ℕ) : Connection :=
  ⟨some ⟨token, now⟩, [], .running, false, true, false, [], none, []⟩

/-- `try_send`: nothing is queued if the queue is full or the send loop has ended. -/
def trySend (c : Connection) (outbound : WsOutbound) (late : Bool) : Connection :=
  if c.sending = .ended || perConnectionBuffer ≤ c.queue.length then c
  else { c with queue := c.queue ++ [⟨outbound, late⟩] }

/-- What `broadcast_all` and `send_raw_to` do with the entry. -/
def sendTo (c : Connection) (event : WebSocketMessage) (late : Bool) : Connection :=
  match c.client with
  | none => c
  | some _ =>
    if c.sending = .ended then { c with client := none } else c.trySend (.text event) late

def rejection (client : ClientInfo) (now : ℕ) (valid : Bool) : Option (RealtimeError × String) :=
  if heartbeatTimeout < now - client.lastPing then some (.heartbeatTimeout, "heartbeat timeout")
  else if valid then none
  else some (.authExpired, "token expired")

def ping (now : ℕ) : WebSocketMessage :=
  ⟨"ping", .object [("timestamp", .number (toString now))]⟩

/-- The tick visits the entry. -/
def heartbeatTick (c : Connection) (now : ℕ) (valid : Bool) : Connection :=
  match c.client with
  | none => c
  | some client =>
    match rejection client now valid with
    | some (e, reason) =>
      { c.trySend (terminalRealtimeError e reason) false with
        toRemove := true
        rejected := some e }
    | none =>
      { c.trySend (.text (ping now)) false with
        toRemove := c.sending = .ended }

def showOpenRequest (data : Json) : WebSocketMessage :=
  let id := ((data.get "id").bind Json.asStr).getD ""
  let inner := (data.get "data").getD .null
  let properties := ((inner.get "properties").bind Json.asArray).getD []
  let hasOpenFile := properties.any fun v => v.asStr = some "openFile"
  let hasOpenDirectory := properties.any fun v => v.asStr = some "openDirectory"
  ⟨"show-open-request", .object [("id", .string id), ("properties", .array properties),
    ("isFileMode", .bool (hasOpenFile && !hasOpenDirectory))]⟩

def isBlank (s : String) : Bool := s.toList.all Char.isWhitespace

/-- The parser of the envelope and the business router, which says whether it knows the name. -/
structure Handlers where
  parse : String → Option WebSocketMessage
  route : String → Json → Bool

variable (handlers : Handlers)

def routedName (text : String) : Option String :=
  (handlers.parse text).bind fun msg =>
    if isBlank msg.name || msg.name = "pong" || msg.name = "subscribe-show-open" then none
    else some msg.name

def handleTextMessage (c : Connection) (text : String) (now : ℕ) : Connection :=
  let late := c.rejected.isSome
  match handlers.parse text with
  | none => c.sendTo RealtimeError.invalidMessage.intoEvent late
  | some msg =>
    if isBlank msg.name then c.sendTo RealtimeError.invalidMessage.intoEvent late
    else if msg.name = "pong" then
      { c with client := c.client.map fun client => { client with lastPing := now } }
    else if msg.name = "subscribe-show-open" then c.sendTo (showOpenRequest msg.data) late
    else
      let c := { c with routedLate := if late then c.routedLate ++ [msg.name] else c.routedLate }
      if handlers.route msg.name msg.data then c
      else c.sendTo RealtimeError.unsupportedMessage.intoEvent late

def hangUp (c : Connection) : Connection :=
  { c with receiving := false, sending := .ended, queue := [], client := none }

def recv (c : Connection) (now : ℕ) : Frame → Connection
  | .text text => c.handleTextMessage handlers text now
  | .close | .error => c.hangUp
  | .other => c

/-- The send loop writes the next frame and ends if the socket does not take it. -/
def write (c : Connection) (ok : Bool) : Connection :=
  let ended := { c with sending := .ended, queue := [] }
  match c.sending with
  | .ended => c
  | .closing => if ok then { c with sending := .running, closeSent := true } else ended
  | .running =>
    match c.queue with
    | [] => c
    | next :: rest =>
      if ok && !c.closeSent then
        { c with
          queue := rest
          delivered := c.delivered ++ [next]
          sending := if next.outbound.closes then .closing else .running }
      else ended

def fire (c : Connection) : ConnectionStep → Connection
  | .tick now valid => c.heartbeatTick now valid
  | .removeVisited => { c with toRemove := false, client := none }
  | .broadcast event => c.sendTo event false
  | .read frame now => c.recv handlers now frame
  | .write ok => c.write ok

/-- A tick is over before the next begins. -/
def machine : Machine Connection ConnectionStep where
  start c := ∃ token now, c = opened token now
  admits c
    | .tick _ _ => c.toRemove = false
    | .removeVisited => c.toRemove = true
    | .broadcast _ => True
    | .read _ _ => c.receiving = true
    | .write _ => True
  fire := fire handlers

def terminated (c : Connection) : Bool := c.sending = .closing || c.closeSent

/-- A tick closes the connection only with room in its queue and its send loop alive; from then on
no frame is read that goes to the router, and the terminal error can be written. -/
def Heeded (c : Connection) : ConnectionStep → Prop
  | .tick now valid => ∀ client ∈ c.client, rejection client now valid ≠ none →
      c.sending ≠ .ended ∧ c.queue.length < perConnectionBuffer
  | .read (.text text) _ => c.rejected ≠ none → routedName handlers text = none
  | .read .close _ | .read .error _ => c.rejected ≠ none → c.terminated = true
  | .write ok => c.rejected ≠ none → ok = true ∨ c.terminated = true
  | _ => True

instance decidableAdmits : ∀ c step, Decidable ((machine handlers).admits c step) := by
  intro c step
  cases step <;> (simp only [machine]; infer_instance)

instance decidableHeeded : ∀ c step, Decidable (Heeded handlers c step) := by
  intro c step
  cases step with
  | read frame now => cases frame <;> (simp only [Heeded]; infer_instance)
  | tick | removeVisited | broadcast | write => simp only [Heeded]; infer_instance

def upToClose : List Queued → List Queued
  | [] => []
  | q :: rest => if q.outbound.closes then [q] else q :: upToClose rest

/-- What the client has received, and what will still be written to it. -/
def outcome (c : Connection) : List Queued :=
  c.delivered ++ if c.sending = .running ∧ c.closeSent = false then upToClose c.queue else []

/-- Once a tick has closed the connection: no text frame read later was routed or is answered, and
the terminal error is the last event that the client receives. -/
def Dead (c : Connection) : Prop :=
  ∀ e, c.rejected = some e → c.routedLate = [] ∧ (∀ q ∈ c.outcome, q.late = false) ∧
    ∃ q, c.outcome.getLast? = some q ∧ q.outbound.event = e.intoEvent

variable {handlers} {c : Connection} {i : ConnectionStep} {e : RealtimeError}

/-- The terminal error stands in the queue behind texts. -/
structure Waiting (c : Connection) (e : RealtimeError) : Prop where
  running : c.sending = .running
  unclosed : c.closeSent = false
  queued : ∃ before last after, c.queue = before ++ last :: after ∧
    (∀ q ∈ before, q.outbound.closes = false ∧ q.late = false) ∧
    last.outbound.closes = true ∧ last.late = false ∧ last.outbound.event = e.intoEvent

/-- The terminal error was the last event written, and nothing is written after it. -/
structure Done (c : Connection) (e : RealtimeError) : Prop where
  quiet : c.sending ≠ .running ∨ c.closeSent = true
  last : ∃ q, c.delivered.getLast? = some q ∧ q.outbound.event = e.intoEvent

/-- Before a tick has closed the connection only texts are queued; after it the entry is, or is
about to be, removed, and the terminal error is queued or written. -/
structure Kept (c : Connection) : Prop where
  delivered : ∀ q ∈ c.delivered, q.late = false
  routed : c.routedLate = []
  texts : c.rejected = none → (∀ q ∈ c.queue, q.outbound.closes = false ∧ q.late = false) ∧
    c.closeSent = false ∧ c.sending ≠ .closing
  removed : c.rejected ≠ none → c.toRemove = true ∨ c.client = none
  terminal : ∀ e, c.rejected = some e → c.Waiting e ∨ c.Done e

theorem kept_opened (token : String) (now : ℕ) : (opened token now).Kept :=
  ⟨fun q h => (by cases h), rfl, fun _ => ⟨fun q h => (by cases h), rfl, fun h => (by cases h)⟩,
    fun h => absurd rfl h, fun e h => (by cases h)⟩

theorem Waiting.push (h : c.Waiting e) (q : Queued) :
    { c with queue := c.queue ++ [q] }.Waiting e := by
  obtain ⟨before, last, after, hqueue, hbefore, hlast⟩ := h.queued
  refine ⟨h.running, h.unclosed, before, last, after ++ [q], ?_, hbefore, hlast⟩
  rw [hqueue, List.append_assoc, List.cons_append]

section

variable (h : c.Kept)
include h

/-- Texts may be queued at any time. -/
theorem Kept.push {event : WebSocketMessage} {late : Bool}
    (hlate : c.rejected = none → late = false) :
    { c with queue := c.queue ++ [(⟨.text event, late⟩ : Queued)] }.Kept := by
  refine ⟨h.delivered, h.routed, fun hnone => ⟨fun q hq => ?_, (h.texts hnone).2⟩, h.removed,
    fun e he => ?_⟩
  swap
  · exact (h.terminal e he).imp (fun hwaiting => hwaiting.push _) fun hdone =>
      ⟨hdone.quiet, hdone.last⟩
  obtain hq | hq := List.mem_append.mp hq
  · exact (h.texts hnone).1 q hq
  · rw [List.mem_singleton.mp hq]
    exact ⟨rfl, hlate hnone⟩

theorem Kept.entry {client : Option ClientInfo} {visited receiving : Bool}
    (hremoved : c.rejected ≠ none → visited = true ∨ client = none) :
    { c with client := client, toRemove := visited, receiving := receiving }.Kept :=
  ⟨h.delivered, h.routed, h.texts, hremoved,
    fun e he => (h.terminal e he).imp (fun hw => ⟨hw.running, hw.unclosed, hw.queued⟩)
      fun hd => ⟨hd.quiet, hd.last⟩⟩

theorem Kept.sendTo (event : WebSocketMessage) {late : Bool}
    (hlate : c.rejected = none → late = false) : (c.sendTo event late).Kept := by
  unfold Connection.sendTo
  cases c.client with
  | none => exact h
  | some client =>
    simp only
    split
    · exact h.entry fun _ => .inr rfl
    · unfold trySend
      split
      · exact h
      · exact h.push hlate

/-- A frame that is not for the router is at most answered. -/
theorem Kept.handleTextMessage {text : String} {now : ℕ}
    (hheeded : c.rejected ≠ none → routedName handlers text = none) :
    (c.handleTextMessage handlers text now).Kept := by
  have hlate : c.rejected = none → c.rejected.isSome = false := fun hnone => by rw [hnone]; rfl
  unfold Connection.handleTextMessage
  cases hparse : handlers.parse text with
  | none => exact h.sendTo _ hlate
  | some msg =>
    simp only
    split
    · exact h.sendTo _ hlate
    · rename_i hblank
      split
      · exact h.entry fun hr => (h.removed hr).imp_right fun hnone => by rw [hnone]; rfl
      · rename_i hpong
        split
        · exact h.sendTo _ hlate
        · rename_i hshow
          have hname : routedName handlers text = some msg.name := by
            simp [routedName, hparse, hblank, hpong, hshow]
          -- the text is for the router, so the connection is not closed yet
          have hnone : c.rejected = none := by
            by_contra hrejected
            rw [hheeded hrejected] at hname
            cases hname
          have hsame : { c with routedLate := if c.rejected.isSome then
              c.routedLate ++ [msg.name] else c.routedLate } = c := by
            rw [hlate hnone, if_neg Bool.false_ne_true]
          rw [hsame]
          split
          · exact h
          · exact h.sendTo _ hlate

/-- The tick that closes the connection queues the terminal error behind texts. -/
theorem Kept.tick {now : ℕ} {valid : Bool} (hvisit : c.toRemove = false)
    (hheeded : ∀ client ∈ c.client, rejection client now valid ≠ none →
      c.sending ≠ .ended ∧ c.queue.length < perConnectionBuffer) :
    (c.heartbeatTick now valid).Kept := by
  unfold heartbeatTick
  cases hclient : c.client with
  | none => exact h
  | some client =>
    -- a connection that was closed is visited no more
    have hnone : c.rejected = none := by
      by_contra hrejected
      obtain htrue | hgone := h.removed hrejected
      · rw [hvisit] at htrue
        cases htrue
      · rw [hclient] at hgone
        cases hgone
    simp only
    cases hrejection : rejection client now valid with
    | none =>
      have hping : (c.trySend (.text (ping now)) false).Kept := by
        unfold trySend
        split
        · exact h
        · exact h.push fun _ => rfl
      have hrejected : (c.trySend (.text (ping now)) false).rejected = none := by
        unfold trySend
        split <;> exact hnone
      refine ⟨hping.delivered, hping.routed, hping.texts, fun hr => absurd hrejected hr,
        fun e he => ?_⟩
      cases hrejected.symm.trans he
    | some found =>
      obtain ⟨e, reason⟩ := found
      have hsome : rejection client now valid ≠ none := by
        rw [hrejection]
        exact Option.some_ne_none _
      obtain ⟨halive, hroom⟩ := hheeded client hclient hsome
      obtain ⟨htexts, hunclosed, hclosing⟩ := h.texts hnone
      have hrunning : c.sending = .running := by
        cases hsending : c.sending with
        | running => rfl
        | closing => exact absurd hsending hclosing
        | ended => exact absurd hsending halive
      have hsent : c.trySend (terminalRealtimeError e reason) false =
          { c with queue := c.queue ++ [⟨terminalRealtimeError e reason, false⟩] } := by
        rw [trySend, if_neg]
        simp [hrunning, hroom]
      simp only [hsent]
      refine ⟨h.delivered, h.routed, fun hr => (by cases hr), fun _ => .inl rfl, fun e' he' => ?_⟩
      obtain rfl := Option.some.inj he'
      exact .inl ⟨hrunning, hunclosed, c.queue, ⟨terminalRealtimeError e reason, false⟩, [], rfl,
        htexts, rfl, rfl, rfl⟩

theorem Kept.done (he : c.rejected = some e) (hterminated : c.terminated = true) :
    c.Done e := by
  obtain hwaiting | hdone := h.terminal e he
  · simp [terminated, hwaiting.running, hwaiting.unclosed] at hterminated
  · exact hdone

theorem Kept.end (hdone : ∀ e, c.rejected = some e → c.Done e) :
    { c with sending := .ended, queue := [] }.Kept :=
  ⟨h.delivered, h.routed, fun hnone => ⟨fun q hq => (by cases hq), (h.texts hnone).2.1,
    fun hclosing => (by cases hclosing)⟩, h.removed,
    fun e he => .inr ⟨.inl fun hrunning => (by cases hrunning), (hdone e he).last⟩⟩

theorem Kept.hangUp (hheeded : c.rejected ≠ none → c.terminated = true) :
    c.hangUp.Kept := by
  have hended := h.end fun e he => h.done he (hheeded (he ▸ Option.some_ne_none e))
  exact hended.entry fun _ => .inr rfl

/-- The next text, or the terminal error, is written. -/
theorem Kept.deliver {next : Queued} {rest : List Queued} (hsending : c.sending = .running)
    (hunclosed : c.closeSent = false) (hqueue : c.queue = next :: rest) :
    { c with
      queue := rest
      delivered := c.delivered ++ [next]
      sending := if next.outbound.closes then .closing else .running }.Kept := by
  have hdelivered : ∀ {q : Queued}, next.late = false → q ∈ c.delivered ++ [next] →
      q.late = false := by
    intro q hnext hq
    obtain hq | hq := List.mem_append.mp hq
    · exact h.delivered q hq
    · rw [List.mem_singleton.mp hq]
      exact hnext
  by_cases hrejected : c.rejected = none
  · obtain ⟨htexts, -, -⟩ := h.texts hrejected
    obtain ⟨hnext, hlate⟩ := htexts next (by rw [hqueue]; exact List.mem_cons_self)
    refine ⟨fun q hq => hdelivered hlate hq, h.routed, fun _ => ⟨fun q hq => ?_, hunclosed, ?_⟩,
      fun hr => absurd hrejected hr, fun e he => ?_⟩
    · exact htexts q (by rw [hqueue]; exact List.mem_cons_of_mem _ hq)
    · rw [hnext, if_neg Bool.false_ne_true]
      exact fun hclosing => (by cases hclosing)
    · cases hrejected.symm.trans he
  · obtain ⟨e, he⟩ := Option.ne_none_iff_exists'.mp hrejected
    -- either the terminal error is written now, or a text before it
    obtain hwaiting | hdone := h.terminal e he
    · obtain ⟨before, last, after, hsplit, hbefore, hcloses, hlate, hevent⟩ := hwaiting.queued
      cases before with
      | nil =>
        obtain ⟨rfl, rfl⟩ := List.cons.inj (hqueue.symm.trans hsplit)
        refine ⟨fun q hq => hdelivered hlate hq, h.routed, fun hr => absurd hr hrejected, h.removed,
          fun e' he' => .inr ⟨.inl ?_, next, List.getLast?_concat, ?_⟩⟩
        · rw [if_pos hcloses]
          exact fun hrunning => (by cases hrunning)
        · obtain rfl := Option.some.inj (he.symm.trans he')
          exact hevent
      | cons first before =>
        obtain ⟨rfl, rfl⟩ := List.cons.inj (hqueue.symm.trans hsplit)
        obtain ⟨hnext, hnextlate⟩ := hbefore next List.mem_cons_self
        refine ⟨fun q hq => hdelivered hnextlate hq, h.routed, fun hr => absurd hr hrejected,
          h.removed, fun e' he' => .inl ⟨?_, hunclosed, before, last, after, rfl,
            fun q hq => hbefore q (List.mem_cons_of_mem _ hq), hcloses, hlate, ?_⟩⟩
        · rw [hnext, if_neg Bool.false_ne_true]
        · obtain rfl := Option.some.inj (he.symm.trans he')
          exact hevent
    · obtain hstopped | hclosed := hdone.quiet
      · exact absurd hsending hstopped
      · rw [hunclosed] at hclosed
        cases hclosed

theorem Kept.write {ok : Bool} (hheeded : c.rejected ≠ none → ok = true ∨ c.terminated = true) :
    (c.write ok).Kept := by
  unfold Connection.write
  cases hsending : c.sending with
  | ended => exact h
  | closing =>
    have hterminated : c.terminated = true := by rw [terminated, hsending]; rfl
    cases ok with
    | false => exact h.end fun e he => h.done he hterminated
    | true =>
      refine ⟨h.delivered, h.routed, fun hnone => absurd hsending (h.texts hnone).2.2, h.removed,
        fun e he => .inr ⟨.inr rfl, (h.done he hterminated).last⟩⟩
  | running =>
    simp only
    split
    · exact h
    · rename_i next rest hqueue
      split
      · rename_i hwrite
        rw [Bool.and_eq_true, Bool.not_eq_true'] at hwrite
        exact h.deliver hsending hwrite.2 hqueue
      · rename_i hfails
        refine h.end fun e he => h.done he ?_
        obtain rfl | hterminated := hheeded (he ▸ Option.some_ne_none e)
        · -- the write fails over a socket that was closed
          rw [Bool.true_and, Bool.not_eq_true', Bool.not_eq_false] at hfails
          rw [terminated, hfails, Bool.or_true]
        · exact hterminated

theorem Kept.fire (hi : (machine handlers).admits c i) (hheeded : c.Heeded handlers i) :
    (c.fire handlers i).Kept := by
  cases i with
  | tick now valid => exact h.tick hi hheeded
  | removeVisited => exact h.entry fun _ => .inr rfl
  | broadcast event => exact h.sendTo event fun _ => rfl
  | read frame now =>
    cases frame with
    | text text => exact h.handleTextMessage hheeded
    | close => exact h.hangUp hheeded
    | other => exact h
    | error => exact h.hangUp hheeded
  | write ok => exact h.write hheeded

end

theorem upToClose_append {before after : List Queued} {last : Queued}
    (hbefore : ∀ q ∈ before, q.outbound.closes = false) (hlast : last.outbound.closes = true) :
    upToClose (before ++ last :: after) = before ++ [last] := by
  induction before with
  | nil => rw [List.nil_append, upToClose, if_pos hlast, List.nil_append]
  | cons q before ih =>
    have hq : ¬q.outbound.closes = true := by
      rw [hbefore q List.mem_cons_self]
      exact Bool.false_ne_true
    rw [List.cons_append, upToClose, if_neg hq,
      ih fun q' hq' => hbefore q' (List.mem_cons_of_mem _ hq')]
    rfl

theorem Kept.dead (h : c.Kept) : c.Dead := by
  intro e he
  refine ⟨h.routed, ?_⟩
  obtain hwaiting | hdone := h.terminal e he
  · obtain ⟨before, last, after, hqueue, hbefore, hcloses, hlate, hevent⟩ := hwaiting.queued
    have houtcome : c.outcome = (c.delivered ++ before) ++ [last] := by
      rw [outcome, if_pos ⟨hwaiting.running, hwaiting.unclosed⟩, hqueue,
        upToClose_append (fun q hq => (hbefore q hq).1) hcloses, List.append_assoc]
    rw [houtcome]
    refine ⟨fun q hq => ?_, last, List.getLast?_concat, hevent⟩
    obtain hq | hq := List.mem_append.mp hq
    · obtain hq | hq := List.mem_append.mp hq
      · exact h.delivered q hq
      · exact (hbefore q hq).2
    · rw [List.mem_singleton.mp hq]
      exact hlate
  · have houtcome : c.outcome = c.delivered := by
      have hquiet : ¬(c.sending = .running ∧ c.closeSent = false) := by
        rintro ⟨hrunning, hunclosed⟩
        obtain hstopped | hclosed := hdone.quiet
        · exact hstopped hrunning
        · rw [hunclosed] at hclosed
          cases hclosed
      rw [outcome, if_neg hquiet, List.append_nil]
    rw [houtcome]
    exact ⟨h.delivered, hdone.last⟩

/-- Two messages of a client, and a router that knows the second. -/
def pongOrRun : Handlers where
  parse text :=
    if text = "\x7b\"name\":\"pong\",\"data\":\x7b\x7d\x7d" then some ⟨"pong", .object []⟩
    else if text = "\x7b\"name\":\"run\",\"data\":\x7b\x7d\x7d" then some ⟨"run", .object []⟩
    else none
  route name _ := name = "run"

end Connection

end AionCore.Realtime
