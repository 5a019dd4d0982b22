import AionCore.Conversation.RelaySummary

/-!
# Conversations: the error of a send

The receive step of `StreamRelay::consume_inner`. Beside the events of the broadcast channel the
relay takes the result of the send task; its error is held back while the channel still has
events, and then taken for the last event of the stream.
-/

namespace AionCore.Conversation

/-- What the broadcast channel has in store for the relay. -/
inductive ChannelItem where
  | event (event : AgentStreamEvent)
  /-- `Lagged`, with the events that are lost. -/
  | lagged (lost : List AgentStreamEvent)

namespace ChannelItem

def signal : ChannelItem → RelaySignal
  | .event e => .event e
  | .lagged lost => .lagged lost

def isLagged : ChannelItem → Bool
  | .event _ => false
  | .lagged _ => true

def terminal : ChannelItem → Option AgentStreamEvent
  | .event e => if e.isTerminal then some e else none
  | .lagged _ => none

end ChannelItem

/-- The loop of `consume_inner`: the channel and whether its senders are gone, what has come of the
send error, and the other local variables. -/
structure RelayLoop where
  channel : List ChannelItem
  closed : Bool
  sendErrorDone : Bool
  pendingSendError : Option ErrorEventData
  state : RelayState

namespace RelayLoop

/-- `rx.recv()`; there is no signal while it waits. -/
def recv (w : RelayLoop) : Option RelaySignal × RelayLoop :=
  match w.channel with
  | item :: channel => (some item.signal, { w with channel })
  | [] => (if w.closed then some .closed else none, w)

/-- The result of the send task is selected; there is no error if the task has dropped it. -/
def takeSendError (w : RelayLoop) (sendError : Option ErrorEventData) : RelayLoop :=
  { w with sendErrorDone := true, pendingSendError := sendError }

/-- `recv_result`; while the send task runs, its result has not been selected. -/
def receive (w : RelayLoop) : Option RelaySignal × RelayLoop :=
  if w.sendErrorDone then
    match w.pendingSendError with
    | some sendError =>
      let taken := { w with pendingSendError := none }
      -- `rx.try_recv()`
      match w.channel with
      | .event event :: channel =>
        (some (.event event), { taken with
          channel
          pendingSendError := if event.isTerminal then none else some sendError })
      | [] => (some (.event (.error sendError)), taken)
      -- the error is not put back
      | .lagged lost :: channel => (some (.lagged lost), { taken with channel })
    | none => w.recv
  else w.recv

variable (relay : StreamRelay)

/-- A turn of the loop that receives; the signal is what is received. -/
def turn (w : RelayLoop) (received : Received) : RelayLoop × Option RelayOutcome :=
  match w.receive with
  | (none, w) => (w, none)
  | (some signal, w) =>
    let (state, outcome) := relay.step w.state { received with signal }
    ({ w with state }, outcome)

def turns : List Received → RelayLoop → RelayLoop × Option RelayOutcome
  | [], w => (w, none)
  | received :: rest, w =>
    match w.turn relay received with
    | (w, some outcome) => (w, some outcome)
    | (w, none) => turns rest w

end RelayLoop

def RelayOutcome.EndsWith (outcome : RelayOutcome) : AgentStreamEvent → Prop
  | .finish => outcome.terminal = .finish
  | .error data => outcome.terminal = .error data.code data.retryable ∧
    outcome.attempt.terminalError = some data
  | _ => False

namespace RelayLoop

/-- After as many turns as the channel has items, and one more, the relay has returned: with the
channel's own terminal event if there is one, and otherwise with the send error. -/
def EndsTurn (relay : StreamRelay) (w : RelayLoop) (sendError : ErrorEventData) : Prop :=
  ∀ receiveds : List Received, receiveds.length = w.channel.length + 1 →
    ∃ outcome, (w.turns relay receiveds).2 = some outcome ∧
      outcome.EndsWith ((w.channel.findSome? ChannelItem.terminal).getD (.error sendError))

variable {relay : StreamRelay} {w : RelayLoop} {received : Received} {rest : List Received}
  {event : AgentStreamEvent}

/-- A terminal event ends the relay. -/
theorem step_terminal (relay : StreamRelay) (s : RelayState) (received : Received)
    (hevent : event.isTerminal = true) :
    ∃ outcome, (relay.step s { received with signal := .event event }).2 = some outcome ∧
      outcome.EndsWith event := by
  have hstep : relay.step s { received with signal := .event event } =
      s.handle relay { received with signal := .event event } event := by
    rw [StreamRelay.step]
    simp only [hevent, Bool.not_true, Bool.and_false, Bool.false_eq_true, if_false]
  rw [hstep]
  cases event with
  | finish => exact ⟨_, rfl, rfl⟩
  | error data =>
    rw [RelayState.handle, RelayState.handleError]
    split
    · exact ⟨_, rfl, rfl, rfl⟩
    · exact ⟨_, rfl, rfl, rfl⟩
  | _ => cases hevent

/-- Nothing else from the channel does. -/
theorem step_goes_on (relay : StreamRelay) (s : RelayState) (received : Received)
    {item : ChannelItem} (hitem : item.terminal = none) :
    (relay.step s { received with signal := item.signal }).2 = none := by
  cases item with
  | lagged lost => rfl
  | event event =>
    have hevent : event.isTerminal = false := by
      rw [ChannelItem.terminal] at hitem
      by_contra hterminal
      rw [if_pos (Bool.not_eq_false _ ▸ hterminal)] at hitem
      cases hitem
    rw [ChannelItem.signal, StreamRelay.step]
    dsimp only
    split
    · rfl
    · exact (Notes.handle relay s _ hevent).1

variable {outcome : RelayOutcome} {signal : RelaySignal} {w' : RelayLoop}

theorem turns_returns (hreceive : w.receive = (some signal, w'))
    (hstep : (relay.step w'.state { received with signal }).2 = some outcome) :
    (w.turns relay (received :: rest)).2 = some outcome := by
  rw [turns, turn, hreceive]
  dsimp only
  rw [hstep]

theorem turns_goes_on (hreceive : w.receive = (some signal, w'))
    (hstep : (relay.step w'.state { received with signal }).2 = none) :
    (w.turns relay (received :: rest)).2 = (RelayLoop.turns relay rest
      { w' with state := (relay.step w'.state { received with signal }).1 }).2 := by
  rw [turns, turn, hreceive]
  dsimp only
  rw [hstep]

theorem turns_waits (hreceive : w.receive = (none, w)) :
    (w.turns relay (received :: rest)).2 = (w.turns relay rest).2 := by
  rw [turns, turn, hreceive]

def keep (pending : Option ErrorEventData) : ChannelItem → Option ErrorEventData
  | .event e => if e.isTerminal then none else pending
  | .lagged _ => none

variable {item : ChannelItem} {channel : List ChannelItem} {closed : Bool}
  {pending : Option ErrorEventData} {sendError : ErrorEventData} {state : RelayState}

theorem keep_none (item : ChannelItem) : keep none item = none := by
  cases item with
  | event e => exact ite_self none
  | lagged lost => rfl

theorem keep_of_lagged (pending : Option ErrorEventData) (h : item.isLagged = true) :
    keep pending item = none := by
  cases item with
  | event e => cases h
  | lagged lost => rfl

theorem keep_of_event (pending : Option ErrorEventData) (hitem : item.terminal = none)
    (h : item.isLagged = false) : keep pending item = pending := by
  cases item with
  | lagged lost => cases h
  | event e =>
    rw [ChannelItem.terminal] at hitem
    rw [keep]
    split
    · next hterminal =>
      rw [if_pos hterminal] at hitem
      cases hitem
    · rfl

theorem receive_item : (RelayLoop.mk (item :: channel) closed true pending state).receive =
    (some item.signal, ⟨channel, closed, true, keep pending item, state⟩) := by
  cases pending with
  | none =>
    rw [keep_none]
    rfl
  | some sendError => cases item <;> rfl

theorem turns_item (hitem : item.terminal = none) :
    ((RelayLoop.mk (item :: channel) closed true pending state).turns relay
      (received :: rest)).2 = ((RelayLoop.mk channel closed true (keep pending item)
        (relay.step state { received with signal := item.signal }).1).turns relay rest).2 :=
  turns_goes_on receive_item (step_goes_on relay state received hitem)

theorem eq_event_of_terminal (h : item.terminal = some event) :
    item = .event event ∧ event.isTerminal = true := by
  cases item with
  | lagged lost => cases h
  | event e =>
    rw [ChannelItem.terminal] at h
    split at h
    · next hterminal =>
      obtain rfl := Option.some.inj h
      exact ⟨rfl, hterminal⟩
    · cases h

variable {receiveds : List Received}

/-- The channel's own terminal event ends the turn, whatever is pending. -/
theorem turns_terminal (hchannel : channel.findSome? ChannelItem.terminal = some event)
    (hlength : receiveds.length = channel.length + 1) :
    ∃ outcome, ((RelayLoop.mk channel closed true pending state).turns relay receiveds).2 =
      some outcome ∧ outcome.EndsWith event := by
  induction channel generalizing pending state receiveds with
  | nil => cases hchannel
  | cons item channel ih =>
    obtain _ | ⟨received, rest⟩ := receiveds
    · cases hlength
    · cases hitem : item.terminal with
      | none =>
        rw [List.findSome?_cons, hitem] at hchannel
        rw [turns_item hitem]
        exact ih hchannel (Nat.succ.inj hlength)
      | some e =>
        rw [List.findSome?_cons, hitem] at hchannel
        obtain rfl := Option.some.inj hchannel
        obtain ⟨rfl, hterminal⟩ := eq_event_of_terminal hitem
        obtain ⟨outcome, hstep, hends⟩ := step_terminal relay state received hterminal
        exact ⟨outcome, turns_returns receive_item hstep, hends⟩

/-- Without a terminal event and without a lag the pending error comes last. -/
theorem turns_pending (hchannel : channel.findSome? ChannelItem.terminal = none)
    (hlagged : ∀ item ∈ channel, item.isLagged = false)
    (hlength : receiveds.length = channel.length + 1) :
    ∃ outcome, ((RelayLoop.mk channel closed true (some sendError) state).turns relay
      receiveds).2 = some outcome ∧ outcome.EndsWith (.error sendError) := by
  induction channel generalizing state receiveds with
  | nil =>
    obtain _ | ⟨received, rest⟩ := receiveds
    · cases hlength
    · have hterminal : (AgentStreamEvent.error sendError).isTerminal = true := rfl
      obtain ⟨outcome, hstep, hends⟩ := step_terminal relay state received hterminal
      exact ⟨outcome, turns_returns rfl hstep, hends⟩
  | cons item channel ih =>
    obtain _ | ⟨received, rest⟩ := receiveds
    · cases hlength
    · have hnone := List.findSome?_eq_none_iff.mp hchannel
      have hitem := hnone item List.mem_cons_self
      rw [turns_item hitem, keep_of_event _ hitem (hlagged item List.mem_cons_self)]
      exact ih (List.findSome?_eq_none_iff.mpr fun other hother =>
        hnone other (List.mem_cons_of_mem _ hother))
        (fun other hother => hlagged other (List.mem_cons_of_mem _ hother)) (Nat.succ.inj hlength)

/-- With nothing pending only the end of the channel returns. -/
theorem turns_nothing_pending (hchannel : ∀ item ∈ channel, item.terminal = none)
    (h : ((RelayLoop.mk channel closed true none state).turns relay receiveds).2 = some outcome) :
    outcome.terminal = .channelClosed := by
  induction receiveds generalizing channel state with
  | nil => cases h
  | cons received rest ih =>
    cases channel with
    | cons item channel =>
      rw [turns_item (hchannel item List.mem_cons_self), keep_none] at h
      exact ih (fun other hother => hchannel other (List.mem_cons_of_mem _ hother)) h
    | nil =>
      cases closed with
      | true =>
        have hreturns : ((RelayLoop.mk [] true true none state).turns relay
            (received :: rest)).2 = some _ := turns_returns rfl rfl
        obtain rfl := Option.some.inj (hreturns.symm.trans h)
        rfl
      | false =>
        rw [turns_waits rfl] at h
        exact ih hchannel h

/-- A lag drops the pending error. -/
theorem turns_lagged (hchannel : ∀ item ∈ channel, item.terminal = none)
    (hlagged : ∃ item ∈ channel, item.isLagged = true)
    (h : ((RelayLoop.mk channel closed true (some sendError) state).turns relay receiveds).2 =
      some outcome) :
    outcome.terminal = .channelClosed := by
  induction receiveds generalizing channel state with
  | nil => cases h
  | cons received rest ih =>
    cases channel with
    | nil =>
      obtain ⟨item, hitem, -⟩ := hlagged
      cases hitem
    | cons item channel =>
      have hothers : ∀ other ∈ channel, other.terminal = none :=
        fun other hother => hchannel other (List.mem_cons_of_mem _ hother)
      have hitem := hchannel item List.mem_cons_self
      rw [turns_item hitem] at h
      cases hlag : item.isLagged with
      | true =>
        rw [keep_of_lagged _ hlag] at h
        exact turns_nothing_pending hothers h
      | false =>
        rw [keep_of_event _ hitem hlag] at h
        obtain ⟨other, hother, hlost⟩ := hlagged
        rcases List.mem_cons.mp hother with rfl | hother
        · cases hlag.symm.trans hlost
        · exact ih hothers ⟨other, hother, hlost⟩ h

/-- The turn ends once the send error has been taken, exactly if the channel then holds a terminal
event or has not lagged. -/
theorem send_error_ends_turn (relay : StreamRelay) (w : RelayLoop) (sendError : ErrorEventData) :
    (w.takeSendError (some sendError)).EndsTurn relay sendError ↔
      (∀ item ∈ w.channel, item.isLagged = false) ∨ ∃ item ∈ w.channel, item.terminal.isSome := by
  obtain ⟨channel, closed, sendErrorDone, pending, state⟩ := w
  show (∀ receiveds : List Received, receiveds.length = channel.length + 1 → ∃ outcome,
    ((RelayLoop.mk channel closed true (some sendError) state).turns relay receiveds).2 =
        some outcome ∧
      outcome.EndsWith ((channel.findSome? ChannelItem.terminal).getD (.error sendError))) ↔ _
  cases hchannel : channel.findSome? ChannelItem.terminal with
  | some event =>
    obtain ⟨item, hitem, hterminal⟩ := List.exists_of_findSome?_eq_some hchannel
    refine iff_of_true (fun receiveds hlength => turns_terminal hchannel hlength)
      (.inr ⟨item, hitem, ?_⟩)
    rw [hterminal]
    rfl
  | none =>
    have hnone := List.findSome?_eq_none_iff.mp hchannel
    constructor
    · intro hends
      left
      by_contra hlagged
      push Not at hlagged
      obtain ⟨item, hitem, hlag⟩ := hlagged
      obtain ⟨outcome, houtcome, hend⟩ := hends
        (List.replicate (channel.length + 1) (.under .active .closed)) (List.length_replicate)
      have hclosed := turns_lagged hnone ⟨item, hitem, Bool.eq_true_of_not_eq_false hlag⟩ houtcome
      cases hclosed.symm.trans hend.1
    · rintro (hlagged | ⟨item, hitem, hterminal⟩) receiveds hlength
      · exact turns_pending hchannel hlagged hlength
      · rw [hnone item hitem] at hterminal
        cases hterminal

/-- The relay of a send that has failed after the channel has lagged: it waits on. -/
theorem lag_drops_send_error :
    ∃ (relay : StreamRelay) (w : RelayLoop) (sendError : ErrorEventData),
      ¬(w.takeSendError (some sendError)).EndsTurn relay sendError := by
  refine ⟨⟨"x", false, .tallyOf 'x', fun text => ⟨text, []⟩, fun _ json => json⟩,
    ⟨[.lagged [.text "a"], .event (.text "b")], false, false, none, .start 1⟩,
    ⟨"the agent has exited", none, none⟩, fun hends => ?_⟩
  obtain ⟨outcome, houtcome, -⟩ :=
    hends (List.replicate 3 (.under .active .closed)) rfl
  cases houtcome

end RelayLoop

end AionCore.Conversation
