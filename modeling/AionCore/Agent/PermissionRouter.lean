import AionCore.Lib.Dict
import AionCore.Lib.Machine
import AionCore.Lib.Tickets

/-!
# ACP agents: permission requests

`PermissionRouter` of `permission_router.rs`. The handler loop takes one request at a time and gives
up the lock between registering it, emitting its event and taking it back when nobody listens;
`confirm`, `cancel_all` and `set_closing` may come in between.
-/

namespace AionCore.Agent

inductive PermissionOptionKind where
  | allowOnce
  | allowAlways
  | rejectOnce
  | rejectAlways
  deriving DecidableEq

structure PermissionOption where
  kind : PermissionOptionKind
  optionId : String

/-- What the router reads of a request; `rawServerName` is the text under `server_name` of the raw
input. -/
structure PermissionRequest where
  toolCallId : String
  title : Option String
  rawServerName : Option String
  options : List PermissionOption

inductive PermissionDecision where
  | selected (optionId : String)
  | cancelled

namespace PermissionRequest

def autoApproveMcpServers : List String := ["aionui-team"]

/-- What comes before and after the first `__`. -/
def splitOnce : List Char → Option (List Char × List Char)
  | [] => none
  | c :: rest =>
    if ['_', '_'].isPrefixOf (c :: rest) then some ([], rest.drop 1)
    else (splitOnce rest).map fun split => (c :: split.1, split.2)

def extractMcpServerFromPrefixedTitle (title : String) : Option String :=
  if "mcp__".toList.isPrefixOf title.toList then
    match splitOnce (title.toList.drop 5) with
    | some (serverName, toolName) =>
      if serverName.isEmpty || toolName.isEmpty then none else some (String.ofList serverName)
    | none => none
  else none

variable (request : PermissionRequest)

def extractMcpServerFromRawInput : Option String := request.rawServerName.filter (· ≠ "")

def extractMcpServerName : Option String :=
  request.extractMcpServerFromRawInput.or (request.title.bind extractMcpServerFromPrefixedTitle)

def selectAllowOptionId : Option String :=
  ((request.options.find? (·.kind = .allowAlways)).or
    (request.options.find? (·.kind = .allowOnce))).map PermissionOption.optionId

def autoApproveOptionId : Option String :=
  match request.extractMcpServerName with
  | some serverName =>
    if serverName ∈ autoApproveMcpServers then request.selectAllowOptionId else none
  | none => none

end PermissionRequest

/-- Where the handler loop is; a request goes by its number. -/
inductive RouterStage where
  | idle
  | received (request : ℕ)
  | registered (request : ℕ) (callId : String)
  | unheard (request : ℕ) (callId : String)
  deriving DecidableEq

def RouterStage.unrouted : RouterStage → List ℕ
  | .received n => [n]
  | _ => []

/-- A decision sent to a request. -/
structure Answer where
  request : ℕ
  decision : PermissionDecision

/-- A call of `confirm`, and the request that was pending under the call id when it was made. -/
structure Confirmation where
  callId : String
  optionId : String
  pending : Option ℕ

/-- The router with the requests received, the answers sent and the confirmations made; `closed`
says that `cancel_all` has run after `set_closing`. -/
structure PermissionRouter where
  pendingPermissions : Dict String ℕ
  closing : Bool
  stage : RouterStage
  received : List PermissionRequest
  answers : List Answer
  confirmations : List Confirmation
  closed : Bool

inductive RouterStep where
  | receive (request : PermissionRequest)
  | route
  | emit (heard : Bool)
  | drop
  | confirm (callId optionId : String)
  | cancelAll
  | setClosing

namespace PermissionRouter

def new : PermissionRouter := ⟨∅, false, .idle, [], [], [], false⟩

def answer (w : PermissionRouter) (requests : List ℕ) (decision : PermissionDecision) :
    PermissionRouter :=
  { w with answers := w.answers ++ requests.map fun request => ⟨request, decision⟩ }

def routeRequest (w : PermissionRouter) (n : ℕ) (request : PermissionRequest) : PermissionRouter :=
  match request.autoApproveOptionId with
  | some optionId => { w.answer [n] (.selected optionId) with stage := .idle }
  | none =>
    let previous := w.pendingPermissions.lookup request.toolCallId
    { w.answer previous.toList .cancelled with
      pendingPermissions := w.pendingPermissions.insert request.toolCallId n
      stage := .registered n request.toolCallId }

/-- What is pending under the call id is taken out and answered. -/
def take (w : PermissionRouter) (callId : String) (decision : PermissionDecision) :
    PermissionRouter :=
  { w.answer (w.pendingPermissions.lookup callId).toList decision with
    pendingPermissions := w.pendingPermissions.erase callId }

def confirm (w : PermissionRouter) (callId optionId : String) : PermissionRouter :=
  let confirmation := ⟨callId, optionId, w.pendingPermissions.lookup callId⟩
  { w.take callId (.selected optionId) with confirmations := w.confirmations ++ [confirmation] }

def cancelAll (w : PermissionRouter) : PermissionRouter :=
  { w.answer w.pendingPermissions.values .cancelled with
    pendingPermissions := ∅
    closed := w.closed || w.closing }

def fire (w : PermissionRouter) : RouterStep → PermissionRouter
  | .receive request =>
    { w with received := w.received ++ [request], stage := .received w.received.length }
  | .route =>
    match w.stage with
    | .received n =>
      match w.received[n]? with
      | some request => w.routeRequest n request
      | none => w
    | _ => w
  | .emit heard =>
    match w.stage with
    | .registered n callId => { w with stage := if heard then .idle else .unheard n callId }
    | _ => w
  | .drop =>
    match w.stage with
    | .unheard _ callId => { w.take callId .cancelled with stage := .idle }
    | _ => w
  | .confirm callId optionId => w.confirm callId optionId
  | .cancelAll => w.cancelAll
  | .setClosing => { w with closing := true }

def handled (w : PermissionRouter) : Option ℕ :=
  match w.stage with
  | .idle => none
  | .received n | .registered n _ | .unheard n _ => some n

/-- The handler takes its next step; the other calls come at any time. -/
def machine : Machine PermissionRouter RouterStep where
  start w := w = .new
  admits w
    | .receive _ => w.stage = .idle
    | .route => ∃ n, w.stage = .received n
    | .emit _ => ∃ n callId, w.stage = .registered n callId
    | .drop => ∃ n callId, w.stage = .unheard n callId
    | _ => True
  fire := fire

def awaitsAnswer (w : PermissionRouter) : Bool :=
  match w.stage with
  | .registered n callId => w.pendingPermissions.lookup callId = some n
  | _ => false

/-- Once the router is closed, no listener is handed a request that is still pending. -/
def Refused (w : PermissionRouter) : RouterStep → Prop
  | .emit heard => heard = true → w.closed = true → w.awaitsAnswer = false
  | _ => True

instance decidableAdmits : ∀ w step, Decidable (machine.admits w step) := by
  intro w step
  cases step with
  | receive request => exact inferInstanceAs (Decidable (w.stage = .idle))
  | route =>
    exact decidable_of_iff ((match w.stage with | .received _ => true | _ => false) = true) (by
      show _ ↔ ∃ n, w.stage = .received n
      cases w.stage <;> simp)
  | emit heard =>
    exact decidable_of_iff ((match w.stage with | .registered _ _ => true | _ => false) = true) (by
      show _ ↔ ∃ n callId, w.stage = .registered n callId
      cases w.stage <;> simp)
  | drop =>
    exact decidable_of_iff ((match w.stage with | .unheard _ _ => true | _ => false) = true) (by
      show _ ↔ ∃ n callId, w.stage = .unheard n callId
      cases w.stage <;> simp)
  | confirm callId optionId => exact .isTrue trivial
  | cancelAll => exact .isTrue trivial
  | setClosing => exact .isTrue trivial

instance decidableRefused : ∀ w step, Decidable (Refused w step) := by
  intro w step
  cases step <;> (simp only [Refused]; infer_instance)

/-- The selection answers the request: it was approved at once, or confirmed under its call id while
it was the one pending there. -/
def Justified (w : PermissionRouter) (n : ℕ) (optionId : String) : Prop :=
  ∃ request, w.received[n]? = some request ∧ (request.autoApproveOptionId = some optionId ∨
    ⟨request.toolCallId, optionId, some n⟩ ∈ w.confirmations)

/-- A request is answered at most once, it is answered `Selected` only with a reason, and once the
router is closed it is answered unless the handler is still at it. -/
structure AnswersAll (w : PermissionRouter) : Prop where
  once : (w.answers.map Answer.request).Nodup
  justified : ∀ n optionId, ⟨n, .selected optionId⟩ ∈ w.answers → w.Justified n optionId
  answered : w.closed = true → ∀ n < w.received.length,
    n ∈ w.answers.map Answer.request ∨ w.handled = some n

def openRequests (w : PermissionRouter) : List ℕ := w.pendingPermissions.values ++ w.stage.unrouted

variable {w w' : PermissionRouter} {i : RouterStep} {n : ℕ} {callId optionId : String}
  {decision : PermissionDecision}

/-- Every request is open or answered, what is pending is so under its own call id, and the handler
finds under the call id of its request this one or none. -/
structure Kept (w : PermissionRouter) : Prop where
  tickets : Tickets w.received.length w.openRequests (w.answers.map Answer.request)
  registered : ∀ callId n, w.pendingPermissions.lookup callId = some n →
    ∃ request, w.received[n]? = some request ∧ request.toolCallId = callId
  handling : ∀ n callId, w.stage = .registered n callId ∨ w.stage = .unheard n callId →
    (∃ request, w.received[n]? = some request ∧ request.toolCallId = callId) ∧
      ∀ m, w.pendingPermissions.lookup callId = some m → m = n
  justified : ∀ n optionId, ⟨n, .selected optionId⟩ ∈ w.answers → w.Justified n optionId

theorem kept_new : Kept new :=
  ⟨Tickets.nil, fun callId n h => (by cases h), fun n callId h => (by obtain h | h := h <;> cases h),
    fun n optionId h => (by cases h)⟩

theorem Justified.mono (h : w.Justified n optionId)
    (hreceived : w.received <+: w'.received)
    (hconfirmations : ∀ c ∈ w.confirmations, c ∈ w'.confirmations) : w'.Justified n optionId := by
  obtain ⟨request, hrequest, hreason⟩ := h
  obtain ⟨more, hmore⟩ := hreceived
  have hlt : n < w.received.length := (List.getElem?_eq_some_iff.mp hrequest).1
  refine ⟨request, ?_, hreason.imp_right (hconfirmations _)⟩
  rw [← hmore, List.getElem?_append_left hlt, hrequest]

theorem requests_answer (requests : List ℕ) :
    (w.answer requests decision).answers.map Answer.request =
      w.answers.map Answer.request ++ requests := by
  show (w.answers ++ requests.map fun request => (⟨request, decision⟩ : Answer)).map _ = _
  rw [List.map_append, List.map_map]
  congr 1
  exact List.map_id requests

/-- A cancellation needs no reason. -/
theorem Kept.justified_answer (h : w.Kept) {requests : List ℕ}
    (hselected : ∀ optionId, decision = .selected optionId →
      ∀ n ∈ requests, w.Justified n optionId) :
    ∀ n optionId, ⟨n, .selected optionId⟩ ∈ (w.answer requests decision).answers →
      w.Justified n optionId := by
  intro n optionId hmem
  obtain hmem | hmem := List.mem_append.mp hmem
  · exact h.justified n optionId hmem
  · obtain ⟨m, hm, heq⟩ := List.mem_map.mp hmem
    obtain ⟨rfl, rfl⟩ := Answer.mk.inj heq
    exact hselected optionId rfl m hm

theorem Kept.receive (h : w.Kept) (hidle : w.stage = .idle) (request : PermissionRequest) :
    (w.fire (.receive request)).Kept := by
  have hprefix : w.received <+: w.received ++ [request] := List.prefix_append _ _
  refine ⟨?_, fun callId n hlookup => ?_,
    fun n callId hstage => (by obtain h | h := hstage <;> cases h),
    fun n optionId hmem => (h.justified n optionId hmem).mono hprefix fun _ hc => hc⟩
  · -- the handler is idle, so only the pending requests were open
    have hopen : w.openRequests = w.pendingPermissions.values := by
      rw [openRequests, hidle]
      exact List.append_nil _
    have hdraw := h.tickets.draw
    rw [hopen] at hdraw
    show Tickets (w.received ++ [request]).length
      (w.pendingPermissions.values ++ [w.received.length]) _
    rw [List.length_append, List.length_singleton]
    exact hdraw.pass (List.perm_append_singleton _ _).symm
  · obtain ⟨old, hold, hid⟩ := h.registered callId n hlookup
    have hlt : n < w.received.length := (List.getElem?_eq_some_iff.mp hold).1
    exact ⟨old, by rw [← hold]; exact List.getElem?_append_left hlt, hid⟩

theorem values_perm_erase (d : Dict String ℕ) (callId : String) :
    d.values.Perm ((d.lookup callId).toList ++ Dict.values (AList.erase callId d)) := by
  cases hlookup : d.lookup callId with
  | none =>
    rw [Dict.erase_eq_self hlookup]
    exact .refl _
  | some n => exact Dict.values_perm hlookup

theorem lookup_of_erase {d : Dict String ℕ} {callId other : String} {n : ℕ}
    (h : AList.lookup other (AList.erase callId d) = some n) : d.lookup other = some n := by
  rw [Dict.lookup_erase'] at h
  split at h
  · cases h
  · exact h

section

variable (h : w.Kept)
include h

/-- What is pending under a call id is taken out and answered. -/
theorem Kept.take (callId : String)
    (hselected : ∀ optionId, decision = .selected optionId →
      ∀ n, w.pendingPermissions.lookup callId = some n → w.Justified n optionId) :
    (w.take callId decision).Kept := by
  refine ⟨?_, fun other n hlookup => h.registered other n (lookup_of_erase hlookup),
    fun n other hstage => ⟨(h.handling n other hstage).1, fun m hm =>
      (h.handling n other hstage).2 m (lookup_of_erase hm)⟩,
    h.justified_answer fun optionId heq n hn => hselected optionId heq n (by simpa using hn)⟩
  rw [PermissionRouter.take, requests_answer]
  refine h.tickets.spendAll ?_
  show (w.pendingPermissions.values ++ w.stage.unrouted).Perm
    ((w.pendingPermissions.lookup callId).toList ++
      (Dict.values (AList.erase callId w.pendingPermissions) ++ w.stage.unrouted))
  rw [← List.append_assoc]
  exact (values_perm_erase w.pendingPermissions callId).append_right _

/-- The handler turns to the next request once it has registered this one. -/
theorem Kept.turn (hstage : ∀ n, w.stage ≠ .received n) :
    { w with stage := .idle }.Kept := by
  refine ⟨?_, h.registered, fun n callId hstage => (by obtain h | h := hstage <;> cases h),
    h.justified⟩
  have hunrouted : w.stage.unrouted = [] := by
    cases hw : w.stage with
    | received n => exact absurd hw (hstage n)
    | idle => rfl
    | registered n callId => rfl
    | unheard n callId => rfl
  have htickets := h.tickets
  rw [openRequests, hunrouted] at htickets
  exact htickets

theorem Kept.confirm (callId optionId : String) : (w.confirm callId optionId).Kept := by
  let confirmation : Confirmation := ⟨callId, optionId, w.pendingPermissions.lookup callId⟩
  have hmore : { w with confirmations := w.confirmations ++ [confirmation] }.Kept :=
    ⟨h.tickets, h.registered, h.handling, fun n optionId hmem =>
      (h.justified n optionId hmem).mono (List.prefix_refl _) fun c hc =>
        List.mem_append_left _ hc⟩
  -- the request that is answered is the one that the confirmation found
  refine hmore.take callId fun chosen hchosen n hlookup => ?_
  obtain rfl := PermissionDecision.selected.inj hchosen
  obtain ⟨request, hrequest, hid⟩ := h.registered callId n hlookup
  have hconfirmation : confirmation = ⟨request.toolCallId, optionId, some n⟩ := by
    rw [hid]
    exact congrArg (Confirmation.mk callId optionId) hlookup
  exact ⟨request, hrequest, .inr (hconfirmation ▸
    List.mem_append_right _ (List.mem_singleton_self _))⟩

theorem Kept.cancelAll : w.cancelAll.Kept := by
  have hnone : ∀ {callId : String} {n : ℕ},
      w.cancelAll.pendingPermissions.lookup callId ≠ some n := fun hlookup => (by cases hlookup)
  refine ⟨?_, fun callId n hlookup => absurd hlookup hnone, fun n callId hstage =>
      ⟨(h.handling n callId hstage).1, fun m hm => absurd hm hnone⟩,
    h.justified_answer fun optionId heq => (by cases heq)⟩
  rw [PermissionRouter.cancelAll, requests_answer]
  exact h.tickets.spendAll (.refl _)

/-- The request that was received is approved, or registered in the place of the one before. -/
theorem Kept.route (hstage : w.stage = .received n) : (w.fire .route).Kept := by
  have hopen : w.openRequests = w.pendingPermissions.values ++ [n] := by
    rw [openRequests, hstage]
    rfl
  have hperm : w.openRequests.Perm (n :: w.pendingPermissions.values) := by
    rw [hopen]
    exact List.perm_append_singleton n _
  have hlt : n < w.received.length := h.tickets.lt_of_held (hperm.mem_iff.mpr List.mem_cons_self)
  have hrequest : w.received[n]? = some w.received[n] := List.getElem?_eq_getElem hlt
  generalize w.received[n] = request at hrequest
  simp only [PermissionRouter.fire, hstage, hrequest, routeRequest]
  cases happroved : request.autoApproveOptionId with
  | some optionId =>
    refine ⟨?_, h.registered, fun m callId hs => (by obtain hs | hs := hs <;> cases hs),
      h.justified_answer fun chosen hchosen m hm => ?_⟩
    · show Tickets w.received.length (w.pendingPermissions.values ++ [])
        ((w.answer [n] (.selected optionId)).answers.map Answer.request)
      rw [requests_answer, List.append_nil]
      exact h.tickets.spend hperm
    · obtain rfl := List.mem_singleton.mp hm
      obtain rfl := PermissionDecision.selected.inj hchosen
      exact ⟨request, hrequest, .inl happroved⟩
  | none =>
    -- the request that was pending under the id is displaced, and cancelled
    have hlookup : ∀ {callId : String} {m : ℕ},
        AList.lookup callId (w.pendingPermissions.insert request.toolCallId n) = some m →
          (callId = request.toolCallId ∧ m = n) ∨ w.pendingPermissions.lookup callId = some m := by
      intro callId m hm
      rw [Dict.lookup_insert'] at hm
      split at hm
      · rename_i hid
        exact .inl ⟨hid, (Option.some.inj hm).symm⟩
      · exact .inr hm
    refine ⟨?_, fun callId m hm => ?_, fun m callId hs => ?_,
      h.justified_answer fun chosen hchosen => (by cases hchosen)⟩
    · show Tickets w.received.length
        (Dict.values (w.pendingPermissions.insert request.toolCallId n) ++ []) _
      rw [requests_answer, List.append_nil, Dict.values_insert]
      refine h.tickets.spendAll (hperm.trans ?_)
      exact (List.Perm.cons n (values_perm_erase _ request.toolCallId)).trans List.perm_middle.symm
    · obtain ⟨rfl, rfl⟩ | hm := hlookup hm
      · exact ⟨request, hrequest, rfl⟩
      · exact h.registered callId m hm
    · obtain hs | hs := hs
      · obtain ⟨rfl, rfl⟩ := RouterStage.registered.inj hs
        refine ⟨⟨request, hrequest, rfl⟩, fun m hm => ?_⟩
        have hself := AList.lookup_insert (a := request.toolCallId) (b := n) w.pendingPermissions
        exact Option.some.inj (hm.symm.trans hself)
      · cases hs

theorem Kept.fire (hi : machine.admits w i) : (w.fire i).Kept := by
  cases i with
  | receive request => exact h.receive hi request
  | route =>
    obtain ⟨n, hstage⟩ := hi
    exact h.route hstage
  | emit heard =>
    obtain ⟨n, callId, hstage⟩ := hi
    have hturn := h.turn fun m hm => (by rw [hstage] at hm; cases hm)
    simp only [PermissionRouter.fire, hstage]
    cases heard with
    | true => exact hturn
    | false =>
      refine ⟨hturn.tickets, h.registered, fun m other hs => ?_, h.justified⟩
      obtain hs | hs := hs
      · cases hs
      · obtain ⟨rfl, rfl⟩ := RouterStage.unheard.inj hs
        exact h.handling _ _ (.inl hstage)
  | drop =>
    obtain ⟨n, callId, hstage⟩ := hi
    have htaken : (w.take callId .cancelled).Kept :=
      h.take callId fun optionId heq => (by cases heq)
    simp only [PermissionRouter.fire, hstage]
    exact htaken.turn fun m hm => (by
      have hm : w.stage = .received m := hm
      rw [hstage] at hm
      cases hm)
  | confirm callId optionId => exact h.confirm callId optionId
  | cancelAll => exact h.cancelAll
  | setClosing => exact ⟨h.tickets, h.registered, h.handling, h.justified⟩

end

theorem kept_of_reachable (h : machine.Reachable w) : w.Kept :=
  h.invariant (P := Kept) (fun w hw => by
    obtain rfl : w = .new := hw
    exact kept_new) fun _ _ hs hi => hs.fire hi

/-- A request is open or answered. -/
theorem Kept.open_or_answered (h : w.Kept) (hn : n < w.received.length) :
    n ∈ w.pendingPermissions.values ∨ w.handled = some n ∨ n ∈ w.answers.map Answer.request := by
  obtain hopen | hanswered := h.tickets.held_or_spent hn
  · obtain hpending | hreceived := List.mem_append.mp hopen
    · exact .inl hpending
    · refine .inr (.inl ?_)
      unfold handled
      cases hstage : w.stage with
      | received m =>
        rw [hstage] at hreceived
        rw [List.mem_singleton.mp hreceived]
      | idle => rw [hstage] at hreceived; cases hreceived
      | registered m callId => rw [hstage] at hreceived; cases hreceived
      | unheard m callId => rw [hstage] at hreceived; cases hreceived
  · exact .inr (.inr hanswered)

/-- The request that the handler has registered is answered unless it is pending under its id. -/
theorem Kept.registered_answered (h : w.Kept)
    (hstage : w.stage = .registered n callId ∨ w.stage = .unheard n callId) :
    n ∈ w.answers.map Answer.request ↔ w.pendingPermissions.lookup callId ≠ some n := by
  obtain ⟨⟨request, hrequest, hid⟩, -⟩ := h.handling n callId hstage
  have hlt : n < w.received.length := (List.getElem?_eq_some_iff.mp hrequest).1
  constructor
  · intro hanswered hlookup
    have hpending : n ∈ w.openRequests :=
      List.mem_append_left _ (Dict.mem_values.mpr ⟨callId, hlookup⟩)
    exact h.tickets.unspent hpending hanswered
  · intro hlookup
    obtain hopen | hanswered := h.tickets.held_or_spent hlt
    · obtain hpending | hreceived := List.mem_append.mp hopen
      · -- a request is pending under its own id only
        obtain ⟨other, hother⟩ := Dict.mem_values.mp hpending
        obtain ⟨request', hrequest', hid'⟩ := h.registered other n hother
        obtain rfl := Option.some.inj (hrequest'.symm.trans hrequest)
        exact absurd (hid ▸ hid' ▸ hother) hlookup
      · obtain hstage | hstage := hstage <;> (rw [hstage] at hreceived; cases hreceived)
    · exact hanswered

theorem requests_answered (requests : List ℕ) {m : ℕ} (hm : m ∈ w.answers.map Answer.request) :
    m ∈ (w.answer requests decision).answers.map Answer.request := by
  rw [requests_answer]
  exact List.mem_append_left _ hm

theorem answersAll_iff (h : w.Kept) : w.AnswersAll ↔ (w.closed = true → ∀ n < w.received.length,
    n ∈ w.answers.map Answer.request ∨ w.handled = some n) :=
  ⟨AnswersAll.answered, fun hanswered => ⟨h.tickets.once, h.justified, hanswered⟩⟩

/-- The next step keeps what is promised exactly if it hands no listener a pending request. -/
theorem AnswersAll.step (hkept : w.Kept) (h : w.AnswersAll) (hi : machine.admits w i) :
    (w.fire i).AnswersAll ↔ w.Refused i := by
  rw [answersAll_iff (hkept.fire hi)]
  cases i with
  | receive request =>
    refine ⟨fun _ => trivial, fun _ hclosed n hn => ?_⟩
    have hidle : w.handled = none := by rw [handled, show w.stage = .idle from hi]
    have hn : n < (w.received ++ [request]).length := hn
    rw [List.length_append, List.length_singleton] at hn
    by_cases hlast : n = w.received.length
    · exact .inr (congrArg some hlast.symm)
    · obtain hanswered | hhandled := h.answered hclosed n (by omega)
      · exact .inl hanswered
      · rw [hidle] at hhandled
        cases hhandled
  | route =>
    refine ⟨fun _ => trivial, fun _ hclosed m hm => ?_⟩
    obtain ⟨n, hstage⟩ := hi
    have hhandled : w.handled = some n := by rw [handled, hstage]
    revert hclosed hm
    simp only [PermissionRouter.fire, hstage]
    cases w.received[n]? with
    | none => exact fun hclosed hm => h.answered hclosed m hm
    | some request =>
      simp only [routeRequest]
      cases request.autoApproveOptionId with
      | some optionId =>
        intro hclosed hm
        obtain hanswered | hsame := h.answered hclosed m hm
        · exact .inl (requests_answered _ hanswered)
        · obtain rfl := Option.some.inj (hhandled.symm.trans hsame)
          refine .inl ?_
          rw [requests_answer]
          exact List.mem_append_right _ (List.mem_singleton_self _)
      | none =>
        intro hclosed hm
        exact (h.answered hclosed m hm).imp (requests_answered _) fun hsame =>
          hhandled.symm.trans hsame
  | emit heard =>
    obtain ⟨n, callId, hstage⟩ := hi
    have hhandled : w.handled = some n := by rw [handled, hstage]
    have hregistered := hkept.registered_answered (.inl hstage)
    simp only [PermissionRouter.fire, hstage, Refused, awaitsAnswer]
    cases heard with
    | false =>
      refine ⟨fun _ hheard => (by cases hheard), fun _ hclosed m hm => ?_⟩
      exact (h.answered hclosed m hm).imp_right hhandled.symm.trans
    | true =>
      -- the handler turns away: its request is answered exactly if it is no longer pending
      simp only [if_true, forall_const, decide_eq_false_iff_not]
      refine forall_congr' fun hclosed => ?_
      rw [← ne_eq, ← hregistered]
      constructor
      · intro hall
        obtain ⟨⟨request, hrequest, -⟩, -⟩ := hkept.handling n callId (.inl hstage)
        obtain hanswered | hnone := hall n (List.getElem?_eq_some_iff.mp hrequest).1
        · exact hanswered
        · cases hnone
      · intro hanswered m hm
        obtain hother | hsame := h.answered hclosed m hm
        · exact .inl hother
        · obtain rfl := Option.some.inj (hhandled.symm.trans hsame)
          exact .inl hanswered
  | drop =>
    refine ⟨fun _ => trivial, fun _ hclosed m hm => ?_⟩
    obtain ⟨n, callId, hstage⟩ := hi
    have hhandled : w.handled = some n := by rw [handled, hstage]
    revert hclosed hm
    simp only [PermissionRouter.fire, hstage]
    intro hclosed hm
    refine .inl ?_
    show m ∈ (w.answer (w.pendingPermissions.lookup callId).toList .cancelled).answers.map _
    obtain hanswered | hsame := h.answered hclosed m hm
    · exact requests_answered _ hanswered
    · -- the request is taken back now, or somebody has answered it
      obtain rfl := Option.some.inj (hhandled.symm.trans hsame)
      by_cases hlookup : w.pendingPermissions.lookup callId = some n
      · rw [requests_answer, hlookup]
        exact List.mem_append_right _ (List.mem_singleton_self _)
      · exact requests_answered _ ((hkept.registered_answered (.inr hstage)).mpr hlookup)
  | confirm callId optionId =>
    refine ⟨fun _ => trivial, fun _ hclosed n hn => ?_⟩
    exact (h.answered hclosed n hn).imp_left (requests_answered _)
  | cancelAll =>
    refine ⟨fun _ => trivial, fun _ hclosed n hn => ?_⟩
    show n ∈ (w.answer w.pendingPermissions.values .cancelled).answers.map Answer.request ∨ _
    rw [requests_answer, List.mem_append]
    obtain hpending | hhandled | hanswered := hkept.open_or_answered hn
    · exact .inl (.inr hpending)
    · exact .inr hhandled
    · exact .inl (.inl hanswered)
  | setClosing => exact ⟨fun _ => trivial, fun _ => h.answered⟩

/-- As long as the closed router hands no listener a request that is still pending, every request
is answered; and the next step keeps that exactly if it does not. -/
theorem requests_answered_once (h : (machine.restrict Refused).Reachable w) :
    w.AnswersAll ∧ ∀ i, machine.admits w i → ((w.fire i).AnswersAll ↔ w.Refused i) :=
  h.exact (M := machine)
    (fun w hw => by
      obtain rfl : w = .new := hw
      exact (answersAll_iff kept_new).mpr fun hclosed => (by cases hclosed))
    fun _ _ hr hs hi => hs.step (kept_of_reachable hr) hi

def edit (callId : String) : PermissionRequest := ⟨callId, none, none, [⟨.allowOnce, "allow"⟩]⟩

/-- A request is confirmed, its id used again, the second displaced by a third, and all cancelled
when the router is closed; one for a tool of the team is approved after that. -/
theorem requests_answered_once_sample : (machine.run .new
    [.receive (edit "t"), .route, .emit true, .confirm "t" "allow", .receive (edit "t"), .route,
      .emit true, .receive (edit "t"), .route, .setClosing, .emit true, .cancelAll,
      .receive ⟨"u", some "mcp__aionui-team__send", none, [⟨.allowAlways, "always"⟩]⟩,
      .route]).AnswersAll :=
  (requests_answered_once (Machine.reachable_run rfl (by decide +kernel))).1

/-- In every run, closed or not, a request is open or answered, never both and never twice. -/
theorem requests_open_or_answered (h : machine.Reachable w) :
    Tickets w.received.length w.openRequests (w.answers.map Answer.request) :=
  (kept_of_reachable h).tickets

theorem requests_open_or_answered_sample :
    Tickets 1 (machine.run .new [.setClosing, .receive (edit "t"), .route]).openRequests [] :=
  requests_open_or_answered (Machine.reachable_run rfl (by decide +kernel))

/-- A request that is registered after the router was closed stays pending. -/
theorem late_request_unanswered : ¬∀ w, machine.Reachable w → w.AnswersAll := by
  intro h
  have hall := h (machine.run .new
    [.setClosing, .cancelAll, .receive (edit "t"), .route, .emit true])
    (Machine.reachable_run rfl (by decide +kernel))
  have hanswered := hall.answered (by decide +kernel) 0 (by decide +kernel)
  exact absurd hanswered (by decide +kernel)

end PermissionRouter

end AionCore.Agent
