import AionCore.Lib.Machine
import Mathlib.Data.List.Nodup

/-!
# Channels: sessions of chats

The messages that `orchestrator.rs` handles, each on a task of its own, and the session actions, from
`get_or_create_session` of `session.rs` to the conversation that is bound to the session. A call is
split at its statements and at what it awaits of the conversation service; each of these takes effect
as a whole, or fails.
-/

namespace AionCore.Channel

structure AssistantSessionRow where
  id : String
  userId : String
  agentType : String
  conversationId : Option String
  workspace : Option String
  chatId : Option String
  createdAt : ℕ
  lastActivity : ℕ
  deriving DecidableEq

/-- The user and the chat of the session. -/
def AssistantSessionRow.key (row : AssistantSessionRow) : String × Option String :=
  (row.userId, row.chatId)

def newSessionRow (id userId chatId agentType : String) (now : ℕ) : AssistantSessionRow where
  id := id
  userId := userId
  agentType := agentType
  conversationId := none
  workspace := none
  chatId := some chatId
  createdAt := now
  lastActivity := now

/-- What the session is for: a message that is dispatched to the agent, or the reply to an action. -/
inductive SessionUse where
  | dispatch
  | reply
  deriving DecidableEq

/-- What a call awaits: `reset_session` its DELETE, `get_or_create_session` its statements, and a
message that is dispatched the rest, with the conversation its dispatch has seen. -/
inductive SessionCall where
  | deleting (userId chatId agentType : String)
  | selecting (use : SessionUse) (newRow : AssistantSessionRow)
  | touching (use : SessionUse) (row : AssistantSessionRow)
  | inserting (use : SessionUse) (newRow : AssistantSessionRow)
  | loading (sessionId : String) (seen : Option String)
  | creating (session : AssistantSessionRow) (seen : Option String)
  | warming (session : AssistantSessionRow) (conversationId : String) (seen : Option String)
  | sending (session : AssistantSessionRow) (conversationId : String) (seen : Option String)
  | binding (sessionId conversationId : String)
  deriving DecidableEq

def SessionCall.newId : SessionCall → Option String
  | .selecting _ newRow | .inserting _ newRow => some newRow.id
  | _ => none

/-- A message sent to a conversation, and how many resets of its user and chat came before it. -/
structure SentMessage where
  key : String × Option String
  conversationId : String
  resets : ℕ
  deriving DecidableEq

/-- The table and the calls under way; as history the ids of the rows ever inserted, the messages
sent, and the users and chats whose session was reset. -/
structure SessionTable where
  sessions : List AssistantSessionRow
  calls : List SessionCall
  inserted : List String
  sent : List SentMessage
  resets : List (String × Option String)

/-- A call begins, or the one that is named goes on when what it awaits has ended, well or not. -/
inductive SessionStep where
  | getOrCreateSession (use : SessionUse) (userId chatId agentType id : String) (now : ℕ)
  | resetSession (userId chatId agentType : String)
  | deleteSession (userId chatId agentType id : String) (now : ℕ) (ok : Bool)
  | selectSession (use : SessionUse) (newRow : AssistantSessionRow) (ok : Bool)
  | touchSession (use : SessionUse) (row : AssistantSessionRow) (now : ℕ) (ok : Bool)
  | insertSession (use : SessionUse) (newRow : AssistantSessionRow) (ok : Bool)
  | getSessionById (sessionId : String) (seen : Option String) (ok : Bool)
  | createConversation (session : AssistantSessionRow) (seen response : Option String)
  | warmup (session : AssistantSessionRow) (conversationId : String) (seen : Option String)
      (ok : Bool)
  | sendMessage (session : AssistantSessionRow) (conversationId : String) (seen : Option String)
      (ok : Bool)
  | bindConversation (sessionId conversationId : String) (now : ℕ) (ok : Bool)

namespace SessionTable

def boot : SessionTable :=
  { sessions := [], calls := [], inserted := [], sent := [], resets := [] }

def settle (w : SessionTable) (call : SessionCall) (next : List SessionCall) : SessionTable :=
  { w with calls := w.calls.erase call ++ next }

def updateSession (w : SessionTable) (id : String)
    (f : AssistantSessionRow → AssistantSessionRow) : SessionTable :=
  { w with sessions := w.sessions.map fun row => if row.id = id then f row else row }

/-- The session is resolved: a message is dispatched with it. -/
def dispatch (use : SessionUse) (row : AssistantSessionRow) : List SessionCall :=
  match use with
  | .dispatch => [.loading row.id row.conversationId]
  | .reply => []

def deleteSession (w : SessionTable) (userId chatId agentType id : String) (now : ℕ) (ok : Bool) :
    SessionTable :=
  if ok then
    { w.settle (.deleting userId chatId agentType)
        [.selecting .reply (newSessionRow id userId chatId agentType now)] with
      sessions := w.sessions.filter fun row => decide (row.key ≠ (userId, some chatId))
      resets := w.resets ++ [(userId, some chatId)] }
  else w.settle (.deleting userId chatId agentType) []

def selectSession (w : SessionTable) (use : SessionUse) (newRow : AssistantSessionRow)
    (ok : Bool) : SessionTable :=
  w.settle (.selecting use newRow) <|
    if ok then
      match w.sessions.find? fun row => decide (row.key = newRow.key) with
      | some row => [.touching use row]
      | none => [.inserting use newRow]
    else []

def touchSession (w : SessionTable) (use : SessionUse) (row : AssistantSessionRow) (now : ℕ)
    (ok : Bool) : SessionTable :=
  if ok then
    (w.updateSession row.id fun r => { r with lastActivity := now }).settle (.touching use row)
      (dispatch use row)
  else w.settle (.touching use row) []

def insertSession (w : SessionTable) (use : SessionUse) (newRow : AssistantSessionRow)
    (ok : Bool) : SessionTable :=
  if ok then
    { w.settle (.inserting use newRow) (dispatch use newRow) with
      sessions := w.sessions ++ [newRow]
      inserted := w.inserted ++ [newRow.id] }
  else w.settle (.inserting use newRow) []

/-- `handle_dispatched` reads the session again; without a conversation, one is created. -/
def getSessionById (w : SessionTable) (sessionId : String) (seen : Option String) (ok : Bool) :
    SessionTable :=
  w.settle (.loading sessionId seen) <|
    match (w.sessions.find? fun row => decide (row.id = sessionId)).filter fun _ => ok with
    | some session =>
      match session.conversationId with
      | some conversationId => [.warming session conversationId seen]
      | none => [.creating session seen]
    | none => []

def createConversation (w : SessionTable) (session : AssistantSessionRow)
    (seen response : Option String) : SessionTable :=
  w.settle (.creating session seen)
    (response.elim [] fun conversationId => [.warming session conversationId seen])

def warmup (w : SessionTable) (session : AssistantSessionRow) (conversationId : String)
    (seen : Option String) (ok : Bool) : SessionTable :=
  w.settle (.warming session conversationId seen)
    (if ok then [.sending session conversationId seen] else [])

def sendMessage (w : SessionTable) (session : AssistantSessionRow) (conversationId : String)
    (seen : Option String) (ok : Bool) : SessionTable :=
  if ok then
    { w.settle (.sending session conversationId seen)
        (if seen.isNone then [.binding session.id conversationId] else []) with
      sent := w.sent ++ [⟨session.key, conversationId, w.resets.count session.key⟩] }
  else w.settle (.sending session conversationId seen) []

def bindConversation (w : SessionTable) (sessionId conversationId : String) (now : ℕ)
    (ok : Bool) : SessionTable :=
  let w' := if ok then
      w.updateSession sessionId fun row =>
        { row with conversationId := some conversationId, lastActivity := now }
    else w
  w'.settle (.binding sessionId conversationId) []

def fire (w : SessionTable) : SessionStep → SessionTable
  | .getOrCreateSession use userId chatId agentType id now =>
    { w with
      calls := w.calls ++ [.selecting use (newSessionRow id userId chatId agentType now)] }
  | .resetSession userId chatId agentType =>
    { w with calls := w.calls ++ [.deleting userId chatId agentType] }
  | .deleteSession userId chatId agentType id now ok =>
    w.deleteSession userId chatId agentType id now ok
  | .selectSession use newRow ok => w.selectSession use newRow ok
  | .touchSession use row now ok => w.touchSession use row now ok
  | .insertSession use newRow ok => w.insertSession use newRow ok
  | .getSessionById sessionId seen ok => w.getSessionById sessionId seen ok
  | .createConversation session seen response => w.createConversation session seen response
  | .warmup session conversationId seen ok => w.warmup session conversationId seen ok
  | .sendMessage session conversationId seen ok => w.sendMessage session conversationId seen ok
  | .bindConversation sessionId conversationId now ok =>
    w.bindConversation sessionId conversationId now ok

def newIds (w : SessionTable) : List String := w.calls.filterMap (·.newId)

def FreshId (w : SessionTable) (id : String) : Prop := id ∉ w.newIds ++ w.inserted

/-- Any number of calls take their steps in any order. -/
def machine : Machine SessionTable SessionStep where
  start w := w = boot
  admits w
    | .getOrCreateSession _ _ _ _ id _ => w.FreshId id
    | .resetSession _ _ _ => True
    | .deleteSession userId chatId agentType id _ _ =>
      .deleting userId chatId agentType ∈ w.calls ∧ w.FreshId id
    | .selectSession use newRow _ => .selecting use newRow ∈ w.calls
    | .touchSession use row _ _ => .touching use row ∈ w.calls
    | .insertSession use newRow _ => .inserting use newRow ∈ w.calls
    | .getSessionById sessionId seen _ => .loading sessionId seen ∈ w.calls
    | .createConversation session seen _ => .creating session seen ∈ w.calls
    | .warmup session conversationId seen _ => .warming session conversationId seen ∈ w.calls
    | .sendMessage session conversationId seen _ => .sending session conversationId seen ∈ w.calls
    | .bindConversation sessionId conversationId _ _ =>
      .binding sessionId conversationId ∈ w.calls
  fire := fire

/-- One session for each user and chat; the messages between two resets go to one conversation; and
since the last reset it is the one stored in the session, or one that is being bound to it. -/
structure Isolated (w : SessionTable) : Prop where
  unique : (w.sessions.map (·.key)).Nodup
  agree : ∀ s ∈ w.sent, ∀ t ∈ w.sent, s.key = t.key → s.resets = t.resets →
    s.conversationId = t.conversationId
  stored : ∀ s ∈ w.sent, s.resets = w.resets.count s.key → ∃ row ∈ w.sessions, row.key = s.key ∧
    (row.conversationId = some s.conversationId ∨
      row.conversationId = none ∧ .binding row.id s.conversationId ∈ w.calls)

/-- The conversation is stored in the session that the message was given, or none is stored and no
other was sent to since the last reset. -/
def SendsTo (w : SessionTable) (session : AssistantSessionRow) (conversationId : String) : Prop :=
  ∃ row ∈ w.sessions, row.id = session.id ∧ (row.conversationId = some conversationId ∨
    row.conversationId = none ∧ ∀ s ∈ w.sent, s.key = session.key →
      s.resets = w.resets.count session.key → s.conversationId = conversationId)

/-- A session is inserted where there is none of its user and chat, a message is sent to the
conversation of the session it was given, and the conversation is bound without failure unless the
session is gone or has it. -/
def Serial (w : SessionTable) : SessionStep → Prop
  | .insertSession _ newRow ok => ok = true → ∀ row ∈ w.sessions, row.key ≠ newRow.key
  | .sendMessage session conversationId _ ok => ok = true → w.SendsTo session conversationId
  | .bindConversation sessionId conversationId _ ok => ok = false → ∀ row ∈ w.sessions,
      row.id = sessionId → row.conversationId = some conversationId
  | _ => True

instance (w : SessionTable) (id : String) : Decidable (w.FreshId id) :=
  inferInstanceAs (Decidable (id ∉ w.newIds ++ w.inserted))

instance (w : SessionTable) (session : AssistantSessionRow) (conversationId : String) :
    Decidable (w.SendsTo session conversationId) := by
  unfold SendsTo
  infer_instance

instance decidableAdmits : ∀ (w : SessionTable) step, Decidable (machine.admits w step) := by
  intro w step
  cases step <;> (simp only [machine]; infer_instance)

instance decidableSerial : ∀ (w : SessionTable) step, Decidable (w.Serial step) := by
  intro w step
  cases step <;> (simp only [Serial]; infer_instance)

variable {w w' : SessionTable} {call : SessionCall} {next : List SessionCall} {i : SessionStep}

/-- The id is that of a row once inserted; what the call has read of the row still holds of it, and
a conversation that it binds was sent to since the last reset. -/
def Follows (w : SessionTable) : SessionCall → Prop
  | .touching _ row => row.id ∈ w.inserted ∧ ∀ r ∈ w.sessions, r.id = row.id →
      row.conversationId.isSome = true → r.conversationId.isSome = true
  | .loading sessionId seen => sessionId ∈ w.inserted ∧ ∀ r ∈ w.sessions, r.id = sessionId →
      seen.isSome = true → r.conversationId.isSome = true
  | .creating session seen => session.id ∈ w.inserted ∧ seen = none ∧
      ∀ r ∈ w.sessions, r.id = session.id → r.key = session.key
  | .warming session conversationId seen | .sending session conversationId seen =>
      session.id ∈ w.inserted ∧ ∀ r ∈ w.sessions, r.id = session.id → r.key = session.key ∧
        (seen.isSome = true → r.conversationId = some conversationId)
  | .binding sessionId conversationId => sessionId ∈ w.inserted ∧ ∀ r ∈ w.sessions,
      r.id = sessionId → ∃ s ∈ w.sent, s.key = r.key ∧ s.resets = w.resets.count r.key ∧
        s.conversationId = conversationId
  | _ => True

/-- Each row that was inserted by then is still the row it was, apart from a conversation that it
has got, and was not reset since. -/
structure Continues (w w' : SessionTable) : Prop where
  inserted : ∀ id ∈ w.inserted, id ∈ w'.inserted
  rows : ∀ r' ∈ w'.sessions, r'.id ∈ w.inserted → ∃ r ∈ w.sessions, r.id = r'.id ∧ r.key = r'.key ∧
    ∀ conversationId, r.conversationId = some conversationId →
      r'.conversationId = some conversationId
  resets : ∀ r' ∈ w'.sessions, w'.resets.count r'.key = w.resets.count r'.key
  sent : ∀ s ∈ w.sent, s ∈ w'.sent

variable {seen : Option String}

theorem Continues.isSome (h : w.Continues w') {id : String} (hid : id ∈ w.inserted)
    (hrows : ∀ r ∈ w.sessions, r.id = id → seen.isSome = true → r.conversationId.isSome = true) :
    ∀ r' ∈ w'.sessions, r'.id = id → seen.isSome = true → r'.conversationId.isSome = true := by
  rintro r' hr' rfl hseen
  obtain ⟨r, hr, hsame, -, hconversation⟩ := h.rows r' hr' hid
  obtain ⟨conversationId, hstored⟩ := Option.isSome_iff_exists.mp (hrows r hr hsame hseen)
  rw [hconversation conversationId hstored]
  rfl

theorem Follows.continues (hcall : w.Follows call) (h : w.Continues w') : w'.Follows call := by
  have hsend : ∀ (session : AssistantSessionRow) (conversationId : String) (seen : Option String),
      (session.id ∈ w.inserted ∧ ∀ r ∈ w.sessions, r.id = session.id → r.key = session.key ∧
        (seen.isSome = true → r.conversationId = some conversationId)) →
      session.id ∈ w'.inserted ∧ ∀ r ∈ w'.sessions, r.id = session.id → r.key = session.key ∧
        (seen.isSome = true → r.conversationId = some conversationId) := by
    rintro session conversationId seen ⟨hid, hrows⟩
    refine ⟨h.inserted _ hid, fun r' hr' hsame => ?_⟩
    obtain ⟨r, hr, hrid, hkey, hconversation⟩ := h.rows r' hr' (hsame ▸ hid)
    obtain ⟨hmine, hstored⟩ := hrows r hr (hrid.trans hsame)
    exact ⟨hkey.symm.trans hmine, fun hseen => hconversation _ (hstored hseen)⟩
  cases call with
  | touching use row | loading sessionId seen =>
    exact ⟨h.inserted _ hcall.1, h.isSome hcall.1 hcall.2⟩
  | creating session seen =>
    obtain ⟨hid, hseen, hrows⟩ := hcall
    refine ⟨h.inserted _ hid, hseen, fun r' hr' hsame => ?_⟩
    obtain ⟨r, hr, hrid, hkey, -⟩ := h.rows r' hr' (hsame ▸ hid)
    exact hkey.symm.trans (hrows r hr (hrid.trans hsame))
  | warming session conversationId seen => exact hsend session conversationId seen hcall
  | sending session conversationId seen => exact hsend session conversationId seen hcall
  | binding sessionId conversationId =>
    obtain ⟨hid, hrows⟩ := hcall
    refine ⟨h.inserted _ hid, fun r' hr' hsame => ?_⟩
    obtain ⟨r, hr, hrid, hkey, -⟩ := h.rows r' hr' (hsame ▸ hid)
    obtain ⟨s, hs, hskey, hresets, hconversation⟩ := hrows r hr (hrid.trans hsame)
    refine ⟨s, h.sent s hs, hskey.trans hkey, ?_, hconversation⟩
    rw [hresets, h.resets r' hr', hkey]
  | deleting | selecting | inserting => trivial

/-- The sessions, with the ids and the history in order, and with calls that follow them. -/
structure Ordered (w : SessionTable) : Prop extends Isolated w where
  fresh : (w.newIds ++ w.inserted).Nodup
  known : ∀ row ∈ w.sessions, row.id ∈ w.inserted
  distinct : (w.sessions.map (·.id)).Nodup
  past : ∀ s ∈ w.sent, s.resets ≤ w.resets.count s.key
  follows : ∀ call ∈ w.calls, w.Follows call

theorem ordered_boot : boot.Ordered where
  unique := .nil
  agree _ h := by cases h
  stored _ h := by cases h
  fresh := .nil
  known _ h := by cases h
  distinct := .nil
  past _ h := by cases h
  follows _ h := by cases h

/-- A call takes no id but its own along. -/
theorem Ordered.fresh_settle (h : w.Ordered) (hmem : call ∈ w.calls)
    (hnext : next.filterMap (·.newId) = [] ∨ next.filterMap (·.newId) = call.newId.toList) :
    ((w.calls.erase call ++ next).filterMap (·.newId) ++ w.inserted).Nodup := by
  have hperm : (w.newIds).Perm (call.newId.toList ++ (w.calls.erase call).filterMap (·.newId)) := by
    have hcalls := (List.perm_cons_erase hmem).filterMap (·.newId)
    cases hid : call.newId with
    | none => simpa only [newIds, List.filterMap_cons, hid, Option.toList_none, List.nil_append]
        using hcalls
    | some id => simpa only [newIds, List.filterMap_cons, hid, Option.toList_some,
        List.singleton_append] using hcalls
  have hall := (hperm.append_right w.inserted).nodup_iff.mp h.fresh
  rw [List.append_assoc] at hall
  -- the id is given up, or the next call has it
  obtain hnone | hsame := hnext
  · rw [List.filterMap_append, hnone, List.append_nil]
    exact List.Nodup.of_append_right hall
  · rw [List.filterMap_append, hsame, List.append_assoc]
    exact (List.perm_append_comm_assoc _ _ _).nodup_iff.mp hall

variable {c : SessionCall}

theorem mem_settle (hc : c ∈ w.calls) (hne : c ≠ call) :
    c ∈ (w.settle call next).calls :=
  List.mem_append_left _ ((List.mem_erase_of_ne hne).mpr hc)

theorem of_mem_settle (hc : c ∈ (w.settle call next).calls) :
    c ∈ w.calls ∨ c ∈ next :=
  (List.mem_append.mp hc).imp_left List.mem_of_mem_erase

theorem Continues.of_tables (hinserted : w'.inserted = w.inserted)
    (hsessions : w'.sessions = w.sessions) (hresets : w'.resets = w.resets)
    (hsent : ∀ s ∈ w.sent, s ∈ w'.sent) : w.Continues w' :=
  ⟨fun _ hid => hinserted ▸ hid, fun r hr _ => ⟨r, hsessions ▸ hr, rfl, rfl, fun _ h => h⟩,
    fun _ _ => by rw [hresets], hsent⟩

/-- A call goes on with what it has read; a binding that ends is in the session it was for. -/
theorem Ordered.settle (h : w.Ordered) (hmem : call ∈ w.calls)
    (hbound : ∀ id conversationId, call = .binding id conversationId →
      ∀ row ∈ w.sessions, row.id = id → row.conversationId = some conversationId)
    (hnext : next.filterMap (·.newId) = [] ∨ next.filterMap (·.newId) = call.newId.toList)
    (hfollows : ∀ c ∈ next, w.Follows c) : (w.settle call next).Ordered := by
  have hcontinues : w.Continues (w.settle call next) := .of_tables rfl rfl rfl fun _ hs => hs
  refine ⟨⟨h.unique, h.agree, fun s hs hresets => ?_⟩, h.fresh_settle hmem hnext, h.known, h.distinct,
    h.past, fun c hc => ?_⟩
  · obtain ⟨row, hrow, hkey, hstored⟩ := h.stored s hs hresets
    refine ⟨row, hrow, hkey, hstored.imp_right fun hbind => ⟨hbind.1, mem_settle hbind.2 fun he => ?_⟩⟩
    have hsome := hbound row.id s.conversationId he.symm row hrow rfl
    rw [hbind.1] at hsome
    cases hsome
  · exact ((of_mem_settle hc).elim (h.follows c) (hfollows c)).continues hcontinues

theorem Ordered.fail (h : w.Ordered) (hmem : call ∈ w.calls)
    (hcall : ∀ id conversationId, call ≠ .binding id conversationId) :
    (w.settle call []).Ordered :=
  h.settle hmem (fun id conversationId he => absurd he (hcall id conversationId)) (.inl rfl)
    fun _ hc => (by cases hc)

theorem Ordered.proceed (h : w.Ordered) (hmem : call ∈ w.calls)
    (hcall : ∀ id conversationId, call ≠ .binding id conversationId)
    (hnext : [c].filterMap (·.newId) = [] ∨ [c].filterMap (·.newId) = call.newId.toList)
    (hfollows : w.Follows c) : (w.settle call [c]).Ordered := by
  refine h.settle hmem (fun id conversationId he => absurd he (hcall id conversationId)) hnext
    fun c' hc => ?_
  rw [List.mem_singleton.mp hc]
  exact hfollows

theorem Ordered.begin (h : w.Ordered) (hid : ∀ id ∈ call.newId, w.FreshId id)
    (hfollows : w.Follows call) : { w with calls := w.calls ++ [call] }.Ordered := by
  have hcontinues : w.Continues { w with calls := w.calls ++ [call] } :=
    .of_tables rfl rfl rfl fun _ hs => hs
  refine ⟨⟨h.unique, h.agree, fun s hs hresets => ?_⟩, ?_, h.known, h.distinct, h.past, fun c hc => ?_⟩
  · obtain ⟨row, hrow, hkey, hstored⟩ := h.stored s hs hresets
    exact ⟨row, hrow, hkey, hstored.imp_right fun hbind =>
      ⟨hbind.1, List.mem_append_left _ hbind.2⟩⟩
  · show ((w.calls ++ [call]).filterMap (·.newId) ++ w.inserted).Nodup
    rw [List.filterMap_append]
    cases hnew : call.newId with
    | none =>
      rw [List.filterMap_cons_none hnew, List.filterMap_nil, List.append_nil]
      exact h.fresh
    | some id =>
      rw [List.filterMap_cons_some hnew, List.filterMap_nil, List.append_assoc,
        List.singleton_append]
      exact List.nodup_middle.mpr (List.nodup_cons.mpr ⟨hid id hnew, h.fresh⟩)
  · obtain hc | hc := List.mem_append.mp hc
    · exact (h.follows c hc).continues hcontinues
    · rw [List.mem_singleton.mp hc]
      exact hfollows.continues hcontinues

variable {id : String} {f : AssistantSessionRow → AssistantSessionRow}

theorem map_updateSession {β : Type*} {g : AssistantSessionRow → β} (hg : ∀ row, g (f row) = g row) :
    (w.updateSession id f).sessions.map g = w.sessions.map g := by
  show (w.sessions.map _).map g = _
  rw [List.map_map]
  refine List.map_congr_left fun row _ => ?_
  show g (if row.id = id then f row else row) = g row
  split
  · exact hg row
  · rfl

variable {row : AssistantSessionRow}

theorem of_mem_updateSession (hrow : row ∈ (w.updateSession id f).sessions) :
    ∃ r ∈ w.sessions, row = if r.id = id then f r else r := by
  obtain ⟨r, hr, he⟩ := List.mem_map.mp hrow
  exact ⟨r, hr, he.symm⟩

theorem mem_updateSession (hrow : row ∈ w.sessions) :
    (if row.id = id then f row else row) ∈ (w.updateSession id f).sessions :=
  List.mem_map.mpr ⟨row, hrow, rfl⟩

/-- The update gives a session no other conversation than those sent to since the last reset. -/
theorem Ordered.updateSession (h : w.Ordered) (hid : ∀ row, (f row).id = row.id)
    (hkey : ∀ row, (f row).key = row.key)
    (hkept : ∀ row ∈ w.sessions, row.id = id → ∀ conversationId,
      row.conversationId = some conversationId → (f row).conversationId = some conversationId)
    (hnew : ∀ row ∈ w.sessions, row.id = id → row.conversationId = none →
      (f row).conversationId = none ∨ ∀ s ∈ w.sent, s.key = row.key →
        s.resets = w.resets.count s.key → (f row).conversationId = some s.conversationId) :
    (w.updateSession id f).Ordered := by
  have hcontinues : w.Continues (w.updateSession id f) := by
    refine ⟨fun _ hold => hold, fun r' hr' _ => ?_, fun _ _ => rfl, fun _ hs => hs⟩
    obtain ⟨r, hr, rfl⟩ := of_mem_updateSession hr'
    refine ⟨r, hr, ?_⟩
    split
    · rename_i hsame
      exact ⟨(hid r).symm, (hkey r).symm, hkept r hr hsame⟩
    · exact ⟨rfl, rfl, fun _ hc => hc⟩
  refine ⟨⟨?_, h.agree, fun s hs hresets => ?_⟩, h.fresh, fun row hrow => ?_, ?_, h.past,
    fun c hc => (h.follows c hc).continues hcontinues⟩
  · rw [map_updateSession hkey]
    exact h.unique
  · obtain ⟨row, hrow, hskey, hstored⟩ := h.stored s hs hresets
    refine ⟨_, mem_updateSession hrow, ?_⟩
    by_cases hsame : row.id = id
    · rw [if_pos hsame]
      refine ⟨(hkey row).trans hskey, ?_⟩
      -- a conversation stays in the row, and one that is given now is that of the message
      obtain hstored | ⟨hnone, hbind⟩ := hstored
      · exact .inl (hkept row hrow hsame _ hstored)
      · obtain hstill | hgiven := hnew row hrow hsame hnone
        · exact .inr ⟨hstill, (hid row).symm ▸ hbind⟩
        · exact .inl (hgiven s hs hskey.symm hresets)
    · rw [if_neg hsame]
      exact ⟨hskey, hstored⟩
  · obtain ⟨r, hr, rfl⟩ := of_mem_updateSession hrow
    split
    · rw [hid]
      exact h.known r hr
    · exact h.known r hr
  · rw [map_updateSession hid]
    exact h.distinct

theorem newId_dispatch (use : SessionUse) (row : AssistantSessionRow) :
    (dispatch use row).filterMap (·.newId) = [] := by
  cases use with
  | dispatch => rfl
  | reply => rfl

variable {ok : Bool} {use : SessionUse} {newRow : AssistantSessionRow}

/-- The row is inserted where its user and chat have none. -/
theorem Ordered.insertSession (h : w.Ordered) (hmem : .inserting use newRow ∈ w.calls)
    (hsingle : ok = true → ∀ row ∈ w.sessions, row.key ≠ newRow.key) :
    (w.insertSession use newRow ok).Ordered := by
  cases ok with
  | false =>
    exact h.fail hmem fun _ _ he => (by cases he)
  | true =>
    have hperm := (List.perm_cons_erase hmem).filterMap (·.newId)
    have hnodup : (newRow.id :: ((w.calls.erase (.inserting use newRow)).filterMap (·.newId) ++
        w.inserted)).Nodup := (hperm.append_right w.inserted).nodup_iff.mp h.fresh
    obtain ⟨hnot, hrest⟩ := List.nodup_cons.mp hnodup
    have hnew : newRow.id ∉ w.inserted := fun hin => hnot (List.mem_append_right _ hin)
    have hcontinues : w.Continues (w.insertSession use newRow true) := by
      refine ⟨fun _ hold => List.mem_append_left _ hold, fun r' hr' hold => ?_, fun _ _ => rfl,
        fun _ hs => hs⟩
      obtain hr' | hr' := List.mem_append.mp hr'
      · exact ⟨r', hr', rfl, rfl, fun _ hc => hc⟩
      · rw [List.mem_singleton.mp hr'] at hold
        exact absurd hold hnew
    refine ⟨⟨?_, h.agree, fun s hs hresets => ?_⟩, ?_, fun row hrow => ?_, ?_, h.past, fun c hc => ?_⟩
    · show ((w.sessions ++ [newRow]).map (·.key)).Nodup
      rw [List.map_append]
      refine List.nodup_append.mpr ⟨h.unique, List.nodup_singleton _, ?_⟩
      rintro _ hold _ hadded rfl
      obtain ⟨row, hrow, hkey⟩ := List.mem_map.mp hold
      exact hsingle rfl row hrow (hkey.trans (List.mem_singleton.mp hadded))
    · obtain ⟨row, hrow, hkey, hstored⟩ := h.stored s hs hresets
      exact ⟨row, List.mem_append_left _ hrow, hkey, hstored.imp_right fun hbind =>
        ⟨hbind.1, mem_settle hbind.2 fun he => (by cases he)⟩⟩
    · show ((w.calls.erase _ ++ dispatch use newRow).filterMap (·.newId) ++
        (w.inserted ++ [newRow.id])).Nodup
      rw [List.filterMap_append, newId_dispatch, List.append_nil, ← List.append_assoc]
      exact (List.perm_append_singleton _ _).nodup_iff.mpr hnodup
    · obtain hrow | hrow := List.mem_append.mp hrow
      · exact List.mem_append_left _ (h.known row hrow)
      · rw [List.mem_singleton.mp hrow]
        exact List.mem_append_right _ (List.mem_singleton.mpr rfl)
    · show ((w.sessions ++ [newRow]).map (·.id)).Nodup
      rw [List.map_append]
      refine List.nodup_append.mpr ⟨h.distinct, List.nodup_singleton _, ?_⟩
      rintro _ hold _ hadded rfl
      obtain ⟨row, hrow, hid⟩ := List.mem_map.mp hold
      have hsame : row.id = newRow.id := hid.trans (List.mem_singleton.mp hadded)
      exact hnew (hsame ▸ h.known row hrow)
    · obtain hc | hc := of_mem_settle hc
      · exact (h.follows c hc).continues hcontinues
      · cases use with
        | reply => cases hc
        | dispatch =>
          -- the dispatch has seen no conversation in the row that it inserted
          rw [List.mem_singleton.mp hc]
          refine ⟨List.mem_append_right _ (List.mem_singleton.mpr rfl), fun r hr hsame hseen => ?_⟩
          obtain hr | hr := List.mem_append.mp hr
          · exact absurd (hsame ▸ h.known r hr) hnew
          · rw [List.mem_singleton.mp hr]
            exact hseen

theorem count_append_singleton (l : List (String × Option String)) (k k' : String × Option String) :
    (l ++ [k]).count k' = l.count k' + if k' = k then 1 else 0 := by
  simp only [List.count_append, List.count_singleton, beq_iff_eq, @eq_comm _ k k']

/-- The DELETE of a reset takes the session of its user and chat away. -/
theorem Ordered.deleteSession (h : w.Ordered) {userId chatId agentType : String} {now : ℕ}
    (hmem : .deleting userId chatId agentType ∈ w.calls) (hid : w.FreshId id) :
    (w.deleteSession userId chatId agentType id now ok).Ordered := by
  cases ok with
  | false =>
    exact h.fail hmem fun _ _ he => (by cases he)
  | true =>
    have hsub : ∀ row ∈ w.sessions.filter fun row => decide (row.key ≠ (userId, some chatId)),
        row ∈ w.sessions ∧ row.key ≠ (userId, some chatId) := fun row hrow =>
      (List.mem_filter.mp hrow).imp_right of_decide_eq_true
    have hcount : ∀ {key : String × Option String}, key ≠ (userId, some chatId) →
        (w.resets ++ [(userId, some chatId)]).count key = w.resets.count key := fun hne => by
      rw [count_append_singleton, if_neg hne, Nat.add_zero]
    have hcontinues : w.Continues (w.deleteSession userId chatId agentType id now true) :=
      ⟨fun _ hold => hold, fun r' hr' _ => ⟨r', (hsub r' hr').1, rfl, rfl, fun _ hc => hc⟩,
        fun r' hr' => hcount (hsub r' hr').2, fun _ hs => hs⟩
    refine ⟨⟨h.unique.sublist (List.filter_sublist.map _), h.agree, fun s hs hresets => ?_⟩, ?_,
      fun row hrow => h.known row (hsub row hrow).1,
      h.distinct.sublist (List.filter_sublist.map _), fun s hs => ?_, fun c hc => ?_⟩
    · by_cases hkey : s.key = (userId, some chatId)
      · -- what was sent to before the reset is past
        have hpast := h.past s hs
        have hnow : s.resets = (w.resets ++ [(userId, some chatId)]).count s.key := hresets
        rw [count_append_singleton, if_pos hkey] at hnow
        omega
      · have hnow : s.resets = (w.resets ++ [(userId, some chatId)]).count s.key := hresets
        obtain ⟨row, hrow, hskey, hstored⟩ := h.stored s hs (hnow.trans (hcount hkey))
        exact ⟨row, List.mem_filter.mpr ⟨hrow, decide_eq_true (hskey ▸ hkey)⟩, hskey,
          hstored.imp_right fun hbind => ⟨hbind.1, mem_settle hbind.2 fun he => (by cases he)⟩⟩
    · have hrest : ((w.calls.erase (.deleting userId chatId agentType) ++ []).filterMap
          SessionCall.newId ++ w.inserted).Nodup := h.fresh_settle hmem (.inl List.filterMap_nil)
      rw [List.append_nil] at hrest
      show ((w.calls.erase _ ++ [SessionCall.selecting _ _]).filterMap (·.newId) ++
        w.inserted).Nodup
      rw [List.filterMap_append, List.append_assoc]
      refine List.nodup_middle.mpr (List.nodup_cons.mpr ⟨fun hin => hid ?_, hrest⟩)
      obtain hin | hin := List.mem_append.mp hin
      · exact List.mem_append_left _ ((List.erase_sublist.filterMap _).mem hin)
      · exact List.mem_append_right _ hin
    · show s.resets ≤ (w.resets ++ [(userId, some chatId)]).count s.key
      have hpast := h.past s hs
      rw [count_append_singleton]
      omega
    · obtain hc | hc := of_mem_settle hc
      · exact (h.follows c hc).continues hcontinues
      · rw [List.mem_singleton.mp hc]
        trivial

theorem Ordered.eq_of_id (h : w.Ordered) {r r' : AssistantSessionRow} (hr : r ∈ w.sessions)
    (hr' : r' ∈ w.sessions) (hid : r.id = r'.id) : r = r' :=
  List.inj_on_of_nodup_map h.distinct hr hr' hid

theorem Ordered.eq_of_key (h : w.Ordered) {r r' : AssistantSessionRow} (hr : r ∈ w.sessions)
    (hr' : r' ∈ w.sessions) (hkey : r.key = r'.key) : r = r' :=
  List.inj_on_of_nodup_map h.unique hr hr' hkey

variable {session : AssistantSessionRow}

section

variable (h : w.Ordered)
include h

variable {conversationId : String}

/-- The message goes to the conversation of the session. -/
theorem Ordered.sendMessage (hmem : .sending session conversationId seen ∈ w.calls)
    (hsends : ok = true → w.SendsTo session conversationId) :
    (w.sendMessage session conversationId seen ok).Ordered := by
  cases ok with
  | false =>
    exact h.fail hmem fun _ _ he => (by cases he)
  | true =>
    obtain ⟨row, hrow, hid, htarget⟩ := hsends rfl
    obtain ⟨hknown, hread⟩ : session.id ∈ w.inserted ∧ ∀ r ∈ w.sessions, r.id = session.id →
      r.key = session.key ∧ (seen.isSome = true → r.conversationId = some conversationId) :=
        h.follows _ hmem
    obtain ⟨hkey, hstored⟩ := hread row hrow hid
    have hsame : ∀ s ∈ w.sent, s.key = session.key → s.resets = w.resets.count session.key →
        s.conversationId = conversationId := by
      intro s hs hskey hresets
      -- the row has the conversation, or every message since the reset went to it
      obtain htarget | ⟨-, hall⟩ := htarget
      · obtain ⟨r, hr, hrkey, hhas⟩ := h.stored s hs (hskey ▸ hresets)
        obtain rfl := h.eq_of_key hr hrow (hrkey.trans (hskey.trans hkey.symm))
        obtain hhas | ⟨hnone, -⟩ := hhas
        · exact Option.some.inj (hhas.symm.trans htarget)
        · rw [hnone] at htarget
          cases htarget
      · exact hall s hs hskey hresets
    have hcontinues : w.Continues (w.sendMessage session conversationId seen true) :=
      .of_tables rfl rfl rfl fun _ hs => List.mem_append_left _ hs
    have hnext : ((if seen.isNone then [SessionCall.binding session.id conversationId] else []) :
        List SessionCall).filterMap (·.newId) = [] := by
      cases seen with
      | none => rfl
      | some _ => rfl
    refine ⟨⟨h.unique, fun s hs t ht hskey hsresets => ?_, fun s hs hresets => ?_⟩,
      h.fresh_settle hmem (.inl hnext), h.known, h.distinct, fun s hs => ?_, fun c hc => ?_⟩
    · -- a message of the same user and chat since the same reset went to the same conversation
      obtain hs | hs := List.mem_append.mp hs
      · obtain ht | ht := List.mem_append.mp ht
        · exact h.agree s hs t ht hskey hsresets
        · obtain rfl := List.mem_singleton.mp ht
          exact hsame s hs hskey hsresets
      · obtain rfl := List.mem_singleton.mp hs
        obtain ht | ht := List.mem_append.mp ht
        · exact (hsame t ht hskey.symm hsresets.symm).symm
        · obtain rfl := List.mem_singleton.mp ht
          rfl
    · obtain hs | hs := List.mem_append.mp hs
      · obtain ⟨r, hr, hrkey, hhas⟩ := h.stored s hs hresets
        exact ⟨r, hr, hrkey, hhas.imp_right fun hbind =>
          ⟨hbind.1, mem_settle hbind.2 fun he => (by cases he)⟩⟩
      · obtain rfl := List.mem_singleton.mp hs
        refine ⟨row, hrow, hkey, ?_⟩
        obtain htarget | ⟨hnone, -⟩ := htarget
        · exact .inl htarget
        · refine .inr ⟨hnone, List.mem_append_right _ ?_⟩
          cases seen with
          | none => exact hid ▸ List.mem_singleton.mpr rfl
          | some _ =>
            rw [hstored rfl] at hnone
            cases hnone
    · obtain hs | hs := List.mem_append.mp hs
      · exact h.past s hs
      · obtain rfl := List.mem_singleton.mp hs
        exact Nat.le_refl _
    · obtain hc | hc := of_mem_settle hc
      · exact (h.follows c hc).continues hcontinues
      · cases seen with
        | some _ => cases hc
        | none =>
          rw [List.mem_singleton.mp hc]
          refine ⟨hknown, fun r hr hrid => ⟨_, List.mem_append_right _ (List.mem_singleton.mpr rfl),
            ?_⟩⟩
          obtain rfl := h.eq_of_id hr hrow (hrid.trans hid.symm)
          exact ⟨hkey.symm, congrArg w.resets.count hkey.symm, rfl⟩

theorem Ordered.touchSession {now : ℕ} (hmem : .touching use row ∈ w.calls) :
    (w.touchSession use row now ok).Ordered := by
  cases ok with
  | false =>
    exact h.fail hmem fun _ _ he => (by cases he)
  | true =>
    have htouched : (w.updateSession row.id fun r => { r with lastActivity := now }).Ordered :=
      h.updateSession (fun _ => rfl) (fun _ => rfl) (fun _ _ _ _ hc => hc)
        fun _ _ _ hnone => .inl hnone
    refine htouched.settle hmem (fun _ _ he => (by cases he)) (.inl (newId_dispatch use row))
      fun c hc => ?_
    cases use with
    | reply => cases hc
    | dispatch =>
      rw [List.mem_singleton.mp hc]
      exact htouched.follows (.touching .dispatch row) hmem

theorem Ordered.selectSession (hmem : .selecting use newRow ∈ w.calls) :
    (w.selectSession use newRow ok).Ordered := by
  unfold SessionTable.selectSession
  cases ok with
  | false =>
    exact h.fail hmem fun _ _ he => (by cases he)
  | true =>
    rw [if_pos rfl]
    split
    · rename_i row hfound
      have hrow : row ∈ w.sessions := List.mem_of_find?_eq_some hfound
      refine h.proceed hmem (fun _ _ he => (by cases he)) (.inl rfl) ?_
      refine ⟨h.known row hrow, fun r hr hid hseen => ?_⟩
      rw [h.eq_of_id hr hrow hid]
      exact hseen
    · refine h.proceed hmem (fun _ _ he => (by cases he)) (.inr rfl) ?_
      trivial

theorem Ordered.getSessionById {sessionId : String} (hmem : .loading sessionId seen ∈ w.calls) :
    (w.getSessionById sessionId seen ok).Ordered := by
  unfold SessionTable.getSessionById
  split
  · rename_i session hfound
    obtain ⟨hfind, -⟩ := Option.filter_eq_some_iff.mp hfound
    have hrow : session ∈ w.sessions := List.mem_of_find?_eq_some hfind
    have hid : session.id = sessionId := by
      have hselected := List.find?_some hfind
      exact of_decide_eq_true hselected
    obtain ⟨-, hread⟩ : sessionId ∈ w.inserted ∧ ∀ r ∈ w.sessions, r.id = sessionId →
      seen.isSome = true → r.conversationId.isSome = true := h.follows _ hmem
    split
    · rename_i conversationId hhas
      refine h.proceed hmem (fun _ _ he => (by cases he)) (.inl rfl) ?_
      refine ⟨h.known session hrow, fun r hr hsame => ?_⟩
      rw [h.eq_of_id hr hrow hsame]
      exact ⟨rfl, fun _ => hhas⟩
    · rename_i hnone
      refine h.proceed hmem (fun _ _ he => (by cases he)) (.inl rfl) ?_
      refine ⟨h.known session hrow, Option.not_isSome_iff_eq_none.mp fun hseen => ?_,
        fun r hr hsame => ?_⟩
      · have hsome := hread session hrow hid hseen
        rw [hnone] at hsome
        cases hsome
      · rw [h.eq_of_id hr hrow hsame]
  · exact h.fail hmem fun _ _ he => (by cases he)

theorem Ordered.createConversation {seen response : Option String}
    (hmem : .creating session seen ∈ w.calls) :
    (w.createConversation session seen response).Ordered := by
  obtain ⟨hid, hseen, hread⟩ : session.id ∈ w.inserted ∧ seen = none ∧
    ∀ r ∈ w.sessions, r.id = session.id → r.key = session.key := h.follows _ hmem
  cases response with
  | none => exact h.fail hmem fun _ _ he => (by cases he)
  | some conversationId =>
    refine h.proceed hmem (fun _ _ he => (by cases he)) (.inl rfl) ?_
    refine ⟨hid, fun r hr hsame => ⟨hread r hr hsame, fun hsome => ?_⟩⟩
    rw [hseen] at hsome
    cases hsome

theorem Ordered.bindConversation {sessionId : String} {now : ℕ}
    (hmem : .binding sessionId conversationId ∈ w.calls)
    (hdone : ok = false → ∀ row ∈ w.sessions, row.id = sessionId →
      row.conversationId = some conversationId) :
    (w.bindConversation sessionId conversationId now ok).Ordered := by
  cases ok with
  | false =>
    refine h.settle hmem (fun id conversation he => ?_) (.inl rfl) fun _ hc => (by cases hc)
    obtain ⟨rfl, rfl⟩ := SessionCall.binding.inj he
    exact hdone rfl
  | true =>
    obtain ⟨-, hread⟩ : sessionId ∈ w.inserted ∧ ∀ r ∈ w.sessions, r.id = sessionId →
      ∃ s ∈ w.sent, s.key = r.key ∧ s.resets = w.resets.count r.key ∧
        s.conversationId = conversationId := h.follows _ hmem
    have hbound : (w.updateSession sessionId fun row =>
        { row with conversationId := some conversationId, lastActivity := now }).Ordered := by
      refine h.updateSession (fun _ => rfl) (fun _ => rfl) (fun row hrow hid c hc => ?_)
        fun row hrow hid _ => .inr fun s hs hkey hresets => ?_
      · -- the row of the message that is bound has no other conversation
        obtain ⟨s, hs, hkey, hresets, rfl⟩ := hread row hrow hid
        obtain ⟨r, hr, hrkey, hhas⟩ := h.stored s hs (hkey ▸ hresets)
        obtain rfl := h.eq_of_key hr hrow (hrkey.trans hkey)
        obtain hhas | ⟨hnone, -⟩ := hhas
        · exact hhas.symm.trans hc
        · rw [hnone] at hc
          cases hc
      · obtain ⟨t, ht, htkey, htresets, rfl⟩ := hread row hrow hid
        exact congrArg some (h.agree t ht s hs (htkey.trans hkey.symm) (by
          rw [htresets, hresets, hkey]))
    refine hbound.settle hmem (fun id conversation he row hrow hid => ?_) (.inl rfl)
      fun _ hc => (by cases hc)
    obtain ⟨rfl, rfl⟩ := SessionCall.binding.inj he
    obtain ⟨r, -, rfl⟩ := of_mem_updateSession hrow
    by_cases hsame : r.id = sessionId
    · rw [if_pos hsame]
    · rw [if_neg hsame] at hid
      exact absurd hid hsame

theorem Ordered.step (hstep : machine.admits w i) (hserial : w.Serial i) :
    (w.fire i).Ordered := by
  cases i with
  | getOrCreateSession use userId chatId agentType id now =>
    refine h.begin (fun id' hid => ?_) trivial
    obtain rfl := Option.some.inj hid
    exact hstep
  | resetSession userId chatId agentType => exact h.begin (fun _ hid => (by cases hid)) trivial
  | deleteSession userId chatId agentType id now ok => exact h.deleteSession hstep.1 hstep.2
  | selectSession use newRow ok => exact h.selectSession hstep
  | touchSession use row now ok => exact h.touchSession hstep
  | insertSession use newRow ok => exact h.insertSession hstep hserial
  | getSessionById sessionId seen ok => exact h.getSessionById hstep
  | createConversation session seen response => exact h.createConversation hstep
  | warmup session conversationId seen ok =>
    cases ok with
    | false =>
      exact h.fail hstep fun _ _ he => (by cases he)
    | true =>
      refine h.proceed hstep (fun _ _ he => (by cases he)) (.inl rfl) ?_
      exact h.follows (.warming session conversationId seen) hstep
  | sendMessage session conversationId seen ok => exact h.sendMessage hstep hserial
  | bindConversation sessionId conversationId now ok => exact h.bindConversation hstep hserial

end

/-- While every step is serial, each user and chat has one session and one conversation. -/
theorem one_conversation_per_chat (h : (machine.restrict Serial).Reachable w) : w.Isolated := by
  have hordered : w.Ordered := h.invariant (M := machine.restrict Serial) (P := Ordered)
    (fun w hw => by
      have hboot : w = boot := hw
      rw [hboot]
      exact ordered_boot)
    fun _ _ hs hi => hs.step hi.1 hi.2
  exact hordered.toIsolated

section Sample

def sampleSession (id : String) : AssistantSessionRow := newSessionRow id "u1" "chat" "acp" 0

def sampleFirst (id : String) : List SessionStep :=
  [.selectSession .dispatch (sampleSession id) true, .insertSession .dispatch (sampleSession id) true,
    .getSessionById id none true, .createConversation (sampleSession id) none (some ("c-" ++ id)),
    .warmup (sampleSession id) ("c-" ++ id) none true,
    .sendMessage (sampleSession id) ("c-" ++ id) none true,
    .bindConversation id ("c-" ++ id) 1 true]

/-- A message, the next one in the same session, a reset, and a message after it. -/
def sampleMessages : List SessionStep :=
  let bound := { sampleSession "s1" with conversationId := some "c-s1", lastActivity := 1 }
  let touched := { bound with lastActivity := 2 }
  let renewed := { sampleSession "s3" with conversationId := none, lastActivity := 3 }
  [.getOrCreateSession .dispatch "u1" "chat" "acp" "s1" 0] ++ sampleFirst "s1" ++
    [.getOrCreateSession .dispatch "u1" "chat" "acp" "s2" 0,
      .selectSession .dispatch (sampleSession "s2") true, .touchSession .dispatch bound 2 true,
      .getSessionById "s1" (some "c-s1") true, .warmup touched "c-s1" (some "c-s1") true,
      .sendMessage touched "c-s1" (some "c-s1") true, .resetSession "u1" "chat" "acp",
      .deleteSession "u1" "chat" "acp" "s3" 0 true, .selectSession .reply (sampleSession "s3") true,
      .insertSession .reply (sampleSession "s3") true,
      .getOrCreateSession .dispatch "u1" "chat" "acp" "s4" 0,
      .selectSession .dispatch (sampleSession "s4") true,
      .touchSession .dispatch (sampleSession "s3") 3 true, .getSessionById "s3" none true,
      .createConversation renewed none (some "c-s3"), .warmup renewed "c-s3" none true,
      .sendMessage renewed "c-s3" none true]

/-- Two first messages of a chat, each handled before the other has inserted its session. -/
def sampleForked : List SessionStep :=
  [.getOrCreateSession .dispatch "u1" "chat" "acp" "s1" 0,
    .getOrCreateSession .dispatch "u1" "chat" "acp" "s2" 0,
    .selectSession .dispatch (sampleSession "s1") true,
    .selectSession .dispatch (sampleSession "s2") true] ++
    (sampleFirst "s1").tail ++ (sampleFirst "s2").tail

theorem sample_serial :
    (machine.restrict Serial).Reachable ((machine.restrict Serial).run boot sampleMessages) :=
  Machine.reachable_run rfl (by decide +kernel)

theorem one_conversation_per_chat_sample :
    ((machine.restrict Serial).run boot sampleMessages).Isolated :=
  one_conversation_per_chat sample_serial

/-- Two quick first messages of a chat leave two sessions, each with a conversation of its own. -/
theorem first_messages_fork :
    machine.Reachable (machine.run boot sampleForked) ∧
      ¬(machine.run boot sampleForked).Isolated ∧
      (machine.run boot sampleForked).sent =
        [⟨("u1", some "chat"), "c-s1", 0⟩, ⟨("u1", some "chat"), "c-s2", 0⟩] := by
  have hkeys : (machine.run boot sampleForked).sessions.map (·.key) =
      [("u1", some "chat"), ("u1", some "chat")] := by decide +kernel
  refine ⟨Machine.reachable_run rfl (by decide +kernel), fun h => ?_, by decide +kernel⟩
  have hunique := h.unique
  rw [hkeys] at hunique
  revert hunique
  decide

end Sample

end SessionTable

end AionCore.Channel
