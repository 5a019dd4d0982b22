import AionCore.Team.Mailbox

/-!
# Messages that are unread stay owned

`reconcile_mailbox` takes a queued message that is not in the peeked list for one that
has been read. That is right unless the message was committed after the peek or was sent
by the slot itself; under this condition every committed message that is unread keeps
its intent, and without it the reconciliation drops one.
-/

namespace AionCore.Team

namespace TeamMail

variable (t : TeamMail)

def IsFor (slotId : String) (row : MailboxMessageRow) : Prop :=
  row.teamId = t.teamId ∧ row.toAgentId = slotId

/-- Coordinator, mailbox and peeks fit together. -/
structure Stored (d : Delivery) : Prop where
  sound : t.coordinator.Sound d.work
  ids : ∀ (n : ℕ) row, d.rows[n]? = some row → row.id = t.generateId.draw n
  /-- Every message of an intent lies in the store for the intent's slot. -/
  messages : ∀ i x m, d.work.state.intents.lookup i = some x → x.mailboxMessageId = some m →
    ∃ row ∈ d.rows, row.id = m ∧ t.IsFor x.slotId row
  seen : ∀ p ∈ d.peeks, p.seen ≤ d.rows.length
  /-- A peek lists messages of others that had been written for its slot by then. -/
  listed : ∀ p ∈ d.peeks, ∀ m ∈ p.unreadIds, ∃ (n : ℕ) (row : MailboxMessageRow), n < p.seen ∧
    d.rows[n]? = some row ∧ row.id = m ∧ t.IsFor p.slotId row ∧ row.fromAgentId ≠ p.slotId
  /-- A peek lists all such messages that are still unread. -/
  complete : ∀ p ∈ d.peeks, ∀ (n : ℕ) (row : MailboxMessageRow), n < p.seen →
    d.rows[n]? = some row → t.IsFor p.slotId row → row.fromAgentId ≠ p.slotId →
    row.read = false → row.id ∈ p.unreadIds

variable {t} {d : Delivery}

theorem Stored.empty : t.Stored .empty where
  sound := .empty
  ids n row h := by simp [Delivery.empty] at h
  messages i x m h := by simp [Delivery.empty, Tracked.empty, CoordinatorState.empty] at h
  seen p h := by simp [Delivery.empty] at h
  listed p h := by simp [Delivery.empty] at h
  complete p h := by simp [Delivery.empty] at h

/-- The mailbox grows or has messages marked as read. -/
theorem Stored.rows (h : t.Stored d) {rows : List MailboxMessageRow}
    (hg : Mailbox.Grows d.rows rows) (hlen : d.rows.length ≤ rows.length)
    (hids : ∀ (n : ℕ) row, rows[n]? = some row → row.id = t.generateId.draw n) :
    t.Stored { d with rows } where
  sound := h.sound
  ids := hids
  messages i x m hx hm := by
    obtain ⟨row, hrow, hid, hfor⟩ := h.messages i x m hx hm
    obtain ⟨read, hmem, -⟩ := hg.exists_mem hrow
    exact ⟨_, hmem, hid, hfor⟩
  seen p hp := (h.seen p hp).trans hlen
  listed p hp m hm := by
    obtain ⟨n, row, hn, hrow, hid, hfor, hfrom⟩ := h.listed p hp m hm
    obtain ⟨read, hread, -⟩ := hg n row hrow
    exact ⟨n, _, hn, hread, hid, hfor, hfrom⟩
  complete p hp n row' hn hrow' hfor hfrom hunread := by
    obtain ⟨row, hrow⟩ : ∃ row, d.rows[n]? = some row :=
      ⟨_, List.getElem?_eq_getElem (lt_of_lt_of_le hn (h.seen p hp))⟩
    obtain ⟨read, hread, himp⟩ := hg n row hrow
    obtain rfl : { row with read := read } = row' := Option.some.inj (hread.symm.trans hrow')
    refine h.complete p hp n row hn hrow hfor hfrom ?_
    by_contra hne
    rw [Bool.not_eq_false] at hne
    exact Bool.false_ne_true (hunread.symm.trans (himp hne))

theorem Stored.write (h : t.Stored d) (toAgentId fromAgentId : String) (now : TimestampMs) :
    t.Stored (t.fire d (.write toAgentId fromAgentId now)) := by
  refine h.rows (Mailbox.grows_writeMessage _ _) (by simp [Mailbox.writeMessage])
    fun n row hrow => ?_
  rw [Mailbox.writeMessage, List.getElem?_append] at hrow
  split at hrow
  · exact h.ids n row hrow
  · obtain ⟨hn, rfl⟩ : n - d.rows.length = 0 ∧ t.newRow d.rows toAgentId fromAgentId now = row := by
      simpa [List.getElem?_singleton] using hrow
    have : n = d.rows.length := by omega
    rw [this, newRow]

theorem Stored.markRead (h : t.Stored d) (messageIds : List String) :
    t.Stored (t.fire d (.markRead messageIds)) := by
  refine h.rows (Mailbox.grows_markReadBatch _ _) (by simp [Mailbox.markReadBatch])
    fun n row hrow => ?_
  rw [Mailbox.getElem?_markReadBatch] at hrow
  obtain ⟨old, hold, rfl⟩ := Option.map_eq_some_iff.mp hrow
  have hid := h.ids n old hold
  split <;> exact hid

theorem Stored.row_unique (h : t.Stored d) {n k : ℕ} {row row' : MailboxMessageRow}
    (hn : d.rows[n]? = some row) (hk : d.rows[k]? = some row') (hid : row.id = row'.id) :
    n = k ∧ row = row' := by
  have hnk : n = k := t.generateId.fresh (by rw [← h.ids n row hn, hid, h.ids k row' hk])
  subst hnk
  exact ⟨rfl, Option.some.inj (hn.symm.trans hk)⟩

theorem mem_unreadIds {rows : List MailboxMessageRow} {slotId m : String} :
    m ∈ t.unreadIds rows slotId ↔ ∃ row ∈ rows, row.id = m ∧ t.IsFor slotId row ∧
      row.fromAgentId ≠ slotId ∧ row.read = false := by
  simp only [unreadIds, List.mem_map, List.mem_filter, Mailbox.mem_peekUnread, decide_eq_true_eq,
    IsFor]
  constructor
  · rintro ⟨row, ⟨⟨hrow, hteam, hto, hread⟩, hfrom⟩, rfl⟩
    exact ⟨row, hrow, rfl, ⟨hteam, hto⟩, hfrom, hread⟩
  · rintro ⟨row, hrow, rfl, ⟨hteam, hto⟩, hfrom, hread⟩
    exact ⟨row, ⟨⟨hrow, hteam, hto, hread⟩, hfrom⟩, rfl⟩

theorem Stored.peek (h : t.Stored d) (slotId : String) : t.Stored (t.fire d (.peek slotId)) where
  sound := h.sound
  ids := h.ids
  messages := h.messages
  seen p hp := by
    rcases List.mem_append.mp hp with hp | hp
    · exact h.seen p hp
    · obtain rfl := List.mem_singleton.mp hp
      exact le_rfl
  listed p hp m hm := by
    rcases List.mem_append.mp hp with hp | hp
    · exact h.listed p hp m hm
    · obtain rfl := List.mem_singleton.mp hp
      obtain ⟨row, hrow, hid, hfor, hfrom, -⟩ := mem_unreadIds.mp hm
      obtain ⟨n, hn⟩ := List.mem_iff_getElem?.mp hrow
      exact ⟨n, row, (List.getElem?_eq_some_iff.mp hn).1, hn, hid, hfor, hfrom⟩
  complete p hp n row hn hrow hfor hfrom hread := by
    rcases List.mem_append.mp hp with hp | hp
    · exact h.complete p hp n row hn hrow hfor hfrom hread
    · obtain rfl := List.mem_singleton.mp hp
      exact mem_unreadIds.mpr
        ⟨row, List.mem_iff_getElem?.mpr ⟨n, hrow⟩, rfl, hfor, hfrom, hread⟩

variable {call : Call} {i : String}

/-- An intent after a step of the coordinator was there before, with the same message and
slot, or it is new. -/
theorem lookup_before (h : t.coordinator.Sound d.work)
    (hcall : t.coordinator.machine.admits d.work call) {y : WorkIntent}
    (hy : (t.coordinator.fire d.work call).state.intents.lookup i = some y) :
    (∃ x, d.work.state.intents.lookup i = some x ∧ y.mailboxMessageId = x.mailboxMessageId ∧
      y.slotId = x.slotId) ∨ d.work.state.intents.lookup i = none := by
  cases hx : d.work.state.intents.lookup i with
  | none => exact .inr rfl
  | some x =>
    obtain ⟨state, hx', -⟩ := h.persists hcall hx
    obtain rfl : { x with state } = y := Option.some.inj (hx'.symm.trans hy)
    exact .inl ⟨x, rfl, rfl, rfl⟩

/-- A step of the coordinator keeps the store, if the messages of new intents lie in it. -/
theorem Stored.work (h : t.Stored d) (call : Call)
    (hcall : t.coordinator.machine.admits d.work call)
    (hnew : ∀ i y m, d.work.state.intents.lookup i = none →
      (t.coordinator.fire d.work call).state.intents.lookup i = some y →
      y.mailboxMessageId = some m → ∃ row ∈ d.rows, row.id = m ∧ t.IsFor y.slotId row)
    (committed : List CommittedMessage) {peeks : List Peek} (hpeeks : peeks ⊆ d.peeks) :
    t.Stored ⟨t.coordinator.fire d.work call, d.rows, peeks, committed⟩ where
  sound := h.sound.step hcall
  ids := h.ids
  messages i y m hy hm := by
    rcases lookup_before h.sound hcall hy with ⟨x, hx, hmessage, hslot⟩ | hnone
    · rw [hslot]
      exact h.messages i x m hx (hmessage ▸ hm)
    · exact hnew i y m hnone hy hm
  seen p hp := h.seen p (hpeeks hp)
  listed p hp := h.listed p (hpeeks hp)
  complete p hp := h.complete p (hpeeks hp)

theorem Stored.operate (h : t.Stored d) (hcall : t.machine.admits d (.operate call)) :
    t.Stored (t.fire d (.operate call)) := by
  obtain ⟨hends, hbatch, hmessage⟩ := hcall
  refine h.work _ hbatch (fun i y m hnone hy hm => ?_) _ (List.Subset.refl _)
  rcases SlotWorkCoordinator.created_cases hnone hy with
    ⟨lease, m', now, slot, hop, -, rfl⟩ | ⟨slotId, unread, role, now, hop, -⟩
  · obtain rfl : m' = some m := hm
    obtain ⟨row, hrow, hid, hteam, hto⟩ := hmessage (lease.slotId, m) (by rw [hop]; rfl)
    exact ⟨row, hrow, hid, hteam, hto⟩
  · rw [hop] at hends
    cases hends

variable {p : Peek} {k : ℕ}

theorem reconcile_eq (hk : d.peeks[k]? = some p) (role : TeamRunTargetRole) (now : TimestampMs) :
    t.fire d (.reconcile k role now) =
      ⟨t.coordinator.fire d.work (reconcileCall p role now), d.rows, d.peeks.eraseIdx k,
        d.committed⟩ := by
  simp only [TeamMail.fire, hk]

theorem Stored.reconcile (h : t.Stored d) (hk : d.peeks[k]? = some p) (role : TeamRunTargetRole)
    (now : TimestampMs) :
    t.Stored (t.fire d (.reconcile k role now)) := by
  rw [reconcile_eq hk]
  refine h.work (reconcileCall p role now) (by rintro b hb; cases hb)
    (fun i y m hnone hy hm => ?_) _ (List.eraseIdx_subset)
  rcases SlotWorkCoordinator.created_cases hnone hy with
    ⟨_, _, _, _, hop, -⟩ | ⟨_, unread, _, _, hop, s₀, m', hm', rfl⟩
  · cases hop
  · obtain ⟨rfl, rfl, -⟩ : p.slotId = _ ∧ p.unreadIds = unread ∧ _ := by
      simpa [reconcileCall] using hop
    obtain rfl : m' = m := Option.some.inj hm
    obtain ⟨n, row, -, hrow, hid, hfor, -⟩ := h.listed p (List.mem_of_getElem? hk) m' hm'
    exact ⟨row, List.mem_of_getElem? hrow, hid, hfor⟩

theorem Stored.step (h : t.Stored d) {step : DeliveryStep} (hstep : t.machine.admits d step) :
    t.Stored (t.machine.fire d step) := by
  cases step with
  | write toAgentId fromAgentId now => exact h.write toAgentId fromAgentId now
  | markRead messageIds => exact h.markRead messageIds
  | peek slotId => exact h.peek slotId
  | reconcile k role now => exact h.reconcile (List.getElem?_eq_getElem hstep) role now
  | operate call => exact h.operate hstep

theorem stored_of_reachable (h : t.machine.Reachable d) : t.Stored d :=
  h.invariant (by rintro _ rfl; exact .empty) fun _ _ hd hstep => hd.step hstep

/-- The step completes a queued intent only if its message has been marked read. -/
def CompletesRead (t : TeamMail) (d : Delivery) (step : DeliveryStep) : Prop :=
  ∀ i x y m, d.work.state.intents.lookup i = some x → x.state = .queued →
    x.mailboxMessageId = some m → (t.fire d step).work.state.intents.lookup i = some y →
    y.state = .completed → Mailbox.Read d.rows m

/-- When a peek is reconciled, every unread message that is queued in its slot was written
before the peek and by someone else. -/
def FreshPeek (d : Delivery) (step : DeliveryStep) : Prop :=
  ∀ k role now p, step = .reconcile k role now → d.peeks[k]? = some p →
    ∀ i ∈ d.work.state.queuesOf p.slotId, ∀ x m, d.work.state.intents.lookup i = some x →
      x.mailboxMessageId = some m → ∀ (n : ℕ) (row : MailboxMessageRow), d.rows[n]? = some row →
      row.id = m → row.read = false → n < p.seen ∧ row.fromAgentId ≠ p.slotId

variable {x : WorkIntent}

theorem lookup_reconcile (h : t.Stored d) (hk : d.peeks[k]? = some p) (role : TeamRunTargetRole)
    (now : TimestampMs) (hx : d.work.state.intents.lookup i = some x) :
    (t.fire d (.reconcile k role now)).work.state.intents.lookup i =
      some (SlotWorkCoordinator.reconciled d.work.state p.slotId p.unreadIds i x) := by
  rw [reconcile_eq hk]
  exact SlotWorkCoordinator.lookup_reconcileMailbox h.sound.logged p.unreadIds hx

theorem Stored.queued (h : t.Stored d) {slotId i : String} (hq : i ∈ d.work.state.queuesOf slotId)
    (hx : d.work.state.intents.lookup i = some x) :
    x.slotId = slotId ∧ x.state = .queued := by
  obtain ⟨priority, hqueue⟩ := CoordinatorState.mem_queuesOf.mp hq
  obtain ⟨x', hx', hslot, -, hqueued⟩ :=
    (CoordinatorState.mem_queueOf h.sound.coherent).mp hqueue
  obtain rfl : x = x' := Option.some.inj (hx.symm.trans hx')
  exact ⟨hslot, hqueued⟩

variable {role : TeamRunTargetRole} {now : TimestampMs}

/-- A queued message that a fresh peek does not list has been read. -/
theorem Stored.read_of_stale (h : t.Stored d) (hk : d.peeks[k]? = some p)
    (hfresh : FreshPeek d (.reconcile k role now)) {m : String}
    (hq : i ∈ d.work.state.queuesOf p.slotId) (hx : d.work.state.intents.lookup i = some x)
    (hm : x.mailboxMessageId = some m) (hstale : m ∉ p.unreadIds) : Mailbox.Read d.rows m := by
  obtain ⟨row, hrow, hid, hfor⟩ := h.messages i x m hx hm
  obtain ⟨n, hn⟩ := List.mem_iff_getElem?.mp hrow
  refine ⟨row, hrow, hid, ?_⟩
  by_contra hunread
  rw [Bool.not_eq_true] at hunread
  obtain ⟨hseen, hfrom⟩ := hfresh k role now p rfl hk i hq x m hx hm n row hn hid hunread
  refine hstale ?_
  rw [← hid]
  exact h.complete p (List.mem_of_getElem? hk) n row hseen hn ((h.queued hq hx).1 ▸ hfor) hfrom
    hunread

theorem isStale_iff {s : CoordinatorState} {unread : List String}
    (hx : s.intents.lookup i = some x) : SlotWorkCoordinator.isStale s unread i ↔
      ∃ m, x.mailboxMessageId = some m ∧ m ∉ unread := by
  simp [SlotWorkCoordinator.isStale, hx, Option.any_eq_true]

theorem Stored.completesRead_iff (h : t.Stored d) {step : DeliveryStep}
    (hstep : t.machine.admits d step) : t.CompletesRead d step ↔ FreshPeek d step := by
  constructor
  · rintro hread k role now p rfl hk i hq x m hx hm n row hn hid hunread
    -- what the peek lists was there before it; what it does not list is completed, hence read
    by_cases hlisted : m ∈ p.unreadIds
    · obtain ⟨n', row', hseen, hn', hid', -, hfrom⟩ :=
        h.listed p (List.mem_of_getElem? hk) m hlisted
      obtain ⟨rfl, rfl⟩ := h.row_unique hn hn' (hid.trans hid'.symm)
      exact ⟨hseen, hfrom⟩
    · have hstale := (isStale_iff hx).mpr ⟨m, hm, hlisted⟩
      have hy := lookup_reconcile h hk role now hx
      rw [SlotWorkCoordinator.reconciled, if_pos ⟨hq, hstale⟩] at hy
      obtain ⟨row', hrow', hid', hread'⟩ :=
        hread i x _ m hx (h.queued hq hx).2 hm hy rfl
      obtain ⟨n', hn'⟩ := List.mem_iff_getElem?.mp hrow'
      obtain ⟨-, rfl⟩ := h.row_unique hn hn' (hid.trans hid'.symm)
      exact absurd (hunread.symm.trans hread') Bool.false_ne_true
  · intro hfresh i x y m hx hq hm hy hcompleted
    cases step with
    | write _ _ _ | markRead _ | peek _ =>
      obtain rfl : x = y := Option.some.inj (hx.symm.trans hy)
      rw [hq] at hcompleted
      cases hcompleted
    | reconcile k role now =>
      have hk : d.peeks[k]? = some d.peeks[k] := List.getElem?_eq_getElem hstep
      rw [lookup_reconcile h hk role now hx] at hy
      obtain rfl := Option.some.inj hy
      unfold SlotWorkCoordinator.reconciled at hcompleted
      split at hcompleted
      · rename_i hclear
        obtain ⟨m', hm', hnot⟩ := (isStale_iff hx).mp hclear.2
        obtain rfl : m' = m := Option.some.inj (hm'.symm.trans hm)
        exact h.read_of_stale hk hfresh hclear.1 hx hm hnot
      · rw [hq] at hcompleted
        cases hcompleted
    | operate call =>
      -- no other call of the session ends an intent
      obtain ⟨z, hz, hopen⟩ := h.sound.staysOpen hstep.1 hx (by rw [hq]; rfl)
      obtain rfl : z = y := Option.some.inj (hz.symm.trans hy)
      rw [hcompleted] at hopen
      cases hopen

/-- The message still has the intent it was committed with: Queued, Starting or Running,
in its slot, with its priority and its run. -/
def Owned (s : CoordinatorState) (e : CommittedMessage) : Prop :=
  ∃ x, s.intents.lookup e.intentId = some x ∧ x.mailboxMessageId = some e.messageId ∧
    x.slotId = e.slotId ∧ x.priority = e.priority ∧ x.teamRunId = e.teamRunId ∧
    x.state.isTerminal = false

/-- Every committed message that is unread is owned. -/
def OwnsUnread (d : Delivery) : Prop :=
  ∀ e ∈ d.committed, ¬Mailbox.Read d.rows e.messageId → Owned d.work.state e

variable {e : CommittedMessage}

/-- A commit makes the message owned. -/
theorem owned_of_committedBy {w : Tracked}
    (he : e ∈ committedBy call.op (t.coordinator.exec call.bindEnqueue w.state call.op).result) :
    Owned (t.coordinator.fire w call).state e := by
  obtain ⟨op, bindEnqueue⟩ := call
  cases op with
  | commitEnqueue lease messageId now =>
    cases messageId with
    | none => simp [committedBy] at he
    | some m =>
      simp only [SlotWorkCoordinator.fire, SlotWorkCoordinator.exec, Outcome.map,
        SlotWorkCoordinator.commitEnqueue] at he ⊢
      split at he <;> rename_i hcheck
      · simp [committedBy] at he
      · simp only [committedBy, List.mem_singleton] at he
        subst he
        exact ⟨_, AList.lookup_insert _, rfl, rfl, rfl, rfl, rfl⟩
  | _ => simp [committedBy] at he

theorem Owned.operate (he : Owned d.work.state e) (h : t.Stored d)
    (hcall : t.machine.admits d (.operate call)) :
    Owned (t.coordinator.fire d.work call).state e := by
  obtain ⟨x, hx, hm, hslot, hprio, hrun, hopen⟩ := he
  obtain ⟨state, hx', -⟩ := h.sound.persists hcall.2.1 hx
  obtain ⟨y, hy, hyopen⟩ := h.sound.staysOpen hcall.1 hx hopen
  obtain rfl : { x with state } = y := Option.some.inj (hx'.symm.trans hy)
  exact ⟨_, hy, hm, hslot, hprio, hrun, hyopen⟩

/-- A reconciliation with a fresh peek keeps an unread message owned. -/
theorem Owned.reconcile (he : Owned d.work.state e) (h : t.Stored d) (hk : d.peeks[k]? = some p)
    (hfresh : FreshPeek d (.reconcile k role now)) (hunread : ¬Mailbox.Read d.rows e.messageId) :
    Owned (t.fire d (.reconcile k role now)).work.state e := by
  obtain ⟨x, hx, hm, hrest⟩ := he
  refine ⟨x, ?_, hm, hrest⟩
  rw [lookup_reconcile h hk role now hx, SlotWorkCoordinator.reconciled, if_neg]
  rintro ⟨hq, hstale⟩
  obtain ⟨m, hm', hnot⟩ := (isStale_iff hx).mp hstale
  obtain rfl : e.messageId = m := Option.some.inj (hm.symm.trans hm')
  exact hunread (h.read_of_stale hk hfresh hq hx hm hnot)

theorem OwnsUnread.step (hd : OwnsUnread d) (h : t.Stored d) {step : DeliveryStep}
    (hstep : t.machine.admits d step) (hfresh : FreshPeek d step) :
    OwnsUnread (t.machine.fire d step) := by
  intro e he hunread
  cases step with
  | write toAgentId fromAgentId now =>
    exact hd e he fun hread => hunread (hread.grows (Mailbox.grows_writeMessage _ _))
  | markRead messageIds =>
    exact hd e he fun hread => hunread (hread.grows (Mailbox.grows_markReadBatch _ _))
  | peek slotId => exact hd e he hunread
  | reconcile k role now =>
    have hk : d.peeks[k]? = some d.peeks[k] := List.getElem?_eq_getElem hstep
    change e ∈ (t.fire d (.reconcile k role now)).committed at he
    change ¬Mailbox.Read (t.fire d (.reconcile k role now)).rows e.messageId at hunread
    rw [reconcile_eq hk] at he hunread
    exact (hd e he hunread).reconcile h hk hfresh hunread
  | operate call =>
    rcases List.mem_append.mp he with he | he
    · exact (hd e he hunread).operate h hstep
    · exact owned_of_committedBy he

/-- In every interleaving in which each reconciled peek is fresh, a committed message that
is unread is owned. A step completes only intents whose message has been read exactly if
the peek that it reconciles, if any, is fresh. -/
theorem unread_messages_stay_owned (h : (t.machine.restrict FreshPeek).Reachable d) :
    OwnsUnread d ∧
      ∀ step, t.machine.admits d step → (t.CompletesRead d step ↔ FreshPeek d step) := by
  constructor
  · refine h.invariant_of_reachable ?_ fun d step hd howned hstep =>
      howned.step (stored_of_reachable hd.of_restrict) hstep.1 hstep.2
    rintro _ rfl e he
    simp [Delivery.empty] at he
  · intro step hstep
    exact (stored_of_reachable h.of_restrict).completesRead_iff hstep

open SlotWorkCoordinator (bound userRequest userLease)

/-- The sample coordinator with messages `m`, `mm`, `mmm`. -/
def sample : TeamMail := ⟨.sample, "team", .tallyOf 'm'⟩

/-- The user's message for the lead is written and committed for run `r`. -/
def sendUserMessage : List DeliveryStep :=
  [.operate (bound (some "r") (.acquireEnqueue userRequest)), .write "lead" "user" 0,
    .operate (bound none (.commitEnqueue userLease (some "m") 0))]

theorem unread_messages_stay_owned_sample :
    OwnsUnread (sample.machine.run .empty sendUserMessage) ∧
      ∀ step, sample.machine.admits (sample.machine.run .empty sendUserMessage) step →
        (sample.CompletesRead (sample.machine.run .empty sendUserMessage) step ↔
          FreshPeek (sample.machine.run .empty sendUserMessage) step) :=
  unread_messages_stay_owned (Machine.reachable_run (M := sample.machine.restrict FreshPeek) rfl
    ⟨⟨by decide, nofun⟩, ⟨trivial, nofun⟩, ⟨by decide, nofun⟩, trivial⟩)

def userIntent (state : WorkIntentState) : WorkIntent :=
  ⟨"xx", "session", "lead", .lead, .userMessage, .foreground, some "m", some "r", 0, state⟩

/-- The lead's mailbox is peeked at while it is empty; then a message is committed, and the
reconciliation with the empty list completes its intent, though nobody has read it. -/
theorem late_message_is_dropped :
    ∃ d step, sample.machine.Reachable d ∧ sample.machine.admits d step ∧
      ¬sample.CompletesRead d step ∧ ¬OwnsUnread (sample.machine.fire d step) := by
  refine ⟨sample.machine.run .empty (.peek "lead" :: sendUserMessage), .reconcile 0 .lead 0,
    Machine.reachable_run rfl (by decide), by decide, fun hread => ?_, fun hown => ?_⟩
  · exact absurd (hread "xx" (userIntent .queued) (userIntent .completed) "m" (by decide) rfl rfl
      (by decide) rfl) (by decide)
  · obtain ⟨x, hx, -, -, -, -, hopen⟩ :=
      hown ⟨"m", "xx", "lead", .foreground, some "r"⟩ (by decide) (by decide)
    obtain rfl : userIntent .completed = x := Option.some.inj (hx.symm.trans (by decide)).symm
    cases hopen

end TeamMail

end AionCore.Team
