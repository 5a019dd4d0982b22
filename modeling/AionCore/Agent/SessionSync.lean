import AionCore.Lib.Layers
import AionCore.Lib.Machine

/-!
# ACP agents: what is kept of a session

`acp_session_sync.rs` for one conversation: each manager has a channel for the events of its
session, and the channel a consumer, which collects what was observed and writes it to the row after
a while. The selections of the config stand for the JSON that they are written as.
-/

namespace AionCore.Agent

inductive AcpSessionEvent where
  | sessionOpened
  | sessionAssigned (sessionId : String)
  | desiredModeChanged (mode : String)
  | desiredModelChanged (model : String)
  | desiredConfigChanged (selections : String)
  | observedModeSynced (mode : String)
  | observedModelSynced (model : String)
  | observedConfigSynced (selections : String)
  | observedContextUsageChanged (usageJson : String)

inductive RuntimeField where
  | currentModeId
  | currentModelId
  | configSelectionsJson
  | contextUsageJson
  deriving DecidableEq

structure RuntimeFields (α : Type) where
  currentModeId : α
  currentModelId : α
  configSelectionsJson : α
  contextUsageJson : α
  deriving DecidableEq

def RuntimeFields.get {α : Type} (fields : RuntimeFields α) : RuntimeField → α
  | .currentModeId => fields.currentModeId
  | .currentModelId => fields.currentModelId
  | .configSelectionsJson => fields.configSelectionsJson
  | .contextUsageJson => fields.contextUsageJson

abbrev RuntimeRow := RuntimeFields (Option String)

abbrev PendingUpdate := RuntimeFields (Option (Option String))

namespace PendingUpdate

def default : PendingUpdate := ⟨none, none, none, none⟩

def isEmpty (p : PendingUpdate) : Bool :=
  p.currentModeId.isNone && p.currentModelId.isNone && p.configSelectionsJson.isNone &&
    p.contextUsageJson.isNone

def mergeFromDomainEvent (p : PendingUpdate) : AcpSessionEvent → Option PendingUpdate
  | .observedModeSynced mode => some { p with currentModeId := some (some mode) }
  | .observedModelSynced model => some { p with currentModelId := some (some model) }
  | .observedConfigSynced selections =>
    some { p with configSelectionsJson := some (some selections) }
  | .observedContextUsageChanged usageJson =>
    some { p with contextUsageJson := some (some usageJson) }
  | _ => none

end PendingUpdate

/-- The row that `save_runtime_state` writes, from the one that it has read. -/
def RuntimeRow.apply (row : RuntimeRow) (p : PendingUpdate) : RuntimeRow where
  currentModeId := p.currentModeId.getD row.currentModeId
  currentModelId := p.currentModelId.getD row.currentModelId
  configSelectionsJson := p.configSelectionsJson.getD row.configSelectionsJson
  contextUsageJson := p.contextUsageJson.getD row.contextUsageJson

/-- What the consumer waits for: the next event or its timer, the write of a session id, or the two
statements of a save, after which it may exit. -/
inductive ConsumerPhase where
  | reading
  | assigning (sessionId : String)
  | saving (loaded : Option RuntimeRow) (exits : Bool)
  | exited
  deriving DecidableEq

structure Consumer where
  pending : PendingUpdate
  flushAt : Bool
  phase : ConsumerPhase

namespace Consumer

def spawned : Consumer := ⟨.default, false, .reading⟩

def aborted : Consumer := ⟨.default, false, .exited⟩

/-- `flush`, up to its first statement. -/
def flush (t : Consumer) (exits : Bool) : Consumer :=
  if t.pending.isEmpty then
    { t with flushAt := false, phase := if exits then .exited else .reading }
  else { t with flushAt := false, phase := .saving none exits }

/-- The end of `flush`. -/
def flushed (t : Consumer) (exits : Bool) : Consumer :=
  { t with pending := .default, phase := if exits then .exited else .reading }

def receive (t : Consumer) (event : AcpSessionEvent) : Consumer :=
  match event with
  | .sessionAssigned sessionId => { t with phase := .assigning sessionId }
  | _ =>
    match t.pending.mergeFromDomainEvent event with
    | some pending => { t with pending, flushAt := true }
    | none => t

end Consumer

/-- The channel of a manager, with its consumer once it is attached. -/
structure DomainChannel where
  queue : List AcpSessionEvent
  isOpen : Bool
  consumer : Option Consumer

/-- The row of the conversation, as it was at first and now, the channels of its managers in order,
the one whose consumer is in the map, those still to be put there, the events that were sent, and
whether the last save has succeeded. -/
structure SessionSync where
  initial : RuntimeRow
  row : RuntimeRow
  sessionId : Option String
  channels : List DomainChannel
  active : Option ℕ
  attaching : List ℕ
  sent : List AcpSessionEvent
  lastSaved : Bool

inductive SyncStep where
  | build
  | send (k : ℕ) (event : AcpSessionEvent)
  | close (k : ℕ)
  | spawn (k : ℕ)
  | register (k : ℕ)
  | receive (k : ℕ)
  | timer (k : ℕ)
  | finish (k : ℕ)
  | assigned (k : ℕ) (written : Bool)
  | load (k : ℕ)
  | store (k : ℕ)
  | fail (k : ℕ)

namespace SessionSync

def start (row : RuntimeRow) (sessionId : Option String) : SessionSync :=
  ⟨row, row, sessionId, [], none, [], [], true⟩

variable (w : SessionSync)

def attached (k : ℕ) : Option (DomainChannel × Consumer) :=
  w.channels[k]?.bind fun c => c.consumer.map fun t => (c, t)

def put (k : ℕ) (c : DomainChannel) : SessionSync := { w with channels := w.channels.set k c }

def putConsumer (k : ℕ) (c : DomainChannel) (t : Consumer) : SessionSync :=
  w.put k { c with consumer := some t }

def abort (k : ℕ) : SessionSync :=
  match w.attached k with
  | some (c, _) => w.putConsumer k { c with queue := [] } .aborted
  | none => w

def fire : SyncStep → SessionSync
  | .build => { w with channels := w.channels ++ [⟨[], true, none⟩] }
  | .send k event =>
    match w.channels[k]? with
    | some c => { w.put k { c with queue := c.queue ++ [event] } with sent := w.sent ++ [event] }
    | none => w
  | .close k =>
    match w.channels[k]? with
    | some c => w.put k { c with isOpen := false }
    | none => w
  | .spawn k =>
    match w.channels[k]? with
    | some c => { w.putConsumer k c .spawned with attaching := w.attaching ++ [k] }
    | none => w
  | .register k =>
    let replaced := match w.active with
      | some prev => w.abort prev
      | none => w
    { replaced with active := some k, attaching := w.attaching.erase k }
  | .receive k =>
    match w.attached k with
    | some (c, t) =>
      match c.queue with
      | event :: queue => w.putConsumer k { c with queue } (t.receive event)
      | [] => w
    | none => w
  | .timer k =>
    match w.attached k with
    | some (c, t) => w.putConsumer k c (t.flush false)
    | none => w
  | .finish k =>
    match w.attached k with
    | some (c, t) => w.putConsumer k c (t.flush true)
    | none => w
  | .assigned k written =>
    match w.attached k with
    | some (c, t) =>
      match t.phase with
      | .assigning sessionId =>
        { w.putConsumer k c { t with phase := .reading } with
          sessionId := if written then some sessionId else w.sessionId }
      | _ => w
    | none => w
  | .load k =>
    match w.attached k with
    | some (c, t) =>
      match t.phase with
      | .saving none exits => w.putConsumer k c { t with phase := .saving (some w.row) exits }
      | _ => w
    | none => w
  | .store k =>
    match w.attached k with
    | some (c, t) =>
      match t.phase with
      | .saving (some row) exits =>
        { w.putConsumer k c (t.flushed exits) with row := row.apply t.pending, lastSaved := true }
      | _ => w
    | none => w
  | .fail k =>
    match w.attached k with
    | some (c, t) =>
      match t.phase with
      | .saving _ exits => { w.putConsumer k c (t.flushed exits) with lastSaved := false }
      | _ => w
    | none => w

def attachedIs (k : ℕ) (p : DomainChannel → Consumer → Bool) : Bool :=
  (w.attached k).any fun (c, t) => p c t

/-- The steps that can be taken. An event that has arrived is read before the timer is looked at. -/
def ready : SyncStep → Bool
  | .build => true
  | .send k _ => w.channels[k]?.any fun c =>
      c.isOpen && c.consumer.all fun t => t.phase ≠ .exited
  | .close k => w.channels[k]?.any fun c => c.isOpen
  | .spawn k => w.channels[k]?.any fun c => c.consumer.isNone
  | .register k => k ∈ w.attaching
  | .receive k => w.attachedIs k fun c t => t.phase = .reading && !c.queue.isEmpty
  | .timer k => w.attachedIs k fun c t => 
      t.phase = .reading && t.flushAt && c.isOpen && c.queue.isEmpty
  | .finish k => w.attachedIs k fun c t => t.phase = .reading && !c.isOpen && c.queue.isEmpty
  | .assigned k _ => w.attachedIs k fun _ t =>
      match t.phase with
      | .assigning _ => true
      | _ => false
  | .load k => w.attachedIs k fun _ t =>
      match t.phase with
      | .saving none _ => true
      | _ => false
  | .store k => w.attachedIs k fun _ t =>
      match t.phase with
      | .saving (some _) _ => true
      | _ => false
  | .fail k => w.attachedIs k fun _ t =>
      match t.phase with
      | .saving _ _ => true
      | _ => false

def machine : Machine SessionSync SyncStep where
  start w := ∃ row sessionId, w = start row sessionId
  admits w step := w.ready step = true
  fire := fire

end SessionSync

/-- Everything that was sent was read and saved. -/
def DomainChannel.settled (c : DomainChannel) : Bool :=
  c.queue.isEmpty && c.consumer.all fun t => t.pending.isEmpty

namespace SessionSync

/-- No save fails, events go to the newest channel, a consumer is started for the newest channel
when the others are settled, and is aborted when its own one is. -/
def careful (w : SessionSync) : SyncStep → Bool
  | .send k _ => k + 1 = w.channels.length
  | .spawn k => k + 1 = w.channels.length && (w.channels.take k).all DomainChannel.settled
  | .register _ => w.active.all fun prev => w.channels[prev]?.all DomainChannel.settled
  | .fail _ => false
  | _ => true

def Careful (w : SessionSync) (step : SyncStep) : Prop := w.careful step = true

instance decidableAdmits : ∀ w step, Decidable (machine.admits w step) :=
  fun w step => inferInstanceAs (Decidable (w.ready step = true))

instance decidableCareful : ∀ w step, Decidable (Careful w step) :=
  fun w step => inferInstanceAs (Decidable (w.careful step = true))

end SessionSync

def AcpSessionEvent.observes (f : RuntimeField) : AcpSessionEvent → Option String
  | .observedModeSynced mode => if f = .currentModeId then some mode else none
  | .observedModelSynced model => if f = .currentModelId then some model else none
  | .observedConfigSynced selections => if f = .configSelectionsJson then some selections else none
  | .observedContextUsageChanged usageJson => if f = .contextUsageJson then some usageJson else none
  | _ => none

namespace SessionSync

def observed (w : SessionSync) (f : RuntimeField) : List String :=
  w.sent.filterMap (AcpSessionEvent.observes f)

def Finished (w : SessionSync) : Prop :=
  ∀ c ∈ w.channels, c.isOpen = false ∧ c.consumer.map Consumer.phase = some .exited

/-- If the last save has succeeded, then at the end each field is what was observed last, or what it
was at first. -/
def Converges (w : SessionSync) : Prop :=
  w.lastSaved = true → w.Finished →
    ∀ f, w.row.get f = (w.observed f).getLast?.or (w.initial.get f)

/-- A row that has only what was observed, or was there at first. -/
def Known (w : SessionSync) (row : RuntimeRow) : Prop :=
  ∀ f v, row.get f = some v → w.initial.get f = some v ∨ v ∈ w.observed f

end SessionSync

def AcpSessionEvent.layer (e : AcpSessionEvent) : Layer RuntimeField (Option String) :=
  fun f => (e.observes f).map some

def DomainChannel.layers (c : DomainChannel) : List (Layer RuntimeField (Option String)) :=
  (c.consumer.map fun t => t.pending.get).toList ++ c.queue.map AcpSessionEvent.layer

/-- A save that has begun has something to write and has read the row as it is, and before an exit
it is the last; a consumer that has ended leaves nothing. -/
def DomainChannel.Fine (row : RuntimeRow) (c : DomainChannel) : Prop :=
  ∀ t, c.consumer = some t →
    (∀ loaded exits, t.phase = .saving loaded exits → t.pending.isEmpty = false ∧
      (∀ row', loaded = some row' → row' = row) ∧
      (exits = true → c.queue = [] ∧ c.isOpen = false)) ∧
    (t.phase = .exited → c.settled = true)

section

variable {c c' : DomainChannel} {t : Consumer} {e : AcpSessionEvent} {row : RuntimeRow}
  {base : RuntimeField → Option String} {p : PendingUpdate}

theorem isEmpty_iff_clear : p.isEmpty = true ↔ Layer.Clear p.get := by
  unfold PendingUpdate.isEmpty Layer.Clear
  simp only [Bool.and_eq_true, Option.isNone_iff_eq_none]
  constructor
  · rintro ⟨⟨⟨hmode, hmodel⟩, hconfig⟩, husage⟩ f
    cases f <;> assumption
  · intro h
    exact ⟨⟨⟨h .currentModeId, h .currentModelId⟩, h .configSelectionsJson⟩, h .contextUsageJson⟩

theorem get_apply : (row.apply p).get = Layer.onto p.get row.get := by
  funext f
  cases f <;> rfl

theorem onto_receive : Layer.onto (t.receive e).pending.get base =
    e.layer.onto (Layer.onto t.pending.get base) := by
  funext f
  cases e <;> cases f <;> rfl

theorem clear_of_settled (h : c.settled = true) : ∀ layer ∈ c.layers, layer.Clear := by
  unfold DomainChannel.settled at h
  rw [Bool.and_eq_true, List.isEmpty_iff, Option.all_eq_true] at h
  intro layer hlayer
  unfold DomainChannel.layers at hlayer
  rw [h.1, List.map_nil, List.append_nil, Option.mem_toList,
    Option.map_eq_some_iff] at hlayer
  obtain ⟨t, ht, rfl⟩ := hlayer
  exact isEmpty_iff_clear.mp (h.2 t ht)

theorem lay_of_settled (h : c.settled = true) : Layer.lay c.layers base = base :=
  Layer.lay_of_clear (clear_of_settled h)

theorem lay_channels {before after : List DomainChannel} :
    Layer.lay ((before ++ c :: after).flatMap DomainChannel.layers) base =
      Layer.lay (after.flatMap DomainChannel.layers)
        (Layer.lay c.layers (Layer.lay (before.flatMap DomainChannel.layers) base)) := by
  rw [List.flatMap_append, List.flatMap_cons, Layer.lay_append, Layer.lay_append]

end

namespace SessionSync

variable {w : SessionSync} {k : ℕ} {c c' : DomainChannel} {t : Consumer} {step : SyncStep}

theorem attached_eq_some :
    w.attached k = some (c, t) ↔ w.channels[k]? = some c ∧ c.consumer = some t := by
  unfold attached
  simp only [Option.bind_eq_some_iff, Option.map_eq_some_iff, Prod.mk.injEq]
  constructor
  · rintro ⟨c', hc, t', ht, rfl, rfl⟩
    exact ⟨hc, ht⟩
  · rintro ⟨hc, ht⟩
    exact ⟨c, hc, t, ht, rfl, rfl⟩

theorem attachedIs_iff {p : DomainChannel → Consumer → Bool} :
    w.attachedIs k p = true ↔ ∃ c t, w.attached k = some (c, t) ∧ p c t = true := by
  unfold attachedIs
  rw [Option.any_eq_true]
  constructor
  · rintro ⟨⟨c, t⟩, h, hp⟩
    exact ⟨c, t, h, hp⟩
  · rintro ⟨c, t, h, hp⟩
    exact ⟨(c, t), h, hp⟩

theorem exists_split (h : w.channels[k]? = some c) : ∃ before after,
    w.channels = before ++ c :: after ∧ before.length = k ∧
      ∀ c', w.channels.set k c' = before ++ c' :: after := by
  obtain ⟨hk, rfl⟩ := List.getElem?_eq_some_iff.mp h
  refine ⟨w.channels.take k, w.channels.drop (k + 1), ?_, ?_, fun c' => ?_⟩
  · rw [List.getElem_cons_drop, List.take_append_drop]
  · exact List.length_take_of_le (Nat.le_of_lt hk)
  · exact List.set_eq_take_append_cons_drop.trans (if_pos hk)

/-- Laid over the row, what is still to be saved gives what was observed last; and all that comes
before a channel with a consumer is saved. -/
structure Kept (w : SessionSync) : Prop where
  laid : Layer.lay (w.channels.flatMap DomainChannel.layers) w.row.get =
    Layer.lay (w.sent.map AcpSessionEvent.layer) w.initial.get
  ordered : w.channels.Pairwise fun a b => b.consumer.isSome = true → a.settled = true
  fine : ∀ c ∈ w.channels, c.Fine w.row

theorem kept_start (row : RuntimeRow) (sessionId : Option String) : (start row sessionId).Kept where
  laid := rfl
  ordered := .nil
  fine := fun _ h => by cases h

/-- A channel in place of one that has the same to save. -/
theorem Kept.put (h : w.Kept) (hc : w.channels[k]? = some c)
    (hlay : ∀ base, Layer.lay c'.layers base = Layer.lay c.layers base)
    (hconsumer : c'.consumer.isSome = true → c.consumer.isSome = true)
    (hsettled : c.settled = true → c'.settled = true) (hfine : c'.Fine w.row) :
    (w.put k c').Kept := by
  obtain ⟨before, after, hsplit, -, hset⟩ := exists_split hc
  obtain ⟨hlaid, hordered, hall⟩ := h
  rw [hsplit] at hlaid hordered hall
  constructor
  · show Layer.lay ((w.channels.set k c').flatMap DomainChannel.layers) w.row.get = _
    rw [hset, lay_channels, hlay, ← lay_channels]
    exact hlaid
  · show (w.channels.set k c').Pairwise _
    rw [hset]
    rw [List.pairwise_append, List.pairwise_cons] at hordered ⊢
    obtain ⟨hbefore, ⟨hnext, hafter⟩, hcross⟩ := hordered
    refine ⟨hbefore, ⟨fun b hb hsome => hsettled (hnext b hb hsome), hafter⟩, fun a ha b hb => ?_⟩
    rcases List.mem_cons.mp hb with rfl | hb
    · exact fun hsome => hcross a ha c List.mem_cons_self (hconsumer hsome)
    · exact hcross a ha b (List.mem_cons_of_mem _ hb)
  · show ∀ x ∈ w.channels.set k c', x.Fine w.row
    rw [hset]
    intro x hx
    rcases List.mem_append.mp hx with hx | hx
    · exact hall x (List.mem_append_left _ hx)
    · rcases List.mem_cons.mp hx with rfl | hx
      · exact hfine
      · exact hall x (List.mem_append_right _ (List.mem_cons_of_mem _ hx))

theorem Kept.putConsumer (h : w.Kept) (hc : w.attached k = some (c, t)) {t' : Consumer}
    (hpending : t'.pending = t.pending) (hfine : { c with consumer := some t' }.Fine w.row) :
    (w.putConsumer k c t').Kept := by
  obtain ⟨hget, hconsumer⟩ := attached_eq_some.mp hc
  refine h.put hget (fun base => ?_) (fun _ => by rw [hconsumer]; rfl) (fun hsettled => ?_) hfine
  · simp only [DomainChannel.layers, hconsumer, Option.map_some, hpending]
  · simpa only [DomainChannel.settled, hconsumer, Option.all_some, hpending] using hsettled

theorem mem_of_attached (hc : w.attached k = some (c, t)) : c ∈ w.channels :=
  List.mem_of_getElem? (attached_eq_some.mp hc).1

theorem fine_of_phase {row : RuntimeRow}
    (h : (∀ loaded exits, t.phase ≠ .saving loaded exits) ∧ t.phase ≠ .exited) :
    { c with consumer := some t }.Fine row := by
  intro t' ht'
  obtain rfl := Option.some.inj ht'
  exact ⟨fun loaded exits hsaving => absurd hsaving (h.1 loaded exits),
    fun hexited => absurd hexited h.2⟩

theorem Kept.flush (h : w.Kept) (hc : w.attached k = some (c, t)) (hqueue : c.queue = [])
    {exits : Bool} (hopen : exits = true → c.isOpen = false) :
    (w.putConsumer k c (t.flush exits)).Kept := by
  by_cases hempty : t.pending.isEmpty = true
  · have hflush : t.flush exits =
        { t with flushAt := false, phase := if exits then .exited else .reading } := if_pos hempty
    rw [hflush]
    refine h.putConsumer hc rfl fun t' ht' => ?_
    obtain rfl := Option.some.inj ht'
    refine ⟨fun loaded exits' hphase => ?_, fun _ => ?_⟩
    · cases exits <;> cases hphase
    · simpa [DomainChannel.settled, hqueue] using hempty
  · have hflush : t.flush exits = { t with flushAt := false, phase := .saving none exits } :=
      if_neg hempty
    rw [hflush]
    refine h.putConsumer hc rfl fun t' ht' => ?_
    obtain rfl := Option.some.inj ht'
    refine ⟨fun loaded exits' hphase => ?_, fun hphase => by cases hphase⟩
    obtain ⟨rfl, rfl⟩ := ConsumerPhase.saving.inj hphase
    exact ⟨Bool.eq_false_iff.mpr hempty, fun _ hloaded => (by cases hloaded),
      fun hexits => ⟨hqueue, hopen hexits⟩⟩

variable {queue : List AcpSessionEvent}

theorem Kept.receive (h : w.Kept) (hc : w.attached k = some (c, t)) {event : AcpSessionEvent}
    (hqueue : c.queue = event :: queue) (hphase : t.phase = .reading) :
    (w.putConsumer k { c with queue } (t.receive event)).Kept := by
  obtain ⟨hget, hconsumer⟩ := attached_eq_some.mp hc
  refine h.put hget (fun base => ?_) (fun _ => by rw [hconsumer]; rfl) (fun hsettled => ?_)
    (fine_of_phase ?_)
  · simp only [DomainChannel.layers, hconsumer, hqueue, Option.map_some, Option.toList_some,
      List.map_cons, List.singleton_append, Layer.lay_cons]
    rw [onto_receive]
  · simp [DomainChannel.settled, hqueue] at hsettled
  · have hread : (t.receive event).phase = .reading ∨
        ∃ sessionId, (t.receive event).phase = .assigning sessionId := by
      cases event with
      | sessionAssigned sessionId => exact .inr ⟨sessionId, rfl⟩
      | _ => exact .inl hphase
    rcases hread with hread | ⟨sessionId, hread⟩
    · rw [hread]
      exact ⟨fun loaded exits => ConsumerPhase.noConfusion, ConsumerPhase.noConfusion⟩
    · rw [hread]
      exact ⟨fun loaded exits => ConsumerPhase.noConfusion, ConsumerPhase.noConfusion⟩

/-- Whoever saves has nothing before it left to save, and no consumer comes after it. -/
theorem Kept.store (h : w.Kept) (hc : w.attached k = some (c, t)) {row : RuntimeRow} {exits : Bool}
    (hphase : t.phase = .saving (some row) exits) :
    { w.putConsumer k c (t.flushed exits) with
      row := row.apply t.pending, lastSaved := true }.Kept := by
  obtain ⟨hget, hconsumer⟩ := attached_eq_some.mp hc
  obtain ⟨before, after, hsplit, -, hset⟩ := exists_split hget
  have hfine := (h.fine c (mem_of_attached hc) t hconsumer).1 _ _ hphase
  obtain rfl : row = w.row := hfine.2.1 row rfl
  obtain ⟨hlaid, hordered, hall⟩ := h
  rw [hsplit] at hlaid hordered hall
  rw [List.pairwise_append, List.pairwise_cons] at hordered
  obtain ⟨hbefore, ⟨hnext, hafter⟩, hcross⟩ := hordered
  have hsome : c.consumer.isSome = true := by rw [hconsumer]; rfl
  have hsettled : ∀ a ∈ before, a.settled = true := fun a ha =>
    hcross a ha c List.mem_cons_self hsome
  have hunsettled : c.settled = false := by
    simp [DomainChannel.settled, hconsumer, hfine.1]
  have hnone : ∀ b ∈ after, b.consumer = none := fun b hb => by
    rw [← Option.not_isSome_iff_eq_none]
    intro hb'
    have := hnext b hb hb'
    rw [hunsettled] at this
    cases this
  have hclear : ∀ base : RuntimeField → Option String,
      Layer.lay (before.flatMap DomainChannel.layers) base = base := fun base =>
    Layer.lay_of_clear fun layer hlayer => by
      obtain ⟨a, ha, hlayer⟩ := List.mem_flatMap.mp hlayer
      exact clear_of_settled (hsettled a ha) layer hlayer
  have hdefault : Layer.Clear PendingUpdate.default.get := isEmpty_iff_clear.mp rfl
  constructor
  · show Layer.lay ((w.channels.set k _).flatMap DomainChannel.layers)
      (w.row.apply t.pending).get = _
    rw [hset, lay_channels, hclear]
    rw [lay_channels, hclear] at hlaid
    simp only [DomainChannel.layers, hconsumer, Option.map_some, Option.toList_some,
      List.singleton_append, Layer.lay_cons] at hlaid ⊢
    rw [get_apply]
    exact (congrArg _ (congrArg _ hdefault.onto_eq)).trans hlaid
  · show (w.channels.set k _).Pairwise _
    rw [hset, List.pairwise_append, List.pairwise_cons]
    refine ⟨hbefore, ⟨fun b hb hb' => ?_, hafter⟩, fun a ha b hb _ => hsettled a ha⟩
    rw [hnone b hb] at hb'
    cases hb'
  · show ∀ x ∈ w.channels.set k _, x.Fine (w.row.apply t.pending)
    rw [hset]
    intro x hx t' ht'
    rcases List.mem_append.mp hx with hx | hx
    · refine ⟨fun loaded exits' hsaving => ?_, fun _ => hsettled x hx⟩
      have hempty := (hall x (List.mem_append_left _ hx) t' ht').1 loaded exits' hsaving
      have hx' := hsettled x hx
      simp [DomainChannel.settled, ht', hempty.1] at hx'
    · rcases List.mem_cons.mp hx with rfl | hx
      · obtain rfl := Option.some.inj ht'
        cases exits with
        | false =>
          exact ⟨fun loaded exits => ConsumerPhase.noConfusion, ConsumerPhase.noConfusion⟩
        | true =>
          refine ⟨fun loaded exits => ConsumerPhase.noConfusion, fun _ => ?_⟩
          rw [DomainChannel.settled, (hfine.2.2 rfl).1]
          rfl
      · rw [hnone x hx] at ht'
        cases ht'

theorem eq_concat_of_new {before after : List DomainChannel} (h : w.channels = before ++ c :: after)
    (hlength : before.length = k) (hnew : k + 1 = w.channels.length) : after = [] := by
  rw [h, List.length_append, List.length_cons] at hnew
  exact List.length_eq_zero_iff.mp (by omega)

theorem Kept.send (h : w.Kept) (hc : w.channels[k]? = some c) (hnew : k + 1 = w.channels.length)
    (hopen : c.isOpen = true)
    (hlive : c.consumer.all (fun t => decide (t.phase ≠ .exited)) = true) (event : AcpSessionEvent) :
    { w.put k { c with queue := c.queue ++ [event] } with sent := w.sent ++ [event] }.Kept := by
  obtain ⟨before, after, hsplit, hlength, hset⟩ := exists_split hc
  obtain rfl := eq_concat_of_new hsplit hlength hnew
  obtain ⟨hlaid, hordered, hall⟩ := h
  rw [hsplit] at hlaid hordered hall
  rw [List.pairwise_append] at hordered
  constructor
  · show Layer.lay ((w.channels.set k _).flatMap DomainChannel.layers) w.row.get =
      Layer.lay ((w.sent ++ [event]).map AcpSessionEvent.layer) w.initial.get
    rw [hset, List.map_append, List.map_singleton, Layer.lay_concat, ← hlaid, lay_channels,
      lay_channels]
    simp [DomainChannel.layers, Layer.lay_append]
  · show (w.channels.set k _).Pairwise _
    rw [hset, List.pairwise_append]
    refine ⟨hordered.1, List.pairwise_singleton _ _, fun a ha b hb hsome => ?_⟩
    obtain rfl := List.mem_singleton.mp hb
    exact hordered.2.2 a ha c (List.mem_singleton_self _) hsome
  · show ∀ x ∈ w.channels.set k _, x.Fine w.row
    rw [hset]
    intro x hx
    rcases List.mem_append.mp hx with hx | hx
    · exact hall x (List.mem_append_left _ hx)
    · obtain rfl := List.mem_singleton.mp hx
      intro t ht
      refine ⟨fun loaded exits hphase => ?_, fun hexited => ?_⟩
      · obtain ⟨hpending, hrow, hlast⟩ := (hall c (by simp) t ht).1 loaded exits hphase
        refine ⟨hpending, hrow, fun hexits => ?_⟩
        rw [(hlast hexits).2] at hopen
        cases hopen
      have hnot := (Option.all_eq_true _ _).mp hlive t ht
      rw [hexited] at hnot
      cases hnot

theorem Kept.spawn (h : w.Kept) (hc : w.channels[k]? = some c) (hnew : k + 1 = w.channels.length)
    (hsettled : (w.channels.take k).all DomainChannel.settled = true) (hnone : c.consumer = none)
    (attaching : List ℕ) :
    { w.putConsumer k c .spawned with attaching }.Kept := by
  obtain ⟨before, after, hsplit, hlength, hset⟩ := exists_split hc
  obtain rfl := eq_concat_of_new hsplit hlength hnew
  rw [hsplit, List.take_left' hlength, List.all_eq_true] at hsettled
  obtain ⟨hlaid, hordered, hall⟩ := h
  rw [hsplit] at hlaid hordered hall
  rw [List.pairwise_append] at hordered
  have hdefault : Layer.Clear PendingUpdate.default.get := isEmpty_iff_clear.mp rfl
  constructor
  · show Layer.lay ((w.channels.set k _).flatMap DomainChannel.layers) w.row.get = _
    refine Eq.trans ?_ hlaid
    rw [hset, lay_channels, lay_channels]
    simp only [DomainChannel.layers, hnone, Consumer.spawned, Option.map_some, Option.toList_some,
      List.singleton_append, Layer.lay_cons, hdefault.onto_eq]
    rfl
  · show (w.channels.set k _).Pairwise _
    rw [hset, List.pairwise_append]
    exact ⟨hordered.1, List.pairwise_singleton _ _, fun a ha _ _ _ => hsettled a ha⟩
  · show ∀ x ∈ w.channels.set k _, x.Fine w.row
    rw [hset]
    intro x hx
    rcases List.mem_append.mp hx with hx | hx
    · exact hall x (List.mem_append_left _ hx)
    · obtain rfl := List.mem_singleton.mp hx
      exact fine_of_phase ⟨fun loaded exits => ConsumerPhase.noConfusion,
        ConsumerPhase.noConfusion⟩

theorem Kept.abort (h : w.Kept) {prev : ℕ}
    (hsettled : w.channels[prev]?.all DomainChannel.settled = true) : (w.abort prev).Kept := by
  unfold SessionSync.abort
  cases hc : w.attached prev with
  | none => exact h
  | some attached =>
    obtain ⟨c, t⟩ := attached
    obtain ⟨hget, hconsumer⟩ := attached_eq_some.mp hc
    have hc' : c.settled = true := by simpa [hget] using hsettled
    have habort : DomainChannel.settled ⟨[], c.isOpen, some .aborted⟩ = true := rfl
    refine h.put hget (fun base => ?_) (fun _ => by rw [hconsumer]; rfl) (fun _ => habort)
      fun t' ht' => ?_
    · exact (lay_of_settled habort).trans (lay_of_settled hc').symm
    · obtain rfl := Option.some.inj ht'
      exact ⟨fun loaded exits => ConsumerPhase.noConfusion, fun _ => habort⟩

/-- Careful steps keep what is still to be saved. -/
theorem Kept.fire (h : w.Kept) (hready : w.ready step = true) (hcareful : w.Careful step) :
    (w.fire step).Kept := by
  unfold Careful at hcareful
  cases step with
  | build =>
    refine ⟨?_, ?_, fun c hc => ?_⟩
    · show Layer.lay ((w.channels ++ [_]).flatMap DomainChannel.layers) w.row.get = _
      rw [List.flatMap_append, Layer.lay_append, h.laid]
      rfl
    · refine List.pairwise_append.mpr ⟨h.ordered, List.pairwise_singleton _ _, fun a _ b hb => ?_⟩
      obtain rfl := List.mem_singleton.mp hb
      exact fun hsome => by cases hsome
    · rcases List.mem_append.mp hc with hc | hc
      · exact h.fine c hc
      · obtain rfl := List.mem_singleton.mp hc
        exact fun t ht => by cases ht
  | send k event =>
    obtain ⟨c, hc, hopen⟩ := (Option.any_eq_true _ _).mp hready
    rw [Bool.and_eq_true] at hopen
    simp only [SessionSync.fire, hc]
    exact h.send hc (of_decide_eq_true hcareful) hopen.1 hopen.2 event
  | close k =>
    obtain ⟨c, hc, -⟩ := (Option.any_eq_true _ _).mp hready
    simp only [SessionSync.fire, hc]
    refine h.put hc (fun _ => rfl) (fun hsome => hsome) (fun hsettled => hsettled) fun t ht => ?_
    have hfine := h.fine c (List.mem_of_getElem? hc) t ht
    exact ⟨fun loaded exits hphase => (hfine.1 loaded exits hphase).imp_right
      (And.imp_right fun hlast hexits => ⟨(hlast hexits).1, rfl⟩), hfine.2⟩
  | spawn k =>
    obtain ⟨c, hc, hnone⟩ := (Option.any_eq_true _ _).mp hready
    simp only [careful, Bool.and_eq_true, decide_eq_true_eq] at hcareful
    simp only [SessionSync.fire, hc]
    exact h.spawn hc hcareful.1 hcareful.2 (Option.isNone_iff_eq_none.mp hnone) _
  | register k =>
    simp only [careful] at hcareful
    simp only [SessionSync.fire]
    cases hactive : w.active with
    | none => exact ⟨h.laid, h.ordered, h.fine⟩
    | some prev =>
      rw [hactive] at hcareful
      have := h.abort hcareful
      exact ⟨this.laid, this.ordered, this.fine⟩
  | receive k =>
    rw [ready] at hready
    obtain ⟨c, t, hc, hread⟩ := attachedIs_iff.mp hready
    simp only [Bool.and_eq_true, decide_eq_true_eq, Bool.not_eq_true'] at hread
    cases hqueue : c.queue with
    | nil =>
      rw [hqueue] at hread
      cases hread.2
    | cons event queue =>
      simp only [SessionSync.fire, hc, hqueue]
      exact h.receive hc hqueue hread.1
  | timer k =>
    rw [ready] at hready
    obtain ⟨c, t, hc, hread⟩ := attachedIs_iff.mp hready
    simp only [Bool.and_eq_true, decide_eq_true_eq, List.isEmpty_iff] at hread
    simp only [SessionSync.fire, hc]
    exact h.flush hc hread.2 fun hexits => by cases hexits
  | finish k =>
    rw [ready] at hready
    obtain ⟨c, t, hc, hread⟩ := attachedIs_iff.mp hready
    simp only [Bool.and_eq_true, decide_eq_true_eq, List.isEmpty_iff, Bool.not_eq_true'] at hread
    simp only [SessionSync.fire, hc]
    exact h.flush hc hread.2 fun _ => hread.1.2
  | assigned k written =>
    rw [ready] at hready
    obtain ⟨c, t, hc, hphase⟩ := attachedIs_iff.mp hready
    simp only [SessionSync.fire, hc]
    cases ht : t.phase with
    | assigning sessionId =>
      have hput := @Kept.putConsumer w k c t h hc { t with phase := .reading } rfl
        (fine_of_phase ⟨fun loaded exits => ConsumerPhase.noConfusion, ConsumerPhase.noConfusion⟩)
      exact ⟨hput.laid, hput.ordered, hput.fine⟩
    | _ => exact h
  | load k =>
    rw [ready] at hready
    obtain ⟨c, t, hc, hphase⟩ := attachedIs_iff.mp hready
    simp only [SessionSync.fire, hc]
    cases ht : t.phase with
    | saving loaded exits =>
      cases loaded with
      | none =>
        have hfine := (h.fine c (mem_of_attached hc) t (attached_eq_some.mp hc).2).1 _ _ ht
        refine h.putConsumer hc rfl fun t' ht' => ?_
        obtain rfl := Option.some.inj ht'
        refine ⟨fun loaded exits' hsaving => ?_, fun hexited => by cases hexited⟩
        obtain ⟨rfl, rfl⟩ := ConsumerPhase.saving.inj hsaving
        exact ⟨hfine.1, fun row' hrow => (Option.some.inj hrow).symm, hfine.2.2⟩
      | some row => exact h
    | _ => exact h
  | store k =>
    rw [ready] at hready
    obtain ⟨c, t, hc, hphase⟩ := attachedIs_iff.mp hready
    simp only [SessionSync.fire, hc]
    cases ht : t.phase with
    | saving loaded exits =>
      cases loaded with
      | none => exact h
      | some row => exact h.store hc ht
    | _ => exact h
  | fail k => cases hcareful

theorem kept_of_reachable (h : (machine.restrict Careful).Reachable w) : w.Kept :=
  h.invariant
    (fun w hw => by
      obtain ⟨row, sessionId, rfl⟩ := hw
      exact kept_start row sessionId)
    fun _ _ hkept hi => hkept.fire hi.1 hi.2

theorem lay_sent (f : RuntimeField) :
    Layer.lay (w.sent.map AcpSessionEvent.layer) w.initial.get f =
      (w.observed f).getLast?.or (w.initial.get f) := by
  have hmap : (w.sent.map AcpSessionEvent.layer).filterMap (· f) = (w.observed f).map some := by
    unfold observed
    rw [List.filterMap_map, List.map_filterMap]
    rfl
  rw [Layer.lay_apply, hmap, List.getLast?_map]
  cases (w.observed f).getLast? <;> rfl

theorem Kept.converges (h : w.Kept) : w.Converges := by
  intro _ hfinished f
  rw [← lay_sent, ← h.laid, Layer.lay_of_clear]
  intro layer hlayer
  obtain ⟨c, hc, hlayer⟩ := List.mem_flatMap.mp hlayer
  obtain ⟨t, ht, hexited⟩ := Option.map_eq_some_iff.mp (hfinished c hc).2
  exact clear_of_settled ((h.fine c hc t ht).2 hexited) layer hlayer

def TracedChannel (w : SessionSync) (c : DomainChannel) : Prop :=
  (∀ e ∈ c.queue, e ∈ w.sent) ∧ ∀ t, c.consumer = some t →
    (∀ f x, t.pending.get f = some x → ∃ v ∈ w.observed f, x = some v) ∧
    ∀ row exits, t.phase = .saving (some row) exits → w.Known row

def Traced (w : SessionSync) : Prop := w.Known w.row ∧ ∀ c ∈ w.channels, w.TracedChannel c

variable {f : RuntimeField}

theorem mem_observed {v : String} {e : AcpSessionEvent} (he : e ∈ w.sent)
    (hv : e.observes f = some v) : v ∈ w.observed f :=
  List.mem_filterMap.mpr ⟨e, he, hv⟩

theorem Traced.put (h : w.Traced) (hc : w.TracedChannel c) : (w.put k c).Traced := by
  refine ⟨h.1, fun c' hc' => ?_⟩
  rcases List.mem_or_eq_of_mem_set hc' with hc' | rfl
  · exact h.2 c' hc'
  · exact hc

theorem Traced.attached (h : w.Traced) (hc : w.attached k = some (c, t)) :
    (∀ e ∈ c.queue, e ∈ w.sent) ∧
    (∀ f x, t.pending.get f = some x → ∃ v ∈ w.observed f, x = some v) ∧
    ∀ row exits, t.phase = .saving (some row) exits → w.Known row := by
  obtain ⟨hget, hconsumer⟩ := attached_eq_some.mp hc
  obtain ⟨hqueue, hall⟩ := h.2 c (List.mem_of_getElem? hget)
  exact ⟨hqueue, hall t hconsumer⟩

theorem tracedChannel_of_consumer {isOpen : Bool} (hqueue : ∀ e ∈ queue, e ∈ w.sent)
    (hpending : ∀ f x, t.pending.get f = some x → ∃ v ∈ w.observed f, x = some v)
    (hrow : ∀ row exits, t.phase = .saving (some row) exits → w.Known row) :
    w.TracedChannel ⟨queue, isOpen, some t⟩ := by
  refine ⟨hqueue, fun t' ht' => ?_⟩
  obtain rfl := Option.some.inj ht'
  exact ⟨hpending, hrow⟩

theorem default_pending (f : RuntimeField) (x : Option String)
    (h : PendingUpdate.default.get f = some x) : ∃ v ∈ w.observed f, x = some v := by
  cases f <;> cases h

theorem observed_of_receive {x : Option String} {e : AcpSessionEvent}
    (h : (t.receive e).pending.get f = some x) :
    t.pending.get f = some x ∨ ∃ v, e.observes f = some v ∧ x = some v := by
  cases e <;> cases f <;>
    first
    | exact .inl h
    | exact .inr ⟨_, rfl, (Option.some.inj h).symm⟩

theorem Traced.abort (h : w.Traced) (prev : ℕ) : (w.abort prev).Traced := by
  unfold SessionSync.abort
  split
  · exact h.put (tracedChannel_of_consumer (fun e he => by cases he) default_pending
      fun row exits => ConsumerPhase.noConfusion)
  · exact h

theorem Traced.flush (h : w.Traced) (hc : w.attached k = some (c, t)) (exits : Bool) :
    (w.putConsumer k c (t.flush exits)).Traced := by
  obtain ⟨hqueue, hpending, -⟩ := h.attached hc
  unfold Consumer.flush
  split
  · refine h.put (tracedChannel_of_consumer hqueue hpending fun row exits' hphase => ?_)
    cases exits <;> cases hphase
  · refine h.put (tracedChannel_of_consumer hqueue hpending fun row exits' hphase => ?_)
    cases hphase

theorem Traced.flushed (h : w.Traced) (hc : w.attached k = some (c, t)) (exits : Bool) :
    (w.putConsumer k c (t.flushed exits)).Traced := by
  obtain ⟨hqueue, -, -⟩ := h.attached hc
  refine h.put (tracedChannel_of_consumer hqueue default_pending fun row exits' hphase => ?_)
  cases exits <;> cases hphase

theorem Known.apply {row : RuntimeRow} {p : PendingUpdate} (h : w.Known row)
    (hpending : ∀ f x, p.get f = some x → ∃ v ∈ w.observed f, x = some v) :
    w.Known (row.apply p) := by
  intro f v hv
  rw [get_apply, Layer.onto] at hv
  cases hset : p.get f with
  | none =>
    rw [hset] at hv
    exact h f v hv
  | some x =>
    rw [hset] at hv
    obtain ⟨v', hv', rfl⟩ := hpending f x hset
    obtain rfl : v' = v := Option.some.inj hv
    exact .inr hv'

/-- With one more event sent, what was traced still is. -/
theorem Traced.send (h : w.Traced) (hc : c ∈ w.channels) (event : AcpSessionEvent) :
    { w.put k { c with queue := c.queue ++ [event] } with sent := w.sent ++ [event] }.Traced := by
  have hgrows : ∀ f v, v ∈ w.observed f → v ∈ (w.sent ++ [event]).filterMap
      (AcpSessionEvent.observes f) := fun f v hv => by
    rw [List.filterMap_append]
    exact List.mem_append_left _ hv
  have hknown : ∀ row, w.Known row → ∀ f v, row.get f = some v →
      w.initial.get f = some v ∨ v ∈ (w.sent ++ [event]).filterMap (AcpSessionEvent.observes f) :=
    fun row hrow f v hv => (hrow f v hv).imp_right (hgrows f v)
  have hconsumer : ∀ c' ∈ w.channels, ∀ t, c'.consumer = some t →
      (∀ f x, t.pending.get f = some x →
        ∃ v ∈ (w.sent ++ [event]).filterMap (AcpSessionEvent.observes f), x = some v) ∧
      ∀ row exits, t.phase = .saving (some row) exits → ∀ f v, row.get f = some v →
        w.initial.get f = some v ∨
          v ∈ (w.sent ++ [event]).filterMap (AcpSessionEvent.observes f) := by
    intro c' hc' t ht
    obtain ⟨hpending, hrow⟩ := (h.2 c' hc').2 t ht
    refine ⟨fun f x hx => ?_, fun row exits hphase => hknown row (hrow row exits hphase)⟩
    obtain ⟨v, hv, heq⟩ := hpending f x hx
    exact ⟨v, hgrows f v hv, heq⟩
  refine ⟨hknown w.row h.1, fun c' hc' => ?_⟩
  rcases List.mem_or_eq_of_mem_set hc' with hc' | rfl
  · exact ⟨fun e he => List.mem_append_left _ ((h.2 c' hc').1 e he), hconsumer c' hc'⟩
  · refine ⟨fun e he => ?_, hconsumer c hc⟩
    exact List.mem_append.mpr ((List.mem_append.mp he).imp_left ((h.2 c hc).1 e))

theorem Traced.fire (h : w.Traced) (step : SyncStep) : (w.fire step).Traced := by
  cases step with
  | build =>
    refine ⟨h.1, fun c hc => ?_⟩
    rcases List.mem_append.mp hc with hc | hc
    · exact h.2 c hc
    · obtain rfl := List.mem_singleton.mp hc
      exact ⟨fun e he => (by cases he), fun t ht => (by cases ht)⟩
  | send k event =>
    cases hc : w.channels[k]? with
    | none => simpa only [SessionSync.fire, hc] using h
    | some c =>
      simp only [SessionSync.fire, hc]
      exact h.send (List.mem_of_getElem? hc) event
  | close k =>
    cases hc : w.channels[k]? with
    | none => simpa only [SessionSync.fire, hc] using h
    | some c =>
      simp only [SessionSync.fire, hc]
      exact h.put (h.2 c (List.mem_of_getElem? hc))
  | spawn k =>
    cases hc : w.channels[k]? with
    | none => simpa only [SessionSync.fire, hc] using h
    | some c =>
      simp only [SessionSync.fire, hc]
      exact h.put (tracedChannel_of_consumer (h.2 c (List.mem_of_getElem? hc)).1 default_pending
        fun row exits => ConsumerPhase.noConfusion)
  | register k =>
    simp only [SessionSync.fire]
    cases hactive : w.active with
    | none => exact h
    | some prev => exact h.abort prev
  | receive k =>
    cases hc : w.attached k with
    | none => simpa only [SessionSync.fire, hc] using h
    | some attached =>
      obtain ⟨c, t⟩ := attached
      obtain ⟨hqueue, hpending, hrow⟩ := h.attached hc
      cases hevents : c.queue with
      | nil => simpa only [SessionSync.fire, hc, hevents] using h
      | cons event queue =>
        simp only [SessionSync.fire, hc, hevents]
        rw [hevents] at hqueue
        refine h.put (tracedChannel_of_consumer (fun e he => hqueue e (List.mem_cons_of_mem _ he))
          (fun f x hx => ?_) fun row exits hphase => ?_)
        · rcases observed_of_receive hx with hx | ⟨v, hv, rfl⟩
          · exact hpending f x hx
          · exact ⟨v, mem_observed (hqueue event List.mem_cons_self) hv, rfl⟩
        · refine hrow row exits ?_
          cases event <;> first | exact hphase | cases hphase
  | timer k =>
    cases hc : w.attached k with
    | none => simpa only [SessionSync.fire, hc] using h
    | some attached =>
      simp only [SessionSync.fire, hc]
      exact h.flush hc false
  | finish k =>
    cases hc : w.attached k with
    | none => simpa only [SessionSync.fire, hc] using h
    | some attached =>
      simp only [SessionSync.fire, hc]
      exact h.flush hc true
  | assigned k written =>
    cases hc : w.attached k with
    | none => simpa only [SessionSync.fire, hc] using h
    | some attached =>
      obtain ⟨c, t⟩ := attached
      obtain ⟨hqueue, hpending, -⟩ := h.attached hc
      simp only [SessionSync.fire, hc]
      split
      · exact h.put (tracedChannel_of_consumer hqueue hpending
          fun row exits => ConsumerPhase.noConfusion)
      · exact h
  | load k =>
    cases hc : w.attached k with
    | none => simpa only [SessionSync.fire, hc] using h
    | some attached =>
      obtain ⟨c, t⟩ := attached
      obtain ⟨hqueue, hpending, -⟩ := h.attached hc
      simp only [SessionSync.fire, hc]
      split
      · refine h.put (tracedChannel_of_consumer hqueue hpending fun row exits' hphase => ?_)
        obtain ⟨hrow, -⟩ := ConsumerPhase.saving.inj hphase
        exact Option.some.inj hrow ▸ h.1
      · exact h
  | store k =>
    cases hc : w.attached k with
    | none => simpa only [SessionSync.fire, hc] using h
    | some attached =>
      obtain ⟨c, t⟩ := attached
      obtain ⟨hqueue, hpending, hrow⟩ := h.attached hc
      simp only [SessionSync.fire, hc]
      split
      · next row exits hphase =>
        have hput := h.flushed hc exits
        exact ⟨(hrow row exits hphase).apply hpending, hput.2⟩
      · exact h
  | fail k =>
    cases hc : w.attached k with
    | none => simpa only [SessionSync.fire, hc] using h
    | some attached =>
      obtain ⟨c, t⟩ := attached
      simp only [SessionSync.fire, hc]
      split
      · next loaded exits hphase => exact h.flushed hc exits
      · exact h

theorem known_of_reachable (h : machine.Reachable w) : w.Known w.row := by
  have htraced : w.Traced := h.invariant
    (fun w hw => by
      obtain ⟨row, sessionId, rfl⟩ := hw
      exact ⟨fun f v hv => .inl hv, fun c hc => by cases hc⟩)
    fun _ step htraced _ => htraced.fire step
  exact htraced.1

/-- As long as no save fails, events go to the newest channel, and no consumer is started or aborted
before what came earlier is saved, the row ends up with what was observed last. -/
theorem converges_of_careful (h : (machine.restrict Careful).Reachable w) :
    w.Converges ∧ w.Known w.row :=
  ⟨(kept_of_reachable h).converges, known_of_reachable h.of_restrict⟩

/-- Two managers one after the other; the second one's consumer is started when the first has
saved. -/
theorem converges_of_careful_sample : (machine.run (start ⟨none, none, none, none⟩ none)
    [.build, .spawn 0, .register 0, .send 0 (.sessionAssigned "s"),
      .send 0 (.observedModeSynced "plan"),
      .receive 0, .assigned 0 true, .receive 0, .timer 0, .load 0, .store 0, .build,
      .send 1 (.observedModelSynced "opus"), .spawn 1, .close 0, .finish 0, .receive 1, .register 1,
      .send 1 (.desiredModeChanged "code"), .close 1, .receive 1, .finish 1, .load 1,
      .store 1]).Converges :=
  (converges_of_careful (Machine.reachable_run ⟨_, _, rfl⟩ (by decide +kernel))).1

/-- The save of a mode fails, the save of the model that comes after it succeeds. -/
def failedSave : List SyncStep :=
  [.build, .spawn 0, .register 0, .send 0 (.observedModeSynced "plan"), .receive 0, .timer 0, .fail 0,
    .send 0 (.observedModelSynced "opus"), .receive 0, .close 0, .finish 0, .load 0, .store 0]

/-- The second manager is attached while the mode of the first is still waiting for its timer. -/
def replacedConsumer : List SyncStep :=
  [.build, .spawn 0, .register 0, .send 0 (.observedModeSynced "plan"), .receive 0, .build, .spawn 1,
    .register 1, .close 0, .send 1 (.observedModelSynced "opus"), .close 1, .receive 1, .finish 1,
    .load 1, .store 1]

/-- A mode whose save has failed is not saved with the model that comes after it; and what a consumer
has collected is lost when that of the next manager takes its place. -/
theorem update_lost :
    (∃ w, machine.Reachable w ∧ w = machine.run (start ⟨none, none, none, none⟩ none) failedSave ∧
      ¬w.Converges) ∧
    ∃ w, machine.Reachable w ∧
      w = machine.run (start ⟨none, none, none, none⟩ none) replacedConsumer ∧ ¬w.Converges := by
  refine ⟨⟨_, Machine.reachable_run ⟨_, _, rfl⟩ (by decide +kernel), rfl, fun h => ?_⟩,
    ⟨_, Machine.reachable_run ⟨_, _, rfl⟩ (by decide +kernel), rfl, fun h => ?_⟩⟩
  · exact absurd (h rfl (by unfold Finished; decide +kernel) .currentModeId) (by decide +kernel)
  · exact absurd (h rfl (by unfold Finished; decide +kernel) .currentModeId) (by decide +kernel)

end SessionSync

end AionCore.Agent
