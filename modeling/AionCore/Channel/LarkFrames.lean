import AionCore.File.FileService
import AionCore.Lib.Reassembly
import Mathlib.Logic.Function.Basic

/-!
# Channels: the data frames of Lark

`FragmentCache::push` of `ws_session.rs`, and of the plugin the loop over the data frames of a
connection, `handle_ws_text` and `is_duplicate`. What would panic is `none`. The acknowledgement of
a frame is sent in any case and is left out.
-/

namespace AionCore.Channel.Lark

open AionCore.File (Bytes fromUtf8)
open Reassembly (Full Twice rounds slots)

structure PbHeader where
  key : String
  value : String

/-- A frame of the method `METHOD_DATA`. -/
structure PbFrame where
  headers : List PbHeader
  payload : Bytes

def getHeader (headers : List PbHeader) (key : String) : Option String :=
  (headers.find? (·.key = key)).map (·.value)

/-- `str::parse::<usize>` -/
def parseUsize (text : String) : Option ℕ :=
  let digits :=
    match text.toList with
    | '+' :: rest => rest
    | all => all
  if digits ≠ [] ∧ digits.all Char.isDigit = true ∧ Nat.ofDigitChars 10 digits 0 < 2 ^ 64 then
    some (Nat.ofDigitChars 10 digits 0)
  else none

namespace PbFrame

variable (frame : PbFrame)

def messageId : String := (getHeader frame.headers "message_id").getD ""

def sum : ℕ := ((getHeader frame.headers "sum").bind parseUsize).getD 1

def seq : ℕ := ((getHeader frame.headers "seq").bind parseUsize).getD 0

def msgType : String := (getHeader frame.headers "type").getD ""

end PbFrame

structure FragmentEntry where
  sum : ℕ
  fragments : List (Option Bytes)

/-- `size_of::<Option<Vec<u8>>>()` -/
def slotBytes : ℕ := 24

/-- `isize::MAX`, the most that a vector can have in bytes. -/
def isizeMax : ℕ := 2 ^ 63 - 1

/-- The entry of a message, with the bytes that are allocated if it is new. -/
def opened (entry : Option FragmentEntry) (sum : ℕ) : Option (FragmentEntry × ℕ) :=
  match entry with
  | some entry => some (entry, 0)
  | none =>
    if slotBytes * sum ≤ isizeMax then some (⟨sum, List.replicate sum none⟩, slotBytes * sum)
    else none

/-- `entry.fragments[seq] = Some(data)`, if `seq` is below the sum. -/
def FragmentEntry.filled (entry : FragmentEntry) (seq : ℕ) (data : Bytes) : Option FragmentEntry :=
  if seq < entry.sum then
    if seq < entry.fragments.length then
      some { entry with fragments := entry.fragments.set seq (some data) }
    else none
  else some entry

structure Pushed where
  entry : Option FragmentEntry
  merged : Option Bytes
  allocated : ℕ

/-- `push`, on the entry of the message. -/
def push (entry : Option FragmentEntry) (sum seq : ℕ) (data : Bytes) : Option Pushed :=
  (opened entry sum).bind fun opened =>
    (opened.1.filled seq data).map fun entry =>
      if entry.fragments.all Option.isSome = true then
        ⟨none, some (entry.fragments.flatMap (·.getD [])), opened.2⟩
      else ⟨some entry, none, opened.2⟩

/-- What is read of the JSON text of an event. -/
structure Envelope where
  eventId : Option String

inductive Kind where
  | event
  | card
  deriving DecidableEq

/-- The header `type` of the payloads that are handled. -/
def Kind.name : Kind → String
  | .event => "event"
  | .card => "card"

/-- A text that a handler acts on. -/
structure Act where
  kind : Kind
  text : String
  deriving DecidableEq

/-- The cache of fragments of the connection, and the events that were seen. -/
structure Session where
  entries : String → Option FragmentEntry
  seen : List String

variable (json : String → Option Envelope)

/-- `handle_ws_text`, with `is_duplicate`. -/
def handleWsText (seen : List String) (text frameType : String) : List String × Option Act :=
  if frameType = "event" then
    match json text with
    | none => (seen, none)
    | some envelope =>
      match envelope.eventId with
      | some eid => if eid ∈ seen then (seen, none) else (eid :: seen, some ⟨.event, text⟩)
      | none => (seen, some ⟨.event, text⟩)
  else if frameType = "card" then
    match json text with
    | none => (seen, none)
    | some _ => (seen, some ⟨.card, text⟩)
  else (seen, none)

/-- What a frame does to the session. -/
structure Step where
  session : Session
  act : Option Act
  allocated : ℕ

/-- What becomes of a merged payload. -/
def handle (seen : List String) (merged : Option Bytes) (msgType : String) :
    List String × Option Act :=
  match merged with
  | none => (seen, none)
  | some merged =>
    if msgType = "event" ∨ msgType = "card" then
      match fromUtf8 merged with
      | some text => handleWsText json seen text msgType
      | none => (seen, none)
    else (seen, none)

/-- The branch `METHOD_DATA` of the loop. -/
def step (st : Session) (frame : PbFrame) : Option Step :=
  (push (st.entries frame.messageId) frame.sum frame.seq frame.payload).map fun pushed =>
    let handled := handle json st.seen pushed.merged frame.msgType
    ⟨⟨Function.update st.entries frame.messageId pushed.entry, handled.1⟩, handled.2,
      pushed.allocated⟩

/-- The acts of a sequence of frames. -/
def run : Session → List PbFrame → Option (List (PbFrame × Option Act))
  | _, [] => some []
  | st, frame :: frames =>
    (step json st frame).bind fun next =>
      (run next.session frames).map ((frame, next.act) :: ·)

/-- The acts on the frames of one message. -/
def actsOf (id : String) (outcomes : List (PbFrame × Option Act)) : List Act :=
  outcomes.filterMap fun outcome => if outcome.1.messageId = id then outcome.2 else none

/-- No frame panics, and none allocates more than the limit for its slots. -/
def RunsWithin (limit : ℕ) : Session → List PbFrame → Prop
  | _, [] => True
  | st, frame :: frames =>
    ∃ next, step json st frame = some next ∧ next.allocated ≤ limit ∧
      RunsWithin limit next.session frames

/-- Every frame that opens an entry has a sum that fits into the limit. -/
def OpensWithin (limit : ℕ) : Session → List PbFrame → Prop
  | _, [] => True
  | st, frame :: frames =>
    (st.entries frame.messageId = none → slotBytes * frame.sum ≤ limit) ∧
      ∀ next, step json st frame = some next → OpensWithin limit next.session frames

def Session.Sized (st : Session) : Prop :=
  ∀ id entry, st.entries id = some entry → entry.fragments.length = entry.sum

variable {json} {st : Session} {frame : PbFrame} {frames : List PbFrame} {next : Step}
  {entry : FragmentEntry} {sum seq limit : ℕ} {data : Bytes} {pushed : Pushed}

/-- What a push leaves of an entry whose slot is filled. -/
def FragmentEntry.close (entry : FragmentEntry) (allocated : ℕ) : Pushed :=
  if entry.fragments.all Option.isSome = true then
    ⟨none, some (entry.fragments.flatMap (·.getD [])), allocated⟩
  else ⟨some entry, none, allocated⟩

theorem filled_eq (h : entry.fragments.length = entry.sum) : entry.filled seq data =
    some { entry with fragments := entry.fragments.set seq (some data) } := by
  rw [FragmentEntry.filled, h]
  split
  · rfl
  · rename_i hseq
    rw [List.set_eq_of_length_le (by omega)]

theorem push_some (h : entry.fragments.length = entry.sum) : push (some entry) sum seq data =
    some (FragmentEntry.close
      { entry with fragments := entry.fragments.set seq (some data) } 0) := by
  rw [push, opened, Option.bind_some, filled_eq h]
  rfl

theorem push_none (h : slotBytes * sum ≤ isizeMax) : push none sum seq data =
    some (FragmentEntry.close ⟨sum, (List.replicate sum none).set seq (some data)⟩
      (slotBytes * sum)) := by
  rw [push, opened, if_pos h, Option.bind_some, filled_eq List.length_replicate]
  rfl

theorem close_allocated (allocated : ℕ) : (entry.close allocated).allocated = allocated := by
  rw [FragmentEntry.close]
  split <;> rfl

variable {last : FragmentEntry}

theorem close_sized {allocated : ℕ} (h : entry.fragments.length = entry.sum)
    (hlast : (entry.close allocated).entry = some last) :
    last.fragments.length = last.sum := by
  rw [FragmentEntry.close] at hlast
  split at hlast
  · cases hlast
  · rwa [← Option.some.inj hlast]

variable {current : Option FragmentEntry}

/-- A push goes through if the entry is there or the new one is not too large. -/
theorem push_iff (h : ∀ entry, current = some entry → entry.fragments.length = entry.sum)
    (hlimit : limit ≤ isizeMax) :
    (∃ pushed, push current sum seq data = some pushed ∧ pushed.allocated ≤ limit) ↔
      (current = none → slotBytes * sum ≤ limit) := by
  cases current with
  | some entry =>
    refine iff_of_true ⟨_, push_some (h entry rfl), ?_⟩ fun hnone => by cases hnone
    rw [close_allocated]
    exact Nat.zero_le limit
  | none =>
    constructor
    · rintro ⟨pushed, hpush, hallocated⟩ -
      by_cases hfits : slotBytes * sum ≤ isizeMax
      · rw [push_none hfits] at hpush
        rw [← Option.some.inj hpush, close_allocated] at hallocated
        exact hallocated
      · rw [push, opened, if_neg hfits] at hpush
        cases hpush
    · intro hsum
      refine ⟨_, push_none ((hsum rfl).trans hlimit), ?_⟩
      rw [close_allocated]
      exact hsum rfl

theorem push_sized (h : ∀ entry, current = some entry → entry.fragments.length = entry.sum)
    (hpush : push current sum seq data = some pushed) (hlast : pushed.entry = some last) :
    last.fragments.length = last.sum := by
  cases current with
  | some entry =>
    rw [push_some (h entry rfl)] at hpush
    rw [← Option.some.inj hpush] at hlast
    refine close_sized ?_ hlast
    rw [List.length_set]
    exact h entry rfl
  | none =>
    by_cases hfits : slotBytes * sum ≤ isizeMax
    · rw [push_none hfits] at hpush
      rw [← Option.some.inj hpush] at hlast
      refine close_sized ?_ hlast
      rw [List.length_set, List.length_replicate]
    · rw [push, opened, if_neg hfits] at hpush
      cases hpush

theorem step_eq (h : push (st.entries frame.messageId) frame.sum frame.seq frame.payload =
    some pushed) : step json st frame =
      some ⟨⟨Function.update st.entries frame.messageId pushed.entry,
        (handle json st.seen pushed.merged frame.msgType).1⟩,
        (handle json st.seen pushed.merged frame.msgType).2, pushed.allocated⟩ := by
  rw [step, h]
  rfl

theorem step_cases (h : step json st frame = some next) : ∃ pushed,
    push (st.entries frame.messageId) frame.sum frame.seq frame.payload = some pushed ∧
      next = ⟨⟨Function.update st.entries frame.messageId pushed.entry,
        (handle json st.seen pushed.merged frame.msgType).1⟩,
        (handle json st.seen pushed.merged frame.msgType).2, pushed.allocated⟩ := by
  obtain ⟨pushed, hpush, hnext⟩ := Option.map_eq_some_iff.mp h
  exact ⟨pushed, hpush, hnext.symm⟩

theorem step_sized (h : st.Sized) (hstep : step json st frame = some next) :
    next.session.Sized := by
  obtain ⟨pushed, hpush, rfl⟩ := step_cases hstep
  intro id entry hentry
  dsimp only at hentry
  by_cases hid : id = frame.messageId
  · rw [hid, Function.update_self] at hentry
    exact push_sized (h frame.messageId) hpush hentry
  · rw [Function.update_of_ne hid] at hentry
    exact h id entry hentry

/-- A run keeps to a limit if and only if each frame that opens an entry does. -/
theorem runsWithin_iff (h : st.Sized) (hlimit : limit ≤ isizeMax) :
    RunsWithin json limit st frames ↔ OpensWithin json limit st frames := by
  induction frames generalizing st with
  | nil => exact Iff.rfl
  | cons frame frames ih =>
    rw [RunsWithin, OpensWithin, ← push_iff (h frame.messageId) hlimit]
    constructor
    · rintro ⟨next, hstep, hallocated, hrest⟩
      obtain ⟨pushed, hpush, rfl⟩ := step_cases hstep
      refine ⟨⟨pushed, hpush, hallocated⟩, fun other hother => ?_⟩
      rw [hstep] at hother
      rw [← Option.some.inj hother]
      exact (ih (step_sized h hstep)).mp hrest
    · rintro ⟨⟨pushed, hpush, hallocated⟩, hrest⟩
      have hstep : step json st frame = some _ := step_eq hpush
      exact ⟨_, hstep, hallocated, (ih (step_sized h hstep)).mpr (hrest _ hstep)⟩

/-- A message that is sent in parts. -/
structure Message where
  id : String
  kind : Kind
  parts : List Bytes
  parts_ne : parts ≠ []

namespace Message

variable (m : Message)

/-- The payloads, in order. -/
def payload : Bytes := m.parts.flatten

def Carries (frame : PbFrame) : Prop :=
  frame.messageId = m.id → frame.sum = m.parts.length ∧ frame.msgType = m.kind.name ∧
    ∀ part ∈ m.parts[frame.seq]?, frame.payload = part

instance : DecidablePred m.Carries := fun frame =>
  inferInstanceAs (Decidable (frame.messageId = m.id → frame.sum = m.parts.length ∧
    frame.msgType = m.kind.name ∧ ∀ part ∈ m.parts[frame.seq]?, frame.payload = part))

/-- The numbers of the parts that the frames bring, in the order in which they come. -/
def seqs (frames : List PbFrame) : List ℕ :=
  (frames.filter (·.messageId = m.id)).map PbFrame.seq

def Gathers (entries : String → Option FragmentEntry) (seen : List ℕ) : Prop :=
  entries m.id = none ∧ seen = [] ∨
    entries m.id = some ⟨m.parts.length, slots (m.parts.getD · []) m.parts.length seen⟩

theorem length_pos : 0 < m.parts.length := List.length_pos_iff.mpr m.parts_ne

end Message

variable {m : Message} {seen : List ℕ}

theorem flatMap_parts (parts : List Bytes) :
    ((List.range parts.length).flatMap fun i => parts.getD i []) = parts.flatten := by
  have hparts : (List.range parts.length).map (parts.getD · []) = parts := by
    refine List.ext_getElem (by simp) fun i hi hi' => ?_
    rw [List.getElem_map, List.getElem_range, List.getD_eq_getElem?_getD,
      List.getElem?_eq_getElem hi', Option.getD_some]
  rw [List.flatMap_def, hparts]

/-- The slot of a part is filled. -/
theorem slots_filled (hc : m.Carries frame) (hid : frame.messageId = m.id) :
    (slots (m.parts.getD · []) m.parts.length seen).set frame.seq (some frame.payload) =
      slots (m.parts.getD · []) m.parts.length (frame.seq :: seen) := by
  obtain ⟨-, -, hpayload⟩ := hc hid
  by_cases hseq : frame.seq < m.parts.length
  · have hpart := hpayload _ (List.getElem?_eq_getElem hseq)
    rw [← Reassembly.slots_set, List.getD_eq_getElem?_getD, List.getElem?_eq_getElem hseq,
      Option.getD_some, hpart]
  · rw [Reassembly.slots_cons_of_le (by omega), List.set_eq_of_length_le]
    rw [Reassembly.length_slots]
    omega

variable {entries : String → Option FragmentEntry}

/-- A frame of the message completes it or fills one more slot. -/
theorem push_gathers (hg : m.Gathers entries seen) (hc : m.Carries frame)
    (hid : frame.messageId = m.id)
    (hpush : push (entries m.id) frame.sum frame.seq frame.payload = some pushed) :
    Full m.parts.length (frame.seq :: seen) ∧ pushed.entry = none ∧
      pushed.merged = some m.payload ∨
    ¬Full m.parts.length (frame.seq :: seen) ∧ pushed.merged = none ∧ pushed.entry =
      some ⟨m.parts.length, slots (m.parts.getD · []) m.parts.length (frame.seq :: seen)⟩ := by
  obtain ⟨hsum, -, -⟩ := hc hid
  have hclose : ∃ allocated, pushed = FragmentEntry.close ⟨m.parts.length,
      slots (m.parts.getD · []) m.parts.length (frame.seq :: seen)⟩ allocated := by
    rcases hg with ⟨hnone, rfl⟩ | hsome
    · rw [hnone, hsum] at hpush
      by_cases hfits : slotBytes * m.parts.length ≤ isizeMax
      · have hempty : slots (m.parts.getD · []) m.parts.length [] = _ := Reassembly.slots_nil
        rw [push_none hfits, ← hempty, slots_filled hc hid] at hpush
        exact ⟨_, (Option.some.inj hpush).symm⟩
      · rw [push, opened, if_neg hfits] at hpush
        cases hpush
    · rw [hsome, push_some Reassembly.length_slots] at hpush
      rw [slots_filled hc hid] at hpush
      exact ⟨_, (Option.some.inj hpush).symm⟩
  obtain ⟨allocated, rfl⟩ := hclose
  rw [FragmentEntry.close]
  by_cases hfull : Full m.parts.length (frame.seq :: seen)
  · rw [if_pos (Reassembly.all_slots.mpr hfull)]
    refine .inl ⟨hfull, rfl, ?_⟩
    rw [Reassembly.flatMap_slots _ hfull]
    exact congrArg some (flatMap_parts m.parts)
  · rw [if_neg fun hall => hfull (Reassembly.all_slots.mp hall)]
    exact .inr ⟨hfull, rfl, rfl⟩

theorem gathers_update (hg : m.Gathers entries seen) (hid : frame.messageId ≠ m.id)
    (entry : Option FragmentEntry) :
    m.Gathers (Function.update entries frame.messageId entry) seen := by
  rw [Message.Gathers, Function.update_of_ne (Ne.symm hid)]
  exact hg

variable {outcomes : List (PbFrame × Option Act)} {text eid : String} {envelope : Envelope}
  {marked : List String} {merged : Option Bytes} {msgType : String}

/-- The event that an act is on. -/
def Act.eventId (json : String → Option Envelope) (act : Act) : Option String :=
  if act.kind = .event then (json act.text).bind Envelope.eventId else none

/-- An event is marked as seen when a handler acts on it. -/
theorem mem_handleWsText : eid ∈ (handleWsText json marked text msgType).1 ↔
    eid ∈ marked ∨ ∃ act, (handleWsText json marked text msgType).2 = some act ∧
      act.eventId json = some eid := by
  rw [handleWsText]
  split
  · cases hjson : json text with
    | none => simp
    | some envelope =>
      dsimp only
      cases heid : envelope.eventId with
      | none => simp [Act.eventId, hjson, heid]
      | some other =>
        dsimp only
        split
        · simp
        · simp [Act.eventId, hjson, heid, or_comm, eq_comm]
  · split
    · cases json text <;> simp [Act.eventId]
    · simp

theorem mem_handle : eid ∈ (handle json marked merged msgType).1 ↔
    eid ∈ marked ∨ ∃ act, (handle json marked merged msgType).2 = some act ∧
      act.eventId json = some eid := by
  cases merged with
  | none => simp [handle]
  | some merged =>
    rw [handle]
    split
    · cases fromUtf8 merged with
      | none => simp
      | some text => exact mem_handleWsText
    · simp

/-- What becomes of a message that is complete. -/
theorem handle_payload (htext : fromUtf8 m.payload = some text)
    (hjson : json text = some envelope) :
    handle json marked (some m.payload) m.kind.name =
      if m.kind = .event then
        match envelope.eventId with
        | some eid => if eid ∈ marked then (marked, none) else (eid :: marked, some ⟨.event, text⟩)
        | none => (marked, some ⟨.event, text⟩)
      else (marked, some ⟨.card, text⟩) := by
  rw [handle]
  cases hkind : m.kind with
  | event =>
    rw [if_pos (.inl rfl), htext]
    dsimp only
    rw [handleWsText, if_pos (show Kind.event.name = "event" from rfl), hjson, if_pos rfl]
  | card =>
    rw [if_pos (.inr rfl), htext]
    dsimp only
    rw [handleWsText, if_neg (by decide), if_pos (show Kind.card.name = "card" from rfl), hjson,
      if_neg (by decide)]

theorem run_cons_cases (h : run json st (frame :: frames) = some outcomes) :
    ∃ next rest, step json st frame = some next ∧ run json next.session frames = some rest ∧
      outcomes = (frame, next.act) :: rest := by
  obtain ⟨next, hstep, hrest⟩ := Option.bind_eq_some_iff.mp h
  obtain ⟨rest, hrun, houtcomes⟩ := Option.map_eq_some_iff.mp hrest
  exact ⟨next, rest, hstep, hrun, houtcomes.symm⟩

/-- What one frame means for a message: another frame leaves its entry alone, and one of its own
completes it or fills a slot. -/
theorem step_message (hg : m.Gathers st.entries seen) (hc : m.Carries frame)
    (hstep : step json st frame = some next) :
    frame.messageId ≠ m.id ∧ m.Gathers next.session.entries seen ∨
    frame.messageId = m.id ∧ Full m.parts.length (frame.seq :: seen) ∧
      m.Gathers next.session.entries [] ∧
      (next.session.seen, next.act) = handle json st.seen (some m.payload) m.kind.name ∨
    frame.messageId = m.id ∧ ¬Full m.parts.length (frame.seq :: seen) ∧
      m.Gathers next.session.entries (frame.seq :: seen) ∧ next.act = none ∧
      next.session.seen = st.seen := by
  obtain ⟨pushed, hpush, rfl⟩ := step_cases hstep
  by_cases hid : frame.messageId = m.id
  · obtain ⟨-, hkind, -⟩ := hc hid
    rw [hid] at hpush
    right
    rw [hid, hkind]
    rcases push_gathers hg hc hid hpush with ⟨hfull, hentry, hmerged⟩ | ⟨hfull, hmerged, hentry⟩
    · left
      rw [hmerged, hentry]
      exact ⟨rfl, hfull, .inl ⟨Function.update_self _ _ _, rfl⟩, rfl⟩
    · right
      rw [hmerged, hentry]
      exact ⟨rfl, hfull, .inr (Function.update_self _ _ _), rfl, rfl⟩
  · exact .inl ⟨hid, gathers_update hg hid _⟩

theorem actsOf_cons (id : String) (outcome : PbFrame × Option Act)
    (rest : List (PbFrame × Option Act)) : actsOf id (outcome :: rest) =
      (if outcome.1.messageId = id then outcome.2 else none).toList ++ actsOf id rest := by
  rw [actsOf, List.filterMap_cons]
  cases (if outcome.1.messageId = id then outcome.2 else none) <;> rfl

theorem seqs_cons (m : Message) (frame : PbFrame) (frames : List PbFrame) :
    m.seqs (frame :: frames) =
      if frame.messageId = m.id then frame.seq :: m.seqs frames else m.seqs frames := by
  rw [Message.seqs, List.filter_cons]
  by_cases hid : frame.messageId = m.id
  · simp [hid, Message.seqs]
  · simp [hid, Message.seqs]

/-- Where nothing is remembered of a message, every completion is handled. -/
theorem acts_plain (htext : fromUtf8 m.payload = some text) (hjson : json text = some envelope)
    (hplain : m.kind = .event → envelope.eventId = none) (hg : m.Gathers st.entries seen)
    (hc : ∀ frame ∈ frames, m.Carries frame) (hrun : run json st frames = some outcomes) :
    actsOf m.id outcomes =
      List.replicate (rounds m.parts.length seen (m.seqs frames)) ⟨m.kind, text⟩ := by
  induction frames generalizing st seen outcomes with
  | nil =>
    rw [← Option.some.inj hrun]
    rfl
  | cons frame frames ih =>
    obtain ⟨next, rest, hstep, hrest, rfl⟩ := run_cons_cases hrun
    obtain ⟨hframe, hframes⟩ := List.forall_mem_cons.mp hc
    rw [actsOf_cons, seqs_cons]
    rcases step_message hg hframe hstep with ⟨hid, hg'⟩ | ⟨hid, hfull, hg', hact⟩ |
      ⟨hid, hfull, hg', hact, -⟩
    · rw [if_neg hid, if_neg hid, ih hg' hframes hrest]
      rfl
    · have hhandled : next.act = some ⟨m.kind, text⟩ := by
        rw [handle_payload htext hjson] at hact
        split at hact
        · rename_i hkind
          rw [hplain hkind] at hact
          rw [(Prod.mk.inj hact).2, hkind]
        · rename_i hkind
          have hcard : m.kind = .card := by
            cases h : m.kind with
            | event => exact absurd h hkind
            | card => rfl
          rw [(Prod.mk.inj hact).2, hcard]
      rw [if_pos hid, if_pos hid, ih hg' hframes hrest, rounds, if_pos hfull, hhandled]
      rfl
    · rw [if_pos hid, if_pos hid, ih hg' hframes hrest, rounds, if_neg hfull, hact]
      rfl

theorem mem_seen_iff (hstep : step json st frame = some next) :
    eid ∈ next.session.seen ↔
      eid ∈ st.seen ∨ ∃ act, next.act = some act ∧ act.eventId json = some eid := by
  obtain ⟨pushed, -, rfl⟩ := step_cases hstep
  exact mem_handle

/-- An event that is marked is not handled again. -/
theorem acts_marked (htext : fromUtf8 m.payload = some text) (hjson : json text = some envelope)
    (hkind : m.kind = .event) (heid : envelope.eventId = some eid) (hmarked : eid ∈ st.seen)
    (hg : m.Gathers st.entries seen) (hc : ∀ frame ∈ frames, m.Carries frame)
    (hrun : run json st frames = some outcomes) : actsOf m.id outcomes = [] := by
  induction frames generalizing st seen outcomes with
  | nil =>
    rw [← Option.some.inj hrun]
    rfl
  | cons frame frames ih =>
    obtain ⟨next, rest, hstep, hrest, rfl⟩ := run_cons_cases hrun
    obtain ⟨hframe, hframes⟩ := List.forall_mem_cons.mp hc
    have hstays : eid ∈ next.session.seen := (mem_seen_iff hstep).mpr (.inl hmarked)
    rw [actsOf_cons]
    rcases step_message hg hframe hstep with ⟨hid, hg'⟩ | ⟨hid, -, hg', hact⟩ |
      ⟨hid, -, hg', hact, -⟩
    · rw [if_neg hid, ih hstays hg' hframes hrest]
      rfl
    · rw [handle_payload htext hjson, if_pos hkind, heid] at hact
      dsimp only at hact
      rw [if_pos hmarked] at hact
      rw [if_pos hid, ih hstays hg' hframes hrest, (Prod.mk.inj hact).2]
      rfl
    · rw [if_pos hid, ih hstays hg' hframes hrest, hact]
      rfl

/-- An event that no other message brings is handled when it is complete for the first time. -/
theorem acts_event (htext : fromUtf8 m.payload = some text) (hjson : json text = some envelope)
    (hkind : m.kind = .event) (heid : envelope.eventId = some eid) (hfresh : eid ∉ st.seen)
    (hothers : ∀ outcome ∈ outcomes, outcome.1.messageId ≠ m.id → ∀ act, outcome.2 = some act →
      act.eventId json ≠ some eid)
    (hg : m.Gathers st.entries seen) (hc : ∀ frame ∈ frames, m.Carries frame)
    (hrun : run json st frames = some outcomes) : actsOf m.id outcomes =
      if 0 < rounds m.parts.length seen (m.seqs frames) then [⟨.event, text⟩] else [] := by
  induction frames generalizing st seen outcomes with
  | nil =>
    rw [← Option.some.inj hrun]
    rfl
  | cons frame frames ih =>
    obtain ⟨next, rest, hstep, hrest, rfl⟩ := run_cons_cases hrun
    obtain ⟨hframe, hframes⟩ := List.forall_mem_cons.mp hc
    obtain ⟨hother, hothers⟩ := List.forall_mem_cons.mp hothers
    rw [actsOf_cons, seqs_cons]
    rcases step_message hg hframe hstep with ⟨hid, hg'⟩ | ⟨hid, hfull, hg', hact⟩ |
      ⟨hid, hfull, hg', hact, hseen⟩
    · have hstays : eid ∉ next.session.seen := by
        rw [mem_seen_iff hstep]
        rintro (hmem | ⟨act, hact, hevent⟩)
        · exact hfresh hmem
        · exact hother hid act hact hevent
      rw [if_neg hid, if_neg hid, ih hstays hothers hg' hframes hrest]
      rfl
    · rw [handle_payload htext hjson, if_pos hkind, heid] at hact
      dsimp only at hact
      rw [if_neg hfresh] at hact
      obtain ⟨hseen, hhandled⟩ := Prod.mk.inj hact
      have hmarked : eid ∈ next.session.seen := hseen ▸ List.mem_cons_self
      rw [if_pos hid, if_pos hid, acts_marked htext hjson hkind heid hmarked hg' hframes hrest,
        rounds, if_pos hfull, if_pos (Nat.succ_pos _), hhandled]
      rfl
    · rw [if_pos hid, if_pos hid, ih (hseen ▸ hfresh) hothers hg' hframes hrest, rounds,
        if_neg hfull, hact]
      rfl

variable (m) in
/-- The frames bring the whole message, and nothing else under its id. -/
def Message.Sent (frames : List PbFrame) : Prop :=
  (∀ frame ∈ frames, m.Carries frame) ∧ Full m.parts.length (m.seqs frames)

variable (m json) in
/-- If the message is an event with an id, that id was not marked before and is not that of an event
which another message brings. -/
def Message.Fresh (marked : List String) (envelope : Envelope)
    (outcomes : List (PbFrame × Option Act)) : Prop :=
  m.kind = .event → ∀ eid, envelope.eventId = some eid → eid ∉ marked ∧
    ∀ outcome ∈ outcomes, outcome.1.messageId ≠ m.id → ∀ act, outcome.2 = some act →
      act.eventId json ≠ some eid

theorem run_of_runsWithin (h : RunsWithin json limit st frames) :
    ∃ outcomes, run json st frames = some outcomes := by
  induction frames generalizing st with
  | nil => exact ⟨[], rfl⟩
  | cons frame frames ih =>
    obtain ⟨next, hstep, -, hrest⟩ := h
    obtain ⟨rest, hrun⟩ := ih hrest
    refine ⟨(frame, next.act) :: rest, ?_⟩
    rw [run, hstep, Option.bind_some, hrun]
    rfl

theorem opensWithin_of_sums (h : ∀ frame ∈ frames, slotBytes * frame.sum ≤ limit) :
    OpensWithin json limit st frames := by
  induction frames generalizing st with
  | nil => trivial
  | cons frame frames ih =>
    obtain ⟨hframe, hframes⟩ := List.forall_mem_cons.mp h
    exact ⟨fun _ => hframe, fun next _ => ih hframes⟩

/-- No frame panics or allocates more than the limit if and only if each frame that opens an entry
keeps to it, and then a handler acts exactly once on a message that is sent if and only if it is an
event with an id or does not come in full twice. -/
theorem frames_handled_once_iff (json : String → Option Envelope) {limit : ℕ}
    (hlimit : limit ≤ isizeMax) (marked : List String) (frames : List PbFrame) :
    (RunsWithin json limit ⟨fun _ => none, marked⟩ frames ↔
      OpensWithin json limit ⟨fun _ => none, marked⟩ frames) ∧
    (OpensWithin json limit ⟨fun _ => none, marked⟩ frames →
      ∃ outcomes, run json ⟨fun _ => none, marked⟩ frames = some outcomes ∧
        ∀ (m : Message) (text : String) (envelope : Envelope), m.Sent frames →
          fromUtf8 m.payload = some text → json text = some envelope →
          m.Fresh json marked envelope outcomes →
          (actsOf m.id outcomes = [⟨m.kind, text⟩] ↔
            m.kind = .event ∧ envelope.eventId ≠ none ∨
              ¬Twice m.parts.length (m.seqs frames))) := by
  have hsized : Session.Sized ⟨fun _ => none, marked⟩ := fun id entry h => by cases h
  have hiff : RunsWithin json limit ⟨fun _ => none, marked⟩ frames ↔ _ :=
    runsWithin_iff hsized hlimit
  refine ⟨hiff, fun hopens => ?_⟩
  obtain ⟨outcomes, hrun⟩ := run_of_runsWithin (hiff.mpr hopens)
  refine ⟨outcomes, hrun, fun m text envelope hsent htext hjson hfresh => ?_⟩
  obtain ⟨hcarries, hfull⟩ := hsent
  have hg : m.Gathers (fun _ => none) [] := .inl ⟨rfl, rfl⟩
  have hone := Reassembly.rounds_eq_one_iff (l := m.seqs frames) m.length_pos
  by_cases hmarked : m.kind = .event ∧ envelope.eventId ≠ none
  · obtain ⟨hkind, hne⟩ := hmarked
    obtain ⟨eid, heid⟩ := Option.ne_none_iff_exists'.mp hne
    obtain ⟨hnew, hothers⟩ := hfresh hkind eid heid
    refine iff_of_true ?_ (.inl ⟨hkind, hne⟩)
    have hpos := (Reassembly.rounds_pos_iff (l := m.seqs frames)
      (Reassembly.not_full_nil m.length_pos)).mpr (by rwa [List.append_nil])
    rw [acts_event htext hjson hkind heid hnew hothers hg hcarries hrun, if_pos hpos, hkind]
  · have hplain : m.kind = .event → envelope.eventId = none := by
      intro hkind
      by_contra hne
      exact hmarked ⟨hkind, hne⟩
    rw [acts_plain htext hjson hplain hg hcarries hrun, or_iff_right hmarked]
    constructor
    · intro hacts
      have hlength := congrArg List.length hacts
      rw [List.length_replicate] at hlength
      exact (hone.mp hlength).2
    · intro htwice
      rw [hone.mpr ⟨hfull, htwice⟩]
      rfl

/-- A frame with the headers of a data frame. -/
def dataFrame (msgType id sum seq : String) (payload : Bytes) : PbFrame :=
  ⟨[⟨"type", msgType⟩, ⟨"message_id", id⟩, ⟨"sum", sum⟩, ⟨"seq", seq⟩], payload⟩

/-- A reader of JSON that finds no id in any text. -/
def noIds : String → Option Envelope := fun _ => some ⟨none⟩

def sampleCard : Message := ⟨"m1", .card, [[123], [125]], List.cons_ne_nil _ _⟩

/-- Its parts in the wrong order, the first of them twice, and a frame of another message. -/
def sampleFrames : List PbFrame :=
  [dataFrame "card" "m1" "2" "1" [125], dataFrame "event" "m2" "3" "7" [0],
    dataFrame "card" "m1" "2" "1" [125], dataFrame "card" "m1" "2" "0" [123]]

theorem frames_handled_once_sample : ∃ outcomes,
    run noIds ⟨fun _ => none, []⟩ sampleFrames = some outcomes ∧
      actsOf "m1" outcomes = [⟨.card, "\x7b\x7d"⟩] := by
  have hopens : OpensWithin noIds 1000 ⟨fun _ => none, []⟩ sampleFrames :=
    opensWithin_of_sums (by decide +kernel)
  obtain ⟨outcomes, hrun, hacts⟩ :=
    (frames_handled_once_iff noIds (by decide) [] sampleFrames).2 hopens
  have hsent : sampleCard.Sent sampleFrames := ⟨by decide +kernel, by decide +kernel⟩
  have honce : rounds 2 [] (sampleCard.seqs sampleFrames) = 1 := by decide +kernel
  refine ⟨outcomes, hrun,
    (hacts sampleCard _ ⟨none⟩ hsent (by decide +kernel) rfl ?_).mpr (.inr ?_)⟩
  · exact fun h => by cases h
  · exact ((Reassembly.rounds_eq_one_iff (by decide)).mp honce).2

/-- A frame whose header asks for too many slots panics, and a card that is delivered twice is
handled twice. -/
theorem frames_panic_and_repeat :
    run noIds ⟨fun _ => none, []⟩ [dataFrame "card" "m1" "18446744073709551615" "0" []] = none ∧
    ∃ outcomes, run noIds ⟨fun _ => none, []⟩
        [dataFrame "card" "m1" "1" "0" [123, 125], dataFrame "card" "m1" "1" "0" [123, 125]] =
          some outcomes ∧
      actsOf "m1" outcomes = [⟨.card, "\x7b\x7d"⟩, ⟨.card, "\x7b\x7d"⟩] := by
  refine ⟨by decide +kernel, ?_⟩
  have hacts : (run noIds ⟨fun _ => none, []⟩
      [dataFrame "card" "m1" "1" "0" [123, 125], dataFrame "card" "m1" "1" "0" [123, 125]]).map
        (actsOf "m1") = some [⟨.card, "\x7b\x7d"⟩, ⟨.card, "\x7b\x7d"⟩] := by decide +kernel
  exact Option.map_eq_some_iff.mp hacts

end AionCore.Channel.Lark
