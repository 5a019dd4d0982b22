import AionCore.Lib.Dict
import Mathlib.Data.Finset.Card
import Mathlib.Data.List.Induction

/-!
# Channels: the callbacks of WeCom

`mark_event_seen`, `parse_incoming` and the dispatch of a callback in `connect_once` of the WeCom
plugin. The map of seen messages forgets what is an hour old or what it lists first when it is
full.
-/

namespace AionCore.Channel.Wecom

def maxDedupEntries : ℕ := 2048

/-- An hour, in nanoseconds. -/
def dedupWindow : ℕ := 3600000000000

/-- When each message was last seen. What was seen last is stored first; the order in which the map
lists its keys is another one. -/
abbrev Seen := Dict String ℕ

def evict (order : IterOrder String) (seen : Seen) : Seen :=
  if seen.keys.length > maxDedupEntries then
    match (order.arrange seen.keys).head? with
    | some key => seen.erase key
    | none => seen
  else seen

def live (now : ℕ) (seen : Seen) : Seen := seen.retain fun _ value => now - value < dedupWindow

def markEventSeen (order : IterOrder String) (now : ℕ) (msgid : Option String) (seen : Seen) :
    Bool × Seen :=
  match msgid with
  | none => (true, seen)
  | some msgid =>
    if msgid ∈ live now seen then (false, (live now seen).insert msgid now)
    else (true, evict order ((live now seen).insert msgid now))

inductive MessageContentType where
  | text
  | photo
  | document
  | voice
  | video

structure UnifiedAttachment where
  fileId : Option String
  fileName : Option String
  mimeType : Option String
  fileSize : Option ℕ
  url : Option String

/-- An image, a file or a video of a body. -/
structure Media where
  url : Option String
  mediaId : Option String
  fileName : Option String
  fileSize : Option ℕ

/-- An item of a mixed message. -/
structure MixedItem where
  msgtype : Option String
  text : Option String
  image : Option Media

/-- What is read of the body of a frame; a field that is missing or has another type is `none`. -/
structure CallbackBody where
  msgid : Option String
  msgtype : Option String
  text : Option String
  voice : Option String
  image : Option Media
  file : Option Media
  video : Option Media
  mixed : Option (List MixedItem)
  userid : Option String
  chatid : Option String
  name : Option String
  displayName : Option String
  createTime : Option ℤ
  eventtype : Option String

structure CallbackFrame where
  cmd : String
  body : Option CallbackBody

def CallbackFrame.msgid (frame : CallbackFrame) : Option String := frame.body.bind (·.msgid)

structure UnifiedIncomingMessage where
  id : String
  chatId : String
  userId : String
  displayName : String
  contentType : MessageContentType
  text : String
  attachments : Option (List UnifiedAttachment)
  timestamp : ℤ

def mediaAttachment (media : Option Media) (mimeType : String) : Option (List UnifiedAttachment) :=
  media.bind fun media => media.url.map fun url =>
    [⟨media.mediaId, media.fileName, some mimeType, media.fileSize, some url⟩]

def addLine (text line : String) : String := if text = "" then line else text ++ "\n" ++ line

def parseMixed (items : List MixedItem) : String × Option (List UnifiedAttachment) :=
  let (text, attachments) := items.foldl (fun (text, attachments) item =>
    match item.msgtype with
    | some "text" => ((item.text.map (addLine text)).getD text, attachments)
    | some "image" =>
      match mediaAttachment item.image "image/*" with
      | some values => (addLine text "[图片]", attachments ++ values)
      | none => (text, attachments)
    | _ => (text, attachments)) ("", [])
  (text, if attachments = [] then none else some attachments)

/-- The text of a message with its attachments and its type, if it has one that is supported. -/
def contentOf (body : CallbackBody) :
    Option (String × Option (List UnifiedAttachment) × MessageContentType) :=
  match body.msgtype.getD "" with
  | "text" => body.text.map fun text => (text, none, .text)
  | "voice" => body.voice.map fun text => (text, none, .voice)
  | "image" => some ("[图片]", mediaAttachment body.image "image/*", .photo)
  | "file" => some ("[文件]", mediaAttachment body.file "application/octet-stream", .document)
  | "video" => some ("[视频]", mediaAttachment body.video "video/*", .video)
  | "mixed" => body.mixed.map fun items =>
      let (text, attachments) := parseMixed items
      (text, attachments, .text)
  | _ => none

def toMillis (value : ℤ) : ℤ := if value < 1000000000000 then value * 1000 else value

def messageOf (msgid : String) (nowMs : ℤ) (body : CallbackBody) : Option UnifiedIncomingMessage :=
  (contentOf body).bind fun (text, attachments, contentType) => body.userid.map fun userid =>
    { id := msgid
      chatId := (body.chatid.filter (· ≠ "")).getD userid
      userId := userid
      displayName := (body.name.or body.displayName).getD userid
      contentType, text, attachments
      timestamp := (body.createTime.map toMillis).getD nowMs }

/-- `parse_incoming` asks whether the message was seen before it reads the content, but for an
event. -/
def CallbackFrame.asks (frame : CallbackFrame) : Bool :=
  frame.body.any fun body => body.msgid.isSome && body.msgtype ≠ some "event"

def parseIncoming (order : IterOrder String) (now : ℕ) (nowMs : ℤ) (frame : CallbackFrame)
    (seen : Seen) : Option UnifiedIncomingMessage × Seen :=
  match frame.body with
  | none => (none, seen)
  | some body =>
    match body.msgid with
    | none => (none, seen)
    | some msgid =>
      if frame.asks then
        let (fresh, seen) := markEventSeen order now frame.msgid seen
        (if fresh then messageOf msgid nowMs body else none, seen)
      else (messageOf msgid nowMs body, seen)

/-- What is done with a callback. -/
inductive Act where
  | message (message : UnifiedIncomingMessage)
  | event (eventtype : Option String)

/-- A callback that comes in, with the times and the orders that the two calls of `mark_event_seen`
would find. -/
structure Arrival where
  frame : CallbackFrame
  now : ℕ
  order : IterOrder String
  later : ℕ
  laterOrder : IterOrder String
  nowMs : ℤ

/-- The callback of an authenticated connection. -/
def dispatch (seen : Seen) (a : Arrival) : Option Act × Seen :=
  if a.frame.cmd = "aibot_msg_callback" ∨ a.frame.cmd = "aibot_event_callback" then
    match parseIncoming a.order a.now a.nowMs a.frame seen with
    | (some message, seen) => (some (.message message), seen)
    | (none, seen) =>
      if a.frame.cmd = "aibot_event_callback" then
        let (fresh, seen) := markEventSeen a.laterOrder a.later a.frame.msgid seen
        (if fresh then some (.event (a.frame.body.bind (·.eventtype))) else none, seen)
      else (none, seen)
  else (none, seen)

/-- What a connection remembers after some callbacks. -/
def seenAfter (seen : Seen) (run : List Arrival) : Seen :=
  run.foldl (fun seen a => (dispatch seen a).2) seen

/-- The times at which the map may be asked, in the order of the calls. -/
def times (run : List Arrival) : List ℕ := run.flatMap fun a => [a.now, a.later]

/-- If this call finds the map full, the key that the map lists first is the one that was seen
longest ago. -/
def EvictsOldest (order : IterOrder String) (now : ℕ) (msgid : Option String) (seen : Seen) :
    Prop :=
  ∀ m, msgid = some m → m ∉ live now seen →
    ((live now seen).insert m now).keys.length > maxDedupEntries →
      (order.arrange ((live now seen).insert m now).keys).head? =
        ((live now seen).insert m now).keys.getLast?

def Arrival.EvictsOldest (a : Arrival) (seen : Seen) : Prop :=
  let parsed := parseIncoming a.order a.now a.nowMs a.frame seen
  (a.frame.asks → Wecom.EvictsOldest a.order a.now a.frame.msgid seen) ∧
    (a.frame.cmd = "aibot_event_callback" → parsed.1 = none →
      Wecom.EvictsOldest a.laterOrder a.later a.frame.msgid parsed.2)

def Careful : Seen → List Arrival → Prop
  | _, [] => True
  | seen, a :: run => a.EvictsOldest seen ∧ Careful (dispatch seen a).2 run

variable {order : IterOrder String} {now since : ℕ} {msgid : Option String} {x y : String}
  {seen : Seen} {others : Finset String}

/-- The message was seen since then, and all that was seen after it is among the others. -/
def Remembers (x : String) (since : ℕ) (others : Finset String) (seen : Seen) : Prop :=
  ∃ newer t older, seen.entries = newer ++ ⟨x, t⟩ :: older ∧ since ≤ t ∧
    ∀ y ∈ newer.keys, y ∈ others

section

variable (h : Remembers x since others seen)
include h

theorem Remembers.mem : x ∈ seen := by
  obtain ⟨newer, t, older, hentries, -, -⟩ := h
  rw [AList.mem_keys, AList.keys, hentries, List.keys_append]
  exact List.mem_append_right _ List.mem_cons_self

theorem Remembers.mono {others' : Finset String} {since' : ℕ} (hsince : since' ≤ since)
    (hsubset : others ⊆ others') : Remembers x since' others' seen := by
  obtain ⟨newer, t, older, hentries, ht, hnewer⟩ := h
  exact ⟨newer, t, older, hentries, hsince.trans ht, fun y hy => hsubset (hnewer y hy)⟩

theorem Remembers.live (hhour : now - since < dedupWindow) :
    Remembers x since others (live now seen) := by
  obtain ⟨newer, t, older, hentries, hsince, hnewer⟩ := h
  refine ⟨newer.filter fun e => now - e.2 < dedupWindow, t,
    older.filter fun e => now - e.2 < dedupWindow, ?_, hsince, fun y hy => hnewer y ?_⟩
  · show seen.entries.filter _ = _
    have ht : now - t < dedupWindow := by omega
    rw [hentries, List.filter_append, List.filter_cons_of_pos (by simpa using ht)]
  · exact (List.filter_sublist.map Sigma.fst).subset hy

/-- Another message may leave. -/
theorem Remembers.kerase (hy : y ≠ x) :
    Remembers x since others (seen.erase y) := by
  obtain ⟨newer, t, older, hentries, hsince, hnewer⟩ := h
  have herase : (seen.erase y).entries = (newer ++ ⟨x, t⟩ :: older).kerase y := by
    rw [← hentries]
    rfl
  by_cases hmem : y ∈ newer.keys
  · rw [List.kerase_append_left hmem] at herase
    exact ⟨newer.kerase y, t, older, herase, hsince,
      fun z hz => hnewer z (List.kerase_keys_subset y newer hz)⟩
  · rw [List.kerase_append_right hmem, List.kerase_cons_ne hy] at herase
    exact ⟨newer, t, older.kerase y, herase, hsince, hnewer⟩

end

theorem remembers_insert (hsince : since ≤ now) : Remembers x since others (seen.insert x now) :=
  ⟨[], now, seen.entries.kerase x, AList.entries_insert, hsince, fun _ h => by cases h⟩

section

variable (h : Remembers x since others seen)
include h

theorem Remembers.insert (hy : y ≠ x) (hother : y ∈ others) :
    Remembers x since others (seen.insert y now) := by
  obtain ⟨newer, t, older, hentries, hsince, hnewer⟩ := h.kerase hy
  refine ⟨⟨y, now⟩ :: newer, t, older, ?_, hsince, fun z hz => ?_⟩
  · rw [AList.entries_insert]
    exact congrArg (_ :: ·) hentries
  · rcases List.mem_cons.mp hz with rfl | hz
    · exact hother
    · exact hnewer z hz

/-- A message that few were seen after is not the one seen longest ago of a full map. -/
theorem Remembers.ne_last (hfew : others.card < maxDedupEntries)
    (hfull : seen.keys.length > maxDedupEntries) (hlast : seen.keys.getLast? = some y) : y ≠ x := by
  rintro rfl
  obtain ⟨newer, t, older, hentries, -, hnewer⟩ := h
  have hkeys : seen.keys = newer.keys ++ y :: older.keys := by
    rw [AList.keys, hentries, List.keys_append, List.keys_cons]
  have hnodup : (newer.keys ++ y :: older.keys).Nodup := hkeys ▸ seen.keys_nodup
  have holder : older.keys = [] := by
    by_contra hne
    rw [hkeys, List.getLast?_append_of_ne_nil _ (List.cons_ne_nil _ _)] at hlast
    obtain ⟨z, rest, hrest⟩ := List.exists_cons_of_ne_nil hne
    rw [hrest, List.getLast?_cons_cons, ← hrest] at hlast
    exact (List.nodup_cons.mp (List.nodup_append.mp hnodup).2.1).1
      (List.mem_of_getLast? hlast)
  have hlength : newer.keys.length ≤ others.card := by
    rw [← List.toFinset_card_of_nodup (List.nodup_append.mp hnodup).1]
    exact Finset.card_le_card fun z hz => hnewer z (List.mem_toFinset.mp hz)
  rw [hkeys, holder, List.length_append, List.length_singleton] at hfull
  omega

theorem Remembers.evict (hfew : others.card < maxDedupEntries)
    (hold : seen.keys.length > maxDedupEntries →
      (order.arrange seen.keys).head? = seen.keys.getLast?) :
    Remembers x since others (evict order seen) := by
  unfold Wecom.evict
  split
  · rename_i hfull
    split
    · rename_i key hkey
      exact h.kerase (h.ne_last hfew hfull ((hold hfull).symm.trans hkey))
    · exact h
  · exact h

/-- One call of `mark_event_seen` for the message or for one of the others. -/
theorem Remembers.mark (hsince : since ≤ now) (hhour : now - since < dedupWindow)
    (hid : ∀ y, msgid = some y → y = x ∨ y ∈ others) (hfew : others.card < maxDedupEntries)
    (hold : EvictsOldest order now msgid seen) :
    Remembers x since others (markEventSeen order now msgid seen).2 := by
  unfold markEventSeen
  cases msgid with
  | none => exact h
  | some y =>
    have hinsert : Remembers x since others ((Wecom.live now seen).insert y now) := by
      by_cases hy : y = x
      · rw [hy]
        exact remembers_insert hsince
      · exact (h.live hhour).insert hy ((hid y rfl).resolve_left hy)
    dsimp only
    split
    · exact hinsert
    · rename_i hnew
      exact hinsert.evict hfew (hold y rfl hnew)

end

theorem remembers_mark (hold : EvictsOldest order now (some x) seen) :
    Remembers x now ∅ (markEventSeen order now (some x) seen).2 := by
  unfold markEventSeen
  dsimp only
  split
  · exact remembers_insert le_rfl
  · rename_i hnew
    exact (remembers_insert le_rfl).evict (by decide) (hold x rfl hnew)

theorem Remembers.refused (h : Remembers x since others seen) (hhour : now - since < dedupWindow) :
    (markEventSeen order now (some x) seen).1 = false := by
  rw [markEventSeen, if_pos (h.live hhour).mem]

theorem length_keys_insert (seen : Seen) :
    (seen.insert x now).keys.length =
      if x ∈ seen then seen.keys.length else seen.keys.length + 1 := by
  rw [AList.keys_insert, List.length_cons]
  split
  · rename_i hx
    have hpos := List.length_pos_of_mem (AList.mem_keys.mp hx)
    rw [List.length_erase_of_mem (AList.mem_keys.mp hx)]
    omega
  · rename_i hx
    rw [List.erase_of_not_mem (fun hmem => hx (AList.mem_keys.mpr hmem))]

theorem length_evict (h : seen.keys.length ≤ maxDedupEntries + 1) :
    (evict order seen).keys.length ≤ maxDedupEntries := by
  unfold evict
  split
  · rename_i hfull
    split
    · rename_i key hkey
      have hmem : key ∈ seen.keys := order.mem_arrange.mp (List.mem_of_head? hkey)
      rw [AList.keys_erase, List.length_erase_of_mem hmem]
      omega
    · rename_i hnone
      have hlength := (order.perm seen.keys).length_eq
      rw [List.head?_eq_none_iff.mp hnone] at hlength
      rw [← hlength] at hfull
      exact absurd hfull (by decide)
  · omega

theorem length_live (now : ℕ) (seen : Seen) : (live now seen).keys.length ≤ seen.keys.length :=
  (List.filter_sublist.map Sigma.fst).length_le

theorem length_mark (h : seen.keys.length ≤ maxDedupEntries) :
    (markEventSeen order now msgid seen).2.keys.length ≤ maxDedupEntries := by
  have hlive := (length_live now seen).trans h
  unfold markEventSeen
  cases msgid with
  | none => exact h
  | some y =>
    dsimp only
    split
    · rename_i hmem
      rw [length_keys_insert, if_pos hmem]
      exact hlive
    · rename_i hnew
      refine length_evict ?_
      rw [length_keys_insert, if_neg hnew]
      omega

variable {nowMs : ℤ} {frame : CallbackFrame} {a b : Arrival}

theorem parseIncoming_of_asks (h : frame.asks = true) :
    (parseIncoming order now nowMs frame seen).2 = (markEventSeen order now frame.msgid seen).2 ∧
      ((markEventSeen order now frame.msgid seen).1 = false →
        (parseIncoming order now nowMs frame seen).1 = none) := by
  obtain ⟨cmd, body⟩ := frame
  cases body with
  | none => cases h
  | some body =>
    cases hid : body.msgid with
    | none => simp [CallbackFrame.asks, hid] at h
    | some msgid =>
      simp only [parseIncoming, hid, h, if_true, true_and]
      intro hrefused
      rw [hrefused]
      rfl

/-- An event has no content, and a frame without a message id is not read. -/
theorem parseIncoming_of_not_asks (h : frame.asks = false) :
    parseIncoming order now nowMs frame seen = (none, seen) := by
  obtain ⟨cmd, body⟩ := frame
  cases body with
  | none => rfl
  | some body =>
    cases hid : body.msgid with
    | none => simp only [parseIncoming, hid]
    | some msgid =>
      have htype : body.msgtype = some "event" := by
        simpa [CallbackFrame.asks, hid] using h
      have hcontent : contentOf body = none := by
        rw [contentOf, htype]
        rfl
      simp only [parseIncoming, hid, h, messageOf, hcontent]
      rfl

/-- What a callback does to the map: nothing, or what its calls of `mark_event_seen` do. -/
theorem dispatch_cases (seen : Seen) (a : Arrival) :
    let parsed := parseIncoming a.order a.now a.nowMs a.frame seen
    (dispatch seen a).2 = seen ∨ (dispatch seen a).2 = parsed.2 ∨
      a.frame.cmd = "aibot_event_callback" ∧ parsed.1 = none ∧
        (dispatch seen a).2 = (markEventSeen a.laterOrder a.later a.frame.msgid parsed.2).2 := by
  unfold dispatch
  split
  · split
    · rename_i hparsed
      rw [hparsed]
      exact .inr (.inl rfl)
    · rename_i hparsed
      rw [hparsed]
      split
      · rename_i hcmd
        exact .inr (.inr ⟨hcmd, rfl, rfl⟩)
      · exact .inr (.inl rfl)
  · exact .inl rfl

section

variable (h : Remembers x since others seen)
include h

theorem Remembers.parse (hsince : since ≤ a.now) (hhour : a.now - since < dedupWindow)
    (hid : ∀ y, a.frame.msgid = some y → y = x ∨ y ∈ others)
    (hfew : others.card < maxDedupEntries) (hold : a.EvictsOldest seen) :
    Remembers x since others (parseIncoming a.order a.now a.nowMs a.frame seen).2 := by
  cases hasks : a.frame.asks with
  | false =>
    rw [parseIncoming_of_not_asks hasks]
    exact h
  | true =>
    rw [(parseIncoming_of_asks hasks).1]
    exact h.mark hsince hhour hid hfew (hold.1 hasks)

/-- A callback of the message, or of one of the others, leaves the message remembered. -/
theorem Remembers.dispatch (hsince : since ≤ a.now) (hlater : a.now ≤ a.later)
    (hhour : a.later - since < dedupWindow)
    (hid : ∀ y, a.frame.msgid = some y → y = x ∨ y ∈ others)
    (hfew : others.card < maxDedupEntries) (hold : a.EvictsOldest seen) :
    Remembers x since others (dispatch seen a).2 := by
  have hparse := h.parse hsince (by omega) hid hfew hold
  rcases dispatch_cases seen a with heq | heq | ⟨hcmd, hnone, heq⟩
  · rwa [heq]
  · rwa [heq]
  · rw [heq]
    exact hparse.mark (hsince.trans hlater) hhour hid hfew (hold.2 hcmd hnone)

/-- While a message is remembered its callbacks do nothing. -/
theorem Remembers.dispatch_eq_none (hsince : since ≤ a.now) (hlater : a.now ≤ a.later)
    (hhour : a.later - since < dedupWindow) (hid : a.frame.msgid = some x)
    (hfew : others.card < maxDedupEntries) (hold : a.EvictsOldest seen) :
    (Wecom.dispatch seen a).1 = none := by
  have hparse := h.parse hsince (by omega) (fun y hy => .inl (Option.some.inj (hy.symm.trans hid)))
    hfew hold
  have hnone : (parseIncoming a.order a.now a.nowMs a.frame seen).1 = none := by
    cases hasks : a.frame.asks with
    | false => rw [parseIncoming_of_not_asks hasks]
    | true =>
      refine (parseIncoming_of_asks hasks).2 ?_
      rw [hid]
      exact h.refused (by omega)
  have hrefused : (markEventSeen a.laterOrder a.later (some x)
      (parseIncoming a.order a.now a.nowMs a.frame seen).2).1 = false := hparse.refused hhour
  rw [← hid] at hrefused
  unfold Wecom.dispatch
  revert hnone hrefused
  generalize parseIncoming a.order a.now a.nowMs a.frame seen = parsed
  obtain ⟨message, seen'⟩ := parsed
  rintro rfl hrefused
  dsimp only at hrefused ⊢
  split
  · split
    · rw [hrefused]
      rfl
    · rfl
  · rfl

end

/-- A callback that something is done with is remembered. -/
theorem remembers_dispatch (hid : a.frame.msgid = some x) (hlater : a.now ≤ a.later)
    (hold : a.EvictsOldest seen) (hact : (dispatch seen a).1.isSome) :
    Remembers x a.now ∅ (dispatch seen a).2 := by
  have hfirst : a.frame.asks = true →
      Remembers x a.now ∅ (parseIncoming a.order a.now a.nowMs a.frame seen).2 := by
    intro hasks
    have hmark := hold.1 hasks
    rw [(parseIncoming_of_asks hasks).1, hid]
    rw [hid] at hmark
    exact remembers_mark hmark
  have hsecond : a.frame.cmd = "aibot_event_callback" →
      (parseIncoming a.order a.now a.nowMs a.frame seen).1 = none →
      Remembers x a.now ∅ (markEventSeen a.laterOrder a.later a.frame.msgid
        (parseIncoming a.order a.now a.nowMs a.frame seen).2).2 := by
    intro hcmd hnone
    have hmark := hold.2 hcmd hnone
    rw [hid] at hmark ⊢
    exact (remembers_mark hmark).mono hlater subset_rfl
  have hasks : (parseIncoming a.order a.now a.nowMs a.frame seen).1 ≠ none →
      a.frame.asks = true := by
    intro hsome
    by_contra hnot
    rw [parseIncoming_of_not_asks (Bool.eq_false_iff.mpr hnot)] at hsome
    exact hsome rfl
  unfold dispatch at hact ⊢
  revert hfirst hsecond hasks hact
  generalize parseIncoming a.order a.now a.nowMs a.frame seen = parsed
  obtain ⟨message, seen'⟩ := parsed
  intro hact hfirst hsecond hasks
  split at hact
  · rename_i hcmd
    rw [if_pos hcmd]
    cases message with
    | some message => exact hfirst (hasks (by simp))
    | none =>
      dsimp only at hact ⊢
      split at hact
      · rename_i hevent
        rw [if_pos hevent]
        exact hsecond hevent rfl
      · cases hact
  · cases hact

variable {run between : List Arrival} {before : List Arrival}

theorem careful_append : Careful seen (before ++ run) ↔
    Careful seen before ∧ Careful (seenAfter seen before) run := by
  induction before generalizing seen with
  | nil => exact (iff_of_eq (true_and _)).symm
  | cons a before ih =>
    rw [List.cons_append, Careful, Careful, ih, and_assoc]
    rfl

theorem seenAfter_append :
    seenAfter seen (before ++ run) = seenAfter (seenAfter seen before) run := List.foldl_append

/-- A message stays remembered while few others come and the hour is not over. -/
theorem Remembers.stays (h : Remembers x since others seen) (hcareful : Careful seen between)
    (htimes : (times between).Pairwise (· ≤ ·))
    (hwindow : ∀ now ∈ times between, since ≤ now ∧ now - since < dedupWindow)
    (hid : ∀ y ∈ between.filterMap (·.frame.msgid), y = x ∨ y ∈ others)
    (hfew : others.card < maxDedupEntries) : Remembers x since others (seenAfter seen between) := by
  induction between generalizing seen with
  | nil => exact h
  | cons a between ih =>
    obtain ⟨hold, hcareful⟩ := hcareful
    have hnow := hwindow a.now (by simp [times])
    have hlater := hwindow a.later (by simp [times])
    have hle : a.now ≤ a.later := List.rel_of_pairwise_cons htimes (by simp)
    have hstep := h.dispatch hnow.1 hle hlater.2
      (fun y hy => hid y (List.mem_filterMap.mpr ⟨a, List.mem_cons_self, hy⟩)) hfew hold
    refine ih hstep hcareful ((List.pairwise_append.mp htimes).2.1)
      (fun now hmem => hwindow now (List.mem_append_right _ hmem)) fun y hy => hid y ?_
    obtain ⟨b, hb, hmsgid⟩ := List.mem_filterMap.mp hy
    exact List.mem_filterMap.mpr ⟨b, List.mem_cons_of_mem a hb, hmsgid⟩

theorem length_parse (h : seen.keys.length ≤ maxDedupEntries) :
    (parseIncoming order now nowMs frame seen).2.keys.length ≤ maxDedupEntries := by
  cases hasks : frame.asks with
  | false =>
    rw [parseIncoming_of_not_asks hasks]
    exact h
  | true =>
    rw [(parseIncoming_of_asks hasks).1]
    exact length_mark h

theorem length_dispatch (h : seen.keys.length ≤ maxDedupEntries) :
    (dispatch seen a).2.keys.length ≤ maxDedupEntries := by
  rcases dispatch_cases seen a with heq | heq | ⟨-, -, heq⟩
  · rwa [heq]
  · rw [heq]
    exact length_parse h
  · rw [heq]
    exact length_mark (length_parse h)

theorem length_seenAfter (run : List Arrival) :
    (seenAfter ∅ run).keys.length ≤ maxDedupEntries := by
  induction run using List.reverseRecOn with
  | nil => exact Nat.zero_le _
  | append_singleton run a ih =>
    rw [seenAfter_append]
    exact length_dispatch ih

/-- The map stays within its bound after each call. Where a full map loses what was seen longest
ago, two callbacks of one message, with few others and less than an hour between them, are not both
acted on. -/
theorem callback_acts_once (before : List Arrival) (a : Arrival) (between : List Arrival)
    (b : Arrival) (x : String) :
    ((parseIncoming a.order a.now a.nowMs a.frame (seenAfter ∅ before)).2.keys.length ≤
        maxDedupEntries ∧
      (dispatch (seenAfter ∅ before) a).2.keys.length ≤ maxDedupEntries) ∧
    (Careful ∅ (before ++ a :: between ++ [b]) →
      (times (before ++ a :: between ++ [b])).Pairwise (· ≤ ·) →
      a.frame.msgid = some x → b.frame.msgid = some x →
      ((between.filterMap (·.frame.msgid)).toFinset.erase x).card ≤ maxDedupEntries - 1 →
      b.later - a.now < dedupWindow →
      ¬((dispatch (seenAfter ∅ before) a).1.isSome ∧
        (dispatch (seenAfter ∅ (before ++ a :: between)) b).1.isSome)) := by
  constructor
  · exact ⟨length_parse (length_seenAfter before), length_dispatch (length_seenAfter before)⟩
  rintro hcareful htimes ha hb hfew hhour ⟨hacta, hactb⟩
  have hfew : ((between.filterMap (·.frame.msgid)).toFinset.erase x).card < maxDedupEntries :=
    hfew.trans_lt (by decide)
  rw [List.append_assoc] at hcareful htimes
  obtain ⟨-, holda, hrest⟩ := careful_append.mp hcareful
  obtain ⟨hbetween, holdb, -⟩ := careful_append.mp hrest
  -- every later time lies between the first callback and the end of the second
  have hafter : (times (a :: (between ++ [b]))).Pairwise (· ≤ ·) := by
    rw [times, List.flatMap_append] at htimes
    exact (List.pairwise_append.mp htimes).2.1
  have hsplit : times (a :: (between ++ [b])) =
      [a.now, a.later] ++ (times between ++ [b.now, b.later]) := by
    simp [times]
  rw [hsplit] at hafter
  obtain ⟨hpair, htail, hcross⟩ := List.pairwise_append.mp hafter
  obtain ⟨hinner, hlast, htob⟩ := List.pairwise_append.mp htail
  have hlatera : a.now ≤ a.later := List.rel_of_pairwise_cons hpair (by simp)
  have hlaterb : b.now ≤ b.later := List.rel_of_pairwise_cons hlast (by simp)
  have hnowb : a.now ≤ b.now := hcross a.now (by simp) b.now (by simp)
  have hseen := (remembers_dispatch ha hlatera holda hacta).mono le_rfl
    (Finset.empty_subset ((between.filterMap (·.frame.msgid)).toFinset.erase x))
  have hrun := hseen.stays hbetween hinner (fun now hmem => ?_) (fun y hy => ?_) hfew
  · have hstate : seenAfter (dispatch (seenAfter ∅ before) a).2 between =
        seenAfter ∅ (before ++ a :: between) := by
      rw [seenAfter_append]
      rfl
    rw [hstate] at hrun
    rw [hstate] at holdb
    rw [hrun.dispatch_eq_none hnowb hlaterb hhour hb hfew holdb] at hactb
    cases hactb
  · have hlo := hcross a.now (by simp) now (List.mem_append_left _ hmem)
    have hhi := htob now hmem b.later (by simp)
    exact ⟨hlo, by omega⟩
  · by_cases hy' : y = x
    · exact .inl hy'
    · exact .inr (Finset.mem_erase.mpr ⟨hy', List.mem_toFinset.mpr hy⟩)

/-- A text message, which comes when the map lists its keys as it stores them. -/
def textArrival (msgid : String) : Arrival where
  frame := {
    cmd := "aibot_msg_callback"
    body := some
      { msgid, msgtype := "text", text := "hi", voice := none, image := none, file := none
        video := none, mixed := none, userid := "ada", chatid := none, name := none
        displayName := none, createTime := none, eventtype := none } }
  now := 0
  order := .stored
  later := 0
  laterOrder := .stored
  nowMs := 0

theorem dispatch_textArrival (seen : Seen) (x : String) :
    (dispatch seen (textArrival x)).2 = (markEventSeen .stored 0 (some x) seen).2 ∧
      (dispatch seen (textArrival x)).1.isSome = (markEventSeen .stored 0 (some x) seen).1 := by
  have hasks : (textArrival x).frame.asks = true := by simp [CallbackFrame.asks, textArrival]
  cases hfresh : (markEventSeen .stored 0 (some x) seen).1 with
  | true =>
    have hparse : parseIncoming .stored 0 0 (textArrival x).frame seen =
        (messageOf x 0 ((textArrival x).frame.body.get rfl),
          (markEventSeen .stored 0 (some x) seen).2) := by
      rw [parseIncoming]
      simp only [textArrival] at hasks ⊢
      simp [hasks, CallbackFrame.msgid, hfresh]
    obtain ⟨m, hm⟩ : ∃ m, messageOf x 0 ((textArrival x).frame.body.get rfl) = some m := ⟨_, rfl⟩
    have hdispatch : dispatch seen (textArrival x) =
        (some (.message m), (markEventSeen .stored 0 (some x) seen).2) := by
      rw [dispatch, if_pos (.inl rfl)]
      change (match parseIncoming .stored 0 0 (textArrival x).frame seen with
        | (some message, seen) => (some (Act.message message), seen)
        | (none, seen) => _) = _
      rw [hparse, hm]
    rw [hdispatch]
    exact ⟨rfl, rfl⟩
  | false =>
    have hparse : parseIncoming .stored 0 0 (textArrival x).frame seen =
        (none, (markEventSeen .stored 0 (some x) seen).2) :=
      Prod.ext ((parseIncoming_of_asks hasks).2 hfresh) (parseIncoming_of_asks hasks).1
    have hdispatch : dispatch seen (textArrival x) =
        (none, (markEventSeen .stored 0 (some x) seen).2) := by
      rw [dispatch, if_pos (.inl rfl)]
      change (match parseIncoming .stored 0 0 (textArrival x).frame seen with
        | (some message, seen) => (some (Act.message message), seen)
        | (none, seen) => _) = _
      rw [hparse]
      exact if_neg (by simp [textArrival])
    rw [hdispatch]
    exact ⟨rfl, rfl⟩

theorem live_at_zero (seen : Seen) : live 0 seen = seen := by
  apply AList.ext
  refine List.filter_eq_self.mpr fun e _ => ?_
  show decide (0 - e.2 < dedupWindow) = true
  rw [Nat.zero_sub]
  rfl

/-- A new message has a place in a map that is not full; in a full one its own key is listed
first. -/
theorem mark_new {seen : Seen} {x : String} (hnew : x ∉ seen)
    (hlength : seen.keys.length ≤ maxDedupEntries) :
    (markEventSeen .stored 0 (some x) seen).1 = true ∧
      (markEventSeen .stored 0 (some x) seen).2.keys =
        if seen.keys.length = maxDedupEntries then seen.keys else x :: seen.keys := by
  have hkeys : (seen.insert x 0).keys = x :: seen.keys := by
    rw [AList.keys_insert, List.erase_of_not_mem fun hmem => hnew (AList.mem_keys.mpr hmem)]
  rw [markEventSeen, live_at_zero, if_neg hnew]
  refine ⟨rfl, ?_⟩
  rw [evict, hkeys, List.length_cons]
  split
  · rename_i hfull
    have hhead : (IterOrder.stored.arrange (x :: seen.keys)).head? = some x := rfl
    rw [hhead, if_pos (by omega)]
    rw [AList.keys_erase, hkeys, List.erase_cons_head]
  · rename_i hfull
    rw [if_neg (by omega), hkeys]

/-- That many different messages. -/
def messages (n : ℕ) : List Arrival := (List.range n).map fun i => textArrival (Supply.tally.draw i)

theorem keys_after_messages {n : ℕ} (hn : n ≤ maxDedupEntries) :
    (seenAfter ∅ (messages n)).keys = ((List.range n).map Supply.tally.draw).reverse := by
  induction n with
  | zero => rfl
  | succ n ih =>
    have hkeys := ih (by omega)
    have hlength : (seenAfter ∅ (messages n)).keys.length = n := by
      rw [hkeys, List.length_reverse, List.length_map, List.length_range]
    have hnew : Supply.tally.draw n ∉ seenAfter ∅ (messages n) := by
      rw [AList.mem_keys, hkeys, List.mem_reverse, List.mem_map]
      rintro ⟨i, hi, heq⟩
      have hi := List.mem_range.mp hi
      exact absurd (Supply.tally.fresh heq) (by omega)
    rw [messages, List.range_succ, List.map_append, List.map_append, List.reverse_append,
      ← messages, seenAfter_append]
    change (dispatch _ (textArrival _)).2.keys = _
    rw [(dispatch_textArrival _ _).1, (mark_new hnew (by omega)).2, if_neg (by omega), hkeys]
    rfl

theorem callback_acts_once_sample :
    ¬((dispatch ∅ (textArrival "a")).1.isSome ∧
      (dispatch (dispatch ∅ (textArrival "a")).2 (textArrival "a")).1.isSome) := by
  have hsmall : ∀ n : ℕ, ∀ seen : Seen, seen.keys.length ≤ n → n < maxDedupEntries →
      ∀ order now msgid, EvictsOldest order now msgid seen := by
    intro n seen hseen hn order now msgid m _ hnew hfull
    have hlive := (length_live now seen).trans hseen
    rw [length_keys_insert, if_neg hnew] at hfull
    omega
  have hempty : (textArrival "a").EvictsOldest ∅ :=
    ⟨fun _ => hsmall 0 ∅ le_rfl (by decide) _ _ _, fun hcmd => absurd hcmd (by decide)⟩
  have hone : (textArrival "a").EvictsOldest (dispatch ∅ (textArrival "a")).2 := by
    refine ⟨fun _ => hsmall 1 _ ?_ (by decide) _ _ _, fun hcmd => absurd hcmd (by decide)⟩
    rw [(dispatch_textArrival _ _).1, (mark_new (List.not_mem_nil) (Nat.zero_le _)).2]
    decide
  exact (callback_acts_once [] (textArrival "a") [] (textArrival "a") "a").2
    ⟨hempty, hone, trivial⟩ (by decide) rfl rfl (by decide) (by decide)

/-- A new message that finds the map full, in which its own key is listed first. -/
theorem newest_is_evicted :
    ¬∀ before a between b x, (times (before ++ a :: between ++ [b])).Pairwise (· ≤ ·) →
      a.frame.msgid = some x → b.frame.msgid = some x →
      ((between.filterMap (·.frame.msgid)).toFinset.erase x).card ≤ maxDedupEntries - 1 →
      b.later - a.now < dedupWindow →
      ¬((dispatch (seenAfter ∅ before) a).1.isSome ∧
        (dispatch (seenAfter ∅ (before ++ a :: between)) b).1.isSome) := by
  intro h
  -- the number stays a variable, so that no list of its length is computed
  obtain ⟨n, hn⟩ : ∃ n, n = maxDedupEntries := ⟨_, rfl⟩
  have hkeys := keys_after_messages hn.le
  have hfull : (seenAfter ∅ (messages n)).keys.length = maxDedupEntries := by
    rw [hkeys, List.length_reverse, List.length_map, List.length_range, hn]
  have hnew : ∀ seen : Seen, seen.keys = (seenAfter ∅ (messages n)).keys → "a" ∉ seen := by
    intro seen hseen
    rw [AList.mem_keys, hseen, hkeys, List.mem_reverse, List.mem_map]
    rintro ⟨i, -, heq⟩
    have hhead := congrArg (fun s : String => s.toList.head?) heq
    simp [Supply.tally, Supply.tallyOf, List.replicate_succ] at hhead
  have hfirst := mark_new (hnew _ rfl) hfull.le
  rw [if_pos hfull] at hfirst
  have hsecond := mark_new (hnew _ hfirst.2) (by rw [hfirst.2]; exact hfull.le)
  refine h (messages n) (textArrival "a") [] (textArrival "a") "a" ?_ rfl rfl
    (by decide) (by decide) ⟨?_, ?_⟩
  · refine List.pairwise_of_forall_mem_list fun s hs t ht => ?_
    have hzero : ∀ t ∈ times (messages n ++ [textArrival "a"] ++ [textArrival "a"]),
        t = 0 := by
      intro t ht
      simp only [times, messages, List.mem_flatMap, List.mem_append, List.mem_map] at ht
      obtain ⟨b, ((⟨i, -, rfl⟩ | hb) | hb), ht⟩ := ht
      · simpa [textArrival] using ht
      · rw [List.mem_singleton.mp hb] at ht
        simpa [textArrival] using ht
      · rw [List.mem_singleton.mp hb] at ht
        simpa [textArrival] using ht
    rw [hzero s hs, hzero t ht]
  · rw [(dispatch_textArrival _ _).2]
    exact hfirst.1
  · rw [seenAfter_append]
    change (dispatch (dispatch _ (textArrival "a")).2 (textArrival "a")).1.isSome = true
    rw [(dispatch_textArrival _ _).2, (dispatch_textArrival _ _).1]
    exact hsecond.1

end AionCore.Channel.Wecom
