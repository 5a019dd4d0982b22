import AionCore.Conversation.StreamRelay

/-!
# aionrs agents: histories that are replayed

`sanitize_session_messages` of `history_sanitize.rs`, with which the history of a session is made
ready before it is sent to a provider again. Tool calls without a name go, with their results; then
the messages of the assistant whose calls were cut off.
-/

namespace AionCore.Agent.HistorySanitize

open AionCore.Conversation (trim)

/-- The role of a message; those that nothing here asks for go by their name. -/
inductive Role where
  | user
  | assistant
  | other (name : String)
  deriving DecidableEq

inductive ContentBlock where
  | text (text : String)
  | toolUse (id name : String)
  | toolResult (toolUseId : String)
  | thinking (thinking : String)
  | image (data : String)
  | providerItem (provider item : String)
  deriving DecidableEq

structure Message where
  role : Role
  content : List ContentBlock
  deriving DecidableEq

def isBlank (text : String) : Bool := trim text = ""

namespace ContentBlock

def malformedId : ContentBlock → Option String
  | .toolUse id name => if isBlank name then some id else none
  | _ => none

def answeredId : ContentBlock → Option String
  | .toolResult toolUseId => some toolUseId
  | _ => none

def wellFormed (malformed : List String) : ContentBlock → Bool
  | .toolUse _ name => !isBlank name
  | .toolResult toolUseId => toolUseId ∉ malformed
  | _ => true

def isToolUse : ContentBlock → Bool
  | .toolUse _ _ => true
  | _ => false

def isUnanswered (answered : List String) : ContentBlock → Bool
  | .toolUse id _ => id ∉ answered
  | _ => false

def isText : ContentBlock → Bool
  | .text t => !isBlank t
  | _ => false

/-- The id and the name of a tool call. -/
def call : ContentBlock → Option (String × String)
  | .toolUse id name => some (id, name)
  | _ => none

end ContentBlock

def malformedToolUseIds (messages : List Message) : List String :=
  (messages.flatMap Message.content).filterMap ContentBlock.malformedId

def answeredToolUseIds (messages : List Message) : List String :=
  (messages.flatMap Message.content).filterMap ContentBlock.answeredId

def Message.strip (m : Message) (malformed : List String) : Message :=
  { m with content := m.content.filter (·.wellFormed malformed) }

def stripMalformedToolCalls (messages : List Message) : List Message × ℕ :=
  let malformed := malformedToolUseIds messages
  if malformed.isEmpty then (messages, 0)
  else
    let stripped := messages.map (·.strip malformed)
    let kept := stripped.filter (!·.content.isEmpty)
    (kept, stripped.length - kept.length)

def isOrphanedAssistantToolCall (m : Message) (answered : List String) : Bool :=
  m.role = .assistant &&
    (m.content.any ContentBlock.isToolUse && m.content.any (·.isUnanswered answered) &&
      !m.content.any ContentBlock.isText)

def sanitizeSessionMessages (messages : List Message) : List Message × ℕ :=
  if messages.isEmpty then ([], 0)
  else
    let (stripped, removed) := stripMalformedToolCalls messages
    let answered := answeredToolUseIds stripped
    let kept := stripped.filter (!isOrphanedAssistantToolCall · answered)
    (kept, removed + (stripped.length - kept.length))

namespace Message

def Calls (m : Message) (id name : String) : Prop := .toolUse id name ∈ m.content

def Answers (m : Message) (id : String) : Prop := .toolResult id ∈ m.content

def HasText (m : Message) : Prop := ∃ text, .text text ∈ m.content ∧ isBlank text = false

end Message

def toolCalls (messages : List Message) : List (String × String) :=
  (messages.flatMap Message.content).filterMap ContentBlock.call

def Answered (messages : List Message) (id : String) : Prop := ∃ m ∈ messages, m.Answers id

def CalledBefore (before : List Message) (id : String) : Prop :=
  ∃ m ∈ before, m.role = .assistant ∧ ∃ name, m.Calls id name

/-- Every result follows its call. -/
def ResultsFollow (messages : List Message) : Prop :=
  ∀ before m after, messages = before ++ m :: after → ∀ id, m.Answers id → CalledBefore before id

/-- No two calls have one id, and every result follows its call. -/
structure WellFormed (messages : List Message) : Prop where
  unique : ((toolCalls messages).map Prod.fst).Nodup
  follow : ResultsFollow messages

def CallsNamed (messages : List Message) : Prop :=
  ∀ m ∈ messages, ∀ id name, m.Calls id name → isBlank name = false

def CallsAnswered (messages : List Message) : Prop :=
  ∀ m ∈ messages, m.role = .assistant → ¬m.HasText → ∀ id name, m.Calls id name →
    Answered messages id

structure Acceptable (messages : List Message) : Prop where
  follow : ResultsFollow messages
  named : CallsNamed messages
  answered : CallsAnswered messages

def CutOff (messages : List Message) (m : Message) : Prop :=
  m.role = .assistant ∧ ¬m.HasText ∧
    ∃ id name, m.Calls id name ∧ isBlank name = false ∧ ¬Answered messages id

variable {messages : List Message} {m : Message} {malformed answered : List String}
  {id name : String}

@[simp] theorem role_strip : (m.strip malformed).role = m.role := rfl

theorem mem_malformedToolUseIds :
    id ∈ malformedToolUseIds messages ↔ ∃ m ∈ messages, ∃ name, m.Calls id name ∧
      isBlank name = true := by
  unfold malformedToolUseIds Message.Calls
  simp only [List.mem_filterMap, List.mem_flatMap]
  constructor
  · rintro ⟨block, ⟨m, hm, hblock⟩, hid⟩
    cases block with
    | toolUse id' name =>
      rw [ContentBlock.malformedId] at hid
      split at hid
      · next hblank =>
        obtain rfl := Option.some.inj hid
        exact ⟨m, hm, name, hblock, hblank⟩
      · cases hid
    | _ => cases hid
  · rintro ⟨m, hm, name, hcall, hblank⟩
    exact ⟨_, ⟨m, hm, hcall⟩, if_pos hblank⟩

theorem mem_answeredToolUseIds : id ∈ answeredToolUseIds messages ↔ Answered messages id := by
  unfold answeredToolUseIds Answered Message.Answers
  simp only [List.mem_filterMap, List.mem_flatMap]
  constructor
  · rintro ⟨block, ⟨m, hm, hblock⟩, hid⟩
    cases block with
    | toolResult id' =>
      obtain rfl := Option.some.inj hid
      exact ⟨m, hm, hblock⟩
    | _ => cases hid
  · rintro ⟨m, hm, hanswer⟩
    exact ⟨_, ⟨m, hm, hanswer⟩, rfl⟩

theorem calls_strip :
    (m.strip malformed).Calls id name ↔ m.Calls id name ∧ isBlank name = false := by
  simp [Message.Calls, Message.strip, ContentBlock.wellFormed]

theorem answers_strip : (m.strip malformed).Answers id ↔ m.Answers id ∧ id ∉ malformed := by
  simp [Message.Answers, Message.strip, ContentBlock.wellFormed]

theorem hasText_strip : (m.strip malformed).HasText ↔ m.HasText := by
  simp [Message.HasText, Message.strip, ContentBlock.wellFormed]

theorem content_ne_nil_of_calls (h : m.Calls id name) : m.content.isEmpty = false := by
  rw [List.isEmpty_eq_false_iff_exists_mem]
  exact ⟨_, h⟩

theorem content_ne_nil_of_answers (h : m.Answers id) : m.content.isEmpty = false := by
  rw [List.isEmpty_eq_false_iff_exists_mem]
  exact ⟨_, h⟩

theorem isOrphaned_iff : isOrphanedAssistantToolCall m answered = true ↔
    m.role = .assistant ∧ ¬m.HasText ∧ ∃ id name, m.Calls id name ∧ id ∉ answered := by
  have htext : m.content.any ContentBlock.isText = true ↔ m.HasText := by
    rw [List.any_eq_true]
    constructor
    · rintro ⟨block, hblock, h⟩
      cases block with
      | text t => exact ⟨t, hblock, by simpa [ContentBlock.isText] using h⟩
      | _ => cases h
    · rintro ⟨t, ht, hblank⟩
      exact ⟨_, ht, by simp [ContentBlock.isText, hblank]⟩
  have hcut : m.content.any (·.isUnanswered answered) = true ↔
      ∃ id name, m.Calls id name ∧ id ∉ answered := by
    rw [List.any_eq_true]
    constructor
    · rintro ⟨block, hblock, h⟩
      cases block with
      | toolUse id name => exact ⟨id, name, hblock, of_decide_eq_true h⟩
      | _ => cases h
    · rintro ⟨id, name, hcall, h⟩
      exact ⟨_, hcall, decide_eq_true h⟩
  have huse : m.content.any (·.isUnanswered answered) = true →
      m.content.any ContentBlock.isToolUse = true := by
    rw [hcut, List.any_eq_true]
    rintro ⟨id, name, hcall, -⟩
    exact ⟨_, hcall, rfl⟩
  unfold isOrphanedAssistantToolCall
  rw [Bool.and_eq_true, Bool.and_eq_true, Bool.and_eq_true, decide_eq_true_iff,
    Bool.not_eq_true', ← Bool.not_eq_true, htext, and_iff_right_of_imp huse, hcut,
    and_comm (b := ¬_)]

/-- What becomes of a message: it is dropped if it is left empty by stripping malformed calls, or if
its calls were cut off. -/
def sanitizeMessage (messages : List Message) (m : Message) : Option Message :=
  let malformed := malformedToolUseIds messages
  let stripped := m.strip malformed
  if !malformed.isEmpty && stripped.content.isEmpty ||
      isOrphanedAssistantToolCall stripped
        (answeredToolUseIds (stripMalformedToolCalls messages).1) then none
  else some stripped

theorem strip_of_named (h : ∀ id name, m.Calls id name → isBlank name = false) :
    m.strip [] = m := by
  have hcontent : m.content.filter (·.wellFormed []) = m.content := by
    rw [List.filter_eq_self]
    intro block hblock
    cases block with
    | toolUse id name => simp [ContentBlock.wellFormed, h id name hblock]
    | toolResult id => simp [ContentBlock.wellFormed]
    | _ => rfl
  rw [Message.strip, hcontent]

theorem malformed_eq_nil_iff : malformedToolUseIds messages = [] ↔ CallsNamed messages := by
  rw [List.eq_nil_iff_forall_not_mem]
  constructor
  · intro h m hm id name hcall
    rw [← Bool.not_eq_true]
    exact fun hblank => h id (mem_malformedToolUseIds.mpr ⟨m, hm, name, hcall, hblank⟩)
  · intro h id hid
    obtain ⟨m, hm, name, hcall, hblank⟩ := mem_malformedToolUseIds.mp hid
    rw [h m hm id name hcall] at hblank
    cases hblank

/-- The messages after stripping are those that still have something. -/
theorem stripMalformedToolCalls_eq : (stripMalformedToolCalls messages).1 =
    (messages.map (·.strip (malformedToolUseIds messages))).filter fun m =>
      !(!(malformedToolUseIds messages).isEmpty && m.content.isEmpty) := by
  unfold stripMalformedToolCalls
  dsimp only
  split
  · next h =>
    have hnil : malformedToolUseIds messages = [] := List.isEmpty_iff.mp h
    have hnamed : CallsNamed messages := malformed_eq_nil_iff.mp hnil
    have hmap : messages.map (·.strip []) = messages := by
      conv_rhs => rw [← List.map_id messages]
      exact List.map_congr_left fun m hm => strip_of_named (hnamed m hm)
    simp [hnil, hmap]
  · next h => simp [h]

theorem ite_keep (dropped orphaned : Bool) (m : Message) :
    (if (!orphaned && !dropped) = true then some m else none) =
      if (dropped || orphaned) = true then none else some m := by
  cases dropped <;> cases orphaned <;> rfl

theorem sanitize_eq_filterMap :
    (sanitizeSessionMessages messages).1 = messages.filterMap (sanitizeMessage messages) := by
  unfold sanitizeSessionMessages
  split
  · next h =>
    rw [List.isEmpty_iff.mp h]
    rfl
  · unfold sanitizeMessage
    dsimp only
    generalize answeredToolUseIds (stripMalformedToolCalls messages).1 = answered
    rw [stripMalformedToolCalls_eq, List.filter_filter, List.filter_map, ← List.filterMap_eq_map,
      List.filterMap_filter]
    refine List.filterMap_congr fun m _ => ?_
    exact ite_keep _ _ _

theorem mem_toolCalls : (id, name) ∈ toolCalls messages ↔ ∃ m ∈ messages, m.Calls id name := by
  unfold toolCalls Message.Calls
  simp only [List.mem_filterMap, List.mem_flatMap]
  constructor
  · rintro ⟨block, ⟨m, hm, hblock⟩, hcall⟩
    cases block with
    | toolUse id' name' =>
      obtain ⟨rfl, rfl⟩ := Prod.mk.inj (Option.some.inj hcall)
      exact ⟨m, hm, hblock⟩
    | _ => cases hcall
  · rintro ⟨m, hm, hcall⟩
    exact ⟨_, ⟨m, hm, hcall⟩, rfl⟩

variable {m' : Message}

theorem WellFormed.name_eq (h : WellFormed messages) {name' : String} (hm : m ∈ messages)
    (hcall : m.Calls id name) (hm' : m' ∈ messages) (hcall' : m'.Calls id name') :
    name = name' :=
  congrArg Prod.snd (List.inj_on_of_nodup_map h.unique (mem_toolCalls.mpr ⟨m, hm, hcall⟩)
    (mem_toolCalls.mpr ⟨m', hm', hcall'⟩) rfl)

theorem WellFormed.notMem_malformed (h : WellFormed messages) (hm : m ∈ messages)
    (hcall : m.Calls id name) (hname : isBlank name = false) :
    id ∉ malformedToolUseIds messages := by
  intro hid
  obtain ⟨m', hm', name', hcall', hblank⟩ := mem_malformedToolUseIds.mp hid
  rw [h.name_eq hm hcall hm' hcall', hblank] at hname
  cases hname

theorem answered_strip : Answered (stripMalformedToolCalls messages).1 id ↔
    Answered messages id ∧ id ∉ malformedToolUseIds messages := by
  unfold Answered
  rw [stripMalformedToolCalls_eq]
  simp only [List.mem_filter, List.mem_map]
  constructor
  · rintro ⟨m', ⟨⟨m, hm, rfl⟩, -⟩, hanswer⟩
    rw [answers_strip] at hanswer
    exact ⟨⟨m, hm, hanswer.1⟩, hanswer.2⟩
  · rintro ⟨⟨m, hm, hanswer⟩, hid⟩
    have hstrip := answers_strip.mpr ⟨hanswer, hid⟩
    exact ⟨_, ⟨⟨m, hm, rfl⟩, by simp [content_ne_nil_of_answers hstrip]⟩, hstrip⟩

theorem WellFormed.orphaned_iff (h : WellFormed messages) (hm : m ∈ messages) :
    isOrphanedAssistantToolCall (m.strip (malformedToolUseIds messages))
      (answeredToolUseIds (stripMalformedToolCalls messages).1) = true ↔ CutOff messages m := by
  rw [isOrphaned_iff, role_strip, hasText_strip]
  refine and_congr_right fun _ => and_congr_right fun _ => exists_congr fun id =>
    exists_congr fun name => ?_
  rw [calls_strip, mem_answeredToolUseIds, answered_strip, and_assoc]
  refine and_congr_right fun hcall => and_congr_right fun hname => not_congr ?_
  exact and_iff_left (h.notMem_malformed hm hcall hname)

/-- What is left of a message is the message without malformed calls and results. -/
theorem WellFormed.sanitize_some (h : WellFormed messages) (hm : m ∈ messages)
    (hsome : sanitizeMessage messages m = some m') :
    m' = m.strip (malformedToolUseIds messages) ∧ ¬CutOff messages m := by
  unfold sanitizeMessage at hsome
  dsimp only at hsome
  split at hsome
  · cases hsome
  · next hkept =>
    rw [Bool.or_eq_true, not_or, h.orphaned_iff hm] at hkept
    exact ⟨(Option.some.inj hsome).symm, hkept.2⟩

theorem WellFormed.sanitize_of_not_cutOff (h : WellFormed messages) (hm : m ∈ messages)
    (hcut : ¬CutOff messages m)
    (hcontent : (m.strip (malformedToolUseIds messages)).content.isEmpty = false) :
    sanitizeMessage messages m = some (m.strip (malformedToolUseIds messages)) := by
  unfold sanitizeMessage
  refine if_neg ?_
  rw [hcontent, Bool.and_false, Bool.false_or, h.orphaned_iff hm]
  exact hcut

theorem callsNamed_sanitize : CallsNamed (sanitizeSessionMessages messages).1 := by
  rw [sanitize_eq_filterMap]
  intro m' hm' id name hcall
  obtain ⟨m, -, hsome⟩ := List.mem_filterMap.mp hm'
  unfold sanitizeMessage at hsome
  dsimp only at hsome
  split at hsome
  · cases hsome
  · obtain rfl := Option.some.inj hsome
    exact (calls_strip.mp hcall).2

theorem sanitize_sublist : (sanitizeSessionMessages messages).1.Sublist
    (messages.map (·.strip (malformedToolUseIds messages))) := by
  unfold sanitizeSessionMessages
  split
  · exact List.nil_sublist _
  · dsimp only
    rw [stripMalformedToolCalls_eq]
    exact List.filter_sublist.trans List.filter_sublist

/-- The call of a result is left before it, if the message of the call was not cut off. -/
theorem WellFormed.follow_sanitize (h : WellFormed messages) {before after : List Message}
    (hsplit : (sanitizeSessionMessages messages).1 = before ++ m' :: after)
    (hanswer : m'.Answers id) :
    CalledBefore before id ∨ ∃ c ∈ messages, CutOff messages c ∧ ∃ name, c.Calls id name := by
  rw [sanitize_eq_filterMap] at hsplit
  obtain ⟨earlier, rest, rfl, rfl, hrest⟩ := List.filterMap_eq_append_iff.mp hsplit
  obtain ⟨skipped, m, later, rfl, hskipped, hsome, -⟩ := List.filterMap_eq_cons_iff.mp hrest
  obtain ⟨rfl, -⟩ := h.sanitize_some (by simp) hsome
  rw [answers_strip] at hanswer
  obtain ⟨c, hc, hrole, name, hcall⟩ := h.follow (earlier ++ skipped) m later (by simp) id hanswer.1
  have hmem : c ∈ earlier ++ (skipped ++ m :: later) := by
    rcases List.mem_append.mp hc with hc | hc <;> simp [hc]
  by_cases hcut : CutOff (earlier ++ (skipped ++ m :: later)) c
  · exact .inr ⟨c, hmem, hcut, name, hcall⟩
  · have hname : isBlank name = false := by
      rw [← Bool.not_eq_true]
      exact fun hblank => hanswer.2 (mem_malformedToolUseIds.mpr ⟨c, hmem, name, hcall, hblank⟩)
    have hleft := h.sanitize_of_not_cutOff hmem hcut
      (content_ne_nil_of_calls (calls_strip.mpr ⟨hcall, hname⟩))
    rcases List.mem_append.mp hc with hc | hc
    · exact .inl ⟨_, List.mem_filterMap.mpr ⟨c, hc, hleft⟩, hrole, name,
        calls_strip.mpr ⟨hcall, hname⟩⟩
    · rw [hskipped c hc] at hleft
      cases hleft

/-- A call is still answered, if no message that was cut off had the answer. -/
theorem WellFormed.answered_sanitize (h : WellFormed messages)
    (hm' : m' ∈ (sanitizeSessionMessages messages).1) (hrole : m'.role = .assistant)
    (htext : ¬m'.HasText) (hcall : m'.Calls id name) :
    Answered (sanitizeSessionMessages messages).1 id ∨
      ∃ c ∈ messages, CutOff messages c ∧ c.Answers id := by
  rw [sanitize_eq_filterMap] at hm' ⊢
  obtain ⟨m, hm, hsome⟩ := List.mem_filterMap.mp hm'
  obtain ⟨rfl, hcut⟩ := h.sanitize_some hm hsome
  rw [hasText_strip] at htext
  rw [calls_strip] at hcall
  have hanswered : Answered messages id := by
    by_contra hnot
    exact hcut ⟨hrole, htext, id, name, hcall.1, hcall.2, hnot⟩
  obtain ⟨c, hc, hanswer⟩ := hanswered
  by_cases hcut' : CutOff messages c
  · exact .inr ⟨c, hc, hcut', hanswer⟩
  · have hstrip := answers_strip.mpr ⟨hanswer, h.notMem_malformed hm hcall.1 hcall.2⟩
    have hleft := h.sanitize_of_not_cutOff hc hcut' (content_ne_nil_of_answers hstrip)
    exact .inl ⟨_, List.mem_filterMap.mpr ⟨c, hc, hleft⟩, hstrip⟩

/-- Where every call has a name and is answered there is nothing to do. -/
theorem sanitize_eq_self (hnamed : CallsNamed messages) (hanswered : CallsAnswered messages) :
    sanitizeSessionMessages messages = (messages, 0) := by
  have hstrip : stripMalformedToolCalls messages = (messages, 0) := by
    simp [stripMalformedToolCalls, malformed_eq_nil_iff.mpr hnamed]
  have hkept : messages.filter (!isOrphanedAssistantToolCall · (answeredToolUseIds messages)) =
      messages := by
    rw [List.filter_eq_self]
    intro m hm
    rw [Bool.not_eq_true', ← Bool.not_eq_true, isOrphaned_iff]
    rintro ⟨hrole, htext, id, name, hcall, hid⟩
    exact hid (mem_answeredToolUseIds.mpr (hanswered m hm hrole htext id name hcall))
  unfold sanitizeSessionMessages
  split
  · next hempty => rw [List.isEmpty_iff.mp hempty]
  · rw [hstrip]
    dsimp only
    rw [hkept, Nat.sub_self]

/-- What sanitizing makes of a history. -/
structure Sanitized (messages : List Message) : Prop where
  follow : ∀ before m after, (sanitizeSessionMessages messages).1 = before ++ m :: after →
    ∀ id, m.Answers id → CalledBefore before id ∨
      ∃ c ∈ messages, CutOff messages c ∧ ∃ name, c.Calls id name
  named : CallsNamed (sanitizeSessionMessages messages).1
  answered : ∀ m ∈ (sanitizeSessionMessages messages).1, m.role = .assistant → ¬m.HasText →
    ∀ id name, m.Calls id name → Answered (sanitizeSessionMessages messages).1 id ∨
      ∃ c ∈ messages, CutOff messages c ∧ c.Answers id
  order : (sanitizeSessionMessages messages).1.Sublist
    (messages.map (·.strip (malformedToolUseIds messages)))
  unchanged : Acceptable messages → sanitizeSessionMessages messages = (messages, 0)
  again : (∀ c ∈ messages, CutOff messages c → ∀ id, ¬c.Answers id) →
    sanitizeSessionMessages (sanitizeSessionMessages messages).1 =
      ((sanitizeSessionMessages messages).1, 0)

/-- Sanitizing leaves every result its call and every call its answer, but for what it drops with a
message that was cut off. -/
theorem sanitized_of_wellFormed (messages : List Message) (h : WellFormed messages) :
    Sanitized messages where
  follow := fun _ _ _ hsplit _ hanswer => h.follow_sanitize hsplit hanswer
  named := callsNamed_sanitize
  answered := fun _ hm hrole htext _ _ hcall => h.answered_sanitize hm hrole htext hcall
  order := sanitize_sublist
  unchanged := fun hacceptable => sanitize_eq_self hacceptable.named hacceptable.answered
  again := fun hnone => sanitize_eq_self callsNamed_sanitize fun m hm hrole htext id name hcall => by
    rcases h.answered_sanitize hm hrole htext hcall with hanswered | ⟨c, hc, hcut, hanswer⟩
    · exact hanswered
    · exact absurd hanswer (hnone c hc hcut id)

/-- Two calls at once, stopped when the first was answered. -/
def stoppedHistory : List Message :=
  [⟨.assistant, [.toolUse "a" "search", .toolUse "b" "search"]⟩, ⟨.user, [.toolResult "a"]⟩]

/-- A call that is answered by the assistant itself, in a message that was cut off. -/
def selfAnsweredHistory : List Message :=
  [⟨.assistant, [.toolUse "a" "search"]⟩, ⟨.assistant, [.toolResult "a", .toolUse "b" "search"]⟩]

theorem wellFormed_stopped : WellFormed stoppedHistory where
  unique := by decide
  follow := fun before m after hsplit id hanswer => by
    rcases before with _ | ⟨x, _ | ⟨y, before⟩⟩
    · obtain rfl : _ = m := (List.cons.inj hsplit).1
      simp [Message.Answers] at hanswer
    · obtain ⟨rfl, hrest⟩ := List.cons.inj hsplit
      obtain rfl : _ = m := (List.cons.inj hrest).1
      obtain rfl : id = "a" := by simpa [Message.Answers] using hanswer
      exact ⟨_, List.mem_singleton_self _, rfl, "search", by simp [Message.Calls]⟩
    · simp [stoppedHistory] at hsplit

theorem wellFormed_selfAnswered : WellFormed selfAnsweredHistory where
  unique := by decide
  follow := fun before m after hsplit id hanswer => by
    rcases before with _ | ⟨x, _ | ⟨y, before⟩⟩
    · obtain rfl : _ = m := (List.cons.inj hsplit).1
      simp [Message.Answers] at hanswer
    · obtain ⟨rfl, hrest⟩ := List.cons.inj hsplit
      obtain rfl : _ = m := (List.cons.inj hrest).1
      obtain rfl : id = "a" := by simpa [Message.Answers] using hanswer
      exact ⟨_, List.mem_singleton_self _, rfl, "search", by simp [Message.Calls]⟩
    · simp [selfAnsweredHistory] at hsplit

theorem sanitized_stopped : Sanitized stoppedHistory :=
  sanitized_of_wellFormed stoppedHistory wellFormed_stopped

/-- The result of the first call stays without it; and with an answer of the assistant's own that is
dropped, a second run drops the call too. -/
theorem result_left_without_call :
    (WellFormed stoppedHistory ∧ ¬ResultsFollow (sanitizeSessionMessages stoppedHistory).1) ∧
    WellFormed selfAnsweredHistory ∧
      (sanitizeSessionMessages (sanitizeSessionMessages selfAnsweredHistory).1).2 = 1 := by
  refine ⟨⟨wellFormed_stopped, fun h => ?_⟩, wellFormed_selfAnswered, by decide +kernel⟩
  have hleft : (sanitizeSessionMessages stoppedHistory).1 = [] ++ ⟨.user, [.toolResult "a"]⟩ :: [] := by
    decide +kernel
  obtain ⟨m, hm, -⟩ := h _ _ _ hleft "a" (List.mem_singleton_self _)
  cases hm

end AionCore.Agent.HistorySanitize
