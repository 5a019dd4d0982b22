import AionCore.Lib.MergePatch
import Mathlib.Data.Fintype.Basic

/-!
# Conversations: compact messages

`row_to_message_response` and `row_to_message_response_compact` of `convert.rs`, with which
`list_messages` shortens the texts of large tool messages, and the mark by which it tells that it
has. The members of an object are sorted by their keys, so that their order says nothing.
-/

namespace AionCore.Conversation.Compact

def TOOL_CONTENT_COMPACT_THRESHOLD_BYTES : ℕ := 64 * 1024

def TOOL_CONTENT_PREVIEW_CHARS : ℕ := 4096

def anyString (p : String → Bool) : JsonValue → Bool
  | .string s => p s
  | .array length item => (List.finRange length).any fun i => anyString p (item i)
  | .object keys value => (keys.attach.filter fun k => anyString p (value k) = true).card ≠ 0
  | _ => false

def preview (maxChars : ℕ) (text : String) : String :=
  String.ofList (text.toList.take maxChars) ++ "\n...[truncated]"

/-- The value that `truncate_large_strings` makes. -/
def truncateLargeStrings (maxChars : ℕ) : JsonValue → JsonValue
  | .string text => .string (if maxChars < text.length then preview maxChars text else text)
  | .array length item => .array length fun i => truncateLargeStrings maxChars (item i)
  | .object keys value => .object keys fun k => truncateLargeStrings maxChars (value k)
  | value => value

/-- Whether `truncate_large_strings` sets `truncated`. -/
def hasLarge (maxChars : ℕ) (v : JsonValue) : Bool := anyString (fun s => maxChars < s.length) v

def hasCut (maxChars : ℕ) (v : JsonValue) : Bool :=
  anyString (fun s => maxChars < s.length && preview maxChars s ≠ s) v

/-- The short strings of a value stay as they are, the long ones keep their first characters, and
no key and no element disappears. -/
def Keeps (maxChars : ℕ) : JsonValue → JsonValue → Prop
  | .string s, t => ∃ s', t = .string s' ∧ (s.length ≤ maxChars → s' = s) ∧
      (maxChars < s.length → s.toList.take maxChars <+: s'.toList)
  | .array length item, t =>
    ∃ item', t = .array length item' ∧ ∀ i, Keeps maxChars (item i) (item' i)
  | .object keys value, t => t.isObject = true ∧
      ∀ k : { k // k ∈ keys }, ∃ v', t.get k = some v' ∧ Keeps maxChars (value k) v'
  | v, t => t = v

variable {maxChars : ℕ} {p : String → Bool} {v w t : JsonValue}

theorem anyString_array {n : ℕ} {item : Fin n → JsonValue} :
    anyString p (.array n item) = true ↔ ∃ i, anyString p (item i) = true := by
  simp [anyString, List.any_eq_true]

theorem anyString_object {keys : Finset String} {value : { k // k ∈ keys } → JsonValue} :
    anyString p (.object keys value) = true ↔ ∃ k, anyString p (value k) = true := by
  simp only [anyString, ne_eq, Finset.card_eq_zero, decide_not, Bool.not_eq_true',
    decide_eq_false_iff_not]
  constructor
  · intro h
    obtain ⟨k, hk⟩ := Finset.nonempty_iff_ne_empty.mpr h
    exact ⟨k, (Finset.mem_filter.mp hk).2⟩
  · rintro ⟨k, hk⟩
    exact Finset.nonempty_iff_ne_empty.mp
      ⟨k, Finset.mem_filter.mpr ⟨Finset.mem_attach _ k, hk⟩⟩

theorem length_preview_take (text : String) :
    text.toList.take maxChars <+: (preview maxChars text).toList := by
  simp [preview]

theorem get_object (keys : Finset String) (value : { k // k ∈ keys } → JsonValue)
    (k : { k // k ∈ keys }) : (JsonValue.object keys value).get k = some (value k) :=
  dif_pos k.2

theorem keeps_refl (v : JsonValue) : Keeps maxChars v v := by
  induction v with
  | string s => exact ⟨s, rfl, fun _ => rfl, fun _ => List.take_prefix _ _⟩
  | array n item ih => exact ⟨item, rfl, ih⟩
  | object keys value ih => exact ⟨rfl, fun k => ⟨value k, get_object keys value k, ih k⟩⟩
  | _ => rfl

theorem keeps_truncate (v : JsonValue) : Keeps maxChars v (truncateLargeStrings maxChars v) := by
  induction v with
  | string s =>
    refine ⟨_, rfl, fun hle => if_neg (Nat.not_lt.mpr hle), fun hlt => ?_⟩
    rw [if_pos hlt]
    exact length_preview_take s
  | array n item ih => exact ⟨_, rfl, ih⟩
  | object keys value ih => exact ⟨rfl, fun k => ⟨_, get_object keys _ k, ih k⟩⟩
  | _ => rfl

/-- A value stays as it is if each long text is its own preview. -/
theorem truncate_eq_iff (v : JsonValue) :
    truncateLargeStrings maxChars v = v ↔ hasCut maxChars v = false := by
  rw [← Bool.not_eq_true]
  induction v with
  | string s =>
    simp only [truncateLargeStrings, JsonValue.string.injEq, hasCut, anyString]
    by_cases h : maxChars < s.length
    · simp [h]
    · simp [h]
  | array n item ih =>
    rw [hasCut, anyString_array, not_exists]
    constructor
    · intro h i
      have hitem : (fun i => truncateLargeStrings maxChars (item i)) = item :=
        eq_of_heq (JsonValue.array.inj h).2
      exact (ih i).mp (congrFun hitem i)
    · intro h
      have hitem : (fun i => truncateLargeStrings maxChars (item i)) = item :=
        funext fun i => (ih i).mpr (h i)
      rw [truncateLargeStrings, hitem]
  | object keys value ih =>
    rw [hasCut, anyString_object, not_exists]
    constructor
    · intro h k
      have hvalue : (fun k => truncateLargeStrings maxChars (value k)) = value :=
        eq_of_heq (JsonValue.object.inj h).2
      exact (ih k).mp (congrFun hvalue k)
    · intro h
      have hvalue : (fun k => truncateLargeStrings maxChars (value k)) = value :=
        funext fun k => (ih k).mpr (h k)
      rw [truncateLargeStrings, hvalue]
  | _ => simp [truncateLargeStrings, hasCut, anyString]

theorem isObject_truncate (v : JsonValue) :
    (truncateLargeStrings maxChars v).isObject = v.isObject := by
  cases v <;> rfl

/-- What keeps an object is an object that keeps each of its members. -/
theorem keeps_object (h : v.isObject = true) : Keeps maxChars v t ↔ t.isObject = true ∧
    ∀ k w, v.get k = some w → ∃ w', t.get k = some w' ∧ Keeps maxChars w w' := by
  cases v with
  | object keys value =>
    refine and_congr_right fun _ => ⟨fun hkeeps k w hw => ?_, fun hkeeps k => ?_⟩
    · have hk : k ∈ keys := JsonValue.get_isSome.mp (Option.isSome_iff_exists.mpr ⟨w, hw⟩)
      obtain rfl := Option.some.inj (hw.symm.trans (get_object keys value ⟨k, hk⟩))
      exact hkeeps ⟨k, hk⟩
    · exact hkeeps k (value k) (get_object keys value k)
  | _ => cases h

inductive MessageType where
  | text
  | tips
  | toolCall
  | toolGroup
  | agentStatus
  | permission
  | acpToolCall
  | plan
  | thinking
  | availableCommands
  | skillSuggest
  | cronTrigger
  deriving DecidableEq

def MessageType.parse : String → Option MessageType
  | "text" => some .text
  | "tips" => some .tips
  | "tool_call" => some .toolCall
  | "tool_group" => some .toolGroup
  | "agent_status" => some .agentStatus
  | "permission" => some .permission
  | "acp_tool_call" => some .acpToolCall
  | "plan" => some .plan
  | "thinking" => some .thinking
  | "available_commands" => some .availableCommands
  | "skill_suggest" => some .skillSuggest
  | "cron_trigger" => some .cronTrigger
  | _ => none

inductive MessagePosition where
  | right
  | left
  | center
  | pop

def MessagePosition.parse : String → Option MessagePosition
  | "right" => some .right
  | "left" => some .left
  | "center" => some .center
  | "pop" => some .pop
  | _ => none

inductive MessageStatus where
  | finish
  | pending
  | error
  | work

def MessageStatus.parse : String → Option MessageStatus
  | "finish" => some .finish
  | "pending" => some .pending
  | "error" => some .error
  | "work" => some .work
  | _ => none

/-- Why a row has no response. -/
inductive ConversationError where
  | invalidEnum (value : String)
  | invalidContent

/-- A content as it is stored: its length in bytes, and its value if it is JSON. -/
structure StoredContent where
  len : ℕ
  value : Option JsonValue

structure MessageRow where
  id : String
  conversationId : String
  msgId : Option String
  type : String
  content : StoredContent
  position : Option String
  status : Option String
  hidden : Bool
  createdAt : ℤ

structure MessageResponse where
  id : String
  conversationId : String
  msgId : Option String
  type : MessageType
  content : JsonValue
  position : Option MessagePosition
  status : Option MessageStatus
  hidden : Bool
  createdAt : ℤ

def stringToEnum {α : Type} (parse : String → Option α) (s : String) : Except ConversationError α :=
  match parse s with
  | some a => .ok a
  | none => .error (.invalidEnum s)

/-- `as_deref().map(string_to_enum).transpose()` -/
def optionToEnum {α : Type} (parse : String → Option α) :
    Option String → Except ConversationError (Option α)
  | none => .ok none
  | some s => (stringToEnum parse s).map some

def rowToMessageResponse (row : MessageRow) : Except ConversationError MessageResponse := do
  let type ← stringToEnum MessageType.parse row.type
  let position ← optionToEnum MessagePosition.parse row.position
  let status ← optionToEnum MessageStatus.parse row.status
  let content ← match row.content.value with
    | some content => .ok content
    | none => .error .invalidContent
  return {
    id := row.id, conversationId := row.conversationId, msgId := row.msgId, type, content, position
    status, hidden := row.hidden, createdAt := row.createdAt }

def isToolMessage (type : MessageType) : Bool :=
  type = .toolCall || type = .toolGroup || type = .acpToolCall

/-- What stands under `_compact`. -/
def compactMark (originalSize : ℕ) : JsonValue :=
  .record [("truncated", some (.bool true)),
    ("original_size", some (.number (toString originalSize))),
    ("preview_chars", some (.number (toString TOOL_CONTENT_PREVIEW_CHARS)))]

def compactContent (originalSize : ℕ) (content : JsonValue) : JsonValue :=
  let cut := truncateLargeStrings TOOL_CONTENT_PREVIEW_CHARS content
  if hasLarge TOOL_CONTENT_PREVIEW_CHARS content = true ∧ cut.isObject = true then
    cut.set "_compact" (compactMark originalSize)
  else cut

def rowToMessageResponseCompact (row : MessageRow) : Except ConversationError MessageResponse :=
  let originalSize := row.content.len
  match rowToMessageResponse row with
  | .error e => .error e
  | .ok response =>
    if !isToolMessage response.type || originalSize ≤ TOOL_CONTENT_COMPACT_THRESHOLD_BYTES then
      .ok response
    else .ok { response with content := compactContent originalSize response.content }

/-- The mark by which `list_messages` counts a content. -/
def countsAsCompacted (content : JsonValue) : Bool :=
  match (content.get "_compact").bind fun compact => compact.get "truncated" with
  | some (.bool b) => b
  | _ => false

/-- Compaction is never silent: a row that has a response has a compact one, which shows the content
as it is or tells that it was truncated, and keeps what it must. -/
def NeverSilent (row : MessageRow) : Prop :=
  ∀ r, rowToMessageResponse row = .ok r → ∃ r', rowToMessageResponseCompact row = .ok r' ∧
    (r'.content = r.content ∨ countsAsCompacted r'.content = true) ∧
      Keeps TOOL_CONTENT_PREVIEW_CHARS r.content r'.content

/-- A content on which the mark has its place, if a text is long: an object without a `_compact` of
its own, or with parts of the very mark. What is no object must not lose anything. -/
def Markable (originalSize : ℕ) (content : JsonValue) : Prop :=
  hasLarge TOOL_CONTENT_PREVIEW_CHARS content = true →
    if content.isObject = true then
      ∀ w, content.get "_compact" = some w → w.isObject = true ∧
        ∀ k u, w.get k = some u → (compactMark originalSize).get k = some u
    else hasCut TOOL_CONTENT_PREVIEW_CHARS content = false

section Marks

variable {originalSize : ℕ} {k : String} {content : JsonValue} {row : MessageRow}
  {r : MessageResponse}

theorem get_truncate (v : JsonValue) (k : String) :
    (truncateLargeStrings maxChars v).get k = (v.get k).map (truncateLargeStrings maxChars) := by
  cases v with
  | object keys value =>
    by_cases hk : k ∈ keys
    · rw [get_object keys value ⟨k, hk⟩]
      exact get_object keys _ ⟨k, hk⟩
    · have hnone : (JsonValue.object keys value).get k = none := dif_neg hk
      rw [hnone]
      exact dif_neg hk
  | _ => rfl

theorem hasLarge_of_hasCut (h : hasCut maxChars v = true) : hasLarge maxChars v = true := by
  induction v with
  | string s =>
    rw [hasCut, anyString, Bool.and_eq_true] at h
    exact h.1
  | array n item ih =>
    obtain ⟨i, hi⟩ := anyString_array.mp h
    exact anyString_array.mpr ⟨i, ih i hi⟩
  | object keys value ih =>
    obtain ⟨k, hk⟩ := anyString_object.mp h
    exact anyString_object.mpr ⟨k, ih k hk⟩
  | _ => cases h

/-- The mark has a flag and two numbers. -/
theorem get_compactMark (h : (compactMark originalSize).get k = some w) :
    (∃ b, w = .bool b) ∨ ∃ n, w = .number n := by
  rw [compactMark, JsonValue.get_record] at h
  simp only [List.lookup_cons, List.lookup_nil] at h
  split at h
  · exact .inl ⟨_, (Option.some.inj h).symm⟩
  · split at h
    · exact .inr ⟨_, (Option.some.inj h).symm⟩
    · split at h
      · exact .inr ⟨_, (Option.some.inj h).symm⟩
      · cases h

theorem keeps_leaf (ht : (∃ b, t = .bool b) ∨ ∃ n, t = .number n) : Keeps maxChars v t ↔ v = t := by
  rcases ht with ⟨b, rfl⟩ | ⟨n, rfl⟩
  · cases v <;> simp [Keeps, JsonValue.isObject, eq_comm]
  · cases v <;> simp [Keeps, JsonValue.isObject, eq_comm]

theorem keeps_compactMark : Keeps maxChars w (compactMark originalSize) ↔ w.isObject = true ∧
    ∀ k u, w.get k = some u → (compactMark originalSize).get k = some u := by
  by_cases hobject : w.isObject = true
  · rw [keeps_object hobject]
    refine and_congr (iff_of_true rfl hobject) (forall_congr' fun k => forall_congr' fun u =>
      forall_congr' fun _ => ?_)
    constructor
    · rintro ⟨u', hget, hkeeps⟩
      rw [(keeps_leaf (get_compactMark hget)).mp hkeeps]
      exact hget
    · exact fun hget => ⟨u, hget, keeps_refl u⟩
  · refine iff_of_false (fun hkeeps => ?_) fun h => hobject h.1
    cases w with
    | object keys value => exact hobject rfl
    | string s =>
      obtain ⟨s', hs, -⟩ := hkeeps
      cases hs
    | array n item =>
      obtain ⟨item', hitem, -⟩ := hkeeps
      cases hitem
    | _ => cases hkeeps

theorem countsAsCompacted_mark (h : v.isObject = true) :
    countsAsCompacted (v.set "_compact" (compactMark originalSize)) = true := by
  have hmark : (compactMark originalSize).get "truncated" = some (.bool true) := by
    rw [compactMark, JsonValue.get_record]
    rfl
  rw [countsAsCompacted, JsonValue.get_set h, if_pos rfl, Option.bind_some, hmark]

theorem not_countsAsCompacted (h : v.isObject = false) : countsAsCompacted v = false := by
  cases v with
  | object keys value => cases h
  | _ => rfl

def Told (originalSize : ℕ) (content : JsonValue) : Prop :=
  (compactContent originalSize content = content ∨
    countsAsCompacted (compactContent originalSize content) = true) ∧
    Keeps TOOL_CONTENT_PREVIEW_CHARS content (compactContent originalSize content)

theorem told_of_small (h : hasLarge TOOL_CONTENT_PREVIEW_CHARS content = false) :
    Told originalSize content := by
  have hcut : hasCut TOOL_CONTENT_PREVIEW_CHARS content = false := by
    by_contra hcut
    rw [hasLarge_of_hasCut (by simpa using hcut)] at h
    cases h
  have hsame : compactContent originalSize content = content := by
    simp [compactContent, h, (truncate_eq_iff content).mpr hcut]
  exact ⟨.inl hsame, hsame.symm ▸ keeps_refl content⟩

/-- On an object the mark has the place of what stood under `_compact`. -/
theorem told_object_iff (h : hasLarge TOOL_CONTENT_PREVIEW_CHARS content = true)
    (hobject : content.isObject = true) :
    Told originalSize content ↔ ∀ w, content.get "_compact" = some w → w.isObject = true ∧
      ∀ k u, w.get k = some u → (compactMark originalSize).get k = some u := by
  have hcut : (truncateLargeStrings TOOL_CONTENT_PREVIEW_CHARS content).isObject = true := by
    rw [isObject_truncate, hobject]
  have hcompact : compactContent originalSize content =
      (truncateLargeStrings TOOL_CONTENT_PREVIEW_CHARS content).set "_compact"
        (compactMark originalSize) := by
    simp only [compactContent, h, hcut, and_self, if_true]
  rw [Told, hcompact, countsAsCompacted_mark hcut, keeps_object hobject]
  simp only [or_true, true_and, JsonValue.isObject_set hcut, JsonValue.get_set hcut, get_truncate]
  constructor
  · intro hkept w hw
    obtain ⟨w', hw', hkeeps⟩ := hkept "_compact" w hw
    rw [if_pos rfl] at hw'
    obtain rfl := Option.some.inj hw'
    exact keeps_compactMark.mp hkeeps
  · intro hmark k w hw
    by_cases hk : k = "_compact"
    · subst hk
      exact ⟨_, if_pos rfl, keeps_compactMark.mpr (hmark w hw)⟩
    · exact ⟨_, by rw [if_neg hk, hw]; rfl, keeps_truncate w⟩

theorem told_bare_iff (h : content.isObject = false) :
    Told originalSize content ↔ hasCut TOOL_CONTENT_PREVIEW_CHARS content = false := by
  have hcut : (truncateLargeStrings TOOL_CONTENT_PREVIEW_CHARS content).isObject = false := by
    rw [isObject_truncate, h]
  have hcompact : compactContent originalSize content =
      truncateLargeStrings TOOL_CONTENT_PREVIEW_CHARS content := by
    simp [compactContent, hcut]
  rw [Told, hcompact, not_countsAsCompacted hcut, truncate_eq_iff]
  simp [keeps_truncate]

theorem told_iff : Told originalSize content ↔ Markable originalSize content := by
  unfold Markable
  cases hlarge : hasLarge TOOL_CONTENT_PREVIEW_CHARS content with
  | false => simp [told_of_small hlarge]
  | true =>
    cases hobject : content.isObject with
    | true => simpa using told_object_iff hlarge hobject
    | false => simpa using told_bare_iff hobject

section

variable (h : rowToMessageResponse row = .ok r)
include h

theorem compact_of_large (htool : isToolMessage r.type = true)
    (hlen : TOOL_CONTENT_COMPACT_THRESHOLD_BYTES < row.content.len) :
    rowToMessageResponseCompact row =
      .ok { r with content := compactContent row.content.len r.content } := by
  simp [rowToMessageResponseCompact, h, htool, hlen]

theorem compact_of_small
    (hsmall : ¬(isToolMessage r.type = true ∧
      TOOL_CONTENT_COMPACT_THRESHOLD_BYTES < row.content.len)) :
    rowToMessageResponseCompact row = .ok r := by
  have hkept : (!isToolMessage r.type ||
      decide (row.content.len ≤ TOOL_CONTENT_COMPACT_THRESHOLD_BYTES)) = true := by
    rw [Bool.or_eq_true, Bool.not_eq_true', decide_eq_true_iff]
    rcases not_and_or.mp hsmall with htool | hlen
    · exact .inl (by simpa using htool)
    · exact .inr (Nat.le_of_not_lt hlen)
  simp [rowToMessageResponseCompact, h, hkept]

/-- What is asked of a row whose content is compacted. -/
theorem never_silent_large (htool : isToolMessage r.type = true)
    (hlen : TOOL_CONTENT_COMPACT_THRESHOLD_BYTES < row.content.len) :
    NeverSilent row ↔ Told row.content.len r.content := by
  have hcompact := compact_of_large h htool hlen
  constructor
  · intro hsilent
    obtain ⟨r', hr', htold⟩ := hsilent r h
    obtain rfl := Except.ok.inj (hcompact.symm.trans hr')
    exact htold
  · rintro htold r₀ h₀
    obtain rfl := Except.ok.inj (h.symm.trans h₀)
    exact ⟨_, hcompact, htold⟩

end

/-- Compaction is never silent exactly on the rows whose content it leaves alone or can mark. -/
theorem never_silent_iff (row : MessageRow) :
    NeverSilent row ↔ ∀ r, rowToMessageResponse row = .ok r → isToolMessage r.type = true →
      TOOL_CONTENT_COMPACT_THRESHOLD_BYTES < row.content.len →
        Markable row.content.len r.content := by
  constructor
  · intro hsilent r h htool hlen
    exact told_iff.mp ((never_silent_large h htool hlen).mp hsilent)
  · intro hmark r h
    by_cases hlarge : isToolMessage r.type = true ∧
        TOOL_CONTENT_COMPACT_THRESHOLD_BYTES < row.content.len
    · have htold := told_iff.mpr (hmark r h hlarge.1 hlarge.2)
      exact (never_silent_large h hlarge.1 hlarge.2).mpr htold r h
    · exact ⟨r, compact_of_small h hlarge, .inl rfl, keeps_refl r.content⟩

end Marks

def longText (n : ℕ) : String := String.ofList (List.replicate n 'x')

theorem length_longText (n : ℕ) : (longText n).length = n := by
  rw [longText, String.length_ofList, List.length_replicate]

def groupEntry : JsonValue :=
  .record [("call_id", some (.string "call-1")), ("name", some (.string "read_file")),
    ("status", some (.string "completed")), ("description", some (.string (longText 70000)))]

/-- A tool group of one entry, as `persist_tool_group` stores it. -/
def groupContent : JsonValue := .ofList [groupEntry]

def groupRow : MessageRow where
  id := "call-1"
  conversationId := "conv-1"
  msgId := some "call-1"
  type := "tool_group"
  content := ⟨70090, some groupContent⟩
  position := some "left"
  status := some "finish"
  hidden := false
  createdAt := 0

theorem hasCut_of_get {k : String} (hw : v.get k = some w) (h : hasCut maxChars w = true) :
    hasCut maxChars v = true := by
  cases v with
  | object keys value =>
    have hk : k ∈ keys := JsonValue.get_isSome.mp (Option.isSome_iff_exists.mpr ⟨w, hw⟩)
    obtain rfl := Option.some.inj (hw.symm.trans (get_object keys value ⟨k, hk⟩))
    exact anyString_object.mpr ⟨⟨k, hk⟩, h⟩
  | _ => cases hw

/-- A text that is longer than its preview is cut. -/
theorem hasCut_of_length {s : String} (h : maxChars + 15 < s.length) :
    hasCut maxChars (.string s) = true := by
  have hlength : (preview maxChars s).length ≤ maxChars + 15 := by
    rw [preview, String.length_append, String.length_ofList, List.length_take]
    have hnotice : "\n...[truncated]".length = 15 := rfl
    omega
  have hne : preview maxChars s ≠ s := by
    intro heq
    rw [heq] at hlength
    omega
  rw [hasCut, anyString, Bool.and_eq_true, decide_eq_true_iff, decide_eq_true_iff]
  exact ⟨by omega, hne⟩

/-- The entries of a tool group stand in an array, where no mark has its place. -/
theorem group_truncated_silently : ¬∀ row, NeverSilent row := by
  intro h
  have hresponse : rowToMessageResponse groupRow = .ok ⟨"call-1", "conv-1", some "call-1",
      .toolGroup, groupContent, some .left, some .finish, false, 0⟩ := rfl
  have htold := (never_silent_large hresponse rfl (by decide)).mp (h groupRow)
  have hkept : hasCut TOOL_CONTENT_PREVIEW_CHARS groupContent = false :=
    (told_bare_iff rfl).mp htold
  have hlong : TOOL_CONTENT_PREVIEW_CHARS + 15 < (longText 70000).length := by
    rw [length_longText]
    decide
  have hget : groupEntry.get "description" = some (.string (longText 70000)) := by
    rw [groupEntry, JsonValue.get_record]
    rfl
  have hentry : hasCut TOOL_CONTENT_PREVIEW_CHARS groupEntry = true :=
    hasCut_of_get hget (hasCut_of_length hlong)
  have hcut : hasCut TOOL_CONTENT_PREVIEW_CHARS groupContent = true :=
    anyString_array.mpr ⟨0, hentry⟩
  rw [hkept] at hcut
  cases hcut

end AionCore.Conversation.Compact
