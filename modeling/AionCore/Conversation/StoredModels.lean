import Mathlib.Data.List.Basic
import Mathlib.Data.String.Basic

/-!
# Conversations: the stored model

The two readers of the column `conversation.model`: `parse_provider_with_model` of `convert.rs`
and `provider_model_from_conversation_row` of `task_options.rs`. A text is its syntax tree, so that
a member may stand twice. What `serde_json` refuses to read as a value is left open: a member that
is skipped is not read.
-/

namespace AionCore.Conversation

structure ProviderWithModel where
  providerId : String
  model : String
  useModel : Option String
  deriving DecidableEq

def ProviderWithModel.effectiveModel (m : ProviderWithModel) : String := m.useModel.getD m.model

def emptyProviderModel : ProviderWithModel := ⟨"", "", none⟩

/-- A JSON text by its syntax; a number is kept as it is written. -/
inductive JsonText where
  | null
  | bool (b : Bool)
  | number (text : String)
  | string (s : String)
  | array (items : List JsonText)
  | object (members : List (String × JsonText))

namespace JsonText

def named : JsonText → String → List JsonText
  | .object members, k => (members.filter fun m => m.1 = k).map Prod.snd
  | _, _ => []

/-- `Value::get`; of several members with one name the last is kept. -/
def get (t : JsonText) (k : String) : Option JsonText := (t.named k).getLast?

def asStr : JsonText → Option String
  | .string s => some s
  | _ => none

def isObject : JsonText → Bool
  | .object _ => true
  | _ => false

/-- `v.get(snake).or_else(|| v.get(camel))` -/
def either (t : JsonText) (snake camel : String) : Option JsonText := (t.get snake).or (t.get camel)

/-- An optional string as `serde` reads it. -/
def optionalStr : JsonText → Option (Option String)
  | .null => some none
  | .string s => some (some s)
  | _ => none

def required (t : JsonText) (k : String) : Option String :=
  match t.named k with
  | [v] => v.asStr
  | _ => none

def optional (t : JsonText) (k : String) : Option (Option String) :=
  match t.named k with
  | [] => some none
  | [v] => v.optionalStr
  | _ => none

/-- What the derived `Deserialize` of `ProviderWithModel` reads: an object with these members,
others being skipped, or an array of the three values. -/
def decodeProviderWithModel : JsonText → Option ProviderWithModel
  | .array [.string providerId, .string model, useModel] =>
    useModel.optionalStr.map fun useModel => ⟨providerId, model, useModel⟩
  | .object members => do
    let t := JsonText.object members
    let providerId ← t.required "provider_id"
    let model ← t.required "model"
    let useModel ← t.optional "use_model"
    return ⟨providerId, model, useModel⟩
  | _ => none

end JsonText

/-- The column: the text as it is stored, and its syntax. -/
structure ModelColumn where
  raw : String
  tree : JsonText

/-- The row of a conversation, of which only the model is read. -/
structure ModelRow where
  model : Option ModelColumn

section Readers

-- why `serde_json` does not read a text as a value
variable (refuses : JsonText → Option String)

/-- `use_model` or `useModel`, in both readers. -/
def JsonText.useModel (v : JsonText) : Option String :=
  (v.either "use_model" "useModel").bind JsonText.asStr

/-- `model`, in both readers. -/
def JsonText.modelOrDefault (v : JsonText) : String :=
  ((v.get "model").bind JsonText.asStr).getD ""

def parseProviderWithModel (s : ModelColumn) : Except String ProviderWithModel :=
  match refuses s.tree with
  | some e => .error ("Invalid model JSON: " ++ e)
  | none =>
    let v := s.tree
    match (v.either "provider_id" "providerId").bind JsonText.asStr with
    | some providerId => .ok ⟨providerId, v.modelOrDefault, v.useModel⟩
    | none =>
      match (v.get "id").bind JsonText.asStr with
      | some id => .ok ⟨id, v.useModel.getD "", v.useModel⟩
      | none => .error
        ("Model JSON missing both 'provider_id'/'providerId' and 'id': " ++ s.raw)

def parseProviderWithModelLoose (raw : ModelColumn) : Option ProviderWithModel :=
  match raw.tree.decodeProviderWithModel with
  | some model => some model
  | none =>
    match refuses raw.tree with
    | some _ => none
    | none =>
      let value := raw.tree
      let providerId :=
        (((value.either "provider_id" "providerId").or (value.get "id")).bind JsonText.asStr).getD ""
      if providerId = "" then none
      else some ⟨providerId, value.modelOrDefault, value.useModel⟩

def providerModelFromConversationRow (row : ModelRow) : ProviderWithModel :=
  (row.model.bind (parseProviderWithModelLoose refuses)).getD emptyProviderModel

variable {refuses}

namespace JsonText

variable {t v : JsonText} {m : ProviderWithModel} {k str : String}

theorem get_of_required (h : t.required k = some str) : t.get k = some (.string str) := by
  unfold required at h
  split at h
  · next v hnamed =>
    cases v with
    | string s =>
      obtain rfl := Option.some.inj h
      simp [get, hnamed]
    | _ => cases h
  · cases h

theorem get_of_optional {u : Option String} (h : t.optional k = some u) :
    (t.get k = none ∧ u = none) ∨ ∃ v, t.get k = some v ∧ v.asStr = u := by
  unfold optional at h
  split at h
  · next hnamed => exact .inl ⟨by simp [get, hnamed], (Option.some.inj h).symm⟩
  · next v hnamed =>
    refine .inr ⟨v, by simp [get, hnamed], ?_⟩
    cases v with
    | null => exact Option.some.inj h
    | string s => exact Option.some.inj h
    | _ => cases h
  · cases h

/-- What stands in a canonical object. -/
theorem members_of_decode (hobject : t.isObject = true) (h : t.decodeProviderWithModel = some m) :
    t.get "provider_id" = some (.string m.providerId) ∧ t.get "model" = some (.string m.model) ∧
      ((t.get "use_model" = none ∧ m.useModel = none) ∨
        ∃ v, t.get "use_model" = some v ∧ v.asStr = m.useModel) := by
  cases t with
  | object members =>
    simp only [decodeProviderWithModel, Option.bind_eq_bind, Option.bind_eq_some_iff] at h
    obtain ⟨providerId, hid, model, hmodel, useModel, huse, hm⟩ := h
    obtain rfl := Option.some.inj hm
    exact ⟨get_of_required hid, get_of_required hmodel, get_of_optional huse⟩
  | _ => cases hobject

theorem get_of_not_object (h : t.isObject = false) (k : String) : t.get k = none := by
  cases t with
  | object members => cases h
  | _ => rfl

end JsonText

/-- What is shown is what is used: the same provider and the same effective model, and the empty
model if none can be shown. -/
def ShownIsUsed (refuses : JsonText → Option String) (s : ModelColumn) : Prop :=
  (∀ shown, parseProviderWithModel refuses s = .ok shown →
    (providerModelFromConversationRow refuses ⟨some s⟩).providerId = shown.providerId ∧
      (providerModelFromConversationRow refuses ⟨some s⟩).effectiveModel = shown.effectiveModel) ∧
  ∀ e, parseProviderWithModel refuses s = .error e →
    providerModelFromConversationRow refuses ⟨some s⟩ = emptyProviderModel

variable (refuses)

/-- A text on which the readers do not part. -/
structure ReadAlike (t : JsonText) : Prop where
  /-- A canonical text is an object that can be read as a value, or says nothing. -/
  object : ∀ m, t.decodeProviderWithModel = some m →
    refuses t ≠ none ∨ t.isObject = false → m = emptyProviderModel
  /-- A canonical text without `use_model` has no `useModel` beside it, or its model in it. -/
  camel : ∀ m, t.decodeProviderWithModel = some m → refuses t = none → t.isObject = true →
    t.get "use_model" = none → ∀ u, (t.get "useModel").bind JsonText.asStr = some u → u = m.model
  /-- An empty provider id comes without a model. -/
  blank : t.decodeProviderWithModel = none → refuses t = none →
    (t.either "provider_id" "providerId").bind JsonText.asStr = some "" →
      t.useModel.getD t.modelOrDefault = ""
  /-- A provider id that is no string does not stand before an `id`. -/
  masked : t.decodeProviderWithModel = none → refuses t = none →
    t.either "provider_id" "providerId" ≠ none →
      (t.either "provider_id" "providerId").bind JsonText.asStr = none →
        ∀ id, (t.get "id").bind JsonText.asStr = some id → id = "" ∧ t.useModel.getD "" = ""
  /-- Beside an `id` the model stands in `use_model`, if the id is not empty. -/
  byId : t.decodeProviderWithModel = none → refuses t = none →
    t.either "provider_id" "providerId" = none →
      ∀ id, (t.get "id").bind JsonText.asStr = some id →
        if id = "" then t.useModel.getD "" = ""
        else t.useModel = none → t.modelOrDefault = ""

variable {refuses} {s : ModelColumn} {m shown : ProviderWithModel} {e : String}

theorem used_of_decode (h : s.tree.decodeProviderWithModel = some m) :
    providerModelFromConversationRow refuses ⟨some s⟩ = m := by
  simp [providerModelFromConversationRow, parseProviderWithModelLoose, h]

theorem used_of_refused (h : s.tree.decodeProviderWithModel = none) (hr : refuses s.tree = some e) :
    providerModelFromConversationRow refuses ⟨some s⟩ = emptyProviderModel := by
  simp [providerModelFromConversationRow, parseProviderWithModelLoose, h, hr]

variable {id : String}

/-- What is used of a text that is read member by member. -/
theorem used_of_members (h : s.tree.decodeProviderWithModel = none) (hr : refuses s.tree = none)
    (hid : (((s.tree.either "provider_id" "providerId").or
      (s.tree.get "id")).bind JsonText.asStr).getD "" = id) :
    providerModelFromConversationRow refuses ⟨some s⟩ =
      if id = "" then emptyProviderModel else ⟨id, s.tree.modelOrDefault, s.tree.useModel⟩ := by
  simp only [providerModelFromConversationRow, parseProviderWithModelLoose, h, hr, hid,
    Option.bind_some]
  split
  · rfl
  · rfl

theorem shown_of_error (h : parseProviderWithModel refuses s = .error e) :
    ShownIsUsed refuses s ↔
      providerModelFromConversationRow refuses ⟨some s⟩ = emptyProviderModel := by
  constructor
  · exact fun hs => hs.2 e h
  · exact fun hs => ⟨fun shown hok => (by rw [h] at hok; cases hok), fun _ _ => hs⟩

theorem shown_of_ok (h : parseProviderWithModel refuses s = .ok shown) :
    ShownIsUsed refuses s ↔
      (providerModelFromConversationRow refuses ⟨some s⟩).providerId = shown.providerId ∧
        (providerModelFromConversationRow refuses ⟨some s⟩).effectiveModel =
          shown.effectiveModel := by
  constructor
  · exact fun hs => hs.1 shown h
  · refine fun hs => ⟨fun shown' hok => ?_, fun e herror => (by rw [h] at herror; cases herror)⟩
    obtain rfl := Except.ok.inj (h.symm.trans hok)
    exact hs

/-- A canonical text that is no object of a value is not shown. -/
theorem unread_iff (h : s.tree.decodeProviderWithModel = some m)
    (hunread : refuses s.tree ≠ none ∨ s.tree.isObject = false) :
    ShownIsUsed refuses s ↔ m = emptyProviderModel := by
  have herror : ∃ e, parseProviderWithModel refuses s = .error e := by
    unfold parseProviderWithModel
    cases hr : refuses s.tree with
    | some e => exact ⟨_, rfl⟩
    | none =>
      have hobject : s.tree.isObject = false := hunread.resolve_left (fun hne => hne hr)
      have hget := JsonText.get_of_not_object hobject
      exact ⟨_, by simp only [JsonText.either, hget, Option.or_none, Option.bind_none]; rfl⟩
  obtain ⟨e, herror⟩ := herror
  rw [shown_of_error herror, used_of_decode h]

theorem canonical_iff (h : s.tree.decodeProviderWithModel = some m) (hr : refuses s.tree = none)
    (hobject : s.tree.isObject = true) :
    ShownIsUsed refuses s ↔ (s.tree.get "use_model" = none →
      ∀ u, (s.tree.get "useModel").bind JsonText.asStr = some u → u = m.model) := by
  obtain ⟨hid, hmodel, huse⟩ := JsonText.members_of_decode hobject h
  have hok : parseProviderWithModel refuses s =
      .ok ⟨m.providerId, m.model, s.tree.useModel⟩ := by
    simp [parseProviderWithModel, hr, JsonText.either, hid, JsonText.modelOrDefault, hmodel,
      JsonText.asStr]
  rw [shown_of_ok hok, used_of_decode h]
  unfold ProviderWithModel.effectiveModel JsonText.useModel JsonText.either
  rcases huse with ⟨hnone, hm⟩ | ⟨v, hv, hm⟩
  · rw [hnone, hm, Option.none_or]
    cases (s.tree.get "useModel").bind JsonText.asStr with
    | none => simp
    | some u => simp [eq_comm]
  · rw [hv, Option.some_or, Option.bind_some, hm]
    simp

section

variable (h : s.tree.decodeProviderWithModel = none)
include h

theorem named_iff (hr : refuses s.tree = none) {p : String}
    (hp : (s.tree.either "provider_id" "providerId").bind JsonText.asStr = some p) :
    ShownIsUsed refuses s ↔ (p = "" → s.tree.useModel.getD s.tree.modelOrDefault = "") := by
  have hok : parseProviderWithModel refuses s =
      .ok ⟨p, s.tree.modelOrDefault, s.tree.useModel⟩ := by
    simp [parseProviderWithModel, hr, hp]
  have hid : (((s.tree.either "provider_id" "providerId").or
      (s.tree.get "id")).bind JsonText.asStr).getD "" = p := by
    obtain ⟨v, hv, hstr⟩ := Option.bind_eq_some_iff.mp hp
    rw [hv, Option.some_or, Option.bind_some, hstr, Option.getD_some]
  rw [shown_of_ok hok, used_of_members h hr hid]
  by_cases hblank : p = ""
  · simp [hblank, emptyProviderModel, ProviderWithModel.effectiveModel]
  · simp [hblank, ProviderWithModel.effectiveModel]

/-- A provider id that is no string hides the `id` from the reader that runs. -/
theorem masked_iff (hr : refuses s.tree = none)
    (hp : s.tree.either "provider_id" "providerId" ≠ none)
    (hnone : (s.tree.either "provider_id" "providerId").bind JsonText.asStr = none)
    (hid : (s.tree.get "id").bind JsonText.asStr = some id) :
    ShownIsUsed refuses s ↔ (id = "" ∧ s.tree.useModel.getD "" = "") := by
  have hok : parseProviderWithModel refuses s =
      .ok ⟨id, s.tree.useModel.getD "", s.tree.useModel⟩ := by
    simp [parseProviderWithModel, hr, hnone, hid]
  have hblank : (((s.tree.either "provider_id" "providerId").or
      (s.tree.get "id")).bind JsonText.asStr).getD "" = "" := by
    obtain ⟨v, hv⟩ := Option.ne_none_iff_exists'.mp hp
    rw [hv, Option.bind_some] at hnone
    rw [hv, Option.some_or, Option.bind_some, hnone, Option.getD_none]
  rw [shown_of_ok hok, used_of_members h hr hblank, if_pos rfl]
  have heffective : (⟨id, s.tree.useModel.getD "", s.tree.useModel⟩ :
      ProviderWithModel).effectiveModel = s.tree.useModel.getD "" := by
    cases hu : s.tree.useModel <;> simp [ProviderWithModel.effectiveModel]
  rw [heffective]
  simp [emptyProviderModel, ProviderWithModel.effectiveModel]

theorem byId_iff (hr : refuses s.tree = none)
    (hp : s.tree.either "provider_id" "providerId" = none)
    (hid : (s.tree.get "id").bind JsonText.asStr = some id) :
    ShownIsUsed refuses s ↔ if id = "" then s.tree.useModel.getD "" = ""
      else s.tree.useModel = none → s.tree.modelOrDefault = "" := by
  have hok : parseProviderWithModel refuses s =
      .ok ⟨id, s.tree.useModel.getD "", s.tree.useModel⟩ := by
    simp [parseProviderWithModel, hr, hp, hid]
  have hused : (((s.tree.either "provider_id" "providerId").or
      (s.tree.get "id")).bind JsonText.asStr).getD "" = id := by
    rw [hp, Option.none_or, hid, Option.getD_some]
  rw [shown_of_ok hok, used_of_members h hr hused]
  by_cases hblank : id = ""
  · subst hblank
    cases hu : s.tree.useModel with
    | none => simp [emptyProviderModel, ProviderWithModel.effectiveModel]
    | some u => simp [emptyProviderModel, ProviderWithModel.effectiveModel, eq_comm]
  · cases hu : s.tree.useModel with
    | none => simp [hblank, ProviderWithModel.effectiveModel]
    | some u => simp [hblank, ProviderWithModel.effectiveModel]

/-- Without a provider id and without an `id` nothing is shown, and nothing used. -/
theorem shown_of_nameless (hr : refuses s.tree = none)
    (hp : (s.tree.either "provider_id" "providerId").bind JsonText.asStr = none)
    (hid : (s.tree.get "id").bind JsonText.asStr = none) : ShownIsUsed refuses s := by
  have herror : ∃ e, parseProviderWithModel refuses s = .error e :=
    ⟨_, by simp only [parseProviderWithModel, hr, hp, hid]; rfl⟩
  have hblank : (((s.tree.either "provider_id" "providerId").or
      (s.tree.get "id")).bind JsonText.asStr).getD "" = "" := by
    cases hx : s.tree.either "provider_id" "providerId" with
    | none => rw [Option.none_or, hid, Option.getD_none]
    | some v =>
      rw [hx] at hp
      rw [Option.some_or, hp, Option.getD_none]
  obtain ⟨e, herror⟩ := herror
  rw [shown_of_error herror, used_of_members h hr hblank, if_pos rfl]

end

/-- The model shown is the model used exactly on the texts on which the readers do not part. -/
theorem shown_is_used_iff (s : ModelColumn) : ShownIsUsed refuses s ↔ ReadAlike refuses s.tree := by
  cases h : s.tree.decodeProviderWithModel with
  | some m =>
    by_cases hunread : refuses s.tree ≠ none ∨ s.tree.isObject = false
    · rw [unread_iff h hunread]
      constructor
      · rintro hm
        refine ⟨fun m' hm' _ => ?_, fun m' _ hr hobject => ?_, ?_, ?_, ?_⟩
        · exact (Option.some.inj (hm'.symm.trans h)).trans hm
        · rcases hunread with hne | hfalse
          · exact absurd hr hne
          · cases hobject.symm.trans hfalse
        all_goals exact fun hnone => by rw [h] at hnone; cases hnone
      · exact fun halike => halike.object m h hunread
    · obtain ⟨hr, hobject⟩ := not_or.mp hunread
      have hr : refuses s.tree = none := not_not.mp hr
      have hobject : s.tree.isObject = true := by simpa using hobject
      rw [canonical_iff h hr hobject]
      constructor
      · intro hcamel
        refine ⟨fun m' hm' hun => absurd hun hunread, fun m' hm' _ _ => ?_, ?_, ?_, ?_⟩
        · obtain rfl := Option.some.inj (hm'.symm.trans h)
          exact hcamel
        all_goals exact fun hnone => by rw [h] at hnone; cases hnone
      · exact fun halike => halike.camel m h hr hobject
  | none =>
    have noncanonical : ∀ {m}, s.tree.decodeProviderWithModel = some m → False := by
      intro m hm
      rw [h] at hm
      cases hm
    cases hr : refuses s.tree with
    | some e =>
      have hshown : ShownIsUsed refuses s := by
        rw [shown_of_error (e := "Invalid model JSON: " ++ e)
          (by simp only [parseProviderWithModel, hr]), used_of_refused h hr]
      refine iff_of_true hshown ⟨fun m hm => (noncanonical hm).elim,
        fun m hm => (noncanonical hm).elim, ?_, ?_, ?_⟩
      all_goals exact fun _ hnone => by rw [hr] at hnone; cases hnone
    | none =>
      cases hp : (s.tree.either "provider_id" "providerId").bind JsonText.asStr with
      | some p =>
        rw [named_iff h hr hp]
        constructor
        · intro hblank
          refine ⟨fun m hm => (noncanonical hm).elim, fun m hm => (noncanonical hm).elim,
            fun _ _ hempty => ?_, fun _ _ _ hnone => ?_, fun _ _ hnone => ?_⟩
          · exact hblank (Option.some.inj (hp.symm.trans hempty))
          · rw [hp] at hnone
            cases hnone
          · rw [hnone] at hp
            cases hp
        · rintro halike rfl
          exact halike.blank h hr hp
      | none =>
        cases hid : (s.tree.get "id").bind JsonText.asStr with
        | none =>
          refine iff_of_true (shown_of_nameless h hr hp hid) ⟨fun m hm => (noncanonical hm).elim,
            fun m hm => (noncanonical hm).elim, fun _ _ hempty => ?_, fun _ _ _ _ id h' => ?_,
            fun _ _ _ id h' => ?_⟩
          · rw [hp] at hempty
            cases hempty
          · rw [hid] at h'
            cases h'
          · rw [hid] at h'
            cases h'
        | some id =>
          by_cases hmember : s.tree.either "provider_id" "providerId" = none
          · rw [byId_iff h hr hmember hid]
            constructor
            · intro hby
              refine ⟨fun m hm => (noncanonical hm).elim, fun m hm => (noncanonical hm).elim,
                fun _ _ hempty => ?_, fun _ _ hne => absurd hmember hne, fun _ _ _ id' h' => ?_⟩
              · rw [hp] at hempty
                cases hempty
              · obtain rfl := Option.some.inj (hid.symm.trans h')
                exact hby
            · exact fun halike => halike.byId h hr hmember id hid
          · rw [masked_iff h hr hmember hp hid]
            constructor
            · intro hmasked
              refine ⟨fun m hm => (noncanonical hm).elim, fun m hm => (noncanonical hm).elim,
                fun _ _ hempty => ?_, fun _ _ _ _ id' h' => ?_, fun _ _ hnone => ?_⟩
              · rw [hp] at hempty
                cases hempty
              · obtain rfl := Option.some.inj (hid.symm.trans h')
                exact hmasked
              · exact absurd hnone hmember
            · exact fun halike => halike.masked h hr hmember hp id hid

end Readers

/-- `{"id":"abc123","model":"gpt-5"}` -/
def idColumn : ModelColumn where
  raw := "\x7b\"id\":\"abc123\",\"model\":\"gpt-5\"\x7d"
  tree := .object [("id", .string "abc123"), ("model", .string "gpt-5")]

/-- Beside an `id` the model is run and not shown. -/
theorem id_alias_not_shown : ¬∀ refuses s, ShownIsUsed refuses s := by
  intro h
  have hshown : parseProviderWithModel (fun _ => none) idColumn = .ok ⟨"abc123", "", none⟩ := rfl
  have heffective := ((h (fun _ => none) idColumn).1 _ hshown).2
  exact absurd heffective (by decide)

/-- The shapes of the stored texts: canonical, camel case, and the full provider object. -/
example :
    let read tree := providerModelFromConversationRow (fun _ => none) ⟨some ⟨"", tree⟩⟩
    read (.object [("provider_id", .string "p"), ("model", .string "m"), ("use_model", .null)]) =
        ⟨"p", "m", none⟩ ∧
      read (.object [("providerId", .string "p"), ("model", .string "m")]) = ⟨"p", "m", none⟩ ∧
      read (.object [("id", .string "p"), ("model", .array []), ("useModel", .string "u")]) =
        ⟨"p", "", some "u"⟩ ∧
      read (.object [("model", .string "m")]) = emptyProviderModel := by
  decide

end AionCore.Conversation
