import AionCore.Conversation.ExtraUpdates

/-!
# Conversations: runs of the writers of `extra`

Any number of calls on one conversation, each split at its read and its write of the row. What is
left in the column after the writes, when no two calls touch one key.
-/

namespace AionCore.Conversation

open ExtraColumn

inductive ExtraCall where
  | update (userId : String) (req : UpdateConversationRequest)
  | updateExtra (patch : ExtraJson)
  | maybePersistWorkspace (allows : Bool) (storedWorkspace resolvedWorkspace : String)
  | backfillExtraInplace (autoInject : List String)
  | bindCronJobToConversation (cronJobId : String)
  | unbindCronJobFromConversation (cronJobId : String)
  | persistWorkspaceIfMissing (resolvedWorkspace : String)

namespace ExtraCall

variable (context : ExtraContext) (now : ℤ) (row : ConversationRow ExtraColumn)

/-- What a call writes that read the row. -/
def plan : ExtraCall → Except ExtraWriteError (Option (ConversationRowUpdate ExtraColumn))
  | .update userId req => (Conversation.update context now row userId req).map some
  | .updateExtra patch => (Conversation.updateExtra context now row patch).map some
  | .maybePersistWorkspace allows stored resolved =>
    Conversation.maybePersistWorkspace now row allows stored resolved
  | .backfillExtraInplace autoInject => .ok (Conversation.backfillExtraInplace row autoInject)
  | .bindCronJobToConversation job => .ok (Conversation.bindCronJobToConversation now row job)
  | .unbindCronJobFromConversation job =>
    .ok (Conversation.unbindCronJobFromConversation now row job)
  | .persistWorkspaceIfMissing resolved =>
    .ok (Conversation.persistWorkspaceIfMissing now row resolved)

def setAll (patch : ExtraObject) : ExtraChanges := patch.entries.map fun e => (e.1, some e.2)

def removeAll (o : ExtraObject) (keys : List String) : ExtraChanges :=
  (keys.filter fun key => (o.lookup key).isSome).map fun key => (key, none)

/-- The entries that a merge of a patch sets, and the model that `aionrs` does not keep in it. -/
def mergeChanges (patch : ExtraJson) : ExtraChanges :=
  (if AgentType.ofName row.type = some .aionrs then
    removeAll (mergeJson (orEmpty row.extra) patch).entries ["model"] else []) ++
    setAll patch.entries

def aliasChanges (o : ExtraObject) (job key : String) : ExtraChanges :=
  if (o.lookup key).bind ExtraValue.asStr = some job then [] else [(key, some (.text job))]

def unbindChanges (o : ExtraObject) (job key : String) : ExtraChanges :=
  if (o.lookup key).bind ExtraValue.asStr = some job then [(key, none)] else []

/-- The names of the job that `backfill_cron_job_id_alias` adds. -/
def cronJobChanges (o : ExtraObject) : ExtraChanges :=
  match boundCronJob o with
  | none => []
  | some job => aliasChanges o job "cronJobId" ++ aliasChanges o job "cron_job_id"

/-- What `backfill_skills_if_missing` adds. -/
def skillsChanges (autoInject : List String) (o : ExtraObject) : ExtraChanges :=
  if (o.lookup "skills").isSome then []
  else [("skills", some (.texts (computeInitialSkills autoInject
    (takeStringArray o "enabled_skills") (takeStringArray o "exclude_builtin_skills"))))]

def backfillChanges (autoInject : List String) (o : ExtraObject) : ExtraChanges :=
  cronJobChanges o ++ (skillsChanges autoInject o ++
    removeAll o ["enabled_skills", "exclude_builtin_skills", "loaded_skills"])

/-- The entries that a call means to set or to remove, if it writes. -/
def changes : ExtraCall → ExtraChanges
  | .update _ req => (req.extra.map (mergeChanges row)).getD []
  | .updateExtra patch => setAll patch.entries
  | .maybePersistWorkspace _ _ resolved => [("workspace", some (.text resolved))]
  | .backfillExtraInplace autoInject => backfillChanges autoInject (entries row.extra)
  | .bindCronJobToConversation job =>
    [("cronJobId", some (.text job)), ("cron_job_id", some (.text job))]
  | .unbindCronJobFromConversation job =>
    unbindChanges (entries row.extra) job "cronJobId" ++
      unbindChanges (entries row.extra) job "cron_job_id"
  | .persistWorkspaceIfMissing resolved => [("workspace", some (.text (trim resolved)))]

def Mergeable : ExtraCall → Prop
  | .update _ _ | .updateExtra _ => (orEmpty row.extra).isObject = true
  | _ => True

instance : ∀ call, Decidable (Mergeable row call) := by
  intro call
  cases call <;> dsimp only [Mergeable] <;> infer_instance

variable {context now row}

theorem lay_setAll (patch : ExtraObject) (map : String → Option ExtraValue) (k : String) :
    (setAll patch).lay map k = (patch.lookup k).or (map k) := by
  have hlookup : ∀ l : List (Sigma fun _ : String => ExtraValue),
      (l.map fun e => (e.1, some e.2)).lookup k = (l.dlookup k).map some := by
    intro l
    induction l with
    | nil => rfl
    | cons e l ih =>
      rw [List.map_cons, List.lookup_cons]
      by_cases hk : k = e.1
      · subst hk
        rw [beq_self_eq_true, List.dlookup_cons_eq]
        rfl
      · have hne : (k == e.1) = false := by simpa using hk
        rw [hne, List.dlookup_cons_ne _ _ hk]
        exact ih
  have hpatch : (setAll patch).lookup k = (patch.lookup k).map some := hlookup patch.entries
  rw [Changes.lay, hpatch]
  cases patch.lookup k with
  | none => rfl
  | some value => rfl

/-- Keys that are there are removed, and the others were not there. -/
theorem lay_removeAll (o : ExtraObject) (keys : List String) (k : String) :
    (removeAll o keys).lay (fun k => o.lookup k) k = if k ∈ keys then none else o.lookup k := by
  induction keys with
  | nil => rfl
  | cons key keys ih =>
    unfold removeAll at ih ⊢
    cases hkey : o.lookup key with
    | none =>
      rw [List.filter_cons_of_neg (by simp [hkey]), ih]
      by_cases hk : k = key
      · subst hk
        simp [hkey]
      · simp [hk]
    | some value =>
      rw [List.filter_cons_of_pos (by simp [hkey]), List.map_cons, Changes.lay_cons, ih]
      by_cases hk : k = key
      · simp [hk]
      · simp [hk]

theorem get_object (o : ExtraObject) : (ExtraJson.object o).get = fun k => o.lookup k := rfl

variable {extra : ExtraJson}

theorem get_of_not_object (h : extra.isObject = false) :
    extra.get = fun _ => none := by
  cases extra with
  | object o => cases h
  | null => rfl
  | other json => rfl

variable {patch : ExtraJson}

/-- A patch that is merged into an object is laid over it. -/
theorem mergeJson_get {base : ExtraJson} (h : base.isObject = true) :
    (mergeJson base patch).get = (setAll patch.entries).lay base.get := by
  cases base with
  | null => cases h
  | other json => cases h
  | object o =>
    cases patch with
    | null => rfl
    | other json => rfl
    | object patched =>
      funext k
      rw [lay_setAll]
      show (patched ∪ o).lookup k = (patched.lookup k).or (o.lookup k)
      by_cases hk : k ∈ patched
      · obtain ⟨value, hvalue⟩ := Option.isSome_iff_exists.mp (AList.lookup_isSome.mpr hk)
        rw [AList.lookup_union_left hk, hvalue, Option.some_or]
      · rw [AList.lookup_union_right hk, AList.lookup_eq_none.mpr hk, Option.none_or]

theorem mergeJson_isObject (base patch : ExtraJson) :
    (mergeJson base patch).isObject = base.isObject := by
  cases base <;> cases patch <;> rfl

variable {new : ExtraJson}

/-- A path that is available is kept as it is. -/
theorem normalizeWorkspaceExtra_ok (h : normalizeWorkspaceExtra context extra = .ok new) :
    new = extra := by
  unfold normalizeWorkspaceExtra at h
  split at h
  · exact (Except.ok.inj h).symm
  · next workspace _ =>
    split at h
    · exact (Except.ok.inj h).symm
    · unfold normalizeWorkspacePath at h
      split at h
      · cases h
      · split at h
        · have hsame : extra = new := by simpa [Except.map] using h
          exact hsame.symm
        · cases h

theorem normalized_ok
    (h : (if (patch.get "workspace").isSome then normalizeWorkspaceExtra context extra
      else .ok extra) = .ok new) : new = extra := by
  split at h
  · exact normalizeWorkspaceExtra_ok h
  · exact (Except.ok.inj h).symm

theorem mapObject_erase_get (h : extra.isObject = true) (key : String) :
    (extra.mapObject fun o => o.erase key).get =
      (removeAll extra.entries [key]).lay extra.get := by
  cases extra with
  | null => cases h
  | other json => cases h
  | object o =>
    funext k
    show (o.erase key).lookup k = (removeAll o [key]).lay (fun k => o.lookup k) k
    rw [lay_removeAll, Dict.lookup_erase']
    simp

theorem mapObject_isObject (extra : ExtraJson) (f : ExtraObject → ExtraObject) :
    (extra.mapObject f).isObject = extra.isObject := by
  cases extra <;> rfl

variable {existingType : AgentType} {newExtra : ExtraJson}

/-- What `update` writes in place of an extra. -/
theorem mergedExtra_get (h : mergedExtra context row existingType newExtra = .ok new)
    (htype : AgentType.ofName row.type = some existingType)
    (hobject : (orEmpty row.extra).isObject = true) :
    new.get = (mergeChanges row newExtra).lay (orEmpty row.extra).get := by
  obtain rfl := normalized_ok h
  have hmerged : (mergeJson (orEmpty row.extra) newExtra).get =
      (setAll newExtra.entries).lay (orEmpty row.extra).get := mergeJson_get hobject
  unfold mergeChanges
  rw [htype, Changes.lay_append, ← hmerged]
  by_cases haionrs : existingType = .aionrs
  · rw [if_pos haionrs, if_pos (congrArg some haionrs)]
    exact mapObject_erase_get ((mergeJson_isObject _ _).trans hobject) "model"
  · rw [if_neg haionrs, if_neg fun hsome => haionrs (Option.some.inj hsome)]
    rfl

theorem mergedExtra_not_object (h : mergedExtra context row existingType newExtra = .ok new)
    (hobject : (orEmpty row.extra).isObject = false) : new.isObject = false := by
  obtain rfl := normalized_ok h
  split
  · rw [mapObject_isObject, mergeJson_isObject, hobject]
  · rw [mergeJson_isObject, hobject]

/-- What a call writes, if it writes an extra, is what it means to write laid over what it read,
unless that is no object and there is a patch to be merged into it. -/
def Lays (call : ExtraCall) (row : ConversationRow ExtraColumn)
    (updates : ConversationRowUpdate ExtraColumn) : Prop :=
  match updates.extra with
  | none => call.changes row = []
  | some new =>
    (Mergeable row call → (orEmpty new).get = (call.changes row).lay (orEmpty row.extra).get) ∧
      (¬Mergeable row call → (orEmpty new).isObject = false)

variable {updates : ConversationRowUpdate ExtraColumn} {call : ExtraCall}

theorem lays_of_mergeable {new : ExtraColumn} (hnew : updates.extra = some new)
    (hm : Mergeable row call)
    (hget : (orEmpty new).get = (call.changes row).lay (orEmpty row.extra).get) :
    Lays call row updates := by
  unfold Lays
  rw [hnew]
  exact ⟨fun _ => hget, fun hn => absurd hm hn⟩

theorem map_eq_ok {α β ε : Type} {f : α → β} {result : Except ε α} {b : β}
    (h : result.map f = .ok b) : ∃ a, result = .ok a ∧ f a = b := by
  cases result with
  | error e => cases h
  | ok a => exact ⟨a, rfl, Except.ok.inj h⟩

variable {req : UpdateConversationRequest} {userId : String}

theorem lays_requested (h : requestedExtra context row existingType req.extra = .ok updates.extra)
    (htype : AgentType.ofName row.type = some existingType) :
    Lays (.update userId req) row updates := by
  unfold Lays
  cases hreq : req.extra with
  | none =>
    rw [hreq] at h
    rw [← Except.ok.inj h]
    show (req.extra.map (mergeChanges row)).getD [] = []
    rw [hreq]
    rfl
  | some newExtra =>
    rw [hreq] at h
    obtain ⟨new, hnew, hextra⟩ := map_eq_ok h
    have hchanges : (ExtraCall.update userId req).changes row = mergeChanges row newExtra := by
      show (req.extra.map (mergeChanges row)).getD [] = mergeChanges row newExtra
      rw [hreq]
      rfl
    rw [← hextra, hchanges]
    refine ⟨fun hm => mergedExtra_get hnew htype hm, fun hn => ?_⟩
    exact mergedExtra_not_object hnew (by simpa [Mergeable] using hn)

theorem lays_update (h : Conversation.update context now row userId req = .ok updates) :
    Lays (.update userId req) row updates := by
  unfold Conversation.update at h
  split at h
  · cases h
  · split at h
    · cases h
    · next existingType htype =>
      split at h
      · cases h
      · split at h
        · cases h
        · split at h
          · cases h
          · obtain ⟨extra, hextra, rfl⟩ := map_eq_ok h
            exact lays_requested hextra htype

theorem lays_updateExtra (h : Conversation.updateExtra context now row patch = .ok updates) :
    Lays (.updateExtra patch) row updates := by
  obtain ⟨new, hnew, rfl⟩ := map_eq_ok h
  obtain rfl := normalized_ok hnew
  refine ⟨fun hm => mergeJson_get hm, fun hn => ?_⟩
  show (mergeJson (orEmpty row.extra) patch).isObject = false
  rw [mergeJson_isObject]
  simpa [Mergeable] using hn

theorem insert_get (o : ExtraObject) (key : String) (value : ExtraValue) :
    (ExtraJson.object (o.insert key value)).get =
      Changes.lay [(key, some value)] (ExtraJson.object o).get := by
  funext k
  rw [Changes.lay_cons, Changes.lay_nil]
  exact Dict.lookup_insert' o key k value

theorem lays_maybePersistWorkspace {allows : Bool} {stored resolved : String}
    (h : Conversation.maybePersistWorkspace now row allows stored resolved = .ok (some updates)) :
    Lays (.maybePersistWorkspace allows stored resolved) row updates := by
  unfold Conversation.maybePersistWorkspace at h
  split at h
  · cases h
  · split at h
    · cases h
    · split at h
      · next o ho =>
        obtain rfl := Option.some.inj (Except.ok.inj h)
        refine lays_of_mergeable rfl trivial ?_
        rw [ho]
        exact insert_get o "workspace" (.text resolved)
      · next hnull =>
        obtain rfl := Option.some.inj (Except.ok.inj h)
        refine lays_of_mergeable rfl trivial ?_
        rw [hnull]
        exact insert_get ∅ "workspace" (.text resolved)
      · cases h

theorem lays_persistWorkspaceIfMissing {resolved : String}
    (h : Conversation.persistWorkspaceIfMissing now row resolved = some updates) :
    Lays (.persistWorkspaceIfMissing resolved) row updates := by
  unfold Conversation.persistWorkspaceIfMissing at h
  dsimp only at h
  split at h
  · cases h
  · split at h
    · next o ho =>
      split at h
      · cases h
      · obtain rfl := Option.some.inj h
        refine lays_of_mergeable rfl trivial ?_
        rw [ho]
        exact insert_get o "workspace" (.text (trim resolved))
    · next hno =>
      obtain rfl := Option.some.inj h
      refine lays_of_mergeable rfl trivial ?_
      have hempty : (orEmpty row.extra).get = (ExtraJson.object ∅).get := by
        refine get_of_not_object ?_
        cases hextra : orEmpty row.extra with
        | object o => exact absurd hextra (hno o)
        | null => rfl
        | other json => rfl
      rw [hempty]
      exact insert_get ∅ "workspace" (.text (trim resolved))

theorem lays_bindCronJob {job : String}
    (h : Conversation.bindCronJobToConversation now row job = some updates) :
    Lays (.bindCronJobToConversation job) row updates := by
  unfold Conversation.bindCronJobToConversation at h
  dsimp only at h
  split at h
  · cases h
  · obtain rfl := Option.some.inj h
    refine lays_of_mergeable rfl trivial ?_
    show (ExtraJson.object (((entries row.extra).insert "cron_job_id" (.text job)).insert
      "cronJobId" (.text job))).get = Changes.lay _ _
    rw [insert_get, insert_get, ← Changes.lay_append]
    rfl

theorem erase_if_get (o : ExtraObject) (key : String) (p : Prop) [Decidable p] :
    (ExtraJson.object (if p then o.erase key else o)).get =
      Changes.lay (if p then [(key, none)] else []) (ExtraJson.object o).get := by
  split
  · funext k
    rw [Changes.lay_cons, Changes.lay_nil]
    exact Dict.lookup_erase' o key k
  · rfl

theorem lays_unbindCronJob {job : String}
    (h : Conversation.unbindCronJobFromConversation now row job = some updates) :
    Lays (.unbindCronJobFromConversation job) row updates := by
  unfold Conversation.unbindCronJobFromConversation at h
  split at h
  · next o ho =>
    dsimp only at h
    split at h
    · cases h
    · obtain rfl := Option.some.inj h
      refine lays_of_mergeable rfl trivial ?_
      have hentries : entries row.extra = o := congrArg ExtraJson.entries ho
      show (ExtraJson.object _).get = Changes.lay (_ ++ _) _
      rw [erase_if_get, erase_if_get, ← Changes.lay_append, hentries, ho]
      rfl
  · cases h

theorem withoutLegacy_get (o : ExtraObject) :
    (ExtraJson.object (withoutLegacy o)).get =
      (removeAll o ["enabled_skills", "exclude_builtin_skills", "loaded_skills"]).lay
        (ExtraJson.object o).get := by
  funext k
  show (withoutLegacy o).lookup k = Changes.lay _ (fun k => o.lookup k) k
  rw [lay_removeAll, withoutLegacy, Dict.lookup_erase', Dict.lookup_erase', Dict.lookup_erase']
  by_cases hloaded : k = "loaded_skills"
  · simp [hloaded]
  · by_cases hexclude : k = "exclude_builtin_skills"
    · simp [hexclude]
    · simp [hloaded, hexclude]

theorem alias_get (o base : ExtraObject) (job key : String) :
    (ExtraJson.object (if (o.lookup key).bind ExtraValue.asStr = some job then base
      else base.insert key (.text job))).get =
      (aliasChanges o job key).lay (ExtraJson.object base).get := by
  unfold aliasChanges
  split
  · rfl
  · exact insert_get base key (.text job)

theorem backfillSkills_get (autoInject : List String) (o : ExtraObject) :
    (ExtraJson.object (backfillSkillsIfMissing autoInject o).1).get =
      Changes.lay (skillsChanges autoInject o ++
        removeAll o ["enabled_skills", "exclude_builtin_skills", "loaded_skills"])
        (ExtraJson.object o).get := by
  rw [Changes.lay_append, ← withoutLegacy_get]
  unfold backfillSkillsIfMissing skillsChanges
  split
  · rfl
  · exact insert_get _ _ _

/-- The names of the job are not among the keys of the skills. -/
theorem backfillSkills_lookup (autoInject : List String) (o : ExtraObject) {key : String}
    (hkey : key = "cron_job_id" ∨ key = "cronJobId") :
    (backfillSkillsIfMissing autoInject o).1.lookup key = o.lookup key := by
  have hskills : key ≠ "skills" := by
    rintro rfl
    exact absurd hkey (by decide)
  have hlegacy : key ∉ ["enabled_skills", "exclude_builtin_skills", "loaded_skills"] := by
    obtain rfl | rfl := hkey <;> decide
  have hbase : (withoutLegacy o).lookup key = o.lookup key := by
    have hget := congrFun (withoutLegacy_get o) key
    rw [get_object, get_object, lay_removeAll, if_neg hlegacy] at hget
    exact hget
  unfold backfillSkillsIfMissing
  split
  · exact hbase
  · rw [Dict.lookup_insert', if_neg hskills, hbase]

theorem backfillCronJobIdAlias_get (b o : ExtraObject)
    (hsnake : b.lookup "cron_job_id" = o.lookup "cron_job_id")
    (hcamel : b.lookup "cronJobId" = o.lookup "cronJobId") :
    (ExtraJson.object (backfillCronJobIdAlias b).1).get =
      (cronJobChanges o).lay (ExtraJson.object b).get := by
  have hbound : boundCronJob b = boundCronJob o := by
    rw [boundCronJob, boundCronJob, hsnake, hcamel]
  unfold backfillCronJobIdAlias cronJobChanges
  rw [hbound]
  cases boundCronJob o with
  | none => rfl
  | some job =>
    rw [hsnake, hcamel, alias_get, alias_get, Changes.lay_append]

theorem lays_backfillExtra {autoInject : List String}
    (h : Conversation.backfillExtraInplace row autoInject = some updates) :
    Lays (.backfillExtraInplace autoInject) row updates := by
  unfold Conversation.backfillExtraInplace at h
  split at h
  · next o ho =>
    dsimp only at h
    split at h
    · obtain rfl := Option.some.inj h
      refine lays_of_mergeable rfl trivial ?_
      have hcolumn : orEmpty row.extra = .object o := by rw [ho]; rfl
      have hentries : entries row.extra = o := congrArg ExtraJson.entries hcolumn
      show (ExtraJson.object _).get = (backfillChanges autoInject (entries row.extra)).lay _
      rw [hentries, hcolumn, backfillCronJobIdAlias_get _ o (backfillSkills_lookup _ _ (.inl rfl))
        (backfillSkills_lookup _ _ (.inr rfl)), backfillSkills_get, ← Changes.lay_append]
      rfl
    · cases h
  · cases h

/-- What a call writes, whichever it is. -/
theorem lays_of_plan (h : call.plan context now row = .ok (some updates)) :
    Lays call row updates := by
  cases call with
  | update userId req =>
    obtain ⟨updates', hok, hsome⟩ := map_eq_ok h
    obtain rfl := Option.some.inj hsome
    exact lays_update hok
  | updateExtra patch =>
    obtain ⟨updates', hok, hsome⟩ := map_eq_ok h
    obtain rfl := Option.some.inj hsome
    exact lays_updateExtra hok
  | maybePersistWorkspace allows stored resolved => exact lays_maybePersistWorkspace h
  | backfillExtraInplace autoInject => exact lays_backfillExtra (Except.ok.inj h)
  | bindCronJobToConversation job => exact lays_bindCronJob (Except.ok.inj h)
  | unbindCronJobFromConversation job => exact lays_unbindCronJob (Except.ok.inj h)
  | persistWorkspaceIfMissing resolved => exact lays_persistWorkspaceIfMissing (Except.ok.inj h)

theorem exists_set_of_setAll {patch : ExtraObject} (h : setAll patch ≠ []) :
    ∃ k v, (setAll patch).lookup k = some (some v) := by
  unfold setAll at h ⊢
  cases hentries : patch.entries with
  | nil =>
    rw [hentries] at h
    exact absurd rfl h
  | cons e entries => exact ⟨e.1, e.2, by rw [List.map_cons, List.lookup_cons_self]⟩

theorem not_isObject_of_not_mergeable (hm : ¬Mergeable row call) :
    (orEmpty row.extra).isObject = false := by
  cases call with
  | update userId req => simpa [Mergeable] using hm
  | updateExtra patch => simpa [Mergeable] using hm
  | _ => exact absurd trivial hm

/-- Where there is no object to merge a patch into, all of the patch is to be set. -/
theorem mergeChanges_not_object (h : (orEmpty row.extra).isObject = false) :
    mergeChanges row newExtra = setAll newExtra.entries := by
  have hentries : (mergeJson (orEmpty row.extra) newExtra).entries = ∅ := by
    cases hbase : orEmpty row.extra with
    | object o =>
      rw [hbase] at h
      cases h
    | null => rfl
    | other json => rfl
  unfold mergeChanges
  rw [hentries]
  split <;> rfl

/-- A patch that is dropped has something to set. -/
theorem exists_set_of_not_mergeable (hm : ¬Mergeable row call) (hne : call.changes row ≠ []) :
    ∃ k v, (call.changes row).lookup k = some (some v) := by
  have hobject := not_isObject_of_not_mergeable hm
  cases call with
  | update userId req =>
    have hchanges : (ExtraCall.update userId req).changes row =
        (req.extra.map (mergeChanges row)).getD [] := rfl
    rw [hchanges] at hne ⊢
    cases hreq : req.extra with
    | none =>
      rw [hreq] at hne
      exact absurd rfl hne
    | some newExtra =>
      rw [hreq, Option.map_some, Option.getD_some, mergeChanges_not_object hobject] at hne
      rw [Option.map_some, Option.getD_some, mergeChanges_not_object hobject]
      exact exists_set_of_setAll hne
  | updateExtra patch => exact exists_set_of_setAll hne
  | _ => exact absurd trivial hm

end ExtraCall

instance decidableAgree (changes : ExtraChanges) (extra extra' : ExtraJson) :
    Decidable (changes.Agree extra.get extra'.get) :=
  decidable_of_iff (∀ k ∈ extra.entries.keys ++ extra'.entries.keys,
    changes.lookup k = none → extra.get k = extra'.get k) <| by
    constructor
    · intro h k hk
      by_cases hmem : k ∈ extra.entries.keys ++ extra'.entries.keys
      · exact h k hmem hk
      · rw [List.mem_append, not_or] at hmem
        exact (AList.lookup_eq_none.mpr hmem.1).trans (AList.lookup_eq_none.mpr hmem.2).symm
    · exact fun h k _ hk => h k hk

/-- The table, the calls that have read the row of the conversation with the row that they read,
the extra at the start and what was written since. -/
structure ExtraRun where
  rows : StoredConversations ExtraColumn
  opening : ExtraColumn
  reading : List (ExtraCall × ConversationRow ExtraColumn) := []
  written : List ExtraChanges := []

inductive ExtraStep where
  | read (call : ExtraCall)
  | write (index : ℕ) (now : ℤ)

/-- A call that goes on to write. -/
structure ExtraWrite where
  call : ExtraCall
  row : ConversationRow ExtraColumn
  updates : ConversationRowUpdate ExtraColumn

namespace ExtraWrite

variable (w : ExtraWrite) (current : ConversationRow ExtraColumn)

abbrev changes : ExtraChanges := w.call.changes w.row

/-- The write loses nothing: a patch has an object to go into, and but for the keys of the call the
extra is still the one that the call read. -/
def Fresh : Prop :=
  w.updates.extra.isSome = true →
    (w.call.Mergeable w.row ∨ w.changes = []) ∧
      w.changes.Agree (orEmpty w.row.extra).get (orEmpty current.extra).get

variable {w current} {first : String → Option ExtraValue} {written : List ExtraChanges}

/-- What a write keeps. -/
theorem kept_iff (hl : w.call.Lays w.row w.updates)
    (h : Changes.Kept first written (orEmpty current.extra).get)
    (hd : ∀ changes ∈ written, w.changes.Disjoint changes) :
    Changes.Kept first (w.changes :: written) (orEmpty (w.updates.apply current).extra).get ↔
      w.Fresh current := by
  unfold ExtraCall.Lays at hl
  unfold Fresh
  show Changes.Kept first (w.changes :: written)
    (orEmpty (w.updates.extra.getD current.extra)).get ↔ _
  cases hextra : w.updates.extra with
  | none =>
    rw [hextra] at hl
    have hnil : w.changes = [] := hl
    rw [hnil, Changes.kept_nil_cons]
    exact ⟨fun _ hsome => (by cases hsome), fun _ => h⟩
  | some new =>
    rw [hextra] at hl
    obtain ⟨hlay, hdrop⟩ := hl
    rw [Option.getD_some]
    by_cases hm : w.call.Mergeable w.row
    · rw [hlay hm, h.lay_iff hd]
      exact ⟨fun hagree _ => ⟨.inl hm, hagree⟩, fun hfresh => (hfresh rfl).2⟩
    · have hnone := ExtraCall.get_of_not_object (hdrop hm)
      have hread := ExtraCall.get_of_not_object (ExtraCall.not_isObject_of_not_mergeable hm)
      by_cases hnil : w.changes = []
      · have hsame : (orEmpty new).get = w.changes.lay (orEmpty w.row.extra).get := by
          rw [hnil, Changes.lay_nil, hnone, hread]
        rw [hsame, h.lay_iff hd]
        exact ⟨fun hagree _ => ⟨.inr hnil, hagree⟩, fun hfresh => (hfresh rfl).2⟩
      · constructor
        · intro hkept
          obtain ⟨k, v, hv⟩ := ExtraCall.exists_set_of_not_mergeable hm hnil
          have hk := hkept.1 w.changes List.mem_cons_self k (some v) hv
          rw [hnone] at hk
          cases hk
        · intro hfresh
          obtain hm' | hnil' := (hfresh rfl).1
          · exact absurd hm' hm
          · exact absurd hnil' hnil

end ExtraWrite

namespace ExtraRun

variable (context : ExtraContext) (convId : String) (s : ExtraRun)

/-- The write of a call that has read the row, if it makes one. -/
def attempt (index : ℕ) (now : ℤ) : Option ExtraWrite :=
  match s.reading[index]? with
  | none => none
  | some (call, row) =>
    match call.plan context now row with
    | .ok (some updates) => some ⟨call, row, updates⟩
    | _ => none

def read (call : ExtraCall) : ExtraRun :=
  match s.rows.byId convId with
  | none => s
  | some row => { s with reading := s.reading ++ [(call, row)] }

/-- What a write leaves; one that fails leaves the table as it is. -/
def write (w : ExtraWrite) : ExtraRun :=
  match s.rows.update convId w.updates with
  | .error _ => s
  | .ok rows => { s with rows, written := w.changes :: s.written }

/-- The call is over. -/
def finish (index : ℕ) : ExtraRun := { s with reading := s.reading.eraseIdx index }

def fire : ExtraStep → ExtraRun
  | .read call => s.read convId call
  | .write index now =>
    match s.attempt context index now with
    | none => s.finish index
    | some w => (s.finish index).write convId w

/-- No two calls touch one key. -/
def admits : ExtraStep → Prop
  | .read _ => True
  | .write index now =>
    ∀ w ∈ s.attempt context index now, ∀ changes ∈ s.written, w.changes.Disjoint changes

def machine : Machine ExtraRun ExtraStep where
  start s := ∃ rows row, StoredConversations.byId rows convId = some row ∧
    s = { rows, opening := row.extra }
  admits := admits context
  fire s := s.fire context convId

/-- The extra has what was written, with the values that were written, and is else as it was. -/
def Kept : Prop :=
  ∀ row ∈ s.rows.byId convId,
    Changes.Kept (orEmpty s.opening).get s.written (orEmpty row.extra).get

/-- A write finds the extra that the call read, but for the keys of the call. -/
def Fresh : ExtraStep → Prop
  | .read _ => True
  | .write index now =>
    ∀ w ∈ s.attempt context index now, ∀ current ∈ s.rows.byId convId, w.Fresh current

variable {context convId s} {index : ℕ} {now : ℤ} {w : ExtraWrite}

theorem fire_write_none (h : s.attempt context index now = none) :
    s.fire context convId (.write index now) = s.finish index := by
  simp only [fire, h]

theorem fire_write_some (h : s.attempt context index now = some w) :
    s.fire context convId (.write index now) = (s.finish index).write convId w := by
  simp only [fire, h]

theorem lays_of_attempt (h : s.attempt context index now = some w) :
    w.call.Lays w.row w.updates := by
  unfold attempt at h
  split at h
  · cases h
  · split at h
    · next hplan =>
      obtain rfl := Option.some.inj h
      exact ExtraCall.lays_of_plan hplan
    · cases h

theorem kept_read (h : s.Kept convId) (call : ExtraCall) : (s.read convId call).Kept convId := by
  unfold read
  split
  · exact h
  · exact h

theorem kept_write_iff (h : s.Kept convId) (hl : w.call.Lays w.row w.updates)
    (hd : ∀ changes ∈ s.written, w.changes.Disjoint changes) :
    (s.write convId w).Kept convId ↔ ∀ current ∈ s.rows.byId convId, w.Fresh current := by
  unfold write
  cases hrow : s.rows.byId convId with
  | none =>
    refine iff_of_true ?_ fun current hmem => (by cases hmem)
    cases hok : s.rows.update convId w.updates with
    | error e => exact h
    | ok rows =>
      obtain rfl := StoredConversations.update_missing hrow hok
      intro row hmem
      have hmem : s.rows.byId convId = some row := hmem
      rw [hrow] at hmem
      cases hmem
  | some current =>
    obtain ⟨rows, hok, hfound⟩ := StoredConversations.update_found w.updates hrow
    have hkept := ExtraWrite.kept_iff hl (h current hrow) hd
    rw [hok]
    constructor
    · intro hnext current' hcurrent'
      obtain rfl := Option.some.inj hcurrent'
      exact hkept.mp (hnext _ hfound)
    · intro hfresh row hmem
      obtain rfl := Option.some.inj (hfound.symm.trans hmem)
      exact hkept.mpr (hfresh current rfl)

/-- What a step keeps. -/
theorem kept_fire_iff {step : ExtraStep} (h : s.Kept convId) (ha : s.admits context step) :
    (s.fire context convId step).Kept convId ↔ s.Fresh context convId step := by
  cases step with
  | read call => exact iff_of_true (kept_read h call) trivial
  | write index now =>
    cases hw : s.attempt context index now with
    | none =>
      rw [fire_write_none hw]
      refine iff_of_true h fun w hmem => ?_
      cases hw.symm.trans hmem
    | some w =>
      have hkept := kept_write_iff (s := s.finish index) h (lays_of_attempt hw) (ha w hw)
      rw [fire_write_some hw]
      constructor
      · intro hnext w' hw'
        obtain rfl := Option.some.inj (hw.symm.trans hw')
        exact hkept.mp hnext
      · intro hfresh
        exact hkept.mpr (hfresh w hw)

/-- While every write finds the extra that its call read, but for the keys of the call, no update
is lost; and the first write that does not loses one. -/
theorem keeps_every_update
    (h : ((machine context convId).restrict fun s step => s.Fresh context convId step).Reachable
      s) :
    s.Kept convId ∧ ∀ step, s.admits context step →
      ((s.fire context convId step).Kept convId ↔ s.Fresh context convId step) := by
  refine h.exact (M := machine context convId) ?_ ?_
  · rintro s ⟨rows, row, hrow, rfl⟩ row' hrow'
    obtain rfl := Option.some.inj (hrow.symm.trans hrow')
    exact Changes.kept_start
  · intro s step _ hs ha
    exact kept_fire_iff hs ha

section Execution

instance : ∀ step, Decidable (s.admits context step)
  | .read _ => .isTrue trivial
  | .write _ _ => by unfold admits; infer_instance

instance : ∀ step, Decidable (s.Fresh context convId step)
  | .read _ => .isTrue trivial
  | .write _ _ => by unfold Fresh ExtraWrite.Fresh; infer_instance

instance : ∀ s step, Decidable ((machine context convId).admits s step) :=
  fun s step => inferInstanceAs (Decidable (s.admits context step))

def sampleContext : ExtraContext := ⟨fun _ => .directory, fun _ => "unknown variant"⟩

def sampleRow : ConversationRow ExtraColumn :=
  ⟨"c", "u", "c", "acp", some (.object (AList.insert "workspace" (.text "/w") ∅)), none,
    some "finished", none, none, false, none, 0, 0⟩

def teamPatch : ExtraCall :=
  .updateExtra (.object (AList.insert "teamId" (.text "t") ∅))

def sampleRun (steps : List ExtraStep) : ExtraRun :=
  (machine sampleContext "c").run { rows := [sampleRow], opening := sampleRow.extra } steps

def overlappingRun : ExtraRun :=
  sampleRun [.read teamPatch, .read (.bindCronJobToConversation "j"), .write 1 1, .write 0 2]

def serialRun : ExtraRun :=
  sampleRun [.read teamPatch, .write 0 1, .read (.bindCronJobToConversation "j"), .write 0 2]

/-- The conversation does not know the job that was bound to it. -/
theorem binding_is_lost : ∃ s, (machine sampleContext "c").Reachable s ∧ ¬s.Kept "c" := by
  refine ⟨overlappingRun, ?_, fun hkept => ?_⟩
  · exact Machine.reachable_run ⟨[sampleRow], sampleRow, rfl, rfl⟩ (by decide +kernel)
  · have hrow : ∃ row ∈ overlappingRun.rows.byId "c",
        (orEmpty row.extra).get "cronJobId" = none := by
      decide +kernel
    have hwritten : ∃ changes ∈ overlappingRun.written,
        changes.lookup "cronJobId" = some (some (.text "j")) := by
      decide +kernel
    obtain ⟨row, hmem, hnone⟩ := hrow
    obtain ⟨changes, hchanges, hsome⟩ := hwritten
    have hvalue := (hkept row hmem).1 changes hchanges "cronJobId" _ hsome
    cases hnone.symm.trans hvalue

theorem keeps_two_updates :
    serialRun.Kept "c" ∧ ∀ step, serialRun.admits sampleContext step →
      ((serialRun.fire sampleContext "c" step).Kept "c" ↔
        serialRun.Fresh sampleContext "c" step) :=
  keeps_every_update
    (Machine.reachable_run ⟨[sampleRow], sampleRow, rfl, rfl⟩ (by decide +kernel))

end Execution

end ExtraRun

end AionCore.Conversation
