import AionCore.Agent.AcpOpening

/-!
# ACP sessions: what an aggregate takes over from a response

How the observed mode, model and config options of an aggregate follow from what the CLI reports,
where they do not, and what the planning of a reconciliation may change.
-/

namespace AionCore.Agent

namespace Setting

variable (x : Setting) (id : String) (options : List SessionConfigOption)

def optionIds : List String := AcpSession.configOptionAliasesForCategory x.category

def select : Option SessionConfigSelect := findSelect options x.optionIds x.category

def derive : Option SessionCatalog := deriveFromConfigOptions x.optionIds x.category options

/-- The aggregate takes the id for the current one of the options: it is derived so, or it is a
model that can be selected. -/
def Reads : Prop :=
  ∃ catalog ∈ x.derive options, catalog.current = id ∨ (x = .model ∧ id ∈ catalog.available)

def Shows : Prop := ∃ select ∈ x.select options, select.currentValue = id

instance : Decidable (x.Reads id options) := by unfold Reads; infer_instance

instance : Decidable (x.Shows id options) := by unfold Shows; infer_instance

instance decidableForall {P : Setting → Prop} [∀ x, Decidable (P x)] : Decidable (∀ x, P x) :=
  decidable_of_iff (P .mode ∧ P .model)
    ⟨fun h x => match x with
      | .mode => h.1
      | .model => h.2, fun h => ⟨h .mode, h .model⟩⟩

end Setting

def SessionReport.catalog (report : SessionReport) : Setting → Option SessionCatalog
  | .mode => report.modes
  | .model => report.models

namespace AcpSession

variable (s : AcpSession) (x : Setting) (incoming : List SessionConfigOption)

abbrev mergedOptions : List SessionConfigOption := mergeConfigOptions s.configOptions incoming

def Selectable (key : String) : Prop :=
  ∃ options ∈ s.configOptions, ∃ option ∈ options, option.id = key ∧ option.kind.selection.isSome

def taken (catalog : SessionCatalog) : String :=
  match x with
  | .mode => catalog.current
  | .model => (s.preserveDesiredModelInCatalog catalog).current

/-- One option of `observeConfigOptions`. -/
def observeOption (current : Dict String String) (option : SessionConfigOption) :
    Dict String String :=
  match option.kind.selection with
  | none => current
  | some select => current.insert option.id select.currentValue

section Options

variable {s x incoming} {catalog : SessionCatalog} {id key value : String}
  {options : List SessionConfigOption} {option : SessionConfigOption}

theorem observed_applyAdvertised (y : Setting) :
    (s.applyAdvertised x catalog).observed.get y =
      if y = x then some catalog.current else s.observed.get y := by
  show (s.observed.set (some catalog.current) x).get y = _
  rw [PerSetting.get_set]

theorem applyDerivedModes_none (h : Setting.mode.derive options = none) :
    s.applyDerivedModes options = s := by
  have hderive : deriveModesFromConfigOptions options = none := h
  simp only [applyDerivedModes, hderive]

theorem applyDerivedModes_some (h : Setting.mode.derive options = some catalog) :
    s.applyDerivedModes options = s.applyAdvertised .mode catalog := by
  have hderive : deriveModesFromConfigOptions options = some catalog := h
  simp only [applyDerivedModes, hderive]

theorem applyDerivedModels_none (h : Setting.model.derive options = none) :
    s.applyDerivedModels options = s := by
  have hderive : deriveModelsFromConfigOptions options = none := h
  simp only [applyDerivedModels, hderive]

theorem applyDerivedModels_some (h : Setting.model.derive options = some catalog) :
    s.applyDerivedModels options =
      s.applyAdvertised .model (s.preserveDesiredModelInCatalog catalog) := by
  have hderive : deriveModelsFromConfigOptions options = some catalog := h
  simp only [applyDerivedModels, hderive]

/-- What the derived catalogs leave: the wishes, the options and their values. -/
structure SameWishes (s s' : AcpSession) : Prop where
  desired : s'.desired = s.desired
  configSelections : s'.configSelections = s.configSelections
  pendingStartupConfig : s'.pendingStartupConfig = s.pendingStartupConfig
  configCurrent : s'.configCurrent = s.configCurrent
  configOptions : s'.configOptions = s.configOptions

theorem SameWishes.trans {s' s'' : AcpSession} (h : s.SameWishes s') (h' : s'.SameWishes s'') :
    s.SameWishes s'' :=
  ⟨h'.desired.trans h.desired, h'.configSelections.trans h.configSelections,
    h'.pendingStartupConfig.trans h.pendingStartupConfig, h'.configCurrent.trans h.configCurrent,
    h'.configOptions.trans h.configOptions⟩

theorem sameWishes_applyDerivedModes : s.SameWishes (s.applyDerivedModes options) := by
  cases h : Setting.mode.derive options with
  | none => rw [applyDerivedModes_none h]; exact ⟨rfl, rfl, rfl, rfl, rfl⟩
  | some catalog => rw [applyDerivedModes_some h]; exact ⟨rfl, rfl, rfl, rfl, rfl⟩

theorem sameWishes_applyDerivedModels : s.SameWishes (s.applyDerivedModels options) := by
  cases h : Setting.model.derive options with
  | none => rw [applyDerivedModels_none h]; exact ⟨rfl, rfl, rfl, rfl, rfl⟩
  | some catalog => rw [applyDerivedModels_some h]; exact ⟨rfl, rfl, rfl, rfl, rfl⟩

theorem sameWishes_derived :
    s.SameWishes ((s.applyDerivedModes options).applyDerivedModels options) :=
  sameWishes_applyDerivedModes.trans sameWishes_applyDerivedModels

theorem desired_options : (s.applyAdvertisedConfigOptions incoming).desired = s.desired :=
  sameWishes_derived.desired

theorem configSelections_options :
    (s.applyAdvertisedConfigOptions incoming).configSelections = s.configSelections :=
  sameWishes_derived.configSelections

theorem pendingStartupConfig_options :
    (s.applyAdvertisedConfigOptions incoming).pendingStartupConfig = s.pendingStartupConfig :=
  sameWishes_derived.pendingStartupConfig

theorem configOptions_options :
    (s.applyAdvertisedConfigOptions incoming).configOptions = some (s.mergedOptions incoming) :=
  rfl

theorem configCurrent_options :
    (s.applyAdvertisedConfigOptions incoming).configCurrent =
      (s.mergedOptions incoming).foldl observeOption s.configCurrent := by
  have hsame : ((s.applyDerivedModes (s.mergedOptions incoming)).applyDerivedModels
      (s.mergedOptions incoming)).configCurrent = s.configCurrent :=
    sameWishes_derived.configCurrent
  rw [← hsame]
  rfl

/-- What leaves a setting as it was observed and advertised. -/
structure SameSetting (x : Setting) (s s' : AcpSession) : Prop where
  observed : s'.observed.get x = s.observed.get x
  advertised : s'.advertised.get x = s.advertised.get x

theorem SameSetting.refl (x : Setting) (s : AcpSession) : SameSetting x s s := ⟨rfl, rfl⟩

theorem SameSetting.trans {s' s'' : AcpSession} (h : SameSetting x s s')
    (h' : SameSetting x s' s'') : SameSetting x s s'' :=
  ⟨h'.observed.trans h.observed, h'.advertised.trans h.advertised⟩

theorem SameSetting.isValid {s' : AcpSession} (h : SameSetting x s s') (id : String) :
    s'.isValid x id = s.isValid x id := by
  unfold AcpSession.isValid
  rw [h.advertised]

theorem sameSetting_applyAdvertised {y : Setting} (h : x ≠ y) :
    SameSetting x s (s.applyAdvertised y catalog) := by
  have get_set : ∀ {α : Type} (p : PerSetting α) (a : α), (p.set a y).get x = p.get x := by
    intro α p a
    rw [PerSetting.get_set, if_neg h]
  exact ⟨get_set _ _, get_set _ _⟩

theorem sameSetting_applyDerivedModes (h : x = .mode → Setting.mode.derive options = none) :
    SameSetting x s (s.applyDerivedModes options) := by
  cases hderive : Setting.mode.derive options with
  | none =>
    rw [applyDerivedModes_none hderive]
    exact .refl x s
  | some catalog =>
    rw [applyDerivedModes_some hderive]
    refine sameSetting_applyAdvertised fun hx => ?_
    cases hderive.symm.trans (h hx)

theorem sameSetting_applyDerivedModels (h : x = .model → Setting.model.derive options = none) :
    SameSetting x s (s.applyDerivedModels options) := by
  cases hderive : Setting.model.derive options with
  | none =>
    rw [applyDerivedModels_none hderive]
    exact .refl x s
  | some catalog =>
    rw [applyDerivedModels_some hderive]
    refine sameSetting_applyAdvertised fun hx => ?_
    cases hderive.symm.trans (h hx)

theorem sameSetting_options (h : x.derive (s.mergedOptions incoming) = none) :
    SameSetting x s (s.applyAdvertisedConfigOptions incoming) := by
  have derived : SameSetting x s ((s.applyDerivedModes (s.mergedOptions incoming)).applyDerivedModels
      (s.mergedOptions incoming)) :=
    (sameSetting_applyDerivedModes fun hx => hx ▸ h).trans
      (sameSetting_applyDerivedModels fun hx => hx ▸ h)
  exact ⟨derived.observed, derived.advertised⟩

theorem taken_applyDerivedModes :
    (s.applyDerivedModes options).taken x catalog = s.taken x catalog := by
  cases x with
  | mode => rfl
  | model =>
    have hdesired : (s.applyDerivedModes options).desired = s.desired :=
      sameWishes_applyDerivedModes.desired
    simp only [taken, preserveDesiredModelInCatalog, hdesired]

theorem observed_options_some (h : x.derive (s.mergedOptions incoming) = some catalog) :
    (s.applyAdvertisedConfigOptions incoming).observed.get x = some (s.taken x catalog) := by
  show ((s.applyDerivedModes (s.mergedOptions incoming)).applyDerivedModels
    (s.mergedOptions incoming)).observed.get x = _
  cases x with
  | mode =>
    rw [applyDerivedModes_some h]
    cases hmodel : Setting.model.derive (s.mergedOptions incoming) with
    | none => rw [applyDerivedModels_none hmodel, observed_applyAdvertised]; rfl
    | some models =>
      rw [applyDerivedModels_some hmodel, observed_applyAdvertised, observed_applyAdvertised]
      rfl
  | model =>
    have htaken : (s.applyDerivedModes (s.mergedOptions incoming)).taken .model catalog =
        s.taken .model catalog := taken_applyDerivedModes
    rw [applyDerivedModels_some h, observed_applyAdvertised, if_pos rfl, ← htaken]
    rfl

/-- A desired id is taken only from options that the aggregate reads so. -/
theorem reads_of_taken (h : x.derive options = some catalog) (hd : s.desired.get x = some id)
    (ht : s.taken x catalog = id) : x.Reads id options := by
  refine ⟨catalog, h, ?_⟩
  cases x with
  | mode => exact .inl ht
  | model =>
    have hdesired : s.desired.model = some id := hd
    simp only [taken, preserveDesiredModelInCatalog, hdesired] at ht
    split at ht
    · next hmem => exact .inr ⟨rfl, hmem⟩
    · exact .inl ht

/-- The values of the config options after a response: those of its selections, else the old. -/
theorem lookup_observed {current : Dict String String}
    (h : (options.foldl observeOption current).lookup key = some value) :
    (∃ option ∈ options, ∃ select, option.kind.selection = some select ∧ option.id = key ∧
      select.currentValue = value) ∨
    (current.lookup key = some value ∧
      ∀ option ∈ options, option.id = key → option.kind.selection = none) := by
  induction options generalizing current with
  | nil => exact .inr ⟨h, fun option hmem => (by cases hmem)⟩
  | cons option options ih =>
    obtain ⟨later, hmem, hlater⟩ | ⟨hlookup, hnone⟩ := ih h
    · exact .inl ⟨later, List.mem_cons_of_mem _ hmem, hlater⟩
    · cases hselect : option.kind.selection with
      | none =>
        simp only [observeOption, hselect] at hlookup
        refine .inr ⟨hlookup, fun later hmem hid => ?_⟩
        obtain rfl | hmem := List.mem_cons.mp hmem
        · exact hselect
        · exact hnone later hmem hid
      | some select =>
        simp only [observeOption, hselect] at hlookup
        rw [Dict.lookup_insert'] at hlookup
        by_cases hkey : key = option.id
        · rw [if_pos hkey] at hlookup
          exact .inl ⟨option, List.mem_cons_self, select, hselect, hkey.symm,
            Option.some.inj hlookup⟩
        · rw [if_neg hkey] at hlookup
          refine .inr ⟨hlookup, fun later hmem hid => ?_⟩
          obtain rfl | hmem := List.mem_cons.mp hmem
          · exact absurd hid.symm hkey
          · exact hnone later hmem hid

theorem mem_mergeConfigOption {existing : List SessionConfigOption} {added : SessionConfigOption}
    (h : option ∈ mergeConfigOption existing added) : option ∈ existing ∨ option = added := by
  induction existing with
  | nil => exact .inr (List.mem_singleton.mp h)
  | cons first rest ih =>
    unfold mergeConfigOption at h
    split at h
    · obtain rfl | h := List.mem_cons.mp h
      · exact .inr rfl
      · exact .inl (List.mem_cons_of_mem _ h)
    · obtain rfl | h := List.mem_cons.mp h
      · exact .inl List.mem_cons_self
      · obtain h | h := ih h
        · exact .inl (List.mem_cons_of_mem _ h)
        · exact .inr h

/-- Options that are merged are known ones or new ones. -/
theorem mem_mergedOptions (h : option ∈ s.mergedOptions incoming) :
    (∃ existing ∈ s.configOptions, option ∈ existing) ∨ option ∈ incoming := by
  unfold mergedOptions mergeConfigOptions at h
  cases hknown : s.configOptions with
  | none =>
    rw [hknown] at h
    exact .inr h
  | some existing =>
    rw [hknown] at h
    have fold : ∀ (added known : List SessionConfigOption),
        option ∈ added.foldl mergeConfigOption known → option ∈ known ∨ option ∈ added := by
      intro added
      induction added with
      | nil => exact fun known hmem => .inl hmem
      | cons first added ih =>
        intro known hmem
        obtain hmem | hmem := ih _ hmem
        · obtain hmem | rfl := mem_mergeConfigOption hmem
          · exact .inl hmem
          · exact .inr List.mem_cons_self
        · exact .inr (List.mem_cons_of_mem _ hmem)
    obtain hmem | hmem := fold incoming existing h
    · exact .inl ⟨existing, rfl, hmem⟩
    · exact .inr hmem

end Options

section Planning

variable {s s' s'' : AcpSession} {x : Setting}

/-- The planning of a reconciliation gives up wishes, and adds only config options that can be
selected. -/
structure Narrows (s s' : AcpSession) : Prop where
  observed : s'.observed = s.observed
  advertised : s'.advertised = s.advertised
  configCurrent : s'.configCurrent = s.configCurrent
  configOptions : s'.configOptions = s.configOptions
  desired : ∀ x id, s'.desired.get x = some id → s.desired.get x = some id
  selections : ∀ key value, s'.configSelections.lookup key = some value →
    s.configSelections.lookup key = some value ∨ s.Selectable key

theorem Narrows.refl (s : AcpSession) : s.Narrows s :=
  ⟨rfl, rfl, rfl, rfl, fun _ _ h => h, fun _ _ h => .inl h⟩

theorem Narrows.selectable (h : s.Narrows s') {key : String} (hkey : s'.Selectable key) :
    s.Selectable key := by
  unfold Selectable at hkey ⊢
  rwa [h.configOptions] at hkey

theorem Narrows.trans (h : s.Narrows s') (h' : s'.Narrows s'') : s.Narrows s'' where
  observed := h'.observed.trans h.observed
  advertised := h'.advertised.trans h.advertised
  configCurrent := h'.configCurrent.trans h.configCurrent
  configOptions := h'.configOptions.trans h.configOptions
  desired := fun x id hid => h.desired x id (h'.desired x id hid)
  selections := by
    intro key value hlookup
    obtain hlookup | hkey := h'.selections key value hlookup
    · exact h.selections key value hlookup
    · exact .inr (h.selectable hkey)

theorem narrows_clearDesired (x : Setting) :
    s.Narrows { s with desired := s.desired.set none x } := by
  refine ⟨rfl, rfl, rfl, rfl, fun y id h => ?_, fun _ _ h => .inl h⟩
  have hget : (s.desired.set none x).get y = some id := h
  rw [PerSetting.get_set] at hget
  split at hget
  · cases hget
  · exact hget

theorem narrows_clearInvalidDesired (x : Setting) : s.Narrows (s.clearInvalidDesired x) := by
  unfold clearInvalidDesired
  split
  · exact .refl s
  · split
    · exact .refl s
    · exact narrows_clearDesired x

theorem narrows_seedPendingStartupConfig (category : SessionConfigOptionCategory)
    (value : String) : s.Narrows (s.seedPendingStartupConfig category value) := by
  unfold seedPendingStartupConfig
  split
  · exact .refl s
  · exact ⟨rfl, rfl, rfl, rfl, fun _ _ h => h, fun _ _ h => .inl h⟩

theorem narrows_clearLegacyDesired (category : SessionConfigOptionCategory) :
    s.Narrows (s.clearLegacyDesiredForConfigCategory category) := by
  cases category with
  | mode => exact narrows_clearDesired .mode
  | model => exact narrows_clearDesired .model
  | _ => exact .refl s

theorem narrows_handleUnresolved (seed : PendingStartupConfigSeed) (advertised : Bool) :
    s.Narrows (s.handleUnresolvedStartupConfigSeed seed advertised) := by
  obtain ⟨category, value⟩ := seed
  cases category with
  | mode =>
    cases advertised with
    | true => exact narrows_clearLegacyDesired .mode
    | false => exact .refl s
  | model =>
    cases advertised with
    | true => exact narrows_clearLegacyDesired .model
    | false => exact .refl s
  | thoughtLevel =>
    cases advertised with
    | true => exact .refl s
    | false => exact narrows_seedPendingStartupConfig .thoughtLevel value
  | other name => exact .refl s

theorem narrows_setDesiredConfig {key : String} (h : s.Selectable key) (value : String) :
    s.Narrows (s.setDesiredConfig key value) := by
  refine ⟨rfl, rfl, rfl, rfl, fun _ _ h => h, fun key' value' hlookup => ?_⟩
  have hinsert : (s.configSelections.insert key value).lookup key' = some value' := hlookup
  rw [Dict.lookup_insert'] at hinsert
  by_cases hkey : key' = key
  · exact .inr (hkey ▸ h)
  · rw [if_neg hkey] at hinsert
    exact .inl hinsert

theorem selection_of_mem_values {kind : SessionConfigKind} {value : String}
    (h : value ∈ kind.values) : kind.selection.isSome = true := by
  unfold SessionConfigKind.values at h
  cases hselection : kind.selection with
  | none =>
    rw [hselection] at h
    cases h
  | some select => rfl

theorem selectable_of_startupSeed {category : SessionConfigOptionCategory}
    {option : SessionConfigOption} {value : String}
    (h : s.configOptions.bind (selectOptionForStartupSeed · category) = some option)
    (hvalue : value ∈ option.kind.values) : s.Selectable option.id := by
  obtain ⟨options, hoptions, hselect⟩ := Option.bind_eq_some_iff.mp h
  have hmem : option ∈ options := by
    unfold selectOptionForStartupSeed at hselect
    obtain hfound | ⟨-, hfound⟩ := Option.or_eq_some_iff.mp hselect
    · exact List.mem_of_find?_eq_some hfound
    · exact List.mem_of_find?_eq_some hfound
  exact ⟨options, hoptions, option, hmem, rfl, selection_of_mem_values hvalue⟩

section

variable (modeNormalizer : String → List String → String)
include modeNormalizer

theorem narrows_resolveStartupConfigSeed (seed : PendingStartupConfigSeed) :
    s.Narrows (s.resolveStartupConfigSeed modeNormalizer seed) := by
  unfold resolveStartupConfigSeed
  cases hoption : s.configOptions.bind (selectOptionForStartupSeed · seed.category) with
  | none => exact narrows_handleUnresolved seed false
  | some option =>
    dsimp only
    split
    · next hvalue =>
      have hclear : s.Narrows (s.clearLegacyDesiredForConfigCategory seed.category) :=
        narrows_clearLegacyDesired seed.category
      refine hclear.trans (narrows_setDesiredConfig ?_ _)
      unfold Selectable
      rw [hclear.configOptions]
      exact selectable_of_startupSeed hoption hvalue
    · exact narrows_handleUnresolved seed true

theorem narrows_resolveSeeds (seeds : List PendingStartupConfigSeed) (s : AcpSession) :
    s.Narrows (seeds.foldl (fun s seed => s.resolveStartupConfigSeed modeNormalizer seed) s) := by
  induction seeds generalizing s with
  | nil => exact .refl s
  | cons seed seeds ih => exact (narrows_resolveStartupConfigSeed modeNormalizer seed).trans (ih _)

theorem narrows_resolvePendingStartupConfigSeeds :
    s.Narrows (s.resolvePendingStartupConfigSeeds modeNormalizer) := by
  have cleared : s.Narrows { s with pendingStartupConfig := [] } :=
    ⟨rfl, rfl, rfl, rfl, fun _ _ h => h, fun _ _ h => .inl h⟩
  exact cleared.trans (narrows_resolveSeeds modeNormalizer s.pendingStartupConfig _)

end

def GivesUp (s : AcpSession) (options : List SessionConfigOption) (x : Setting) : Prop :=
  ∃ seed ∈ s.pendingStartupConfig, seed.category = x.category ∧
    (selectOptionForStartupSeed options x.category).isSome

instance (s : AcpSession) (options : List SessionConfigOption) (x : Setting) :
    Decidable (s.GivesUp options x) := by
  unfold GivesUp
  infer_instance

theorem Narrows.desired_none (h : s.Narrows s') (hnone : s.desired.get x = none) :
    s'.desired.get x = none := by
  cases hdesired : s'.desired.get x with
  | none => rfl
  | some id => cases hnone.symm.trans (h.desired x id hdesired)

variable {modeNormalizer : String → List String → String}

theorem desired_resolveStartupConfigSeed {options : List SessionConfigOption}
    {seed : PendingStartupConfigSeed} (hoptions : s.configOptions = some options)
    (hcategory : seed.category = x.category)
    (hfound : (selectOptionForStartupSeed options x.category).isSome) :
    (s.resolveStartupConfigSeed modeNormalizer seed).desired.get x = none := by
  obtain ⟨option, hoption⟩ := Option.isSome_iff_exists.mp hfound
  have hselect : s.configOptions.bind (selectOptionForStartupSeed · seed.category) =
      some option := by
    rw [hoptions, hcategory]
    exact hoption
  simp only [resolveStartupConfigSeed, hselect]
  obtain ⟨category, value⟩ := seed
  obtain rfl : category = x.category := hcategory
  split
  · cases x <;> rfl
  · cases x <;> rfl

/-- What a seed takes the place of is desired no more. -/
theorem desired_of_givesUp {options : List SessionConfigOption}
    (hoptions : s.configOptions = some options) (h : s.GivesUp options x) :
    (s.resolvePendingStartupConfigSeeds modeNormalizer).desired.get x = none := by
  obtain ⟨seed, hmem, hcategory, hfound⟩ := h
  have fold : ∀ (seeds : List PendingStartupConfigSeed) (t : AcpSession),
      t.configOptions = some options → seed ∈ seeds →
      (seeds.foldl (fun s seed => s.resolveStartupConfigSeed modeNormalizer seed) t).desired.get x =
        none := by
    intro seeds
    induction seeds with
    | nil => exact fun _ _ hmem => (by cases hmem)
    | cons first seeds ih =>
      intro t ht hmem
      have hnext := (narrows_resolveStartupConfigSeed (s := t) modeNormalizer first).configOptions
      obtain rfl | hmem := List.mem_cons.mp hmem
      · exact (narrows_resolveSeeds modeNormalizer seeds _).desired_none
          (desired_resolveStartupConfigSeed ht hcategory hfound)
      · exact ih _ (hnext.trans ht) hmem
  exact fold s.pendingStartupConfig _ hoptions hmem

end Planning

end AcpSession

theorem SessionWorld.narrows_prepared (w : SessionWorld) : w.session.Narrows w.prepared :=
  ((AcpSession.narrows_resolvePendingStartupConfigSeeds _).trans
    (AcpSession.narrows_clearInvalidDesired .mode)).trans
    (AcpSession.narrows_clearInvalidDesired .model)

abbrev OptionControls := String → Option Setting

/-- What a process of the CLI reported or acknowledged: modes and models, and the values of config
options. -/
structure Heard where
  settings : List (Setting × String) := []
  config : List (String × String) := []

namespace Heard

variable (heard : Heard)

def addOptions (options : List SessionConfigOption) : Heard where
  settings := heard.settings ++ [Setting.mode, .model].filterMap fun x =>
    (x.select options).map fun select => (x, select.currentValue)
  config := heard.config ++ options.filterMap fun option =>
    option.kind.selection.map fun select => (option.id, select.currentValue)

def addCatalogs (report : SessionReport) : Heard :=
  { heard with
    settings := heard.settings ++ [Setting.mode, .model].filterMap fun x =>
      (report.catalog x).map fun catalog => (x, catalog.current) }

def addReport (report : SessionReport) : Heard :=
  match report.configOptions with
  | none => heard.addCatalogs report
  | some options => (heard.addCatalogs report).addOptions options

variable {heard} {x : Setting} {id key value : String} {options : List SessionConfigOption}
  {report : SessionReport}

theorem mem_settings_addOptions (h : (x, id) ∈ heard.settings) :
    (x, id) ∈ (heard.addOptions options).settings := List.mem_append_left _ h

theorem mem_config_addOptions (h : (key, value) ∈ heard.config) :
    (key, value) ∈ (heard.addOptions options).config := List.mem_append_left _ h

theorem mem_settings_of_shows (h : x.Shows id options) :
    (x, id) ∈ (heard.addOptions options).settings := by
  obtain ⟨select, hselect, rfl⟩ := h
  refine List.mem_append_right _ (List.mem_filterMap.mpr ⟨x, ?_, ?_⟩)
  · cases x <;> decide
  · rw [Option.mem_def.mp hselect]
    rfl

theorem mem_config_of_mem {option : SessionConfigOption} {select : SessionConfigSelect}
    (h : option ∈ options) (hselect : option.kind.selection = some select) :
    (option.id, select.currentValue) ∈ (heard.addOptions options).config := by
  refine List.mem_append_right _ (List.mem_filterMap.mpr ⟨option, h, ?_⟩)
  rw [hselect]
  rfl

theorem mem_settings_of_catalog {catalog : SessionCatalog}
    (h : report.catalog x = some catalog) :
    (x, catalog.current) ∈ (heard.addCatalogs report).settings := by
  refine List.mem_append_right _ (List.mem_filterMap.mpr ⟨x, ?_, ?_⟩)
  · cases x <;> decide
  · rw [h]
    rfl

end Heard

section Truth

variable (controls : OptionControls) (cli : PerSetting String)

/-- The options show the mode and the model that the CLI has: those that are found for the setting,
and those that set it. -/
structure TruthfulOptions (options : List SessionConfigOption) : Prop where
  shown : ∀ x : Setting, ∀ select ∈ x.select options, select.currentValue = cli.get x
  controlled : ∀ option ∈ options, ∀ select ∈ option.kind.selection, ∀ x ∈ controls option.id,
    select.currentValue = cli.get x

structure TruthfulReport (report : SessionReport) : Prop where
  catalogs : ∀ x, ∀ catalog ∈ report.catalog x, catalog.current = cli.get x
  options : ∀ options ∈ report.configOptions, TruthfulOptions controls cli options

instance (options : List SessionConfigOption) :
    Decidable (TruthfulOptions controls cli options) :=
  decidable_of_iff (_ ∧ _) ⟨fun h => ⟨h.1, h.2⟩, fun h => ⟨h.shown, h.controlled⟩⟩

instance (report : SessionReport) : Decidable (TruthfulReport controls cli report) :=
  decidable_of_iff (_ ∧ _) ⟨fun h => ⟨h.1, h.2⟩, fun h => ⟨h.catalogs, h.options⟩⟩

end Truth

namespace AcpSession

variable (s : AcpSession)

/-- The aggregate takes the id for the current one after the options: it reads it from them, or they
tell nothing of the setting and it did so before. -/
def Takes (x : Setting) (id : String) (incoming : List SessionConfigOption) : Prop :=
  x.Reads id (s.mergedOptions incoming) ∨
    (x.derive (s.mergedOptions incoming) = none ∧ s.observed.get x = some id)

instance (x : Setting) (id : String) (incoming : List SessionConfigOption) :
    Decidable (s.Takes x id incoming) := by
  unfold Takes
  infer_instance

def UntoldByOptions (report : SessionReport) (x : Setting) : Prop :=
  ∀ incoming ∈ report.configOptions, x.derive (s.mergedOptions incoming) = none

def Lists (report : SessionReport) (key : String) : Prop :=
  ∃ incoming ∈ report.configOptions, ∃ option ∈ s.mergedOptions incoming,
    option.id = key ∧ option.kind.selection.isSome

instance (report : SessionReport) (x : Setting) : Decidable (s.UntoldByOptions report x) := by
  unfold UntoldByOptions
  infer_instance

instance (report : SessionReport) (key : String) : Decidable (s.Lists report key) := by
  unfold Lists
  infer_instance

def StandsAfter (report : SessionReport) (x : Setting) : Prop :=
  ∀ incoming ∈ report.configOptions, ¬s.GivesUp (s.mergedOptions incoming) x

instance (report : SessionReport) (x : Setting) : Decidable (s.StandsAfter report x) := by
  unfold StandsAfter
  infer_instance

/-- What is preloaded is taken for the state of the CLI only where the report says so: a desired
mode or model is read from options or a catalog that show it, and every config option is listed whose
preloaded value is desired. -/
structure PlainReport (preloadedMode : Option String) (report : SessionReport) : Prop where
  options : ∀ incoming ∈ report.configOptions, ∀ x, s.StandsAfter report x →
    ∀ id ∈ s.desired.get x, x.Reads id (s.mergedOptions incoming) → x.Shows id incoming
  told : ∀ x, s.StandsAfter report x → s.UntoldByOptions report x → report.catalog x = none →
    ∀ id ∈ s.desired.get x, s.isValid x id = true → s.observed.get x ≠ some id
  kept : s.StandsAfter report .mode → s.UntoldByOptions report .mode → ∀ catalog ∈ report.modes,
    ∀ id ∈ s.desired.get .mode, (s.applyAdvertised .mode catalog).isValid .mode id = true →
      preloadedMode = some id → catalog.current = id
  listed : ∀ key ∈ s.configCurrent.keys,
    s.configSelections.lookup key = s.configCurrent.lookup key → s.Lists report key

def OptionsHeard (heard : Heard) : Prop :=
  ∀ options ∈ s.configOptions, ∀ option ∈ options, ∀ select,
    option.kind.selection = some select → (option.id, select.currentValue) ∈ heard.config

/-- Where a wish is taken for fulfilled it is: the CLI has the mode and the model, and all of it was
heard. -/
structure Honest (cli : PerSetting String) (heard : Heard) : Prop where
  settings : ∀ x id, s.desired.get x = some id → s.observed.get x = some id →
    cli.get x = id ∧ (x, id) ∈ heard.settings
  config : ∀ key value, s.configCurrent.lookup key = some value →
    s.configSelections.lookup key = some value ∨ s.Selectable key → (key, value) ∈ heard.config
  options : s.OptionsHeard heard

/-- The same before the actions are planned, for the wishes that are kept then. -/
structure Reported (cli : PerSetting String) (heard : Heard) : Prop where
  settings : ∀ x id, s.desired.get x = some id → s.isValid x id = true →
    (∀ options ∈ s.configOptions, ¬s.GivesUp options x) → s.observed.get x = some id →
      cli.get x = id ∧ (x, id) ∈ heard.settings
  config : ∀ key value, s.configCurrent.lookup key = some value →
    s.configSelections.lookup key = some value ∨ s.Selectable key → (key, value) ∈ heard.config
  options : s.OptionsHeard heard

variable {s} {controls : OptionControls} {cli : PerSetting String} {heard : Heard}
  {incoming : List SessionConfigOption} {report : SessionReport}

theorem Narrows.isValid {s' : AcpSession} (h : s.Narrows s') (x : Setting) (id : String) :
    s'.isValid x id = s.isValid x id := by
  unfold AcpSession.isValid
  rw [h.advertised]

theorem optionsHeard_options (h : s.OptionsHeard heard) :
    (s.applyAdvertisedConfigOptions incoming).OptionsHeard (heard.addOptions incoming) := by
  intro options hmem option hoption select hselect
  obtain rfl := Option.some.inj (configOptions_options.symm.trans hmem)
  obtain ⟨existing, hexisting, hold⟩ | hnew := mem_mergedOptions hoption
  · exact Heard.mem_config_addOptions (h existing hexisting option hold select hselect)
  · exact Heard.mem_config_of_mem hnew hselect

/-- What the aggregate takes over from options that are truthful, where what it takes for fulfilled
is shown or was so before. -/
theorem reported_options (hheard : s.OptionsHeard heard)
    (htruth : TruthfulOptions controls cli incoming)
    (htaken : ∀ x id, s.desired.get x = some id →
      (x.derive (s.mergedOptions incoming) = none → s.isValid x id = true) →
      ¬s.GivesUp (s.mergedOptions incoming) x → s.Takes x id incoming →
        x.Shows id incoming ∨ (cli.get x = id ∧ (x, id) ∈ heard.settings))
    (hconfig : ∀ key value, s.configCurrent.lookup key = some value →
      s.configSelections.lookup key = some value →
      (∃ option ∈ s.mergedOptions incoming, option.id = key ∧ option.kind.selection.isSome) ∨
        (key, value) ∈ heard.config) :
    (s.applyAdvertisedConfigOptions incoming).Reported cli (heard.addOptions incoming) where
  settings := by
    intro x id hdesired hvalid hstands hobserved
    rw [desired_options] at hdesired
    have stands : ¬s.GivesUp (s.mergedOptions incoming) x := by
      have h := hstands _ configOptions_options
      unfold GivesUp at h ⊢
      rwa [pendingStartupConfig_options] at h
    have taken : s.Takes x id incoming ∧
        (x.derive (s.mergedOptions incoming) = none → s.isValid x id = true) := by
      cases hderive : x.derive (s.mergedOptions incoming) with
      | none =>
        have same := sameSetting_options hderive
        rw [same.observed] at hobserved
        rw [same.isValid] at hvalid
        exact ⟨.inr ⟨hderive, hobserved⟩, fun _ => hvalid⟩
      | some catalog =>
        rw [observed_options_some hderive] at hobserved
        exact ⟨.inl (reads_of_taken hderive hdesired (Option.some.inj hobserved)),
          fun h => (by cases h)⟩
    obtain ⟨select, hselect, hcurrent⟩ | ⟨hcli, hmem⟩ := htaken x id hdesired taken.2 stands taken.1
    · exact ⟨(htruth.shown x select hselect).symm.trans hcurrent,
        Heard.mem_settings_of_shows ⟨select, hselect, hcurrent⟩⟩
    · exact ⟨hcli, Heard.mem_settings_addOptions hmem⟩
  config := by
    intro key value hcurrent hwish
    have hall : (s.applyAdvertisedConfigOptions incoming).OptionsHeard
        (heard.addOptions incoming) := optionsHeard_options hheard
    rw [configCurrent_options] at hcurrent
    obtain ⟨option, hmem, select, hselect, rfl, rfl⟩ | ⟨hold, hnone⟩ := lookup_observed hcurrent
    · exact hall _ configOptions_options option hmem select hselect
    · have hunlisted : ¬∃ option ∈ s.mergedOptions incoming,
          option.id = key ∧ option.kind.selection.isSome = true := by
        rintro ⟨option, hmem, hid, hsome⟩
        rw [hnone option hmem hid] at hsome
        cases hsome
      obtain hselected | hkey := hwish
      · rw [configSelections_options] at hselected
        obtain hlisted | hmem := hconfig key value hold hselected
        · exact absurd hlisted hunlisted
        · exact Heard.mem_config_addOptions hmem
      · obtain ⟨options, hoptions, hlisted⟩ := hkey
        obtain rfl := Option.some.inj (configOptions_options.symm.trans hoptions)
        exact absurd hlisted hunlisted
  options := optionsHeard_options hheard

def applyCatalogs (s : AcpSession) (models modes : Option SessionCatalog) : AcpSession :=
  (s.applyReportedModels models).applyReportedModes modes

theorem sameWishes_applyReportedModels (models : Option SessionCatalog) :
    s.SameWishes (s.applyReportedModels models) := by
  cases models <;> exact ⟨rfl, rfl, rfl, rfl, rfl⟩

theorem sameWishes_applyReportedModes (modes : Option SessionCatalog) :
    s.SameWishes (s.applyReportedModes modes) := by
  cases modes <;> exact ⟨rfl, rfl, rfl, rfl, rfl⟩

theorem sameWishes_applyCatalogs (models modes : Option SessionCatalog) :
    s.SameWishes (s.applyCatalogs models modes) :=
  (sameWishes_applyReportedModels models).trans (sameWishes_applyReportedModes modes)

/-- A setting that the catalogs do not tell is left, else the current one is taken over. -/
theorem sameSetting_applyCatalogs {x : Setting} (models modes : Option SessionCatalog)
    (h : (SessionReport.mk models modes none).catalog x = none) :
    SameSetting x s (s.applyCatalogs models modes) := by
  cases x with
  | mode =>
    obtain rfl : modes = none := h
    cases models <;> exact ⟨rfl, rfl⟩
  | model =>
    obtain rfl : models = none := h
    cases modes <;> exact ⟨rfl, rfl⟩

theorem observed_applyCatalogs {x : Setting} {models modes : Option SessionCatalog}
    {catalog : SessionCatalog}
    (h : (SessionReport.mk models modes none).catalog x = some catalog) :
    (s.applyCatalogs models modes).observed.get x = some catalog.current := by
  cases x with
  | mode =>
    obtain rfl : modes = some catalog := h
    cases models <;> rfl
  | model =>
    obtain rfl : models = some catalog := h
    cases modes <;> rfl

theorem isValid_applyCatalogs_mode (models : Option SessionCatalog) (catalog : SessionCatalog)
    (current id : String) :
    (s.applyCatalogs models (some { catalog with current })).isValid .mode id =
      (s.applyAdvertised .mode catalog).isValid .mode id := by
  have preserved : ∀ t : AcpSession, t.advertised.mode = s.advertised.mode →
      (t.applyAdvertised .mode { catalog with current }).isValid .mode id =
        (s.applyAdvertised .mode catalog).isValid .mode id := by
    intro t h
    have hget : t.advertised.get .mode = s.advertised.get .mode := h
    simp only [isValid, applyAdvertised, preserveExistingCatalogIfEmpty, PerSetting.get_set, hget]
    by_cases hempty : catalog.available = [] <;> simp only [hempty, if_true, if_false]
  cases models with
  | none => exact preserved s rfl
  | some models => exact preserved (s.applyAdvertised .model models) rfl

theorem catalog_withMode_model (preloadedMode : Option String) :
    (report.withMode preloadedMode).catalog .model = report.catalog .model := by
  cases preloadedMode <;> rfl

theorem catalog_withMode_mode (preloadedMode : Option String) :
    (report.withMode preloadedMode).catalog .mode = (report.catalog .mode).map fun catalog =>
      { catalog with current := preloadedMode.getD catalog.current } := by
  cases preloadedMode with
  | none =>
    show report.modes = report.modes.map id
    rw [Option.map_id, id]
  | some mode => rfl

variable {preloadedMode : Option String}

/-- What the catalogs of a report show of a setting that its options do not tell. -/
theorem PlainReport.catalogs (h : s.PlainReport preloadedMode report)
    (htruth : TruthfulReport controls cli report) {x : Setting} {id : String}
    (hstands : s.StandsAfter report x) (huntold : s.UntoldByOptions report x)
    (hdesired : s.desired.get x = some id)
    (hvalid : (s.applyCatalogs (report.withMode preloadedMode).models
      (report.withMode preloadedMode).modes).isValid x id = true)
    (hobserved : (s.applyCatalogs (report.withMode preloadedMode).models
      (report.withMode preloadedMode).modes).observed.get x = some id) :
    cli.get x = id ∧ (x, id) ∈ (heard.addCatalogs report).settings := by
  have told : ∀ catalog, report.catalog x = some catalog → catalog.current = id →
      cli.get x = id ∧ (x, id) ∈ (heard.addCatalogs report).settings := by
    rintro catalog hcatalog rfl
    exact ⟨(htruth.catalogs x catalog hcatalog).symm, Heard.mem_settings_of_catalog hcatalog⟩
  generalize hmodels : (report.withMode preloadedMode).models = models at hvalid hobserved
  generalize hmodes : (report.withMode preloadedMode).modes = modes at hvalid hobserved
  have applied : ∀ y, (SessionReport.mk models modes none).catalog y =
      (report.withMode preloadedMode).catalog y := by
    intro y
    cases y with
    | mode => exact hmodes.symm
    | model => exact hmodels.symm
  cases hcatalog : report.catalog x with
  | none =>
    -- what was preloaded stays
    have same : SameSetting x s (s.applyCatalogs models modes) := by
      refine sameSetting_applyCatalogs models modes ((applied x).trans ?_)
      cases x with
      | mode => rw [catalog_withMode_mode, hcatalog, Option.map_none]
      | model => rw [catalog_withMode_model, hcatalog]
    rw [same.observed] at hobserved
    rw [same.isValid] at hvalid
    exact absurd hobserved (h.told x hstands huntold hcatalog id hdesired hvalid)
  | some catalog =>
    refine told catalog hcatalog ?_
    cases x with
    | model =>
      have hreported := (applied .model).trans ((catalog_withMode_model _).trans hcatalog)
      rw [observed_applyCatalogs hreported] at hobserved
      exact Option.some.inj hobserved
    | mode =>
      have hreported := (applied .mode).trans (catalog_withMode_mode preloadedMode)
      rw [hcatalog, Option.map_some] at hreported
      rw [observed_applyCatalogs hreported] at hobserved
      have hcurrent : preloadedMode.getD catalog.current = id := Option.some.inj hobserved
      cases preloadedMode with
      | none => exact hcurrent
      | some mode =>
        obtain rfl : mode = id := hcurrent
        obtain rfl : modes = some { catalog with current := mode } := hreported
        rw [isValid_applyCatalogs_mode] at hvalid
        exact h.kept hstands huntold catalog hcatalog mode hdesired hvalid rfl

theorem applyReport_withMode (preloadedMode : Option String) :
    s.applyReport (report.withMode preloadedMode) =
      (s.applyCatalogs (report.withMode preloadedMode).models
        (report.withMode preloadedMode).modes).applyReportedConfigOptions report.configOptions := by
  cases preloadedMode <;> rfl

/-- What the aggregate takes over from a truthful report, where it does so plainly. -/
theorem reported_report (hfresh : s.configOptions = none)
    (hplain : s.PlainReport preloadedMode report) (htruth : TruthfulReport controls cli report) :
    (s.applyReport (report.withMode preloadedMode)).Reported cli (heard.addReport report) := by
  rw [applyReport_withMode]
  have same : s.SameWishes (s.applyCatalogs (report.withMode preloadedMode).models
      (report.withMode preloadedMode).modes) := sameWishes_applyCatalogs _ _
  have rest : ∀ x id, s.StandsAfter report x → s.UntoldByOptions report x →
      s.desired.get x = some id →
      (s.applyCatalogs (report.withMode preloadedMode).models
        (report.withMode preloadedMode).modes).isValid x id = true →
      (s.applyCatalogs (report.withMode preloadedMode).models
        (report.withMode preloadedMode).modes).observed.get x = some id →
      cli.get x = id ∧ (x, id) ∈ (heard.addCatalogs report).settings :=
    fun x id hstands huntold hdesired hvalid hobserved =>
      hplain.catalogs htruth hstands huntold hdesired hvalid hobserved
  generalize s.applyCatalogs (report.withMode preloadedMode).models
    (report.withMode preloadedMode).modes = catalogs at same rest
  have hfresh : catalogs.configOptions = none := same.configOptions.trans hfresh
  have hknown : catalogs.OptionsHeard (heard.addCatalogs report) := by
    intro options hmem
    cases hfresh.symm.trans hmem
  have hlisted : ∀ key value, catalogs.configCurrent.lookup key = some value →
      catalogs.configSelections.lookup key = some value → s.Lists report key := by
    intro key value hcurrent hselected
    rw [same.configCurrent] at hcurrent
    rw [same.configSelections] at hselected
    refine hplain.listed key ?_ (hselected.trans hcurrent.symm)
    exact AList.lookup_isSome.mp (by rw [hcurrent]; rfl)
  unfold Heard.addReport
  cases hoptions : report.configOptions with
  | none =>
    refine ⟨fun x id hdesired hvalid _ hobserved => ?_, fun key value hcurrent hwish => ?_, hknown⟩
    · have none : ∀ incoming, incoming ∉ report.configOptions := by
        intro incoming hmem
        cases hoptions.symm.trans hmem
      exact rest x id (fun incoming hmem => absurd hmem (none incoming))
        (fun incoming hmem => absurd hmem (none incoming)) (same.desired ▸ hdesired) hvalid hobserved
    · obtain hselected | ⟨options, hmem, -⟩ := hwish
      · obtain ⟨incoming, hmem, -⟩ := hlisted key value hcurrent hselected
        cases hoptions.symm.trans hmem
      · cases hfresh.symm.trans hmem
  | some incoming =>
    have hmerged : catalogs.mergedOptions incoming = s.mergedOptions incoming := by
      unfold mergedOptions
      rw [same.configOptions]
    refine reported_options hknown (htruth.options incoming hoptions) ?_ ?_
    · intro x id hdesired hvalid hgives htaken
      rw [same.desired] at hdesired
      unfold Takes at htaken
      unfold GivesUp at hgives
      rw [hmerged] at hvalid htaken hgives
      rw [same.pendingStartupConfig] at hgives
      have stands : s.StandsAfter report x := by
        intro incoming' hincoming'
        obtain rfl := Option.some.inj (hoptions.symm.trans hincoming')
        exact hgives
      obtain hreads | ⟨hderive, hobserved⟩ := htaken
      · exact .inl (hplain.options incoming hoptions x stands id hdesired hreads)
      · refine .inr (rest x id stands (fun incoming' hincoming' => ?_) hdesired (hvalid hderive)
          hobserved)
        obtain rfl := Option.some.inj (hoptions.symm.trans hincoming')
        exact hderive
    · intro key value hcurrent hselected
      obtain ⟨incoming', hmem, hoption⟩ := hlisted key value hcurrent hselected
      obtain rfl := Option.some.inj (hoptions.symm.trans hmem)
      rw [hmerged]
      exact .inl hoption

end AcpSession

end AionCore.Agent
