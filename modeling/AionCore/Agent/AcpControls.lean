import AionCore.Agent.AcpReports

/-!
# ACP sessions: config options for the mode and the model

A wish for a mode or a model may be kept as one for a config option, which sets it. What an
aggregate keeps of the values of such options, and when they are the mode and the model of the CLI.
-/

namespace AionCore.Agent

def HasValue (options : List SessionConfigOption) (key value : String) : Prop :=
  ∃ option ∈ options, ∃ select, option.kind.selection = some select ∧ option.id = key ∧
    select.currentValue = value

theorem TruthfulOptions.value {controls : OptionControls} {cli : PerSetting String}
    {options : List SessionConfigOption} {key value : String} {x : Setting}
    (h : TruthfulOptions controls cli options) (hvalue : HasValue options key value)
    (hx : controls key = some x) : cli.get x = value := by
  obtain ⟨option, hmem, select, hselect, rfl, rfl⟩ := hvalue
  exact (h.controlled option hmem select hselect x hx).symm

namespace AcpSession

variable (s : AcpSession) (incoming : List SessionConfigOption)

/-- The value is kept for the current one of a config option. -/
def Keeps (key value : String) : Prop :=
  s.configCurrent.lookup key = some value ∨ ∃ options ∈ s.configOptions, HasValue options key value

def Wishable (key value : String) : Prop :=
  s.configSelections.lookup key = some value ∨ (s.pendingStartupConfig ≠ [] ∧ s.Selectable key)

def keptUntold : List (String × String) :=
  ((s.mergedOptions incoming).filter fun option => option ∉ incoming).filterMap (fun option =>
    option.kind.selection.map fun select => (option.id, select.currentValue)) ++
  (s.configCurrent.entries.map fun e => (e.1, e.2)).filter fun e =>
    (s.mergedOptions incoming).all fun option => option.id = e.1 → option.kind.selection = none

/-- Where a value is kept of an option that sets the mode or the model, and may be wished, it is the
mode or the model of the CLI. -/
def Controlled (controls : OptionControls) (cli : PerSetting String) (x : Setting) : Prop :=
  ∀ key value, controls key = some x → s.Keeps key value → s.Wishable key value →
    cli.get x = value

instance (key value : String) : Decidable (s.Wishable key value) := by
  unfold Wishable Selectable
  infer_instance

variable {s incoming} {controls : OptionControls} {cli : PerSetting String} {key value : String}

theorem mem_keptUntold : (key, value) ∈ s.keptUntold incoming ↔
    (∃ option ∈ s.mergedOptions incoming, option ∉ incoming ∧ ∃ select,
      option.kind.selection = some select ∧ option.id = key ∧ select.currentValue = value) ∨
    (s.configCurrent.lookup key = some value ∧ ∀ option ∈ s.mergedOptions incoming,
      option.id = key → option.kind.selection = none) := by
  unfold keptUntold
  rw [List.mem_append, List.mem_filterMap, List.mem_filter]
  refine or_congr ⟨?_, ?_⟩ (and_congr ?_ ?_)
  · rintro ⟨option, hmem, hvalue⟩
    obtain ⟨hmem, hnew⟩ := List.mem_filter.mp hmem
    obtain ⟨select, hselect, heq⟩ := Option.map_eq_some_iff.mp hvalue
    obtain ⟨hid, hcurrent⟩ := Prod.mk.inj heq
    exact ⟨option, hmem, of_decide_eq_true hnew, select, hselect, hid, hcurrent⟩
  · rintro ⟨option, hmem, hnew, select, hselect, rfl, rfl⟩
    refine ⟨option, List.mem_filter.mpr ⟨hmem, decide_eq_true hnew⟩, ?_⟩
    rw [hselect]
    rfl
  · rw [List.mem_map]
    constructor
    · rintro ⟨e, hmem, heq⟩
      obtain ⟨rfl, rfl⟩ := Prod.mk.inj heq
      exact AList.mem_lookup_iff.mpr hmem
    · intro hlookup
      exact ⟨⟨key, value⟩, AList.mem_lookup_iff.mp hlookup, rfl⟩
  · rw [List.all_eq_true]
    exact forall₂_congr fun option _ => decide_eq_true_iff

/-- What is kept after a response is told by it, or kept untold. -/
theorem keeps_options (h : (s.applyAdvertisedConfigOptions incoming).Keeps key value) :
    HasValue incoming key value ∨ (key, value) ∈ s.keptUntold incoming := by
  have merged : HasValue (s.mergedOptions incoming) key value →
      HasValue incoming key value ∨ (key, value) ∈ s.keptUntold incoming := by
    rintro ⟨option, hmem, hvalue⟩
    by_cases hnew : option ∈ incoming
    · exact .inl ⟨option, hnew, hvalue⟩
    · exact .inr (mem_keptUntold.mpr (.inl ⟨option, hmem, hnew, hvalue⟩))
  obtain hcurrent | ⟨options, hoptions, hvalue⟩ := h
  · rw [configCurrent_options] at hcurrent
    obtain hvalue | hold := lookup_observed hcurrent
    · exact merged hvalue
    · exact .inr (mem_keptUntold.mpr (.inr hold))
  · obtain rfl := Option.some.inj (configOptions_options.symm.trans hoptions)
    exact merged hvalue

theorem keeps_of_keptUntold (h : (key, value) ∈ s.keptUntold incoming) : s.Keeps key value := by
  obtain ⟨option, hmem, hnew, hvalue⟩ | ⟨hcurrent, -⟩ := mem_keptUntold.mp h
  · obtain ⟨options, hoptions, hold⟩ | hincoming := mem_mergedOptions hmem
    · exact .inr ⟨options, hoptions, option, hold, hvalue⟩
    · exact absurd hincoming hnew
  · exact .inl hcurrent

/-- What is kept untold could be wished before. -/
theorem wishable_of_keptUntold (h : (key, value) ∈ s.keptUntold incoming)
    (hwish : (s.applyAdvertisedConfigOptions incoming).Wishable key value) :
    s.Wishable key value := by
  obtain hselected | ⟨hpending, options, hoptions, option, hmem, hid, hselect⟩ := hwish
  · rw [configSelections_options] at hselected
    exact .inl hselected
  · rw [pendingStartupConfig_options] at hpending
    obtain rfl := Option.some.inj (configOptions_options.symm.trans hoptions)
    obtain ⟨kept, hkept, hnew, select, hkind, hkey, -⟩ | ⟨-, hnone⟩ := mem_keptUntold.mp h
    · obtain ⟨options, hoptions, hold⟩ | hincoming := mem_mergedOptions hkept
      · exact .inr ⟨hpending, options, hoptions, kept, hold, hkey, hkind ▸ rfl⟩
      · exact absurd hincoming hnew
    · rw [hnone option hmem hid] at hselect
      cases hselect

theorem controlled_options {x : Setting} (htruth : TruthfulOptions controls cli incoming)
    (huntold : ∀ key value, (key, value) ∈ s.keptUntold incoming → s.Wishable key value →
      controls key = some x → cli.get x = value) :
    (s.applyAdvertisedConfigOptions incoming).Controlled controls cli x := by
  intro key value hx hkeeps hwish
  obtain hvalue | hkept := keeps_options hkeeps
  · exact htruth.value hvalue hx
  · exact huntold key value hkept (wishable_of_keptUntold hkept hwish) hx

/-- A session that is opened knows no values of options but those of the report. -/
theorem controlled_report {report : SessionReport} {preloadedMode : Option String} (x : Setting)
    (hfresh : s.configOptions = none) (hplain : s.PlainReport preloadedMode report)
    (htruth : TruthfulReport controls cli report) :
    (s.applyReport (report.withMode preloadedMode)).Controlled controls cli x := by
  rw [applyReport_withMode]
  have same : s.SameWishes (s.applyCatalogs (report.withMode preloadedMode).models
      (report.withMode preloadedMode).modes) := sameWishes_applyCatalogs _ _
  generalize s.applyCatalogs (report.withMode preloadedMode).models
    (report.withMode preloadedMode).modes = catalogs at same
  have hfresh : catalogs.configOptions = none := same.configOptions.trans hfresh
  have hunselectable : ∀ key, ¬catalogs.Selectable key := by
    rintro key ⟨options, hmem, -⟩
    cases hfresh.symm.trans hmem
  -- a preloaded value that is wished is listed
  have hlisted : ∀ key value, catalogs.configCurrent.lookup key = some value →
      catalogs.Wishable key value → s.Lists report key := by
    rintro key value hcurrent (hselected | ⟨-, hkey⟩)
    · rw [same.configCurrent] at hcurrent
      rw [same.configSelections] at hselected
      refine hplain.listed key ?_ (hselected.trans hcurrent.symm)
      exact AList.lookup_isSome.mp (by rw [hcurrent]; rfl)
    · exact absurd hkey (hunselectable key)
  cases hoptions : report.configOptions with
  | none =>
    intro key value hx hkeeps hwish
    obtain hcurrent | ⟨options, hmem, -⟩ := hkeeps
    · obtain ⟨incoming, hmem, -⟩ := hlisted key value hcurrent hwish
      cases hoptions.symm.trans hmem
    · cases hfresh.symm.trans hmem
  | some incoming =>
    refine controlled_options (htruth.options incoming hoptions) fun key value hkept hwish hx => ?_
    exfalso
    obtain ⟨option, hmem, hnew, -⟩ | ⟨hcurrent, hnone⟩ := mem_keptUntold.mp hkept
    · obtain ⟨options, hknown, -⟩ | hincoming := mem_mergedOptions hmem
      · cases hfresh.symm.trans hknown
      · exact hnew hincoming
    · obtain ⟨incoming', hmem, option, hoption, hid, hselect⟩ := hlisted key value hcurrent hwish
      obtain rfl := Option.some.inj (hoptions.symm.trans hmem)
      have hmerged : catalogs.mergedOptions incoming = s.mergedOptions incoming := by
        unfold mergedOptions
        rw [same.configOptions]
      rw [hnone option (hmerged ▸ hoption) hid] at hselect
      cases hselect

section Cleared

theorem desired_clearInvalidDesired {x y : Setting} {id : String}
    (h : (s.clearInvalidDesired y).desired.get x = some id) :
    s.desired.get x = some id ∧ (x = y → s.isValid x id = true) := by
  unfold clearInvalidDesired at h
  cases hdesired : s.desired.get y with
  | none =>
    simp only [hdesired] at h
    refine ⟨h, ?_⟩
    rintro rfl
    cases hdesired.symm.trans h
  | some wished =>
    simp only [hdesired] at h
    split at h
    · next hvalid =>
      refine ⟨h, ?_⟩
      rintro rfl
      obtain rfl := Option.some.inj (hdesired.symm.trans h)
      exact hvalid
    · rw [PerSetting.get_set] at h
      split at h
      · cases h
      · next hne => exact ⟨h, fun heq => absurd heq hne⟩

theorem selections_clearInvalidDesired (s : AcpSession) (y : Setting) :
    (s.clearInvalidDesired y).configSelections = s.configSelections ∧
      (s.clearInvalidDesired y).pendingStartupConfig = s.pendingStartupConfig := by
  unfold clearInvalidDesired
  split
  · exact ⟨rfl, rfl⟩
  · split <;> exact ⟨rfl, rfl⟩

end Cleared

end AcpSession

namespace SessionWorld

variable {w : SessionWorld} {controls : OptionControls} {cli : PerSetting String} {x : Setting}

/-- What is desired when the actions are planned is valid. -/
theorem valid_prepared {id : String} (h : w.prepared.desired.get x = some id) :
    w.prepared.isValid x id = true := by
  let resolved := w.session.resolvePendingStartupConfigSeeds w.modeNormalizer
  obtain ⟨hmode, hmodel⟩ := AcpSession.desired_clearInvalidDesired
    (s := resolved.clearInvalidDesired .mode) (y := .model) h
  have model : (resolved.clearInvalidDesired .mode).Narrows w.prepared :=
    AcpSession.narrows_clearInvalidDesired .model
  cases x with
  | model => exact (model.isValid .model id).trans (hmodel rfl)
  | mode =>
    have mode : resolved.Narrows (resolved.clearInvalidDesired .mode) :=
      AcpSession.narrows_clearInvalidDesired .mode
    have hvalid := (AcpSession.desired_clearInvalidDesired hmode).2 rfl
    exact ((mode.trans model).isValid .mode id).trans hvalid

/-- Without seeds the planning of a reconciliation leaves the config options that are wished. -/
theorem selections_prepared (h : w.session.pendingStartupConfig = []) :
    w.prepared.configSelections = w.session.configSelections ∧
      w.prepared.pendingStartupConfig = [] := by
  let resolved := w.session.resolvePendingStartupConfigSeeds w.modeNormalizer
  have hresolved : resolved = { w.session with pendingStartupConfig := [] } := by
    show w.session.pendingStartupConfig.foldl _ _ = _
    rw [h]
    rfl
  obtain ⟨hmode, hmode'⟩ := AcpSession.selections_clearInvalidDesired resolved .mode
  obtain ⟨hmodel, hmodel'⟩ :=
    AcpSession.selections_clearInvalidDesired (resolved.clearInvalidDesired .mode) .model
  have hselections : resolved.configSelections = w.session.configSelections := by rw [hresolved]
  have hpending : resolved.pendingStartupConfig = [] := by rw [hresolved]
  exact ⟨hmodel.trans (hmode.trans hselections), hmodel'.trans (hmode'.trans hpending)⟩

theorem wishable_prepared {key value : String} (h : w.prepared.Wishable key value) :
    w.session.Wishable key value := by
  by_cases hpending : w.session.pendingStartupConfig = []
  · obtain ⟨hselections, hnone⟩ := selections_prepared hpending
    obtain hselected | ⟨hsome, -⟩ := h
    · exact .inl (hselections ▸ hselected)
    · exact absurd hnone hsome
  · obtain hselected | ⟨-, hkey⟩ := h
    · obtain hselected | hkey := w.narrows_prepared.selections key value hselected
      · exact .inl hselected
      · exact .inr ⟨hpending, hkey⟩
    · exact .inr ⟨hpending, w.narrows_prepared.selectable hkey⟩

theorem controlled_prepared (h : w.session.Controlled controls cli x) :
    w.prepared.Controlled controls cli x := by
  intro key value hx hkeeps hwish
  refine h key value hx ?_ (wishable_prepared hwish)
  unfold AcpSession.Keeps at hkeeps
  rwa [w.narrows_prepared.configCurrent, w.narrows_prepared.configOptions] at hkeeps

end SessionWorld

end AionCore.Agent
