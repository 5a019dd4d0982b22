import AionCore.Agent.AcpControls

/-!
# ACP sessions: planned actions

The actions that `plan_reconcile` yields, and what is left to be done of them: from what it takes for
fulfilled it follows which actions bring the CLI to the mode and the model that are desired.
-/

namespace AionCore.Agent

def acceptedSettings (controls : OptionControls) (cli : PerSetting String) (value : String) :
    ReconcileAction → PerSetting String
  | .setMode _ => cli.set value .mode
  | .setModel _ => cli.set value .model
  | .setConfigOption key _ =>
    match controls key with
    | none => cli
    | some x => cli.set value x

namespace Heard

variable (heard : Heard)

def addAccepted (controls : OptionControls) (value : String) : ReconcileAction → Heard
  | .setMode _ => { heard with settings := heard.settings ++ [(.mode, value)] }
  | .setModel _ => { heard with settings := heard.settings ++ [(.model, value)] }
  | .setConfigOption key _ =>
    { settings := heard.settings ++ (controls key).toList.map fun x => (x, value)
      config := heard.config ++ [(key, value)] }

/-- More was heard. -/
structure Grows (heard' : Heard) : Prop where
  settings : ∀ e ∈ heard.settings, e ∈ heard'.settings
  config : ∀ e ∈ heard.config, e ∈ heard'.config

variable {heard} {heard' heard'' : Heard}

theorem Grows.trans (h : heard.Grows heard') (h' : heard'.Grows heard'') : heard.Grows heard'' :=
  ⟨fun e he => h'.settings e (h.settings e he), fun e he => h'.config e (h.config e he)⟩

theorem grows_addOptions (options : List SessionConfigOption) :
    heard.Grows (heard.addOptions options) :=
  ⟨fun _ => List.mem_append_left _, fun _ => List.mem_append_left _⟩

theorem grows_addReport (report : SessionReport) : heard.Grows (heard.addReport report) := by
  have catalogs : heard.Grows (heard.addCatalogs report) :=
    ⟨fun _ => List.mem_append_left _, fun _ h => h⟩
  unfold addReport
  split
  · exact catalogs
  · exact catalogs.trans (grows_addOptions _)

theorem grows_addAccepted (controls : OptionControls) (value : String) (action : ReconcileAction) :
    heard.Grows (heard.addAccepted controls value action) := by
  cases action with
  | setMode mode | setModel model => exact ⟨fun _ => List.mem_append_left _, fun _ h => h⟩
  | setConfigOption key wished =>
    exact ⟨fun _ => List.mem_append_left _, fun _ => List.mem_append_left _⟩

end Heard

theorem acceptedSettings_ofSetting (controls : OptionControls) (cli : PerSetting String)
    (value : String) (x : Setting) (id : String) :
    acceptedSettings controls cli value (.ofSetting x id) = cli.set value x := by
  cases x <;> rfl

namespace AcpSession

variable (s : AcpSession) (controls : OptionControls) (cli : PerSetting String) (heard : Heard)

def InCatalog (x : Setting) (id : String) : Prop :=
  ∃ catalog ∈ s.advertised.get x, id ∈ catalog.available

instance (x : Setting) (id : String) : Decidable (s.InCatalog x id) := by
  unfold InCatalog
  infer_instance

/-- The CLI has the desired mode and model, where they are advertised; and those that a config
option is to set, where no other is desired. -/
structure Settled : Prop where
  desired : ∀ x, ∀ id ∈ s.desired.get x, s.InCatalog x id → cli.get x = id
  selected : ∀ key ∈ s.configSelections.keys, ∀ value ∈ s.configSelections.lookup key,
    ∀ x ∈ controls key, s.desired.get x = none → cli.get x = value

/-- What `plan_reconcile` takes for being in force was heard. -/
structure Known : Prop where
  settings : ∀ x id, s.desired.get x = some id → s.observed.get x = some id →
    (x, id) ∈ heard.settings
  config : ∀ key value, s.configSelections.lookup key = some value →
    s.configCurrent.lookup key = some value → (key, value) ∈ heard.config

/-- The actions that are left bring the CLI to the desired mode and model. -/
structure Owed (actions : List ReconcileAction) : Prop where
  wished : ∀ x id, .ofSetting x id ∈ actions →
    s.desired.get x = some id ∧ s.observed.get x ≠ some id
  owed : ∀ x id, s.desired.get x = some id → s.InCatalog x id →
    .ofSetting x id ∈ actions ∨ cli.get x = id
  selected : ∀ key value x, controls key = some x → s.desired.get x = none →
    s.configSelections.lookup key = some value →
      .setConfigOption key value ∈ actions ∨ cli.get x = value

def Needs : ReconcileAction → Prop
  | .setMode mode => s.InCatalog .mode mode
  | .setModel model => s.InCatalog .model model
  | .setConfigOption key value => s.configSelections.lookup key = some value ∧
      ∃ x ∈ controls key, s.desired.get x = none

instance : ∀ action, Decidable (s.Needs controls action) := by
  intro action
  cases action <;> dsimp only [Needs] <;> infer_instance

/-- A response to a config option that was set accounts for all that the aggregate takes for
fulfilled then, and for what it keeps untold of options that set the mode or the model. -/
structure PlainResponse (key value : String) (incoming : List SessionConfigOption) : Prop where
  taken : ∀ x, ¬s.GivesUp (s.mergedOptions incoming) x → ∀ id ∈ s.desired.get x,
    s.Takes x id incoming →
      x.Shows id incoming ∨ (s.observed.get x = some id ∧ (controls key = some x → value = id))
  kept : ∀ e ∈ s.keptUntold incoming, s.Wishable e.1 e.2 → ∀ x ∈ controls e.1,
    if controls key = some x then value = e.2 else s.desired.get x = none

/-- What holds while the CLI has not accepted a config option yet: its acknowledgement is counted. -/
structure ConfigCalled (key wished value : String) : Prop where
  honest : s.Honest cli (heard.addAccepted controls value (.setConfigOption key wished))
  controlled : ∀ x, s.desired.get x = none → controls key ≠ some x → s.Controlled controls cli x
  sent : ∀ x, controls key = some x → value = wished ∨
    (s.configSelections.lookup key ≠ some wished ∧ s.pendingStartupConfig = [])

/-- What holds between two calls of a reconciliation. -/
structure Reconciling (actions : List ReconcileAction) : Prop where
  honest : s.Honest cli heard
  controlled : ∀ x, s.desired.get x = none → s.Controlled controls cli x
  owed : s.Owed controls cli actions

variable {s controls cli heard} {heard' : Heard} {actions : List ReconcileAction}
  {action : ReconcileAction}

theorem Known.mono (h : s.Known heard) (hgrows : heard.Grows heard') : s.Known heard' where
  settings x id hdesired hobserved := hgrows.settings _ (h.settings x id hdesired hobserved)
  config key value hselected hcurrent := hgrows.config _ (h.config key value hselected hcurrent)

theorem Honest.mono (h : s.Honest cli heard) (hgrows : heard.Grows heard') :
    s.Honest cli heard' where
  settings := by
    intro x id hdesired hobserved
    obtain ⟨hcli, hmem⟩ := h.settings x id hdesired hobserved
    exact ⟨hcli, hgrows.settings _ hmem⟩
  config key value hcurrent hwish := hgrows.config _ (h.config key value hcurrent hwish)
  options options hmem option hoption select hselect :=
    hgrows.config _ (h.options options hmem option hoption select hselect)

theorem Reconciling.known (h : s.Reconciling controls cli heard actions) : s.Known heard where
  settings x id hdesired hobserved := (h.honest.settings x id hdesired hobserved).2
  config key value hselected hcurrent := h.honest.config key value hcurrent (.inl hselected)

/-- Once no action is left that is needed the CLI has what is desired. -/
theorem Owed.settled (h : s.Owed controls cli actions)
    (hnone : ∀ action ∈ actions, ¬s.Needs controls action) : s.Settled controls cli where
  desired := by
    intro x id hdesired hcatalog
    obtain hmem | hcli := h.owed x id hdesired hcatalog
    · refine absurd ?_ (hnone _ hmem)
      cases x <;> exact hcatalog
    · exact hcli
  selected := by
    intro key _ value hselected x hx hdesired
    obtain hmem | hcli := h.selected key value x hx hdesired hselected
    · exact absurd ⟨hselected, x, hx, hdesired⟩ (hnone _ hmem)
    · exact hcli

section Planning

theorem mem_planSetting {y : Setting} :
    action ∈ s.planSetting y ↔
      ∃ id, action = .ofSetting y id ∧ s.desired.get y = some id ∧ s.observed.get y ≠ some id := by
  unfold planSetting
  cases hdesired : s.desired.get y with
  | none =>
    constructor
    · intro h
      cases h
    · rintro ⟨id, -, hid, -⟩
      cases hid
  | some wished =>
    dsimp only
    split
    · next hobserved =>
      constructor
      · intro h
        cases h
      · rintro ⟨id, -, hid, hne⟩
        obtain rfl := Option.some.inj hid
        exact absurd hobserved hne
    · next hobserved =>
      rw [List.mem_singleton]
      constructor
      · rintro rfl
        exact ⟨wished, rfl, rfl, hobserved⟩
      · rintro ⟨id, rfl, hid, -⟩
        obtain rfl := Option.some.inj hid
        rfl

theorem ofSetting_inj {x y : Setting} {id id' : String}
    (h : ReconcileAction.ofSetting x id = .ofSetting y id') : x = y ∧ id = id' := by
  cases x <;> cases y <;> cases h <;> exact ⟨rfl, rfl⟩

theorem ofSetting_ne_setConfigOption {x : Setting} {id key value : String} :
    ReconcileAction.ofSetting x id ≠ .setConfigOption key value := by
  intro h
  cases x <;> cases h

theorem planConfig_eq_some {entry : String × String} :
    s.planConfig entry = some action ↔
      action = .setConfigOption entry.1 entry.2 ∧ s.configCurrent.lookup entry.1 ≠ some entry.2 := by
  unfold planConfig
  split
  · next hcurrent =>
    constructor
    · intro h
      cases h
    · rintro ⟨-, hne⟩
      exact absurd hcurrent hne
  · next hcurrent =>
    constructor
    · intro h
      exact ⟨(Option.some.inj h).symm, hcurrent⟩
    · rintro ⟨rfl, -⟩
      rfl

theorem mem_planReconcile {order : IterOrder (String × String)} :
    action ∈ s.planReconcile order ↔
      (∃ x id, action = .ofSetting x id ∧ s.desired.get x = some id ∧
        s.observed.get x ≠ some id) ∨
      ∃ key value, action = .setConfigOption key value ∧
        s.configSelections.lookup key = some value ∧ s.configCurrent.lookup key ≠ some value := by
  unfold planReconcile
  rw [List.mem_append, List.mem_append, mem_planSetting, mem_planSetting, List.mem_filterMap]
  refine or_congr ⟨?_, ?_⟩ ⟨?_, ?_⟩
  · rintro (h | h)
    · exact ⟨.mode, h⟩
    · exact ⟨.model, h⟩
  · rintro ⟨x, h⟩
    cases x with
    | mode => exact .inl h
    | model => exact .inr h
  · rintro ⟨entry, hmem, hplan⟩
    obtain ⟨rfl, hcurrent⟩ := planConfig_eq_some.mp hplan
    obtain ⟨e, he, rfl⟩ := List.mem_map.mp (order.mem_arrange.mp hmem)
    exact ⟨e.1, e.2, rfl, AList.mem_lookup_iff.mpr he, hcurrent⟩
  · rintro ⟨key, value, rfl, hselected, hcurrent⟩
    refine ⟨(key, value), order.mem_arrange.mpr (List.mem_map.mpr ⟨⟨key, value⟩, ?_, rfl⟩), ?_⟩
    · exact AList.mem_lookup_iff.mp hselected
    · exact planConfig_eq_some.mpr ⟨rfl, hcurrent⟩

/-- The actions that are planned are owed, but for a config option that was just set. -/
theorem Honest.owed (h : s.Honest cli heard)
    (hcontrolled : ∀ x, s.desired.get x = none → s.Controlled controls cli x)
    (order : IterOrder (String × String)) (keep : ReconcileAction → Bool)
    (hkeep : ∀ x id, keep (.ofSetting x id) = true)
    (hskip : ∀ key value x, keep (.setConfigOption key value) = false → controls key = some x →
      s.configSelections.lookup key = some value → cli.get x = value) :
    s.Owed controls cli ((s.planReconcile order).filter keep) where
  wished := by
    intro x id hmem
    obtain ⟨y, id', heq, hwish⟩ | ⟨key, value, heq, -⟩ :=
      mem_planReconcile.mp (List.mem_filter.mp hmem).1
    · obtain ⟨rfl, rfl⟩ := ofSetting_inj heq
      exact hwish
    · exact absurd heq ofSetting_ne_setConfigOption
  owed := by
    intro x id hdesired _
    by_cases hobserved : s.observed.get x = some id
    · exact .inr (h.settings x id hdesired hobserved).1
    · refine .inl (List.mem_filter.mpr ⟨?_, hkeep x id⟩)
      exact mem_planReconcile.mpr (.inl ⟨x, id, rfl, hdesired, hobserved⟩)
  selected := by
    intro key value x hx hdesired hselected
    by_cases hcurrent : s.configCurrent.lookup key = some value
    · exact .inr (hcontrolled x hdesired key value hx (.inl hcurrent) (.inl hselected))
    · cases hkept : keep (.setConfigOption key value) with
      | false => exact .inr (hskip key value x hkept hx hselected)
      | true =>
        refine .inl (List.mem_filter.mpr ⟨?_, hkept⟩)
        exact mem_planReconcile.mpr (.inr ⟨key, value, rfl, hselected, hcurrent⟩)

end Planning

section Calls

variable {x : Setting} {id value : String}

/-- An action that is not needed may be left out. -/
theorem Reconciling.skip (h : s.Reconciling controls cli heard (.ofSetting x id :: actions))
    (hneeds : ¬s.InCatalog x id) : s.Reconciling controls cli heard actions where
  honest := h.honest
  controlled := h.controlled
  owed := {
    wished := fun y id' hmem => h.owed.wished y id' (List.mem_cons_of_mem _ hmem)
    owed := by
      intro y id' hdesired hcatalog
      obtain hmem | hcli := h.owed.owed y id' hdesired hcatalog
      · obtain heq | hmem := List.mem_cons.mp hmem
        · obtain ⟨rfl, rfl⟩ := ofSetting_inj heq
          exact absurd hcatalog hneeds
        · exact .inl hmem
      · exact .inr hcli
    selected := by
      intro key value y hy hdesired hselected
      obtain hmem | hcli := h.owed.selected key value y hy hdesired hselected
      · obtain heq | hmem := List.mem_cons.mp hmem
        · exact absurd heq.symm ofSetting_ne_setConfigOption
        · exact .inl hmem
      · exact .inr hcli }

/-- The CLI accepts a mode or a model that is desired. -/
theorem Reconciling.accepted (h : s.Reconciling controls cli heard (.ofSetting x id :: actions))
    (hsent : s.InCatalog x id → value = id) :
    s.Reconciling controls (cli.set value x)
      (heard.addAccepted controls value (.ofSetting x id)) actions := by
  obtain ⟨hdesired, hobserved⟩ := h.owed.wished x id List.mem_cons_self
  have other : ∀ y, y ≠ x → (cli.set value x).get y = cli.get y := by
    intro y hy
    rw [PerSetting.get_set, if_neg hy]
  have hgrows : heard.Grows (heard.addAccepted controls value (.ofSetting x id)) :=
    Heard.grows_addAccepted controls value _
  refine ⟨?_, ?_, ?_⟩
  · have hmono := h.honest.mono hgrows
    refine ⟨fun y id' hy hy' => ?_, hmono.config, hmono.options⟩
    obtain ⟨hcli, hmem⟩ := hmono.settings y id' hy hy'
    refine ⟨(other y ?_).trans hcli, hmem⟩
    rintro rfl
    obtain rfl := Option.some.inj (hdesired.symm.trans hy)
    exact hobserved hy'
  · intro y hy key value' hkey hkeeps hwish
    refine (other y ?_).trans (h.controlled y hy key value' hkey hkeeps hwish)
    rintro rfl
    cases hdesired.symm.trans hy
  · refine ⟨fun y id' hmem => h.owed.wished y id' (List.mem_cons_of_mem _ hmem), ?_, ?_⟩
    · intro y id' hy hcatalog
      by_cases hyx : y = x
      · subst hyx
        obtain rfl := Option.some.inj (hdesired.symm.trans hy)
        refine .inr ?_
        rw [PerSetting.get_set, if_pos rfl]
        exact hsent hcatalog
      · rw [other y hyx]
        obtain hmem | hcli := h.owed.owed y id' hy hcatalog
        · obtain heq | hmem := List.mem_cons.mp hmem
          · exact absurd (ofSetting_inj heq).1 hyx
          · exact .inl hmem
        · exact .inr hcli
    · intro key value' y hkey hy hselected
      have hyx : y ≠ x := by
        rintro rfl
        cases hdesired.symm.trans hy
      rw [other y hyx]
      obtain hmem | hcli := h.owed.selected key value' y hkey hy hselected
      · obtain heq | hmem := List.mem_cons.mp hmem
        · exact absurd heq.symm ofSetting_ne_setConfigOption
        · exact .inl hmem
      · exact .inr hcli

end Calls

end AcpSession

namespace SessionWorld

variable {w : SessionWorld} {controls : OptionControls} {cli : PerSetting String} {heard : Heard}

/-- The planning keeps only wishes that are not given up, and takes nothing more for fulfilled. -/
theorem honest_prepared (h : w.session.Reported cli heard) : w.prepared.Honest cli heard where
  settings := by
    intro x id hdesired hobserved
    have narrows : w.session.Narrows w.prepared := w.narrows_prepared
    rw [narrows.observed] at hobserved
    refine h.settings x id (narrows.desired x id hdesired) ?_ (fun options hoptions hgives => ?_)
      hobserved
    · rw [← narrows.isValid]
      exact valid_prepared hdesired
    · have cleared : (w.session.resolvePendingStartupConfigSeeds w.modeNormalizer).Narrows
          w.prepared :=
        (AcpSession.narrows_clearInvalidDesired .mode).trans
          (AcpSession.narrows_clearInvalidDesired .model)
      have hnone := cleared.desired_none (AcpSession.desired_of_givesUp hoptions hgives)
      cases hnone.symm.trans hdesired
  config := by
    intro key value hcurrent hwish
    have narrows : w.session.Narrows w.prepared := w.narrows_prepared
    rw [narrows.configCurrent] at hcurrent
    refine h.config key value hcurrent ?_
    obtain hselected | hkey := hwish
    · exact narrows.selections key value hselected
    · exact .inr (narrows.selectable hkey)
  options := by
    intro options hmem
    rw [w.narrows_prepared.configOptions] at hmem
    exact h.options options hmem

/-- The actions are planned by an aggregate that takes nothing for fulfilled which is not. -/
theorem reconciling_prepared (reported : w.session.Reported cli heard)
    (controlled : ∀ x, w.session.Controlled controls cli x) (order : IterOrder (String × String))
    (keep : ReconcileAction → Bool) (hkeep : ∀ x id, keep (.ofSetting x id) = true)
    (hskip : ∀ key value x, keep (.setConfigOption key value) = false → controls key = some x →
      w.prepared.configSelections.lookup key = some value → cli.get x = value) :
    w.prepared.Reconciling controls cli heard ((w.prepared.planReconcile order).filter keep) := by
  have honest : w.prepared.Honest cli heard := honest_prepared reported
  have kept : ∀ x, w.prepared.desired.get x = none → w.prepared.Controlled controls cli x :=
    fun x _ => controlled_prepared (controlled x)
  exact ⟨honest, kept, honest.owed kept order keep hkeep hskip⟩

end SessionWorld

namespace AcpSession

variable {s : AcpSession} {controls : OptionControls} {cli : PerSetting String} {heard : Heard}
  {key wished value : String} {incoming : List SessionConfigOption}

theorem get_accepted_of_eq {x : Setting} (h : controls key = some x) :
    (acceptedSettings controls cli value (.setConfigOption key wished)).get x = value := by
  simp only [acceptedSettings, h, PerSetting.get_set, if_true]

theorem get_accepted_of_ne {x : Setting} (h : controls key ≠ some x) :
    (acceptedSettings controls cli value (.setConfigOption key wished)).get x = cli.get x := by
  cases hkey : controls key with
  | none => simp only [acceptedSettings, hkey]
  | some y =>
    have hne : x ≠ y := by
      rintro rfl
      exact h hkey
    simp only [acceptedSettings, hkey, PerSetting.get_set, if_neg hne]

/-- What the aggregate takes over from the response to a config option. -/
theorem ConfigCalled.options (h : s.ConfigCalled controls cli heard key wished value)
    (hplain : s.PlainResponse controls key value incoming)
    (htruth : TruthfulOptions controls
      (acceptedSettings controls cli value (.setConfigOption key wished)) incoming) :
    (s.applyAdvertisedConfigOptions incoming).Reported
      (acceptedSettings controls cli value (.setConfigOption key wished))
      ((heard.addAccepted controls value (.setConfigOption key wished)).addOptions incoming) ∧
    ∀ x, (s.applyAdvertisedConfigOptions incoming).Controlled controls
      (acceptedSettings controls cli value (.setConfigOption key wished)) x := by
  constructor
  · have heardOf : ∀ key' value', s.configCurrent.lookup key' = some value' →
        s.configSelections.lookup key' = some value' → (key', value') ∈ _ :=
      fun key' value' hcurrent hselected => h.honest.config key' value' hcurrent (.inl hselected)
    refine reported_options h.honest.options htruth (fun x id hdesired _ hstands htaken => ?_)
      fun key' value' hcurrent hselected => .inr (heardOf key' value' hcurrent hselected)
    obtain hshows | ⟨hobserved, hsame⟩ := hplain.taken x hstands id hdesired htaken
    · exact .inl hshows
    · obtain ⟨hcli, hmem⟩ := h.honest.settings x id hdesired hobserved
      refine .inr ⟨?_, hmem⟩
      by_cases hx : controls key = some x
      · exact (get_accepted_of_eq hx).trans (hsame hx)
      · exact (get_accepted_of_ne hx).trans hcli
  · intro x
    refine controlled_options htruth fun key' value' hkept hwish hx => ?_
    have hcase := hplain.kept (key', value') hkept hwish x hx
    by_cases hkey : controls key = some x
    · rw [if_pos hkey] at hcase
      exact (get_accepted_of_eq hkey).trans hcase
    · rw [if_neg hkey] at hcase
      have hcontrolled := h.controlled x hcase hkey
      exact (get_accepted_of_ne hkey).trans
        (hcontrolled key' value' hx (keeps_of_keptUntold hkept) hwish)

end AcpSession

/-- After a config option was set the actions are planned anew, without it. -/
theorem SessionWorld.reconciling_followup {w : SessionWorld} {controls : OptionControls}
    {cli : PerSetting String} {heard : Heard} {key wished value : String}
    {incoming : List SessionConfigOption}
    (h : w.session.ConfigCalled controls cli heard key wished value)
    (hplain : w.session.PlainResponse controls key value incoming)
    (htruth : TruthfulOptions controls
      (acceptedSettings controls cli value (.setConfigOption key wished)) incoming)
    (order : IterOrder (String × String)) :
    let applied := { w with session := w.session.applyAdvertisedConfigOptions incoming }
    applied.prepared.Reconciling controls
      (acceptedSettings controls cli value (.setConfigOption key wished))
      ((heard.addAccepted controls value (.setConfigOption key wished)).addOptions incoming)
      ((applied.prepared.planReconcile order).filter
        fun action => action ≠ .setConfigOption key wished) := by
  intro applied
  obtain ⟨reported, controlled⟩ := h.options hplain htruth
  refine reconciling_prepared (w := applied) reported controlled order _ (fun x id => ?_)
    fun key' value' x hskipped hx hselected => ?_
  · exact decide_eq_true AcpSession.ofSetting_ne_setConfigOption
  · have heq : ReconcileAction.setConfigOption key' value' = .setConfigOption key wished :=
      not_not.mp (of_decide_eq_false hskipped)
    obtain ⟨rfl, rfl⟩ := ReconcileAction.setConfigOption.inj heq
    rw [AcpSession.get_accepted_of_eq hx]
    obtain hsent | ⟨hunwished, hpending⟩ := h.sent x hx
    · exact hsent
    · -- without seeds the value that was wished is not wished again
      have hnone : applied.session.pendingStartupConfig = [] :=
        AcpSession.pendingStartupConfig_options.trans hpending
      rw [(selections_prepared hnone).1] at hselected
      exact absurd (AcpSession.configSelections_options ▸ hselected) hunwished

end AionCore.Agent
