import AionCore.Extension.ExtensionRegistry

/-!
# Extensions: enabled and disabled

A flag that an enable or disable call has left stays, in memory and in the states, as long as
calls write and return in the order of their lock sections, no reload works with an older flag,
and no reload drops an extension whose flag a call has left.
-/

namespace AionCore.Extension

variable {C R : Type} {extensions : List (RegisteredExtension C)}

/-- No two extensions have a name, and each state is under the name of its extension. -/
structure WellNamed (extensions : List (RegisteredExtension C)) : Prop where
  names : (extensions.map (·.name)).Nodup
  states : ∀ ext ∈ extensions, ext.state.name = ext.name

namespace WellNamed

theorem nil : WellNamed ([] : List (RegisteredExtension C)) :=
  ⟨List.nodup_nil, fun _ hext => absurd hext List.not_mem_nil⟩

theorem eq_of_name (h : WellNamed extensions) {a b : RegisteredExtension C}
    (ha : a ∈ extensions) (hb : b ∈ extensions) (hab : a.name = b.name) : a = b :=
  List.inj_on_of_nodup_map h.names ha hb hab

/-- A change of one extension that keeps its names. -/
theorem replace {before after : List (RegisteredExtension C)} {a b : RegisteredExtension C}
    (h : WellNamed (before ++ a :: after)) (hname : b.name = a.name)
    (hstate : b.state.name = a.state.name) : WellNamed (before ++ b :: after) := by
  constructor
  · have hnames := h.names
    rw [List.map_append, List.map_cons] at hnames ⊢
    rwa [hname]
  · intro ext hext
    rcases List.mem_append.mp hext with hin | hin
    · exact h.states ext (List.mem_append_left _ hin)
    · rcases List.mem_cons.mp hin with rfl | hin
      · rw [hstate, hname]
        exact h.states a (List.mem_append_right _ List.mem_cons_self)
      · exact h.states ext (List.mem_append_right _ (List.mem_cons_of_mem _ hin))

theorem map (h : WellNamed extensions) {f : RegisteredExtension C → RegisteredExtension C}
    (hname : ∀ ext, (f ext).name = ext.name)
    (hstate : ∀ ext, (f ext).state.name = ext.state.name) : WellNamed (extensions.map f) := by
  constructor
  · rw [List.map_map, show (·.name) ∘ f = (·.name) from funext hname]
    exact h.names
  · intro ext hext
    obtain ⟨a, ha, rfl⟩ := List.mem_map.mp hext
    rw [hstate, hname]
    exact h.states a ha

end WellNamed

section Loading

variable {ext : RegisteredExtension C}

theorem loadAll_state {found : List (FoundExtension C)} (hext : ext ∈ loadAll found) :
    ext.state.name = ext.name := by
  suffices hfold : ∀ (rest : List (FoundExtension C)) (result : List (RegisteredExtension C)),
      (∀ ext ∈ result, ext.state.name = ext.name) →
      ∀ ext ∈ rest.foldl (fun result f => if result.any (·.name = f.manifest.name) then result
        else result ++ [loadSingleExtension f]) result, ext.state.name = ext.name from
    hfold found [] (fun _ h => absurd h List.not_mem_nil) ext hext
  intro rest
  induction rest with
  | nil => exact fun result h => h
  | cons f rest ih =>
    intro result h
    rw [List.foldl_cons]
    apply ih
    split
    · exact h
    · intro ext hext
      rcases List.mem_append.mp hext with hin | hin
      · exact h ext hin
      · rw [List.mem_singleton.mp hin]
        rfl

/-- What the map by name has is among the extensions, under its own name. -/
theorem byName_spec {name : String} (h : (byName extensions).lookup name = some ext) :
    ext.name = name ∧ ext ∈ extensions := by
  suffices hfold : ∀ (rest : List (RegisteredExtension C))
      (d : Dict String (RegisteredExtension C)), rest ⊆ extensions →
      (∀ name ext, d.lookup name = some ext → ext.name = name ∧ ext ∈ extensions) →
      ∀ name ext, (rest.foldl (fun d ext => d.insert ext.name ext) d).lookup name = some ext →
        ext.name = name ∧ ext ∈ extensions from
    hfold extensions ∅ (List.Subset.refl _) (by simp) name ext h
  intro rest
  induction rest with
  | nil => exact fun d _ h => h
  | cons a rest ih =>
    intro d hsub h
    refine ih _ (fun x hx => hsub (List.mem_cons_of_mem _ hx)) fun name ext hlookup => ?_
    rw [Dict.lookup_insert'] at hlookup
    split at hlookup
    · rename_i hname
      obtain rfl := Option.some.inj hlookup
      exact ⟨hname.symm, hsub List.mem_cons_self⟩
    · exact h name ext hlookup

/-- The loop of `sort_by_load_order`: what is sorted, and what is left by name. -/
structure Sorting (extensions : List (RegisteredExtension C))
    (s : List (RegisteredExtension C) × Dict String (RegisteredExtension C)) : Prop where
  names : (s.1.map (·.name)).Nodup
  source : ∀ ext ∈ s.1, ext ∈ extensions
  taken : ∀ ext ∈ s.1, s.2.lookup ext.name = none
  left : ∀ name ext, s.2.lookup name = some ext → ext.name = name ∧ ext ∈ extensions

variable {s : List (RegisteredExtension C) × Dict String (RegisteredExtension C)}

theorem Sorting.takeNext (h : Sorting extensions s) (name : String) :
    Sorting extensions (takeNext s name) := by
  rw [Extension.takeNext]
  split
  · rename_i ext hext
    obtain ⟨hname, hin⟩ := h.left name ext hext
    constructor
    · have hnew : ext.name ∉ s.1.map (·.name) := by
        intro hmem
        obtain ⟨a, ha, haname⟩ := List.mem_map.mp hmem
        have hnone := h.taken a ha
        rw [haname, hname, hext] at hnone
        cases hnone
      rw [List.map_append]
      exact List.nodup_append.mpr ⟨h.names, List.nodup_singleton _, by
        rintro a ha b hb rfl
        have hb : a = ext.name := List.mem_singleton.mp hb
        exact hnew (hb ▸ ha)⟩
    · intro a ha
      rcases List.mem_append.mp ha with ha | ha
      · exact h.source a ha
      · exact List.mem_singleton.mp ha ▸ hin
    · intro a ha
      rw [Dict.lookup_erase']
      rcases List.mem_append.mp ha with ha | ha
      · rw [h.taken a ha, ite_self]
      · rw [List.mem_singleton.mp ha, if_pos hname]
    · intro n a hlookup
      have hlookup : AList.lookup n (AList.erase name s.2) = some a := hlookup
      rw [Dict.lookup_erase'] at hlookup
      split at hlookup
      · cases hlookup
      · exact h.left n a hlookup
  · exact h

theorem Sorting.foldl (h : Sorting extensions s) (loadOrder : List String) :
    Sorting extensions (loadOrder.foldl Extension.takeNext s) := by
  induction loadOrder generalizing s with
  | nil => exact h
  | cons name loadOrder ih => exact ih (h.takeNext name)

/-- What is left goes to the end. -/
theorem Sorting.finish (h : Sorting extensions s)
    (hstates : ∀ ext ∈ extensions, ext.state.name = ext.name) :
    WellNamed (s.1 ++ s.2.values.insertionSort (·.name ≤ ·.name)) := by
  have hleft : ∀ ext ∈ s.2.values, s.2.lookup ext.name = some ext ∧ ext ∈ extensions := by
    intro ext hext
    obtain ⟨name, hname⟩ := Dict.mem_values.mp hext
    obtain ⟨rfl, hin⟩ := h.left name ext hname
    exact ⟨hname, hin⟩
  have hperm := List.perm_insertionSort (r := fun a b : RegisteredExtension C => a.name ≤ b.name)
    s.2.values
  constructor
  · rw [List.map_append]
    refine List.nodup_append.mpr ⟨h.names, ?_, ?_⟩
    · rw [(hperm.map _).nodup_iff]
      have hkeys : s.2.values.map (·.name) = s.2.keys := by
        show (s.2.entries.map _).map _ = s.2.entries.map _
        rw [List.map_map]
        exact List.map_congr_left fun e he =>
          (h.left e.1 e.2 (AList.mem_lookup_iff.mpr he)).1
      rw [hkeys]
      exact s.2.keys_nodup
    · rintro a ha b hb rfl
      obtain ⟨x, hx, rfl⟩ := List.mem_map.mp ha
      obtain ⟨y, hy, hyx⟩ := List.mem_map.mp hb
      have hlookup := (hleft y (hperm.mem_iff.mp hy)).1
      rw [hyx, h.taken x hx] at hlookup
      cases hlookup
  · intro ext hext
    rcases List.mem_append.mp hext with hin | hin
    · exact hstates ext (h.source ext hin)
    · exact hstates ext (hleft ext (hperm.mem_iff.mp hin)).2

theorem wellNamed_loadAndValidate (crates : ExtensionCrates C R)
    (found : List (FoundExtension C)) : WellNamed (loadAndValidate crates found) := by
  have hstart : Sorting ((loadAll found).filter fun ext => crates.isCompatible ext.rest)
      ([], byName ((loadAll found).filter fun ext => crates.isCompatible ext.rest)) :=
    ⟨List.nodup_nil, by simp, by simp, fun _ _ h => byName_spec h⟩
  exact (hstart.foldl _).finish fun ext hext => loadAll_state (List.mem_filter.mp hext).1

end Loading

section Merging

theorem mergePersistedState_name (persisted : Dict String ExtensionState)
    (ext : RegisteredExtension C) : (mergePersistedState persisted ext).name = ext.name := by
  rw [mergePersistedState]
  split <;> rfl

theorem mergePersistedState_stateName (persisted : Dict String ExtensionState)
    (ext : RegisteredExtension C) :
    (mergePersistedState persisted ext).state.name = ext.state.name := by
  rw [mergePersistedState]
  split <;> rfl

theorem activate_name (now : ℤ) (ext : RegisteredExtension C) :
    (activate now ext).name = ext.name := by
  rw [activate]
  split <;> rfl

theorem activate_stateName (now : ℤ) (ext : RegisteredExtension C) :
    (activate now ext).state.name = ext.state.name := by
  rw [activate]
  split <;> rfl

theorem activate_enabled (now : ℤ) (ext : RegisteredExtension C) :
    (activate now ext).state.enabled = ext.state.enabled := by
  rw [activate]
  split <;> rfl

theorem WellNamed.merge (h : WellNamed extensions) (persisted : Dict String ExtensionState) :
    WellNamed (mergePersistedStates extensions persisted) :=
  h.map (mergePersistedState_name persisted) (mergePersistedState_stateName persisted)

/-- An extension that others of the list do not replace has its state in the map. -/
theorem lookup_buildStateMap (h : WellNamed extensions) {ext : RegisteredExtension C}
    (hext : ext ∈ extensions) : (buildStateMap extensions).lookup ext.name = some ext.state := by
  suffices hfold : ∀ (rest : List (RegisteredExtension C)) (d : Dict String ExtensionState),
      WellNamed rest →
      ((∀ a ∈ rest, a.name ≠ ext.name) → (rest.foldl (fun d a => d.insert a.state.name a.state)
        d).lookup ext.name = d.lookup ext.name) ∧
      (ext ∈ rest → (rest.foldl (fun d a => d.insert a.state.name a.state) d).lookup ext.name =
        some ext.state) from
    (hfold extensions ∅ h).2 hext
  intro rest
  induction rest with
  | nil => exact fun d _ => ⟨fun _ => rfl, fun hin => absurd hin List.not_mem_nil⟩
  | cons a rest ih =>
    intro d h
    have hnames := List.nodup_cons.mp h.names
    have hrest : WellNamed rest :=
      ⟨hnames.2, fun b hb => h.states b (List.mem_cons_of_mem _ hb)⟩
    have haname : a.state.name = a.name := h.states a List.mem_cons_self
    obtain ⟨hother, hin⟩ := ih (d.insert a.state.name a.state) hrest
    refine ⟨fun hne => ?_, fun hmem => ?_⟩
    · rw [List.foldl_cons, hother fun b hb => hne b (List.mem_cons_of_mem _ hb),
        Dict.lookup_insert', haname, if_neg (Ne.symm (hne a List.mem_cons_self))]
    · rw [List.foldl_cons]
      rcases List.mem_cons.mp hmem with rfl | hmem
      · have hfresh : ∀ b ∈ rest, b.name ≠ ext.name := fun b hb heq =>
          hnames.1 (List.mem_map.mpr ⟨b, hb, heq⟩)
        rw [hother hfresh, Dict.lookup_insert', haname, if_pos rfl]
      · exact hin hmem

end Merging

namespace ExtensionRegistry

variable {crates : ExtensionCrates C R} {w : ExtensionRegistry C R} {name : String}
  {enabled : Bool} {k r : ℕ}

/-- No call is in progress. -/
def Idle (w : ExtensionRegistry C R) : Prop :=
  (∀ call ∈ w.switches, call.stage.isReturned = true) ∧
    ∀ stage ∈ w.reloads, stage.isReturned = true

/-- The flag of the last enable or disable call of an extension that returned Ok is its flag in
memory, when it is loaded, and in the states; and the contributions are those of the loaded
extensions. -/
structure Sticks (crates : ExtensionCrates C R) (w : ExtensionRegistry C R) : Prop where
  memory : ∀ name enabled, w.settled.lookup name = some enabled →
    ∀ ext ∈ w.extensions, ext.name = name → ext.state.enabled = enabled
  states : ∀ name enabled, w.settled.lookup name = some enabled →
    ∃ state, w.states.lookup name = some state ∧ state.enabled = enabled
  contributions : w.contributions = resolveAllContributions crates w.extensions

def Written (w : ExtensionRegistry C R) (name : String) (enabled : Bool) : Prop :=
  (w.states.lookup name).map (·.enabled) = some enabled

def ToWrite (w : ExtensionRegistry C R) (name : String) (enabled : Bool) : Prop :=
  ∃ call ∈ w.switches, call.name = name ∧ call.enabled = enabled ∧ call.stage.isPersisting = true

def AtWork (w : ExtensionRegistry C R) (name : String) (enabled : Bool) : Prop :=
  ∃ call ∈ w.switches, call.name = name ∧ call.enabled = enabled ∧ call.stage.isReturned = false

/-- A call may leave the flag of an extension that it finds: no reload works with another flag
of it; and if the flag is there already, the states have it or get it. -/
def MaySwitch (w : ExtensionRegistry C R) (name : String) (enabled : Bool) : Prop :=
  ∀ p ∈ w.position name,
    (∀ stage ∈ w.reloads, ∀ ext ∈ stage.flagged, ext.name = name →
      ext.state.enabled = enabled) ∧
    (p.2.state.enabled = enabled → w.Written name enabled ∨ w.ToWrite name enabled)

/-- A write or return of a call finds its own flag the one left last, or a call with that flag
still to follow; a reload reads the flags left last, and replaces the states only if each extension
whose flag a call has left is among its own or still to be written. -/
def Careful (w : ExtensionRegistry C R) : RegistryStep C → Prop
  | .enable name _ => w.MaySwitch name true
  | .disable name => w.MaySwitch name false
  | .set k => ∀ call ∈ w.switches[k]?, call.stage.isPersisting = true →
    ∀ enabled ∈ w.switched.lookup call.name,
      call.enabled = enabled ∨ w.ToWrite call.name enabled
  | .finish k => ∀ call ∈ w.switches[k]?, call.stage.isPersisted = true →
    ∀ enabled ∈ w.switched.lookup call.name,
      call.enabled = enabled ∨ w.AtWork call.name enabled
  | .getAll r _ => ∀ stage ∈ w.reloads[r]?, ∀ ext ∈ stage.found,
    ∀ enabled ∈ w.switched.lookup ext.name,
      (mergePersistedState w.states ext).state.enabled = enabled
  | .setAll r => ∀ stage ∈ w.reloads[r]?, stage.isActivated = true →
    ∀ name ∈ w.switched.keys, name ∈ stage.flagged.map (·.name) ∨
      ∃ enabled ∈ w.switched.lookup name, w.ToWrite name enabled
  | _ => True

/-- A flag that a call left is in memory and with every reload that has read the states; the
states have it or get it, and a call has returned with it or will. -/
structure Kept (w : ExtensionRegistry C R) (name : String) (enabled : Bool) : Prop where
  memory : ∀ ext ∈ w.extensions, ext.name = name → ext.state.enabled = enabled
  reloads : ∀ stage ∈ w.reloads, ∀ ext ∈ stage.flagged, ext.name = name →
    ext.state.enabled = enabled
  states : w.Written name enabled ∨ w.ToWrite name enabled
  settled : w.settled.lookup name = some enabled ∨ w.AtWork name enabled

/-- What is known of a reload. -/
structure ReloadSound (crates : ExtensionCrates C R) (stage : ReloadStage C R) : Prop where
  found : WellNamed stage.found
  flagged : WellNamed stage.flagged
  contributions : ∀ extensions contributions, stage = .committing extensions contributions →
    contributions = resolveAllContributions crates extensions

/-- What is known of a call. -/
structure CallSound (w : ExtensionRegistry C R) (call : SwitchCall) : Prop where
  switched : call.stage.isReturned = false → ∃ enabled, w.switched.lookup call.name = some enabled
  state : ∀ state, call.stage = .persisting state →
    state.name = call.name ∧ state.enabled = call.enabled

structure Sound (crates : ExtensionCrates C R) (w : ExtensionRegistry C R) : Prop where
  contributions : w.contributions = resolveAllContributions crates w.extensions
  named : WellNamed w.extensions
  reloads : ∀ stage ∈ w.reloads, ReloadSound crates stage
  calls : ∀ call ∈ w.switches, w.CallSound call
  kept : ∀ name enabled, w.switched.lookup name = some enabled → w.Kept name enabled
  settled : ∀ name enabled, w.settled.lookup name = some enabled →
    ∃ enabled, w.switched.lookup name = some enabled

theorem Sound.sticks (h : w.Sound crates) (hidle : w.Idle) : w.Sticks crates := by
  have hnone : ∀ name enabled, ¬w.AtWork name enabled := by
    rintro name enabled ⟨call, hcall, -, -, hstage⟩
    rw [hidle.1 call hcall] at hstage
    cases hstage
  have hkept : ∀ name enabled, w.settled.lookup name = some enabled → w.Kept name enabled := by
    intro name enabled hsettled
    obtain ⟨enabled', hswitched⟩ := h.settled name enabled hsettled
    have hk := h.kept name enabled' hswitched
    have heq := hk.settled.resolve_right (hnone name enabled')
    rw [hsettled] at heq
    rwa [← Option.some.inj heq] at hk
  refine ⟨fun name enabled hs => (hkept name enabled hs).memory, fun name enabled hs => ?_,
    h.contributions⟩
  rcases (hkept name enabled hs).states with hwritten | ⟨call, hcall, hname, hflag, hstage⟩
  · exact Option.map_eq_some_iff.mp hwritten
  · refine absurd ⟨call, hcall, hname, hflag, ?_⟩ (hnone name enabled)
    cases hc : call.stage with
    | persisting state => rfl
    | persisted => rw [hc] at hstage; cases hstage
    | returned result => rw [hc] at hstage; cases hstage

theorem sound_initialize (found : List (FoundExtension C)) (persisted : Dict String ExtensionState)
    (now : ℤ) : (initializeWithScanPaths crates found persisted now).Sound crates := by
  have hnamed := (wellNamed_loadAndValidate crates found).merge persisted
  refine ⟨rfl, hnamed.map (activate_name now) (activate_stateName now), ?_, ?_, ?_, ?_⟩
  · exact fun _ h => absurd h List.not_mem_nil
  · exact fun _ h => absurd h List.not_mem_nil
  · exact fun _ _ h => absurd h (by simp [initializeWithScanPaths])
  · exact fun _ _ h => absurd h (by simp [initializeWithScanPaths])

section

variable (h : w.Sound crates)
include h

/-- A reload goes on; what it has read are the flags left last. -/
theorem Sound.setReload (r : ℕ) (stage : ReloadStage C R) (hstage : ReloadSound crates stage)
    (hflags : ∀ ext ∈ stage.flagged, ∀ enabled, w.switched.lookup ext.name = some enabled →
      ext.state.enabled = enabled) : (w.setReload r stage).Sound crates := by
  refine { h with reloads := fun s hs => ?_, calls := fun c hc => ?_, kept := fun n e hn => ?_ }
  · rcases List.mem_or_eq_of_mem_set hs with hs | rfl
    · exact h.reloads s hs
    · exact hstage
  · exact ⟨(h.calls c hc).switched, (h.calls c hc).state⟩
  · have hk := h.kept n e hn
    refine ⟨hk.memory, fun s hs ext hext hname => ?_, hk.states, hk.settled⟩
    rcases List.mem_or_eq_of_mem_set hs with hs | rfl
    · exact hk.reloads s hs ext hext hname
    · exact hflags ext hext e (hname ▸ hn)

theorem Sound.hotReload : w.hotReload.Sound crates := by
  refine { h with reloads := fun s hs => ?_, calls := fun c hc => ?_, kept := fun n e hn => ?_ }
  · rcases List.mem_append.mp hs with hs | hs
    · exact h.reloads s hs
    · rw [List.mem_singleton.mp hs]
      exact ⟨.nil, .nil, fun _ _ hs => by cases hs⟩
  · exact ⟨(h.calls c hc).switched, (h.calls c hc).state⟩
  · have hk := h.kept n e hn
    refine ⟨hk.memory, fun s hs ext hext hname => ?_, hk.states, hk.settled⟩
    rcases List.mem_append.mp hs with hs | hs
    · exact hk.reloads s hs ext hext hname
    · rw [List.mem_singleton.mp hs] at hext
      exact absurd hext List.not_mem_nil

theorem Sound.reload {stage : ReloadStage C R} (hr : w.reloads[r]? = some stage) :
    ReloadSound crates stage ∧ ∀ ext ∈ stage.flagged,
      ∀ enabled, w.switched.lookup ext.name = some enabled → ext.state.enabled = enabled :=
  ⟨h.reloads stage (List.mem_of_getElem? hr), fun ext hext enabled hn =>
    (h.kept ext.name enabled hn).reloads stage (List.mem_of_getElem? hr) ext hext rfl⟩

theorem Sound.deactivate (r : ℕ) : (w.deactivate r).Sound crates := by
  rw [ExtensionRegistry.deactivate]
  split
  · exact h.setReload r _ ⟨.nil, .nil, fun _ _ hs => by cases hs⟩ fun _ hext =>
      absurd hext List.not_mem_nil
  · exact h

theorem Sound.load (r : ℕ) (found : List (FoundExtension C)) :
    (w.load crates r found).Sound crates := by
  rw [ExtensionRegistry.load]
  split
  · exact h.setReload r _
      ⟨wellNamed_loadAndValidate crates found, .nil, fun _ _ hs => by cases hs⟩
      fun _ hext => absurd hext List.not_mem_nil
  · exact h

theorem Sound.getAll (now : ℤ) (hstep : Careful w (.getAll r now)) :
    (w.getAll r now).Sound crates := by
  rw [ExtensionRegistry.getAll]
  split
  · rename_i extensions hr
    refine h.setReload r _
      ⟨.nil, (h.reload hr).1.found.merge w.states, fun _ _ hs => by cases hs⟩ ?_
    intro ext hext enabled hn
    obtain ⟨a, ha, rfl⟩ := List.mem_map.mp hext
    rw [mergePersistedState_name] at hn
    exact hstep _ hr a ha enabled hn
  · exact h

theorem Sound.activate (r : ℕ) : (w.activate r).Sound crates := by
  rw [ExtensionRegistry.activate]
  split
  · rename_i now activated ext rest hr
    obtain ⟨hsound, hflags⟩ := h.reload hr
    have happend : activated ++ [Extension.activate now ext] ++ rest =
        activated ++ Extension.activate now ext :: rest := by
      rw [List.append_assoc, List.singleton_append]
    refine h.setReload r _ ⟨.nil, ?_, fun _ _ hs => by cases hs⟩ ?_
    · show WellNamed (activated ++ [Extension.activate now ext] ++ rest)
      rw [happend]
      exact hsound.flagged.replace (activate_name now ext) (activate_stateName now ext)
    · intro a ha enabled hn
      have ha : a ∈ activated ++ [Extension.activate now ext] ++ rest := ha
      rw [happend] at ha
      rcases List.mem_append.mp ha with hin | hin
      · exact hflags a (List.mem_append_left _ hin) enabled hn
      · rcases List.mem_cons.mp hin with rfl | hin
        · rw [activate_name] at hn
          rw [activate_enabled]
          exact hflags ext (List.mem_append_right _ List.mem_cons_self) enabled hn
        · exact hflags a (List.mem_append_right _ (List.mem_cons_of_mem _ hin)) enabled hn
  · exact h

theorem Sound.setAll (hstep : Careful w (.setAll r)) :
    (w.setAll crates r).Sound crates := by
  rw [ExtensionRegistry.setAll]
  split
  · rename_i now extensions hr
    obtain ⟨hsound, hflags⟩ := h.reload hr
    have hnil : (ReloadStage.activating (R := R) now extensions []).flagged = extensions :=
      List.append_nil extensions
    rw [hnil] at hflags
    have hnamed : WellNamed extensions := hnil ▸ hsound.flagged
    have hnext := h.setReload r (.committing extensions
      (resolveAllContributions crates extensions))
      ⟨.nil, hnamed, fun _ _ hs => by cases hs; rfl⟩ hflags
    refine { hnext with calls := fun c hc => ?_, kept := fun n e hn => ?_ }
    · exact ⟨(h.calls c hc).switched, (h.calls c hc).state⟩
    · have hk := hnext.kept n e hn
      refine ⟨hk.memory, hk.reloads, ?_, hk.settled⟩
      have hkey : n ∈ w.switched.keys := by
        have hn : w.switched.lookup n = some e := hn
        rw [← AList.mem_keys, ← AList.lookup_isSome, hn]
        rfl
      rcases hstep _ hr rfl n hkey with hin | ⟨e', he', hwrite⟩
      · left
        rw [hnil] at hin
        obtain ⟨ext, hext, rfl⟩ := List.mem_map.mp hin
        show (AList.lookup ext.name (buildStateMap extensions)).map (·.enabled) = some e
        rw [lookup_buildStateMap hnamed hext]
        exact congrArg some (hflags ext hext e hn)
      · right
        obtain rfl : e' = e := Option.some.inj (he'.symm.trans hn)
        exact hwrite
  · exact h

theorem Sound.commit (r : ℕ) : (w.commit r).Sound crates := by
  rw [ExtensionRegistry.commit]
  split
  · rename_i extensions contributions hr
    obtain ⟨hsound, hflags⟩ := h.reload hr
    have hnext := h.setReload r .returned
      ⟨.nil, .nil, fun _ _ hs => by cases hs⟩ fun _ hext => absurd hext List.not_mem_nil
    refine ⟨hsound.contributions _ _ rfl, hsound.flagged, hnext.reloads, fun c hc => ?_,
      fun n e hn => ?_, h.settled⟩
    · exact ⟨(h.calls c hc).switched, (h.calls c hc).state⟩
    · have hk := hnext.kept n e hn
      exact ⟨fun ext hext hname => hflags ext hext e (hname ▸ hn), hk.reloads, hk.states,
        hk.settled⟩
  · exact h

end

theorem ToWrite.add (h : w.ToWrite name enabled) (call : SwitchCall) :
    ({ w with switches := w.switches ++ [call] } : ExtensionRegistry C R).ToWrite name enabled := by
  obtain ⟨c, hc, hrest⟩ := h
  exact ⟨c, List.mem_append_left _ hc, hrest⟩

theorem AtWork.add (h : w.AtWork name enabled) (call : SwitchCall) :
    ({ w with switches := w.switches ++ [call] } : ExtensionRegistry C R).AtWork name enabled := by
  obtain ⟨c, hc, hrest⟩ := h
  exact ⟨c, List.mem_append_left _ hc, hrest⟩

variable {ext : RegisteredExtension C}

theorem position_spec {idx : ℕ} (h : w.position name = some (idx, ext)) :
    w.extensions[idx]? = some ext ∧ ext.name = name := by
  rw [position] at h
  split at h
  · rename_i i hi
    obtain ⟨a, ha, hpair⟩ := Option.map_eq_some_iff.mp h
    cases hpair
    obtain ⟨hlt, hname, -⟩ := List.findIdx?_eq_some_iff_getElem.mp hi
    rw [List.getElem?_eq_getElem hlt] at ha
    have hext : w.extensions[idx] = ext := Option.some.inj ha
    rw [hext] at hname
    exact ⟨by rw [List.getElem?_eq_getElem hlt, hext], of_decide_eq_true hname⟩
  · cases h

/-- The extensions after a switch of the one at a position: that one has the flag, and the
others of the list are as they were and have other names. -/
theorem mem_switched {idx : ℕ} (h : WellNamed w.extensions) (hidx : w.extensions[idx]? = some ext)
    {activatedAt : Option ℤ} {a : RegisteredExtension C}
    (ha : a ∈ w.extensions.modify idx (·.switch enabled activatedAt)) :
    a = ext.switch enabled activatedAt ∨ a ∈ w.extensions ∧ a.name ≠ ext.name := by
  obtain ⟨j, hj⟩ := List.getElem?_of_mem ha
  rcases Registry.getElem?_change.mp hj with ⟨rfl, b, hb, rfl⟩ | ⟨hne, hj⟩
  · rw [hidx] at hb
    exact .inl (by rw [Option.some.inj hb])
  · refine .inr ⟨List.mem_of_getElem? hj, fun hname => hne ?_⟩
    have hnames : (w.extensions.map (·.name))[j]? = (w.extensions.map (·.name))[idx]? := by
      rw [List.getElem?_map, List.getElem?_map, hj, hidx]
      exact congrArg some hname
    have hlt := Registry.lt_of_getElem? hj
    exact (List.getElem?_inj (by rwa [List.length_map]) h.names).mp hnames

theorem wellNamed_switched (h : WellNamed extensions) (idx : ℕ) (activatedAt : Option ℤ) :
    WellNamed (extensions.modify idx (·.switch enabled activatedAt)) := by
  constructor
  · have hnames : (extensions.modify idx (·.switch enabled activatedAt)).map (·.name) =
        extensions.map (·.name) := by
      apply List.ext_getElem?
      intro j
      rw [List.getElem?_map, List.getElem?_map, List.getElem?_modify]
      cases extensions[j]? with
      | none => rfl
      | some ext =>
        split <;> rfl
    rw [hnames]
    exact h.names
  · intro a ha
    obtain ⟨j, hj⟩ := List.getElem?_of_mem ha
    rcases Registry.getElem?_change.mp hj with ⟨-, b, hb, rfl⟩ | ⟨-, hj⟩
    · exact h.states b (List.mem_of_getElem? hb)
    · exact h.states a (List.mem_of_getElem? hj)

variable {flags : Dict String Bool}

/-- A call has left its flag: for its own extension it must be kept, for the others it is. -/
theorem kept_insert {w' : ExtensionRegistry C R}
    (hother : ∀ n e, n ≠ name → flags.lookup n = some e → w'.Kept n e)
    (hown : w'.Kept name enabled) (n : String) (e : Bool)
    (hn : (flags.insert name enabled).lookup n = some e) : w'.Kept n e := by
  rw [Dict.lookup_insert'] at hn
  split at hn
  · rename_i heq
    rw [heq, ← Option.some.inj hn]
    exact hown
  · rename_i hne
    exact hother n e hne hn

theorem exists_lookup_insert {n : String} (h : n = name ∨ ∃ e, flags.lookup n = some e) :
    ∃ e, (flags.insert name enabled).lookup n = some e := by
  rw [Dict.lookup_insert']
  split
  · exact ⟨enabled, rfl⟩
  · rename_i hne
    exact h.resolve_left hne

theorem Sound.switch (h : w.Sound crates) (activatedAt : Option ℤ)
    (hstep : w.MaySwitch name enabled) :
    (w.switch crates enabled activatedAt name).Sound crates := by
  rw [ExtensionRegistry.switch]
  split
  · -- no such extension
    refine { h with calls := fun c hc => ?_, kept := fun n e hn => ?_ }
    · rcases List.mem_append.mp hc with hc | hc
      · exact ⟨(h.calls c hc).switched, (h.calls c hc).state⟩
      · rw [List.mem_singleton.mp hc]
        exact ⟨fun hs => (by cases hs), fun _ hs => by cases hs⟩
    · have hk := h.kept n e hn
      exact ⟨hk.memory, hk.reloads, hk.states.imp_right (·.add _), hk.settled.imp_right (·.add _)⟩
  · rename_i idx ext hpos
    obtain ⟨hidx, hname⟩ := position_spec hpos
    obtain ⟨hreloads, halready⟩ := hstep _ hpos
    split
    · -- the flag is there already
      rename_i hflag
      refine ⟨h.contributions, h.named, h.reloads, fun c hc => ?_, kept_insert ?_ ?_,
        fun n e hn => ?_⟩
      · rcases List.mem_append.mp hc with hc | hc
        · exact ⟨fun hs => exists_lookup_insert (.inr ((h.calls c hc).switched hs)),
            (h.calls c hc).state⟩
        · rw [List.mem_singleton.mp hc]
          exact ⟨fun hs => (by cases hs), fun _ hs => by cases hs⟩
      · intro n e hne hn
        have hk := h.kept n e hn
        refine ⟨hk.memory, hk.reloads, hk.states.imp_right (·.add _), ?_⟩
        refine hk.settled.imp (fun hs => ?_) (·.add _)
        rw [Dict.lookup_insert', if_neg hne, hs]
      · refine ⟨fun a ha haname => ?_, hreloads, (halready hflag).imp_right (·.add _), .inl ?_⟩
        · rw [h.named.eq_of_name ha (List.mem_of_getElem? hidx) (haname.trans hname.symm)]
          exact hflag
        · rw [Dict.lookup_insert', if_pos rfl]
      · have hn : (AList.insert name enabled w.settled).lookup n = some e := hn
        rw [Dict.lookup_insert'] at hn
        split at hn
        · rename_i heq
          exact exists_lookup_insert (.inl heq)
        · exact exists_lookup_insert (.inr (h.settled n e hn))
    · -- the flag changes
      let call : SwitchCall :=
        ⟨name, enabled, .persisting (ext.switch enabled activatedAt).state⟩
      have hnew : call ∈ w.switches ++ [call] :=
        List.mem_append_right _ (List.mem_singleton_self call)
      refine ⟨rfl, wellNamed_switched h.named idx activatedAt, h.reloads, fun c hc => ?_,
        kept_insert ?_ ?_, fun n e hn => exists_lookup_insert (.inr (h.settled n e hn))⟩
      · rcases List.mem_append.mp hc with hc | hc
        · exact ⟨fun hs => exists_lookup_insert (.inr ((h.calls c hc).switched hs)),
            (h.calls c hc).state⟩
        · rw [List.mem_singleton.mp hc]
          refine ⟨fun _ => exists_lookup_insert (.inl rfl), fun state hs => ?_⟩
          cases hs
          exact ⟨(h.named.states ext (List.mem_of_getElem? hidx)).trans hname, rfl⟩
      · intro n e hne hn
        have hk := h.kept n e hn
        refine ⟨fun a ha haname => ?_, hk.reloads, hk.states.imp_right (·.add _),
          hk.settled.imp_right (·.add _)⟩
        rcases mem_switched h.named hidx ha with rfl | ⟨ha, -⟩
        · exact absurd (haname.symm.trans hname) hne
        · exact hk.memory a ha haname
      · refine ⟨fun a ha haname => ?_, hreloads, .inr ⟨_, hnew, rfl, rfl, rfl⟩,
          .inr ⟨_, hnew, rfl, rfl, rfl⟩⟩
        rcases mem_switched h.named hidx ha with rfl | ⟨-, hne⟩
        · rfl
        · exact absurd (haname.trans hname.symm) hne

theorem Sound.set (h : w.Sound crates) (hstep : Careful w (.set k)) : (w.set k).Sound crates := by
  rw [ExtensionRegistry.set]
  split
  · rename_i name enabled state hk
    have hcall := h.calls _ (List.mem_of_getElem? hk)
    obtain ⟨hname, hflag⟩ := hcall.state state rfl
    refine { h with calls := fun c hc => ?_, kept := fun n e hn => ?_ }
    · rcases List.mem_or_eq_of_mem_set hc with hc | rfl
      · exact ⟨(h.calls c hc).switched, (h.calls c hc).state⟩
      · exact ⟨fun _ => hcall.switched rfl, fun _ hs => by cases hs⟩
    · have hkept := h.kept n e hn
      refine ⟨hkept.memory, hkept.reloads, ?_, ?_⟩
      · by_cases hown : n = name
        · subst hown
          rcases hstep _ hk rfl e hn with heq | ⟨c, hc, hcname, hcflag, hcstage⟩
          · left
            show (AList.lookup n (AList.insert state.name state w.states)).map (·.enabled) = some e
            rw [Dict.lookup_insert', if_pos hname.symm]
            exact congrArg some (hflag.trans heq)
          · by_cases heq : enabled = e
            · left
              show (AList.lookup n (AList.insert state.name state w.states)).map (·.enabled) =
                some e
              rw [Dict.lookup_insert', if_pos hname.symm]
              exact congrArg some (hflag.trans heq)
            · right
              refine ⟨c, Registry.mem_replace_of_ne hk hc ?_, hcname, hcflag, hcstage⟩
              rintro rfl
              exact heq hcflag
        · refine hkept.states.imp (fun hwritten => ?_) ?_
          · show (AList.lookup n (AList.insert state.name state w.states)).map (·.enabled) = some e
            rw [Dict.lookup_insert', if_neg fun heq => hown (heq.trans hname)]
            exact hwritten
          · rintro ⟨c, hc, hcname, hrest⟩
            refine ⟨c, Registry.mem_replace_of_ne hk hc ?_, hcname, hrest⟩
            rintro rfl
            exact hown hcname.symm
      · refine hkept.settled.imp_right ?_
        rintro ⟨c, hc, hcname, hcflag, hcstage⟩
        by_cases hsame : c = ⟨name, enabled, .persisting state⟩
        · subst hsame
          exact ⟨_, List.mem_of_getElem? ((Registry.getElem?_replace hk).mpr (.inl ⟨rfl, rfl⟩)),
            hcname, hcflag, rfl⟩
        · exact ⟨c, Registry.mem_replace_of_ne hk hc hsame, hcname, hcflag, hcstage⟩
  · exact h

theorem Sound.finish (h : w.Sound crates) (hstep : Careful w (.finish k)) :
    (w.finish k).Sound crates := by
  rw [ExtensionRegistry.finish]
  split
  · rename_i name enabled hk
    have hcall := h.calls _ (List.mem_of_getElem? hk)
    refine { h with calls := fun c hc => ?_, kept := fun n e hn => ?_, settled := fun n e hn => ?_ }
    · rcases List.mem_or_eq_of_mem_set hc with hc | rfl
      · exact ⟨(h.calls c hc).switched, (h.calls c hc).state⟩
      · exact ⟨fun hs => (by cases hs), fun _ hs => by cases hs⟩
    · have hkept := h.kept n e hn
      refine ⟨hkept.memory, hkept.reloads, hkept.states.imp_right ?_, ?_⟩
      · rintro ⟨c, hc, hcname, hcflag, hcstage⟩
        refine ⟨c, Registry.mem_replace_of_ne hk hc ?_, hcname, hcflag, hcstage⟩
        rintro rfl
        cases hcstage
      · have hothers : ∀ c ∈ w.switches, c.name = n → c.enabled = e → (n ≠ name ∨ e ≠ enabled) →
            c.stage.isReturned = false →
            c ∈ w.switches.set k ⟨name, enabled, .returned (.ok ())⟩ := by
          intro c hc hcname hcflag hne hcstage
          refine Registry.mem_replace_of_ne hk hc ?_
          rintro rfl
          exact hne.elim (fun h => h hcname.symm) fun h => h hcflag.symm
        rw [Dict.lookup_insert']
        split
        · rename_i hown
          subst hown
          by_cases heq : enabled = e
          · exact .inl (congrArg some heq)
          · right
            obtain ⟨c, hc, hcname, hcflag, hcstage⟩ :=
              (hstep _ hk rfl e hn).resolve_left heq
            exact ⟨c, hothers c hc hcname hcflag (.inr (Ne.symm heq)) hcstage, hcname, hcflag,
              hcstage⟩
        · rename_i hown
          refine hkept.settled.imp_right ?_
          rintro ⟨c, hc, hcname, hcflag, hcstage⟩
          exact ⟨c, hothers c hc hcname hcflag (.inl hown) hcstage, hcname, hcflag, hcstage⟩
    · have hn : (AList.insert name enabled w.settled).lookup n = some e := hn
      rw [Dict.lookup_insert'] at hn
      split at hn
      · rename_i heq
        rw [heq]
        exact hcall.switched rfl
      · exact h.settled n e hn
  · exact h

theorem Sound.fire (h : w.Sound crates) (step : RegistryStep C) (hstep : Careful w step) :
    (w.fire crates step).Sound crates := by
  cases step with
  | enable name now => exact h.switch (some now) hstep
  | disable name => exact h.switch none hstep
  | set k => exact h.set hstep
  | finish k => exact h.finish hstep
  | hotReload => exact h.hotReload
  | deactivate r => exact h.deactivate r
  | load r found => exact h.load r found
  | getAll r now => exact h.getAll now hstep
  | activate r => exact h.activate r
  | setAll r => exact h.setAll hstep
  | commit r => exact h.commit r

/-- While calls write and return in order and reloads neither work with old flags nor drop an
extension whose flag a call has left, every flag that a call has left stays. -/
theorem flags_stick (h : ((machine crates).restrict Careful).Reachable w) (hidle : w.Idle) :
    w.Sticks crates := by
  have hsound : w.Sound crates := h.invariant (M := (machine crates).restrict Careful)
    (P := Sound crates)
    (by rintro _ ⟨found, persisted, now, rfl⟩; exact sound_initialize found persisted now)
    fun w step hw hstep => hw.fire step hstep.2
  exact hsound.sticks hidle

instance (w : ExtensionRegistry C R) (name : String) (enabled : Bool) :
    Decidable (w.ToWrite name enabled) := by
  unfold ToWrite
  infer_instance

instance (w : ExtensionRegistry C R) (name : String) (enabled : Bool) :
    Decidable (w.AtWork name enabled) := by
  unfold AtWork
  infer_instance

instance (w : ExtensionRegistry C R) (name : String) (enabled : Bool) :
    Decidable (w.Written name enabled) := by
  unfold Written
  infer_instance

instance (w : ExtensionRegistry C R) (name : String) (enabled : Bool) :
    Decidable (w.MaySwitch name enabled) := by
  unfold MaySwitch
  infer_instance

instance : ∀ (w : ExtensionRegistry C R) step, Decidable (Careful w step) := by
  intro w step
  cases step <;> dsimp only [Careful] <;> infer_instance

instance (crates : ExtensionCrates C R) : ∀ w step, Decidable ((machine crates).admits w step) :=
  fun _ _ => .isTrue trivial

/-- Extensions that contribute skills, by name. -/
def sampleCrates : ExtensionCrates (List String) (List String) where
  semver := ⟨Unit, Unit, fun _ => some (), fun _ => some (), fun _ _ => true⟩
  isCompatible _ := true
  resolve _ _ skills := skills
  noContributions := []
  mergeContributions := (· ++ ·)
  sortSettingsTabs := id

def sampleFound : List (FoundExtension (List String)) :=
  [⟨⟨"a", "1.0.0", ∅⟩, ["draw"], "/extensions/a"⟩]

/-- An extension is disabled, comes through a reload, and is enabled again. -/
def sampleSteps : List (RegistryStep (List String)) :=
  [.disable "a", .set 0, .finish 0,
    .hotReload, .deactivate 0, .load 0 sampleFound, .getAll 0 5, .activate 0, .setAll 0, .commit 0,
    .enable "a" 6, .set 1, .finish 1]

theorem flags_stick_sample :
    ((machine sampleCrates).run (initializeWithScanPaths sampleCrates sampleFound ∅ 1)
      sampleSteps).Sticks sampleCrates :=
  flags_stick
    (Machine.reachable_run (M := (machine sampleCrates).restrict Careful) ⟨_, _, _, rfl⟩
      (by decide +kernel))
    ⟨by decide +kernel, by decide +kernel⟩

def undoneSteps : List (RegistryStep (List String)) :=
  [.hotReload, .deactivate 0, .load 0 sampleFound, .getAll 0 5,
    .disable "a", .set 0, .finish 0,
    .activate 0, .setAll 0, .commit 0]

theorem reload_undoes_disable :
    ∃ w, (machine sampleCrates).Reachable w ∧ w.Idle ∧ ¬w.Sticks sampleCrates := by
  refine ⟨(machine sampleCrates).run (initializeWithScanPaths sampleCrates sampleFound ∅ 1)
    undoneSteps, Machine.reachable_run ⟨_, _, _, rfl⟩ (by decide +kernel),
    ⟨by decide +kernel, by decide +kernel⟩, fun h => ?_⟩
  obtain ⟨state, hstate, hflag⟩ := h.states "a" false (by decide +kernel)
  have henabled : ∀ state ∈ ((machine sampleCrates).run
      (initializeWithScanPaths sampleCrates sampleFound ∅ 1) undoneSteps).states.lookup "a",
      state.enabled = true := by
    decide +kernel
  rw [henabled state hstate] at hflag
  cases hflag

end ExtensionRegistry

end AionCore.Extension
