import AionCore.Extension.Dependency
import AionCore.Lib.Machine
import AionCore.Lib.Registry

/-!
# Extensions: the registry

`ExtensionRegistry` with its states. A call of `enable_extension` or `disable_extension` is split
at its lock section, the write of its state and its return; a call of `hot_reload` at its
snapshot, each hook, the scan, the read of the states, their replacement and the commit.
-/

namespace AionCore.Extension

structure ExtensionState where
  name : String
  version : String
  enabled : Bool
  installedAt : Option ℤ
  lastActivatedAt : Option ℤ

/-- What a scan finds: a manifest, the rest `C` of the manifest, and the directory. -/
structure FoundExtension (C : Type) where
  manifest : ExtensionManifest
  rest : C
  directory : String

/-- A `LoadedExtension` with its directory and its runtime state. -/
structure RegisteredExtension (C : Type) extends LoadedExtension where
  rest : C
  directory : String
  state : ExtensionState

/-- What loading and resolving take from elsewhere: versions, the compatibility with the
application, and the contributions of one extension with how they are merged. -/
structure ExtensionCrates (C R : Type) where
  semver : Semver
  isCompatible : C → Bool
  resolve : String → String → C → R
  noContributions : R
  mergeContributions : R → R → R
  sortSettingsTabs : R → R

inductive ExtensionError where
  | notFound (name : String)

variable {C R : Type}

namespace RegisteredExtension

def name (ext : RegisteredExtension C) : String := ext.manifest.name

def switch (enabled : Bool) (activatedAt : Option ℤ) (ext : RegisteredExtension C) :
    RegisteredExtension C :=
  { ext with state := { ext.state with
      enabled := enabled
      lastActivatedAt := activatedAt.or ext.state.lastActivatedAt } }

end RegisteredExtension

/-- `load_single_extension` of a valid manifest. -/
def loadSingleExtension (found : FoundExtension C) : RegisteredExtension C where
  manifest := found.manifest
  rest := found.rest
  directory := found.directory
  state := ⟨found.manifest.name, found.manifest.version, true, none, none⟩

/-- `load_all`: of several extensions of a name the first counts. -/
def loadAll (found : List (FoundExtension C)) : List (RegisteredExtension C) :=
  found.foldl (fun result f =>
    if result.any (·.name = f.manifest.name) then result
    else result ++ [loadSingleExtension f]) []

def byName (extensions : List (RegisteredExtension C)) : Dict String (RegisteredExtension C) :=
  extensions.foldl (fun d ext => d.insert ext.name ext) ∅

/-- One round of the first loop of `sort_by_load_order`. -/
def takeNext (s : List (RegisteredExtension C) × Dict String (RegisteredExtension C))
    (name : String) : List (RegisteredExtension C) × Dict String (RegisteredExtension C) :=
  match s.2.lookup name with
  | some ext => (s.1 ++ [ext], s.2.erase name)
  | none => s

def sortByLoadOrder (extensions : List (RegisteredExtension C)) (loadOrder : List String) :
    List (RegisteredExtension C) :=
  let (sorted, remaining) := loadOrder.foldl takeNext ([], byName extensions)
  sorted ++ remaining.values.insertionSort (·.name ≤ ·.name)

def loadAndValidate (crates : ExtensionCrates C R) (found : List (FoundExtension C)) :
    List (RegisteredExtension C) :=
  let filtered := (loadAll found).filter fun ext => crates.isCompatible ext.rest
  let result := validateDependencies crates.semver (filtered.map (·.toLoadedExtension))
  sortByLoadOrder filtered result.loadOrder

/-- One extension in `merge_persisted_states`. -/
def mergePersistedState (persisted : Dict String ExtensionState) (ext : RegisteredExtension C) :
    RegisteredExtension C :=
  match persisted.lookup ext.name with
  | some saved =>
    { ext with state := { ext.state with
        enabled := saved.enabled
        installedAt := saved.installedAt
        lastActivatedAt := saved.lastActivatedAt } }
  | none => ext

def mergePersistedStates (extensions : List (RegisteredExtension C))
    (persisted : Dict String ExtensionState) : List (RegisteredExtension C) :=
  extensions.map (mergePersistedState persisted)

/-- One extension in `run_activation_hooks`; a hook that fails is logged. -/
def activate (now : ℤ) (ext : RegisteredExtension C) : RegisteredExtension C :=
  if ext.state.enabled then
    { ext with state := { ext.state with
        lastActivatedAt := some now
        installedAt := ext.state.installedAt.or (some now) } }
  else ext

def buildStateMap (extensions : List (RegisteredExtension C)) : Dict String ExtensionState :=
  extensions.foldl (fun d ext => d.insert ext.state.name ext.state) ∅

def resolveExtensionContributions (crates : ExtensionCrates C R) (ext : RegisteredExtension C) :
    R :=
  crates.resolve ext.name ext.directory ext.rest

def resolveAllContributions (crates : ExtensionCrates C R)
    (extensions : List (RegisteredExtension C)) : R :=
  crates.sortSettingsTabs (extensions.foldl (fun merged ext =>
    if ext.state.enabled then
      crates.mergeContributions merged (resolveExtensionContributions crates ext)
    else merged) crates.noContributions)

/-- Where a call of `enable_extension` or `disable_extension` stands. -/
inductive SwitchStage where
  | persisting (state : ExtensionState)
  | persisted
  | returned (result : Except ExtensionError Unit)

def SwitchStage.isPersisting : SwitchStage → Bool
  | .persisting _ => true
  | _ => false

def SwitchStage.isPersisted : SwitchStage → Bool
  | .persisted => true
  | _ => false

def SwitchStage.isReturned : SwitchStage → Bool
  | .returned _ => true
  | _ => false

/-- A call of `enable_extension` or `disable_extension` from its lock section on. -/
structure SwitchCall where
  name : String
  enabled : Bool
  stage : SwitchStage

/-- Where a call of `hot_reload` stands. -/
inductive ReloadStage (C R : Type) where
  | deactivating (rest : List (RegisteredExtension C))
  | loaded (extensions : List (RegisteredExtension C))
  | activating (now : ℤ) (activated rest : List (RegisteredExtension C))
  | committing (extensions : List (RegisteredExtension C)) (contributions : R)
  | returned

def ReloadStage.flagged : ReloadStage C R → List (RegisteredExtension C)
  | .activating _ activated rest => activated ++ rest
  | .committing extensions _ => extensions
  | _ => []

/-- The extensions of a reload that is about to read the states. -/
def ReloadStage.found : ReloadStage C R → List (RegisteredExtension C)
  | .loaded extensions => extensions
  | _ => []

def ReloadStage.isActivated : ReloadStage C R → Bool
  | .activating _ _ [] => true
  | _ => false

def ReloadStage.isReturned : ReloadStage C R → Bool
  | .returned => true
  | _ => false

/-- The registry with its state store and its calls. `switched` has the flag that the last
enable or disable call of an extension left under the lock, `settled` the flag of the last that
returned Ok. -/
structure ExtensionRegistry (C R : Type) where
  extensions : List (RegisteredExtension C)
  contributions : R
  states : Dict String ExtensionState
  switches : List SwitchCall
  reloads : List (ReloadStage C R)
  switched : Dict String Bool
  settled : Dict String Bool

inductive RegistryStep (C : Type) where
  | enable (name : String) (now : ℤ)
  | disable (name : String)
  | set (k : ℕ)
  | finish (k : ℕ)
  | hotReload
  | deactivate (r : ℕ)
  | load (r : ℕ) (found : List (FoundExtension C))
  | getAll (r : ℕ) (now : ℤ)
  | activate (r : ℕ)
  | setAll (r : ℕ)
  | commit (r : ℕ)

namespace ExtensionRegistry

variable (crates : ExtensionCrates C R)

/-- `initialize_with_scan_paths`, over the states of the file. -/
def initializeWithScanPaths (found : List (FoundExtension C))
    (persisted : Dict String ExtensionState) (now : ℤ) : ExtensionRegistry C R :=
  let extensions :=
    (mergePersistedStates (loadAndValidate crates found) persisted).map (Extension.activate now)
  { extensions := extensions
    contributions := resolveAllContributions crates extensions
    states := buildStateMap extensions
    switches := []
    reloads := []
    switched := ∅
    settled := ∅ }

def position (w : ExtensionRegistry C R) (name : String) : Option (ℕ × RegisteredExtension C) :=
  match w.extensions.findIdx? (·.name = name) with
  | some idx => w.extensions[idx]?.map fun ext => (idx, ext)
  | none => none

/-- The lock section of `enable_extension` and `disable_extension`. -/
def switch (enabled : Bool) (activatedAt : Option ℤ) (w : ExtensionRegistry C R) (name : String) :
    ExtensionRegistry C R :=
  match w.position name with
  | none =>
    { w with switches := w.switches ++ [⟨name, enabled, .returned (.error (.notFound name))⟩] }
  | some (idx, ext) =>
    if ext.state.enabled = enabled then
      { w with
        switches := w.switches ++ [⟨name, enabled, .returned (.ok ())⟩]
        switched := w.switched.insert name enabled
        settled := w.settled.insert name enabled }
    else
      let extensions := w.extensions.modify idx (·.switch enabled activatedAt)
      { w with
        extensions := extensions
        contributions := resolveAllContributions crates extensions
        switches := w.switches ++
          [⟨name, enabled, .persisting (ext.switch enabled activatedAt).state⟩]
        switched := w.switched.insert name enabled }

def enableExtension (w : ExtensionRegistry C R) (name : String) (now : ℤ) :
    ExtensionRegistry C R :=
  w.switch crates true (some now) name

def disableExtension (w : ExtensionRegistry C R) (name : String) : ExtensionRegistry C R :=
  w.switch crates false none name

/-- `ExtensionStateStore::set`. -/
def set (w : ExtensionRegistry C R) (k : ℕ) : ExtensionRegistry C R :=
  match w.switches[k]? with
  | some ⟨name, enabled, .persisting state⟩ =>
    { w with
      states := w.states.insert state.name state
      switches := w.switches.set k ⟨name, enabled, .persisted⟩ }
  | _ => w

/-- The change is broadcast and the call returns. -/
def finish (w : ExtensionRegistry C R) (k : ℕ) : ExtensionRegistry C R :=
  match w.switches[k]? with
  | some ⟨name, enabled, .persisted⟩ =>
    { w with
      switches := w.switches.set k ⟨name, enabled, .returned (.ok ())⟩
      settled := w.settled.insert name enabled }
  | _ => w

/-- `hot_reload` with its snapshot. -/
def hotReload (w : ExtensionRegistry C R) : ExtensionRegistry C R :=
  { w with reloads := w.reloads ++ [.deactivating w.extensions] }

def setReload (w : ExtensionRegistry C R) (r : ℕ) (stage : ReloadStage C R) :
    ExtensionRegistry C R :=
  { w with reloads := w.reloads.set r stage }

/-- The next extension in `run_deactivation_hooks`. -/
def deactivate (w : ExtensionRegistry C R) (r : ℕ) : ExtensionRegistry C R :=
  match w.reloads[r]? with
  | some (.deactivating (_ :: rest)) => w.setReload r (.deactivating rest)
  | _ => w

def load (w : ExtensionRegistry C R) (r : ℕ) (found : List (FoundExtension C)) :
    ExtensionRegistry C R :=
  match w.reloads[r]? with
  | some (.deactivating []) => w.setReload r (.loaded (loadAndValidate crates found))
  | _ => w

def getAll (w : ExtensionRegistry C R) (r : ℕ) (now : ℤ) : ExtensionRegistry C R :=
  match w.reloads[r]? with
  | some (.loaded extensions) =>
    w.setReload r (.activating now [] (mergePersistedStates extensions w.states))
  | _ => w

/-- The next extension in `run_activation_hooks`. -/
def activate (w : ExtensionRegistry C R) (r : ℕ) : ExtensionRegistry C R :=
  match w.reloads[r]? with
  | some (.activating now activated (ext :: rest)) =>
    w.setReload r (.activating now (activated ++ [Extension.activate now ext]) rest)
  | _ => w

def setAll (w : ExtensionRegistry C R) (r : ℕ) : ExtensionRegistry C R :=
  match w.reloads[r]? with
  | some (.activating _ extensions []) =>
    { w with
      states := buildStateMap extensions
      reloads := w.reloads.set r
        (.committing extensions (resolveAllContributions crates extensions)) }
  | _ => w

def commit (w : ExtensionRegistry C R) (r : ℕ) : ExtensionRegistry C R :=
  match w.reloads[r]? with
  | some (.committing extensions contributions) =>
    { w with
      extensions := extensions
      contributions := contributions
      reloads := w.reloads.set r .returned }
  | _ => w

def fire (w : ExtensionRegistry C R) : RegistryStep C → ExtensionRegistry C R
  | .enable name now => w.enableExtension crates name now
  | .disable name => w.disableExtension crates name
  | .set k => w.set k
  | .finish k => w.finish k
  | .hotReload => w.hotReload
  | .deactivate r => w.deactivate r
  | .load r found => w.load crates r found
  | .getAll r now => w.getAll r now
  | .activate r => w.activate r
  | .setAll r => w.setAll crates r
  | .commit r => w.commit r

/-- The registry after its initialisation. -/
def machine : Machine (ExtensionRegistry C R) (RegistryStep C) where
  start w := ∃ found persisted now, w = initializeWithScanPaths crates found persisted now
  admits _ _ := True
  fire := fire crates

end ExtensionRegistry

end AionCore.Extension
