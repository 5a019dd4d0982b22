import AionCore.File.FileService
import AionCore.Lib.Dict
import AionCore.Lib.Machine
import AionCore.Lib.Registry

/-!
# File service: the workspace file list

`list_workspace_files_with_extra_root` with its cache, and the requests that change the
disk, interleaved at the cache lookup, the walk, the store, the change and the return. A
listing remembers the tree it was walked in. The order in which a directory tree is walked,
with the entries that are ignored, is a parameter.
-/

namespace AionCore.File

/-- `WorkspaceFlatFile`. -/
structure WorkspaceFlatFile where
  name : String
  fullPath : String
  relativePath : String
  deriving DecidableEq

abbrev Walker := FileTree Bytes → Place → List Place

/-- `MAX_WORKSPACE_FILES`. -/
def maxWorkspaceFiles : ℕ := 20000

def flatFile (root path : Place) : WorkspaceFlatFile where
  name := path.getLast?.getD ""
  fullPath := shownPlace path
  relativePath := if root <+: path then shown (path.drop root.length) else shownPlace path

/-- The loop of `list_workspace_files_sync`, with the files found so far. Directories and
entries without metadata are skipped. -/
def collectFiles (t : FileTree Bytes) (root : Place) :
    List WorkspaceFlatFile → List Place → List WorkspaceFlatFile
  | files, [] => files
  | files, path :: paths =>
    if t.isFile path then
      let files := files ++ [flatFile root path]
      if files.length ≥ maxWorkspaceFiles then files else collectFiles t root files paths
    else collectFiles t root files paths

/-- `list_workspace_files_sync`. -/
def listWorkspaceFilesSync (walker : Walker) (t : FileTree Bytes) (root : Place) :
    List WorkspaceFlatFile :=
  collectFiles t root [] (walker t root)

/-- A listing, with the number of the tree it was walked in. -/
structure Listing where
  files : List WorkspaceFlatFile
  walkedAt : ℕ
  deriving DecidableEq

inductive ListStage where
  | walking
  | walked (listing : Listing)
  | answered

def ListStage.held : ListStage → Option Listing
  | .walked listing => some listing
  | _ => none

/-- A call of `list_workspace_files` that missed the cache; `seen` are the changes that had
returned when it started. -/
structure ListCall where
  root : Place
  seen : List ℕ
  stage : ListStage

/-- What a call returned. -/
structure Answer where
  root : Place
  seen : List ℕ
  listing : Listing
  deriving DecidableEq

/-- A request that has changed the disk and returns Ok: the tree that it left, and the
workspace whose key it drops from the cache, if it drops one. -/
structure Change where
  version : ℕ
  workspace : Option PathString
  returned : Bool

/-- The service with its disk. Trees are numbered in the order in which requests left
them; `returned` lists the changes that returned Ok. -/
structure FilesWorld where
  trees : ℕ → FileTree Bytes
  version : ℕ
  cache : Dict Place Listing
  calls : List ListCall
  changes : List Change
  returned : List ℕ
  answers : List Answer

/-- A step: a call starts, walks or stores its listing, a request changes the disk or
returns. -/
inductive FilesStep where
  | list (root : PathString) (extraRoot : Option PathString)
  | walk (k : ℕ)
  | store (k : ℕ)
  | change (request : Request)
  | finish (k : ℕ)

/-- A request to change the disk other than by an archive: what it leaves, whether it
returns Ok, and the workspace string whose key it drops. -/
def FileService.changeDisk (svc : FileService) (t : FileTree Bytes) :
    Request → FileTree.Effect Bytes × Bool × Option PathString
  | .writeFile path data workspace =>
    let outcome := svc.writeFile t path data workspace
    (outcome.effect, outcome.result.toOption.isSome, some workspace)
  | .copyFilesToWorkspace filePaths workspace sourceRoot =>
    let outcome := svc.copyFilesToWorkspace t filePaths workspace sourceRoot
    (outcome.effect, outcome.result.toOption.isSome, none)
  | .removeEntry path workspace =>
    let outcome := svc.removeEntry t path workspace
    (outcome.effect, outcome.result.toOption.isSome, some workspace)
  | .renameEntry path newName extraRoot =>
    let outcome := svc.renameEntryWithExtraRoot t path newName extraRoot
    (outcome.effect, outcome.result.toOption.isSome, none)
  | .createZip _ _ _ _ _ => (⟨t, []⟩, false, none)

namespace FilesWorld

variable (svc : FileService) (walker : Walker)

/-- A service that has just started on this disk. -/
def fresh (t : FileTree Bytes) : FilesWorld where
  trees _ := t
  version := 0
  cache := ∅
  calls := []
  changes := []
  returned := []
  answers := []

/-- The disk as it is. -/
def disk (w : FilesWorld) : FileTree Bytes := w.trees w.version

def filesAt (w : FilesWorld) (v : ℕ) (root : Place) : List WorkspaceFlatFile :=
  listWorkspaceFilesSync walker (w.trees v) root

/-- The change that left tree `v` has altered nothing of what is listed for this root. -/
def Leaves (w : FilesWorld) (v : ℕ) (root : Place) : Prop :=
  w.filesAt walker v root = w.filesAt walker (v - 1) root

instance (w : FilesWorld) (v : ℕ) (root : Place) : Decidable (w.Leaves walker v root) :=
  inferInstanceAs (Decidable (w.filesAt walker v root = w.filesAt walker (v - 1) root))

/-- The listing was walked after the change that left tree `v`, or is not altered by it. -/
def Reflects (w : FilesWorld) (root : Place) (listing : Listing) (v : ℕ) : Prop :=
  v ≤ listing.walkedAt ∨ w.Leaves walker v root

instance (w : FilesWorld) (root : Place) (listing : Listing) (v : ℕ) :
    Decidable (w.Reflects walker root listing v) := by
  unfold Reflects
  infer_instance

/-- Every listing returned is one of the disk, and it reflects each change that had
returned when its call started. -/
def UpToDate (w : FilesWorld) : Prop :=
  ∀ a ∈ w.answers, a.listing.files = w.filesAt walker a.listing.walkedAt a.root ∧
    ∀ v ∈ a.seen, w.Reflects walker a.root a.listing v

/-- The validation and the cache lookup of `list_workspace_files_with_extra_root`. -/
def startList (w : FilesWorld) (root : PathString) (extraRoot : Option PathString) : FilesWorld :=
  match validatePathWithExtraRoot w.disk svc.cwd root svc.allowedRoots extraRoot with
  | .error _ => w
  | .ok canonicalRoot =>
    match w.cache.lookup canonicalRoot with
    | some cached => { w with answers := w.answers ++ [⟨canonicalRoot, w.returned, cached⟩] }
    | none => { w with calls := w.calls ++ [⟨canonicalRoot, w.returned, .walking⟩] }

def walk (w : FilesWorld) (k : ℕ) : FilesWorld :=
  match w.calls[k]? with
  | some ⟨root, seen, .walking⟩ =>
    let listing := ⟨w.filesAt walker w.version root, w.version⟩
    { w with calls := w.calls.set k ⟨root, seen, .walked listing⟩ }
  | _ => w

/-- The insertion into the cache and the return. -/
def store (w : FilesWorld) (k : ℕ) : FilesWorld :=
  match w.calls[k]? with
  | some ⟨root, seen, .walked listing⟩ =>
    { w with
      cache := w.cache.insert root listing
      calls := w.calls.set k ⟨root, seen, .answered⟩
      answers := w.answers ++ [⟨root, seen, listing⟩] }
  | _ => w

/-- What a request does to the disk. -/
def change (w : FilesWorld) (request : Request) : FilesWorld :=
  let (done, ok, workspace) := svc.changeDisk w.disk request
  { w with
    trees := Function.update w.trees (w.version + 1) done.tree
    version := w.version + 1
    changes := if ok then w.changes ++ [⟨w.version + 1, workspace, false⟩] else w.changes }

def droppedKey (w : FilesWorld) (c : Change) : Option Place :=
  c.workspace.bind (svc.invalidateCache w.disk)

/-- The invalidation and the return. -/
def finish (w : FilesWorld) (k : ℕ) : FilesWorld :=
  match w.changes[k]? with
  | some c =>
    if c.returned then w
    else
      { w with
        cache := match w.droppedKey svc c with
          | some key => AList.erase key w.cache
          | none => w.cache
        changes := w.changes.set k { c with returned := true }
        returned := w.returned ++ [c.version] }
  | none => w

def fire (w : FilesWorld) : FilesStep → FilesWorld
  | .list root extraRoot => w.startList svc root extraRoot
  | .walk k => w.walk walker k
  | .store k => w.store k
  | .change request => w.change svc request
  | .finish k => w.finish svc k

def machine : Machine FilesWorld FilesStep where
  start w := ∃ t, w = fresh t
  admits _ _ := True
  fire := fire svc walker

/-- When a change returns, every listing that is still cached after it has dropped its key,
and every listing that is walked but not yet stored, reflects it. -/
def Drops (w : FilesWorld) (k : ℕ) : Prop :=
  ∀ c ∈ w.changes[k]?, c.returned = false →
    (∀ e ∈ w.cache.entries, some e.1 ≠ w.droppedKey svc c → w.Reflects walker e.1 e.2 c.version) ∧
    ∀ call ∈ w.calls, ∀ listing ∈ call.stage.held,
      w.Reflects walker call.root listing c.version

/-- Every change that returns finds no other listing that it made stale. -/
def Invalidates (w : FilesWorld) : FilesStep → Prop
  | .finish k => w.Drops svc walker k
  | _ => True

variable {svc walker} {w : FilesWorld} {root : Place} {listing : Listing} {vs : List ℕ} {v k : ℕ}

def Good (walker : Walker) (w : FilesWorld) (root : Place) (listing : Listing) (vs : List ℕ) :
    Prop :=
  listing.walkedAt ≤ w.version ∧ listing.files = w.filesAt walker listing.walkedAt root ∧
    ∀ v ∈ vs, v ≤ w.version ∧ w.Reflects walker root listing v

theorem Good.subset {vs' : List ℕ} (h : w.Good walker root listing vs) (hs : vs' ⊆ vs) :
    w.Good walker root listing vs' :=
  ⟨h.1, h.2.1, fun v hv => h.2.2 v (hs hv)⟩

theorem filesAt_change (request : Request) (h : v ≤ w.version) :
    (w.change svc request).filesAt walker v root = w.filesAt walker v root := by
  have hne : v ≠ w.version + 1 := by omega
  show listWorkspaceFilesSync walker (Function.update w.trees (w.version + 1) _ v) root = _
  rw [Function.update_of_ne hne]
  rfl

theorem Good.change (h : w.Good walker root listing vs) (request : Request) :
    (w.change svc request).Good walker root listing vs := by
  obtain ⟨hat, hfiles, hvs⟩ := h
  have hversion : (w.change svc request).version = w.version + 1 := rfl
  refine ⟨by omega, ?_, fun v hv => ?_⟩
  · rw [filesAt_change request hat]
    exact hfiles
  · obtain ⟨hle, hr⟩ := hvs v hv
    refine ⟨by omega, ?_⟩
    rcases hr with hr | hr
    · exact .inl hr
    · refine .inr ?_
      rw [Leaves, filesAt_change request hle, filesAt_change request (by omega)]
      exact hr

theorem good_now (h : ∀ v ∈ vs, v ≤ w.version) :
    w.Good walker root ⟨w.filesAt walker w.version root, w.version⟩ vs :=
  ⟨le_rfl, rfl, fun v hv => ⟨h v hv, .inl (h v hv)⟩⟩

/-- What can still be returned reflects all changes that have returned. -/
structure Current (walker : Walker) (w : FilesWorld) : Prop where
  cached : ∀ root listing, w.cache.lookup root = some listing →
    w.Good walker root listing w.returned
  walked : ∀ call ∈ w.calls, ∀ listing ∈ call.stage.held,
    w.Good walker call.root listing w.returned
  seen : ∀ call ∈ w.calls, call.seen ⊆ w.returned
  returned : ∀ v ∈ w.returned, v ≤ w.version
  changes : ∀ c ∈ w.changes, c.version ≤ w.version
  answers : ∀ a ∈ w.answers, w.Good walker a.root a.listing a.seen

section

variable (h : w.Current walker)
include h

theorem Current.upToDate : w.UpToDate walker := fun a ha =>
  ⟨(h.answers a ha).2.1, fun v hv => ((h.answers a ha).2.2 v hv).2⟩

theorem Current.startList (path : PathString) (extraRoot : Option PathString) :
    (w.startList svc path extraRoot).Current walker := by
  rw [FilesWorld.startList]
  split
  · exact h
  · rename_i root _
    split
    · rename_i cached hcached
      refine { h with answers := fun a ha => ?_ }
      rcases List.mem_append.mp ha with ha | ha
      · exact h.answers a ha
      · rw [List.mem_singleton.mp ha]
        exact h.cached root cached hcached
    · refine { h with walked := fun call hcall => ?_, seen := fun call hcall => ?_ }
      · rcases List.mem_append.mp hcall with hcall | hcall
        · exact h.walked call hcall
        · rw [List.mem_singleton.mp hcall]
          simp [ListStage.held]
      · rcases List.mem_append.mp hcall with hcall | hcall
        · exact h.seen call hcall
        · rw [List.mem_singleton.mp hcall]
          exact List.Subset.refl _

theorem Current.walk (k : ℕ) : (w.walk walker k).Current walker := by
  rw [FilesWorld.walk]
  split
  · rename_i root seen hk
    refine { h with walked := fun call hcall => ?_, seen := fun call hcall => ?_ }
    · rcases List.mem_or_eq_of_mem_set hcall with hcall | rfl
      · exact h.walked call hcall
      · intro listing hl
        obtain rfl : _ = listing := by simpa [ListStage.held] using hl
        exact good_now h.returned
    · rcases List.mem_or_eq_of_mem_set hcall with hcall | rfl
      · exact h.seen call hcall
      · have hmem : (⟨root, seen, .walking⟩ : ListCall) ∈ w.calls := List.mem_of_getElem? hk
        have hseen : seen ⊆ w.returned := h.seen _ hmem
        exact hseen
  · exact h

theorem Current.store (k : ℕ) : (w.store k).Current walker := by
  rw [FilesWorld.store]
  split
  · rename_i root seen listing hk
    have hmem := List.mem_of_getElem? hk
    have hgood : w.Good walker root listing w.returned := h.walked _ hmem listing rfl
    have hseen : seen ⊆ w.returned := h.seen _ hmem
    refine { h with cached := fun r l hl => ?_, walked := fun call hcall => ?_,
                    seen := fun call hcall => ?_, answers := fun a ha => ?_ }
    · rw [Dict.lookup_insert'] at hl
      split at hl
      · rename_i he
        rw [← Option.some.inj hl, he]
        exact hgood
      · exact h.cached r l hl
    · rcases List.mem_or_eq_of_mem_set hcall with hcall | rfl
      · exact h.walked call hcall
      · simp [ListStage.held]
    · rcases List.mem_or_eq_of_mem_set hcall with hcall | rfl
      · exact h.seen call hcall
      · exact hseen
    · rcases List.mem_append.mp ha with ha | ha
      · exact h.answers a ha
      · rw [List.mem_singleton.mp ha]
        exact hgood.subset hseen
  · exact h

theorem Current.change (request : Request) :
    (w.change svc request).Current walker := by
  have hversion : (w.change svc request).version = w.version + 1 := rfl
  constructor
  case cached => exact fun root listing hl => (h.cached root listing hl).change request
  case walked => exact fun call hcall l hl => (h.walked call hcall l hl).change request
  case seen => exact h.seen
  case returned =>
    intro v hv
    have := h.returned v hv
    omega
  case changes =>
    intro c hc
    have hold : ∀ c ∈ w.changes, c.version ≤ (w.change svc request).version := by
      intro c hc
      have := h.changes c hc
      omega
    rw [FilesWorld.change] at hc
    dsimp only at hc
    split at hc
    · rcases List.mem_append.mp hc with hc | hc
      · exact hold c hc
      · rw [List.mem_singleton.mp hc]
        exact hversion.ge
    · exact hold c hc
  case answers => exact fun a ha => (h.answers a ha).change request

theorem Current.finish (hdrops : w.Drops svc walker k) :
    (w.finish svc k).Current walker := by
  rw [FilesWorld.finish]
  split
  · rename_i c hk
    by_cases hret : c.returned = true
    · rw [if_pos hret]
      exact h
    rw [if_neg hret]
    obtain ⟨hcache, hcalls⟩ := hdrops c hk (by simpa using hret)
    have hle : c.version ≤ w.version := h.changes c (List.mem_of_getElem? hk)
    have hadd : ∀ root listing, w.Good walker root listing w.returned →
        w.Reflects walker root listing c.version →
        w.Good walker root listing (w.returned ++ [c.version]) := by
      rintro root listing ⟨hat, hfiles, hvs⟩ hr
      refine ⟨hat, hfiles, fun v hv => ?_⟩
      rcases List.mem_append.mp hv with hv | hv
      · exact hvs v hv
      · rw [List.mem_singleton.mp hv]
        exact ⟨hle, hr⟩
    constructor
    case cached =>
      intro root listing hl
      have hold : w.cache.lookup root = some listing ∧
          some root ≠ w.droppedKey svc c := by
        split at hl
        · rename_i key hkey
          rw [Dict.lookup_erase'] at hl
          split at hl
          · cases hl
          · rename_i hne
            rw [hkey]
            exact ⟨hl, fun he => hne (Option.some.inj he)⟩
        · rename_i hkey
          rw [hkey]
          exact ⟨hl, by simp⟩
      exact hadd root listing (h.cached root listing hold.1)
        (hcache ⟨root, listing⟩ (AList.mem_lookup_iff.mp hold.1) hold.2)
    case walked =>
      exact fun call hcall l hl => hadd call.root l (h.walked call hcall l hl)
        (hcalls call hcall l hl)
    case seen =>
      exact fun call hcall => List.Subset.trans (h.seen call hcall) (List.subset_append_left _ _)
    case returned =>
      intro v hv
      rcases List.mem_append.mp hv with hv | hv
      · exact h.returned v hv
      · rw [List.mem_singleton.mp hv]
        exact hle
    case changes =>
      intro c' hc'
      rcases List.mem_or_eq_of_mem_set hc' with hc' | rfl
      · exact h.changes c' hc'
      · exact hle
    case answers => exact h.answers
  · exact h

end

/-- No listing that starts after a change returned is older than the change, in every run in
which each change, when it returns, has made no listing stale but those under the key that it
drops. -/
theorem listing_reflects_changes
    (h : ((machine svc walker).restrict (Invalidates svc walker)).Reachable w) :
    w.UpToDate walker := by
  refine Current.upToDate (h.invariant
    (M := (machine svc walker).restrict (Invalidates svc walker)) (P := Current walker) ?_ ?_)
  · rintro _ ⟨t, rfl⟩
    constructor <;> intros <;> simp_all [fresh]
  · rintro w step hw ⟨-, hstep⟩
    cases step with
    | list root extraRoot => exact hw.startList root extraRoot
    | walk k => exact hw.walk k
    | store k => exact hw.store k
    | change request => exact hw.change request
    | finish k => exact hw.finish hstep

section Execution

instance decidableDrops (svc : FileService) (walker : Walker) (w : FilesWorld) (k : ℕ) :
    Decidable (w.Drops svc walker k) := by
  unfold Drops
  infer_instance

instance decidableAdmits (svc : FileService) (walker : Walker) (w : FilesWorld)
    (step : FilesStep) : Decidable ((machine svc walker).admits w step) :=
  inferInstanceAs (Decidable True)

instance decidableInvalidates (svc : FileService) (walker : Walker) (w : FilesWorld)
    (step : FilesStep) : Decidable (Invalidates svc walker w step) :=
  match step with
  | .finish k => inferInstanceAs (Decidable (w.Drops svc walker k))
  | .list _ _ | .walk _ | .store _ | .change _ => isTrue trivial

/-- A service for the directory `/ws`. -/
def workspaceService : FileService := ⟨[["", "ws"]], []⟩

/-- The directory holds the file `a`. -/
def workspaceTree : FileTree Bytes where
  node
    | ["ws"] => some .dir
    | ["ws", "a"] => some (.file [1])
    | _ => none

/-- A walk over what stands under the names `a` and `b`. -/
def sampleWalker : Walker := fun t root =>
  [root ++ ["a"], root ++ ["b"]].filter fun path => t.pathExists path

/-- The workspace is listed. -/
def listed (k : ℕ) : List FilesStep := [.list ["", "ws"] none, .walk k, .store k]

/-- A rename drops no key, so the next listing still shows the old name. -/
theorem rename_leaves_cache :
    ¬∀ w, (machine workspaceService sampleWalker).Reachable w → w.UpToDate sampleWalker := by
  intro h
  let steps := listed 0 ++ [.change (.renameEntry ["", "ws", "a"] "b" none), .finish 0,
    .list ["", "ws"] none]
  have accepts : (machine workspaceService sampleWalker).Accepts (fresh workspaceTree) steps := by
    decide +kernel
  have current := h _ (Machine.reachable_run ⟨workspaceTree, rfl⟩ accepts)
  let old : Answer := ⟨["ws"], [1], ⟨[⟨"a", "/ws/a", "a"⟩], 0⟩⟩
  have hold : old ∈ ((machine workspaceService sampleWalker).run (fresh workspaceTree)
      steps).answers := by
    decide +kernel
  have hreflects := (current old hold).2 1 (List.mem_singleton_self 1)
  revert hreflects
  decide +kernel

/-- Instance: a file is written in the workspace that is listed before and after. -/
theorem listing_reflects_changes_sample :
    ((machine workspaceService sampleWalker).run (fresh workspaceTree) (listed 0 ++
      [.change (.writeFile ["", "ws", "b"] [2] ["", "ws"]), .finish 0] ++ listed 1)).UpToDate
        sampleWalker := by
  have accepts : ((machine workspaceService sampleWalker).restrict
      (Invalidates workspaceService sampleWalker)).Accepts (fresh workspaceTree) (listed 0 ++
        [.change (.writeFile ["", "ws", "b"] [2] ["", "ws"]), .finish 0] ++ listed 1) := by
    decide +kernel
  exact listing_reflects_changes (Machine.reachable_run
    (M := (machine workspaceService sampleWalker).restrict
      (Invalidates workspaceService sampleWalker)) ⟨workspaceTree, rfl⟩ accepts)

end Execution

end FilesWorld

end AionCore.File
