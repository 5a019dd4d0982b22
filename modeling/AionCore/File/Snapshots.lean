import AionCore.File.PathSafety
import AionCore.Lib.Dict
import AionCore.Lib.Machine

/-!
# File service: snapshots

`SnapshotService` over the real workspaces and a store of temporary repositories. An `init` is
split at its lookup, the resolution of the path, the removal of what is left in the temporary
directory, the creation of the repository, its first commit, the check and the entry of the
state; the other calls at their lookup and their work on the repository.
-/

namespace AionCore.File

variable {γ : Type}

inductive SnapshotMode where
  | gitRepo
  | snapshot
  deriving DecidableEq

structure SnapshotInfo where
  mode : SnapshotMode
  branch : Option String

inductive FileChangeOperation where
  | create
  | modify
  | delete
  deriving DecidableEq

structure FileChangeInfo where
  filePath : String
  relativePath : String
  operation : FileChangeOperation

structure CompareResult where
  staged : List FileChangeInfo
  unstaged : List FileChangeInfo

/-- A repository: the tree of its HEAD, its index, and the branch that HEAD is on. -/
structure GitRepo (γ : Type) where
  head : Option (Dict String γ)
  index : Dict String γ
  branch : Option String

/-- The real workspaces: where a path string leads, the files of a directory by their paths in
it, and the repository that it has itself. -/
structure Disk (γ : Type) where
  canonicalize : String → Option String
  files : String → Dict String γ
  git : String → Option (GitRepo γ)

/-- What the service takes from elsewhere: the temporary directory, the hash of a path in
hexadecimal, the ignore rules, the text of a content, and error texts of git. -/
structure SnapshotCrates (γ : Type) where
  tempDir : String
  hash : String → String
  isIgnored : String → Bool
  text : γ → Option String
  openError : String → String
  unbornHead : String

structure WorkspaceState where
  mode : SnapshotMode
  repoPath : String
  workspacePath : String

def tempRepoPath (crates : SnapshotCrates γ) (workspace : String) : String :=
  crates.tempDir ++ "/aionui-snapshot-" ++ crates.hash workspace

def buildInfo (mode : SnapshotMode) (repo : GitRepo γ) : SnapshotInfo where
  mode := mode
  branch := match mode with
    | .gitRepo => repo.branch
    | .snapshot => none

def isUnder (path p : String) : Bool := p = path ∨ (path ++ "/").toList <+: p.toList

def indexOperation [DecidableEq γ] : Option γ → Option γ → Option FileChangeOperation
  | none, some _ => some .create
  | some a, some b => if a = b then none else some .modify
  | some _, none => some .delete
  | none, none => none

def worktreeOperation [DecidableEq γ] (ignored : Bool) :
    Option γ → Option γ → Option FileChangeOperation
  | none, some _ => if ignored then none else some .create
  | some a, some b => if a = b then none else some .modify
  | some _, none => some .delete
  | none, none => none

def fullPath (workspace relPath : String) : String :=
  String.ofList (workspace.toList.reverse.dropWhile (· = '/')).reverse ++ "/" ++ relPath

namespace GitRepo

/-- `parse_statuses`; git reports the files in the order of their paths. -/
def parseStatuses [DecidableEq γ] (crates : SnapshotCrates γ) (repo : GitRepo γ)
    (workspace : String) (files : Dict String γ) : CompareResult :=
  let head := repo.head.getD ∅
  let paths := (head.keys ++ repo.index.keys ++ files.keys).dedup.insertionSort (· ≤ ·)
  let changes := fun (operation : String → Option FileChangeOperation) =>
    paths.filterMap fun p => (operation p).map fun op => ⟨fullPath workspace p, p, op⟩
  { staged := changes fun p => indexOperation (head.lookup p) (repo.index.lookup p)
    unstaged := changes fun p =>
      worktreeOperation (crates.isIgnored p) (repo.index.lookup p) (files.lookup p) }

/-- `read_baseline`. -/
def readBaseline (crates : SnapshotCrates γ) (repo : GitRepo γ) (relPath : String) :
    Option String :=
  repo.head.bind fun head => (head.lookup relPath).bind crates.text

def stageSingleFile (repo : GitRepo γ) (files : Dict String γ) (relPath : String) : GitRepo γ :=
  match files.lookup relPath with
  | some content => { repo with index := repo.index.insert relPath content }
  | none => { repo with index := repo.index.erase relPath }

/-- What `add_all` does to an index. -/
def addAll (crates : SnapshotCrates γ) (index files : Dict String γ) : Dict String γ :=
  (files.retain fun p _ => (index.lookup p).isSome || !crates.isIgnored p) ∪ index

def stageAllWithDeletions (crates : SnapshotCrates γ) (repo : GitRepo γ)
    (files : Dict String γ) : GitRepo γ :=
  { repo with
    index := (addAll crates repo.index files).retain fun p _ => (files.lookup p).isSome }

def unstageSingleFile (repo : GitRepo γ) (head : Dict String γ) (relPath : String) : GitRepo γ :=
  { repo with
    index := (head.retain fun p _ => isUnder relPath p) ∪
      repo.index.retain fun p _ => !isUnder relPath p }

def unstageAllFiles (repo : GitRepo γ) (head : Dict String γ) : GitRepo γ :=
  { repo with index := head }

/-- `checkout_path_from_head`, which updates the index too. -/
def checkoutPathFromHead (repo : GitRepo γ) (head files : Dict String γ) (relPath : String) :
    GitRepo γ × Dict String γ :=
  let restored := head.retain fun p _ => isUnder relPath p
  ({ repo with index := restored ∪ repo.index }, restored ∪ files)

end GitRepo

/-- A call on an initialized workspace. -/
inductive SnapshotOp where
  | getInfo
  | compare
  | baselineContent (filePath : String)
  | stageFile (filePath : String)
  | stageAll
  | unstageFile (filePath : String)
  | unstageAll
  | discardFile (filePath : String) (operation : FileChangeOperation)
  | resetFile (filePath : String) (operation : FileChangeOperation)

inductive SnapshotResult where
  | info (info : SnapshotInfo)
  | compared (result : CompareResult)
  | content (text : Option String)
  | done

/-- The repository and the files after a call, and what it returns. -/
structure Performed (γ : Type) where
  repo : GitRepo γ
  files : Dict String γ
  result : Except FileError SnapshotResult

/-- `discard_single_file`. -/
def discardSingleFile (crates : SnapshotCrates γ) (repo : GitRepo γ) (files : Dict String γ)
    (relPath : String) : FileChangeOperation → Performed γ
  | .create => ⟨repo, files.erase relPath, .ok .done⟩
  | .modify | .delete =>
    match repo.head with
    | none => ⟨repo, files, .error (.internal
        ("Failed to checkout " ++ relPath ++ " from HEAD: " ++ crates.unbornHead))⟩
    | some head =>
      let (repo, files) := repo.checkoutPathFromHead head files relPath
      ⟨repo, files, .ok .done⟩

/-- The work of a call on its repository, unless git or the file system fails. -/
def SnapshotOp.perform [DecidableEq γ] (crates : SnapshotCrates γ) (state : WorkspaceState)
    (repo : GitRepo γ) (files : Dict String γ) : SnapshotOp → Performed γ
  | .getInfo => ⟨repo, files, .ok (.info (buildInfo state.mode repo))⟩
  | .compare =>
    ⟨repo, files, .ok (.compared (repo.parseStatuses crates state.workspacePath files))⟩
  | .baselineContent filePath =>
    ⟨repo, files, .ok (.content (repo.readBaseline crates filePath))⟩
  | .stageFile filePath => ⟨repo.stageSingleFile files filePath, files, .ok .done⟩
  | .stageAll => ⟨repo.stageAllWithDeletions crates files, files, .ok .done⟩
  | .unstageFile filePath =>
    match repo.head with
    | none => ⟨repo, files, .error (.internal ("Failed to get HEAD: " ++ crates.unbornHead))⟩
    | some head => ⟨repo.unstageSingleFile head filePath, files, .ok .done⟩
  | .unstageAll =>
    match repo.head with
    | none => ⟨repo, files, .error (.internal ("Failed to get HEAD: " ++ crates.unbornHead))⟩
    | some head => ⟨repo.unstageAllFiles head, files, .ok .done⟩
  | .discardFile filePath operation => discardSingleFile crates repo files filePath operation
  | .resetFile filePath operation =>
    let repo := match repo.head with
      | none => repo
      | some head => repo.unstageSingleFile head filePath
    discardSingleFile crates repo files filePath operation

/-- Where a call of `init` stands. `content` is what the first commit took from the workspace. -/
inductive InitStage (γ : Type) where
  | opening (state : WorkspaceState)
  | resolving
  | clearing (state : WorkspaceState)
  | creating (state : WorkspaceState)
  | committing (state : WorkspaceState)
  | checking (state : WorkspaceState) (content : Option (Dict String γ))
  | inserting (state : WorkspaceState) (content : Option (Dict String γ)) (info : SnapshotInfo)
  | returned (result : Except FileError SnapshotInfo)

namespace InitStage

def clears : InitStage γ → Option String
  | .clearing state => some state.repoPath
  | _ => none

def builds : InitStage γ → Option String
  | .creating state => some state.repoPath
  | .committing state => some state.repoPath
  | .checking state (some _) => some state.repoPath
  | .inserting state (some _) _ => some state.repoPath
  | _ => none

def inserts : InitStage γ → Bool
  | .inserting .. => true
  | _ => false

end InitStage

structure InitCall (γ : Type) where
  workspace : String
  stage : InitStage γ

/-- A call on an initialized workspace, with the state that it has looked up. -/
structure OpCall where
  state : WorkspaceState
  op : SnapshotOp
  result : Option (Except FileError SnapshotResult)

/-- A call of `dispose` that has taken out the state, with the directory to remove. -/
structure DisposeCall where
  repoPath : String
  result : Option (Except FileError Unit)

/-- The service with its calls, the real workspaces and the temporary repositories. `live` has
the workspace strings that are initialized in snapshot mode, each with what the first of its inits
took from the workspace. -/
structure SnapshotWorld (γ : Type) where
  disk : Disk γ
  repos : Dict String (GitRepo γ)
  workspaces : Dict String WorkspaceState
  inits : List (InitCall γ)
  ops : List OpCall
  disposes : List DisposeCall
  live : Dict String (Dict String γ)

inductive SnapshotStep (γ : Type) where
  | edit (disk : Disk γ)
  | init (workspace : String)
  | openRepo (k : ℕ)
  | resolve (k : ℕ)
  | clear (k : ℕ)
  | clearFails (k : ℕ) (gone : Bool) (error : String)
  | create (k : ℕ)
  | commit (k : ℕ)
  | check (k : ℕ)
  | initFails (k : ℕ) (error : String)
  | insert (k : ℕ)
  | call (workspace : String) (op : SnapshotOp)
  | perform (j : ℕ) (failure : Option String)
  | dispose (workspace : String)
  | removeDir (d : ℕ)
  | removeDirFails (d : ℕ) (gone : Bool) (error : String)

namespace SnapshotWorld

variable [DecidableEq γ] (crates : SnapshotCrates γ)

/-- A service that has just started. -/
def new (disk : Disk γ) (repos : Dict String (GitRepo γ)) : SnapshotWorld γ :=
  ⟨disk, repos, ∅, [], [], [], ∅⟩

/-- `Repository::open` on the repository of a state. -/
def repoOf (w : SnapshotWorld γ) (state : WorkspaceState) : Option (GitRepo γ) :=
  match state.mode with
  | .gitRepo => w.disk.git state.repoPath
  | .snapshot => w.repos.lookup state.repoPath

/-- `open_repo`. -/
def openRepoOf (w : SnapshotWorld γ) (state : WorkspaceState) : Except FileError (GitRepo γ) :=
  match w.repoOf state with
  | some repo => .ok repo
  | none => .error (.internal ("Failed to open git repo at " ++ state.repoPath ++ ": " ++
      crates.openError state.repoPath))

def setInit (w : SnapshotWorld γ) (k : ℕ) (workspace : String) (stage : InitStage γ) :
    SnapshotWorld γ :=
  { w with inits := w.inits.set k ⟨workspace, stage⟩ }

/-- `init` with its lookup. -/
def init (w : SnapshotWorld γ) (workspace : String) : SnapshotWorld γ :=
  match w.workspaces.lookup workspace with
  | some state => { w with inits := w.inits ++ [⟨workspace, .opening state⟩] }
  | none => { w with inits := w.inits ++ [⟨workspace, .resolving⟩] }

def openRepo (w : SnapshotWorld γ) (k : ℕ) : SnapshotWorld γ :=
  match w.inits[k]? with
  | some ⟨workspace, .opening state⟩ =>
    match w.openRepoOf crates state with
    | .error e => w.setInit k workspace (.returned (.error e))
    | .ok repo => w.setInit k workspace (.returned (.ok (buildInfo state.mode repo)))
  | _ => w

/-- `resolve_workspace` and the choice of the mode. -/
def resolve (w : SnapshotWorld γ) (k : ℕ) : SnapshotWorld γ :=
  match w.inits[k]? with
  | some ⟨workspace, .resolving⟩ =>
    match w.disk.canonicalize workspace with
    | none => w.setInit k workspace
        (.returned (.error (.notFound ("Workspace not found: " ++ workspace))))
    | some canonical =>
      if (w.disk.git canonical).isSome then
        w.setInit k workspace (.checking ⟨.gitRepo, canonical, canonical⟩ none)
      else w.setInit k workspace
        (.clearing ⟨.snapshot, tempRepoPath crates canonical, canonical⟩)
  | _ => w

def clear (w : SnapshotWorld γ) (k : ℕ) : SnapshotWorld γ :=
  match w.inits[k]? with
  | some ⟨workspace, .clearing state⟩ =>
    { w.setInit k workspace (.creating state) with repos := w.repos.erase state.repoPath }
  | _ => w

def clearFails (w : SnapshotWorld γ) (k : ℕ) (gone : Bool) (error : String) : SnapshotWorld γ :=
  match w.inits[k]? with
  | some ⟨workspace, .clearing state⟩ =>
    { w.setInit k workspace (.returned (.error (.internal
        ("Failed to clean up existing snapshot dir " ++ state.repoPath ++ ": " ++ error)))) with
      repos := if gone then w.repos.erase state.repoPath else w.repos }
  | _ => w

/-- The repository is created; one that is there is kept. -/
def create (w : SnapshotWorld γ) (k : ℕ) : SnapshotWorld γ :=
  match w.inits[k]? with
  | some ⟨workspace, .creating state⟩ =>
    { w.setInit k workspace (.committing state) with
      repos := w.repos.insert state.repoPath
        ((w.repos.lookup state.repoPath).getD ⟨none, ∅, none⟩) }
  | _ => w

/-- All files are added and committed; HEAD must not be there yet. -/
def commit (w : SnapshotWorld γ) (k : ℕ) : SnapshotWorld γ :=
  match w.inits[k]? with
  | some ⟨workspace, .committing state⟩ =>
    match w.repos.lookup state.repoPath with
    | none => w.setInit k workspace (.returned (.error (.internal
        ("Failed to get index: " ++ crates.openError state.repoPath))))
    | some repo =>
      let files := w.disk.files state.workspacePath
      let index := GitRepo.addAll crates repo.index files
      match repo.head with
      | some _ =>
        { w.setInit k workspace (.returned (.error (.internal
            ("Failed to create initial commit: failed to create commit: " ++
              "current tip is not the first parent")))) with
          repos := w.repos.insert state.repoPath { repo with index := index } }
      | none =>
        { w.setInit k workspace
            (.checking state (some (files.retain fun p _ => !crates.isIgnored p))) with
          repos := w.repos.insert state.repoPath { repo with head := some index, index := index } }
  | _ => w

def check (w : SnapshotWorld γ) (k : ℕ) : SnapshotWorld γ :=
  match w.inits[k]? with
  | some ⟨workspace, .checking state content⟩ =>
    match w.repoOf state with
    | none => w.setInit k workspace (.returned (.error (.internal
        ("Failed to open repo after init: " ++ crates.openError state.repoPath))))
    | some repo => w.setInit k workspace (.inserting state content (buildInfo state.mode repo))
  | _ => w

def initFails (w : SnapshotWorld γ) (k : ℕ) (error : String) : SnapshotWorld γ :=
  match w.inits[k]? with
  | some ⟨workspace, .creating _⟩ => w.setInit k workspace (.returned (.error (.internal error)))
  | some ⟨workspace, .committing _⟩ => w.setInit k workspace (.returned (.error (.internal error)))
  | some ⟨workspace, .checking _ _⟩ => w.setInit k workspace (.returned (.error (.internal error)))
  | _ => w

/-- The state is entered and the call returns. -/
def insert (w : SnapshotWorld γ) (k : ℕ) : SnapshotWorld γ :=
  match w.inits[k]? with
  | some ⟨workspace, .inserting state content info⟩ =>
    { w.setInit k workspace (.returned (.ok info)) with
      workspaces := w.workspaces.insert workspace state
      live := match w.live.lookup workspace, content with
        | none, some content => w.live.insert workspace content
        | _, _ => w.live }
  | _ => w

/-- `get_state`. -/
def call (w : SnapshotWorld γ) (workspace : String) (op : SnapshotOp) : SnapshotWorld γ :=
  match w.workspaces.lookup workspace with
  | some state => { w with ops := w.ops ++ [⟨state, op, none⟩] }
  | none => { w with ops := w.ops ++ [⟨⟨.snapshot, "", ""⟩, op,
      some (.error (.badRequest ("Workspace not initialized: " ++ workspace)))⟩] }

def setRepo (w : SnapshotWorld γ) (state : WorkspaceState) (repo : GitRepo γ) : SnapshotWorld γ :=
  match state.mode with
  | .gitRepo => { w with disk := { w.disk with
      git := fun p => if p = state.repoPath then some repo else w.disk.git p } }
  | .snapshot => { w with repos := w.repos.insert state.repoPath repo }

/-- The work of a call; one that fails changes nothing. -/
def perform (w : SnapshotWorld γ) (j : ℕ) (failure : Option String) : SnapshotWorld γ :=
  match w.ops[j]? with
  | some ⟨state, op, none⟩ =>
    match w.openRepoOf crates state, failure with
    | .error e, _ => { w with ops := w.ops.set j ⟨state, op, some (.error e)⟩ }
    | .ok _, some e => { w with ops := w.ops.set j ⟨state, op, some (.error (.internal e))⟩ }
    | .ok repo, none =>
      let done := op.perform crates state repo (w.disk.files state.workspacePath)
      let w := w.setRepo state done.repo
      { w with
        disk := { w.disk with
          files := fun p => if p = state.workspacePath then done.files else w.disk.files p }
        ops := w.ops.set j ⟨state, op, some done.result⟩ }
  | _ => w

/-- `dispose` takes out the state. -/
def dispose (w : SnapshotWorld γ) (workspace : String) : SnapshotWorld γ :=
  match w.workspaces.lookup workspace with
  | none => w
  | some state =>
    { w with
      workspaces := w.workspaces.erase workspace
      live := w.live.erase workspace
      disposes := w.disposes ++ [⟨state.repoPath,
        if state.mode = .snapshot then none else some (.ok ())⟩] }

def removeDir (w : SnapshotWorld γ) (d : ℕ) : SnapshotWorld γ :=
  match w.disposes[d]? with
  | some ⟨repoPath, none⟩ =>
    { w with
      repos := w.repos.erase repoPath
      disposes := w.disposes.set d ⟨repoPath, some (.ok ())⟩ }
  | _ => w

def removeDirFails (w : SnapshotWorld γ) (d : ℕ) (gone : Bool) (error : String) :
    SnapshotWorld γ :=
  match w.disposes[d]? with
  | some ⟨repoPath, none⟩ =>
    { w with
      repos := if gone then w.repos.erase repoPath else w.repos
      disposes := w.disposes.set d ⟨repoPath, some (.error (.internal
        ("Failed to remove snapshot dir " ++ repoPath ++ ": " ++ error)))⟩ }
  | _ => w

def fire (w : SnapshotWorld γ) : SnapshotStep γ → SnapshotWorld γ
  | .edit disk => { w with disk := disk }
  | .init workspace => w.init workspace
  | .openRepo k => w.openRepo crates k
  | .resolve k => w.resolve crates k
  | .clear k => w.clear k
  | .clearFails k gone error => w.clearFails k gone error
  | .create k => w.create k
  | .commit k => w.commit crates k
  | .check k => w.check crates k
  | .initFails k error => w.initFails k error
  | .insert k => w.insert k
  | .call workspace op => w.call workspace op
  | .perform j failure => w.perform crates j failure
  | .dispose workspace => w.dispose workspace
  | .removeDir d => w.removeDir d
  | .removeDirFails d gone error => w.removeDirFails d gone error

/-- The service over any workspaces and whatever is left in the temporary directory. -/
def machine : Machine (SnapshotWorld γ) (SnapshotStep γ) where
  start w := ∃ disk repos, w = new disk repos
  admits _ _ := True
  fire := fire crates

end SnapshotWorld

end AionCore.File
