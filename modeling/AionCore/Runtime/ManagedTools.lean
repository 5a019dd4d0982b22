import AionCore.File.PathSafety
import AionCore.Lib.DirectPaths
import AionCore.Lib.Machine

/-!
# Managed tools

`ensure_managed_acp_tool` in bundled mode: any number of processes that share the data
directory, each with its own lock. A run is split at its validations, the lock, the removal of
the target, its creation, each copied entry and the removal after a failed validation; each of
these can fail, and a process can be killed between any two.
-/

namespace AionCore.Runtime

open File

variable {γ : Type}

inductive ManagedAcpToolId where
  | codexAcp
  | claudeAgentAcp

namespace ManagedAcpToolId

def slug : ManagedAcpToolId → String
  | .codexAcp => "codex-acp"
  | .claudeAgentAcp => "claude-agent-acp"

def version : ManagedAcpToolId → String
  | .codexAcp => "1.1.2"
  | .claudeAgentAcp => "0.58.1"

def displayName : ManagedAcpToolId → String
  | .codexAcp => "Codex ACP"
  | .claudeAgentAcp => "Claude ACP"

end ManagedAcpToolId

/-- The message of a `ManagedAcpToolError`. -/
abbrev ToolError := String

structure ResolvedManagedAcpTool where
  id : ManagedAcpToolId
  version : String
  root : Place
  entrypoint : PathString
  envPathEntries : List PathString

structure LocalArtifactManifest where
  entrypoint : PathString
  pathEntries : List PathString

/-- `Path::join` on a place. -/
def joinPath (root : Place) (path : PathString) : List String :=
  if path.head? = some "" ∧ path ≠ [""] then path else root ++ path

/-- An installation: the tool and the platform, the two roots, the entries of the bundled
source, and the parser of the manifest with its error text. -/
structure Install (γ : Type) where
  tool : ManagedAcpToolId
  manifestKey : String
  bundledRoot : Place
  runtimeRoot : Place
  entries : List Place
  parseManifest : γ → Except String LocalArtifactManifest

namespace Install

variable (i : Install γ)

/-- The root of the bundled source. -/
def source : Place := i.bundledRoot ++ ["acp", i.tool.slug, i.tool.version, i.manifestKey]

/-- `tool_root`. -/
def target : Place :=
  i.runtimeRoot ++ ["managed-tools", "acp", i.tool.slug, i.tool.version, i.manifestKey]

def binaryName (name : String) : String :=
  if "win32-".toList <+: i.manifestKey.toList then name ++ ".exe" else name

def vendorTriple : Option String :=
  match i.manifestKey with
  | "darwin-arm64" => some "aarch64-apple-darwin"
  | "darwin-x64" => some "x86_64-apple-darwin"
  | "linux-arm64" => some "aarch64-unknown-linux-musl"
  | "linux-x64" => some "x86_64-unknown-linux-musl"
  | "win32-arm64" => some "aarch64-pc-windows-msvc"
  | "win32-x64" => some "x86_64-pc-windows-msvc"
  | _ => none

def platformBinaryRelativePath : Except ToolError (List String) :=
  match i.tool with
  | .codexAcp =>
    match i.vendorTriple with
    | some vendorTriple => .ok ["node_modules", "@openai", "codex-" ++ i.manifestKey, "vendor",
        vendorTriple, "bin", i.binaryName "codex"]
    | none => .error ("unsupported Codex ACP platform " ++ i.manifestKey)
  | .claudeAgentAcp => .ok ["node_modules", "@anthropic-ai",
      "claude-agent-sdk-" ++ i.manifestKey, i.binaryName "claude"]

def validatePlatformBinary (t : FileTree γ) (root : Place) : Except ToolError Unit :=
  match i.platformBinaryRelativePath with
  | .error e => .error e
  | .ok path =>
    if t.isFile (root ++ path) then .ok ()
    else .error ("expected managed " ++ i.tool.displayName ++ " platform binary missing: " ++
      shownPlace (root ++ path))

def readLocalManifest (t : FileTree γ) (root : Place) : Except ToolError LocalArtifactManifest :=
  match t.read (root ++ ["manifest.json"]) with
  | .error e => .error (osError e)
  | .ok contents =>
    match i.parseManifest contents with
    | .error e => .error ("parse local ACP manifest failed for " ++
        shownPlace (root ++ ["manifest.json"]) ++ ": " ++ e)
    | .ok manifest => .ok manifest

def validateToolRoot (t : FileTree γ) (root : Place) : Except ToolError ResolvedManagedAcpTool :=
  match i.readLocalManifest t root with
  | .error e => .error e
  | .ok manifest =>
    let entrypoint := joinPath root manifest.entrypoint
    if t.isFile entrypoint then
      match i.validatePlatformBinary t root with
      | .error e => .error e
      | .ok () => .ok
        { id := i.tool
          version := i.tool.version
          root := root
          entrypoint := entrypoint
          envPathEntries := (manifest.pathEntries.map (joinPath root)).filter t.pathExists }
    else .error ("managed ACP entrypoint missing: " ++ shown entrypoint)

def accepts (t : FileTree γ) : Bool := (i.validateToolRoot t i.target).isOk

/-- What `copy_symlink` removes before it makes the link. -/
def removeExisting (t : FileTree γ) (path : List String) : Except Errno (FileTree γ) :=
  if t.pathExists path then (t.unlink path).map (·.tree) else .ok t

/-- `copy_symlink`, given what the source holds; the tree is what is left in any case. -/
def copySymlink (t : FileTree γ) (linkTarget path : List String) :
    FileTree γ × Except Errno Unit :=
  match removeExisting t path with
  | .error e => (t, .error e)
  | .ok removed =>
    match removed.symlink linkTarget path with
    | .error e => (removed, .error e)
    | .ok done => (done.tree, .ok ())

/-- One round of the loop of `materialize_directory`. -/
def copyEntry (t : FileTree γ) (entry : Place) : FileTree γ × Except Errno Unit :=
  let path := i.target ++ entry
  match t.node (i.source ++ entry) with
  | none => (t, .error .noEnt)
  | some .dir =>
    let (done, result) := t.makeDirs path.reverse
    (done.tree, result)
  | some (.link linkTarget) =>
    match t.makeDirs path.dropLast.reverse with
    | (done, .error e) => (done.tree, .error e)
    | (done, .ok ()) => copySymlink done.tree linkTarget path
  | some (.file content) =>
    match t.create path content with
    | (done, .error (_, e)) => (done.tree, .error e)
    | (done, .ok ()) => (done.tree, .ok ())

/-- What `materialize_directory` does not copy: a source that is the target itself. -/
def sameRoots (t : FileTree γ) : Bool :=
  i.source == i.target ||
    match t.canonicalize [] i.source, t.canonicalize [] i.target with
    | .ok source, .ok target => source == target
    | _, _ => false

def invalidError (e : String) : ToolError :=
  "bundled managed " ++ i.tool.displayName ++ " artifact is invalid under " ++
    shownPlace i.source ++ ": " ++ e

def missingError : ToolError :=
  "bundled managed " ++ i.tool.displayName ++ " artifact missing under " ++ shownPlace i.source

def failedValidationError (e : ToolError) : ToolError :=
  "bundled managed " ++ i.tool.displayName ++ " artifact failed validation under " ++
    shownPlace i.source ++ ": " ++ e

end Install

/-- Where a run stands. From `locked` to `rejected` it holds the lock of its process. -/
inductive RunStage where
  | starting
  | waiting
  | locked
  | removing
  | creating
  | copying (rest : List Place)
  | rejected (error : ToolError)
  | returned (result : Except ToolError ResolvedManagedAcpTool)
  | killed

def RunStage.holdsLock : RunStage → Bool
  | .locked => true
  | .removing => true
  | .creating => true
  | .copying _ => true
  | .rejected _ => true
  | _ => false

def RunStage.validates : RunStage → Bool
  | .starting => true
  | .locked => true
  | .copying [] => true
  | _ => false

structure Run where
  process : ℕ
  stage : RunStage

/-- The file system with the runs. `owner` is the run that was the last to remove the target;
`settled` says that it has copied every entry since and no copy has failed halfway. `answers` are
the tools returned, each with the file system at that time. -/
structure ToolWorld (γ : Type) where
  tree : FileTree γ
  runs : List Run
  owner : Option ℕ
  settled : Bool
  answers : List (ResolvedManagedAcpTool × FileTree γ)

/-- The steps. What a failing removal has removed (`gone`) and what a failing copy leaves in
the place of a file (`left`) come with the step. -/
inductive ToolStep (γ : Type) where
  | start (process : ℕ)
  | validate (k : ℕ)
  | acquire (k : ℕ)
  | remove (k : ℕ)
  | removeFails (k : ℕ) (gone : List Place) (error : String)
  | create (k : ℕ)
  | createFails (k : ℕ) (error : String)
  | copy (k : ℕ) (entry : Place)
  | copyFails (k : ℕ) (entry : Place) (left : Option γ) (error : String)
  | cleanUp (k : ℕ)
  | cleanUpFails (k : ℕ) (gone : List Place)
  | kill (process : ℕ)

namespace ToolWorld

variable (i : Install γ)

def setRun (w : ToolWorld γ) (k : ℕ) (process : ℕ) (stage : RunStage) : ToolWorld γ :=
  { w with runs := w.runs.set k ⟨process, stage⟩ }

def answer (w : ToolWorld γ) (k process : ℕ) (tool : ResolvedManagedAcpTool) : ToolWorld γ :=
  { w.setRun k process (.returned (.ok tool)) with answers := w.answers ++ [(tool, w.tree)] }

def fail (w : ToolWorld γ) (k process : ℕ) (error : ToolError) : ToolWorld γ :=
  w.setRun k process (.returned (.error error))

def unsettle (w : ToolWorld γ) (tree : FileTree γ) (owner : Option ℕ) : ToolWorld γ :=
  { w with tree := tree, owner := owner, settled := false }

def start (w : ToolWorld γ) (process : ℕ) : ToolWorld γ :=
  { w with runs := w.runs ++ [⟨process, .starting⟩] }

/-- `validate_tool_root`, before the lock, under the lock, and after the copy. -/
def validate (w : ToolWorld γ) (k : ℕ) : ToolWorld γ :=
  match w.runs[k]? with
  | none => w
  | some ⟨process, stage⟩ =>
    if stage.validates then
      match i.validateToolRoot w.tree i.target, stage with
      | .ok tool, _ => w.answer k process tool
      | .error _, .starting => w.setRun k process .waiting
      | .error _, .locked =>
        if w.tree.isDir i.source then
          if i.sameRoots w.tree then w.setRun k process (.copying [])
          else w.setRun k process .removing
        else w.fail k process i.missingError
      | .error e, _ => w.setRun k process (.rejected e)
    else w

def acquire (w : ToolWorld γ) (k : ℕ) : ToolWorld γ :=
  match w.runs[k]? with
  | some ⟨process, .waiting⟩ =>
    if w.runs.any fun run => run.process = process ∧ run.stage.holdsLock then w
    else w.setRun k process .locked
  | _ => w

/-- `if target_root.exists() { remove_dir_all(target_root)? }`. -/
def remove (w : ToolWorld γ) (k : ℕ) : ToolWorld γ :=
  match w.runs[k]? with
  | some ⟨process, .removing⟩ =>
    if w.tree.pathExists i.target then
      match w.tree.removeDirAll i.target with
      | .error e => w.fail k process (i.invalidError (osError e))
      | .ok done => (w.unsettle done.tree (some k)).setRun k process .creating
    else (w.unsettle w.tree (some k)).setRun k process .creating
  | _ => w

def pruned (t : FileTree γ) (gone : List Place) : FileTree γ :=
  gone.foldl (fun t entry => t.prune (i.target ++ entry)) t

def removeFails (w : ToolWorld γ) (k : ℕ) (gone : List Place) (error : String) : ToolWorld γ :=
  match w.runs[k]? with
  | some ⟨process, .removing⟩ =>
    (w.unsettle (pruned i w.tree gone) none).fail k process (i.invalidError error)
  | _ => w

def create (w : ToolWorld γ) (k : ℕ) : ToolWorld γ :=
  match w.runs[k]? with
  | some ⟨process, .creating⟩ =>
    let (done, result) := w.tree.makeDirs i.target.reverse
    let w := { w with tree := done.tree }
    match result with
    | .error e => w.fail k process (i.invalidError (osError e))
    | .ok () => w.setRun k process (.copying i.entries)
  | _ => w

def createFails (w : ToolWorld γ) (k : ℕ) (error : String) : ToolWorld γ :=
  match w.runs[k]? with
  | some ⟨process, .creating⟩ => w.fail k process (i.invalidError error)
  | _ => w

/-- A run copies one of the entries that are left; the last one settles the target if the run
owns it. -/
def copy (w : ToolWorld γ) (k : ℕ) (entry : Place) : ToolWorld γ :=
  match w.runs[k]? with
  | some ⟨process, .copying rest⟩ =>
    if entry ∈ rest then
      let (tree, result) := i.copyEntry w.tree entry
      let w := { w with tree := tree }
      match result with
      | .error e => w.fail k process (i.invalidError (osError e))
      | .ok () =>
        let rest := rest.filter (· ≠ entry)
        { w.setRun k process (.copying rest) with
          settled := w.settled || (rest.isEmpty && w.owner == some k) }
    else w
  | _ => w

/-- A copy fails, and leaves a part of a file or nothing. -/
def copyFails (w : ToolWorld γ) (k : ℕ) (entry : Place) (left : Option γ) (error : String) :
    ToolWorld γ :=
  match w.runs[k]? with
  | some ⟨process, .copying rest⟩ =>
    if entry ∈ rest then
      match w.tree.node (i.source ++ entry), left with
      | some (.file _), some content =>
        (w.unsettle (w.tree.create (i.target ++ entry) content).1.tree none).fail k process
          (i.invalidError error)
      | _, _ => w.fail k process (i.invalidError error)
    else w
  | _ => w

/-- `let _ = remove_dir_all(root)` after a failed validation. -/
def cleanUp (w : ToolWorld γ) (k : ℕ) : ToolWorld γ :=
  match w.runs[k]? with
  | some ⟨process, .rejected e⟩ =>
    let tree := match w.tree.removeDirAll i.target with
      | .error _ => w.tree
      | .ok done => done.tree
    (w.unsettle tree none).fail k process (i.failedValidationError e)
  | _ => w

def cleanUpFails (w : ToolWorld γ) (k : ℕ) (gone : List Place) : ToolWorld γ :=
  match w.runs[k]? with
  | some ⟨process, .rejected e⟩ =>
    (w.unsettle (pruned i w.tree gone) none).fail k process (i.failedValidationError e)
  | _ => w

/-- The process is killed with all its runs that have not returned. -/
def kill (w : ToolWorld γ) (process : ℕ) : ToolWorld γ :=
  { w with runs := w.runs.map fun run =>
      match run.stage with
      | .returned _ => run
      | _ => if run.process = process then { run with stage := .killed } else run }

def fire (w : ToolWorld γ) : ToolStep γ → ToolWorld γ
  | .start process => w.start process
  | .validate k => w.validate i k
  | .acquire k => w.acquire k
  | .remove k => w.remove i k
  | .removeFails k gone error => w.removeFails i k gone error
  | .create k => w.create i k
  | .createFails k error => w.createFails i k error
  | .copy k entry => w.copy i k entry
  | .copyFails k entry left error => w.copyFails i k entry left error
  | .cleanUp k => w.cleanUp i k
  | .cleanUpFails k gone => w.cleanUpFails i k gone
  | .kill process => w.kill process

end ToolWorld

end AionCore.Runtime
