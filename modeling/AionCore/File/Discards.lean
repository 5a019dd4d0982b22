import AionCore.File.FileService
import AionCore.File.Snapshots
import AionCore.Lib.DirectPaths
import AionCore.Lib.Leaves

/-!
# File service: discarding a change

`discard_file` and `reset_file` over the files of a workspace where they stand on the disk. The
path of the request goes to the disk for a file that was created, and to git as a pathspec for
the rest. What git does with it is taken from git.
-/

namespace AionCore.File

open Leaves (Change Flat)

/-- What a repository holds of a path and a checkout puts there. -/
inductive Entry where
  | file (content : Bytes)
  | link (target : List String)
  deriving DecidableEq

/-- The node that an entry is checked out as. -/
def Entry.node : Entry → Node Bytes
  | .file content => .file content
  | .link target => .link target

def entryAt (t : FileTree Bytes) (q : Place) : Option Entry :=
  if q = [] then none
  else match t.node q with
    | some (.file content) => some (.file content)
    | some (.link target) => some (.link target)
    | some .dir | none => none

abbrev Entries := Dict PathString Entry

/-- A disk with an initialized workspace and the HEAD and the index of its repository. The files
of the repository itself are left out of the disk. -/
structure WorkTree where
  tree : FileTree Bytes
  workspace : Place
  head : Option Entries
  index : Entries

/-- The disk and the index after a checkout. -/
structure CheckedOut where
  tree : FileTree Bytes
  index : Entries
  result : Except String Unit

/-- What git does: whether a pathspec matches a path, which paths it ignores, the index after
`reset_default`, `checkout_head` with force and a pathspec, and an error text. -/
structure Git where
  pathMatches : PathString → PathString → Bool
  isIgnored : PathString → Bool
  resetDefault : Entries → Entries → PathString → Except String Entries
  checkoutHead : FileTree Bytes → Place → Entries → Entries → PathString → CheckedOut
  unbornHead : String

namespace WorkTree

variable (git : Git) (w : WorkTree) (relPath : PathString)

/-- `workspace.join(rel_path)`: an absolute path takes the place of the workspace. -/
def joined : List String :=
  if relPath.head? = some "" ∧ relPath ≠ [""] then relPath else w.workspace ++ relPath

/-- `unstage_single_file`. -/
def unstageSingleFile : WorkTree × Except FileError Unit :=
  match w.head with
  | none => (w, .error (.internal ("Failed to get HEAD: " ++ git.unbornHead)))
  | some head =>
    match git.resetDefault head w.index relPath with
    | .error e =>
      (w, .error (.internal ("Failed to unstage file " ++ shown relPath ++ ": " ++ e)))
    | .ok index => ({ w with index := index }, .ok ())

/-- `checkout_path_from_head`. -/
def checkoutPathFromHead : WorkTree × Except FileError Unit :=
  let failed := fun e : String => (.error (.internal
    ("Failed to checkout " ++ shown relPath ++ " from HEAD: " ++ e)) : Except FileError Unit)
  match w.head with
  | none => (w, failed git.unbornHead)
  | some head =>
    let out := git.checkoutHead w.tree w.workspace head w.index relPath
    ({ w with tree := out.tree, index := out.index },
      match out.result with
      | .error e => failed e
      | .ok () => .ok ())

/-- `discard_single_file`. -/
def discardSingleFile : FileChangeOperation → WorkTree × Except FileError Unit
  | .create =>
    let absPath := w.joined relPath
    if w.tree.pathExists absPath then
      match w.tree.unlink absPath with
      | .error e =>
        (w, .error (.internal ("Failed to delete file " ++ shown absPath ++ ": " ++ osError e)))
      | .ok done => ({ w with tree := done.tree }, .ok ())
    else (w, .ok ())
  | .modify | .delete => w.checkoutPathFromHead git relPath

/-- `reset_single_file`, which goes on when the unstaging fails. -/
def resetSingleFile (operation : FileChangeOperation) : WorkTree × Except FileError Unit :=
  (w.unstageSingleFile git relPath).1.discardSingleFile git relPath operation

def onDisk (p : PathString) : Option Entry := entryAt w.tree (w.workspace ++ p)

/-- What HEAD holds of a path. -/
def committed (p : PathString) : Option Entry := (w.head.getD ∅).lookup p

def staged (p : PathString) : Option Entry := w.index.lookup p

def HasStatus (p : PathString) (operation : FileChangeOperation) : Prop :=
  indexOperation (w.committed p) (w.staged p) = some operation ∨
    worktreeOperation (git.isIgnored p) (w.staged p) (w.onDisk p) = some operation

/-- The place is the one that the path of the request names, by its pieces or on the disk. -/
def Names (q : Place) : Prop :=
  q = w.workspace ++ relPath ∨ w.tree.entryPlace (w.joined relPath) = .ok q

/-- The path of the workspace is the one of the request. -/
def Own (p : PathString) : Prop := w.Names relPath (w.workspace ++ p)

/-- A call on one path has left everything else alone: outside the workspace, at the other
paths, in the index, and a file of the baseline if the operation is not what became of it. -/
structure TouchesOnly (operation : FileChangeOperation) (w' : WorkTree) : Prop where
  outside : ∀ q, ¬w.workspace <+: q → w'.tree.node q = w.tree.node q
  others : ∀ q, ¬w.Names relPath q → entryAt w'.tree q = entryAt w.tree q
  staged : ∀ p, ¬w.Own relPath p → w'.staged p = w.staged p
  baseline : operation = .create → ∀ p, w.committed p ≠ none → ¬w.HasStatus git p .create →
    entryAt w'.tree (w.workspace ++ p) = w.onDisk p

def Unstages (p : PathString) : Prop :=
  w.head ≠ none ∧ git.pathMatches relPath p = true ∧ w.staged p ≠ w.committed p

/-- A path that a checkout of HEAD sets: one that git knows and that is not on the disk as it is
in HEAD. -/
def Restores (p : PathString) : Prop :=
  w.head ≠ none ∧ git.pathMatches relPath p = true ∧ w.onDisk p ≠ w.committed p ∧
    (w.committed p ≠ none ∨ w.staged p ≠ none)

/-- `reset_default` sets the paths that match to what HEAD has of them. -/
structure ResetsIndex (index : Entries) : Prop where
  change : Change (w.Unstages git relPath) w.staged index.lookup
  set : ∀ p, w.Unstages git relPath p → index.lookup p = w.committed p

/-- `checkout_head` stays in the workspace, sets paths that match to what HEAD has of them, on
the disk and in the index, and gets through with them unless it fails. -/
structure ChecksOut (out : CheckedOut) : Prop where
  grounded : out.tree.Grounded
  confined : ∀ q, ¬w.workspace <+: q → out.tree.node q = w.tree.node q
  files : Change (w.Restores git relPath) w.onDisk fun p => entryAt out.tree (w.workspace ++ p)
  index : Change (w.Restores git relPath) w.staged out.index.lookup
  done : out.result = .ok () → ∀ p, w.Restores git relPath p →
    entryAt out.tree (w.workspace ++ p) = w.committed p ∧ out.index.lookup p = w.committed p

/-- Git does this on a path of the workspace, with any index for the checkout. -/
structure Trusted : Prop where
  resets : ∀ head index, w.head = some head →
    git.resetDefault head w.index relPath = .ok index → w.ResetsIndex git relPath index
  checks : ∀ head index, w.head = some head → Flat index.lookup →
    ChecksOut git { w with index := index } relPath
      (git.checkoutHead w.tree w.workspace head index relPath)

/-- The calls of git on this path do not fail. -/
def Succeeds : Prop :=
  ∀ head, w.head = some head →
    (∃ index, git.resetDefault head w.index relPath = .ok index) ∧
    ∀ index, (git.checkoutHead w.tree w.workspace head index relPath).result = .ok ()

/-- Every object stands in a directory, and no entry of HEAD or the index under another. -/
structure Sound : Prop where
  grounded : w.tree.Grounded
  committed : Flat w.committed
  staged : Flat w.staged

end WorkTree

end AionCore.File
