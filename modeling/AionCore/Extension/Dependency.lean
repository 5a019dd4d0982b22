import AionCore.Lib.Dict
import Mathlib.Data.String.Basic

/-!
# Extensions: dependencies

`dependency.rs`: which extensions have dependencies that are missing, do not match or form a
cycle, and the order in which the extensions are loaded. A hash map stands for its entries in the
order in which it iterates over them. What the `semver` crate parses and matches is a parameter.
-/

namespace AionCore.Extension

structure ExtensionManifest where
  name : String
  version : String
  dependencies : Dict String String

structure LoadedExtension where
  manifest : ExtensionManifest

inductive DependencyIssue where
  | missing (extension dependency required : String)
  | versionMismatch (extension dependency required actual : String)
  | circular (cycle : List String)
  deriving DecidableEq

structure DependencyValidationResult where
  valid : Bool
  issues : List DependencyIssue
  loadOrder : List String

/-- `semver::Version` and `semver::VersionReq`. -/
structure Semver where
  Version : Type
  VersionReq : Type
  parseVersion : String → Option Version
  parseReq : String → Option VersionReq
  accepts : VersionReq → Version → Bool

/-- `version_matches`: a requirement that starts with a digit is an exact one. -/
def Semver.versionMatches (semver : Semver) (requirement actual : String) : Bool :=
  match semver.parseVersion actual with
  | none => false
  | some version =>
    let reqStr :=
      if requirement.toList.head?.any Char.isDigit then "=" ++ requirement else requirement
    match semver.parseReq reqStr with
    | none => false
    | some req => semver.accepts req version

/-- The names of the extensions, as often as extensions have them. -/
def names (extensions : List LoadedExtension) : List String := extensions.map (·.manifest.name)

/-- `sort_unstable` on strings. -/
def sorted (l : List String) : List String := l.insertionSort (· ≤ ·)

/-- `adj` takes a dependency to its dependents. -/
structure DependencyGraph where
  adj : Dict String (List String)
  inDegree : Dict String ℕ

namespace DependencyGraph

/-- `adj.get(node)`. -/
def dependents (g : DependencyGraph) (node : String) : List String := (g.adj.lookup node).getD []

def degree (g : DependencyGraph) (node : String) : ℕ := (g.inDegree.lookup node).getD 0

def addDependency (g : DependencyGraph) (name depName : String) : DependencyGraph where
  adj := g.adj.insert depName (g.dependents depName ++ [name])
  inDegree := g.inDegree.insert name (g.degree name + 1)

def addExtension (known : List String) (g : DependencyGraph) (ext : LoadedExtension) :
    DependencyGraph :=
  ext.manifest.dependencies.keys.foldl
    (fun g depName => if depName ∈ known then g.addDependency ext.manifest.name depName else g)
    { g with inDegree := g.inDegree.insert ext.manifest.name (g.degree ext.manifest.name) }

def build (extensions : List LoadedExtension) : DependencyGraph :=
  extensions.foldl (addExtension (names extensions)) ⟨∅, ∅⟩

end DependencyGraph

/-- The loop of `compute_topological_order`. -/
structure LoadState where
  queue : List String
  inDegree : Dict String ℕ
  order : List String

namespace LoadState

/-- The extensions without dependencies. -/
def start (g : DependencyGraph) : LoadState where
  queue := sorted ((g.inDegree.entries.filter (·.2 = 0)).map (·.1))
  inDegree := g.inDegree
  order := []

/-- A dependency of `dep` is loaded; `ready` collects what has none left. -/
def release (s : Dict String ℕ × List String) (dep : String) : Dict String ℕ × List String :=
  let deg := (s.1.lookup dep).getD 0 - 1
  (s.1.insert dep deg, if deg = 0 then s.2 ++ [dep] else s.2)

/-- One round of the loop, unless the queue is empty. -/
def step (g : DependencyGraph) (s : LoadState) : Option LoadState :=
  match s.queue with
  | [] => none
  | node :: queue =>
    let (inDegree, ready) := (g.dependents node).foldl release (s.inDegree, [])
    some ⟨queue ++ sorted ready, inDegree, s.order ++ [node]⟩

/-- At most so many rounds. -/
def run (g : DependencyGraph) : ℕ → LoadState → LoadState
  | 0, s => s
  | n + 1, s =>
    match s.step g with
    | none => s
    | some s => run g n s

end LoadState

/-- The search of `find_cycles`. -/
structure CycleSearch where
  visited : List String
  onStack : List String
  path : List String
  cycles : List (List String)

namespace CycleSearch

def enter (s : CycleSearch) (node : String) : CycleSearch :=
  { s with
    visited := s.visited ++ [node]
    onStack := s.onStack ++ [node]
    path := s.path ++ [node] }

def leave (s : CycleSearch) (node : String) : CycleSearch :=
  { s with path := s.path.dropLast, onStack := s.onStack.filter (· ≠ node) }

/-- The path from `next` on, closed. -/
def close (s : CycleSearch) (next : String) : CycleSearch :=
  if next ∈ s.path then
    { s with cycles := s.cycles ++ [s.path.drop (s.path.idxOf next) ++ [next]] }
  else s

end CycleSearch

/-- `dfs_find_cycles`, at most so deep. -/
def dfsFindCycles (adj : String → List String) : ℕ → CycleSearch → String → CycleSearch
  | 0, s, _ => s
  | depth + 1, s, node =>
    ((adj node).foldl (fun s next =>
      if next ∉ s.visited then dfsFindCycles adj depth s next
      else if next ∈ s.onStack then s.close next
      else s) (s.enter node)).leave node

def extensionOf (extensions : List LoadedExtension) (name : String) : Option LoadedExtension :=
  extensions.reverse.find? (·.manifest.name = name)

/-- `adj` of `find_cycles`: the dependencies among the extensions that are involved. -/
def involvedDependencies (extensions : List LoadedExtension) (involved : List String)
    (name : String) : List String :=
  match extensionOf extensions name with
  | some ext =>
    if name ∈ involved then sorted (ext.manifest.dependencies.keys.filter (· ∈ involved)) else []
  | none => []

/-- `find_cycles`; a path holds each extension at most once. -/
def findCycles (extensions : List LoadedExtension) (involved : List String) :
    List (List String) :=
  ((sorted involved).foldl (fun s node =>
    if node ∉ s.visited then
      dfsFindCycles (involvedDependencies extensions involved) involved.length s node
    else s) ⟨[], [], [], []⟩).cycles

/-- `compute_topological_order`; there are as many rounds as extensions at most. -/
def computeTopologicalOrder (extensions : List LoadedExtension) :
    List String × List (List String) :=
  let graph := DependencyGraph.build extensions
  let order := ((LoadState.start graph).run graph extensions.length).order
  let remaining := (names extensions).dedup.filter (· ∉ order)
  let cycles := if remaining = [] then [] else findCycles extensions remaining
  (order ++ sorted remaining, cycles)

def topologicalSort (extensions : List LoadedExtension) : List String :=
  (computeTopologicalOrder extensions).1

def dependencyIssue (semver : Semver) (versions : String → Option String) (name : String)
    (dep : Sigma fun _ : String => String) : Option DependencyIssue :=
  match versions dep.1 with
  | none => some (.missing name dep.1 dep.2)
  | some actualVersion =>
    if semver.versionMatches dep.2 actualVersion then none
    else some (.versionMismatch name dep.1 dep.2 actualVersion)

def versions (extensions : List LoadedExtension) (name : String) : Option String :=
  (extensionOf extensions name).map (·.manifest.version)

def validateDependencies (semver : Semver) (extensions : List LoadedExtension) :
    DependencyValidationResult :=
  let issues := extensions.flatMap fun ext =>
    ext.manifest.dependencies.entries.filterMap
      (dependencyIssue semver (versions extensions) ext.manifest.name)
  let (loadOrder, cycles) := computeTopologicalOrder extensions
  let issues := issues ++ cycles.map .circular
  ⟨issues.isEmpty, issues, loadOrder⟩

end AionCore.Extension
