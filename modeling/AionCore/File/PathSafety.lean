import AionCore.Lib.FileChanges
import Mathlib.Data.String.Basic

/-!
# File service: path safety

`path_safety.rs`. A path string is given by its pieces between the slashes, so that
`"/a//b/"` is `["", "a", "", "b", ""]`; the empty string is `[""]`. A path that has been
canonicalized is a place.
-/

namespace AionCore.File

/-- A path string, split at its slashes. -/
abbrev PathString := List String

/-- `FileError`. -/
inductive FileError where
  | badRequest (message : String)
  | forbidden (message : String)
  | pathOutsideSandbox (message : String) (field operation : Option String)
  | notFound (message : String)
  | internal (message : String)
  deriving DecidableEq

def osError : Errno → String
  | .noEnt => "No such file or directory (os error 2)"
  | .notDir => "Not a directory (os error 20)"
  | .isDir => "Is a directory (os error 21)"
  | .exist => "File exists (os error 17)"
  | .loop => "Too many levels of symbolic links (os error 40)"
  | .inval => "Invalid argument (os error 22)"

def shown (path : PathString) : String := String.intercalate "/" path

def shownPlace (p : Place) : String := "/" ++ String.intercalate "/" p

/-- `std::path::Component`. -/
inductive Component where
  | rootDir
  | curDir
  | parentDir
  | normal (name : String)
  deriving DecidableEq

/-- `Path::components`: repeated slashes and `.` count for nothing, except a leading `.`. -/
def components (path : PathString) : List Component :=
  let body := path.filterMap fun x =>
    if x = "" ∨ x = "." then none else if x = ".." then some .parentDir else some (.normal x)
  if path.head? = some "" ∧ path ≠ [""] then .rootDir :: body
  else if path.head? = some "." then .curDir :: body
  else body

def Component.piece : Component → String
  | .rootDir => ""
  | .curDir => "."
  | .parentDir => ".."
  | .normal x => x

def ofComponents : List Component → PathString
  | [] => [""]
  | [.rootDir] => ["", ""]
  | cs => cs.map Component.piece

/-- `Path::parent`. -/
def parent (path : PathString) : Option PathString :=
  match (components path).getLast? with
  | none | some .rootDir => none
  | some _ => some (ofComponents (components path).dropLast)

/-- `Path::file_name`. -/
def fileName (path : PathString) : Option String :=
  match (components path).getLast? with
  | some (.normal x) => some x
  | _ => none

/-- `has_traversal`. -/
def hasTraversal (path : PathString) : Bool :=
  (path.any fun x => '\x00' ∈ x.toList) || .parentDir ∈ components path

section Validators

variable {γ : Type*} (t : FileTree γ) (cwd : Place)

def canonicalRoots (roots : List PathString) : List Place :=
  roots.filterMap fun root => (t.canonicalize cwd root).toOption

/-- Whether the place lies under one of the roots. -/
def Inside (roots : List Place) (p : Place) : Prop := ∃ root ∈ roots, root <+: p

instance (roots : List Place) (p : Place) : Decidable (Inside roots p) :=
  inferInstanceAs (Decidable (∃ root ∈ roots, root <+: p))

variable {p : Place}

theorem Inside.mono {roots : List Place} {q : Place} (h : Inside roots p) (hpq : p <+: q) :
    Inside roots q := by
  obtain ⟨root, hr, hp⟩ := h
  exact ⟨root, hr, hp.trans hpq⟩

/-- `validate_path`. -/
def validatePath (path : PathString) (allowedRoots : List PathString) :
    Except FileError Place :=
  match t.canonicalize cwd path with
  | .error e =>
    .error (.badRequest ("cannot resolve path '" ++ shown path ++ "': " ++ osError e))
  | .ok canonical =>
    if Inside (canonicalRoots t cwd allowedRoots) canonical then .ok canonical
    else
      .error (.pathOutsideSandbox ("path '" ++ shown path ++ "' is outside the allowed sandbox")
        (some "path") (some "access"))

/-- `validate_path_with_extra_root`. -/
def validatePathWithExtraRoot (path : PathString) (baseRoots : List PathString)
    (extra : Option PathString) : Except FileError Place :=
  validatePath t cwd path (baseRoots ++ extra.toList)

/-- `validate_path_for_write`: the parent is resolved, the last name is not. -/
def validatePathForWrite (path : PathString) (allowedRoots : List PathString) :
    Except FileError Place :=
  match parent path with
  | none => .error (.badRequest ("path '" ++ shown path ++ "' has no parent directory"))
  | some parent =>
    match fileName path with
    | none => .error (.badRequest ("path '" ++ shown path ++ "' has no file name component"))
    | some fileName =>
      match t.canonicalize cwd parent with
      | .error e =>
        .error (.badRequest ("cannot resolve parent of '" ++ shown path ++ "': " ++ osError e))
      | .ok canonicalParent =>
        if Inside (canonicalRoots t cwd allowedRoots) canonicalParent then
          .ok (canonicalParent ++ [fileName])
        else
          .error (.pathOutsideSandbox
            ("path '" ++ shown path ++ "' is outside the allowed sandbox")
            (some "path") (some "write"))

variable {t cwd} {path : PathString} {roots : List PathString}

/-- What `validate_path` accepts is a canonical path inside. -/
theorem validatePath_ok (h : validatePath t cwd path roots = .ok p) :
    t.canonicalize cwd path = .ok p ∧ Inside (canonicalRoots t cwd roots) p := by
  rw [validatePath] at h
  cases hc : t.canonicalize cwd path with
  | error e => simp [hc] at h
  | ok canonical =>
    simp only [hc] at h
    by_cases hin : Inside (canonicalRoots t cwd roots) canonical
    · rw [if_pos hin] at h
      obtain rfl := Except.ok.inj h
      exact ⟨rfl, hin⟩
    · rw [if_neg hin] at h
      cases h

/-- What `validate_path_for_write` accepts is a name in a place inside. -/
theorem validatePathForWrite_ok (h : validatePathForWrite t cwd path roots = .ok p) :
    ∃ dir up x, p = dir ++ [x] ∧ fileName path = some x ∧ parent path = some up ∧
      t.canonicalize cwd up = .ok dir ∧ Inside (canonicalRoots t cwd roots) dir := by
  rw [validatePathForWrite] at h
  cases hp : parent path with
  | none => simp [hp] at h
  | some up =>
    cases hx : fileName path with
    | none => simp [hp, hx] at h
    | some x =>
      cases hc : t.canonicalize cwd up with
      | error e => simp [hp, hx, hc] at h
      | ok dir =>
        simp only [hp, hx, hc] at h
        by_cases hin : Inside (canonicalRoots t cwd roots) dir
        · rw [if_pos hin] at h
          exact ⟨dir, up, x, (Except.ok.inj h).symm, rfl, rfl, hc, hin⟩
        · rw [if_neg hin] at h
          cases h

/-- A canonical path is a real directory, or a file in one. -/
theorem canonicalize_sound (h : t.canonicalize cwd path = .ok p) :
    ∃ pieces, FileTree.route cwd path = some pieces ∧ t.lookup pieces = .arrived p := by
  rw [FileTree.canonicalize] at h
  cases hr : FileTree.route cwd path with
  | none => simp [hr] at h
  | some pieces =>
    simp only [hr] at h
    cases hl : t.lookup pieces with
    | arrived q =>
      simp only [hl] at h
      obtain rfl := Except.ok.inj h
      exact ⟨pieces, rfl, hl⟩
    | absent q => simp [hl] at h
    | failed e => simp [hl] at h

end Validators

end AionCore.File
