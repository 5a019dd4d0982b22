import AionCore.File.PathSafety

/-!
# File service: requests that write

`write_file`, `copy_files_to_workspace`, `remove_entry`, `rename_entry_with_extra_root` and
`create_zip_with_extra_roots` of `service.rs`. Each maps the file tree to the tree that it
leaves, with the places that it touched, and to its result, the event that it broadcasts
and the key that it drops from the cache of workspace listings.
-/

namespace AionCore.File

abbrev Bytes := List UInt8

/-- `String::from_utf8`. -/
def fromUtf8 (data : Bytes) : Option String := String.fromUTF8? ⟨data.toArray⟩

/-- `ContentUpdateOperation`. -/
inductive ContentUpdateOperation where
  | write
  | delete

/-- `ContentUpdateEvent`. -/
structure ContentUpdateEvent where
  filePath : String
  content : Option String
  workspace : PathString
  relativePath : String
  operation : ContentUpdateOperation

/-- `ZipEntry`. -/
inductive ZipEntry where
  | text (name content : String)
  | disk (name : String) (filePath : PathString)

/-- `CopyResult`. -/
structure CopyResult where
  copiedFiles : List PathString
  failedFiles : List PathString
  deriving DecidableEq

/-- What the ZIP writer does with the entries written so far: whether it refuses another
one, the bytes on disk, and the finished archive. -/
structure ZipFormat where
  refuses : List (String × Bytes) → String → Bytes → Option String
  bytes : List (String × Bytes) → Bytes
  finish : List (String × Bytes) → Except String Bytes

/-- What a request leaves behind. -/
structure Outcome (ρ : Type) where
  effect : FileTree.Effect Bytes
  result : Except FileError ρ
  event : Option ContentUpdateEvent
  invalidated : Option Place

def refuse {ρ : Type} (t : FileTree Bytes) (e : FileError) : Outcome ρ :=
  ⟨⟨t, []⟩, .error e, none, none⟩

def ofPlace (p : Place) : PathString := if p = [] then ["", ""] else "" :: p

/-- `FileService`: its sandbox and the directory in which its process runs. -/
structure FileService where
  allowedRoots : List PathString
  cwd : Place

/-- A request that may change the disk; the ZIP request comes with the answers that the
cancellation flag gives to its checks. -/
inductive Request where
  | writeFile (path : PathString) (data : Bytes) (workspace : PathString)
  | copyFilesToWorkspace (filePaths : List PathString) (workspace : PathString)
      (sourceRoot : Option PathString)
  | removeEntry (path workspace : PathString)
  | renameEntry (path : PathString) (newName : String) (extraRoot : Option PathString)
  | createZip (path : PathString) (entries : List ZipEntry) (cancelled : ℕ → Bool)
      (outputRoot sourceRoot : Option PathString)

namespace FileService

variable (svc : FileService) (zip : ZipFormat) (t : FileTree Bytes)

def traversalError (path : PathString) : FileError :=
  .badRequest ("path '" ++ shown path ++ "' contains invalid traversal patterns")

def relativePath (canonical : Place) (workspace : PathString) : String :=
  match t.canonicalize svc.cwd workspace with
  | .ok root =>
    if root <+: canonical then shown (canonical.drop root.length) else shownPlace canonical
  | .error _ =>
    if components workspace <+: components (ofPlace canonical) then
      shown (((components (ofPlace canonical)).drop (components workspace).length).map
        Component.piece)
    else shownPlace canonical

def invalidateCache (workspace : PathString) : Option Place :=
  (t.canonicalize svc.cwd workspace).toOption

def writeFile (path : PathString) (data : Bytes) (workspace : PathString) : Outcome Bool :=
  if hasTraversal path then refuse t (traversalError path)
  else
    match validatePathForWrite t svc.cwd path (svc.allowedRoots ++ [workspace]) with
    | .error e => refuse t e
    | .ok canonical =>
      match t.write canonical data with
      | .error e => refuse t
          (.internal ("cannot write file '" ++ shownPlace canonical ++ "': " ++ osError e))
      | .ok done =>
        ⟨done, .ok true,
          some ⟨shownPlace canonical, fromUtf8 data, workspace,
            svc.relativePath done.tree canonical workspace, .write⟩,
          svc.invalidateCache done.tree workspace⟩

def sourceRoots (wsCanonical : Place) (srCanonical : Option Place) : List PathString :=
  svc.allowedRoots ++ [ofPlace wsCanonical] ++ (srCanonical.map ofPlace).toList

/-- A file that is copied: where it is and where it goes. -/
structure CopyPlan where
  src : Place
  dest : Place

/-- The checks of one turn of the copying loop. A source that is the source root itself has
an empty relative path, and a copy to a directory fails. -/
def planCopy (wsCanonical : Place) (srCanonical : Option Place) (fp : PathString) :
    Option CopyPlan :=
  let sourceExtra := (srCanonical.map ofPlace).or (parent fp)
  match validatePathWithExtraRoot t svc.cwd fp (svc.sourceRoots wsCanonical srCanonical)
      sourceExtra with
  | .error _ => none
  | .ok src =>
    if t.isFile src then
      let relative :=
        match srCanonical with
        | some sr => if sr <+: src then src.drop sr.length else src.getLast?.toList
        | none => src.getLast?.toList
      if relative = [] then none else some ⟨src, wsCanonical ++ relative⟩
    else none

/-- `copy_single_file_sync`. A file that is copied onto itself is truncated. -/
def copySingleFile (plan : CopyPlan) : FileTree.Effect Bytes × Bool :=
  match t.read plan.src with
  | .error _ => (⟨t, []⟩, false)
  | .ok content =>
    let written := if (t.openPlace plan.dest).toOption = some plan.src then [] else content
    let (done, result) := t.create plan.dest written
    (done, result.toOption.isSome)

def copyOne (wsCanonical : Place) (srCanonical : Option Place) (fp : PathString) :
    FileTree.Effect Bytes × Bool :=
  match svc.planCopy t wsCanonical srCanonical fp with
  | none => (⟨t, []⟩, false)
  | some plan => copySingleFile t plan

def copyAll (wsCanonical : Place) (srCanonical : Option Place) (t : FileTree Bytes) :
    List PathString → FileTree.Effect Bytes × CopyResult
  | [] => (⟨t, []⟩, ⟨[], []⟩)
  | fp :: filePaths =>
    let (done, copied) := svc.copyOne t wsCanonical srCanonical fp
    let (last, result) := copyAll wsCanonical srCanonical done.tree filePaths
    (⟨last.tree, done.touched ++ last.touched⟩,
      if copied then { result with copiedFiles := fp :: result.copiedFiles }
      else { result with failedFiles := fp :: result.failedFiles })

def copyFilesToWorkspace (filePaths : List PathString) (workspace : PathString)
    (sourceRoot : Option PathString) : Outcome CopyResult :=
  match validatePathWithExtraRoot t svc.cwd workspace svc.allowedRoots (some workspace) with
  | .error e => refuse t e
  | .ok wsCanonical =>
    match sourceRoot with
    | none =>
      let (done, result) := svc.copyAll wsCanonical none t filePaths
      ⟨done, .ok result, none, none⟩
    | some sr =>
      match validatePathWithExtraRoot t svc.cwd sr svc.allowedRoots (some sr) with
      | .error e => refuse t e
      | .ok srCanonical =>
        let (done, result) := svc.copyAll wsCanonical (some srCanonical) t filePaths
        ⟨done, .ok result, none, none⟩

/-- `remove_entry_sync`. -/
def removeEntrySync (path : Place) : Except FileError (FileTree.Effect Bytes) :=
  match t.lookup path with
  | .absent _ => .error
      (.notFound ("cannot remove '" ++ shownPlace path ++ "': " ++ osError .noEnt))
  | .failed e => .error (.notFound ("cannot remove '" ++ shownPlace path ++ "': " ++ osError e))
  | .arrived place =>
    if t.isDirAt place then
      match t.removeDirAll path with
      | .error e => .error
          (.internal ("cannot remove directory '" ++ shownPlace path ++ "': " ++ osError e))
      | .ok done => .ok done
    else
      match t.unlink path with
      | .error e => .error
          (.internal ("cannot remove file '" ++ shownPlace path ++ "': " ++ osError e))
      | .ok done => .ok done

def removeEntry (path workspace : PathString) : Outcome Unit :=
  if hasTraversal path then refuse t (traversalError path)
  else
    match validatePathWithExtraRoot t svc.cwd path svc.allowedRoots (some workspace) with
    | .error e => refuse t e
    | .ok canonical =>
      match removeEntrySync t canonical with
      | .error e => refuse t e
      | .ok done =>
        ⟨done, .ok (),
          some ⟨shownPlace canonical, none, workspace,
            svc.relativePath done.tree canonical workspace, .delete⟩,
          svc.invalidateCache done.tree workspace⟩

/-- `rename_entry_sync`. -/
def renameEntrySync (path : Place) (newName : String) :
    Except FileError (FileTree.Effect Bytes × Place) :=
  if path = [] then .error (.badRequest ("path '" ++ shownPlace path ++ "' has no parent"))
  else
    let newPath := path.dropLast ++ [newName]
    if t.pathExists newPath then
      .error (.badRequest ("target '" ++ shownPlace newPath ++ "' already exists"))
    else
      match t.rename path newPath with
      | .error e => .error (.internal ("cannot rename '" ++ shownPlace path ++ "' to '" ++
          shownPlace newPath ++ "': " ++ osError e))
      | .ok done => .ok (done, newPath)

def renameEntryWithExtraRoot (path : PathString) (newName : String)
    (extraRoot : Option PathString) : Outcome String :=
  if hasTraversal path then refuse t (traversalError path)
  else if '/' ∈ newName.toList ∨ '\\' ∈ newName.toList then
    refuse t (.badRequest ("new name '" ++ newName ++ "' must not contain path separators"))
  else
    match validatePathWithExtraRoot t svc.cwd path svc.allowedRoots extraRoot with
    | .error e => refuse t e
    | .ok canonical =>
      match renameEntrySync t canonical newName with
      | .error e => refuse t e
      | .ok (done, newPath) => ⟨done, .ok (shownPlace newPath), none, none⟩

/-- The content of an entry, read while the archive is being written. -/
def entryContent (tree : FileTree Bytes) : ZipEntry → Except FileError (String × Bytes)
  | .text name content => .ok (name, content.toUTF8.data.toList)
  | .disk name filePath =>
    let source : Except Errno Bytes :=
      match FileTree.route svc.cwd filePath with
      | none => .error .noEnt
      | some pieces => tree.read pieces
    match source with
    | .error e => .error
        (.internal ("ZIP: cannot read source file '" ++ shown filePath ++ "': " ++ osError e))
    | .ok data => .ok (name, data)

/-- `write_zip_entries`, with the entries written so far; `place` is the open file. The
result tells whether it ran to its end. -/
def writeZipEntries (tree : FileTree Bytes) (place : Place) (cancelled : ℕ → Bool) :
    List (String × Bytes) → List ZipEntry → List (String × Bytes) × Except FileError Bool
  | written, [] => (written, .ok (!cancelled written.length))
  | written, entry :: entries =>
    if cancelled written.length then (written, .ok false)
    else
      match svc.entryContent (tree.put place (.file (zip.bytes written))) entry with
      | .error e => (written, .error e)
      | .ok (name, data) =>
        match zip.refuses written name data with
        | some e =>
          (written, .error (.internal ("ZIP: failed to start entry '" ++ name ++ "': " ++ e)))
        | none => writeZipEntries tree place cancelled (written ++ [(name, data)]) entries

/-- The end of `create_zip_sync` without an archive: the file is closed and its name is
removed. -/
def dropZip (output place : Place) (written : List (String × Bytes)) : FileTree.Effect Bytes :=
  let partially := t.put place (.file (zip.bytes written))
  match partially.unlink output with
  | .error _ => ⟨partially, [place]⟩
  | .ok done => ⟨done.tree, place :: done.touched⟩

/-- What `create_zip_sync` does once the file is open. -/
def fillZip (output place : Place) (entries : List ZipEntry) (cancelled : ℕ → Bool) :
    FileTree.Effect Bytes × Except FileError Bool :=
  let (written, result) := svc.writeZipEntries zip t place cancelled [] entries
  match result with
  | .error e => (dropZip zip t output place written, .error e)
  | .ok false => (dropZip zip t output place written, .ok false)
  | .ok true =>
    match zip.finish written with
    | .error e => (dropZip zip t output place written,
        .error (.internal ("ZIP: failed to finalize '" ++ shownPlace output ++ "': " ++ e)))
    | .ok archive => (⟨t.put place (.file archive), [place]⟩, .ok true)

/-- `create_zip_sync`. -/
def createZipSync (output : Place) (entries : List ZipEntry) (cancelled : ℕ → Bool) :
    FileTree.Effect Bytes × Except FileError Bool :=
  match t.makeDirs output.dropLast.reverse with
  | (made, .error e) => (made, .error (.internal
      ("cannot create parent directory for '" ++ shownPlace output ++ "': " ++ osError e)))
  | (made, .ok ()) =>
    match made.tree.openPlace output with
    | .error e => (made, .error (.internal
        ("cannot create ZIP file '" ++ shownPlace output ++ "': " ++ osError e)))
    | .ok place =>
      let (done, result) := svc.fillZip zip made.tree output place entries cancelled
      (⟨done.tree, made.touched ++ done.touched⟩, result)

def checkSources (sourceRoot : Option PathString) : List ZipEntry → Except FileError Unit
  | [] => .ok ()
  | .text _ _ :: entries => checkSources sourceRoot entries
  | .disk _ filePath :: entries =>
    match validatePathWithExtraRoot t svc.cwd filePath
        (svc.allowedRoots ++ sourceRoot.toList) (sourceRoot.or (parent filePath)) with
    | .error e => .error e
    | .ok _ => checkSources sourceRoot entries

def createZipWithExtraRoots (path : PathString) (entries : List ZipEntry)
    (cancelled : ℕ → Bool) (outputRoot sourceRoot : Option PathString) : Outcome Bool :=
  match validatePathForWrite t svc.cwd path (svc.allowedRoots ++ outputRoot.toList) with
  | .error e => refuse t e
  | .ok output =>
    match svc.checkSources t sourceRoot entries with
    | .error e => refuse t e
    | .ok () =>
      let (done, result) := svc.createZipSync zip t output entries cancelled
      ⟨done, result, none, none⟩

/-- What a request does to the disk. -/
def perform : Request → FileTree.Effect Bytes
  | .writeFile path data workspace => (svc.writeFile t path data workspace).effect
  | .copyFilesToWorkspace filePaths workspace sourceRoot =>
    (svc.copyFilesToWorkspace t filePaths workspace sourceRoot).effect
  | .removeEntry path workspace => (svc.removeEntry t path workspace).effect
  | .renameEntry path newName extraRoot =>
    (svc.renameEntryWithExtraRoot t path newName extraRoot).effect
  | .createZip path entries cancelled outputRoot sourceRoot =>
    (svc.createZipWithExtraRoots zip t path entries cancelled outputRoot sourceRoot).effect

end FileService

end AionCore.File
