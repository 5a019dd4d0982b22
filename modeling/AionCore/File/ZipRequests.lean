import AionCore.File.FileService
import AionCore.Lib.Machine
import Mathlib.Logic.Function.Basic

/-!
# File service: archives that are created side by side

`create_zip_with_extra_roots` and `cancel_zip` as they run side by side. A call is validated and
registered at once; the task that writes its archive then goes on one operation at a time, and each
of these may fail. The service keeps the flag of a call under its request id.
-/

namespace AionCore.File

/-- How far a call has come. A file that was opened is in use until the call returns, unless it was
removed. -/
inductive ZipPhase where
  | queued
  | prepared
  | writing (place : Place) (written : List (String × Bytes)) (rest : List ZipEntry)
  | loaded (place : Place) (written : List (String × Bytes)) (entry : String × Bytes)
      (rest : List ZipEntry)
  | closing (place : Place) (written : List (String × Bytes)) (result : Except FileError Bool)
  | finished (place : Option Place) (result : Except FileError Bool)
  | returned (result : Except FileError Bool)

/-- The file that is in use. -/
def ZipPhase.file : ZipPhase → Option Place
  | .writing place _ _ | .loaded place _ _ _ | .closing place _ _ => some place
  | .finished place _ => place
  | _ => none

def ZipPhase.inProgress : ZipPhase → Bool
  | .returned _ => false
  | _ => true

def ZipPhase.givesUp : ZipPhase → Bool
  | .closing _ _ _ => true
  | _ => false

def ZipPhase.fails : ZipPhase → Bool
  | .finished _ (.error _) => true
  | _ => false

/-- What a call is about. `before` is the tree that it found, which no code reads. -/
structure ZipJob where
  output : Place
  entries : List ZipEntry
  requestId : Option String
  before : FileTree Bytes

/-- A call with its cancellation flag. -/
structure ZipCall extends ZipJob where
  cancelled : Bool
  phase : ZipPhase

/-- The disk, all calls so far, and the registered flags, each by the call that it belongs to. -/
structure ZipState where
  tree : FileTree Bytes
  calls : List ZipCall
  zipCancellations : String → Option ℕ

structure ZipRequest where
  path : PathString
  entries : List ZipEntry
  requestId : Option String
  outputRoot : Option PathString
  sourceRoot : Option PathString

/-- A call begins, goes on with its next operation, which may fail, or is cancelled. -/
inductive ZipEvent where
  | create (request : ZipRequest)
  | advance (i : ℕ) (fault : Option String)
  | cancel (requestId : String)

/-- What a caller is told. -/
inductive ZipAnswer where
  | refused (e : FileError)
  | created (i : ℕ) (result : Except FileError Bool)
  | cancelled (found : Bool)
  deriving DecidableEq

namespace FileService

variable (svc : FileService) (zip : ZipFormat)

def validateZip (tree : FileTree Bytes) (request : ZipRequest) : Except FileError Place :=
  match validatePathForWrite tree svc.cwd request.path
      (svc.allowedRoots ++ request.outputRoot.toList) with
  | .error e => .error e
  | .ok output =>
    match svc.checkSources tree request.sourceRoot request.entries with
    | .error e => .error e
    | .ok () => .ok output

def readEntry (tree : FileTree Bytes) (fault : Option String) (entry : ZipEntry) :
    Except FileError (String × Bytes) :=
  match entry, fault with
  | .disk _ filePath, some e =>
    .error (.internal ("ZIP: cannot read source file '" ++ shown filePath ++ "': " ++ e))
  | entry, _ => svc.entryContent tree entry

/-- The next operation of a call: the tree that it leaves, and how far the call has come. -/
def advanceZip (tree : FileTree Bytes) (call : ZipCall) (fault : Option String) :
    FileTree Bytes × ZipPhase :=
  match call.phase with
  | .queued =>
    let failed (e : String) : ZipPhase := .finished none (.error (.internal
      ("cannot create parent directory for '" ++ shownPlace call.output ++ "': " ++ e)))
    match fault with
    | some e => (tree, failed e)
    | none =>
      match tree.makeDirs call.output.dropLast.reverse with
      | (made, .error e) => (made.tree, failed (osError e))
      | (made, .ok ()) => (made.tree, .prepared)
  | .prepared =>
    let failed (e : String) : ZipPhase := .finished none (.error (.internal
      ("cannot create ZIP file '" ++ shownPlace call.output ++ "': " ++ e)))
    match fault with
    | some e => (tree, failed e)
    | none =>
      match tree.openPlace call.output with
      | .error e => (tree, failed (osError e))
      | .ok place => (tree.put place (.file []), .writing place [] call.entries)
  | .writing place written rest =>
    if call.cancelled then (tree, .closing place written (.ok false))
    else
      match rest with
      | entry :: rest =>
        match svc.readEntry tree fault entry with
        | .error e => (tree, .closing place written (.error e))
        | .ok entry => (tree, .loaded place written entry rest)
      | [] =>
        let failed (e : String) : ZipPhase := .closing place written (.error (.internal
          ("ZIP: failed to finalize '" ++ shownPlace call.output ++ "': " ++ e)))
        match fault, zip.finish written with
        | some e, _ | none, .error e => (tree, failed e)
        | none, .ok archive => (tree.put place (.file archive), .finished (some place) (.ok true))
  | .loaded place written (name, data) rest =>
    match zip.refuses written name data, fault with
    | some e, _ => (tree, .closing place written
        (.error (.internal ("ZIP: failed to start entry '" ++ name ++ "': " ++ e))))
    | none, some e => (tree, .closing place written
        (.error (.internal ("ZIP: failed to write entry '" ++ name ++ "': " ++ e))))
    | none, none => (tree.put place (.file (zip.bytes (written ++ [(name, data)]))),
        .writing place (written ++ [(name, data)]) rest)
  | .closing place written result =>
    -- an error of the removal is dropped
    match fault with
    | some _ => (tree.put place (.file (zip.bytes written)), .finished none result)
    | none => ((dropZip zip tree call.output place written).tree, .finished none result)
  | .finished _ result => (tree, .returned result)
  | .returned result => (tree, .returned result)

def addFlag (s : ZipState) : Option String → String → Option ℕ
  | some id => Function.update s.zipCancellations id (some s.calls.length)
  | none => s.zipCancellations

def dropFlag (s : ZipState) (call : ZipCall) (id : String) : Option ℕ :=
  match call.phase with
  | .finished _ (.ok _) => if call.requestId = some id then none else s.zipCancellations id
  | _ => s.zipCancellations id

def fireZip (s : ZipState) : ZipEvent → ZipState
  | .create request =>
    match svc.validateZip s.tree request with
    | .error _ => s
    | .ok output =>
      { s with
        calls := s.calls ++ [⟨⟨output, request.entries, request.requestId, s.tree⟩, false, .queued⟩]
        zipCancellations := addFlag s request.requestId }
  | .advance i fault =>
    match s.calls[i]? with
    | none => s
    | some call =>
      let (tree, phase) := svc.advanceZip zip s.tree call fault
      ⟨tree, s.calls.set i { call with phase := phase }, dropFlag s call⟩
  | .cancel id =>
    match s.zipCancellations id with
    | none => s
    | some i =>
      { s with
        calls := s.calls.modify i fun call => { call with cancelled := true }
        zipCancellations := Function.update s.zipCancellations id none }

def answerZip (s : ZipState) : ZipEvent → Option ZipAnswer
  | .create request =>
    match svc.validateZip s.tree request with
    | .error e => some (.refused e)
    | .ok _ => none
  | .advance i _ =>
    match s.calls[i]? with
    | some call =>
      match call.phase with
      | .finished _ result => some (.created i result)
      | _ => none
    | none => none
  | .cancel id => some (.cancelled (s.zipCancellations id).isSome)

def admitsZip (s : ZipState) : ZipEvent → Prop
  | .advance i _ => ∃ call ∈ s.calls[i]?, call.phase.inProgress = true
  | _ => True

/-- The service with any tree, before its first call. -/
def zipMachine : Machine ZipState ZipEvent where
  start s := s.calls = [] ∧ s.zipCancellations = fun _ => none
  admits := admitsZip
  fire := svc.fireZip zip

end FileService

end AionCore.File
