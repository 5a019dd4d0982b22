import AionCore.File.ZipRequests
import AionCore.Lib.OpenFiles

/-!
# File service: one archive among others

What is known of a call that creates an archive, from phase to phase, while other calls go on: its
sources are what they were, its file is where its output path leads, and what it has written are the
entries. Its own operations keep that, and so does a change of a file that it does not rely on.
-/

namespace AionCore.File

open FileTree (DifferAt)

variable (svc : FileService) (zip : ZipFormat)

namespace FileService

def zipSources (tree : FileTree Bytes) (entries : List ZipEntry) : List Place :=
  entries.filterMap fun entry =>
    match entry with
    | .disk _ filePath => (tree.canonicalize svc.cwd filePath).toOption
    | .text _ _ => none

def relies (tree : FileTree Bytes) (output : Place) (entries : List ZipEntry) : List Place :=
  output :: output.dropLast :: svc.zipSources tree entries

end FileService

section Call

variable (tree : FileTree Bytes) (job : ZipJob)

/-- What a call relies on is where it was when the call began. -/
structure Intact : Prop where
  sources : ∀ name filePath, .disk name filePath ∈ job.entries → ∃ pieces q,
    FileTree.route svc.cwd filePath = some pieces ∧
      q ∈ svc.zipSources job.before job.entries ∧
      job.before.lookup pieces = .arrived q ∧ tree.lookup pieces = .arrived q ∧
      tree.node q = job.before.node q
  directory : ∃ d x, job.output = d ++ [x] ∧ tree.lookup d = .arrived d

/-- The file that a call has opened is at the end of its output path, and it is new there if
nothing was. -/
structure Opened (p : Place) : Prop where
  ne_nil : p ≠ []
  leads : tree.lookup job.output = .arrived p
  file : ∃ content, tree.node p = some (.file content)
  new : job.before.node job.output = none → p = job.output

def Gathered (written : List (String × Bytes)) (rest : List ZipEntry) : Prop :=
  ∃ done, job.entries = done ++ rest ∧ done.mapM (svc.entryContent job.before) = .ok written

def Archived (p : Place) : Prop :=
  ∃ contents archive, job.entries.mapM (svc.entryContent job.before) = .ok contents ∧
    zip.finish contents = .ok archive ∧ tree.lookup job.output = .arrived p ∧
    tree.node p = some (.file archive)

/-- What is known of a call in a phase. -/
def ZipPhase.Sound : ZipPhase → Prop
  | .queued | .prepared => tree.node job.output = job.before.node job.output
  | .writing p written rest => Opened tree job p ∧ Gathered svc job written rest
  | .loaded p written entry rest => Opened tree job p ∧ Gathered svc job (written ++ [entry]) rest
  | .closing p _ result => Opened tree job p ∧ result ≠ .ok true
  | .finished place result =>
    (result = .ok true ∧ ∃ p, place = some p ∧ Archived svc zip tree job p) ∨
      result ≠ .ok true ∧ place = none ∧ tree.node job.output = job.before.node job.output
  | .returned _ => True

/-- What a call in progress relies on is intact, and so is what it has done. -/
structure ZipCall.Sound (call : ZipCall) : Prop where
  intact : Intact svc tree call.toZipJob
  phase : call.phase.Sound svc zip tree call.toZipJob

end Call

variable {svc zip} {tree tree' : FileTree Bytes} {job : ZipJob} {call : ZipCall} {p : Place}
  {fault : Option String}

/-- The sources are what they were while another file changes. -/
theorem Intact.sources_differ (h : Intact svc tree job) (hd : tree.DifferAt tree' p)
    (hsources : p ∉ svc.zipSources job.before job.entries)
    (hdirectory : ∀ d x, job.output = d ++ [x] → tree.lookup d = .arrived d →
      tree'.lookup d = .arrived d) : Intact svc tree' job where
  sources := by
    intro name filePath hmem
    obtain ⟨pieces, q, hroute, hq, hbefore, hlookup, hnode⟩ := h.sources name filePath hmem
    have hne : q ≠ p := by
      rintro rfl
      exact hsources hq
    exact ⟨pieces, q, hroute, hq, hbefore, hd.lookup hlookup hne, (hd.node hlookup hne).trans hnode⟩
  directory := by
    obtain ⟨d, x, houtput, hlookup⟩ := h.directory
    exact ⟨d, x, houtput, hdirectory d x houtput hlookup⟩

section Others

variable (hd : tree.DifferAt tree' p) (hrelies : p ∉ svc.relies job.before job.output job.entries)

include hrelies in
theorem ne_directory {d : Place} {x : String} (houtput : job.output = d ++ [x]) : d ≠ p := by
  rintro rfl
  refine hrelies (List.mem_cons_of_mem _ ?_)
  rw [houtput, List.dropLast_concat]
  exact List.mem_cons_self

include hd

include hrelies in
theorem Intact.differ (h : Intact svc tree job) : Intact svc tree' job :=
  h.sources_differ hd
    (fun hmem => hrelies (List.mem_cons_of_mem _ (List.mem_cons_of_mem _ hmem)))
    fun _ _ houtput hlookup => hd.lookup hlookup (ne_directory hrelies houtput)

include hrelies in
theorem Intact.node_output (h : Intact svc tree job) :
    tree'.node job.output = tree.node job.output := by
  obtain ⟨d, x, houtput, hlookup⟩ := h.directory
  have hne : d ++ [x] ≠ p := by
    rintro rfl
    exact hrelies (houtput ▸ List.mem_cons_self)
  rw [houtput]
  exact hd.node_under hlookup (ne_directory hrelies houtput) hne

theorem Opened.differ {q : Place} (h : Opened tree job q) (hne : q ≠ p) : Opened tree' job q where
  ne_nil := h.ne_nil
  leads := hd.lookup h.leads hne
  file := by
    rw [hd.node h.leads hne]
    exact h.file
  new := h.new

/-- A call stays sound when another file changes that it does not rely on. -/
theorem ZipCall.Sound.differ (h : call.Sound svc zip tree)
    (hrelies : p ∉ svc.relies call.before call.output call.entries)
    (hfile : call.phase.file ≠ some p) : call.Sound svc zip tree' := by
  refine ⟨h.intact.differ hd hrelies, ?_⟩
  have hnode := h.intact.node_output hd hrelies
  have hphase := h.phase
  cases hc : call.phase with
  | queued | prepared =>
    rw [hc] at hphase
    exact hnode.trans hphase
  | writing q written rest | loaded q written entry rest | closing q written result =>
    rw [hc] at hphase hfile
    exact ⟨hphase.1.differ hd fun heq => hfile (congrArg some heq), hphase.2⟩
  | finished place result =>
    rw [hc] at hphase hfile
    obtain ⟨hok, q, rfl, contents, archive, hcontents, harchive, hlookup, hq⟩ |
      ⟨hne, hplace, hsame⟩ := hphase
    · have hqp : q ≠ p := fun heq => hfile (congrArg some heq)
      exact .inl ⟨hok, q, rfl, contents, archive, hcontents, harchive, hd.lookup hlookup hqp,
        (hd.node hlookup hqp).trans hq⟩
    · exact .inr ⟨hne, hplace, hnode.trans hsame⟩
  | returned result => trivial

end Others

section Steps

variable {entry : ZipEntry}

/-- A source has the content that it had. -/
theorem Intact.entryContent (h : Intact svc tree job) (hmem : entry ∈ job.entries) :
    svc.entryContent tree entry = svc.entryContent job.before entry := by
  cases entry with
  | text name content => rfl
  | disk name filePath =>
    obtain ⟨pieces, q, hroute, -, hbefore, hlookup, hnode⟩ := h.sources name filePath hmem
    rw [FileService.entryContent, FileService.entryContent, hroute]
    dsimp only
    rw [FileTree.read, FileTree.read, hbefore, hlookup]
    dsimp only
    rw [hnode]

variable {content : String × Bytes}

theorem readEntry_ok (h : Intact svc tree job) (hmem : entry ∈ job.entries)
    (hread : svc.readEntry tree fault entry = .ok content) :
    svc.entryContent job.before entry = .ok content := by
  rw [← h.entryContent hmem]
  unfold FileService.readEntry at hread
  split at hread
  · cases hread
  · exact hread

variable {written : List (String × Bytes)} {rest : List ZipEntry}

theorem Gathered.read (h : Gathered svc job written (entry :: rest))
    (hread : svc.entryContent job.before entry = .ok content) :
    Gathered svc job (written ++ [content]) rest := by
  obtain ⟨done, hentries, hdone⟩ := h
  refine ⟨done ++ [entry], by simp [hentries], ?_⟩
  rw [List.mapM_append, hdone]
  simp [hread]
  rfl

theorem Opened.put (h : Opened tree job p) (content : Bytes) :
    Opened (tree.put p (.file content)) job p ∧ tree.KeepsShape (tree.put p (.file content)) := by
  obtain ⟨old, hold⟩ := h.file
  obtain ⟨hstands, -⟩ := FileTree.stands_of_lookup h.leads h.ne_nil
  have hshape := FileTree.keepsShape_put_file hstands hold content
  exact ⟨⟨h.ne_nil, hshape.lookup h.leads, ⟨content, FileTree.put_node_self _⟩, h.new⟩, hshape⟩

theorem Opened.differ_put (h : Opened tree job p) (content : Bytes) :
    tree.DifferAt (tree.put p (.file content)) p :=
  FileTree.differAt_put h.ne_nil (.inr h.file) _

theorem Intact.put (h : Intact svc tree job) (hopened : Opened tree job p)
    (hsources : p ∉ svc.zipSources job.before job.entries) (content : Bytes) :
    Intact svc (tree.put p (.file content)) job :=
  h.sources_differ (hopened.differ_put content) hsources
    fun _ _ _ hlookup => (hopened.put content).2.lookup hlookup

def ZipCall.opens (tree : FileTree Bytes) (call : ZipCall) (fault : Option String) : Option Place :=
  match call.phase, fault with
  | .prepared, none => (tree.openPlace call.output).toOption
  | _, _ => none

def Uses (tree : FileTree Bytes) (call : ZipCall) (fault : Option String) (p : Place) : Prop :=
  call.phase.file = some p ∨ call.opens tree fault = some p

/-- What is known after the next operation of a call. -/
structure Advanced (svc : FileService) (zip : ZipFormat) (tree : FileTree Bytes) (call : ZipCall)
    (fault : Option String) (tree' : FileTree Bytes) (phase : ZipPhase) : Prop where
  intact : Intact svc tree' call.toZipJob
  sound : phase.Sound svc zip tree' call.toZipJob
  effect : tree' = tree ∨ ∃ p, Uses tree call fault p ∧ tree.DifferAt tree' p
  file : ∀ p, phase.file = some p → Uses tree call fault p

variable {phase : ZipPhase}

section

variable (h : call.Sound svc zip tree)
include h

theorem ZipCall.Sound.still (hphase : phase.Sound svc zip tree call.toZipJob)
    (hfile : ∀ p, phase.file = some p → call.phase.file = some p) :
    Advanced svc zip tree call fault tree phase :=
  ⟨h.intact, hphase, .inl rfl, fun p hp => .inl (hfile p hp)⟩

theorem ZipCall.Sound.fails (hsame : tree.node call.output = call.before.node call.output)
    (e : FileError) :
    Advanced svc zip tree call fault tree (.finished none (.error e)) :=
  h.still (.inr ⟨by simp, rfl, hsame⟩) fun _ hp => nomatch hp

/-- The directory of the output is there, so none is created. -/
theorem advance_queued (hphase : call.phase = .queued) :
    Advanced svc zip tree call fault (svc.advanceZip zip tree call fault).1
      (svc.advanceZip zip tree call fault).2 := by
  have hsame := h.phase
  rw [hphase] at hsame
  obtain ⟨d, x, houtput, hlookup⟩ := h.intact.directory
  obtain ⟨hmade, -⟩ := FileTree.makeDirs_of_arrived hlookup
  unfold FileService.advanceZip
  rw [hphase, houtput, List.dropLast_concat]
  cases fault with
  | some e => exact h.fails hsame _
  | none =>
    revert hmade
    generalize tree.makeDirs d.reverse = made
    obtain ⟨made, result⟩ := made
    rintro rfl
    cases result with
    | error e => exact h.fails hsame _
    | ok u => exact h.still hsame fun _ hp => nomatch hp

theorem advance_prepared (hphase : call.phase = .prepared)
    (huses : ∀ p, Uses tree call fault p → p ∉ svc.zipSources call.before call.entries) :
    Advanced svc zip tree call fault (svc.advanceZip zip tree call fault).1
      (svc.advanceZip zip tree call fault).2 := by
  have hsame := h.phase
  rw [hphase] at hsame
  unfold FileService.advanceZip
  rw [hphase]
  cases fault with
  | some e => exact h.fails hsame _
  | none =>
    cases hopen : tree.openPlace call.output with
    | error e => exact h.fails hsame _
    | ok p =>
      have hp : Uses tree call none p := by
        refine .inr ?_
        unfold ZipCall.opens
        rw [hphase]
        exact congrArg Except.toOption hopen
      obtain ⟨hne, hnode⟩ := FileTree.openPlace_not_dir hopen
      have hdiffer := FileTree.differAt_put hne hnode (.file [])
      obtain ⟨-, hleads, hholds, hshape, -⟩ := FileTree.written_put hopen []
      refine ⟨h.intact.sources_differ hdiffer (huses p hp)
        fun _ _ _ hlookup => hshape.lookup hlookup, ⟨⟨hne, hleads, ⟨_, hholds⟩, ?_⟩, [], rfl, rfl⟩,
        .inr ⟨p, hp, hdiffer⟩, ?_⟩
      · intro hnew
        obtain ⟨d, x, houtput, hlookup⟩ := h.intact.directory
        have hnone : tree.node (d ++ [x]) = none := by
          rw [← houtput, hsame, hnew]
        rw [houtput] at hopen ⊢
        exact FileTree.openPlace_name hlookup hopen (by simp [hnone])
      · intro q hq
        obtain rfl := Option.some.inj hq
        exact hp

/-- The open file is written, and stays in use. -/
theorem ZipCall.Sound.writes (hfile : call.phase.file = some p)
    (hopened : Opened tree call.toZipJob p)
    (hsources : p ∉ svc.zipSources call.before call.entries) (content : Bytes)
    (hphase : Opened (tree.put p (.file content)) call.toZipJob p →
      phase.Sound svc zip (tree.put p (.file content)) call.toZipJob)
    (hphaseFile : phase.file = some p) :
    Advanced svc zip tree call fault (tree.put p (.file content)) phase where
  intact := h.intact.put hopened hsources content
  sound := hphase (hopened.put content).1
  effect := .inr ⟨p, .inl hfile, hopened.differ_put content⟩
  file := by
    intro q hq
    rw [hphaseFile] at hq
    exact .inl (hfile.trans hq)

theorem advance_writing (hphase : call.phase = .writing p written rest)
    (hsources : p ∉ svc.zipSources call.before call.entries) :
    Advanced svc zip tree call fault (svc.advanceZip zip tree call fault).1
      (svc.advanceZip zip tree call fault).2 := by
  have hsound := h.phase
  rw [hphase] at hsound
  obtain ⟨hopened, hgathered⟩ := hsound
  have hfile : call.phase.file = some p := by
    rw [hphase]
    rfl
  have closes : ∀ result, result ≠ .ok true →
      Advanced svc zip tree call fault tree (.closing p written result) := fun result hresult =>
    h.still ⟨hopened, hresult⟩ fun q hq => hfile.trans hq
  unfold FileService.advanceZip
  rw [hphase]
  dsimp only
  split
  · exact closes _ (by simp)
  · cases rest with
    | cons entry rest =>
      dsimp only
      cases hread : svc.readEntry tree fault entry with
      | error e => exact closes _ (by simp)
      | ok content =>
        have hmem : entry ∈ call.entries := by
          obtain ⟨done, hentries, -⟩ := hgathered
          simp [hentries]
        refine h.still ⟨hopened, hgathered.read (readEntry_ok h.intact hmem hread)⟩
          fun q hq => hfile.trans hq
    | nil =>
      cases fault with
      | some e => exact closes _ (by simp)
      | none =>
        cases hfinish : zip.finish written with
        | error e => exact closes _ (by simp)
        | ok archive =>
          obtain ⟨done, hentries, hdone⟩ := hgathered
          rw [List.append_nil] at hentries
          have hall : call.entries.mapM (svc.entryContent call.before) = .ok written := by
            rw [hentries]
            exact hdone
          exact h.writes hfile hopened hsources archive (fun hopened' => .inl ⟨rfl, p, rfl,
            written, archive, hall, hfinish, hopened'.leads, FileTree.put_node_self _⟩) rfl

theorem advance_loaded {entry : String × Bytes}
    (hphase : call.phase = .loaded p written entry rest)
    (hsources : p ∉ svc.zipSources call.before call.entries) :
    Advanced svc zip tree call fault (svc.advanceZip zip tree call fault).1
      (svc.advanceZip zip tree call fault).2 := by
  obtain ⟨name, data⟩ := entry
  have hsound := h.phase
  rw [hphase] at hsound
  obtain ⟨hopened, hgathered⟩ := hsound
  have hfile : call.phase.file = some p := by
    rw [hphase]
    rfl
  have closes : ∀ e : FileError, Advanced svc zip tree call fault tree
      (.closing p written (.error e)) := fun e =>
    h.still ⟨hopened, by simp⟩ fun q hq => hfile.trans hq
  unfold FileService.advanceZip
  rw [hphase]
  dsimp only
  cases hrefuses : zip.refuses written name data with
  | some e => exact closes _
  | none =>
    cases fault with
    | some e => exact closes _
    | none => exact h.writes hfile hopened hsources _ (fun hopened' => ⟨hopened', hgathered⟩) rfl

/-- What had nothing at its output has nothing there again. -/
theorem advance_closing {result : Except FileError Bool}
    (hphase : call.phase = .closing p written result)
    (hsources : p ∉ svc.zipSources call.before call.entries) (hfault : fault = none)
    (hnew : call.before.node call.output = none) :
    Advanced svc zip tree call fault (svc.advanceZip zip tree call fault).1
      (svc.advanceZip zip tree call fault).2 := by
  have hsound := h.phase
  rw [hphase] at hsound
  obtain ⟨hopened, hresult⟩ := hsound
  obtain ⟨d, x, houtput, hlookup⟩ := h.intact.directory
  obtain rfl : p = d ++ [x] := (hopened.new hnew).trans houtput
  obtain ⟨hput, -⟩ := hopened.put (zip.bytes written)
  have hdrop : (svc.advanceZip zip tree call fault).1 =
        (tree.put (d ++ [x]) (.file (zip.bytes written))).prune (d ++ [x]) ∧
      (svc.advanceZip zip tree call fault).2 = .finished none result := by
    have hunlink := FileTree.unlink_file (houtput ▸ hput.leads) (FileTree.put_node_self _)
    unfold FileService.advanceZip
    rw [hphase, hfault, houtput]
    dsimp only
    rw [FileService.dropZip, hunlink]
    exact ⟨rfl, rfl⟩
  have hdiffer : tree.DifferAt
      ((tree.put (d ++ [x]) (.file (zip.bytes written))).prune (d ++ [x])) (d ++ [x]) :=
    ⟨hopened.ne_nil, .inr hopened.file, fun q hq =>
      (FileTree.prune_node hq).trans (FileTree.put_node hq _)⟩
  rw [hdrop.1, hdrop.2]
  refine ⟨h.intact.sources_differ hdiffer hsources ?_, .inr ⟨hresult, rfl, ?_⟩,
    .inr ⟨d ++ [x], .inl ?_, hdiffer⟩, fun _ hq => nomatch hq⟩
  · intro d' x' houtput' hlookup'
    refine hdiffer.lookup hlookup' ?_
    rintro rfl
    have hlength := congrArg List.length (houtput'.symm.trans houtput)
    simp at hlength
  · rw [hnew, houtput]
    exact if_pos List.prefix_rfl
  · rw [hphase]
    rfl

/-- The next operation of a call keeps it sound. -/
theorem ZipCall.Sound.advance
    (huses : ∀ p, Uses tree call fault p → p ∉ svc.zipSources call.before call.entries)
    (hcloses : ∀ p written result, call.phase = .closing p written result →
      fault = none ∧ call.before.node call.output = none) :
    Advanced svc zip tree call fault (svc.advanceZip zip tree call fault).1
      (svc.advanceZip zip tree call fault).2 := by
  have hsources : ∀ p, call.phase.file = some p →
      p ∉ svc.zipSources call.before call.entries := fun p hp => huses p (.inl hp)
  cases hphase : call.phase with
  | queued => exact advance_queued h hphase
  | prepared => exact advance_prepared h hphase huses
  | writing p written rest => exact advance_writing h hphase (hsources p (by rw [hphase]; rfl))
  | loaded p written entry rest => exact advance_loaded h hphase (hsources p (by rw [hphase]; rfl))
  | closing p written result =>
    obtain ⟨hfault, hnew⟩ := hcloses p written result hphase
    exact advance_closing h hphase (hsources p (by rw [hphase]; rfl)) hfault hnew
  | finished place result | returned result =>
    unfold FileService.advanceZip
    rw [hphase]
    exact h.still trivial fun _ hq => nomatch hq

end

end Steps

end AionCore.File
