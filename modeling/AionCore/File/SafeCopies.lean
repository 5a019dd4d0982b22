import AionCore.File.Sandbox
import AionCore.Lib.FileWrites

/-!
# File service: copies that lose nothing

`copy_files_to_workspace` computes a destination from each source and writes it without a look at
what stands there. Which turns of its loop leave all sources and all earlier copies as they are.
-/

namespace AionCore.File

open FileTree (Effect Written)

/-- A file that a turn of the loop copies: the content it finds at the source, and the place where
its destination is opened. -/
structure Copy where
  path : PathString
  source : Place
  dest : Place
  opened : Place
  content : Bytes

def Copy.fixed (copy : Copy) : List (Place × Bytes) :=
  [(copy.opened, copy.content), (copy.source, copy.content)]

namespace FileService

variable (svc : FileService) (ws : Place) (sr : Option Place) (t : FileTree Bytes)

def copyTurn (fp : PathString) : Option Copy :=
  (svc.planCopy t ws sr fp).bind fun plan =>
    (t.read plan.src).toOption.bind fun content =>
      (t.createPlace plan.dest).map fun opened => ⟨fp, plan.src, plan.dest, opened, content⟩

def copies (t : FileTree Bytes) : List PathString → List Copy
  | [] => []
  | fp :: filePaths =>
    (svc.copyTurn ws sr t fp).toList ++ copies (svc.copyOne t ws sr fp).1.tree filePaths

def sourceFiles (filePaths : List PathString) : List (Place × Bytes) :=
  filePaths.filterMap fun fp =>
    match t.canonicalize svc.cwd fp with
    | .error _ => none
    | .ok p =>
      match t.isDirAt p, t.node p with
      | false, some (.file content) => some (p, content)
      | _, _ => none

/-- The copy lands in the workspace, is no copy of a file onto itself, and overwrites no file that
must stay as it is, unless the content is the same. -/
structure Harmless (fixed : List (Place × Bytes)) (copy : Copy) : Prop where
  inside : ws <+: copy.opened
  apart : t.openPlace copy.dest = .ok copy.source → copy.content = []
  spares : ∀ content, (copy.opened, content) ∈ fixed → copy.content = content

def CopiesSafe (t : FileTree Bytes) (fixed : List (Place × Bytes)) : List PathString → Prop
  | [] => True
  | fp :: filePaths =>
    (∀ copy, svc.copyTurn ws sr t fp = some copy → Harmless ws t fixed copy) ∧
    CopiesSafe (svc.copyOne t ws sr fp).1.tree
      (fixed ++ (svc.copyTurn ws sr t fp).toList.flatMap Copy.fixed) filePaths

def Holds (fixed : List (Place × Bytes)) : Prop :=
  ∀ q content, (q, content) ∈ fixed → t.Stands q ∧ t.node q = some (.file content)

/-- After the loop, all that must stay is as it was, and each copy is in the workspace where its
destination leads, with the content that its source has. -/
structure Lossless (fixed : List (Place × Bytes)) (filePaths : List PathString) : Prop where
  fixed : ∀ q content, (q, content) ∈ fixed →
    (svc.copyAll ws sr t filePaths).1.tree.node q = some (.file content)
  copied : ∀ copy ∈ svc.copies ws sr t filePaths, ∃ q, ws <+: q ∧
    (svc.copyAll ws sr t filePaths).1.tree.lookup copy.dest = .arrived q ∧
    (svc.copyAll ws sr t filePaths).1.tree.node q = some (.file copy.content) ∧
    (svc.copyAll ws sr t filePaths).1.tree.node copy.source = some (.file copy.content)

variable {svc ws sr t} {fixed : List (Place × Bytes)} {filePaths : List PathString}
  {fp : PathString} {copy : Copy} {q : Place} {content : Bytes}

/-- What a turn that copies leaves. -/
structure Copied (svc : FileService) (ws : Place) (sr : Option Place) (t : FileTree Bytes)
    (fp : PathString) (copy : Copy) : Prop where
  path : copy.path = fp
  reported : (svc.copyOne t ws sr fp).2 = true
  source : t.Stands copy.source ∧ t.node copy.source = some (.file copy.content)
  written : t.Written (svc.copyOne t ws sr fp).1.tree copy.dest copy.opened
    (if t.openPlace copy.dest = .ok copy.source then [] else copy.content)

theorem planCopy_source {plan : CopyPlan} (h : svc.planCopy t ws sr fp = some plan) :
    t.Stands plan.src ∧ ∃ content, t.read plan.src = .ok content ∧
      t.node plan.src = some (.file content) := by
  rw [planCopy] at h
  split at h
  · cases h
  · rename_i src hv
    split at h
    · rename_i hfile
      have hplan : ∀ relative : List String, (if relative = [] then none
          else some (⟨src, ws ++ relative⟩ : CopyPlan)) = some plan → plan.src = src := by
        intro relative hplan
        split at hplan
        · cases hplan
        · rw [← Option.some.inj hplan]
      have hsrc : plan.src = src := by
        cases sr with
        | none => exact hplan _ h
        | some root => exact hplan _ h
      obtain ⟨pieces, -, hl⟩ := canonicalize_sound (validatePath_ok hv).1
      have hself := FileTree.lookup_arrived hl
      have hs : FileTree.Goal.Sound t (.arrived src) := hl ▸ FileTree.lookup_sound
      rw [hsrc]
      rw [FileTree.isFile, hself] at hfile
      rcases hs with hreal | ⟨d, x, content, rfl, -, -, hn⟩
      · simp [hreal.isDirAt] at hfile
      · refine ⟨(FileTree.stands_of_lookup hl (by simp)).1, content, ?_, hn⟩
        rw [FileTree.read, hself]
        dsimp only
        rw [hn]
    · cases h

theorem copyOne_cases (svc : FileService) (ws : Place) (sr : Option Place) (t : FileTree Bytes)
    (fp : PathString) :
    (∃ copy, svc.copyTurn ws sr t fp = some copy ∧ Copied svc ws sr t fp copy) ∨
    svc.copyTurn ws sr t fp = none ∧ (svc.copyOne t ws sr fp).2 = false ∧
      t.Keeps (svc.copyOne t ws sr fp).1.tree := by
  rw [copyTurn]
  cases hplan : svc.planCopy t ws sr fp with
  | none =>
    have hone : svc.copyOne t ws sr fp = (⟨t, []⟩, false) := by rw [copyOne, hplan]
    rw [hone]
    exact .inr ⟨rfl, rfl, .refl t⟩
  | some plan =>
    obtain ⟨hstands, content, hread, hn⟩ := planCopy_source hplan
    have hone : svc.copyOne t ws sr fp =
        ((t.create plan.dest (if t.openPlace plan.dest = .ok plan.src then [] else content)).1,
          (t.create plan.dest (if t.openPlace plan.dest = .ok plan.src then [] else content)).2
            |>.toOption.isSome) := by
      have hself : (t.openPlace plan.dest).toOption = some plan.src ↔
          t.openPlace plan.dest = .ok plan.src := by
        cases t.openPlace plan.dest with
        | error e => simp [Except.toOption]
        | ok o => simp [Except.toOption]
      rw [copyOne, hplan]
      dsimp only
      rw [copySingleFile, hread]
      simp only [hself]
    rw [Option.bind_some, hread, Except.toOption, Option.bind_some]
    rcases t.create_cases plan.dest (if t.openPlace plan.dest = .ok plan.src then [] else content)
      with ⟨o, hplace, hok, hwritten⟩ | ⟨hplace, ⟨e, he⟩, hkeeps⟩
    · rw [hplace]
      refine .inl ⟨_, rfl, rfl, ?_, ⟨hstands, hn⟩, ?_⟩
      · rw [hone, hok]
        rfl
      · rw [hone]
        exact hwritten
    · rw [hplace]
      refine .inr ⟨rfl, ?_, ?_⟩
      · rw [hone, he]
        rfl
      · rw [hone]
        exact hkeeps

theorem Holds.keeps {t' : FileTree Bytes} (h : Holds t fixed) (hkeeps : t.Keeps t') :
    Holds t' fixed := by
  intro q content hq
  obtain ⟨hstands, hn⟩ := h q content hq
  obtain ⟨hstands', hnode⟩ := hkeeps q hstands
  exact ⟨hstands', hnode.trans hn⟩

theorem Copied.shape (h : Copied svc ws sr t fp copy) :
    t.KeepsShape (svc.copyOne t ws sr fp).1.tree := h.written.shape

/-- A harmless copy leaves what must stay, and what it copied stays as well from then on. -/
theorem Harmless.holds (h : Harmless ws t fixed copy) (hcopied : Copied svc ws sr t fp copy)
    (hfixed : Holds t fixed) : Holds (svc.copyOne t ws sr fp).1.tree (fixed ++ copy.fixed) := by
  obtain ⟨hstands, hsource⟩ := hcopied.source
  obtain ⟨hne, hleads, hopened, hshape, hframe⟩ := hcopied.written
  have hcontent : (if t.openPlace copy.dest = .ok copy.source then [] else copy.content) =
      copy.content := by
    split
    · rename_i hself
      exact (h.apart hself).symm
    · rfl
  rw [hcontent] at hopened
  have hkeep : ∀ q content, t.Stands q → t.node q = some (.file content) →
      (q = copy.opened → copy.content = content) →
      (svc.copyOne t ws sr fp).1.tree.node q = some (.file content) := by
    intro q content hq hn hsame
    by_cases hne : q = copy.opened
    · rw [hne, hopened, hsame hne]
    · rw [hframe q hq hne, hn]
  intro q content hq
  rw [List.mem_append, Copy.fixed, List.mem_pair] at hq
  rcases hq with hq | hq | hq
  · obtain ⟨hstandsq, hn⟩ := hfixed q content hq
    exact ⟨(hshape q hstandsq).1, hkeep q content hstandsq hn fun heq =>
      h.spares content (heq ▸ hq)⟩
  · obtain ⟨rfl, rfl⟩ := Prod.mk.inj hq
    exact ⟨(FileTree.stands_of_lookup hleads hne).1, hopened⟩
  · obtain ⟨rfl, rfl⟩ := Prod.mk.inj hq
    exact ⟨(hshape _ hstands).1, hkeep _ _ hstands hsource fun _ => rfl⟩

theorem copyAll_tree_cons : (svc.copyAll ws sr t (fp :: filePaths)).1.tree =
    (svc.copyAll ws sr (svc.copyOne t ws sr fp).1.tree filePaths).1.tree := rfl

theorem copyAll_shape (t : FileTree Bytes) :
    t.KeepsShape (svc.copyAll ws sr t filePaths).1.tree := by
  induction filePaths generalizing t with
  | nil => exact .refl t
  | cons fp filePaths ih =>
    rw [copyAll_tree_cons]
    rcases copyOne_cases svc ws sr t fp with ⟨copy, -, hcopied⟩ | ⟨-, -, hkeeps⟩
    · exact hcopied.shape.trans (ih _)
    · exact hkeeps.shape.trans (ih _)

/-- Only where a copy was opened does anything change that stands in the tree. -/
theorem copyAll_frame (hq : t.Stands q)
    (hne : ∀ copy ∈ svc.copies ws sr t filePaths, copy.opened ≠ q) :
    (svc.copyAll ws sr t filePaths).1.tree.node q = t.node q := by
  induction filePaths generalizing t with
  | nil => rfl
  | cons fp filePaths ih =>
    rw [copyAll_tree_cons]
    rw [copies] at hne
    rcases copyOne_cases svc ws sr t fp with ⟨copy, hturn, hcopied⟩ | ⟨hturn, -, hkeeps⟩
    · rw [hturn, Option.toList_some, List.singleton_append, List.forall_mem_cons] at hne
      rw [ih (hcopied.shape q hq).1 hne.2, hcopied.written.frame q hq (Ne.symm hne.1)]
    · rw [hturn, Option.toList_none, List.nil_append] at hne
      obtain ⟨hq', hnode⟩ := hkeeps q hq
      rw [ih hq' hne, hnode]

/-- The loop reports what it copied, and the rest as failed. -/
theorem copyAll_reports (svc : FileService) (ws : Place) (sr : Option Place) (t : FileTree Bytes)
    (filePaths : List PathString) :
    (svc.copyAll ws sr t filePaths).2.copiedFiles = (svc.copies ws sr t filePaths).map Copy.path ∧
    ((svc.copyAll ws sr t filePaths).2.copiedFiles ++
      (svc.copyAll ws sr t filePaths).2.failedFiles).Perm filePaths := by
  induction filePaths generalizing t with
  | nil => exact ⟨rfl, .nil⟩
  | cons fp filePaths ih =>
    obtain ⟨hcopied, hperm⟩ := ih (svc.copyOne t ws sr fp).1.tree
    rw [copyAll, copies]
    dsimp only
    rcases copyOne_cases svc ws sr t fp with ⟨copy, hturn, hcopy⟩ | ⟨hturn, hno, -⟩
    · rw [hturn, hcopy.reported, if_pos rfl, Option.toList_some, List.map_append, ← hcopied]
      rw [List.map_singleton, hcopy.path]
      exact ⟨rfl, hperm.cons fp⟩
    · rw [hturn, hno, if_neg (by decide), Option.toList_none, List.nil_append]
      exact ⟨hcopied, (List.perm_middle).trans (hperm.cons fp)⟩

/-- Harmless turns lose nothing. -/
theorem lossless_of_safe (hsafe : svc.CopiesSafe ws sr t fixed filePaths)
    (hfixed : Holds t fixed) : svc.Lossless ws sr t fixed filePaths := by
  induction filePaths generalizing t fixed with
  | nil => exact ⟨fun q content hq => (hfixed q content hq).2, fun copy hcopy => by cases hcopy⟩
  | cons fp filePaths ih =>
    obtain ⟨hturnsafe, hrest⟩ := hsafe
    rcases copyOne_cases svc ws sr t fp with ⟨copy, hturn, hcopied⟩ | ⟨hturn, -, hkeeps⟩
    · have hharmless := hturnsafe copy hturn
      rw [hturn, Option.toList_some, List.flatMap_singleton] at hrest
      obtain ⟨hfixed', hcopies⟩ := ih hrest (hharmless.holds hcopied hfixed)
      rw [← copyAll_tree_cons] at hfixed' hcopies
      refine ⟨fun q content hq => hfixed' q content (List.mem_append_left _ hq), ?_⟩
      intro other hother
      rw [copies, hturn, Option.toList_some, List.singleton_append, List.mem_cons] at hother
      rcases hother with rfl | hother
      · refine ⟨other.opened, hharmless.inside, ?_, ?_, ?_⟩
        · rw [copyAll_tree_cons]
          exact (copyAll_shape _).lookup hcopied.written.leads
        · exact hfixed' _ _ (List.mem_append_right _ (by simp [Copy.fixed]))
        · exact hfixed' _ _ (List.mem_append_right _ (by simp [Copy.fixed]))
      · exact hcopies other hother
    · rw [hturn, Option.toList_none, List.flatMap_nil, List.append_nil] at hrest
      obtain ⟨hfixed', hcopies⟩ := ih hrest (hfixed.keeps hkeeps)
      refine ⟨hfixed', fun other hother => hcopies other ?_⟩
      rwa [copies, hturn, Option.toList_none, List.nil_append] at hother

/-- If nothing is ever lost, each turn is harmless. -/
theorem safe_of_lossless (h : ∀ n, svc.Lossless ws sr t fixed (filePaths.take n))
    (hfixed : Holds t fixed) : svc.CopiesSafe ws sr t fixed filePaths := by
  induction filePaths generalizing t fixed with
  | nil => trivial
  | cons fp filePaths ih =>
    rcases copyOne_cases svc ws sr t fp with ⟨copy, hturn, hcopied⟩ | ⟨hturn, -, hkeeps⟩
    · have hmem : ∀ n, copy ∈ svc.copies ws sr t ((fp :: filePaths).take (n + 1)) := by
        intro n
        rw [List.take_succ_cons, copies, hturn]
        exact List.mem_append_left _ (by simp)
      have hone : svc.Lossless ws sr t fixed [fp] := h 1
      obtain ⟨q, hin, hleads, hq, -⟩ := hone.copied copy (hmem 0)
      rw [copyAll_tree_cons] at hleads hq
      obtain rfl : copy.opened = q :=
        FileTree.Goal.arrived.inj (hcopied.written.leads.symm.trans hleads)
      have hharmless : Harmless ws t fixed copy := by
        refine ⟨hin, fun hself => ?_, fun content hcontent => ?_⟩
        · have hempty := hcopied.written.holds
          rw [if_pos hself] at hempty
          simpa using hq.symm.trans hempty
        · simpa using hq.symm.trans (hone.fixed _ content hcontent)
      have hholds := hharmless.holds hcopied hfixed
      rw [CopiesSafe, hturn, Option.toList_some, List.flatMap_singleton]
      refine ⟨fun other hother => Option.some.inj hother ▸ hharmless, ih (fun n => ?_) hholds⟩
      have hmore := h (n + 1)
      obtain ⟨q, -, hleads, hq, hsource⟩ := hmore.copied copy (hmem n)
      obtain rfl : copy.opened = q := FileTree.Goal.arrived.inj
        (((copyAll_shape _).lookup hcopied.written.leads).symm.trans hleads)
      refine ⟨fun r content hr => ?_, fun other hother => hmore.copied other ?_⟩
      · rw [List.mem_append, Copy.fixed, List.mem_pair] at hr
        rcases hr with hr | hr | hr
        · exact hmore.fixed r content hr
        · obtain ⟨rfl, rfl⟩ := Prod.mk.inj hr
          exact hq
        · obtain ⟨rfl, rfl⟩ := Prod.mk.inj hr
          exact hsource
      · rw [List.take_succ_cons, copies, hturn]
        exact List.mem_append_right _ hother
    · rw [CopiesSafe, hturn, Option.toList_none, List.flatMap_nil, List.append_nil]
      refine ⟨fun other hother => (nomatch hother), ih (fun n => ?_) (hfixed.keeps hkeeps)⟩
      obtain ⟨hfixed', hcopies⟩ := h (n + 1)
      refine ⟨hfixed', fun other hother => hcopies other ?_⟩
      rwa [List.take_succ_cons, copies, hturn, Option.toList_none, List.nil_append]

theorem CopiesSafe.take (h : svc.CopiesSafe ws sr t fixed filePaths) (n : ℕ) :
    svc.CopiesSafe ws sr t fixed (filePaths.take n) := by
  induction filePaths generalizing t fixed n with
  | nil => rwa [List.take_nil]
  | cons fp filePaths ih =>
    cases n with
    | zero => trivial
    | succ n => exact ⟨h.1, ih h.2 n⟩

variable (svc t) in
/-- Every listed file has its old content; what is reported as copied is in the workspace with the
content of its source; no other file has changed; and each path is reported once. -/
structure NothingLost (workspace : PathString) (sourceRoot : Option PathString)
    (listed taken : List PathString) : Prop where
  sources : ∀ source ∈ svc.sourceFiles t listed,
    (svc.copyFilesToWorkspace t taken workspace sourceRoot).effect.tree.node source.1 =
      some (.file source.2)
  copied : ∀ ws sr result,
    validatePathWithExtraRoot t svc.cwd workspace svc.allowedRoots (some workspace) = .ok ws →
    svc.sourceRootOf t sourceRoot = .ok sr →
    (svc.copyFilesToWorkspace t taken workspace sourceRoot).result = .ok result →
    let after := (svc.copyFilesToWorkspace t taken workspace sourceRoot).effect.tree
    result.copiedFiles = (svc.copies ws sr t taken).map Copy.path ∧
      ∀ copy ∈ svc.copies ws sr t taken, ∃ q, ws <+: q ∧ after.lookup copy.dest = .arrived q ∧
        after.node q = some (.file copy.content) ∧
        after.node copy.source = some (.file copy.content)
  others : ∀ q content, t.Stands q → t.node q = some (.file content) →
    (∀ ws sr,
      validatePathWithExtraRoot t svc.cwd workspace svc.allowedRoots (some workspace) = .ok ws →
      svc.sourceRootOf t sourceRoot = .ok sr → ∀ copy ∈ svc.copies ws sr t taken,
        copy.opened ≠ q) →
    (svc.copyFilesToWorkspace t taken workspace sourceRoot).effect.tree.node q =
      some (.file content)
  reported : ∀ result,
    (svc.copyFilesToWorkspace t taken workspace sourceRoot).result = .ok result →
    (result.copiedFiles ++ result.failedFiles).Perm taken

variable (svc t) in
/-- If the request is accepted, every turn of its loop is harmless. -/
def CopySafe (filePaths : List PathString) (workspace : PathString)
    (sourceRoot : Option PathString) : Prop :=
  ∀ ws sr,
    validatePathWithExtraRoot t svc.cwd workspace svc.allowedRoots (some workspace) = .ok ws →
    svc.sourceRootOf t sourceRoot = .ok sr →
    svc.CopiesSafe ws sr t (svc.sourceFiles t filePaths) filePaths

variable {workspace : PathString} {sourceRoot : Option PathString}

theorem holds_sourceFiles (svc : FileService) (t : FileTree Bytes) (filePaths : List PathString) :
    Holds t (svc.sourceFiles t filePaths) := by
  intro q content hq
  obtain ⟨fp, -, hfp⟩ := List.mem_filterMap.mp hq
  split at hfp
  · cases hfp
  · rename_i p hp
    split at hfp
    · rename_i old hdir hn
      obtain ⟨rfl, rfl⟩ := Prod.mk.inj (Option.some.inj hfp)
      obtain ⟨pieces, -, hl⟩ := canonicalize_sound hp
      refine ⟨(FileTree.stands_of_lookup hl ?_).1, hn⟩
      rintro rfl
      cases hdir
    · cases hfp

/-- A request runs the loop or is refused. -/
theorem copyFiles_cases (svc : FileService) (t : FileTree Bytes) (workspace : PathString)
    (sourceRoot : Option PathString) :
    (∃ ws sr,
      validatePathWithExtraRoot t svc.cwd workspace svc.allowedRoots (some workspace) = .ok ws ∧
      svc.sourceRootOf t sourceRoot = .ok sr ∧
      ∀ taken, svc.copyFilesToWorkspace t taken workspace sourceRoot =
        ⟨(svc.copyAll ws sr t taken).1, .ok (svc.copyAll ws sr t taken).2, none, none⟩) ∨
    (∀ ws sr,
      validatePathWithExtraRoot t svc.cwd workspace svc.allowedRoots (some workspace) = .ok ws →
      svc.sourceRootOf t sourceRoot ≠ .ok sr) ∧
      ∃ e, ∀ taken, svc.copyFilesToWorkspace t taken workspace sourceRoot = refuse t e := by
  cases hws : validatePathWithExtraRoot t svc.cwd workspace svc.allowedRoots (some workspace) with
  | error e =>
    refine .inr ⟨fun ws sr h => (nomatch h), e, fun taken => ?_⟩
    rw [copyFilesToWorkspace, hws]
  | ok ws =>
    cases sourceRoot with
    | none =>
      refine .inl ⟨ws, none, rfl, rfl, fun taken => ?_⟩
      rw [copyFilesToWorkspace, hws]
    | some root =>
      cases hsr : validatePathWithExtraRoot t svc.cwd root svc.allowedRoots (some root) with
      | error e =>
        refine .inr ⟨fun ws' sr _ h => ?_, e, fun taken => ?_⟩
        · rw [sourceRootOf, hsr] at h
          cases h
        · rw [copyFilesToWorkspace, hws]
          dsimp only
          rw [hsr]
      | ok sr =>
        refine .inl ⟨ws, some sr, rfl, by rw [sourceRootOf, hsr]; rfl, fun taken => ?_⟩
        rw [copyFilesToWorkspace, hws]
        dsimp only
        rw [hsr]

/-- Nothing is lost after any turn of the loop if and only if each turn is harmless. -/
theorem copies_lose_nothing_iff (svc : FileService) (t : FileTree Bytes)
    (filePaths : List PathString) (workspace : PathString) (sourceRoot : Option PathString) :
    (∀ n, svc.NothingLost t workspace sourceRoot filePaths (filePaths.take n)) ↔
      svc.CopySafe t filePaths workspace sourceRoot := by
  have hsources := holds_sourceFiles svc t filePaths
  rcases copyFiles_cases svc t workspace sourceRoot with ⟨ws, sr, hws, hsr, hrun⟩ | ⟨hno, e, hrun⟩
  · constructor
    · intro h ws' sr' hws' hsr'
      obtain rfl : ws = ws' := Except.ok.inj (hws.symm.trans hws')
      obtain rfl : sr = sr' := Except.ok.inj (hsr.symm.trans hsr')
      refine safe_of_lossless (fun n => ?_) hsources
      obtain ⟨hkept, hcopied, -, -⟩ := h n
      rw [hrun] at hkept hcopied
      exact ⟨fun q content hq => hkept (q, content) hq, (hcopied ws sr _ hws hsr rfl).2⟩
    · intro h n
      obtain ⟨hkept, hcopied⟩ := lossless_of_safe ((h ws sr hws hsr).take n) hsources
      obtain ⟨hpaths, hperm⟩ := copyAll_reports svc ws sr t (filePaths.take n)
      constructor
      · rw [hrun]
        exact fun source hsource => hkept source.1 source.2 hsource
      · intro ws' sr' result hws' hsr' hresult
        obtain rfl : ws = ws' := Except.ok.inj (hws.symm.trans hws')
        obtain rfl : sr = sr' := Except.ok.inj (hsr.symm.trans hsr')
        rw [hrun] at hresult ⊢
        obtain rfl := Except.ok.inj hresult
        exact ⟨hpaths, hcopied⟩
      · intro q content hq hn hne
        rw [hrun]
        exact (copyAll_frame hq (hne ws sr hws hsr)).trans hn
      · intro result hresult
        rw [hrun] at hresult
        obtain rfl := Except.ok.inj hresult
        exact hperm
  · -- a refused request changes nothing
    refine iff_of_true (fun n => ?_) fun ws sr hws hsr => absurd hsr (hno ws sr hws)
    constructor
    · rw [hrun]
      exact fun source hsource => (hsources source.1 source.2 hsource).2
    · exact fun ws sr result hws hsr => absurd hsr (hno ws sr hws)
    · rw [hrun]
      exact fun q content _ hn _ => hn
    · intro result hresult
      rw [hrun] at hresult
      cases hresult

/-- A workspace `/ws` with one file. -/
def oneFile : FileTree Bytes where
  node
    | ["ws"] => some .dir
    | ["ws", "a"] => some (.file [1])
    | _ => none

/-- A file of the workspace that is copied into the workspace is emptied, and reported as copied. -/
theorem copy_onto_itself_empties :
    let outcome := sample.copyFilesToWorkspace oneFile [["", "ws", "a"]] ["", "ws"] none
    (outcome.result = .ok ⟨[["", "ws", "a"]], []⟩ ∧
      outcome.effect.tree.node ["ws", "a"] = some (.file [])) ∧
    ¬sample.NothingLost oneFile ["", "ws"] none [["", "ws", "a"]] [["", "ws", "a"]] := by
  have hempty : (sample.copyFilesToWorkspace oneFile [["", "ws", "a"]] ["", "ws"]
      none).effect.tree.node ["ws", "a"] = some (.file []) := by decide +kernel
  refine ⟨⟨by decide +kernel, hempty⟩, fun h => ?_⟩
  have hsource := h.sources (["ws", "a"], [1]) (by decide +kernel)
  rw [hempty] at hsource
  cases hsource

end FileService

end AionCore.File
