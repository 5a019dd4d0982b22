import AionCore.File.FileService

/-!
# File service: writes and the sandbox

Which requests keep to the sandbox. A removal always does. A file is written where its
path leads, so a link at its end, or on the way from the workspace to the destination of a
copy, can take it elsewhere; and a root that is renamed leaves its place for one beside it.
-/

namespace AionCore.File

open FileTree (Plain Effect)

/-- The request touched the place, or another object stands there afterwards. -/
def Alters (t : FileTree Bytes) (done : Effect Bytes) (p : Place) : Prop :=
  p ∈ done.touched ∨ done.tree.node p ≠ t.node p

/-- A link stands at `p`, and `open` for writing follows it to a place outside. -/
def LeadsOut (t : FileTree Bytes) (roots : List Place) (p : Place) : Prop :=
  ∃ target q, t.node p = some (.link target) ∧ t.openPlace p = .ok q ∧ ¬Inside roots q

/-- A file that is created under `dest`, with the directories that are missing on the way,
lands outside. -/
def Strays (t : FileTree Bytes) (roots : List Place) (dest : Place) : Prop :=
  ∃ q, t.landing dest = some q ∧ ¬Inside roots q

def MovesRoot (t : FileTree Bytes) (roots : List Place) (p : Place) (newName : String) : Prop :=
  p ∈ roots ∧ ¬Inside roots p.dropLast ∧
    ∃ done, FileService.renameEntrySync t p newName = .ok done

namespace FileService

variable (svc : FileService) (zip : ZipFormat) (t : FileTree Bytes)

/-- The canonical roots that a request may write under. -/
def rootsOf : Request → List Place
  | .writeFile _ _ workspace | .copyFilesToWorkspace _ workspace _ | .removeEntry _ workspace =>
    canonicalRoots t svc.cwd (svc.allowedRoots ++ [workspace])
  | .renameEntry _ _ extraRoot =>
    canonicalRoots t svc.cwd (svc.allowedRoots ++ extraRoot.toList)
  | .createZip _ _ _ outputRoot _ =>
    canonicalRoots t svc.cwd (svc.allowedRoots ++ outputRoot.toList)

def CopiesStay (roots : List Place) (wsCanonical : Place) (srCanonical : Option Place)
    (t : FileTree Bytes) : List PathString → Prop
  | [] => True
  | fp :: filePaths =>
    (∀ plan, svc.planCopy t wsCanonical srCanonical fp = some plan →
      ¬Strays t roots plan.dest) ∧
    CopiesStay roots wsCanonical srCanonical (svc.copyOne t wsCanonical srCanonical fp).1.tree
      filePaths

def sourceRootOf (sourceRoot : Option PathString) : Except FileError (Option Place) :=
  match sourceRoot with
  | none => .ok none
  | some sr => (validatePathWithExtraRoot t svc.cwd sr svc.allowedRoots (some sr)).map some

/-- When a request keeps to the sandbox. -/
def Contained (req : Request) : Prop :=
  match req with
  | .writeFile path _ workspace =>
    hasTraversal path = false → ∀ p,
      validatePathForWrite t svc.cwd path (svc.allowedRoots ++ [workspace]) = .ok p →
        ¬LeadsOut t (svc.rootsOf t req) p
  | .copyFilesToWorkspace filePaths workspace sourceRoot =>
    ∀ ws, validatePathWithExtraRoot t svc.cwd workspace svc.allowedRoots (some workspace) =
        .ok ws → ∀ sr, svc.sourceRootOf t sourceRoot = .ok sr →
        svc.CopiesStay (svc.rootsOf t req) ws sr t filePaths
  | .removeEntry _ _ => True
  | .renameEntry path newName extraRoot =>
    hasTraversal path = false → '/' ∉ newName.toList → '\\' ∉ newName.toList → ∀ p,
      validatePathWithExtraRoot t svc.cwd path svc.allowedRoots extraRoot = .ok p →
        ¬MovesRoot t (svc.rootsOf t req) p newName
  | .createZip path entries _ outputRoot sourceRoot =>
    svc.checkSources t sourceRoot entries = .ok () → ∀ p,
      validatePathForWrite t svc.cwd path (svc.allowedRoots ++ outputRoot.toList) = .ok p →
        ¬LeadsOut t (svc.rootsOf t req) p

variable {svc zip t} {roots : List Place} {done : Effect Bytes}

theorem alters_iff (h : done.Frames t) :
    (∀ p, Alters t done p → Inside roots p) ↔ ∀ p ∈ done.touched, Inside roots p := by
  constructor
  · exact fun hin p hp => hin p (.inl hp)
  · rintro hin p (hp | hp)
    · exact hin p hp
    · by_contra hout
      exact hp (h p fun q hq hqp => hout ((hin q hq).mono hqp))

theorem alters_refl (t : FileTree Bytes) : ∀ p, Alters t ⟨t, []⟩ p → Inside roots p := by
  rintro p (hp | hp)
  · simp at hp
  · exact absurd rfl hp

variable {pieces : List String} {x : String} {dir : Place}

/-- A file that is written under a name in a place inside stays inside unless a link at the
name leads out. -/
theorem inside_openPlace {q : Place} (hdir : t.lookup pieces = .arrived dir)
    (hin : Inside roots dir) (hq : t.openPlace (dir ++ [x]) = .ok q) :
    Inside roots q ↔ ¬LeadsOut t roots (dir ++ [x]) := by
  constructor
  · rintro hinq ⟨target, q', -, hq', hout⟩
    rw [hq] at hq'
    exact hout (Except.ok.inj hq' ▸ hinq)
  · intro hlead
    by_cases hlink : ∃ target, t.node (dir ++ [x]) = some (.link target)
    · obtain ⟨target, htarget⟩ := hlink
      by_contra hout
      exact hlead ⟨target, q, htarget, hq, hout⟩
    · rw [FileTree.openPlace_name hdir hq fun target ht => hlink ⟨target, ht⟩]
      exact hin.mono (List.prefix_append dir [x])

theorem writeFile_contained (path : PathString) (data : Bytes) (workspace : PathString) :
    (∀ p, Alters t (svc.writeFile t path data workspace).effect p →
      Inside (canonicalRoots t svc.cwd (svc.allowedRoots ++ [workspace])) p) ↔
    (hasTraversal path = false → ∀ p,
      validatePathForWrite t svc.cwd path (svc.allowedRoots ++ [workspace]) = .ok p →
        ¬LeadsOut t (canonicalRoots t svc.cwd (svc.allowedRoots ++ [workspace])) p) := by
  rw [writeFile]
  by_cases ht : hasTraversal path = true
  · rw [if_pos ht]
    exact iff_of_true (alters_refl t) fun hno => by simp [ht] at hno
  rw [if_neg ht]
  cases hv : validatePathForWrite t svc.cwd path (svc.allowedRoots ++ [workspace]) with
  | error e => exact iff_of_true (alters_refl t) fun _ p hp => by cases hp
  | ok canonical =>
    obtain ⟨dir, up, x, rfl, -, -, hc, hin⟩ := validatePathForWrite_ok hv
    obtain ⟨pieces, -, hdir⟩ := canonicalize_sound hc
    dsimp only
    cases hw : t.write (dir ++ [x]) data with
    | error e =>
      refine iff_of_true (alters_refl t) fun _ p hp => ?_
      rintro ⟨target, q, -, hq, -⟩
      obtain rfl := Except.ok.inj hp
      rw [FileTree.write, hq] at hw
      cases hw
    | ok done =>
      rw [alters_iff (FileTree.write_frames hw)]
      cases hq : t.openPlace (dir ++ [x]) with
      | error e =>
        rw [FileTree.write, hq] at hw
        cases hw
      | ok q =>
        rw [FileTree.write, hq] at hw
        obtain rfl := Except.ok.inj hw
        have hiff := inside_openPlace hdir hin hq
        simp only [List.mem_singleton, forall_eq]
        rw [hiff]
        constructor
        · rintro hno - p hp
          exact Except.ok.inj hp ▸ hno
        · exact fun hno => hno (by simpa using ht) _ rfl

/-- Nothing is created for a path whose parent is no directory. -/
theorem makeDirs_of_lookup (hdir : t.lookup pieces = .arrived dir) :
    t.makeDirs dir.reverse = (⟨t, []⟩, .ok ()) ∨
      (t.makeDirs dir.reverse).1 = ⟨t, []⟩ ∧ ∃ e, (t.makeDirs dir.reverse).2 = .error e ∧
        ¬t.isDirAt dir = true := by
  have hself := FileTree.lookup_arrived hdir
  by_cases hd : t.isDirAt dir = true
  · refine .inl (FileTree.makeDirs_of_isDir ?_)
    rw [List.reverse_reverse, FileTree.isDir, hself]
    exact hd
  · have hplain := FileTree.plain_of_lookup hdir
    have hgap : t.gap dir.reverse = none := by
      cases hg : t.gap dir.reverse with
      | none => rfl
      | some p =>
        have hmiss := FileTree.lookup_of_gap (fun x hx => hplain x (List.mem_reverse.mp hx)) hg
        rw [List.reverse_reverse, hself] at hmiss
        simp at hmiss
    obtain ⟨hsame, hok⟩ := FileTree.makeDirs_of_no_gap hgap
    refine .inr ⟨hsame, ?_⟩
    cases hr : (t.makeDirs dir.reverse).2 with
    | error e => exact ⟨e, rfl, hd⟩
    | ok u =>
      have hdir' := hok hr
      rw [List.reverse_reverse, FileTree.isDir, hself] at hdir'
      exact absurd hdir' hd

/-- Dropping an unfinished archive touches its file and its name. -/
theorem dropZip_touched {place : Place} {written : List (String × Bytes)} (hreal : t.RealDir dir)
    (hplace : t.openPlace (dir ++ [x]) = .ok place) :
    (dropZip zip t (dir ++ [x]) place written).Frames t ∧
    ∃ more, (dropZip zip t (dir ++ [x]) place written).touched = place :: more ∧
      ∀ p ∈ more, dir <+: p := by
  have hput : Effect.Frames t ⟨t.put place (.file (zip.bytes written)), [place]⟩ :=
    fun q hq => FileTree.put_node (hq place List.mem_cons_self) _
  -- the file was no directory, so the way to its name is as it was
  have hdir : (t.put place (.file (zip.bytes written))).lookup dir = .arrived dir := by
    apply FileTree.lookup_realDir
    have hfile : ¬t.isDirAt place = true := by
      intro hd
      rw [FileTree.openPlace] at hplace
      split at hplace
      · split at hplace
        · cases hplace
        · rename_i hno
          exact hno (Except.ok.inj hplace ▸ hd)
      · rename_i q hq
        obtain rfl := Except.ok.inj hplace
        have hs : FileTree.Goal.Sound t (.absent q) := hq ▸ FileTree.lookup_sound
        obtain ⟨d, y, rfl, -, -, hn⟩ := hs
        simp [FileTree.isDirAt_iff, hn] at hd
      · cases hplace
    rw [FileTree.isDirAt_iff, not_or] at hfile
    exact hreal.put hfile.1 hfile.2 _
  rw [dropZip]
  split
  · exact ⟨hput, [], rfl, by simp⟩
  · rename_i done hdone
    refine ⟨hput.trans (FileTree.unlink_frames hdone), done.touched, rfl, fun p hp => ?_⟩
    rw [FileTree.unlink, FileTree.entryPlace, List.getLast?_concat, List.dropLast_concat,
      hdir] at hdone
    dsimp only at hdone
    split at hdone
    · cases hdone
    · rename_i q hq
      split at hdone
      · cases hdone
      · cases hdone
      · rw [← Except.ok.inj hdone] at hp
        have hpq : p = q := List.mem_singleton.mp hp
        split at hq
        · cases hq
        · split at hq
          · cases hq
          · rw [hpq, ← Except.ok.inj hq]
            exact List.prefix_append dir [x]

variable (svc zip) in
theorem fillZip_touched {place : Place} (entries : List ZipEntry) (cancelled : ℕ → Bool)
    (hreal : t.RealDir dir) (hplace : t.openPlace (dir ++ [x]) = .ok place) :
    (svc.fillZip zip t (dir ++ [x]) place entries cancelled).1.Frames t ∧
    ∃ more, (svc.fillZip zip t (dir ++ [x]) place entries cancelled).1.touched = place :: more ∧
      ∀ p ∈ more, dir <+: p := by
  rw [fillZip]
  generalize svc.writeZipEntries zip t place cancelled [] entries = out
  obtain ⟨written, result⟩ := out
  dsimp only
  split
  · exact dropZip_touched hreal hplace
  · exact dropZip_touched hreal hplace
  · split
    · exact dropZip_touched hreal hplace
    · exact ⟨fun q hq => FileTree.put_node (hq place List.mem_cons_self) _, [], rfl, by simp⟩

theorem createZip_contained (path : PathString) (entries : List ZipEntry) (cancelled : ℕ → Bool)
    (outputRoot sourceRoot : Option PathString) :
    (∀ p, Alters t
        (svc.createZipWithExtraRoots zip t path entries cancelled outputRoot sourceRoot).effect p →
      Inside (canonicalRoots t svc.cwd (svc.allowedRoots ++ outputRoot.toList)) p) ↔
    (svc.checkSources t sourceRoot entries = .ok () → ∀ p,
      validatePathForWrite t svc.cwd path (svc.allowedRoots ++ outputRoot.toList) = .ok p →
        ¬LeadsOut t (canonicalRoots t svc.cwd (svc.allowedRoots ++ outputRoot.toList)) p) := by
  rw [createZipWithExtraRoots]
  cases hv : validatePathForWrite t svc.cwd path (svc.allowedRoots ++ outputRoot.toList) with
  | error e => exact iff_of_true (alters_refl t) fun _ p hp => by cases hp
  | ok canonical =>
    cases hs : svc.checkSources t sourceRoot entries with
    | error e => exact iff_of_true (alters_refl t) fun hno => by cases hno
    | ok u =>
      obtain ⟨dir, up, x, rfl, -, -, hc, hin⟩ := validatePathForWrite_ok hv
      obtain ⟨pieces, -, hdir⟩ := canonicalize_sound hc
      have hself := FileTree.lookup_arrived hdir
      dsimp only
      rw [createZipSync, List.dropLast_concat]
      rcases makeDirs_of_lookup hdir with hmade | ⟨hsame, e, he, hfile⟩
      · rw [hmade]
        dsimp only
        cases hq : t.openPlace (dir ++ [x]) with
        | error e =>
          refine iff_of_true (alters_refl t) fun _ p hp => ?_
          rintro ⟨target, q, -, hq', -⟩
          obtain rfl := Except.ok.inj hp
          rw [hq] at hq'
          cases hq'
        | ok q =>
          have hreal : t.RealDir dir := by
            refine FileTree.realDir_of_lookup hself ?_
            by_contra hd
            rw [FileTree.openPlace, FileTree.lookup_under_file hdir hd] at hq
            cases hq
          obtain ⟨hframes, more, htouched, hmore⟩ :=
            fillZip_touched svc zip entries cancelled hreal hq
          have hframes' := (Effect.Frames.refl t).trans hframes
          rw [alters_iff hframes', List.nil_append, htouched, List.forall_mem_cons,
            inside_openPlace hdir hin hq]
          constructor
          · rintro ⟨hno, -⟩ - p hp
            exact Except.ok.inj hp ▸ hno
          · exact fun hno => ⟨hno rfl _ rfl, fun p hp => hin.mono (hmore p hp)⟩
      · revert hsame he
        generalize t.makeDirs dir.reverse = made
        obtain ⟨done, result⟩ := made
        rintro rfl rfl
        refine iff_of_true (alters_refl t) fun _ p hp => ?_
        rintro ⟨target, q, -, hq, -⟩
        obtain rfl := Except.ok.inj hp
        rw [FileTree.openPlace, FileTree.lookup_under_file hdir hfile] at hq
        cases hq

/-- A canonical path is removed where it stands. -/
theorem removeEntrySync_ok {p : Place} (hl : t.lookup pieces = .arrived p)
    (h : removeEntrySync t p = .ok done) : done = ⟨t.prune p, [p]⟩ := by
  have hself := FileTree.lookup_arrived hl
  rw [removeEntrySync, hself] at h
  dsimp only at h
  by_cases hd : t.isDirAt p = true
  · rw [if_pos hd, FileTree.removeDirAll, hself] at h
    simp only [hd, if_true] at h
    exact (Except.ok.inj h).symm
  · rw [if_neg hd] at h
    cases hu : t.unlink p with
    | error e => simp [hu] at h
    | ok gone =>
      simp only [hu] at h
      obtain rfl := Except.ok.inj h
      have hs : FileTree.Goal.Sound t (.arrived p) := hl ▸ FileTree.lookup_sound
      rcases hs with hreal | ⟨d, x, c, rfl, hreal, hx, hn⟩
      · exact absurd hreal.isDirAt hd
      · rw [FileTree.unlink, FileTree.entryPlace_snoc (FileTree.lookup_realDir hreal) hreal
          hx] at hu
        simp only [hn] at hu
        exact (Except.ok.inj hu).symm

theorem removeEntry_contained (path workspace : PathString) :
    ∀ p, Alters t (svc.removeEntry t path workspace).effect p →
      Inside (canonicalRoots t svc.cwd (svc.allowedRoots ++ [workspace])) p := by
  rw [removeEntry]
  by_cases ht : hasTraversal path = true
  · rw [if_pos ht]
    exact alters_refl t
  rw [if_neg ht]
  cases hv : validatePathWithExtraRoot t svc.cwd path svc.allowedRoots (some workspace) with
  | error e => exact alters_refl t
  | ok canonical =>
    obtain ⟨hc, hin⟩ := validatePath_ok hv
    obtain ⟨pieces, -, hl⟩ := canonicalize_sound hc
    dsimp only
    cases hr : removeEntrySync t canonical with
    | error e => exact alters_refl t
    | ok done =>
      obtain rfl := removeEntrySync_ok hl hr
      have hframes : Effect.Frames t ⟨t.prune canonical, [canonical]⟩ :=
        fun q hq => FileTree.prune_node (hq _ List.mem_cons_self)
      rw [alters_iff hframes]
      intro p hp
      rw [List.mem_singleton.mp hp]
      exact hin

theorem lookup_root {roots : List PathString} {root : Place}
    (h : root ∈ canonicalRoots t svc.cwd roots) : t.lookup root = .arrived root := by
  obtain ⟨raw, -, hraw⟩ := List.mem_filterMap.mp h
  cases hc : t.canonicalize svc.cwd raw with
  | error e => simp [hc, Except.toOption] at hraw
  | ok p =>
    obtain rfl : p = root := by simpa [hc, Except.toOption] using hraw
    obtain ⟨pieces, -, hl⟩ := canonicalize_sound hc
    exact FileTree.lookup_arrived hl

theorem mem_of_inside_name {d : Place} (h : Inside roots (d ++ [x])) (hd : ¬Inside roots d) :
    d ++ [x] ∈ roots := by
  obtain ⟨root, hroot, hp⟩ := h
  rcases List.prefix_concat_iff.mp hp with he | hp
  · exact he ▸ hroot
  · exact absurd ⟨root, hroot, hp⟩ hd

/-- A canonical path that is renamed gets a new name in its directory. -/
theorem renameEntrySync_ok {p newPath : Place} {newName : String}
    (hself : t.lookup p = .arrived p) (h : renameEntrySync t p newName = .ok (done, newPath)) :
    t.pathExists (p.dropLast ++ [newName]) = false ∧
      ∃ d x, p = d ++ [x] ∧ t.RealDir d ∧ Plain newName ∧ newName ≠ x ∧
        done = ⟨t.graft p (d ++ [newName]), [p, d ++ [newName]]⟩ := by
  rw [renameEntrySync] at h
  by_cases hp : p = []
  · simp [hp] at h
  rw [if_neg hp] at h
  by_cases he : t.pathExists (p.dropLast ++ [newName]) = true
  · rw [if_pos he] at h
    cases h
  rw [if_neg he] at h
  cases hr : t.rename p (p.dropLast ++ [newName]) with
  | error e => simp [hr] at h
  | ok moved =>
    simp only [hr] at h
    obtain ⟨rfl, -⟩ : moved = done ∧ _ := by simpa using h
    refine ⟨by simpa using he, ?_⟩
    obtain ⟨d, x, rfl⟩ : ∃ d x, p = d ++ [x] := by
      obtain ⟨d, x, rfl⟩ := (List.eq_nil_or_concat p).resolve_left hp
      exact ⟨d, x, List.concat_eq_append⟩
    rw [List.dropLast_concat] at hr he
    have hs : FileTree.Goal.Sound t (.arrived (d ++ [x])) := hself ▸ FileTree.lookup_sound
    have hreal : t.RealDir d ∧ Plain x := by
      rcases hs with hreal | ⟨d', x', c, he', hreal, hx, -⟩
      · exact ⟨hreal.ancestor (List.prefix_append d [x]), (FileTree.realDir_snoc.mp hreal).2.1⟩
      · obtain ⟨rfl, rfl⟩ : d = d' ∧ x = x' := by simpa using he'
        exact ⟨hreal, hx⟩
    have hnew : newName ≠ x := by
      rintro rfl
      exact he (by rw [FileTree.pathExists, hself])
    have hd := FileTree.lookup_realDir hreal.1
    rw [FileTree.rename, FileTree.entryPlace_snoc hd hreal.1 hreal.2] at hr
    cases hq : t.entryPlace (d ++ [newName]) with
    | error e => simp [hq] at hr
    | ok q =>
      obtain ⟨rfl, hplain⟩ : q = d ++ [newName] ∧ Plain newName := by
        rw [FileTree.entryPlace, List.getLast?_concat, List.dropLast_concat, hd] at hq
        dsimp only at hq
        split at hq
        · cases hq
        · split at hq
          · cases hq
          · rename_i hplain
            exact ⟨(Except.ok.inj hq).symm, not_not.mp hplain⟩
      refine ⟨d, x, rfl, hreal.1, hplain, hnew, ?_⟩
      simp only [hq] at hr
      split at hr
      · cases hr
      · have hne : d ++ [x] ≠ d ++ [newName] := by simpa using Ne.symm hnew
        split at hr
        · cases hr
        · cases hr
        · cases hr
        · rw [if_neg hne] at hr
          exact (Except.ok.inj hr).symm

theorem renameEntry_contained (path : PathString) (newName : String)
    (extraRoot : Option PathString) :
    (∀ p, Alters t (svc.renameEntryWithExtraRoot t path newName extraRoot).effect p →
      Inside (canonicalRoots t svc.cwd (svc.allowedRoots ++ extraRoot.toList)) p) ↔
    (hasTraversal path = false → '/' ∉ newName.toList → '\\' ∉ newName.toList → ∀ p,
      validatePathWithExtraRoot t svc.cwd path svc.allowedRoots extraRoot = .ok p →
        ¬MovesRoot t (canonicalRoots t svc.cwd (svc.allowedRoots ++ extraRoot.toList)) p
          newName) := by
  rw [renameEntryWithExtraRoot]
  by_cases ht : hasTraversal path = true
  · rw [if_pos ht]
    exact iff_of_true (alters_refl t) fun hno => by simp [ht] at hno
  rw [if_neg ht]
  by_cases hsep : '/' ∈ newName.toList ∨ '\\' ∈ newName.toList
  · rw [if_pos hsep]
    refine iff_of_true (alters_refl t) fun _ h1 h2 => ?_
    exact (hsep.elim h1 h2).elim
  rw [if_neg hsep]
  rw [not_or] at hsep
  cases hv : validatePathWithExtraRoot t svc.cwd path svc.allowedRoots extraRoot with
  | error e => exact iff_of_true (alters_refl t) fun _ _ _ p hp => by cases hp
  | ok p =>
    obtain ⟨hc, hin⟩ := validatePath_ok hv
    obtain ⟨pieces, -, hl⟩ := canonicalize_sound hc
    have hself := FileTree.lookup_arrived hl
    dsimp only
    cases hr : renameEntrySync t p newName with
    | error e =>
      refine iff_of_true (alters_refl t) fun _ _ _ p' hp' => ?_
      rintro ⟨-, -, done, hdone⟩
      obtain rfl := Except.ok.inj hp'
      rw [hr] at hdone
      cases hdone
    | ok out =>
      obtain ⟨done, newPath⟩ := out
      obtain ⟨hfree, d, x, rfl, -, -, -, rfl⟩ := renameEntrySync_ok hself hr
      have hframes : Effect.Frames t
          ⟨t.graft (d ++ [x]) (d ++ [newName]), [d ++ [x], d ++ [newName]]⟩ :=
        fun r hr => FileTree.graft_node (hr _ (by simp)) (hr _ (by simp))
      rw [List.dropLast_concat] at hfree
      rw [alters_iff hframes, List.forall_mem_cons, List.forall_mem_singleton]
      constructor
      · rintro ⟨-, hnew⟩ - - - p' hp' ⟨-, hout, -⟩
        obtain rfl := Except.ok.inj hp'
        rw [List.dropLast_concat] at hout
        -- the new place would be a root itself, but nothing stood there
        have hroot := lookup_root (mem_of_inside_name hnew hout)
        rw [FileTree.pathExists, hroot] at hfree
        cases hfree
      · intro hno
        refine ⟨hin, ?_⟩
        by_cases hd : Inside (canonicalRoots t svc.cwd (svc.allowedRoots ++ extraRoot.toList)) d
        · exact hd.mono (List.prefix_append d [newName])
        · refine absurd ?_ (hno (by simpa using ht) hsep.1 hsep.2 _ rfl)
          refine ⟨mem_of_inside_name hin hd, ?_, _, hr⟩
          rw [List.dropLast_concat]
          exact hd

variable {ws : Place}

/-- A planned copy has a file as its source and goes to plain names. -/
theorem planCopy_ok {sr : Option Place} {fp : PathString} {plan : CopyPlan}
    (hws : ∀ x ∈ ws, Plain x) (h : svc.planCopy t ws sr fp = some plan) :
    (∃ content, t.read plan.src = .ok content) ∧ ∀ x ∈ plan.dest, Plain x := by
  rw [planCopy] at h
  cases hv : validatePathWithExtraRoot t svc.cwd fp (svc.sourceRoots ws sr)
      ((sr.map ofPlace).or (parent fp)) with
  | error e => simp [hv] at h
  | ok src =>
    simp only [hv] at h
    obtain ⟨pieces, -, hl⟩ := canonicalize_sound (validatePath_ok hv).1
    have hself := FileTree.lookup_arrived hl
    have hsrc := FileTree.plain_of_lookup hl
    by_cases hf : t.isFile src = true
    · rw [if_pos hf] at h
      -- the relative path is made of names of the source
      have hrel : ∀ rel : List String, (∀ x ∈ rel, x ∈ src) →
          (if rel = [] then none else some (⟨src, ws ++ rel⟩ : CopyPlan)) = some plan →
          plan.src = src ∧ ∀ x ∈ plan.dest, Plain x := by
        intro rel hsub hplan
        by_cases hne : rel = []
        · simp [hne] at hplan
        · rw [if_neg hne] at hplan
          rw [← Option.some.inj hplan]
          refine ⟨rfl, fun x hx => ?_⟩
          rcases List.mem_append.mp hx with hx | hx
          · exact hws x hx
          · exact hsrc x (hsub x hx)
      have hlast : ∀ x ∈ src.getLast?.toList, x ∈ src := by
        intro x hx
        rw [Option.mem_toList] at hx
        exact List.mem_of_getLast? hx
      have hplan : plan.src = src ∧ ∀ x ∈ plan.dest, Plain x := by
        cases sr with
        | none => exact hrel _ hlast h
        | some root =>
          by_cases hp : root <+: src
          · refine hrel (src.drop root.length) (fun x hx => List.mem_of_mem_drop hx) ?_
            simpa [hp] using h
          · refine hrel _ hlast ?_
            simpa [hp] using h
      refine ⟨?_, hplan.2⟩
      rw [hplan.1, FileTree.read, hself]
      have hs : FileTree.Goal.Sound t (.arrived src) := hl ▸ FileTree.lookup_sound
      rcases hs with hreal | ⟨d, x, c, rfl, -, -, hn⟩
      · rw [FileTree.isFile, hself] at hf
        simp [hreal.isDirAt] at hf
      · exact ⟨c, by simp [hn]⟩
    · rw [if_neg hf] at h
      cases h

variable (svc t roots) in
/-- One turn of the copying loop keeps inside exactly when it does not stray. -/
theorem copyOne_contained (hws : ∀ x ∈ ws, Plain x) (sr : Option Place) (fp : PathString) :
    (svc.copyOne t ws sr fp).1.Frames t ∧
    ((∀ p ∈ (svc.copyOne t ws sr fp).1.touched, Inside roots p) ↔
      ∀ plan, svc.planCopy t ws sr fp = some plan → ¬Strays t roots plan.dest) := by
  rw [copyOne]
  cases hplan : svc.planCopy t ws sr fp with
  | none => exact ⟨.refl t, by simp⟩
  | some plan =>
    obtain ⟨⟨content, hread⟩, hplain⟩ := planCopy_ok hws hplan
    dsimp only
    rw [copySingleFile, hread]
    refine ⟨FileTree.create_frames _ _, ?_⟩
    obtain ⟨hnone, hsome⟩ := FileTree.create_touched (t := t) hplain
      (if (t.openPlace plan.dest).toOption = some plan.src then [] else content)
    simp only [Option.some.injEq, forall_eq']
    cases hland : t.landing plan.dest with
    | none =>
      rw [hnone hland]
      refine iff_of_true (by simp) ?_
      rintro ⟨q, hq, -⟩
      rw [hland] at hq
      cases hq
    | some q =>
      obtain ⟨rest, htouched, hrest⟩ := hsome q hland
      rw [htouched]
      constructor
      · rintro hin ⟨q', hq', hout⟩
        rw [hland] at hq'
        exact hout (Option.some.inj hq' ▸ hin q List.mem_cons_self)
      · intro hno
        have hq : Inside roots q := by
          by_contra hout
          exact hno ⟨q, hland, hout⟩
        intro p hp
        rcases List.mem_cons.mp hp with rfl | hp
        · exact hq
        · exact hq.mono (hrest p hp)

variable (svc t roots) in
theorem copyAll_contained (hws : ∀ x ∈ ws, Plain x) (sr : Option Place)
    (filePaths : List PathString) :
    (svc.copyAll ws sr t filePaths).1.Frames t ∧
    ((∀ p ∈ (svc.copyAll ws sr t filePaths).1.touched, Inside roots p) ↔
      svc.CopiesStay roots ws sr t filePaths) := by
  induction filePaths generalizing t with
  | nil => exact ⟨.refl t, iff_of_true (by simp [copyAll]) trivial⟩
  | cons fp filePaths ih =>
    obtain ⟨hframes, hone⟩ := copyOne_contained svc t roots hws sr fp
    obtain ⟨hframes', hrest⟩ := ih (svc.copyOne t ws sr fp).1.tree
    refine ⟨hframes.trans hframes', ?_⟩
    show (∀ p ∈ (svc.copyOne t ws sr fp).1.touched ++
        (svc.copyAll ws sr (svc.copyOne t ws sr fp).1.tree filePaths).1.touched, Inside roots p) ↔
      _ ∧ _
    rw [List.forall_mem_append]
    exact and_congr hone hrest

theorem copyFiles_contained (filePaths : List PathString) (workspace : PathString)
    (sourceRoot : Option PathString) :
    (∀ p, Alters t (svc.copyFilesToWorkspace t filePaths workspace sourceRoot).effect p →
      Inside roots p) ↔
    ∀ ws, validatePathWithExtraRoot t svc.cwd workspace svc.allowedRoots (some workspace) =
        .ok ws → ∀ sr, svc.sourceRootOf t sourceRoot = .ok sr →
        svc.CopiesStay roots ws sr t filePaths := by
  rw [copyFilesToWorkspace]
  cases hv : validatePathWithExtraRoot t svc.cwd workspace svc.allowedRoots (some workspace) with
  | error e => exact iff_of_true (alters_refl t) fun ws hws => by cases hws
  | ok ws =>
    obtain ⟨pieces, -, hl⟩ := canonicalize_sound (validatePath_ok hv).1
    have hws := FileTree.plain_of_lookup hl
    cases sourceRoot with
    | none =>
      obtain ⟨hframes, hiff⟩ := copyAll_contained svc t roots hws none filePaths
      rw [alters_iff hframes, hiff]
      constructor
      · rintro hstay ws' hws' sr hsr
        obtain rfl := Except.ok.inj hws'
        obtain rfl := Except.ok.inj hsr
        exact hstay
      · exact fun hstay => hstay ws rfl none rfl
    | some sr =>
      dsimp only
      cases hsr : validatePathWithExtraRoot t svc.cwd sr svc.allowedRoots (some sr) with
      | error e =>
        refine iff_of_true (alters_refl t) fun _ _ sr' hsr' => ?_
        rw [sourceRootOf, hsr] at hsr'
        cases hsr'
      | ok root =>
        obtain ⟨hframes, hiff⟩ := copyAll_contained svc t roots hws (some root) filePaths
        rw [alters_iff hframes, hiff]
        constructor
        · rintro hstay ws' hws' sr' hsr'
          rw [sourceRootOf, hsr] at hsr'
          obtain rfl := Except.ok.inj hws'
          obtain rfl := Except.ok.inj hsr'
          exact hstay
        · refine fun hstay => hstay ws rfl (some root) ?_
          rw [sourceRootOf, hsr]
          rfl

/-- Writes stay inside exactly when no link leads them out and no root is renamed: for every
file tree and every request, each place that the request touches or that holds another
object afterwards lies under a canonical root of the request. -/
theorem writes_stay_inside (svc : FileService) (zip : ZipFormat) (t : FileTree Bytes)
    (req : Request) :
    (∀ p, Alters t (svc.perform zip t req) p → Inside (svc.rootsOf t req) p) ↔
      svc.Contained t req := by
  cases req with
  | writeFile path data workspace => exact writeFile_contained path data workspace
  | copyFilesToWorkspace filePaths workspace sourceRoot =>
    exact copyFiles_contained filePaths workspace sourceRoot
  | removeEntry path workspace => exact iff_of_true (removeEntry_contained path workspace) trivial
  | renameEntry path newName extraRoot => exact renameEntry_contained path newName extraRoot
  | createZip path entries cancelled outputRoot sourceRoot =>
    exact createZip_contained path entries cancelled outputRoot sourceRoot

/-- A workspace `/ws` with a link `out` to the file `/secret` beside it. -/
def linkedTree : FileTree Bytes where
  node
    | ["ws"] => some .dir
    | ["ws", "out"] => some (.link ["", "secret"])
    | ["secret"] => some (.file [1])
    | _ => none

/-- A service without roots of its own. -/
def sample : FileService := ⟨[], []⟩

/-- A format that refuses nothing and joins the contents. -/
def joined : ZipFormat where
  refuses _ _ _ := none
  bytes written := written.flatMap (·.2)
  finish written := .ok (written.flatMap (·.2))

/-- The claim fails for a request to write `/ws/out` in the workspace `/ws`: it overwrites
the file outside that the link leads to. -/
theorem write_follows_link :
    ¬∀ p, Alters linkedTree
        (sample.perform joined linkedTree (.writeFile ["", "ws", "out"] [] ["", "ws"])) p →
      Inside (sample.rootsOf linkedTree (.writeFile ["", "ws", "out"] [] ["", "ws"])) p := by
  intro h
  have hout : ¬Inside (sample.rootsOf linkedTree
      (.writeFile ["", "ws", "out"] [] ["", "ws"])) ["secret"] := by decide +kernel
  exact hout (h ["secret"] (.inl (by decide +kernel)))

end FileService

end AionCore.File
