import AionCore.Extension.Dependency
import AionCore.Lib.Precedence

/-!
# Extensions: what comes first

The loop loads exactly the extensions that lead to no cycle, each after all that it depends on.
The others follow in the order of their names, also those that are on no cycle themselves.
-/

namespace AionCore.Extension

open Precedence Relation

def installedDependencies (extensions : List LoadedExtension) (ext : LoadedExtension) :
    List String :=
  ext.manifest.dependencies.keys.filter (· ∈ names extensions)

/-- `b` names an extension that has the installed dependency `a`. -/
def DependsOn (extensions : List LoadedExtension) (b a : String) : Prop :=
  ∃ ext ∈ extensions, ext.manifest.name = b ∧ a ∈ installedDependencies extensions ext

variable {extensions : List LoadedExtension} {a b : String}

theorem mem_installedDependencies {ext : LoadedExtension} :
    a ∈ installedDependencies extensions ext ↔
      a ∈ ext.manifest.dependencies.keys ∧ a ∈ names extensions := by
  rw [installedDependencies, List.mem_filter, decide_eq_true_eq]

theorem DependsOn.left (h : DependsOn extensions b a) : b ∈ names extensions := by
  obtain ⟨ext, hext, rfl, -⟩ := h
  exact List.mem_map_of_mem hext

theorem DependsOn.right (h : DependsOn extensions b a) : a ∈ names extensions := by
  obtain ⟨ext, -, -, ha⟩ := h
  exact (mem_installedDependencies.mp ha).2

namespace DependencyGraph

theorem dependents_addDependency (g : DependencyGraph) (name depName x : String) :
    (g.addDependency name depName).dependents x =
      g.dependents x ++ if x = depName then [name] else [] := by
  rw [dependents, addDependency, Dict.lookup_insert']
  by_cases hx : x = depName
  · rw [if_pos hx, if_pos hx, hx]
    rfl
  · rw [if_neg hx, if_neg hx, List.append_nil]
    rfl

theorem lookup_addDependency (g : DependencyGraph) (name depName x : String) :
    (g.addDependency name depName).inDegree.lookup x =
      if x = name then some (g.degree name + 1) else g.inDegree.lookup x :=
  Dict.lookup_insert' _ _ _ _

/-- Adding the dependencies of an extension, one key after the other. -/
theorem foldl_addDependency (known : List String) {keys : List String} (hkeys : keys.Nodup)
    (name : String) (g : DependencyGraph) (hname : g.inDegree.lookup name = some (g.degree name)) :
    let g' := keys.foldl
      (fun g depName => if depName ∈ known then g.addDependency name depName else g) g
    (∀ x, g'.dependents x = g.dependents x ++ if x ∈ keys ∧ x ∈ known then [name] else []) ∧
    ∀ x, g'.inDegree.lookup x =
      if x = name then some (g.degree name + (keys.filter (· ∈ known)).length)
      else g.inDegree.lookup x := by
  induction keys generalizing g with
  | nil =>
    refine ⟨fun x => by simp, fun x => ?_⟩
    split
    · rename_i hx
      rw [hx]
      exact hname
    · rfl
  | cons key keys ih =>
    obtain ⟨hnot, hkeys⟩ := List.nodup_cons.mp hkeys
    rw [List.foldl_cons]
    by_cases hknown : key ∈ known
    · rw [if_pos hknown]
      have hdegree : (g.addDependency name key).degree name = g.degree name + 1 := by
        rw [degree, lookup_addDependency, if_pos rfl, Option.getD_some]
      obtain ⟨hdeps, hdegrees⟩ := ih hkeys (g.addDependency name key) (by
        rw [hdegree, lookup_addDependency, if_pos rfl])
      refine ⟨fun x => ?_, fun x => ?_⟩
      · rw [hdeps, dependents_addDependency, List.append_assoc]
        congr 1
        by_cases hx : x = key
        · subst hx
          rw [if_pos rfl, if_neg (fun h => hnot h.1), if_pos ⟨List.mem_cons_self, hknown⟩]
          rfl
        · rw [if_neg hx, List.nil_append]
          simp [hx]
      · rw [hdegrees, hdegree, lookup_addDependency]
        split
        · rw [List.filter_cons_of_pos (by simpa using hknown), List.length_cons]
          congr 1
          omega
        · rfl
    · rw [if_neg hknown]
      obtain ⟨hdeps, hdegrees⟩ := ih hkeys g hname
      refine ⟨fun x => ?_, fun x => ?_⟩
      · rw [hdeps]
        by_cases hx : x = key
        · subst hx
          simp [hknown]
        · simp [hx]
      · rw [hdegrees, List.filter_cons_of_neg (by simpa using hknown)]

theorem addExtension_spec (known : List String) (g : DependencyGraph) (ext : LoadedExtension) :
    (∀ x, (addExtension known g ext).dependents x = g.dependents x ++
      if x ∈ ext.manifest.dependencies.keys ∧ x ∈ known then [ext.manifest.name] else []) ∧
    ∀ x, (addExtension known g ext).inDegree.lookup x = if x = ext.manifest.name then
        some (g.degree x + (ext.manifest.dependencies.keys.filter (· ∈ known)).length)
      else g.inDegree.lookup x := by
  let g₀ : DependencyGraph :=
    { g with inDegree := g.inDegree.insert ext.manifest.name (g.degree ext.manifest.name) }
  have hlookup : ∀ x, g₀.inDegree.lookup x = if x = ext.manifest.name then
      some (g.degree ext.manifest.name) else g.inDegree.lookup x :=
    fun x => Dict.lookup_insert' _ _ _ _
  have hdegree : g₀.degree ext.manifest.name = g.degree ext.manifest.name := by
    rw [degree, hlookup, if_pos rfl, Option.getD_some]
  obtain ⟨hdeps, hdegrees⟩ := foldl_addDependency known
    ext.manifest.dependencies.keys_nodup ext.manifest.name g₀ (by rw [hlookup, if_pos rfl, hdegree])
  refine ⟨hdeps, fun x => (hdegrees x).trans ?_⟩
  rw [hdegree, hlookup]
  split
  · rename_i hx
    rw [hx]
  · rfl

theorem foldl_addExtension (known : List String) {exts : List LoadedExtension} (hexts : (names exts).Nodup)
    (g : DependencyGraph) (hnew : ∀ x ∈ names exts, g.inDegree.lookup x = none) :
    let g' := exts.foldl (addExtension known) g
    (∀ x, g'.dependents x = g.dependents x ++ (exts.filter fun ext =>
      x ∈ ext.manifest.dependencies.keys ∧ x ∈ known).map (·.manifest.name)) ∧
    (∀ ext ∈ exts, g'.inDegree.lookup ext.manifest.name =
      some (ext.manifest.dependencies.keys.filter (· ∈ known)).length) ∧
    ∀ x, x ∉ names exts → g'.inDegree.lookup x = g.inDegree.lookup x := by
  induction exts generalizing g with
  | nil =>
    refine ⟨fun x => (List.append_nil _).symm, fun ext h => ?_, fun x _ => rfl⟩
    cases h
  | cons ext exts ih =>
    obtain ⟨hnot, hexts⟩ := List.nodup_cons.mp hexts
    have hnot : ext.manifest.name ∉ names exts := hnot
    obtain ⟨hdeps, hdegrees⟩ := addExtension_spec known g ext
    have hnew' : ∀ x ∈ names exts, (addExtension known g ext).inDegree.lookup x = none := by
      intro x hx
      have hne : x ≠ ext.manifest.name := fun h => hnot (h ▸ hx)
      rw [hdegrees, if_neg hne]
      exact hnew x (List.mem_cons_of_mem _ hx)
    obtain ⟨ihdeps, ihdegrees, ihothers⟩ := ih hexts (addExtension known g ext) hnew'
    refine ⟨fun x => ?_, fun ext' hext' => ?_, fun x hx => ?_⟩
    · rw [List.foldl_cons, ihdeps, hdeps, List.append_assoc, List.filter_cons]
      congr 1
      by_cases hx : x ∈ ext.manifest.dependencies.keys ∧ x ∈ known
      · rw [if_pos hx, if_pos (decide_eq_true hx), List.map_cons]
        rfl
      · rw [if_neg hx, if_neg (by rw [decide_eq_true_eq]; exact hx), List.nil_append]
    · rw [List.foldl_cons]
      rcases List.mem_cons.mp hext' with rfl | hext'
      · rw [ihothers _ hnot, hdegrees, if_pos rfl, degree, hnew _ List.mem_cons_self]
        simp
      · exact ihdegrees ext' hext'
    · rw [names, List.map_cons, List.mem_cons, not_or] at hx
      obtain ⟨hne, hx⟩ := hx
      rw [List.foldl_cons, ihothers x hx, hdegrees, if_neg hne]

/-- Of extensions with distinct names: who depends on `x`, and how many dependencies there are. -/
theorem build_spec (hnames : (names extensions).Nodup) :
    (∀ x, (build extensions).dependents x = (extensions.filter fun ext =>
      x ∈ installedDependencies extensions ext).map (·.manifest.name)) ∧
    (∀ ext ∈ extensions, (build extensions).inDegree.lookup ext.manifest.name =
      some (installedDependencies extensions ext).length) ∧
    ∀ x, x ∉ names extensions → (build extensions).inDegree.lookup x = none := by
  obtain ⟨hdeps, hdegrees, hothers⟩ :=
    foldl_addExtension (names extensions) hnames ⟨∅, ∅⟩ fun _ _ => rfl
  refine ⟨fun x => ?_, hdegrees, hothers⟩
  rw [build, hdeps]
  refine congrArg (List.map _) (List.filter_congr fun ext _ => ?_)
  simp only [mem_installedDependencies]

end DependencyGraph

namespace LoadState

theorem release_spec (s : Dict String ℕ × List String) {deps : List String} (hdeps : deps.Nodup) :
    (∀ x, (deps.foldl release s).1.lookup x =
      if x ∈ deps then some ((s.1.lookup x).getD 0 - 1) else s.1.lookup x) ∧
    (deps.foldl release s).2 = s.2 ++ deps.filter fun x => (s.1.lookup x).getD 0 - 1 = 0 := by
  induction deps generalizing s with
  | nil => exact ⟨fun x => rfl, (List.append_nil _).symm⟩
  | cons dep deps ih =>
    obtain ⟨hnot, hdeps⟩ := List.nodup_cons.mp hdeps
    obtain ⟨hlookup, hready⟩ := ih (release s dep) hdeps
    have hfirst : ∀ x, (release s dep).1.lookup x =
        if x = dep then some ((s.1.lookup dep).getD 0 - 1) else s.1.lookup x :=
      fun x => Dict.lookup_insert' _ _ _ _
    constructor
    · intro x
      rw [List.foldl_cons, hlookup, hfirst]
      by_cases hx : x = dep
      · subst hx
        rw [if_neg hnot, if_pos rfl, if_pos List.mem_cons_self]
      · rw [if_neg hx]
        simp [hx]
    · have hrest : (deps.filter fun x => ((release s dep).1.lookup x).getD 0 - 1 = 0) =
          deps.filter fun x => (s.1.lookup x).getD 0 - 1 = 0 := by
        refine List.filter_congr fun x hx => ?_
        have hne : x ≠ dep := fun h => hnot (h ▸ hx)
        rw [hfirst, if_neg hne]
      rw [List.foldl_cons, hready, hrest, List.filter_cons, release]
      split <;> simp_all

def pending (extensions : List LoadedExtension) (order : List String) (ext : LoadedExtension) : ℕ :=
  (installedDependencies extensions ext).countP (· ∉ order)

/-- What the loop keeps: the degrees count what is not loaded yet, and the queue holds what can
be loaded next. -/
structure Sound (extensions : List LoadedExtension) (s : LoadState) : Prop where
  nodup : (s.order ++ s.queue).Nodup
  known : ∀ x ∈ s.order ++ s.queue, x ∈ names extensions
  degree : ∀ ext ∈ extensions,
    s.inDegree.lookup ext.manifest.name = some (pending extensions s.order ext)
  ready : ∀ ext ∈ extensions, ext.manifest.name ∈ s.order ++ s.queue ↔
    pending extensions s.order ext = 0
  closed : Closed (DependsOn extensions) s.order

theorem installed_nodup (extensions : List LoadedExtension) (ext : LoadedExtension) :
    (installedDependencies extensions ext).Nodup :=
  ext.manifest.dependencies.keys_nodup.filter _

variable {ext : LoadedExtension} {order : List String}

theorem pending_eq_zero :
    pending extensions order ext = 0 ↔ installedDependencies extensions ext ⊆ order := by
  rw [pending, List.countP_eq_zero]
  refine forall₂_congr fun a _ => ?_
  rw [decide_eq_true_eq, not_not]

/-- Loading one more extension takes it off what its dependents wait for. -/
theorem pending_snoc {node : String} (ext : LoadedExtension) (hnode : node ∉ order) :
    pending extensions order ext =
      pending extensions (order ++ [node]) ext +
        if node ∈ installedDependencies extensions ext then 1 else 0 := by
  have hcount : ∀ {l : List String}, l.Nodup → l.countP (· ∉ order) =
      l.countP (· ∉ order ++ [node]) + if node ∈ l then 1 else 0 := by
    intro l hl
    induction l with
    | nil => rfl
    | cons x l ih =>
      obtain ⟨hx, hl⟩ := List.nodup_cons.mp hl
      rw [List.countP_cons, List.countP_cons, ih hl]
      by_cases hnx : node = x
      · subst hnx
        simp [hnode, hx]
      · have hxn : x ∉ order ++ [node] ↔ x ∉ order := by
          simp [Ne.symm hnx]
        have hnl : node ∈ x :: l ↔ node ∈ l := by
          simp [hnx]
        simp only [hxn, hnl]
        omega
  exact hcount (installed_nodup extensions ext)

variable {s : LoadState}

theorem Sound.mem_order_or_queue (h : s.Sound extensions) (hext : ext ∈ extensions)
    (hmem : ext.manifest.name ∈ s.order ++ s.queue) :
    installedDependencies extensions ext ⊆ s.order :=
  pending_eq_zero.mp ((h.ready ext hext).mp hmem)

theorem eq_of_name (hnames : (names extensions).Nodup) {ext' : LoadedExtension}
    (hext : ext ∈ extensions) (hext' : ext' ∈ extensions)
    (h : ext.manifest.name = ext'.manifest.name) : ext = ext' :=
  List.inj_on_of_nodup_map hnames hext hext' h

theorem mem_sorted {l : List String} {x : String} : x ∈ sorted l ↔ x ∈ l :=
  List.mem_insertionSort (· ≤ ·)

theorem perm_sorted (l : List String) : (sorted l).Perm l := List.perm_insertionSort (· ≤ ·) l

section

variable (hnames : (names extensions).Nodup)
include hnames

theorem start_sound :
    (start (.build extensions)).Sound extensions := by
  obtain ⟨-, hdegree, hothers⟩ := DependencyGraph.build_spec hnames
  have hpending : ∀ ext, pending extensions [] ext = (installedDependencies extensions ext).length := by
    intro ext
    rw [pending, List.countP_eq_length]
    exact fun a _ => decide_eq_true (List.not_mem_nil)
  have hmem : ∀ x, x ∈ (start (.build extensions)).queue ↔
      (DependencyGraph.build extensions).inDegree.lookup x = some 0 := by
    intro x
    rw [start, mem_sorted, List.mem_map]
    constructor
    · rintro ⟨⟨y, deg⟩, he, rfl⟩
      obtain ⟨he, hdeg⟩ := List.mem_filter.mp he
      obtain rfl : deg = 0 := of_decide_eq_true hdeg
      exact AList.mem_lookup_iff.mpr he
    · intro hx
      exact ⟨⟨x, 0⟩, List.mem_filter.mpr ⟨AList.mem_lookup_iff.mp hx, rfl⟩, rfl⟩
  refine ⟨?_, fun x hx => ?_, fun ext hext => ?_, fun ext hext => ?_, closed_nil⟩
  · refine (perm_sorted _).nodup_iff.mpr ?_
    exact (DependencyGraph.build extensions).inDegree.keys_nodup.sublist
      (List.filter_sublist.map _)
  · by_contra hnot
    have hzero := (hmem x).mp hx
    rw [hothers x hnot] at hzero
    cases hzero
  · exact (hdegree ext hext).trans (congrArg some (hpending ext).symm)
  · refine (hmem _).trans ?_
    rw [hdegree ext hext, ← hpending, Option.some_inj]
    exact Iff.rfl

/-- A round of the loop loads the first extension of the queue. -/
theorem Sound.step {s' : LoadState} (h : s.Sound extensions)
    (hstep : s.step (.build extensions) = some s') :
    s'.Sound extensions ∧ s'.order.length = s.order.length + 1 := by
  obtain ⟨hdependents, -, -⟩ := DependencyGraph.build_spec hnames
  rw [LoadState.step] at hstep
  split at hstep
  · cases hstep
  · rename_i node queue hqueue
    obtain rfl := Option.some.inj hstep
    refine ⟨?_, List.length_append⟩
    have hnode : node ∈ s.order ++ s.queue := by rw [hqueue]; simp
    have hnot : node ∉ s.order := by
      intro hmem
      have hnodup := h.nodup
      rw [hqueue] at hnodup
      exact (List.nodup_append.mp hnodup).2.2 node hmem node List.mem_cons_self rfl
    -- the dependents of the extension, each with one dependency less
    have hmem : ∀ ext ∈ extensions,
        ext.manifest.name ∈ (DependencyGraph.build extensions).dependents node ↔
          node ∈ installedDependencies extensions ext := by
      intro ext hext
      rw [hdependents, List.mem_map]
      constructor
      · rintro ⟨ext', hext', hname⟩
        obtain ⟨hext', hdep⟩ := List.mem_filter.mp hext'
        obtain rfl := eq_of_name hnames hext' hext hname
        exact of_decide_eq_true hdep
      · intro hdep
        exact ⟨ext, List.mem_filter.mpr ⟨hext, decide_eq_true hdep⟩, rfl⟩
    have hdeps : ((DependencyGraph.build extensions).dependents node).Nodup := by
      rw [hdependents]
      exact List.Nodup.sublist (List.filter_sublist.map _) hnames
    obtain ⟨hlookup, hready⟩ := release_spec (s.inDegree, []) hdeps
    generalize hreleased :
      ((DependencyGraph.build extensions).dependents node).foldl release (s.inDegree, []) = released
      at hlookup hready ⊢
    have hmemready : ∀ ext ∈ extensions, ext.manifest.name ∈ released.2 ↔
        node ∈ installedDependencies extensions ext ∧
          pending extensions (s.order ++ [node]) ext = 0 := by
      intro ext hext
      rw [hready, List.nil_append, List.mem_filter, hmem ext hext, decide_eq_true_eq,
        h.degree ext hext, Option.getD_some, pending_snoc ext hnot]
      refine and_congr_right fun hdep => ?_
      rw [if_pos hdep, Nat.add_sub_cancel]
    have hknown : ∀ x ∈ released.2, ∃ ext ∈ extensions, ext.manifest.name = x := by
      intro x hx
      rw [hready, List.nil_append] at hx
      have hx := (List.mem_filter.mp hx).1
      rw [hdependents] at hx
      obtain ⟨ext, hext, rfl⟩ := List.mem_map.mp hx
      exact ⟨ext, (List.mem_filter.mp hext).1, rfl⟩
    have hold : ∀ x, x ∈ s.order ++ [node] ++ queue ↔ x ∈ s.order ++ s.queue := by
      intro x
      rw [hqueue, List.append_assoc, List.singleton_append]
    have hnew : ∀ x, x ∈ s.order ++ [node] ++ (queue ++ sorted released.2) ↔
        x ∈ s.order ++ s.queue ∨ x ∈ released.2 := by
      intro x
      rw [← List.append_assoc, List.mem_append, hold, mem_sorted]
    -- what the extension had in hand is not released again
    have hdisjoint : ∀ ext ∈ extensions, node ∈ installedDependencies extensions ext →
        ext.manifest.name ∉ s.order ++ s.queue := by
      intro ext hext hdep hmem
      exact hnot (h.mem_order_or_queue hext hmem hdep)
    refine ⟨?_, fun x hx => ?_, fun ext hext => ?_, fun ext hext => ?_, ?_⟩
    · rw [← List.append_assoc]
      refine List.nodup_append.mpr ⟨?_, (perm_sorted _).nodup_iff.mpr ?_, ?_⟩
      · rw [List.append_assoc, List.singleton_append, ← hqueue]
        exact h.nodup
      · rw [hready, List.nil_append]
        exact hdeps.filter _
      · rintro x hx y hy rfl
        obtain ⟨ext, hext, rfl⟩ := hknown x (mem_sorted.mp hy)
        exact hdisjoint ext hext ((hmemready ext hext).mp (mem_sorted.mp hy)).1 ((hold _).mp hx)
    · rcases (hnew x).mp hx with hx | hx
      · exact h.known x hx
      · obtain ⟨ext, hext, rfl⟩ := hknown x hx
        exact List.mem_map_of_mem hext
    · rw [hlookup, h.degree ext hext, pending_snoc ext hnot]
      simp only [hmem ext hext]
      split
      · rw [Option.getD_some, Nat.add_sub_cancel]
      · rw [Nat.add_zero]
    · rw [hnew, hmemready ext hext]
      have hcount : pending extensions s.order ext = pending extensions (s.order ++ [node]) ext +
          if node ∈ installedDependencies extensions ext then 1 else 0 := pending_snoc ext hnot
      change _ ↔ pending extensions (s.order ++ [node]) ext = 0
      constructor
      · rintro (hmem | ⟨-, hzero⟩)
        · have hzero := (h.ready ext hext).mp hmem
          rw [hzero] at hcount
          omega
        · exact hzero
      · intro hzero
        by_cases hdep : node ∈ installedDependencies extensions ext
        · exact .inr ⟨hdep, hzero⟩
        · rw [if_neg hdep, hzero] at hcount
          exact .inl ((h.ready ext hext).mpr hcount)
    · refine h.closed.snoc fun a ha => ?_
      obtain ⟨ext, hext, rfl, ha⟩ := ha
      exact h.mem_order_or_queue hext hnode ha

theorem run_sound (n : ℕ) (h : s.Sound extensions) :
    (s.run (.build extensions) n).Sound extensions := by
  induction n generalizing s with
  | zero => exact h
  | succ n ih =>
    rw [LoadState.run]
    split
    · exact h
    · rename_i s' hstep
      exact ih (h.step hnames hstep).1

/-- As many rounds as extensions are enough. -/
theorem run_done (n : ℕ) (h : s.Sound extensions) (hn : extensions.length ≤ n + s.order.length) :
    (s.run (.build extensions) n).queue = [] := by
  induction n generalizing s with
  | zero =>
    have hle : (s.order ++ s.queue).length ≤ (names extensions).length :=
      (h.nodup.subperm h.known).length_le
    rw [List.length_append, names, List.length_map] at hle
    exact List.eq_nil_of_length_eq_zero (by rw [LoadState.run]; omega)
  | succ n ih =>
    rw [LoadState.run]
    split
    · rename_i hstep
      rw [LoadState.step] at hstep
      split at hstep
      · assumption
      · cases hstep
    · rename_i s' hstep
      obtain ⟨hs', hlength⟩ := h.step hnames hstep
      exact ih hs' (by omega)

end

end LoadState

/-- What the loop of `compute_topological_order` loads. -/
def loaded (extensions : List LoadedExtension) : List String :=
  ((LoadState.start (.build extensions)).run (.build extensions) extensions.length).order

theorem topologicalSort_eq (hnames : (names extensions).Nodup) : topologicalSort extensions =
    loaded extensions ++ sorted ((names extensions).filter (· ∉ loaded extensions)) := by
  rw [topologicalSort, computeTopologicalOrder, hnames.dedup]
  rfl

section Loaded

variable (hnames : (names extensions).Nodup)

include hnames

theorem loaded_sound : ((LoadState.start (.build extensions)).run (.build extensions)
    extensions.length).Sound extensions :=
  LoadState.run_sound hnames _ (LoadState.start_sound hnames)

theorem loaded_queue : ((LoadState.start (.build extensions)).run (.build extensions)
    extensions.length).queue = [] :=
  LoadState.run_done hnames _ (LoadState.start_sound hnames) (Nat.le_add_right _ _)

theorem loaded_nodup : (loaded extensions).Nodup := by
  have h := (loaded_sound hnames).nodup
  rwa [loaded_queue hnames, List.append_nil] at h

theorem loaded_closed : Closed (DependsOn extensions) (loaded extensions) :=
  (loaded_sound hnames).closed

/-- An extension that is left has a dependency that is left. -/
theorem exists_left (hb : b ∈ names extensions) (hleft : b ∉ loaded extensions) :
    ∃ a ∈ names extensions, a ∉ loaded extensions ∧ DependsOn extensions b a := by
  obtain ⟨ext, hext, rfl⟩ := List.mem_map.mp hb
  have hready := (loaded_sound hnames).ready ext hext
  rw [loaded_queue hnames, List.append_nil, LoadState.pending_eq_zero] at hready
  have hnot := mt hready.mpr hleft
  rw [List.subset_def] at hnot
  push Not at hnot
  obtain ⟨a, ha, haleft⟩ := hnot
  exact ⟨a, (mem_installedDependencies.mp ha).2, haleft, ext, hext, rfl, ha⟩

/-- The loop loads exactly the extensions that lead to no cycle. -/
theorem mem_loaded_iff (ha : a ∈ names extensions) :
    a ∈ loaded extensions ↔ ¬Blocked (DependsOn extensions) a := by
  refine ⟨fun hloaded => (loaded_closed hnames).not_blocked (loaded_nodup hnames) hloaded,
    fun hfree => ?_⟩
  by_contra hleft
  let left : Set String := {x | x ∈ names extensions ∧ x ∉ loaded extensions}
  have hfinite : left.Finite := (names extensions).finite_toSet.subset fun x hx => hx.1
  refine hfree (blocked_of_needs hfinite (fun b hb => ?_) ⟨ha, hleft⟩)
  obtain ⟨a, hname, hnot, hdep⟩ := exists_left hnames hb.1 hb.2
  exact ⟨a, ⟨hname, hnot⟩, hdep⟩

theorem topologicalSort_perm : (topologicalSort extensions).Perm (names extensions) := by
  rw [topologicalSort_eq hnames]
  refine ((LoadState.perm_sorted _).append_left _).trans ?_
  refine (List.perm_ext_iff_of_nodup ?_ hnames).mpr fun x => ?_
  · refine List.nodup_append.mpr ⟨loaded_nodup hnames, hnames.filter _, ?_⟩
    rintro x hx y hy rfl
    exact of_decide_eq_true (List.mem_filter.mp hy).2 hx
  · rw [List.mem_append, List.mem_filter, decide_eq_true_eq]
    constructor
    · rintro (hx | ⟨hx, -⟩)
      · exact (loaded_sound hnames).known x (List.mem_append_left _ hx)
      · exact hx
    · intro hx
      by_cases hloaded : x ∈ loaded extensions
      · exact .inl hloaded
      · exact .inr ⟨hx, hloaded⟩

theorem before_of_loaded (hdep : DependsOn extensions b a) (ha : a ∈ loaded extensions) :
    Precedence.Before (topologicalSort extensions) a b := by
  rw [topologicalSort_eq hnames]
  by_cases hb : b ∈ loaded extensions
  · exact ((loaded_closed hnames).before hb hdep).trans (List.sublist_append_left _ _)
  · refine (List.singleton_sublist.mpr ha).append (List.singleton_sublist.mpr ?_)
    exact LoadState.mem_sorted.mpr (List.mem_filter.mpr ⟨hdep.left, decide_eq_true hb⟩)

/-- What leads to a cycle comes in the order of the names. -/
theorem before_of_blocked (hdep : DependsOn extensions b a) (hne : a ≠ b)
    (ha : Blocked (DependsOn extensions) a) :
    Precedence.Before (topologicalSort extensions) a b ↔ a < b := by
  have haleft : a ∉ loaded extensions := fun h => (mem_loaded_iff hnames hdep.right).mp h ha
  have hbleft : b ∉ loaded extensions := fun h => haleft ((loaded_closed hnames).mem h hdep)
  have hmem : ∀ x ∈ names extensions, x ∉ loaded extensions →
      x ∈ (names extensions).filter (· ∉ loaded extensions) :=
    fun x hx hleft => List.mem_filter.mpr ⟨hx, decide_eq_true hleft⟩
  rw [topologicalSort_eq hnames]
  constructor
  · intro hbefore
    obtain ⟨l₁, l₂, hl, h₁, h₂⟩ := List.sublist_append_iff.mp hbefore
    -- neither of the two is in front
    have hnil : l₁ = [] := by
      refine List.eq_nil_iff_forall_not_mem.mpr fun x hx => ?_
      have hx' : x ∈ [a, b] := hl ▸ List.mem_append_left _ hx
      rcases List.mem_pair.mp hx' with rfl | rfl
      · exact haleft (h₁.subset hx)
      · exact hbleft (h₁.subset hx)
    rw [hnil, List.nil_append] at hl
    have hle := (List.pairwise_insertionSort (· ≤ ·) _).sublist (hl ▸ h₂)
    exact lt_of_le_of_ne (List.pairwise_pair.mp hle) hne
  · intro hlt
    refine List.Sublist.trans ?_ (List.sublist_append_right _ _)
    refine List.pair_sublist_insertionSort' hlt.le (List.Nodup.subperm ?_ ?_)
    · simpa using hne
    · intro x hx
      rcases List.mem_pair.mp hx with rfl | rfl
      · exact hmem _ hdep.right haleft
      · exact hmem _ hdep.left hbleft

end Loaded

/-- The order lists each extension once, after all that it depends on except for what depends on
it in turn. -/
structure RespectsDependencies (extensions : List LoadedExtension) (order : List String) :
    Prop where
  perm : order.Perm (names extensions)
  before : ∀ b a, DependsOn extensions b a → ¬TransGen (DependsOn extensions) a b →
    Precedence.Before order a b

/-- The load order respects the dependencies exactly if those that lead to a cycle precede their
dependents by name. -/
theorem load_order_respects_dependencies (semver : Semver) (hnames : (names extensions).Nodup) :
    (RespectsDependencies extensions (topologicalSort extensions) ∧
      RespectsDependencies extensions (validateDependencies semver extensions).loadOrder) ↔
    ∀ b a, DependsOn extensions b a → ¬TransGen (DependsOn extensions) a b →
      Blocked (DependsOn extensions) a → a < b := by
  have hsame : (validateDependencies semver extensions).loadOrder = topologicalSort extensions := rfl
  rw [hsame, and_self]
  have hne : ∀ {b a}, DependsOn extensions b a → ¬TransGen (DependsOn extensions) a b → a ≠ b := by
    rintro b a hdep hfree rfl
    exact hfree (.single hdep)
  constructor
  · intro hrespects b a hdep hfree hblocked
    exact (before_of_blocked hnames hdep (hne hdep hfree) hblocked).mp
      (hrespects.before b a hdep hfree)
  · intro hsorted
    refine ⟨topologicalSort_perm hnames, fun b a hdep hfree => ?_⟩
    by_cases hblocked : Blocked (DependsOn extensions) a
    · exact (before_of_blocked hnames hdep (hne hdep hfree) hblocked).mpr
        (hsorted b a hdep hfree hblocked)
    · exact before_of_loaded hnames hdep ((mem_loaded_iff hnames hdep.right).mpr hblocked)

def sampleExtension (name : String) (dependencies : List String) : LoadedExtension :=
  ⟨⟨name, "1.0.0", dependencies.foldr (fun depName deps => deps.insert depName "*") ∅⟩⟩

/-- `a` needs `b`, which is on a cycle with `c`. -/
def belowCycle : List LoadedExtension :=
  [sampleExtension "a" ["b"], sampleExtension "b" ["c"], sampleExtension "c" ["b"]]

/-- A crate that accepts every version. -/
def anyVersion : Semver := ⟨Unit, Unit, fun _ => some (), fun _ => some (), fun _ _ => true⟩

theorem load_order_respects_dependencies_sample :
    (RespectsDependencies belowCycle (topologicalSort belowCycle) ∧
      RespectsDependencies belowCycle (validateDependencies anyVersion belowCycle).loadOrder) ↔
    ∀ b a, DependsOn belowCycle b a → ¬TransGen (DependsOn belowCycle) a b →
      Blocked (DependsOn belowCycle) a → a < b :=
  load_order_respects_dependencies anyVersion (by decide)

/-- Neither `b` nor `c` leads to `a`. -/
theorem belowCycle_closed {x : String} (h : TransGen (DependsOn belowCycle) "b" x) : x ≠ "a" := by
  have hstep : ∀ {y z}, DependsOn belowCycle y z → z ≠ "a" := by
    rintro y z ⟨ext, hext, -, hz⟩ rfl
    revert ext
    decide
  cases h with
  | single h => exact hstep h
  | tail _ h => exact hstep h

/-- `a` is loaded before `b`, on which it depends. -/
theorem dependent_loads_first : ¬∀ extensions : List LoadedExtension, (names extensions).Nodup →
    RespectsDependencies extensions (topologicalSort extensions) := by
  intro h
  have hbefore := (h belowCycle (by decide)).before "a" "b"
    ⟨sampleExtension "a" ["b"], List.mem_cons_self, rfl, by decide⟩
    fun hcycle => belowCycle_closed hcycle rfl
  revert hbefore
  rw [Precedence.Before]
  decide

end AionCore.Extension
