import AionCore.Extension.CycleReports

/-!
# Extensions: what the validation reports

`validate_dependencies` reports every entry that is missing or does not match once, and among the
cycles it reports one that shares a step with any given cycle.
-/

namespace AionCore.Extension

open Precedence Relation

def Requires (extensions : List LoadedExtension) (extension dependency required : String) : Prop :=
  ∃ ext ∈ extensions, ext.manifest.name = extension ∧
    ext.manifest.dependencies.lookup dependency = some required

def Installed (extensions : List LoadedExtension) (name version : String) : Prop :=
  ∃ ext ∈ extensions, ext.manifest.name = name ∧ ext.manifest.version = version

def DependencyIssue.isCircular : DependencyIssue → Bool
  | .circular _ => true
  | .missing _ _ _ | .versionMismatch _ _ _ _ => false

/-- What the result says of the entries and of the cycles is so, and it says it of every entry; of
every closed walk along the dependencies it reports a cycle that takes one of its steps. -/
structure Diagnoses (semver : Semver) (extensions : List LoadedExtension)
    (result : DependencyValidationResult) : Prop where
  missing : ∀ extension dependency required,
    .missing extension dependency required ∈ result.issues ↔
      Requires extensions extension dependency required ∧ dependency ∉ names extensions
  versionMismatch : ∀ extension dependency required actual,
    .versionMismatch extension dependency required actual ∈ result.issues ↔
      Requires extensions extension dependency required ∧
        Installed extensions dependency actual ∧ semver.versionMatches required actual = false
  once : (result.issues.filter (!·.isCircular)).Nodup
  circular : ∀ cycle, .circular cycle ∈ result.issues → ClosedPath (DependsOn extensions) cycle
  covers : ∀ a p, (a :: p ++ [a]).IsChain (DependsOn extensions) →
    ∃ cycle, .circular cycle ∈ result.issues ∧
      ∃ b c, [b, c] <:+: a :: p ++ [a] ∧ [b, c] <:+: cycle
  valid : result.valid = true ↔
    (∀ extension dependency required, Requires extensions extension dependency required →
      ∃ actual, Installed extensions dependency actual ∧
        semver.versionMatches required actual = true) ∧
    ∀ a, ¬TransGen (DependsOn extensions) a a

variable {semver : Semver} {extensions : List LoadedExtension}

section Cycles

variable (hnames : (names extensions).Nodup)

include hnames

/-- The cycles are searched among the extensions that are not loaded. -/
theorem reported_eq : (computeTopologicalOrder extensions).2 =
    findCycles extensions ((names extensions).filter (· ∉ loaded extensions)) := by
  rw [computeTopologicalOrder, hnames.dedup]
  show (if (names extensions).filter (· ∉ loaded extensions) = [] then []
    else findCycles extensions ((names extensions).filter (· ∉ loaded extensions))) = _
  split
  · next hnone =>
    rw [hnone]
    rfl
  · rfl

theorem reported_closedPath {cycle : List String}
    (h : cycle ∈ (computeTopologicalOrder extensions).2) :
    ClosedPath (DependsOn extensions) cycle := by
  have hleft : (names extensions).filter (· ∉ loaded extensions) ⊆ names extensions :=
    List.filter_subset_self _
  obtain ⟨s, done, hs, -, heq⟩ := findCycles_traces hnames hleft
  rw [reported_eq hnames, heq] at h
  obtain ⟨a, p, hclosed, hnodup, hchain⟩ := hs.cycles cycle h
  refine ⟨a, p, hclosed, hnodup, hchain.imp fun b c hstep => ?_⟩
  exact ((mem_involvedDependencies hnames hleft).mp hstep).1

/-- A closed walk takes the last step of a cycle that is reported. -/
theorem reported_covers {a : String} {p : List String}
    (hwalk : (a :: p ++ [a]).IsChain (DependsOn extensions)) :
    ∃ cycle ∈ (computeTopologicalOrder extensions).2,
      ∃ b c, [b, c] <:+: a :: p ++ [a] ∧ [b, c] <:+ cycle := by
  have hleft : (names extensions).filter (· ∉ loaded extensions) ⊆ names extensions :=
    List.filter_subset_self _
  obtain ⟨s, done, hs, hdone, heq⟩ := findCycles_traces hnames hleft
  -- the walk is among the extensions that are not loaded
  have hinvolved : ∀ b ∈ a :: p ++ [a],
      b ∈ (names extensions).filter (· ∉ loaded extensions) := by
    intro b hb
    have hblocked := blocked_of_mem_walk hwalk hb
    obtain ⟨c, hdep⟩ := hblocked.exists_step
    rw [List.mem_filter, decide_eq_true_eq, mem_loaded_iff hnames hdep.left]
    exact ⟨hdep.left, not_not_intro hblocked⟩
  have hsteps : (a :: p ++ [a]).IsChain fun b c =>
      c ∈ involvedDependencies extensions
        ((names extensions).filter (· ∉ loaded extensions)) b := by
    refine hwalk.imp_of_mem_imp fun b c hb hc hdep => ?_
    exact (mem_involvedDependencies hnames hleft).mpr ⟨hdep, hinvolved b hb, hinvolved c hc⟩
  obtain ⟨b, c, hinside, cycle, hcycle, hend⟩ := hs.settled.broken_step
    (List.nodup_append.mp hs.nodup).1 (hdone (hinvolved a List.mem_cons_self)) hsteps
  rw [reported_eq hnames, heq]
  exact ⟨cycle, hcycle, b, c, hinside, hend⟩

theorem versions_eq_some {name version : String} :
    versions extensions name = some version ↔ Installed extensions name version := by
  rw [versions, Option.map_eq_some_iff]
  constructor
  · rintro ⟨ext, hext, hversion⟩
    obtain ⟨hmem, hname⟩ := (extensionOf_eq_some hnames).mp hext
    exact ⟨ext, hmem, hname, hversion⟩
  · rintro ⟨ext, hmem, hname, hversion⟩
    exact ⟨ext, (extensionOf_eq_some hnames).mpr ⟨hmem, hname⟩, hversion⟩

theorem versions_eq_none {name : String} :
    versions extensions name = none ↔ name ∉ names extensions := by
  rw [← not_iff_not, not_not, ← Ne, Option.ne_none_iff_exists']
  simp only [versions_eq_some hnames]
  constructor
  · rintro ⟨version, ext, hmem, rfl, -⟩
    exact List.mem_map_of_mem hmem
  · intro hname
    obtain ⟨ext, hmem, rfl⟩ := List.mem_map.mp hname
    exact ⟨ext.manifest.version, ext, hmem, rfl, rfl⟩

end Cycles

def entryIssues (semver : Semver) (extensions : List LoadedExtension) : List DependencyIssue :=
  extensions.flatMap fun ext => ext.manifest.dependencies.entries.filterMap
    (dependencyIssue semver (versions extensions) ext.manifest.name)

theorem issues_eq (semver : Semver) (extensions : List LoadedExtension) :
    (validateDependencies semver extensions).issues =
      entryIssues semver extensions ++ (computeTopologicalOrder extensions).2.map .circular := rfl

variable {issue : DependencyIssue}

theorem mem_entryIssues : issue ∈ entryIssues semver extensions ↔
    ∃ extension dependency required, Requires extensions extension dependency required ∧
      dependencyIssue semver (versions extensions) extension ⟨dependency, required⟩ =
        some issue := by
  simp only [entryIssues, List.mem_flatMap, List.mem_filterMap]
  constructor
  · rintro ⟨ext, hext, ⟨dependency, required⟩, hdep, hissue⟩
    exact ⟨ext.manifest.name, dependency, required,
      ⟨ext, hext, rfl, AList.mem_lookup_iff.mpr hdep⟩, hissue⟩
  · rintro ⟨_, dependency, required, ⟨ext, hext, rfl, hdep⟩, hissue⟩
    exact ⟨ext, hext, ⟨dependency, required⟩, AList.mem_lookup_iff.mp hdep, hissue⟩

/-- What an entry's issue is. -/
theorem dependencyIssue_eq_some {found : String → Option String}
    {extension dependency required : String} :
    dependencyIssue semver found extension ⟨dependency, required⟩ = some issue ↔
      (found dependency = none ∧ issue = .missing extension dependency required) ∨
      ∃ actual, found dependency = some actual ∧ semver.versionMatches required actual = false ∧
        issue = .versionMismatch extension dependency required actual := by
  rw [dependencyIssue]
  cases hfound : found dependency with
  | none =>
    constructor
    · intro h
      exact .inl ⟨rfl, (Option.some.inj h).symm⟩
    · rintro (⟨-, rfl⟩ | ⟨actual, h, -⟩)
      · rfl
      · cases h
  | some actual =>
    constructor
    · intro h
      cases hmatches : semver.versionMatches required actual with
      | true => simp [hmatches] at h
      | false =>
        simp only [hmatches, Bool.false_eq_true, if_false] at h
        exact .inr ⟨actual, rfl, hmatches, (Option.some.inj h).symm⟩
    · rintro (⟨h, -⟩ | ⟨_, h, hmatches, rfl⟩)
      · cases h
      · obtain rfl := Option.some.inj h
        simp only [hmatches, Bool.false_eq_true, if_false]

/-- Each entry is reported once. -/
theorem entryIssues_nodup (hnames : (names extensions).Nodup) :
    (entryIssues semver extensions).Nodup := by
  have hname : ∀ {extension : String} {dep dep' : Sigma fun _ : String => String}
      {issue : DependencyIssue} {extension' : String},
      dependencyIssue semver (versions extensions) extension dep = some issue →
      dependencyIssue semver (versions extensions) extension' dep' = some issue →
      extension = extension' ∧ dep = dep' := by
    rintro extension ⟨dependency, required⟩ ⟨dependency', required'⟩ issue extension' h h'
    rcases dependencyIssue_eq_some.mp h with ⟨-, rfl⟩ | ⟨actual, -, -, rfl⟩
    · rcases dependencyIssue_eq_some.mp h' with ⟨-, heq⟩ | ⟨actual', -, -, heq⟩
      · cases heq
        exact ⟨rfl, rfl⟩
      · cases heq
    · rcases dependencyIssue_eq_some.mp h' with ⟨-, heq⟩ | ⟨actual', -, -, heq⟩
      · cases heq
      · cases heq
        exact ⟨rfl, rfl⟩
  rw [entryIssues, List.nodup_flatMap]
  constructor
  · intro ext _
    apply List.Nodup.filterMap
    · intro dep dep' issue h h'
      exact (hname h h').2
    · exact ext.manifest.dependencies.nodupKeys.nodup
  · refine (List.pairwise_map.mp hnames).imp fun {ext ext'} hne => ?_
    intro issue h h'
    obtain ⟨dep, -, hissue⟩ := List.mem_filterMap.mp h
    obtain ⟨dep', -, hissue'⟩ := List.mem_filterMap.mp h'
    exact hne (hname hissue hissue').1

theorem not_circular_of_mem (h : issue ∈ entryIssues semver extensions) :
    issue.isCircular = false := by
  obtain ⟨extension, dependency, required, -, hissue⟩ := mem_entryIssues.mp h
  rcases dependencyIssue_eq_some.mp hissue with ⟨-, rfl⟩ | ⟨actual, -, -, rfl⟩
  · rfl
  · rfl

theorem mem_issues_of_not_circular (h : issue.isCircular = false) :
    issue ∈ (validateDependencies semver extensions).issues ↔
      issue ∈ entryIssues semver extensions := by
  rw [issues_eq, List.mem_append, or_iff_left]
  intro hmem
  obtain ⟨cycle, -, rfl⟩ := List.mem_map.mp hmem
  cases h

theorem circular_mem_issues {cycle : List String} :
    .circular cycle ∈ (validateDependencies semver extensions).issues ↔
      cycle ∈ (computeTopologicalOrder extensions).2 := by
  rw [issues_eq, List.mem_append, or_iff_right]
  · exact List.mem_map_of_injective fun _ _ => DependencyIssue.circular.inj
  · intro hmem
    cases not_circular_of_mem hmem

section Issues

variable (hnames : (names extensions).Nodup)

include hnames

theorem missing_mem_issues {extension dependency required : String} :
    .missing extension dependency required ∈ (validateDependencies semver extensions).issues ↔
      Requires extensions extension dependency required ∧ dependency ∉ names extensions := by
  rw [mem_issues_of_not_circular rfl, mem_entryIssues]
  constructor
  · rintro ⟨_, _, _, hrequires, hissue⟩
    rcases dependencyIssue_eq_some.mp hissue with ⟨hnone, heq⟩ | ⟨actual, -, -, heq⟩
    · cases heq
      exact ⟨hrequires, (versions_eq_none hnames).mp hnone⟩
    · cases heq
  · rintro ⟨hrequires, hnone⟩
    exact ⟨_, _, _, hrequires,
      dependencyIssue_eq_some.mpr (.inl ⟨(versions_eq_none hnames).mpr hnone, rfl⟩)⟩

theorem versionMismatch_mem_issues {extension dependency required actual : String} :
    .versionMismatch extension dependency required actual ∈
        (validateDependencies semver extensions).issues ↔
      Requires extensions extension dependency required ∧
        Installed extensions dependency actual ∧ semver.versionMatches required actual = false := by
  rw [mem_issues_of_not_circular rfl, mem_entryIssues]
  constructor
  · rintro ⟨_, _, _, hrequires, hissue⟩
    rcases dependencyIssue_eq_some.mp hissue with ⟨-, heq⟩ | ⟨actual', hactual, hmatches, heq⟩
    · cases heq
    · cases heq
      exact ⟨hrequires, (versions_eq_some hnames).mp hactual, hmatches⟩
  · rintro ⟨hrequires, hinstalled, hmatches⟩
    exact ⟨_, _, _, hrequires, dependencyIssue_eq_some.mpr
      (.inr ⟨actual, (versions_eq_some hnames).mpr hinstalled, hmatches, rfl⟩)⟩

theorem issues_eq_nil_iff : (validateDependencies semver extensions).issues = [] ↔
    (∀ extension dependency required, Requires extensions extension dependency required →
      ∃ actual, Installed extensions dependency actual ∧
        semver.versionMatches required actual = true) ∧
    ∀ a, ¬TransGen (DependsOn extensions) a a := by
  constructor
  · intro hnone
    refine ⟨fun extension dependency required hrequires => ?_, fun a hcycle => ?_⟩
    · cases hversion : versions extensions dependency with
      | none =>
        have hmissing : .missing extension dependency required ∈
            (validateDependencies semver extensions).issues :=
          (missing_mem_issues hnames).mpr ⟨hrequires, (versions_eq_none hnames).mp hversion⟩
        rw [hnone] at hmissing
        cases hmissing
      | some actual =>
        have hinstalled := (versions_eq_some hnames).mp hversion
        refine ⟨actual, hinstalled, ?_⟩
        by_contra hmatches
        have hmismatch := (versionMismatch_mem_issues hnames).mpr
          ⟨hrequires, hinstalled, Bool.eq_false_iff.mpr hmatches⟩
        rw [hnone] at hmismatch
        cases hmismatch
    · obtain ⟨p, hwalk⟩ := exists_isChain hcycle
      obtain ⟨cycle, hcycle, -⟩ := reported_covers hnames hwalk
      have hcircular : .circular cycle ∈ (validateDependencies semver extensions).issues :=
        circular_mem_issues.mpr hcycle
      rw [hnone] at hcircular
      cases hcircular
  · rintro ⟨hentries, hacyclic⟩
    refine List.eq_nil_iff_forall_not_mem.mpr fun issue hissue => ?_
    cases issue with
    | missing extension dependency required =>
      obtain ⟨hrequires, hnone⟩ := (missing_mem_issues hnames).mp hissue
      obtain ⟨actual, ⟨ext, hext, rfl, -⟩, -⟩ := hentries _ _ _ hrequires
      exact hnone (List.mem_map_of_mem hext)
    | versionMismatch extension dependency required actual =>
      obtain ⟨hrequires, hinstalled, hmatches⟩ := (versionMismatch_mem_issues hnames).mp hissue
      obtain ⟨actual', hinstalled', hmatches'⟩ := hentries _ _ _ hrequires
      have hsame : actual = actual' := Option.some.inj
        (((versions_eq_some hnames).mpr hinstalled).symm.trans
          ((versions_eq_some hnames).mpr hinstalled'))
      rw [hsame, hmatches'] at hmatches
      cases hmatches
    | circular cycle =>
      obtain ⟨a, hcycle⟩ := (reported_closedPath hnames (circular_mem_issues.mp hissue)).transGen
      exact hacyclic a hcycle

end Issues

/-- The diagnostics of extensions with distinct names are sound, and complete but for the cycles
that share a step with one that is reported. -/
theorem validateDependencies_diagnoses (semver : Semver) (hnames : (names extensions).Nodup) :
    Diagnoses semver extensions (validateDependencies semver extensions) where
  missing _ _ _ := missing_mem_issues hnames
  versionMismatch _ _ _ _ := versionMismatch_mem_issues hnames
  once := by
    have hentries : (entryIssues semver extensions).filter (!·.isCircular) =
        entryIssues semver extensions := by
      refine List.filter_eq_self.mpr fun issue hissue => ?_
      rw [not_circular_of_mem hissue]
      rfl
    have hcycles : ((computeTopologicalOrder extensions).2.map
        DependencyIssue.circular).filter (!·.isCircular) = [] := by
      rw [List.filter_eq_nil_iff]
      intro issue hissue
      obtain ⟨cycle, -, rfl⟩ := List.mem_map.mp hissue
      exact Bool.false_ne_true
    rw [issues_eq, List.filter_append, hentries, hcycles, List.append_nil]
    exact entryIssues_nodup hnames
  circular _ h := reported_closedPath hnames (circular_mem_issues.mp h)
  covers _ _ hwalk := by
    obtain ⟨cycle, hcycle, b, c, hinside, hend⟩ := reported_covers hnames hwalk
    exact ⟨cycle, circular_mem_issues.mpr hcycle, b, c, hinside, hend.isInfix⟩
  valid := by
    rw [← issues_eq_nil_iff hnames]
    exact List.isEmpty_iff

/-- `a` is on a cycle with `b`, and on one with `c` and `b`. -/
def overlapping : List LoadedExtension :=
  [sampleExtension "a" ["b", "c"], sampleExtension "b" ["a"], sampleExtension "c" ["b"]]

/-- Instance: two cycles that overlap. -/
theorem validateDependencies_diagnoses_overlapping :
    Diagnoses anyVersion overlapping (validateDependencies anyVersion overlapping) :=
  validateDependencies_diagnoses anyVersion (by decide)

/-- `c` is on the cycle from `a` over `c` and `b`, and no cycle that is reported has it. -/
theorem overlapping_cycle_not_reported :
    ¬∀ (semver : Semver) (extensions : List LoadedExtension), (names extensions).Nodup →
      ∀ a, TransGen (DependsOn extensions) a a →
        ∃ cycle, .circular cycle ∈ (validateDependencies semver extensions).issues ∧
          a ∈ cycle := by
  intro h
  have hcb : DependsOn overlapping "c" "b" :=
    ⟨sampleExtension "c" ["b"], by simp [overlapping], rfl, by decide⟩
  have hba : DependsOn overlapping "b" "a" :=
    ⟨sampleExtension "b" ["a"], by simp [overlapping], rfl, by decide⟩
  have hac : DependsOn overlapping "a" "c" :=
    ⟨sampleExtension "a" ["b", "c"], by simp [overlapping], rfl, by decide⟩
  obtain ⟨cycle, hcycle, hc⟩ :=
    h anyVersion overlapping (by decide) "c" (.tail (.tail (.single hcb) hba) hac)
  have hissues : (validateDependencies anyVersion overlapping).issues =
      [.circular ["a", "b", "a"]] := by decide
  rw [hissues, List.mem_singleton] at hcycle
  obtain rfl := DependencyIssue.circular.inj hcycle
  revert hc
  decide

end AionCore.Extension
