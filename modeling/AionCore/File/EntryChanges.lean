import AionCore.File.Sandbox
import AionCore.Lib.NamedEntries

/-!
# File service: the entry that is removed or renamed

`remove_entry` and `rename_entry_with_extra_root` act on the canonical form of the path they get.
Whether that is the entry that the path names, and whether a root of the request goes with it.
-/

namespace AionCore.File

open FileTree (Plain Effect)

namespace FileService

variable (svc : FileService) (t : FileTree Bytes)

def named (path : PathString) : Except Errno Place :=
  match FileTree.route svc.cwd path with
  | none => .error .noEnt
  | some pieces => t.named pieces

/-- The call takes the entry away, with what is under it and nothing else, and no root goes. -/
structure Takes (roots : List Place) (done : Effect Bytes) (e : Place) : Prop where
  gone : done.tree.node e = none
  frame : ∀ q, t.Stands q → ¬e <+: q → done.tree.node q = t.node q
  roots : ∀ root ∈ roots, ∀ q ∈ done.touched, ¬q <+: root

/-- The entry that the path names is removed, and nothing else. -/
def RemovesNamed (roots : List Place) (path : PathString) (done : Effect Bytes) : Prop :=
  ∃ d x, svc.named t path = .ok (d ++ [x]) ∧ Takes t roots done (d ++ [x])

/-- The entry that the path names gets a new name in its directory, and nothing else changes. -/
def RenamesNamed (roots : List Place) (path : PathString) (newName : String)
    (done : Effect Bytes) : Prop :=
  ∃ d x, svc.named t path = .ok (d ++ [x]) ∧ Takes t roots done (d ++ [x]) ∧
    ∀ below, done.tree.node (d ++ newName :: below) = t.node (d ++ x :: below)

def NamesItsTarget (roots : List Place) (path : PathString) (p : Place) : Prop :=
  t.canonicalize svc.cwd path = .ok p ∧ svc.named t path = .ok p ∧ ∀ root ∈ roots, ¬p <+: root

variable {svc t} {roots : List Place} {path workspace : PathString} {p e d : Place}
  {x newName newPath : String} {extraRoot : Option PathString} {done : Effect Bytes}

/-- A removal that goes through. -/
theorem removeEntry_ok (h : (svc.removeEntry t path workspace).result = .ok ()) :
    ∃ p, t.canonicalize svc.cwd path = .ok p ∧
      Inside (canonicalRoots t svc.cwd (svc.allowedRoots ++ [workspace])) p ∧
      (svc.removeEntry t path workspace).effect = ⟨t.prune p, [p]⟩ := by
  rw [removeEntry] at h ⊢
  by_cases ht : hasTraversal path = true
  · rw [if_pos ht] at h
    cases h
  rw [if_neg ht] at h ⊢
  cases hv : validatePathWithExtraRoot t svc.cwd path svc.allowedRoots (some workspace) with
  | error e =>
    rw [hv] at h
    cases h
  | ok p =>
    obtain ⟨hc, hin⟩ := validatePath_ok hv
    obtain ⟨pieces, -, hl⟩ := canonicalize_sound hc
    rw [hv] at h
    dsimp only at h ⊢
    cases hr : removeEntrySync t p with
    | error e =>
      rw [hr] at h
      cases h
    | ok done => exact ⟨p, hc, hin, removeEntrySync_ok hl hr⟩

/-- A rename that goes through. -/
theorem renameEntry_ok
    (h : (svc.renameEntryWithExtraRoot t path newName extraRoot).result = .ok newPath) :
    ∃ d x, t.canonicalize svc.cwd path = .ok (d ++ [x]) ∧ t.RealDir d ∧ Plain newName ∧
      newName ≠ x ∧ t.pathExists (d ++ [newName]) = false ∧
      (svc.renameEntryWithExtraRoot t path newName extraRoot).effect =
        ⟨t.graft (d ++ [x]) (d ++ [newName]), [d ++ [x], d ++ [newName]]⟩ := by
  rw [renameEntryWithExtraRoot] at h ⊢
  by_cases ht : hasTraversal path = true
  · rw [if_pos ht] at h
    cases h
  rw [if_neg ht] at h ⊢
  by_cases hsep : '/' ∈ newName.toList ∨ '\\' ∈ newName.toList
  · rw [if_pos hsep] at h
    cases h
  rw [if_neg hsep] at h ⊢
  cases hv : validatePathWithExtraRoot t svc.cwd path svc.allowedRoots extraRoot with
  | error e =>
    rw [hv] at h
    cases h
  | ok p =>
    obtain ⟨hc, -⟩ := validatePath_ok hv
    obtain ⟨pieces, -, hl⟩ := canonicalize_sound hc
    rw [hv] at h
    dsimp only at h ⊢
    cases hr : renameEntrySync t p newName with
    | error e =>
      rw [hr] at h
      cases h
    | ok out =>
      obtain ⟨done, newPath⟩ := out
      obtain ⟨hfree, d, x, rfl, hd, hnew, hne, rfl⟩ :=
        renameEntrySync_ok (FileTree.lookup_arrived hl) hr
      rw [List.dropLast_concat] at hfree
      exact ⟨d, x, hc, hd, hnew, hne, hfree, rfl⟩

theorem named_cases (hc : t.canonicalize svc.cwd path = .ok p) (he : svc.named t path = .ok e) :
    e = p ∨ ∃ target, t.Stands e ∧ t.node e = some (.link target) := by
  obtain ⟨pieces, hroute, hl⟩ := canonicalize_sound hc
  rw [named, hroute] at he
  exact FileTree.named_cases he hl

theorem Takes.eq (h : Takes t roots done e) (hp : t.Stands p)
    (hgone : done.tree.node p = none) (hkeeps : ¬p <+: e → done.tree.node e ≠ none) : e = p := by
  have hpe : p <+: e := by
    by_contra hpe
    exact hkeeps hpe h.gone
  have hep : e <+: p := by
    by_contra hep
    exact hp.2.2 (hgone ▸ (h.frame p hp hep).symm)
  exact hep.eq_of_length (Nat.le_antisymm hep.length_le hpe.length_le)

theorem removesNamed_iff (hc : t.canonicalize svc.cwd path = .ok p) (hin : Inside roots p) :
    svc.RemovesNamed t roots path ⟨t.prune p, [p]⟩ ↔ svc.NamesItsTarget t roots path p := by
  obtain ⟨root, hroot, hprefix⟩ := hin
  obtain ⟨pieces, hroute, hl⟩ := canonicalize_sound hc
  have hgone : ∀ q, p <+: q → (t.prune p).node q = none := fun q hq => if_pos hq
  constructor
  · rintro ⟨d, x, hnamed, h⟩
    have hroots : ∀ root ∈ roots, ¬p <+: root :=
      fun root hroot => h.roots root hroot p List.mem_cons_self
    have hp : p ≠ [] := by
      rintro rfl
      exact hroots root hroot List.nil_prefix
    have heq : d ++ [x] = p := by
      refine h.eq (FileTree.stands_of_lookup hl hp).1 (hgone p List.prefix_rfl) fun hpe => ?_
      rcases named_cases hc hnamed with heq | ⟨target, -, hlink⟩
      · exact absurd (heq ▸ List.prefix_rfl) hpe
      · rw [FileTree.prune_node hpe, hlink]
        simp
    exact ⟨hc, heq ▸ hnamed, hroots⟩
  · rintro ⟨-, hnamed, hroots⟩
    have hp : p ≠ [] := by
      rintro rfl
      exact hroots root hroot List.nil_prefix
    obtain ⟨d, x, rfl⟩ := (List.eq_nil_or_concat p).resolve_left hp
    rw [List.concat_eq_append] at *
    refine ⟨d, x, hnamed, hgone _ List.prefix_rfl, fun q _ hq => FileTree.prune_node hq, ?_⟩
    intro root hroot q hq
    rw [List.mem_singleton.mp hq]
    exact hroots root hroot

theorem graft_renamed (t : FileTree Bytes) (d : Place) (x newName : String) (below : Place) :
    (t.graft (d ++ [x]) (d ++ [newName])).node (d ++ newName :: below) =
      t.node (d ++ x :: below) := by
  have hprefix : d ++ [newName] <+: d ++ newName :: below := ⟨below, by simp⟩
  have hdrop : (d ++ newName :: below).drop (d ++ [newName]).length = below := by
    rw [List.append_cons d newName below, List.drop_left]
  refine (if_pos hprefix).trans ?_
  rw [hdrop, ← List.append_cons]

theorem sibling_not_above (h : newName ≠ x) : ¬d ++ [newName] <+: d ++ [x] := by
  intro hprefix
  have heq := hprefix.eq_of_length (by simp)
  exact h (by simpa using heq)

theorem link_of_missing (hd : t.RealDir d) (hx : Plain x) (h : t.pathExists (d ++ [x]) = false)
    {node : Node Bytes} (hn : t.node (d ++ [x]) = some node) :
    ∃ target, node = .link target := by
  by_contra hlink
  rw [FileTree.pathExists, FileTree.follow_dir_name hd hx, hn] at h
  · cases h
  · intro target htarget
    rw [hn] at htarget
    exact hlink ⟨target, Option.some.inj htarget⟩

theorem renamesNamed_iff (hc : t.canonicalize svc.cwd path = .ok (d ++ [x]))
    (hroots : ∀ root ∈ roots, t.lookup root = .arrived root) (hd : t.RealDir d)
    (hnew : Plain newName) (hne : newName ≠ x) (hfree : t.pathExists (d ++ [newName]) = false) :
    svc.RenamesNamed t roots path newName
        ⟨t.graft (d ++ [x]) (d ++ [newName]), [d ++ [x], d ++ [newName]]⟩ ↔
      svc.NamesItsTarget t roots path (d ++ [x]) ∧ t.node (d ++ [newName]) = none := by
  obtain ⟨pieces, hroute, hl⟩ := canonicalize_sound hc
  obtain ⟨hstands, hnolink⟩ := FileTree.stands_of_lookup hl (by simp)
  have hgone : (t.graft (d ++ [x]) (d ++ [newName])).node (d ++ [x]) = none :=
    (if_neg (sibling_not_above hne)).trans (if_pos List.prefix_rfl)
  have htaken : (t.graft (d ++ [x]) (d ++ [newName])).node (d ++ [newName]) = t.node (d ++ [x]) :=
    graft_renamed t d x newName []
  have hdir : t.node (d ++ [newName]) ≠ some .dir := by
    intro hn
    obtain ⟨target, htarget⟩ := link_of_missing hd hnew hfree hn
    cases htarget
  constructor
  · rintro ⟨d', x', hnamed, h, -⟩
    have heq : d' ++ [x'] = d ++ [x] := by
      refine h.eq hstands hgone fun hpe => ?_
      rcases named_cases hc hnamed with heq | ⟨target, hlink, hn⟩
      · exact absurd (heq ▸ List.prefix_rfl) hpe
      · by_cases hsame : d ++ [newName] = d' ++ [x']
        · rw [← hsame]
          exact htaken ▸ hstands.2.2
        · have hnot := hlink.not_above (by simp) hdir hsame
          rw [FileTree.graft_node hpe hnot, hn]
          simp
    refine ⟨⟨hc, heq ▸ hnamed, fun root hroot => h.roots root hroot _ List.mem_cons_self⟩, ?_⟩
    by_contra hsome
    obtain ⟨node, hn⟩ := Option.ne_none_iff_exists'.mp hsome
    obtain ⟨target, rfl⟩ := link_of_missing hd hnew hfree hn
    have hreal : t.RealDir (d ++ [newName]).dropLast := by rwa [List.dropLast_concat]
    have hsame := h.frame (d ++ [newName]) ⟨by simp, hreal, hsome⟩ fun hprefix =>
      sibling_not_above (Ne.symm hne) (heq ▸ hprefix)
    rw [htaken, hn] at hsame
    exact hnolink target hsame
  · rintro ⟨⟨-, hnamed, hspared⟩, hnone⟩
    refine ⟨d, x, hnamed, ⟨hgone, fun q hq hpq => ?_, ?_⟩, graft_renamed t d x newName⟩
    · refine FileTree.graft_node hpq (hq.not_above (by simp) hdir ?_)
      rintro rfl
      exact hq.2.2 hnone
    · intro root hroot q hq
      rw [List.mem_pair] at hq
      rcases hq with rfl | rfl
      · exact hspared root hroot
      · intro hprefix
        have hrootne : root ≠ [] := by
          rintro rfl
          exact absurd (List.prefix_nil.mp hprefix) (by simp)
        obtain ⟨hrootstands, -⟩ := FileTree.stands_of_lookup (hroots root hroot) hrootne
        refine hrootstands.not_above (by simp) hdir ?_ hprefix
        rintro rfl
        exact hrootstands.2.2 hnone

/-- When removals and renames act on the entry that their path names and on nothing else: the path
leads to that entry, no root lies there or under it, and for a rename nothing stands at the new
name. -/
theorem acts_on_named_entry_iff (svc : FileService) (t : FileTree Bytes) :
    (∀ path workspace, (svc.removeEntry t path workspace).result = .ok () →
      let roots := canonicalRoots t svc.cwd (svc.allowedRoots ++ [workspace])
      (svc.RemovesNamed t roots path (svc.removeEntry t path workspace).effect ↔
        ∃ p, svc.NamesItsTarget t roots path p)) ∧
    ∀ path newName extraRoot newPath,
      (svc.renameEntryWithExtraRoot t path newName extraRoot).result = .ok newPath →
      let roots := canonicalRoots t svc.cwd (svc.allowedRoots ++ extraRoot.toList)
      (svc.RenamesNamed t roots path newName
          (svc.renameEntryWithExtraRoot t path newName extraRoot).effect ↔
        ∃ p, svc.NamesItsTarget t roots path p ∧ t.node (p.dropLast ++ [newName]) = none) := by
  constructor
  · intro path workspace h
    obtain ⟨p, hc, hin, heffect⟩ := removeEntry_ok h
    dsimp only
    rw [heffect, removesNamed_iff hc hin]
    refine ⟨fun hp => ⟨p, hp⟩, fun ⟨q, hq⟩ => ?_⟩
    obtain rfl : p = q := Except.ok.inj (hc.symm.trans hq.1)
    exact hq
  · intro path newName extraRoot newPath h
    obtain ⟨d, x, hc, hd, hnew, hne, hfree, heffect⟩ := renameEntry_ok h
    dsimp only
    rw [heffect, renamesNamed_iff hc (fun root hroot => lookup_root hroot) hd hnew hne hfree]
    constructor
    · rintro ⟨hp, hnone⟩
      exact ⟨d ++ [x], hp, by rwa [List.dropLast_concat]⟩
    · rintro ⟨q, hq, hnone⟩
      obtain rfl : d ++ [x] = q := Except.ok.inj (hc.symm.trans hq.1)
      rw [List.dropLast_concat] at hnone
      exact ⟨hq, hnone⟩

/-- A workspace `/ws` with a file `data`, a link `out` to it and a link `gone` to nothing. -/
def linkedWorkspace : FileTree Bytes where
  node
    | ["ws"] => some .dir
    | ["ws", "data"] => some (.file [1])
    | ["ws", "out"] => some (.link ["data"])
    | ["ws", "gone"] => some (.link ["nothing"])
    | _ => none

theorem acts_on_named_entry_sample :
    sample.RemovesNamed linkedWorkspace [["ws"]] ["", "ws", "data"]
        (sample.removeEntry linkedWorkspace ["", "ws", "data"] ["", "ws"]).effect ∧
      sample.RenamesNamed linkedWorkspace [["ws"]] ["", "ws", "data"] "new"
        (sample.renameEntryWithExtraRoot linkedWorkspace ["", "ws", "data"] "new"
          (some ["", "ws"])).effect := by
  have hroots : canonicalRoots linkedWorkspace sample.cwd [["", "ws"]] = [["ws"]] := by
    decide +kernel
  have hnames : sample.NamesItsTarget linkedWorkspace [["ws"]] ["", "ws", "data"] ["ws", "data"] :=
    ⟨by decide +kernel, by decide +kernel, by decide⟩
  have hboth := acts_on_named_entry_iff sample linkedWorkspace
  constructor
  · have hremove := hboth.1 ["", "ws", "data"] ["", "ws"] (by decide +kernel)
    rw [sample, List.nil_append] at hremove
    exact hremove.mpr ⟨_, hroots ▸ hnames⟩
  · have hrename := hboth.2 ["", "ws", "data"] "new" (some ["", "ws"]) "/ws/new" (by decide +kernel)
    rw [sample, List.nil_append] at hrename
    exact hrename.mpr ⟨_, hroots ▸ hnames, by decide +kernel⟩

/-- The removal of a link takes what it leads to and leaves the link, and the workspace can be
removed itself. -/
theorem removes_behind_link :
    ((sample.removeEntry linkedWorkspace ["", "ws", "out"] ["", "ws"]).result = .ok () ∧
      ¬sample.RemovesNamed linkedWorkspace [["ws"]] ["", "ws", "out"]
        (sample.removeEntry linkedWorkspace ["", "ws", "out"] ["", "ws"]).effect) ∧
    (sample.removeEntry linkedWorkspace ["", "ws"] ["", "ws"]).result = .ok () ∧
      (sample.removeEntry linkedWorkspace ["", "ws"] ["", "ws"]).effect.tree.node ["ws"] =
        none := by
  refine ⟨⟨by decide +kernel, ?_⟩, by decide +kernel, by decide +kernel⟩
  rintro ⟨d, x, hnamed, h⟩
  have hentry : sample.named linkedWorkspace ["", "ws", "out"] = .ok ["ws", "out"] := by
    decide +kernel
  have heq : ["ws", "out"] = d ++ [x] := Except.ok.inj (hentry.symm.trans hnamed)
  rw [← heq] at h
  exact absurd h.gone (by decide +kernel)

end FileService

end AionCore.File
