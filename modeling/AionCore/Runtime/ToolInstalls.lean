import AionCore.Lib.Registry
import AionCore.Runtime.ManagedTools

/-!
# Managed tools: what an accepted target holds

The target holds a part of the source at any time, up to the contents of files, and copies never
take away what is in place. So the target is complete once the run that was the last to remove it
has copied every entry.
-/

namespace AionCore.Runtime

variable {γ : Type} {i : Install γ} {t t' : FileTree γ} {entry : Place}

namespace Install

/-- Nothing is installed, and the source, of which `entries` are the entries, holds a valid
tool. The roots are apart, and no link is on the way to the target. -/
structure Ready (i : Install γ) (t : FileTree γ) : Prop where
  grounded : t.Grounded
  valid : ∃ tool, i.validateToolRoot t i.source = .ok tool
  sourceDir : t.node i.source = some .dir
  listed : ∀ entry, entry ∈ i.entries ↔ entry ≠ [] ∧ t.node (i.source ++ entry) ≠ none
  apart : ¬i.source <+: i.target ∧ ¬i.target <+: i.source
  clear : t.Clear i.target
  empty : ∀ entry, t.node (i.target ++ entry) = none

/-- The target holds every entry of the source. -/
def Complete (i : Install γ) (root : Place) (t : FileTree γ) : Prop :=
  ∀ entry ≠ [], ∀ node, t.node (i.source ++ entry) = some node →
    t.node (root ++ entry) = some node

def InPlace (i : Install γ) (t : FileTree γ) (entry : Place) : Prop :=
  t.node (i.target ++ entry) = t.node (i.source ++ entry)

def SameKind : Node γ → Node γ → Prop
  | .dir, .dir => True
  | .file _, .file _ => True
  | .link a, .link b => a = b
  | _, _ => False

variable {n : Node γ}

theorem SameKind.dir (h : SameKind n .dir) : n = .dir := by
  cases n with
  | dir => rfl
  | file c => exact absurd h id
  | link a => exact absurd h id

theorem SameKind.link {target : List String} (h : SameKind n (.link target)) :
    n = .link target := by
  cases n with
  | dir => exact absurd h id
  | file c => exact absurd h id
  | link a =>
    have ha : a = target := h
    rw [ha]

theorem SameKind.file {c : γ} (h : SameKind n (.file c)) : ∃ c', n = .file c' := by
  cases n with
  | dir => exact absurd h id
  | file c' => exact ⟨c', rfl⟩
  | link a => exact absurd h id

theorem SameKind.refl (n : Node γ) : SameKind n n := by
  cases n with
  | dir => trivial
  | file c => trivial
  | link a => exact rfl

/-- The target holds a part of the source, up to the contents of files. -/
structure Shape (i : Install γ) (t : FileTree γ) : Prop where
  grounded : t.Grounded
  sourceDir : t.node i.source = some .dir
  listed : ∀ entry, entry ∈ i.entries ↔ entry ≠ [] ∧ t.node (i.source ++ entry) ≠ none
  apart : ¬i.source <+: i.target ∧ ¬i.target <+: i.source
  clear : t.Clear i.target
  kinds : ∀ entry node, t.node (i.target ++ entry) = some node →
    ∃ orig, t.node (i.source ++ entry) = some orig ∧ SameKind node orig

theorem Ready.shape (h : i.Ready t) : i.Shape t where
  grounded := h.grounded
  sourceDir := h.sourceDir
  listed := h.listed
  apart := h.apart
  clear := h.clear
  kinds entry node hn := by
    rw [h.empty] at hn
    cases hn

namespace Shape

section

variable (h : i.Shape t)
include h

theorem source_ne : i.source ≠ [] := by
  intro hs
  exact h.apart.1 (hs ▸ List.nil_prefix)

theorem target_ne : i.target ≠ [] := by
  intro ht
  exact h.apart.2 (ht ▸ List.nil_prefix)

theorem source_not_prefix (e : Place) : ¬i.source ++ e <+: i.target ++ entry := by
  intro hp
  have hs : i.source <+: i.target ++ entry := (List.prefix_append i.source e).trans hp
  rcases List.prefix_or_prefix_of_prefix hs (List.prefix_append i.target entry) with h' | h'
  · exact h.apart.1 h'
  · exact h.apart.2 h'

theorem target_not_prefix (e : Place) : ¬i.target ++ entry <+: i.source ++ e := by
  intro hp
  have ht : i.target <+: i.source ++ e := (List.prefix_append i.target entry).trans hp
  rcases List.prefix_or_prefix_of_prefix ht (List.prefix_append i.source e) with h' | h'
  · exact h.apart.2 h'
  · exact h.apart.1 h'

theorem source_dir {e : Place} (hn : t.node (i.source ++ entry) ≠ none) (he : e <+: entry)
    (hne : e ≠ entry) : t.node (i.source ++ e) = some .dir := by
  refine h.grounded.dir_above hn ?_ ((List.prefix_append_right_inj i.source).mpr he) ?_
  · simp [h.source_ne]
  · exact fun heq => hne (List.append_cancel_left heq)

/-- The path to a directory of the source is clear in the target. -/
theorem clear_entry (hdir : t.node (i.source ++ entry) = some .dir) :
    t.Clear (i.target ++ entry) := by
  have hplain := h.grounded.plain (p := i.source ++ entry) (by simp [hdir])
  constructor
  · intro x hx
    rcases List.mem_append.mp hx with hx | hx
    · exact h.clear.plain x hx
    · exact hplain x (List.mem_append_right _ hx)
  · intro q hq hqe
    rcases List.prefix_or_prefix_of_prefix hqe (List.prefix_append i.target entry) with hqt | htq
    · exact h.clear.dirs q hq hqt
    · obtain ⟨e, rfl⟩ := htq
      have he : e <+: entry := (List.prefix_append_right_inj i.target).mp hqe
      cases hn : t.node (i.target ++ e) with
      | none => exact .inl rfl
      | some node =>
        obtain ⟨orig, horig, hkind⟩ := h.kinds e node hn
        have hsource : t.node (i.source ++ e) = some .dir := by
          by_cases heq : e = entry
          · rw [heq, hdir]
          · exact h.source_dir (by simp [hdir]) he heq
        rw [horig] at hsource
        rw [Option.some.inj hsource] at hkind
        rw [hkind.dir]
        exact .inr rfl

/-- An entry has got a node of its kind, with directories on the way to it. -/
theorem grow {orig node : Node γ} (horig : t.node (i.source ++ entry) = some orig)
    (hkind : SameKind node orig) (hg : t'.Grounded)
    (hnode : ∀ q, t'.node q = if q = i.target ++ entry then some node
      else if q ≠ [] ∧ q <+: i.target ++ entry then some .dir else t.node q) :
    i.Shape t' ∧ ∀ e ≠ entry, i.InPlace t e → i.InPlace t' e := by
  have hsource : ∀ e, t'.node (i.source ++ e) = t.node (i.source ++ e) := by
    intro e
    have hne : i.source ++ e ≠ i.target ++ entry := by
      intro heq
      have hp : i.source ++ e <+: i.target ++ entry := heq ▸ List.prefix_rfl
      exact h.source_not_prefix e hp
    rw [hnode, if_neg hne, if_neg fun hp => h.source_not_prefix e hp.2]
  have habove : ∀ e, e ≠ entry → e <+: entry → t.node (i.source ++ e) = some .dir :=
    fun e hne he => h.source_dir (by simp [horig]) he hne
  have htarget : ∀ e, e ≠ entry → t'.node (i.target ++ e) =
      if e <+: entry then some .dir else t.node (i.target ++ e) := by
    intro e hne
    have hnil : i.target ++ e ≠ [] := by simp [h.target_ne]
    rw [hnode, if_neg fun heq => hne (List.append_cancel_left heq)]
    simp only [ne_eq, hnil, not_false_eq_true, true_and, List.prefix_append_right_inj]
  refine ⟨⟨hg, ?_, fun e => ?_, h.apart, ⟨h.clear.plain, fun q hq hqt => ?_⟩, fun e n hn => ?_⟩,
    fun e hne hin => ?_⟩
  · have hs := hsource []
    rw [List.append_nil] at hs
    rw [hs, h.sourceDir]
  · rw [hsource]
    exact h.listed e
  · rw [hnode]
    split
    · -- the target itself
      rename_i heq
      have hlength := hqt.length_le
      rw [heq, List.length_append] at hlength
      have hentry : entry = [] := List.eq_nil_of_length_eq_zero (by omega)
      rw [hentry, List.append_nil, h.sourceDir] at horig
      rw [← Option.some.inj horig] at hkind
      rw [hkind.dir]
      exact .inr rfl
    · rw [if_pos ⟨hq, hqt.trans (List.prefix_append _ _)⟩]
      exact .inr rfl
  · rw [hsource]
    by_cases he : e = entry
    · rw [hnode, if_pos (by rw [he])] at hn
      rw [he, ← Option.some.inj hn]
      exact ⟨orig, horig, hkind⟩
    · rw [htarget e he] at hn
      split at hn
      · rename_i hp
        rw [← Option.some.inj hn, habove e he hp]
        exact ⟨.dir, rfl, trivial⟩
      · exact h.kinds e n hn
  · rw [InPlace, hsource, htarget e hne]
    split
    · rename_i hp
      rw [habove e hne hp]
    · exact hin

/-- Entries are taken out of the target. -/
theorem prune (entry : Place) : i.Shape (t.prune (i.target ++ entry)) := by
  have hsource : ∀ e, (t.prune (i.target ++ entry)).node (i.source ++ e) =
      t.node (i.source ++ e) := fun e => FileTree.prune_node (h.target_not_prefix e)
  have hless : ∀ q, (t.prune (i.target ++ entry)).node q = none ∨
      (t.prune (i.target ++ entry)).node q = t.node q := by
    intro q
    by_cases hp : i.target ++ entry <+: q
    · exact .inl (if_pos hp)
    · exact .inr (if_neg hp)
  refine ⟨h.grounded.prune _, ?_, fun e => ?_, h.apart, ⟨h.clear.plain, fun q hq hqt => ?_⟩,
    fun e n hn => ?_⟩
  · have hs := hsource []
    rw [List.append_nil] at hs
    rw [hs, h.sourceDir]
  · rw [hsource]
    exact h.listed e
  · rcases hless q with hnone | hsame
    · exact .inl hnone
    · rw [hsame]
      exact h.clear.dirs q hq hqt
  · rw [hsource]
    rcases hless (i.target ++ e) with hnone | hsame
    · rw [hnone] at hn
      cases hn
    · rw [hsame] at hn
      exact h.kinds e n hn

theorem pruned (gone : List Place) : i.Shape (ToolWorld.pruned i t gone) := by
  rw [ToolWorld.pruned]
  induction gone generalizing t with
  | nil => exact h
  | cons entry gone ih => exact ih (h.prune entry)

/-- The target is created, and what is in place stays. -/
theorem makeTarget : (t.makeDirs i.target.reverse).2 = .ok () ∧
    i.Shape (t.makeDirs i.target.reverse).1.tree ∧
    ∀ e, i.InPlace t e → i.InPlace (t.makeDirs i.target.reverse).1.tree e := by
  obtain ⟨hok, hpaved⟩ := h.clear.makeDirs h.grounded
  have hroot : t.node (i.source ++ []) = some .dir := by
    rw [List.append_nil]
    exact h.sourceDir
  have hnode : ∀ q, (t.makeDirs i.target.reverse).1.tree.node q =
      if q = i.target ++ [] then some .dir
      else if q ≠ [] ∧ q <+: i.target ++ [] then some .dir else t.node q := by
    intro q
    rw [hpaved.node, List.append_nil]
    by_cases hq : q = i.target
    · rw [if_pos hq, if_pos ⟨hq ▸ h.target_ne, hq ▸ List.prefix_rfl⟩]
    · rw [if_neg hq]
  obtain ⟨hshape, hkeeps⟩ := h.grow hroot (.refl .dir) hpaved.grounded hnode
  refine ⟨hok, hshape, fun e he => ?_⟩
  by_cases heq : e = []
  · rw [heq, InPlace, hnode, if_pos rfl, List.append_nil, hshape.sourceDir]
  · exact hkeeps e heq he

theorem parent {e : Place} {x : String} (hn : t.node (i.source ++ (e ++ [x])) ≠ none) :
    t.Clear (i.target ++ e) ∧ FileTree.Plain x := by
  have hne : e ≠ e ++ [x] := by simp
  refine ⟨h.clear_entry (h.source_dir hn (List.prefix_append e [x]) hne), ?_⟩
  rw [← List.append_assoc] at hn
  exact (h.grounded.parent hn).2

end

/-- What stands at an entry, and then along the path to it, as a call on its parent says it. -/
theorem entry_node {d : Place} {x : String} (node : Option (Node γ)) (q : Place) :
    (if q = d ++ [x] then node else if q ≠ [] ∧ q <+: d then some .dir else t.node q) =
      if q = d ++ [x] then node else if q ≠ [] ∧ q <+: d ++ [x] then some .dir else t.node q := by
  split
  · rfl
  · rename_i hq
    have hiff : (q ≠ [] ∧ q <+: d) ↔ (q ≠ [] ∧ q <+: d ++ [x]) :=
      and_congr_right fun _ => ⟨fun h => h.trans (List.prefix_append d [x]),
        fun h => (List.prefix_concat_iff.mp h).resolve_left hq⟩
    simp only [hiff]

/-- A file is put at an entry that is one. -/
theorem createFile (h : i.Shape t) {c : γ} (horig : t.node (i.source ++ entry) = some (.file c))
    (content : γ) : (t.create (i.target ++ entry) content).2 = .ok () ∧
      (∀ q, (t.create (i.target ++ entry) content).1.tree.node q =
        if q = i.target ++ entry then some (.file content)
        else if q ≠ [] ∧ q <+: i.target ++ entry then some .dir else t.node q) ∧
      (t.create (i.target ++ entry) content).1.tree.Grounded := by
  obtain ⟨e, x, rfl⟩ := (List.eq_nil_or_concat entry).resolve_left (by
    rintro rfl
    rw [List.append_nil, h.sourceDir] at horig
    cases horig)
  rw [List.concat_eq_append] at horig ⊢
  have hsome : t.node (i.source ++ (e ++ [x])) ≠ none := by simp [horig]
  obtain ⟨hclear, hx⟩ := h.parent hsome
  have hfile : ∀ node, t.node (i.target ++ e ++ [x]) = some node → ∃ c, node = .file c := by
    intro node hn
    rw [List.append_assoc] at hn
    obtain ⟨orig, horig', hkind⟩ := h.kinds _ node hn
    rw [horig] at horig'
    rw [← Option.some.inj horig'] at hkind
    exact hkind.file
  obtain ⟨hok, hg, hnode⟩ := hclear.create h.grounded hx hfile content
  rw [← List.append_assoc]
  refine ⟨hok, fun q => ?_, hg⟩
  rw [hnode]
  exact entry_node _ q

end Shape

/-- A link is copied to where nothing or the same link stands. -/
theorem copySymlink_spec {d : Place} {x : String} {target : List String} (hg : t.Grounded)
    (hd : t.RealDir d) (hx : FileTree.Plain x)
    (hn : ∀ node, t.node (d ++ [x]) = some node → node = .link target) :
    (copySymlink t target (d ++ [x])).1.Grounded ∧
      ∀ q, (copySymlink t target (d ++ [x])).1.node q =
        if q = d ++ [x] then some (.link target) else t.node q := by
  have hlink : ∀ s : FileTree γ, s.Grounded → s.RealDir d →
      (∀ node, s.node (d ++ [x]) = some node → node = .link target) →
      removeExisting t (d ++ [x]) = .ok s →
      (copySymlink t target (d ++ [x])).1.Grounded ∧
        ∀ q, (copySymlink t target (d ++ [x])).1.node q =
          if q = d ++ [x] then some (.link target) else s.node q := by
    intro s hs hsd hsn hremoved
    rcases hs.symlink hsd hx target with ⟨done, hdone, -, hgd, hnode⟩ | ⟨hexist, hsome⟩
    · have hcopy : copySymlink t target (d ++ [x]) = (done.tree, .ok ()) := by
        simp only [copySymlink, hremoved, hdone]
      rw [hcopy]
      exact ⟨hgd, hnode⟩
    · have hcopy : (copySymlink t target (d ++ [x])).1 = s := by
        simp only [copySymlink, hremoved, hexist]
      rw [hcopy]
      refine ⟨hs, fun q => ?_⟩
      split
      · rename_i hq
        obtain ⟨node, hnode⟩ := Option.ne_none_iff_exists'.mp hsome
        rw [hq, hnode, hsn node hnode]
      · rfl
  by_cases hexists : t.pathExists (d ++ [x]) = true
  · -- the link is there and leads somewhere
    have hsome : t.node (d ++ [x]) = some (.link target) := by
      cases hnode : t.node (d ++ [x]) with
      | none =>
        rw [FileTree.pathExists, FileTree.follow_dir_name hd hx (by simp [hnode]), hnode] at hexists
        cases hexists
      | some node => rw [hn node hnode]
    obtain ⟨done, hdone, hgd, hrd, hnode⟩ := hg.unlink_link hd hx hsome
    have hremoved : removeExisting t (d ++ [x]) = .ok done.tree := by
      rw [removeExisting, if_pos hexists, hdone]
      rfl
    obtain ⟨hs', hnode'⟩ := hlink done.tree hgd hrd (by simp [hnode]) hremoved
    refine ⟨hs', fun q => ?_⟩
    rw [hnode', hnode]
    by_cases hq : q = d ++ [x]
    · rw [if_pos hq, if_pos hq]
    · rw [if_neg hq, if_neg hq, if_neg hq]
  · have hremoved : removeExisting t (d ++ [x]) = .ok t := by
      rw [removeExisting, if_neg hexists]
    exact hlink t hg hd hn hremoved

/-- A copied entry is in place, whatever its copy returns, and the others stay. -/
theorem Shape.copyEntry (h : i.Shape t) (hentry : entry ∈ i.entries) :
    i.Shape (i.copyEntry t entry).1 ∧ i.InPlace (i.copyEntry t entry).1 entry ∧
      ∀ e, i.InPlace t e → i.InPlace (i.copyEntry t entry).1 e := by
  obtain ⟨hne, hsome⟩ := (h.listed entry).mp hentry
  obtain ⟨orig, horig⟩ := Option.ne_none_iff_exists'.mp hsome
  suffices hcopy : (i.copyEntry t entry).1.Grounded ∧ ∀ q, (i.copyEntry t entry).1.node q =
      if q = i.target ++ entry then some orig
      else if q ≠ [] ∧ q <+: i.target ++ entry then some .dir else t.node q by
    obtain ⟨hshape, hkeeps⟩ := h.grow horig (.refl orig) hcopy.1 hcopy.2
    have hin : i.InPlace (i.copyEntry t entry).1 entry := by
      have hsource : i.source ++ entry ≠ i.target ++ entry := by
        intro heq
        have hp : i.source ++ entry <+: i.target ++ entry := heq ▸ List.prefix_rfl
        exact h.source_not_prefix entry hp
      rw [InPlace, hcopy.2, if_pos rfl, hcopy.2, if_neg hsource,
        if_neg fun hp => h.source_not_prefix entry hp.2, horig]
    refine ⟨hshape, hin, fun e he => ?_⟩
    by_cases heq : e = entry
    · rw [heq]
      exact hin
    · exact hkeeps e heq he
  rw [Install.copyEntry, horig]
  cases orig with
  | dir =>
    obtain ⟨-, hpaved⟩ := (h.clear_entry horig).makeDirs h.grounded
    refine ⟨hpaved.grounded, fun q => ?_⟩
    rw [hpaved.node]
    by_cases hq : q = i.target ++ entry
    · rw [if_pos hq, if_pos ⟨by simp [hq, h.target_ne], hq ▸ List.prefix_rfl⟩]
    · rw [if_neg hq]
  | file c =>
    obtain ⟨hok, hnode, hg⟩ := h.createFile horig c
    dsimp only
    revert hok hnode hg
    generalize t.create (i.target ++ entry) c = made
    obtain ⟨done, result⟩ := made
    rintro rfl hnode hg
    exact ⟨hg, hnode⟩
  | link target =>
    obtain ⟨e, x, rfl⟩ := (List.eq_nil_or_concat entry).resolve_left hne
    rw [List.concat_eq_append] at horig hsome ⊢
    obtain ⟨hclear, hx⟩ := h.parent hsome
    have hlong : ¬i.target ++ e ++ [x] <+: i.target ++ e := by
      intro hp
      have hlength := hp.length_le
      rw [List.length_append, List.length_singleton] at hlength
      omega
    rw [← List.append_assoc, List.dropLast_concat]
    obtain ⟨hok, hpaved⟩ := hclear.makeDirs h.grounded
    revert hok hpaved
    generalize t.makeDirs (i.target ++ e).reverse = made
    obtain ⟨done, result⟩ := made
    rintro rfl hpaved
    have hlink : ∀ node, done.tree.node (i.target ++ e ++ [x]) = some node →
        node = .link target := by
      intro node hn
      rw [hpaved.node, if_neg fun hp => hlong hp.2, List.append_assoc] at hn
      obtain ⟨orig, horig', hkind⟩ := h.kinds _ node hn
      rw [horig] at horig'
      rw [← Option.some.inj horig'] at hkind
      exact hkind.link
    obtain ⟨hg, hnode⟩ := copySymlink_spec hpaved.grounded (hpaved.realDir hclear.plain) hx hlink
    refine ⟨hg, fun q => ?_⟩
    rw [hnode, hpaved.node]
    exact Shape.entry_node _ q

/-- The roots are not the same directory. -/
theorem Shape.sameRoots_eq (h : i.Shape t) : i.sameRoots t = false := by
  have hne : i.source ≠ i.target := fun heq => h.apart.1 (heq ▸ List.prefix_rfl)
  have hroute : ∀ p : Place, p ≠ [] → (∀ x ∈ p, FileTree.Plain x) →
      FileTree.route [] p = some p := by
    intro p hp hplain
    have hempty : p ≠ [""] := by
      rintro rfl
      exact (hplain "" (by simp)).1 rfl
    rw [FileTree.route, if_neg (not_or.mpr ⟨hp, hempty⟩)]
    split <;> rfl
  have hsource : t.canonicalize [] i.source = .ok i.source := by
    rw [FileTree.canonicalize, hroute _ h.source_ne (h.grounded.plain (by simp [h.sourceDir]))]
    dsimp only
    rw [FileTree.lookup_realDir (h.grounded.realDir (.inr h.sourceDir))]
  have htarget : t.canonicalize [] i.target = .ok i.target ∨
      t.canonicalize [] i.target = .error .noEnt := by
    rw [FileTree.canonicalize, hroute _ h.target_ne h.clear.plain]
    dsimp only
    rcases h.clear.lookup with ⟨hl, -⟩ | ⟨q, hq⟩ | hq
    · rw [hl]
      exact .inl rfl
    · rw [hq]
      exact .inr rfl
    · rw [hq]
      exact .inr rfl
  rw [sameRoots, hsource]
  rcases htarget with ht | ht <;> rw [ht] <;> simp [hne]

end Install

namespace ToolWorld

variable {w : ToolWorld γ} {k process : ℕ}

/-- Every tool that was returned had a root with all that the source had. -/
def AllComplete (i : Install γ) (w : ToolWorld γ) : Prop :=
  ∀ answer ∈ w.answers, i.Complete answer.1.root answer.2

/-- A validation that accepts finds the target settled. -/
def Careful (i : Install γ) (w : ToolWorld γ) : ToolStep γ → Prop
  | .validate k => ∀ run ∈ w.runs[k]?, run.stage.validates = true →
    w.settled = true ∨ i.accepts w.tree = false
  | _ => True

/-- What a run that copies has still to do; what the owner is done with is in place. -/
structure Copying (i : Install γ) (w : ToolWorld γ) (k : ℕ) (rest : List Place) : Prop where
  subset : rest ⊆ i.entries
  done : w.owner = some k → ∀ entry ∈ i.entries, entry ∉ rest → i.InPlace w.tree entry

structure Sound (i : Install γ) (w : ToolWorld γ) : Prop where
  shape : i.Shape w.tree
  settled : w.settled = true → ∀ entry ∈ i.entries, i.InPlace w.tree entry
  owner : ∀ k, w.owner = some k → k < w.runs.length
  copying : ∀ k process rest, w.runs[k]? = some ⟨process, .copying rest⟩ → w.Copying i k rest
  answers : w.AllComplete i

theorem Sound.new {t : FileTree γ} (h : i.Ready t) : Sound i ⟨t, [], none, false, []⟩ where
  shape := h.shape
  settled hs := by cases hs
  owner k hk := by cases hk
  copying k process rest hk := by cases hk
  answers := fun _ ha => absurd ha List.not_mem_nil

/-- A run goes on; if it copies then, its entries are accounted for. -/
theorem Sound.setRun (h : w.Sound i) {old : Run} (hk : w.runs[k]? = some old) (process : ℕ)
    (stage : RunStage) (hstage : ∀ rest, stage = .copying rest → w.Copying i k rest) :
    (w.setRun k process stage).Sound i := by
  refine ⟨h.shape, h.settled, fun j hj => ?_, fun j p rest hj => ?_, h.answers⟩
  · have hlt := h.owner j hj
    show j < (w.runs.set k ⟨process, stage⟩).length
    rwa [List.length_set]
  · rcases (Registry.getElem?_replace hk).mp hj with ⟨rfl, heq⟩ | ⟨-, hj⟩
    · cases heq
      exact ⟨(hstage rest rfl).subset, (hstage rest rfl).done⟩
    · exact ⟨(h.copying j p rest hj).subset, (h.copying j p rest hj).done⟩

theorem Sound.fail (h : w.Sound i) {old : Run} (hk : w.runs[k]? = some old) (process : ℕ)
    (error : ToolError) : (w.fail k process error).Sound i :=
  h.setRun hk process _ fun _ hs => by cases hs

variable {tree : FileTree γ}

/-- The tree has changed, and all that was in place still is. -/
theorem Sound.keep (h : w.Sound i) (hshape : i.Shape tree)
    (hkeeps : ∀ entry, i.InPlace w.tree entry → i.InPlace tree entry) :
    ({ w with tree := tree } : ToolWorld γ).Sound i where
  shape := hshape
  settled hs entry hentry := hkeeps entry (h.settled hs entry hentry)
  owner := h.owner
  copying k process rest hk :=
    ⟨(h.copying k process rest hk).subset, fun ho entry hentry hrest =>
      hkeeps entry ((h.copying k process rest hk).done ho entry hentry hrest)⟩
  answers := h.answers

/-- The tree has lost entries; no run that copies owns it. -/
theorem Sound.unsettle (h : w.Sound i) (hshape : i.Shape tree) {owner : Option ℕ}
    (howner : ∀ k, owner = some k → ∃ process stage,
      w.runs[k]? = some ⟨process, stage⟩ ∧ ∀ rest, stage ≠ .copying rest) :
    (w.unsettle tree owner).Sound i where
  shape := hshape
  settled hs := by cases hs
  owner k hk := by
    obtain ⟨process, stage, hrun, -⟩ := howner k hk
    exact Registry.lt_of_getElem? hrun
  copying k process rest hk :=
    ⟨(h.copying k process rest hk).subset, fun ho => by
      obtain ⟨process', stage, hrun, hstage⟩ := howner k ho
      have heq : some (⟨process, .copying rest⟩ : Run) = some ⟨process', stage⟩ :=
        hk.symm.trans hrun
      cases heq
      exact absurd rfl (hstage rest)⟩
  answers := h.answers

theorem Sound.start (h : w.Sound i) (process : ℕ) : (w.start process).Sound i := by
  refine ⟨h.shape, h.settled, fun j hj => ?_, fun j p rest hj => ?_, h.answers⟩
  · have hlt := h.owner j hj
    show j < (w.runs ++ [_]).length
    rw [List.length_append]
    omega
  · rcases Registry.getElem?_add.mp hj with hj | ⟨-, heq⟩
    · exact ⟨(h.copying j p rest hj).subset, (h.copying j p rest hj).done⟩
    · cases heq

theorem Sound.complete (h : w.Sound i) (hsettled : w.settled = true) :
    i.Complete i.target w.tree := by
  intro entry hne node hn
  have hin : entry ∈ i.entries := (h.shape.listed entry).mpr ⟨hne, by simp [hn]⟩
  exact (h.settled hsettled entry hin).trans hn

theorem root_of_validate {tool : ResolvedManagedAcpTool} {t : FileTree γ}
    (h : i.validateToolRoot t i.target = .ok tool) : tool.root = i.target := by
  rw [Install.validateToolRoot] at h
  split at h
  · cases h
  · dsimp only at h
    split at h
    · split at h
      · cases h
      · rw [← Except.ok.inj h]
    · cases h

section

variable (h : w.Sound i)
include h

theorem Sound.validate (hstep : Careful i w (.validate k)) :
    (w.validate i k).Sound i := by
  rw [ToolWorld.validate]
  split
  · exact h
  · rename_i process stage hk
    split
    · rename_i hvalidates
      have hend : ∀ stage : RunStage, (∀ rest, stage ≠ .copying rest) →
          (w.setRun k process stage).Sound i := fun stage hstage =>
        h.setRun hk process stage fun rest hs => absurd hs (hstage rest)
      split
      · -- the validation accepts
        rename_i tool hvalid
        have haccepts : i.accepts w.tree = true := by
          rw [Install.accepts, hvalid]
          rfl
        have hsettled : w.settled = true := by
          rcases hstep _ hk hvalidates with hs | hrejects
          · exact hs
          · rw [haccepts] at hrejects
            cases hrejects
        have hnext := hend (.returned (.ok tool)) (by simp)
        refine ⟨h.shape, h.settled, hnext.owner, fun j p rest hj => ?_, fun answer ha => ?_⟩
        · exact ⟨(hnext.copying j p rest hj).subset, (hnext.copying j p rest hj).done⟩
        rcases List.mem_append.mp ha with ha | ha
        · exact h.answers answer ha
        · rw [List.mem_singleton.mp ha, root_of_validate hvalid]
          exact h.complete hsettled
      · exact hend .waiting (by simp)
      · split
        · rw [h.shape.sameRoots_eq, if_neg (by decide)]
          exact hend .removing (by simp)
        · exact h.fail hk process _
      · exact hend (.rejected _) (by simp)
    · exact h

theorem Sound.acquire (k : ℕ) : (w.acquire k).Sound i := by
  rw [ToolWorld.acquire]
  split
  · rename_i hk
    split
    · exact h
    · exact h.setRun hk _ _ fun _ hs => by cases hs
  · exact h

theorem Sound.remove (k : ℕ) : (w.remove i k).Sound i := by
  rw [ToolWorld.remove]
  split
  · rename_i process hk
    have hown : ∀ tree, i.Shape tree →
        ((w.unsettle tree (some k)).setRun k process .creating).Sound i := by
      intro tree hshape
      refine Sound.setRun (h.unsettle hshape fun j hj => ?_) hk process _ fun _ hs => by cases hs
      cases hj
      exact ⟨process, .removing, hk, by simp⟩
    rcases h.shape.clear.remove h.shape.grounded h.shape.target_ne with
      ⟨hexists, hremoved⟩ | ⟨hmissing, -⟩
    · rw [if_pos hexists, hremoved]
      have hpruned := h.shape.prune []
      rw [List.append_nil] at hpruned
      exact hown _ hpruned
    · rw [if_neg (by simp [hmissing])]
      exact hown _ h.shape
  · exact h

theorem Sound.lose {old : Run} (hk : w.runs[k]? = some old) (process : ℕ) (hshape : i.Shape tree)
    (error : ToolError) :
    ((w.unsettle tree none).fail k process error).Sound i :=
  Sound.fail (h.unsettle hshape fun _ hk => by cases hk) hk process error

theorem Sound.removeFails (k : ℕ) (gone : List Place) (error : String) :
    (w.removeFails i k gone error).Sound i := by
  rw [ToolWorld.removeFails]
  split
  · rename_i process hk
    exact h.lose hk process (h.shape.pruned gone) _
  · exact h

theorem Sound.create (k : ℕ) : (w.create i k).Sound i := by
  rw [ToolWorld.create]
  split
  · rename_i process hk
    obtain ⟨hok, hshape, hkeeps⟩ := h.shape.makeTarget
    revert hok hshape hkeeps
    generalize w.tree.makeDirs i.target.reverse = made
    obtain ⟨done, result⟩ := made
    rintro rfl hshape hkeeps
    -- nothing is copied yet
    exact Sound.setRun (h.keep hshape hkeeps) hk process _ fun rest hs => by
      cases hs
      exact ⟨List.Subset.refl _, fun _ entry hentry hrest => absurd hentry hrest⟩
  · exact h

theorem Sound.createFails (k : ℕ) (error : String) :
    (w.createFails i k error).Sound i := by
  rw [ToolWorld.createFails]
  split
  · rename_i process hk
    exact h.fail hk process _
  · exact h

theorem Sound.copy (k : ℕ) (entry : Place) : (w.copy i k entry).Sound i := by
  rw [ToolWorld.copy]
  split
  · rename_i process rest hk
    split
    · rename_i hin
      have hcopying := h.copying k process rest hk
      obtain ⟨hshape, hplaced, hkeeps⟩ := h.shape.copyEntry (hcopying.subset hin)
      revert hshape hplaced hkeeps
      generalize i.copyEntry w.tree entry = made
      obtain ⟨tree, result⟩ := made
      intro hshape hplaced hkeeps
      have hkept := h.keep hshape hkeeps
      cases result with
      | error e => exact hkept.fail hk process _
      | ok u =>
        -- the entry is in place, and so are those that the owner was done with
        have hnext : Copying i { w with tree := tree } k (rest.filter (· ≠ entry)) := by
          refine ⟨fun e he => hcopying.subset (List.mem_filter.mp he).1, fun ho e he hrest => ?_⟩
          by_cases heq : e = entry
          · rw [heq]
            exact hplaced
          · refine hkeeps e (hcopying.done ho e he fun hmem => hrest ?_)
            exact List.mem_filter.mpr ⟨hmem, by simpa using heq⟩
        have hrun := hkept.setRun hk process (.copying (rest.filter (· ≠ entry)))
          fun rest' hs => by
            cases hs
            exact hnext
        refine ⟨hshape, fun hs e he => ?_, hrun.owner, fun j p rest' hj => ?_, h.answers⟩
        · rcases Bool.or_eq_true_iff.mp hs with hs | hs
          · exact hkeeps e (h.settled hs e he)
          · obtain ⟨hempty, howner⟩ := Bool.and_eq_true_iff.mp hs
            refine hnext.done (by simpa using howner) e he ?_
            rw [List.isEmpty_iff.mp hempty]
            exact List.not_mem_nil
        · exact ⟨(hrun.copying j p rest' hj).subset, (hrun.copying j p rest' hj).done⟩
    · exact h
  · exact h

theorem Sound.copyFails (k : ℕ) (entry : Place) (left : Option γ) (error : String) :
    (w.copyFails i k entry left error).Sound i := by
  rw [ToolWorld.copyFails]
  split
  · rename_i process rest hk
    split
    · split
      · rename_i c content horig
        obtain ⟨-, hnode, hg⟩ := h.shape.createFile horig content
        have hkind : Install.SameKind (.file content) (.file c) := trivial
        exact h.lose hk process (h.shape.grow horig hkind hg hnode).1 _
      · exact h.fail hk process _
    · exact h
  · exact h

theorem Sound.cleanUp (k : ℕ) : (w.cleanUp i k).Sound i := by
  rw [ToolWorld.cleanUp]
  split
  · rename_i process e hk
    refine h.lose hk process ?_ _
    split
    · exact h.shape
    · rename_i done hdone
      rcases h.shape.clear.remove h.shape.grounded h.shape.target_ne with
        ⟨-, hremoved⟩ | ⟨hmissing, -⟩
      · have hpruned := h.shape.prune []
        rw [List.append_nil] at hpruned
        rw [hremoved] at hdone
        rwa [← Except.ok.inj hdone]
      · rw [FileTree.removeDirAll] at hdone
        rw [FileTree.pathExists] at hmissing
        split at hdone
        · rename_i hl
          rw [hl] at hmissing
          cases hmissing
        · cases hdone
        · cases hdone
  · exact h

theorem Sound.cleanUpFails (k : ℕ) (gone : List Place) :
    (w.cleanUpFails i k gone).Sound i := by
  rw [ToolWorld.cleanUpFails]
  split
  · rename_i process e hk
    exact h.lose hk process (h.shape.pruned gone) _
  · exact h

theorem Sound.kill (process : ℕ) : (w.kill process).Sound i := by
  refine ⟨h.shape, h.settled, fun j hj => ?_, fun j p rest hj => ?_, h.answers⟩
  · have hlt := h.owner j hj
    show j < (w.runs.map _).length
    rwa [List.length_map]
  · rw [ToolWorld.kill, List.getElem?_map] at hj
    obtain ⟨run, hrun, hsame⟩ := Option.map_eq_some_iff.mp hj
    have hstays : run = ⟨p, .copying rest⟩ := by
      split at hsame
      · exact hsame
      · split at hsame
        · cases hsame
        · exact hsame
    rw [hstays] at hrun
    exact ⟨(h.copying j p rest hrun).subset, (h.copying j p rest hrun).done⟩

theorem Sound.fire (step : ToolStep γ) (hstep : Careful i w step) :
    (w.fire i step).Sound i := by
  cases step with
  | start process => exact h.start process
  | validate k => exact h.validate hstep
  | acquire k => exact h.acquire k
  | remove k => exact h.remove k
  | removeFails k gone error => exact h.removeFails k gone error
  | create k => exact h.create k
  | createFails k error => exact h.createFails k error
  | copy k entry => exact h.copy k entry
  | copyFails k entry left error => exact h.copyFails k entry left error
  | cleanUp k => exact h.cleanUp k
  | cleanUpFails k gone => exact h.cleanUpFails k gone
  | kill process => exact h.kill process

end

/-- The processes before their first run. -/
def machine (i : Install γ) : Machine (ToolWorld γ) (ToolStep γ) where
  start w := ∃ t, i.Ready t ∧ w = ⟨t, [], none, false, []⟩
  admits _ _ := True
  fire := fire i

/-- While no validation accepts a target that is not settled, every tool that is returned is
complete. -/
theorem accepted_complete (h : ((machine i).restrict (Careful i)).Reachable w) :
    w.AllComplete i := by
  have hsound : w.Sound i := h.invariant (M := (machine i).restrict (Careful i))
    (P := Sound i) (by rintro _ ⟨t, ht, rfl⟩; exact Sound.new ht)
    fun w step hw hstep => hw.fire step hstep.2
  exact hsound.answers

instance (i : Install γ) : ∀ w step, Decidable (Careful i w step) := by
  intro w step
  cases step <;> dsimp only [Careful] <;> infer_instance

instance (i : Install γ) : ∀ w step, Decidable ((machine i).admits w step) :=
  fun _ _ => .isTrue trivial

def sampleManifest : String := "\x7b\"entrypoint\": \"main.js\"\x7d"

def sampleEntries : List (Place × Node String) :=
  [(["manifest.json"], .file sampleManifest), (["main.js"], .file "main"),
    (["node_modules"], .dir), (["node_modules", "@anthropic-ai"], .dir),
    (["node_modules", "@anthropic-ai", "claude-agent-sdk-linux-x64"], .dir),
    (["node_modules", "@anthropic-ai", "claude-agent-sdk-linux-x64", "claude"], .file "binary"),
    (["lib.js"], .file "library")]

def sampleInstall : Install String where
  tool := .claudeAgentAcp
  manifestKey := "linux-x64"
  bundledRoot := ["bundle"]
  runtimeRoot := ["runtime"]
  entries := sampleEntries.map (·.1)
  parseManifest text :=
    if text = sampleManifest then .ok ⟨["main.js"], []⟩ else .error "expected value"

def sampleObjects : List (Place × Node String) :=
  [(["runtime"], .dir), (["bundle"], .dir), (["bundle", "acp"], .dir),
    (["bundle", "acp", "claude-agent-acp"], .dir),
    (["bundle", "acp", "claude-agent-acp", "0.58.1"], .dir), (sampleInstall.source, .dir)] ++
  sampleEntries.map fun e => (sampleInstall.source ++ e.1, e.2)

def sampleWorld : ToolWorld String := ⟨.ofList sampleObjects, [], none, false, []⟩

theorem sample_ready : sampleInstall.Ready (.ofList sampleObjects) where
  grounded := FileTree.grounded_ofList (by decide +kernel)
  valid := by
    have hok : (sampleInstall.validateToolRoot (.ofList sampleObjects)
        sampleInstall.source).isOk = true := by decide +kernel
    cases h : sampleInstall.validateToolRoot (.ofList sampleObjects) sampleInstall.source with
    | ok tool => exact ⟨tool, rfl⟩
    | error e =>
      rw [h] at hok
      cases hok
  sourceDir := by decide +kernel
  listed entry := by
    have hhere : ∀ e ∈ sampleInstall.entries,
        e ≠ [] ∧ sampleInstall.source ++ e ∈ sampleObjects.map (·.1) := by decide +kernel
    have hall : ∀ p ∈ sampleObjects.map (·.1), sampleInstall.source <+: p →
        p = sampleInstall.source ∨
          p.drop sampleInstall.source.length ∈ sampleInstall.entries := by decide +kernel
    rw [FileTree.ofList_node]
    refine ⟨hhere entry, fun ⟨hne, hin⟩ => ?_⟩
    rcases hall _ hin (List.prefix_append _ _) with heq | hmem
    · exact absurd (List.append_right_eq_self.mp heq) hne
    · rwa [List.drop_left] at hmem
  apart := by decide +kernel
  clear := by
    have hdirs : ∀ q ∈ sampleInstall.target.inits, q ≠ [] →
        (FileTree.ofList sampleObjects).node q = none ∨
          (FileTree.ofList sampleObjects).node q = some .dir := by decide +kernel
    exact ⟨by decide +kernel, fun q hq hp => hdirs q ((List.mem_inits _ _).mpr hp) hq⟩
  empty entry := by
    have hnone : ∀ p ∈ sampleObjects.map (·.1), ¬sampleInstall.target <+: p := by decide +kernel
    by_contra hn
    exact hnone _ (FileTree.ofList_node.mp hn) (List.prefix_append _ _)

/-- The first process is killed after one entry; the second process installs the tool, and
another run of it finds the tool installed. -/
def sampleSteps : List (ToolStep String) :=
  [.start 0, .validate 0, .acquire 0, .validate 0, .remove 0, .create 0,
    .copy 0 ["manifest.json"], .kill 0,
    .start 1, .validate 1, .acquire 1, .validate 1, .remove 1, .create 1] ++
  (sampleInstall.entries.map fun entry => .copy 1 entry) ++
  [.validate 1, .start 1, .validate 2]

theorem accepted_complete_sample :
    ((machine sampleInstall).run sampleWorld sampleSteps).AllComplete sampleInstall :=
  accepted_complete
    (Machine.reachable_run (M := (machine sampleInstall).restrict (Careful sampleInstall))
      ⟨_, sample_ready, rfl⟩ (by decide +kernel))

/-- The first process is killed before it has copied the last entry, which no validation looks
at. -/
def partialSteps : List (ToolStep String) :=
  [.start 0, .validate 0, .acquire 0, .validate 0, .remove 0, .create 0] ++
  (sampleInstall.entries.dropLast.map fun entry => .copy 0 entry) ++
  [.kill 0, .start 1, .validate 1]

theorem partial_tree_accepted :
    ∃ w, (machine sampleInstall).Reachable w ∧ ¬w.AllComplete sampleInstall := by
  refine ⟨(machine sampleInstall).run sampleWorld partialSteps,
    Machine.reachable_run ⟨_, sample_ready, rfl⟩ (by decide +kernel), fun h => ?_⟩
  have hmissing : ∃ answer ∈ ((machine sampleInstall).run sampleWorld partialSteps).answers,
      answer.2.node (sampleInstall.source ++ ["lib.js"]) = some (.file "library") ∧
        answer.2.node (answer.1.root ++ ["lib.js"]) = none := by
    decide +kernel
  obtain ⟨answer, hanswer, hsource, htarget⟩ := hmissing
  have hthere := h answer hanswer ["lib.js"] (by simp) _ hsource
  rw [htarget] at hthere
  cases hthere

end ToolWorld

end AionCore.Runtime
