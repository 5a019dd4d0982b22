import AionCore.Lib.FileChanges

/-!
# Paths that meet no link

A tree in which every object stands in a directory, and the paths in it that lead to their
own place because nothing but directories is on the way. What the calls that create, copy and
remove do on such a path, node by node.
-/

namespace FileTree

variable {γ : Type*} {t : FileTree γ} {d p q r : Place} {x : String} {n : Node γ}

variable (t) in
def Grounded : Prop :=
  ∀ d x, t.node (d ++ [x]) ≠ none → Plain x ∧ (d = [] ∨ t.node d = some .dir)

section

variable (h : t.Grounded)
include h

theorem Grounded.realDir (hd : d = [] ∨ t.node d = some .dir) : t.RealDir d := by
  induction d using List.reverseRecOn with
  | nil => exact .nil
  | append_singleton d x ih =>
    have hn : t.node (d ++ [x]) = some .dir := hd.resolve_left (by simp)
    obtain ⟨hx, hd⟩ := h d x (by simp [hn])
    exact realDir_snoc.mpr ⟨ih hd, hx, hn⟩

theorem Grounded.parent (hn : t.node (d ++ [x]) ≠ none) :
    t.RealDir d ∧ Plain x := by
  obtain ⟨hx, hd⟩ := h d x hn
  exact ⟨h.realDir hd, hx⟩

/-- Above an object there are directories only. -/
theorem Grounded.dir_above (hn : t.node q ≠ none) (hp : p ≠ []) (hpq : p <+: q) (hne : p ≠ q) :
    t.node p = some .dir := by
  obtain ⟨d, x, rfl⟩ := (List.eq_nil_or_concat q).resolve_left (by
    rintro rfl
    exact hp (List.prefix_nil.mp hpq))
  rw [List.concat_eq_append] at hn hpq hne
  have hpd : p <+: d := (List.prefix_concat_iff.mp hpq).resolve_left hne
  obtain ⟨e, y, rfl⟩ := (List.eq_nil_or_concat p).resolve_left hp
  rw [List.concat_eq_append] at hpd ⊢
  exact ((h.parent hn).1 e y hpd).2

theorem Grounded.plain (hn : t.node p ≠ none) : ∀ x ∈ p, Plain x := by
  intro x hx
  obtain ⟨above, below, rfl⟩ := List.append_of_mem hx
  by_cases hb : below = []
  · rw [hb] at hn
    exact (h.parent hn).2
  · have hdir : t.node (above ++ [x]) = some .dir :=
      h.dir_above hn (by simp) ⟨below, by simp⟩ (by simpa using hb)
    have hsome : t.node (above ++ [x]) ≠ none := by simp [hdir]
    exact (h.parent hsome).2

/-- A node put where no directory stands changes nothing else. -/
theorem Grounded.put_node (hp : p ≠ []) (hn : t.node p ≠ some .dir) (q : Place) :
    (t.put p n).node q = if q = p then some n else t.node q := by
  show (if q = p then some n else if p <+: q then none else t.node q) = _
  split
  · rfl
  · rename_i hne
    split
    · rename_i hpq
      by_contra hsome
      exact hn (h.dir_above (Ne.symm hsome) hp hpq (Ne.symm hne))
    · rfl

theorem Grounded.put (hd : t.RealDir d) (hx : Plain x) (hn : t.node (d ++ [x]) ≠ some .dir) :
    (t.put (d ++ [x]) n).Grounded := by
  intro e y hy
  rw [h.put_node (by simp) hn] at hy
  rw [h.put_node (by simp) hn]
  by_cases hsame : e ++ [y] = d ++ [x]
  · obtain ⟨rfl, rfl⟩ : e = d ∧ y = x := by simpa using hsame
    refine ⟨hx, ?_⟩
    rcases List.eq_nil_or_concat e with rfl | ⟨e, z, rfl⟩
    · exact .inl rfl
    · rw [List.concat_eq_append] at hd ⊢
      right
      rw [if_neg (by simp)]
      exact (realDir_snoc.mp hd).2.2
  · rw [if_neg hsame] at hy
    obtain ⟨hplain, hdir⟩ := h e y hy
    refine ⟨hplain, hdir.imp_right fun hdir => ?_⟩
    rw [if_neg]
    · exact hdir
    · rintro rfl
      exact hn hdir

theorem Grounded.prune (p : Place) : (t.prune p).Grounded := by
  intro d x hx
  have hpx : ¬p <+: d ++ [x] := by
    intro hp
    exact hx (if_pos hp)
  rw [prune_node hpx] at hx
  obtain ⟨hplain, hd⟩ := h d x hx
  refine ⟨hplain, hd.imp_right fun hd => ?_⟩
  rw [prune_node fun hp => hpx (hp.trans (List.prefix_append d [x]))]
  exact hd

end

variable (t p) in
/-- All that is missing or stands on the way of the path, its end included, are directories. -/
structure Clear : Prop where
  plain : ∀ x ∈ p, Plain x
  dirs : ∀ q ≠ [], q <+: p → t.node q = none ∨ t.node q = some .dir

theorem Clear.ancestor (h : t.Clear p) (hq : q <+: p) : t.Clear q where
  plain x hx := h.plain x (hq.subset hx)
  dirs r hr hrq := h.dirs r hr (hrq.trans hq)

/-- A walk on a clear path arrives at a real directory or meets a missing name. -/
theorem Clear.lookup (h : t.Clear p) : t.lookup p = .arrived p ∧ t.RealDir p ∨
    (∃ q, t.lookup p = .absent q) ∨ t.lookup p = .failed .noEnt := by
  induction p using List.reverseRecOn with
  | nil => exact .inl ⟨rfl, .nil⟩
  | append_singleton d x ih =>
    rcases ih (h.ancestor (List.prefix_append d [x])) with ⟨hl, hd⟩ | hmiss
    · have hx : Plain x := h.plain x (by simp)
      have hdir := h.dirs (d ++ [x]) (by simp) List.prefix_rfl
      rw [follow_dir_name hd hx (by rintro target hlink; simp [hlink] at hdir)]
      rcases hdir with hn | hn
      · right
        left
        exact ⟨d ++ [x], by rw [hn]⟩
      · left
        rw [hn]
        exact ⟨rfl, realDir_snoc.mpr ⟨hd, hx, hn⟩⟩
    · right
      right
      exact follow_extend_missing [x] (by simp) .nil hmiss

variable (t p) in
/-- The tree with directories along the path. -/
structure Paved (s : FileTree γ) : Prop where
  grounded : s.Grounded
  node : ∀ q, s.node q = if q ≠ [] ∧ q <+: p then some .dir else t.node q

theorem Paved.nil (hg : t.Grounded) : t.Paved [] t where
  grounded := hg
  node q := by
    rw [if_neg]
    rintro ⟨hq, hnil⟩
    exact hq (List.prefix_nil.mp hnil)

theorem Paved.realDir {s : FileTree γ} (h : t.Paved p s) (hp : ∀ x ∈ p, Plain x) :
    s.RealDir p := by
  intro d x hd
  refine ⟨hp x (hd.subset (by simp)), ?_⟩
  rw [h.node, if_pos ⟨by simp, hd⟩]

/-- Directories along a path and at one more name. -/
theorem Paved.snoc {s s' : FileTree γ} (h : t.Paved d s) (hg : s'.Grounded)
    (hs' : ∀ q, s'.node q = if q = d ++ [x] then some .dir else s.node q) :
    t.Paved (d ++ [x]) s' where
  grounded := hg
  node q := by
    rw [hs', h.node]
    by_cases hq : q = d ++ [x]
    · rw [if_pos hq, if_pos ⟨by simp [hq], hq ▸ List.prefix_rfl⟩]
    · have hiff : (q ≠ [] ∧ q <+: d ++ [x]) ↔ (q ≠ [] ∧ q <+: d) :=
        and_congr_right fun _ => ⟨fun h => (List.prefix_concat_iff.mp h).resolve_left hq,
          fun h => h.trans (List.prefix_append d [x])⟩
      rw [if_neg hq]
      simp only [hiff]

/-- Once its parent is there, a directory on a clear path is made, unless it is there too. -/
theorem Paved.makeDir {s : FileTree γ} (h : t.Paved d s) (hclear : t.Clear (d ++ [x])) :
    (∃ done, s.makeDir (d ++ [x]) = .ok done ∧ t.Paved (d ++ [x]) done.tree) ∨
      s.makeDir (d ++ [x]) = .error .exist ∧ s.isDir (d ++ [x]) = true ∧
        t.Paved (d ++ [x]) s := by
  have hd : s.RealDir d := h.realDir fun y hy => hclear.plain y (by simp [hy])
  have hx : Plain x := hclear.plain x (by simp)
  have hlong : ¬d ++ [x] <+: d := by
    intro hp
    have hlength := hp.length_le
    rw [List.length_append, List.length_singleton] at hlength
    omega
  have hsame : s.node (d ++ [x]) = t.node (d ++ [x]) := by
    rw [h.node, if_neg fun hp => hlong hp.2]
  rcases hclear.dirs (d ++ [x]) (by simp) List.prefix_rfl with hn | hn
  · rw [← hsame] at hn
    have hnot : s.node (d ++ [x]) ≠ some .dir := by simp [hn]
    exact .inl ⟨_, makeDir_eq (lookup_realDir hd) hd hx hn,
      h.snoc (h.grounded.put hd hx hnot) (h.grounded.put_node (by simp) hnot)⟩
  · rw [← hsame] at hn
    have hreal := realDir_snoc.mpr ⟨hd, hx, hn⟩
    refine .inr ⟨?_, isDir_iff.mpr ⟨_, lookup_realDir hreal, hreal⟩, h.snoc h.grounded fun q => ?_⟩
    · rw [FileTree.makeDir, entryPlace_snoc (lookup_realDir hd) hd hx]
      dsimp only
      rw [hn]
    · split
      · rename_i hq
        rw [hq, hn]
      · rfl

/-- `create_dir_all` on a clear path makes the directories along it. -/
theorem Clear.makeDirs (hg : t.Grounded) (h : t.Clear p) :
    (t.makeDirs p.reverse).2 = .ok () ∧ t.Paved p (t.makeDirs p.reverse).1.tree := by
  induction p using List.reverseRecOn with
  | nil => exact ⟨rfl, .nil hg⟩
  | append_singleton d x ih =>
    have hclear : t.Clear d := h.ancestor (List.prefix_append d [x])
    rw [List.reverse_concat, FileTree.makeDirs, List.reverse_cons, List.reverse_reverse]
    rcases hclear.lookup with ⟨hl, hd⟩ | hmiss
    · -- the parent is there
      have hpaved : t.Paved d t := by
        refine ⟨hg, fun q => ?_⟩
        split
        · rename_i hq
          obtain ⟨e, y, rfl⟩ := (List.eq_nil_or_concat q).resolve_left hq.1
          rw [List.concat_eq_append] at hq ⊢
          exact (hd e y hq.2).2
        · rfl
      rcases hpaved.makeDir h with ⟨done, hmake, hdone⟩ | ⟨hmake, hisdir, hdone⟩
      · rw [hmake]
        exact ⟨rfl, hdone⟩
      · rw [hmake]
        dsimp only
        rw [if_pos hisdir]
        exact ⟨rfl, hdone⟩
    · -- the parent is made first
      have hnoent : t.makeDir (d ++ [x]) = .error .noEnt := by
        rw [FileTree.makeDir, entryPlace, List.getLast?_concat, List.dropLast_concat]
        rcases hmiss with ⟨q, hq⟩ | hq <;> rw [hq]
      obtain ⟨hok, hpaved⟩ := ih hclear
      rw [hnoent]
      revert hok hpaved
      generalize t.makeDirs d.reverse = made
      obtain ⟨done, result⟩ := made
      rintro rfl hpaved
      dsimp only
      rcases hpaved.makeDir h with ⟨last, hmake, hdone⟩ | ⟨hmake, hisdir, hdone⟩
      · rw [hmake]
        exact ⟨rfl, hdone⟩
      · rw [hmake]
        dsimp only
        rw [if_pos hisdir]
        exact ⟨rfl, hdone⟩

/-- A path to a name in a clear directory that is no directory itself. -/
theorem Paved.write {s : FileTree γ} (h : t.Paved d s) (hd : ∀ y ∈ d, Plain y) (hx : Plain x)
    (hn : ∀ node, t.node (d ++ [x]) = some node → ∃ c, node = .file c) (content : γ) :
    ∃ done, s.write (d ++ [x]) content = .ok done ∧ done.tree.Grounded ∧
      ∀ q, done.tree.node q = if q = d ++ [x] then some (.file content)
        else if q ≠ [] ∧ q <+: d then some .dir else t.node q := by
  have hreal := h.realDir hd
  have hlong : ¬d ++ [x] <+: d := by
    intro hp
    have hlength := hp.length_le
    rw [List.length_append, List.length_singleton] at hlength
    omega
  have hsame : s.node (d ++ [x]) = t.node (d ++ [x]) := by
    rw [h.node, if_neg fun hp => hlong hp.2]
  have hnode : ∀ node, s.node (d ++ [x]) = some node → ∃ c, node = .file c := hsame ▸ hn
  have hopen : s.openPlace (d ++ [x]) = .ok (d ++ [x]) := by
    rw [openPlace, follow_dir_name hreal hx fun target hlink => by
      obtain ⟨c, hc⟩ := hnode _ hlink
      cases hc]
    cases hs : s.node (d ++ [x]) with
    | none => rfl
    | some node =>
      obtain ⟨c, rfl⟩ := hnode node hs
      dsimp only
      rw [if_neg]
      simp [isDirAt_iff, hs]
  have hnot : s.node (d ++ [x]) ≠ some .dir := by
    intro hdir
    obtain ⟨c, hc⟩ := hnode _ hdir
    cases hc
  refine ⟨_, by rw [FileTree.write, hopen], h.grounded.put hreal hx hnot, fun q => ?_⟩
  rw [h.grounded.put_node (by simp) hnot, h.node]

/-- A file at a clear path is created with the directories on the way to it. -/
theorem Clear.create (hg : t.Grounded) (h : t.Clear d) (hx : Plain x)
    (hn : ∀ node, t.node (d ++ [x]) = some node → ∃ c, node = .file c) (content : γ) :
    (t.create (d ++ [x]) content).2 = .ok () ∧
      (t.create (d ++ [x]) content).1.tree.Grounded ∧
      ∀ q, (t.create (d ++ [x]) content).1.tree.node q = if q = d ++ [x] then some (.file content)
        else if q ≠ [] ∧ q <+: d then some .dir else t.node q := by
  obtain ⟨hok, hpaved⟩ := h.makeDirs hg
  rw [FileTree.create, List.dropLast_concat]
  revert hok hpaved
  generalize t.makeDirs d.reverse = made
  obtain ⟨done, result⟩ := made
  rintro rfl hpaved
  obtain ⟨last, hwrite, hlast⟩ := hpaved.write h.plain hx hn content
  dsimp only at hwrite ⊢
  rw [hwrite]
  exact ⟨rfl, hlast⟩

variable (t) in
/-- `symlink`. -/
def symlink (target path : List String) : Except Errno (Effect γ) :=
  match t.entryPlace path with
  | .error e => .error e
  | .ok place =>
    match t.node place with
    | some _ => .error .exist
    | none => .ok ⟨t.put place (.link target), [place]⟩

/-- In a real directory a link is made at a name that is missing. -/
theorem Grounded.symlink (hg : t.Grounded) (hd : t.RealDir d) (hx : Plain x)
    (target : List String) :
    (∃ done, t.symlink target (d ++ [x]) = .ok done ∧ t.node (d ++ [x]) = none ∧
        done.tree.Grounded ∧
        ∀ q, done.tree.node q = if q = d ++ [x] then some (.link target) else t.node q) ∨
      t.symlink target (d ++ [x]) = .error .exist ∧ t.node (d ++ [x]) ≠ none := by
  rw [FileTree.symlink, entryPlace_snoc (lookup_realDir hd) hd hx]
  dsimp only
  cases hn : t.node (d ++ [x]) with
  | none =>
    have hnot : t.node (d ++ [x]) ≠ some .dir := by simp [hn]
    exact .inl ⟨⟨t.put (d ++ [x]) (.link target), [d ++ [x]]⟩, rfl, rfl, hg.put hd hx hnot,
      hg.put_node (by simp) hnot⟩
  | some node => exact .inr ⟨rfl, by simp⟩

/-- In a real directory a link is removed, and what it leads to is not. -/
theorem Grounded.unlink_link (hg : t.Grounded) (hd : t.RealDir d) (hx : Plain x)
    {target : List String} (hn : t.node (d ++ [x]) = some (.link target)) :
    ∃ done, t.unlink (d ++ [x]) = .ok done ∧ done.tree.Grounded ∧ done.tree.RealDir d ∧
      ∀ q, done.tree.node q = if q = d ++ [x] then none else t.node q := by
  have hlong : ¬d ++ [x] <+: d := by
    intro hp
    have hlength := hp.length_le
    rw [List.length_append, List.length_singleton] at hlength
    omega
  refine ⟨⟨t.prune (d ++ [x]), [d ++ [x]]⟩, ?_, hg.prune _, ?_, fun q => ?_⟩
  · rw [unlink, entryPlace_snoc (lookup_realDir hd) hd hx]
    dsimp only
    rw [hn]
  · intro e y hey
    obtain ⟨hy, hdir⟩ := hd e y hey
    exact ⟨hy, (prune_node fun hp => hlong (hp.trans hey)).trans hdir⟩
  · show (if d ++ [x] <+: q then none else t.node q) = _
    by_cases hq : q = d ++ [x]
    · rw [if_pos (hq ▸ List.prefix_rfl), if_pos hq]
    · rw [if_neg hq]
      split
      · rename_i hpq
        by_contra hsome
        have hdir := hg.dir_above (Ne.symm hsome) (by simp) hpq (Ne.symm hq)
        rw [hn] at hdir
        cases hdir
      · rfl

def ofList (l : List (Place × Node γ)) : FileTree γ := ⟨fun p => (l.find? (·.1 = p)).map (·.2)⟩

theorem ofList_node {l : List (Place × Node γ)} :
    (ofList l).node p ≠ none ↔ p ∈ l.map (·.1) := by
  rw [ofList, ne_eq, Option.map_eq_none_iff, List.find?_eq_none, List.mem_map]
  simp

theorem grounded_ofList {l : List (Place × Node γ)}
    (h : ∀ p ∈ l.map (·.1), ∀ x ∈ p.getLast?, Plain x ∧
      (p.dropLast = [] ∨ (ofList l).node p.dropLast = some .dir)) : (ofList l).Grounded := by
  intro d x hn
  have hlast := h (d ++ [x]) (ofList_node.mp hn) x (by simp)
  rwa [List.dropLast_concat] at hlast

/-- A directory on a clear path is removed, and if none is there, nothing is under the path. -/
theorem Clear.remove (hg : t.Grounded) (h : t.Clear p) (hp : p ≠ []) :
    t.pathExists p = true ∧ t.removeDirAll p = .ok ⟨t.prune p, [p]⟩ ∨
      t.pathExists p = false ∧ ∀ q, p <+: q → t.node q = none := by
  have hnone : t.node p ≠ some .dir → ∀ q, p <+: q → t.node q = none := by
    intro hn q hpq
    by_contra hsome
    by_cases he : p = q
    · rcases h.dirs p hp List.prefix_rfl with hnode | hnode
      · exact hsome (he ▸ hnode)
      · exact hn hnode
    · exact hn (hg.dir_above hsome hp hpq he)
  rcases h.lookup with ⟨hl, hreal⟩ | hmiss
  · left
    rw [pathExists, removeDirAll, hl]
    dsimp only
    rw [if_pos hreal.isDirAt]
    exact ⟨rfl, rfl⟩
  · right
    refine ⟨by rw [pathExists]; rcases hmiss with ⟨q, hq⟩ | hq <;> rw [hq], hnone fun hn => ?_⟩
    rw [lookup_realDir (hg.realDir (.inr hn))] at hmiss
    rcases hmiss with ⟨q, hq⟩ | hq
    · cases hq
    · cases hq

end FileTree
