import AionCore.Lib.FileChanges

/-!
# What only adds to a file tree

Calls that create directories and new files leave alone whatever stands in the tree, that is,
whatever is reached without a link.
-/

namespace FileTree

variable {γ : Type*} {t t' t'' : FileTree γ} {p q : Place} {path : List String}

variable (t) in
/-- An object in a real directory. -/
def Stands (q : Place) : Prop := q ≠ [] ∧ t.RealDir q.dropLast ∧ t.node q ≠ none

variable (t t') in
/-- All that stands in the first tree stands in the second as it is. -/
def Keeps : Prop := ∀ q, t.Stands q → t'.Stands q ∧ t'.node q = t.node q

theorem Keeps.refl (t : FileTree γ) : t.Keeps t := fun _ h => ⟨h, rfl⟩

theorem Keeps.trans (h : t.Keeps t') (h' : t'.Keeps t'') : t.Keeps t'' := by
  intro q hq
  obtain ⟨hq', hnode⟩ := h q hq
  obtain ⟨hq'', hnode'⟩ := h' q hq'
  exact ⟨hq'', hnode'.trans hnode⟩

/-- Something new at a missing name. -/
theorem keeps_put (hp : p ≠ []) (hn : t.node p = none) (node : Node γ) :
    t.Keeps (t.put p node) := by
  rintro q ⟨hq, hreal, hsome⟩
  obtain ⟨d, x, rfl⟩ := (List.eq_nil_or_concat q).resolve_left hq
  rw [List.concat_eq_append] at hq hreal hsome ⊢
  rw [List.dropLast_concat] at hreal
  have hnode : (t.put p node).node (d ++ [x]) = t.node (d ++ [x]) :=
    put_node (hreal.not_prefix_name hp hn hsome) node
  refine ⟨⟨hq, ?_, by rwa [hnode]⟩, hnode⟩
  rw [List.dropLast_concat]
  exact hreal.put hp (by simp [hn]) node

/-- More content in a file that was not there. -/
theorem Keeps.put (h : t.Keeps t') (hp : p ≠ []) (hn : t.node p = none) {content : γ}
    (hfile : t'.node p = some (.file content)) (node : Node γ) : t.Keeps (t'.put p node) := by
  intro q hq
  obtain ⟨⟨-, hreal, hsome⟩, hnode⟩ := h q hq
  obtain ⟨d, x, rfl⟩ := (List.eq_nil_or_concat q).resolve_left hq.1
  rw [List.concat_eq_append] at hq hreal hsome hnode ⊢
  rw [List.dropLast_concat] at hreal
  have hnot : ¬p <+: d ++ [x] := by
    intro hpq
    rcases List.prefix_concat_iff.mp hpq with heq | hpd
    · exact hq.2.2 (heq ▸ hn)
    · exact hreal.not_above hp (by simp [hfile]) hpd
  have hsame : (t'.put p node).node (d ++ [x]) = t'.node (d ++ [x]) := put_node hnot node
  refine ⟨⟨hq.1, ?_, by rwa [hsame]⟩, hsame.trans hnode⟩
  rw [List.dropLast_concat]
  exact hreal.put hp (by simp [hfile]) node

theorem entryPlace_ne_nil (h : t.entryPlace path = .ok p) : p ≠ [] := by
  rw [entryPlace] at h
  split at h
  · cases h
  · split at h
    · split at h
      · cases h
      · split at h
        · cases h
        · rw [← Except.ok.inj h]
          simp
    · cases h
    · cases h

theorem makeDir_keeps {done : Effect γ} (h : t.makeDir path = .ok done) : t.Keeps done.tree := by
  rw [makeDir] at h
  cases hentry : t.entryPlace path with
  | error e => simp [hentry] at h
  | ok p =>
    simp only [hentry] at h
    split at h
    · cases h
    · rename_i hn
      rw [← Except.ok.inj h]
      exact keeps_put (entryPlace_ne_nil hentry) hn .dir

theorem makeDirs_keeps (l : List String) : t.Keeps (t.makeDirs l).1.tree := by
  induction l with
  | nil => exact .refl t
  | cons x above ih =>
    rw [makeDirs]
    split
    · rename_i done hdone
      exact makeDir_keeps hdone
    · revert ih
      generalize t.makeDirs above = made
      obtain ⟨done, result⟩ := made
      intro ih
      cases result with
      | error e => exact ih
      | ok u =>
        dsimp only
        split
        · rename_i last hlast
          have hmade : done.tree.Keeps last.tree := makeDir_keeps hlast
          exact ih.trans hmade
        · exact ih
    · exact .refl t

variable (t) in
/-- `open` for writing, with creation of a file that must be new: a link at the end of the path is
not followed. Returns the tree with an empty file, and its place. -/
def createNew (empty : γ) (path : List String) : Except Errno (FileTree γ × Place) :=
  match t.entryPlace path with
  | .error e => .error e
  | .ok place =>
    match t.node place with
    | some _ => .error .exist
    | none => .ok (t.put place (.file empty), place)

/-- A new file, and whatever is written to it later. -/
theorem createNew_keeps {empty : γ} (h : t.createNew empty path = .ok (t', p)) (content : γ) :
    t.Keeps (t'.put p (.file content)) := by
  rw [createNew] at h
  cases hentry : t.entryPlace path with
  | error e => simp [hentry] at h
  | ok place =>
    simp only [hentry] at h
    split at h
    · cases h
    · rename_i hn
      obtain ⟨rfl, rfl⟩ := Prod.mk.inj (Except.ok.inj h)
      have hne := entryPlace_ne_nil hentry
      exact (keeps_put hne hn _).put hne hn (put_node_self _) _

end FileTree
