import AionCore.Lib.FileWrites

/-!
# Files in use

What becomes of a tree when one file in it is created, written or removed: the paths that lead
elsewhere still do, and what stands elsewhere is as it was.
-/

namespace FileTree

variable {γ : Type*} {t t' : FileTree γ} {cur d p q : Place} {x : String}
  {pieces path : List String} {n : ℕ}

variable (t t') in
/-- The trees differ in one place only, where there is nothing or a file in the first. -/
structure DifferAt (p : Place) : Prop where
  ne_nil : p ≠ []
  not_dir : t.node p = none ∨ ∃ content, t.node p = some (.file content)
  same : ∀ q, ¬p <+: q → t'.node q = t.node q

def Progress.Passes (p : Place) : Progress → Prop
  | .done (.arrived q) => q ≠ p
  | .done _ => False
  | .link .. => True

namespace DifferAt

section

variable (h : t.DifferAt t' p)
include h

theorem ne_dir : t.node p ≠ some .dir := by
  obtain hn | ⟨content, hn⟩ := h.not_dir
  · simp [hn]
  · simp [hn]

theorem node_name (hd : t.RealDir d) (hne : d ++ [x] ≠ p) :
    t'.node (d ++ [x]) = t.node (d ++ [x]) := by
  refine h.same _ fun hp => ?_
  obtain heq | hp := List.prefix_concat_iff.mp hp
  · exact hne heq.symm
  · exact hd.not_above h.ne_nil h.ne_dir hp

theorem advance (hcur : t.RealDir cur) (hpasses : (t.advance cur pieces).Passes p) :
    t'.advance cur pieces = t.advance cur pieces := by
  induction pieces generalizing cur with
  | nil => rfl
  | cons x rest ih =>
    rcases piece_cases x with hskip | rfl | hx | ⟨hskip, hup, hx⟩
    · rw [advance_skip hskip] at hpasses ⊢
      rw [advance_skip hskip]
      exact ih hcur hpasses
    · rw [advance_up] at hpasses ⊢
      rw [advance_up]
      exact ih hcur.dropLast hpasses
    · rw [advance_plain hx] at hpasses ⊢
      rw [advance_plain hx]
      have hne : cur ++ [x] ≠ p := by
        rintro rfl
        obtain hn | ⟨content, hn⟩ := h.not_dir
        · rw [hn] at hpasses
          dsimp only at hpasses
          split at hpasses <;> exact hpasses
        · rw [hn] at hpasses
          dsimp only at hpasses
          split at hpasses
          · exact hpasses rfl
          · exact hpasses
      rw [h.node_name hcur hne]
      cases hn : t.node (cur ++ [x]) with
      | none => rfl
      | some node =>
        cases node with
        | dir =>
          rw [hn] at hpasses
          exact ih (realDir_snoc.mpr ⟨hcur, hx, hn⟩) hpasses
        | file content => rfl
        | link target => rfl
    · rw [advance_bad hskip hup hx, advance_bad hskip hup hx]

theorem follow (hcur : t.RealDir cur) (hq : t.follow n cur pieces = .arrived q) (hne : q ≠ p) :
    t'.follow n cur pieces = .arrived q := by
  induction n generalizing cur pieces with
  | zero =>
    rw [FileTree.follow] at hq ⊢
    cases hadvance : t.advance cur pieces with
    | link dir target rest => simp [hadvance] at hq
    | done goal =>
      simp only [hadvance] at hq
      rw [h.advance hcur (by rw [hadvance, hq]; exact hne), hadvance]
      exact hq
  | succ n ih =>
    have hs : (t.advance cur pieces).Sound t := advance_sound hcur
    rw [FileTree.follow] at hq ⊢
    cases hadvance : t.advance cur pieces with
    | done goal =>
      simp only [hadvance] at hq
      rw [h.advance hcur (by rw [hadvance, hq]; exact hne), hadvance]
      exact hq
    | link dir target rest =>
      simp only [hadvance] at hq hs
      rw [h.advance hcur (by rw [hadvance]; trivial), hadvance]
      apply ih
      · split
        · exact .nil
        · exact hs
      · exact hq

theorem lookup (hq : t.lookup pieces = .arrived q) (hne : q ≠ p) :
    t'.lookup pieces = .arrived q :=
  h.follow .nil hq hne

theorem not_above (hq : t.lookup pieces = .arrived q) (hne : q ≠ p) :
    ¬p <+: q := by
  have hs : Goal.Sound t (.arrived q) := hq ▸ lookup_sound
  obtain hreal | ⟨d, x, content, rfl, hreal, -⟩ := hs
  · exact hreal.not_above h.ne_nil h.ne_dir
  · intro hp
    obtain heq | hp := List.prefix_concat_iff.mp hp
    · exact hne heq.symm
    · exact hreal.not_above h.ne_nil h.ne_dir hp

theorem node (hq : t.lookup pieces = .arrived q) (hne : q ≠ p) :
    t'.node q = t.node q :=
  h.same q (h.not_above hq hne)

theorem node_under (hd : t.lookup pieces = .arrived d) (hne : d ≠ p) (hx : d ++ [x] ≠ p) :
    t'.node (d ++ [x]) = t.node (d ++ [x]) := by
  refine h.same _ fun hp => ?_
  obtain heq | hp := List.prefix_concat_iff.mp hp
  · exact hx heq.symm
  · exact h.not_above hd hne hp

end

end DifferAt

theorem differAt_put (hp : p ≠ [])
    (hn : t.node p = none ∨ ∃ content, t.node p = some (.file content)) (node : Node γ) :
    t.DifferAt (t.put p node) p :=
  ⟨hp, hn, fun _ hq => put_node hq node⟩

/-- A file is opened where there is none or one. -/
theorem openPlace_not_dir (h : t.openPlace path = .ok p) :
    p ≠ [] ∧ (t.node p = none ∨ ∃ content, t.node p = some (.file content)) := by
  rw [openPlace] at h
  split at h
  · rename_i place hl
    split at h
    · cases h
    · rename_i hdir
      obtain rfl := Except.ok.inj h
      have hs : Goal.Sound t (.arrived place) := hl ▸ lookup_sound
      obtain hreal | ⟨d, x, content, rfl, -, -, hn⟩ := hs
      · exact absurd hreal.isDirAt hdir
      · exact ⟨by simp, .inr ⟨content, hn⟩⟩
  · rename_i place hl
    obtain rfl := Except.ok.inj h
    have hs : Goal.Sound t (.absent place) := hl ▸ lookup_sound
    obtain ⟨d, x, rfl, -, -, hn⟩ := hs
    exact ⟨by simp, .inl hn⟩
  · cases h

/-- A file in a directory is removed under its own name. -/
theorem unlink_file {content : γ} (h : t.lookup (d ++ [x]) = .arrived (d ++ [x]))
    (hn : t.node (d ++ [x]) = some (.file content)) :
    t.unlink (d ++ [x]) = .ok ⟨t.prune (d ++ [x]), [d ++ [x]]⟩ := by
  have hs : Goal.Sound t (.arrived (d ++ [x])) := h ▸ lookup_sound
  obtain hreal | ⟨d', x', content', heq, hreal, hx, -⟩ := hs
  · obtain ⟨-, -, hdir⟩ := realDir_snoc.mp hreal
    rw [hn] at hdir
    cases hdir
  · obtain ⟨rfl, rfl⟩ : d = d' ∧ x = x' := by simpa using heq
    rw [unlink, entryPlace_snoc (lookup_realDir hreal) hreal hx]
    dsimp only
    rw [hn]

/-- On a path that leads somewhere `create_dir_all` changes nothing. -/
theorem makeDirs_of_arrived (h : t.lookup pieces = .arrived d) :
    (t.makeDirs d.reverse).1 = ⟨t, []⟩ ∧
      ((t.makeDirs d.reverse).2 = .ok () → t.isDirAt d = true) := by
  have hself := lookup_arrived h
  have hgap : t.gap d.reverse = none := by
    cases hg : t.gap d.reverse with
    | none => rfl
    | some p =>
      have hmiss := lookup_of_gap (fun y hy => plain_of_lookup h y (List.mem_reverse.mp hy)) hg
      rw [List.reverse_reverse, hself] at hmiss
      obtain ⟨q, hq⟩ | hq := hmiss <;> cases hq
  obtain ⟨hsame, hdir⟩ := makeDirs_of_no_gap hgap
  refine ⟨hsame, fun hok => ?_⟩
  have hisDir := hdir hok
  rw [List.reverse_reverse, isDir, hself] at hisDir
  exact hisDir

end FileTree
