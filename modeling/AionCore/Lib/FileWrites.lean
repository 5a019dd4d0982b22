import AionCore.Lib.NamedEntries

/-!
# What a written file changes

A file that is created or overwritten changes its own content and nothing else that stands in the
tree, and every path still leads where it led.
-/

def Node.shape {γ : Type*} : Node γ → Node Unit
  | .dir => .dir
  | .file _ => .file ()
  | .link target => .link target

namespace FileTree

variable {γ : Type*} {t t' t'' : FileTree γ} {cur d p q o : Place} {x : String}
  {pieces rest path : List String} {n : ℕ} {content : γ}

variable (t t') in
def KeepsShape : Prop :=
  ∀ q, t.Stands q → t'.Stands q ∧ (t'.node q).map Node.shape = (t.node q).map Node.shape

theorem KeepsShape.refl (t : FileTree γ) : t.KeepsShape t := fun _ h => ⟨h, rfl⟩

theorem KeepsShape.trans (h : t.KeepsShape t') (h' : t'.KeepsShape t'') : t.KeepsShape t'' := by
  intro q hq
  obtain ⟨hq', hshape⟩ := h q hq
  obtain ⟨hq'', hshape'⟩ := h' q hq'
  exact ⟨hq'', hshape'.trans hshape⟩

theorem Keeps.shape (h : t.Keeps t') : t.KeepsShape t' := by
  intro q hq
  obtain ⟨hq', hnode⟩ := h q hq
  exact ⟨hq', congrArg _ hnode⟩

/-- A walk that finds all it looks for goes the same way. -/
theorem KeepsShape.advance (h : t.KeepsShape t') (hcur : t.RealDir cur)
    (hf : (t.advance cur pieces).Found) : t'.advance cur pieces = t.advance cur pieces := by
  induction pieces generalizing cur with
  | nil => rfl
  | cons x rest ih =>
    rcases piece_cases x with hskip | rfl | hx | ⟨hskip, hup, hx⟩
    · rw [advance_skip hskip] at hf ⊢
      rw [advance_skip hskip]
      exact ih hcur hf
    · rw [advance_up] at hf ⊢
      rw [advance_up]
      exact ih hcur.dropLast hf
    · rw [advance_plain hx] at hf ⊢
      rw [advance_plain hx]
      cases hn : t.node (cur ++ [x]) with
      | none =>
        rw [hn] at hf
        dsimp only at hf
        split at hf <;> cases hf
      | some node =>
        have hstands : t.Stands (cur ++ [x]) :=
          ⟨by simp, by rwa [List.dropLast_concat], by simp [hn]⟩
        obtain ⟨-, hshape⟩ := h _ hstands
        rw [hn] at hf hshape
        obtain ⟨node', hn', heq⟩ := Option.map_eq_some_iff.mp hshape
        rw [hn']
        cases node with
        | dir =>
          cases node' <;> cases heq
          exact ih (realDir_snoc.mpr ⟨hcur, hx, hn⟩) hf
        | file content | link target =>
          cases node' <;> cases heq
          rfl
    · rw [advance_bad hskip hup hx, advance_bad hskip hup hx]

theorem KeepsShape.follow (h : t.KeepsShape t') (hcur : t.RealDir cur)
    (hp : t.follow n cur pieces = .arrived p) : t'.follow n cur pieces = .arrived p := by
  induction n generalizing cur pieces with
  | zero =>
    rw [FileTree.follow] at hp ⊢
    cases hadvance : t.advance cur pieces with
    | link dir target rest => simp [hadvance] at hp
    | done goal =>
      simp only [hadvance] at hp
      rw [h.advance hcur (by rw [hadvance, hp]; trivial), hadvance]
      exact hp
  | succ n ih =>
    have hs : (t.advance cur pieces).Sound t := advance_sound hcur
    rw [FileTree.follow] at hp ⊢
    cases hadvance : t.advance cur pieces with
    | done goal =>
      simp only [hadvance] at hp
      rw [h.advance hcur (by rw [hadvance, hp]; trivial), hadvance]
      exact hp
    | link dir target rest =>
      simp only [hadvance] at hp hs
      rw [h.advance hcur (by rw [hadvance]; trivial), hadvance]
      apply ih
      · split
        · exact .nil
        · exact hs
      · exact hp

theorem KeepsShape.lookup (h : t.KeepsShape t') (hp : t.lookup pieces = .arrived p) :
    t'.lookup pieces = .arrived p :=
  h.follow .nil hp

/-- Another content in a file. -/
theorem put_file (hstands : t.Stands o) {old : γ} (hn : t.node o = some (.file old)) (content : γ)
    (hq : t.Stands q) : (t.put o (.file content)).Stands q ∧
      (q ≠ o → (t.put o (.file content)).node q = t.node q) := by
  have hdir : t.node o ≠ some .dir := by simp [hn]
  have hsame : q ≠ o → (t.put o (.file content)).node q = t.node q :=
    fun hne => put_node (hq.not_above hstands.1 hdir (Ne.symm hne)) _
  refine ⟨⟨hq.1, hq.2.1.put hstands.1 hdir _, ?_⟩, hsame⟩
  by_cases hne : q = o
  · rw [hne, put_node_self]
    simp
  · rw [hsame hne]
    exact hq.2.2

theorem keepsShape_put_file (hstands : t.Stands o) {old : γ} (hn : t.node o = some (.file old))
    (content : γ) : t.KeepsShape (t.put o (.file content)) := by
  intro q hq
  obtain ⟨hq', hsame⟩ := put_file hstands hn content hq
  refine ⟨hq', ?_⟩
  by_cases hne : q = o
  · rw [hne, put_node_self, hn]
    rfl
  · rw [hsame hne]

/-- A walk that meets a missing name arrives there once a file stands at it. -/
theorem advance_fill (hcur : t.RealDir cur) (ho : o ≠ []) (hn : t.node o = none)
    (h : t.advance cur pieces = .done (.absent o)) :
    (t.put o (.file content)).advance cur pieces = .done (.arrived o) := by
  induction pieces generalizing cur with
  | nil => cases h
  | cons x rest ih =>
    rcases piece_cases x with hskip | rfl | hx | ⟨hskip, hup, hx⟩
    · rw [advance_skip hskip] at h ⊢
      exact ih hcur h
    · rw [advance_up] at h ⊢
      exact ih hcur.dropLast h
    · rw [advance_plain hx] at h ⊢
      cases hnode : t.node (cur ++ [x]) with
      | none =>
        rw [hnode] at h
        dsimp only at h
        split at h
        · rename_i hrest
          obtain rfl := Goal.absent.inj (Progress.done.inj h)
          rw [put_node_self]
          rw [if_pos hrest]
        · cases h
      | some node =>
        rw [hnode] at h
        cases node with
        | file content =>
          dsimp only at h
          split at h <;> cases h
        | link target => cases h
        | dir =>
          have hreal : t.RealDir (cur ++ [x]) := realDir_snoc.mpr ⟨hcur, hx, hnode⟩
          rw [put_node (hreal.not_above ho (by simp [hn])), hnode]
          exact ih hreal h
    · rw [advance_bad hskip hup hx] at h
      cases h

theorem follow_fill (hcur : t.RealDir cur) (ho : o ≠ []) (hn : t.node o = none)
    (h : t.follow n cur pieces = .absent o) :
    (t.put o (.file content)).follow n cur pieces = .arrived o := by
  have hkeeps : t.KeepsShape (t.put o (.file content)) := (keeps_put ho hn _).shape
  induction n generalizing cur pieces with
  | zero =>
    rw [follow] at h ⊢
    cases hadvance : t.advance cur pieces with
    | link dir target rest => simp [hadvance] at h
    | done goal =>
      simp only [hadvance] at h
      rw [advance_fill hcur ho hn (hadvance.trans (congrArg _ h))]
  | succ n ih =>
    have hs : (t.advance cur pieces).Sound t := advance_sound hcur
    rw [follow] at h ⊢
    cases hadvance : t.advance cur pieces with
    | done goal =>
      simp only [hadvance] at h
      rw [advance_fill hcur ho hn (hadvance.trans (congrArg _ h))]
    | link dir target rest =>
      simp only [hadvance] at h hs
      rw [hkeeps.advance hcur (by rw [hadvance]; trivial), hadvance]
      apply ih
      · split
        · exact .nil
        · exact hs
      · exact h

/-- What a file that is opened for writing leads to, and what else changes. -/
structure Written (t t' : FileTree γ) (path : List String) (o : Place) (content : γ) : Prop where
  ne_nil : o ≠ []
  leads : t'.lookup path = .arrived o
  holds : t'.node o = some (.file content)
  shape : t.KeepsShape t'
  frame : ∀ q, t.Stands q → q ≠ o → t'.node q = t.node q

theorem written_put (h : t.openPlace path = .ok o) (content : γ) :
    t.Written (t.put o (.file content)) path o content := by
  rw [openPlace] at h
  split at h
  · rename_i place hl
    split at h
    · cases h
    · rename_i hdir
      obtain rfl := Except.ok.inj h
      have hs : Goal.Sound t (.arrived place) := hl ▸ lookup_sound
      rcases hs with hreal | ⟨d, x, old, rfl, hreal, hx, hn⟩
      · exact absurd hreal.isDirAt hdir
      · obtain ⟨hstands, -⟩ := stands_of_lookup hl (by simp)
        have hshape := keepsShape_put_file hstands hn content
        exact ⟨by simp, hshape.lookup hl, put_node_self _, hshape,
          fun q hq => (put_file hstands hn content hq).2⟩
  · rename_i place hl
    obtain rfl := Except.ok.inj h
    have hs : Goal.Sound t (.absent place) := hl ▸ lookup_sound
    obtain ⟨d, x, rfl, hreal, hx, hn⟩ := hs
    have hkeeps : t.Keeps (t.put (d ++ [x]) (.file content)) := keeps_put (by simp) hn _
    exact ⟨by simp, follow_fill .nil (by simp) hn hl, put_node_self _, hkeeps.shape,
      fun q hq _ => (hkeeps q hq).2⟩
  · cases h

variable (t) in
/-- The place at which a file is written that is created with the directories missing on the way to
it. -/
def createPlace (path : List String) : Option Place :=
  match t.makeDirs path.dropLast.reverse with
  | (_, .error _) => none
  | (made, .ok ()) => (made.tree.openPlace path).toOption

/-- A creation that fails leaves all that stands, and one that does not writes one file. -/
theorem create_cases (t : FileTree γ) (path : List String) (content : γ) :
    (∃ o, t.createPlace path = some o ∧ (t.create path content).2 = .ok () ∧
      t.Written (t.create path content).1.tree path o content) ∨
    t.createPlace path = none ∧ (∃ e, (t.create path content).2 = .error e) ∧
      t.Keeps (t.create path content).1.tree := by
  have hkeeps := makeDirs_keeps (t := t) path.dropLast.reverse
  rw [createPlace, create]
  generalize t.makeDirs path.dropLast.reverse = made at hkeeps
  obtain ⟨made, result⟩ := made
  cases result with
  | error e => exact .inr ⟨rfl, ⟨_, rfl⟩, hkeeps⟩
  | ok done =>
    dsimp only at hkeeps ⊢
    rw [write]
    cases hopen : made.tree.openPlace path with
    | error e => exact .inr ⟨rfl, ⟨_, rfl⟩, hkeeps⟩
    | ok o =>
      refine .inl ⟨o, rfl, rfl, ?_⟩
      obtain ⟨hne, hleads, hholds, hshape, hframe⟩ := written_put hopen content
      refine ⟨hne, hleads, hholds, hkeeps.shape.trans hshape, fun q hq hne => ?_⟩
      obtain ⟨hq', hnode⟩ := hkeeps q hq
      exact (hframe q hq' hne).trans hnode

end FileTree
