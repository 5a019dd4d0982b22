import AionCore.Lib.FileTree

/-!
# What system calls change

Where a file lands that is created with the directories that are missing on the way to
it, and what each call leaves alone. A new directory is empty and stands in a real
directory, so everything that is created after it stands under it.
-/

namespace FileTree

variable {γ : Type*} {t : FileTree γ} {cur d p q : Place} {x : String}
  {pieces rest : List String} {n : ℕ}

theorem RealDir.not_above (h : t.RealDir q) (hp : p ≠ []) (hn : t.node p ≠ some .dir) :
    ¬p <+: q := by
  intro hpq
  obtain ⟨d, x, rfl⟩ := (List.eq_nil_or_concat p).resolve_left hp
  rw [List.concat_eq_append] at hpq hn
  exact hn (h d x hpq).2

theorem RealDir.not_prefix_name (h : t.RealDir q) (hp : p ≠ []) (hn : t.node p = none)
    (hq : t.node (q ++ [x]) ≠ none) : ¬p <+: q ++ [x] := by
  intro hpq
  rcases List.prefix_concat_iff.mp hpq with he | hpq
  · rw [he] at hn
    exact hq hn
  · exact h.not_above hp (by simp [hn]) hpq

theorem put_node (hpq : ¬p <+: q) (node : Node γ) : (t.put p node).node q = t.node q := by
  have hne : q ≠ p := by
    rintro rfl
    exact hpq List.prefix_rfl
  show (if q = p then some node else if p <+: q then none else t.node q) = _
  rw [if_neg hne, if_neg hpq]

theorem put_node_self (node : Node γ) : (t.put p node).node p = some node := if_pos rfl

theorem put_node_under (node : Node γ) : (t.put p node).node (p ++ [x]) = none := by
  show (if p ++ [x] = p then some node else if p <+: p ++ [x] then none else _) = _
  rw [if_neg (by simp), if_pos (List.prefix_append p [x])]

theorem RealDir.put (h : t.RealDir q) (hp : p ≠ []) (hn : t.node p ≠ some .dir)
    (node : Node γ) : (t.put p node).RealDir q := by
  intro d x hd
  refine ⟨(h d x hd).1, ?_⟩
  rw [put_node fun hpd => h.not_above hp hn (hpd.trans hd)]
  exact (h d x hd).2

def Progress.Found : Progress → Prop
  | .done (.arrived _) | .link _ _ _ => True
  | _ => False

/-- What is put at a missing name changes no walk that finds all it looks for. -/
theorem advance_put (h : t.RealDir cur) (hp : p ≠ []) (hn : t.node p = none) (node : Node γ)
    (hf : (t.advance cur pieces).Found) :
    (t.put p node).advance cur pieces = t.advance cur pieces := by
  induction pieces generalizing cur with
  | nil => rfl
  | cons x rest ih =>
    rcases piece_cases x with hskip | rfl | hx | ⟨hskip, hup, hx⟩
    · rw [advance_skip hskip] at hf ⊢
      rw [advance_skip hskip]
      exact ih h hf
    · rw [advance_up] at hf ⊢
      rw [advance_up]
      exact ih h.dropLast hf
    · rw [advance_plain hx] at hf ⊢
      rw [advance_plain hx]
      have hsome : t.node (cur ++ [x]) ≠ none := by
        intro hnone
        rw [hnone] at hf
        dsimp only at hf
        split at hf <;> exact hf
      rw [put_node (h.not_prefix_name hp hn hsome)]
      cases hq : t.node (cur ++ [x]) with
      | none => rfl
      | some m =>
        cases m with
        | dir =>
          rw [hq] at hf
          exact ih (realDir_snoc.mpr ⟨h, hx, hq⟩) hf
        | file c => rfl
        | link target => rfl
    · rw [advance_bad hskip hup hx, advance_bad hskip hup hx]

theorem follow_put {r : Place} (h : t.RealDir cur) (hp : p ≠ []) (hn : t.node p = none)
    (node : Node γ) (hr : t.follow n cur pieces = .arrived r) :
    (t.put p node).follow n cur pieces = .arrived r := by
  induction n generalizing cur pieces with
  | zero =>
    have hf : (t.advance cur pieces).Found := by
      rw [follow] at hr
      cases hpr : t.advance cur pieces with
      | link dir target rest => trivial
      | done goal =>
        simp only [hpr] at hr
        rw [hr]
        trivial
    rw [follow] at hr ⊢
    rw [advance_put h hp hn node hf]
    exact hr
  | succ n ih =>
    have hs : (t.advance cur pieces).Sound t := advance_sound h
    rw [follow] at hr ⊢
    cases hpr : t.advance cur pieces with
    | done goal =>
      simp only [hpr] at hr
      rw [advance_put h hp hn node (by rw [hpr, hr]; trivial), hpr, hr]
    | link dir target rest =>
      simp only [hpr] at hr hs
      rw [advance_put h hp hn node (by rw [hpr]; trivial), hpr]
      apply ih
      · split
        · exact .nil
        · exact hs
      · exact hr

/-- Where the first gap of a path is. -/
theorem gap_cons {above : List String} (h : t.gap (x :: above) = some p) :
    t.gap above = some p ∨ t.gap above = none ∧ ∃ d, t.lookup above.reverse = .arrived d ∧
      t.RealDir d ∧ t.node (d ++ [x]) = none ∧ p = d ++ [x] := by
  rw [gap] at h
  cases hg : t.gap above with
  | some q =>
    rw [hg] at h
    exact .inl h
  | none =>
    simp only [hg] at h
    split at h
    · rename_i d hd
      split at h
      · rename_i hc
        exact .inr ⟨rfl, d, hd, realDir_of_lookup hd hc.1, Option.isNone_iff_eq_none.mp hc.2,
          (Option.some.inj h).symm⟩
      · cases h
    · cases h

variable {l : List String}

/-- A path with a gap leads nowhere. -/
theorem lookup_of_gap (hl : ∀ x ∈ l, Plain x) (h : t.gap l = some p) :
    (∃ q, t.lookup l.reverse = .absent q) ∨ t.lookup l.reverse = .failed .noEnt := by
  induction l with
  | nil => cases h
  | cons x above ih =>
    rw [List.reverse_cons]
    rcases gap_cons h with hg | ⟨-, d, hd, hreal, hn, -⟩
    · exact .inr (follow_extend_missing [x] (by simp) .nil
        (ih (fun y hy => hl y (List.mem_cons_of_mem x hy)) hg))
    · obtain ⟨m, hm⟩ := follow_extend [x] (by simp) .nil hd hreal
      refine .inl ⟨d ++ [x], hm.trans ?_⟩
      rw [follow_name (hl x List.mem_cons_self) (by simp [hn]), hn]

section

variable (h : t.lookup pieces = .arrived d)
include h

theorem entryPlace_snoc (hd : t.RealDir d) (hx : Plain x) :
    t.entryPlace (pieces ++ [x]) = .ok (d ++ [x]) := by
  rw [entryPlace, List.getLast?_concat, List.dropLast_concat, h]
  dsimp only
  rw [if_neg (by simp [hd.isDirAt]), if_neg (not_not.mpr hx)]

theorem makeDir_eq (hd : t.RealDir d) (hx : Plain x) (hn : t.node (d ++ [x]) = none) :
    t.makeDir (pieces ++ [x]) = .ok ⟨t.put (d ++ [x]) .dir, [d ++ [x]]⟩ := by
  rw [makeDir, entryPlace_snoc h hd hx]
  dsimp only
  rw [hn]

/-- A new directory is where its path leads, and it is empty. -/
theorem lookup_put_dir (hd : t.RealDir d) (hx : Plain x) (hn : t.node (d ++ [x]) = none) :
    (t.put (d ++ [x]) .dir).lookup (pieces ++ [x]) = .arrived (d ++ [x]) ∧
      (t.put (d ++ [x]) .dir).RealDir (d ++ [x]) := by
  have hne : d ++ [x] ≠ [] := by simp
  have hd' : (t.put (d ++ [x]) .dir).RealDir d := hd.put hne (by simp [hn]) .dir
  have hl : (t.put (d ++ [x]) .dir).lookup pieces = .arrived d := follow_put .nil hne hn .dir h
  obtain ⟨m, hm⟩ := follow_extend [x] (by simp) .nil hl hd'
  have hself : (t.put (d ++ [x]) .dir).node (d ++ [x]) = some .dir := put_node_self .dir
  refine ⟨hm.trans ?_, realDir_snoc.mpr ⟨hd', hx, hself⟩⟩
  rw [follow_name hx (by simp [hself]), hself]

end

variable (t) in
/-- What `create_dir_all` has done when it met a first missing directory. -/
structure Made (l : List String) (p : Place) : Prop where
  ok : (t.makeDirs l).2 = .ok ()
  touched : ∃ rest, (t.makeDirs l).1.touched = p :: rest ∧ ∀ q ∈ rest, p <+: q
  place : ∃ d, (t.makeDirs l).1.tree.lookup l.reverse = .arrived d ∧
    (t.makeDirs l).1.tree.RealDir d ∧ p <+: d ∧
    ∀ x, (t.makeDirs l).1.tree.node (d ++ [x]) = none
  frame : ∀ q, ¬p <+: q → (t.makeDirs l).1.tree.node q = t.node q

theorem made_of_gap (hl : ∀ x ∈ l, Plain x) (h : t.gap l = some p) :
    t.Made l p := by
  induction l with
  | nil => cases h
  | cons x above ih =>
    have hx : Plain x := hl x List.mem_cons_self
    have hl' : ∀ y ∈ above, Plain y := fun y hy => hl y (List.mem_cons_of_mem x hy)
    have hrev : (x :: above).reverse = above.reverse ++ [x] := List.reverse_cons
    rcases gap_cons h with hg | ⟨-, d, hd, hreal, hn, rfl⟩
    · -- the directory above is created first, and this one in it
      obtain ⟨hok, ⟨rest, ht, hrest⟩, ⟨d, hd, hreal, hpd, hempty⟩, hframe⟩ := ih hl' hg
      have hfirst : t.makeDir (x :: above).reverse = .error .noEnt := by
        rw [makeDir, hrev, entryPlace, List.getLast?_concat, List.dropLast_concat]
        rcases lookup_of_gap hl' hg with ⟨q, hq⟩ | hq <;> rw [hq]
      have hlast := makeDir_eq hd hreal hx (hempty x)
      have hdirs : t.makeDirs (x :: above) =
          (⟨(t.makeDirs above).1.tree.put (d ++ [x]) .dir, (p :: rest) ++ [d ++ [x]]⟩,
            .ok ()) := by
        rw [makeDirs, hfirst]
        rw [hrev]
        revert hok hlast ht
        generalize t.makeDirs above = made
        obtain ⟨done, result⟩ := made
        rintro rfl hlast ht
        dsimp only at hlast ht ⊢
        rw [hlast, ht]
      have hpx : p <+: d ++ [x] := hpd.trans (List.prefix_append d [x])
      obtain ⟨hl1, hreal1⟩ := lookup_put_dir hd hreal hx (hempty x)
      constructor
      · rw [hdirs]
      · refine ⟨rest ++ [d ++ [x]], by rw [hdirs]; rfl, fun q hq => ?_⟩
        rcases List.mem_append.mp hq with hq | hq
        · exact hrest q hq
        · rw [List.mem_singleton.mp hq]
          exact hpx
      · rw [hdirs, hrev]
        exact ⟨d ++ [x], hl1, hreal1, hpx, fun y => put_node_under .dir⟩
      · intro q hq
        rw [hdirs]
        exact (put_node (fun h => hq (hpx.trans h)) .dir).trans (hframe q hq)
    · have hdirs : t.makeDirs (x :: above) =
          (⟨t.put (d ++ [x]) .dir, [d ++ [x]]⟩, .ok ()) := by
        rw [makeDirs, hrev, makeDir_eq hd hreal hx hn]
      obtain ⟨hl1, hreal1⟩ := lookup_put_dir hd hreal hx hn
      constructor
      · rw [hdirs]
      · exact ⟨[], by rw [hdirs], by simp⟩
      · rw [hdirs, hrev]
        exact ⟨d ++ [x], hl1, hreal1, List.prefix_rfl, fun y => put_node_under .dir⟩
      · intro q hq
        rw [hdirs]
        exact put_node hq .dir

theorem isDir_iff : t.isDir pieces = true ↔ ∃ d, t.lookup pieces = .arrived d ∧ t.RealDir d := by
  rw [isDir]
  cases h : t.lookup pieces with
  | arrived d =>
    constructor
    · exact fun hd => ⟨d, rfl, realDir_of_lookup h hd⟩
    · rintro ⟨d', hd', hreal⟩
      obtain rfl := Goal.arrived.inj hd'
      exact hreal.isDirAt
  | absent p => simp
  | failed e => simp

/-- Without a gap `create_dir_all` changes nothing, and it succeeds on directories only. -/
theorem makeDirs_of_no_gap (h : t.gap l = none) :
    (t.makeDirs l).1 = ⟨t, []⟩ ∧ ((t.makeDirs l).2 = .ok () → t.isDir l.reverse = true) := by
  induction l with
  | nil => exact ⟨rfl, fun _ => isDir_iff.mpr ⟨[], rfl, .nil⟩⟩
  | cons x above ih =>
    have hrev : (x :: above).reverse = above.reverse ++ [x] := List.reverse_cons
    rw [gap] at h
    cases hg : t.gap above with
    | some p => simp [hg] at h
    | none =>
      simp only [hg] at h
      obtain ⟨hsame, hdir⟩ := ih hg
      -- no directory is created here: the name is taken, or the path is broken above
      have hfirst : ∀ done, t.makeDir (x :: above).reverse ≠ .ok done := by
        intro done
        rw [makeDir, hrev, entryPlace, List.getLast?_concat, List.dropLast_concat]
        cases hl : t.lookup above.reverse with
        | absent q => simp
        | failed e => simp
        | arrived d =>
          simp only [hl] at h
          by_cases hd : t.isDirAt d = true
          · have hsome : t.node (d ++ [x]) ≠ none := by
              intro hn
              simp [hd, hn] at h
            by_cases hx : Plain x
            · simp only [hd, not_true, if_false, hx]
              cases hn : t.node (d ++ [x]) with
              | none => exact absurd hn hsome
              | some n => simp
            · simp [hd, hx]
          · simp [hd]
      rw [makeDirs]
      split
      · rename_i done hdone
        exact absurd hdone (hfirst done)
      · rename_i hnoent
        revert hsame hdir
        generalize t.makeDirs above = made
        obtain ⟨done, result⟩ := made
        rintro rfl hdir
        cases result with
        | error e => exact ⟨rfl, by simp⟩
        | ok u =>
          have hd : t.isDir above.reverse = true := hdir rfl
          obtain ⟨d, hl, hreal⟩ := isDir_iff.mp hd
          -- the directory above stands, so its child was not missing
          rw [makeDir, hrev, entryPlace, List.getLast?_concat, List.dropLast_concat, hl] at hnoent
          simp only [hreal.isDirAt, not_true, if_false] at hnoent
          split at hnoent
          · rename_i he
            split at he <;> simp_all
          · split at hnoent <;> simp_all
      · refine ⟨rfl, fun hok => ?_⟩
        by_contra hd
        rw [if_neg hd] at hok
        cases hok

/-- On a directory `create_dir_all` does nothing. -/
theorem makeDirs_of_isDir (h : t.isDir l.reverse = true) :
    t.makeDirs l = (⟨t, []⟩, .ok ()) := by
  cases l with
  | nil => rfl
  | cons x above =>
    have hrev : (x :: above).reverse = above.reverse ++ [x] := List.reverse_cons
    obtain ⟨place, hplace, -⟩ := isDir_iff.mp h
    rw [hrev] at hplace
    have hnoent : t.makeDir (x :: above).reverse ≠ .error .noEnt ∧
        ∀ done, t.makeDir (x :: above).reverse ≠ .ok done := by
      rw [makeDir, hrev, entryPlace, List.getLast?_concat, List.dropLast_concat]
      cases hl : t.lookup above.reverse with
      | absent q =>
        have hmiss := follow_extend_missing [x] (by simp) .nil (.inl ⟨q, hl⟩)
        cases hplace.symm.trans hmiss
      | failed e =>
        refine ⟨fun he => ?_, by simp⟩
        obtain rfl : e = .noEnt := by simpa using he
        have hmiss := follow_extend_missing [x] (by simp) .nil (.inr hl)
        cases hplace.symm.trans hmiss
      | arrived d =>
        by_cases hd : t.isDirAt d = true
        · by_cases hx : Plain x
          · cases hn : t.node (d ++ [x]) with
            | some n => simp [hd, hx, hn]
            | none =>
              obtain ⟨m, hm⟩ := follow_extend [x] (by simp) .nil hl
                (realDir_of_lookup hl hd)
              rw [follow_name hx (by simp [hn]), hn] at hm
              cases hplace.symm.trans hm
          · simp [hd, hx]
        · simp [hd]
    rw [makeDirs]
    split
    · rename_i done hdone
      exact absurd hdone (hnoent.2 done)
    · rename_i he
      exact absurd he hnoent.1
    · rw [if_pos h]

variable {path : List String}

/-- A file is created at its landing place and under it, and nothing changes if it has none. -/
theorem create_touched (hpath : ∀ x ∈ path, Plain x) (content : γ) :
    (t.landing path = none → (t.create path content).1 = ⟨t, []⟩) ∧
    ∀ p, t.landing path = some p →
      ∃ rest, (t.create path content).1.touched = p :: rest ∧ ∀ q ∈ rest, p <+: q := by
  have hplain : ∀ x ∈ path.dropLast.reverse, Plain x :=
    fun x hx => hpath x (List.mem_of_mem_dropLast (List.mem_reverse.mp hx))
  rw [landing, create]
  cases hg : t.gap path.dropLast.reverse with
  | some p =>
    refine ⟨by simp, fun p' hp' => ?_⟩
    obtain rfl : p = p' := by simpa using hp'
    obtain ⟨hok, ⟨rest, ht, hrest⟩, ⟨d, hd, hreal, hpd, hempty⟩, -⟩ := made_of_gap hplain hg
    obtain ⟨par, x, rfl⟩ : ∃ par x, path = par ++ [x] := by
      rcases List.eq_nil_or_concat path with rfl | ⟨par, x, rfl⟩
      · cases hg
      · exact ⟨par, x, List.concat_eq_append⟩
    rw [List.dropLast_concat] at hok ht hd hreal hempty ⊢
    rw [List.reverse_reverse] at hd
    -- the file is new in a new directory
    have hx : Plain x := hpath x (by simp)
    have hopen : (t.makeDirs par.reverse).1.tree.openPlace (par ++ [x]) = .ok (d ++ [x]) := by
      obtain ⟨m, hm⟩ := follow_extend [x] (by simp) .nil hd hreal
      rw [follow_name hx (by simp [hempty]), hempty] at hm
      have hm' : (t.makeDirs par.reverse).1.tree.lookup (par ++ [x]) = .absent (d ++ [x]) := hm
      rw [openPlace, hm']
    revert hok ht hopen
    generalize t.makeDirs par.reverse = made
    obtain ⟨done, result⟩ := made
    rintro rfl ht hopen
    dsimp only at ht hopen ⊢
    rw [write, hopen, ht]
    refine ⟨rest ++ [d ++ [x]], rfl, fun q hq => ?_⟩
    rcases List.mem_append.mp hq with hq | hq
    · exact hrest q hq
    · rw [List.mem_singleton.mp hq]
      exact hpd.trans (List.prefix_append d [x])
  | none =>
    obtain ⟨hsame, hdir⟩ := makeDirs_of_no_gap hg
    rw [List.reverse_reverse] at hdir
    by_cases hd : t.isDir path.dropLast = true
    · rw [if_pos hd, makeDirs_of_isDir (by rwa [List.reverse_reverse])]
      dsimp only
      rw [write]
      cases hopen : t.openPlace path with
      | error e => exact ⟨fun _ => rfl, fun p hp => by cases hp⟩
      | ok q =>
        refine ⟨fun hno => (by cases hno), fun p hp => ⟨[], ?_, by simp⟩⟩
        obtain rfl : q = p := by simpa [Except.toOption] using hp
        rfl
    · rw [if_neg hd]
      refine ⟨fun _ => ?_, fun p hp => by cases hp⟩
      revert hsame hdir
      generalize t.makeDirs path.dropLast.reverse = made
      obtain ⟨done, result⟩ := made
      rintro rfl hdir
      cases result with
      | error e => rfl
      | ok u => exact absurd (hdir rfl) hd

/-- The names of a place that a path leads to. -/
theorem plain_of_lookup (h : t.lookup pieces = .arrived p) : ∀ x ∈ p, Plain x := by
  have hreal : ∀ d, t.RealDir d → ∀ x ∈ d, Plain x := by
    intro d hd x hx
    obtain ⟨above, below, rfl⟩ := List.append_of_mem hx
    exact (hd above x ⟨below, by simp⟩).1
  have hs : Goal.Sound t (.arrived p) := h ▸ lookup_sound
  rcases hs with hr | ⟨d, x, c, rfl, hd, hx, -⟩
  · exact hreal p hr
  · intro y hy
    rcases List.mem_append.mp hy with hy | hy
    · exact hreal d hd y hy
    · rw [List.mem_singleton.mp hy]
      exact hx

theorem follow_dir_name (hd : t.RealDir d) (hx : Plain x)
    (hlink : ∀ target, t.node (d ++ [x]) ≠ some (.link target)) :
    t.lookup (d ++ [x]) = (match t.node (d ++ [x]) with
      | none => .absent (d ++ [x])
      | some _ => .arrived (d ++ [x])) := by
  rw [lookup_append hd]
  refine (follow_name hx hlink).trans ?_
  cases t.node (d ++ [x]) <;> rfl

theorem lookup_arrived (h : t.lookup pieces = .arrived p) : t.lookup p = .arrived p := by
  have hs : Goal.Sound t (.arrived p) := h ▸ lookup_sound
  rcases hs with hr | ⟨d, x, c, rfl, hd, hx, hn⟩
  · exact lookup_realDir hr
  · rw [follow_dir_name hd hx (by simp [hn]), hn]

theorem lookup_under_file (h : t.lookup pieces = .arrived p) (hp : ¬t.isDirAt p = true) :
    t.lookup (p ++ [x]) = .failed .notDir := by
  have hs : Goal.Sound t (.arrived p) := h ▸ lookup_sound
  rcases hs with hr | ⟨d, y, c, rfl, hd, hy, hn⟩
  · exact absurd hr.isDirAt hp
  · rw [List.append_assoc, lookup_append hd, follow, List.singleton_append, advance_plain hy, hn]
    rfl

/-- A name in a place that a path leads to opens itself, unless it is a link. -/
theorem openPlace_name (h : t.lookup pieces = .arrived d)
    (hopen : t.openPlace (d ++ [x]) = .ok q)
    (hlink : ∀ target, t.node (d ++ [x]) ≠ some (.link target)) : q = d ++ [x] := by
  rw [openPlace] at hopen
  by_cases hd : t.isDirAt d = true
  · have hreal := realDir_of_lookup h hd
    rcases piece_cases x with hskip | rfl | hx | ⟨hskip, hup, hx⟩
    · rw [lookup_append hreal, follow, advance_skip hskip, advance] at hopen
      simp [hd] at hopen
    · rw [lookup_append hreal, follow, advance_up, advance] at hopen
      simp [hreal.dropLast.isDirAt] at hopen
    · rw [follow_dir_name hreal hx hlink] at hopen
      cases hn : t.node (d ++ [x]) with
      | none => simpa [hn, eq_comm] using hopen
      | some n =>
        simp only [hn] at hopen
        split at hopen
        · cases hopen
        · exact (Except.ok.inj hopen).symm
    · rw [lookup_append hreal, follow, advance_bad hskip hup hx] at hopen
      cases hopen
  · rw [lookup_under_file h hd] at hopen
    cases hopen

theorem prune_node (hpq : ¬p <+: q) : (t.prune p).node q = t.node q := if_neg hpq

theorem graft_node {r : Place} (hpr : ¬p <+: r) (hqr : ¬q <+: r) :
    (t.graft p q).node r = t.node r :=
  (if_neg hqr).trans (if_neg hpr)

def Effect.Frames (t : FileTree γ) (done : Effect γ) : Prop :=
  ∀ q, (∀ p ∈ done.touched, ¬p <+: q) → done.tree.node q = t.node q

theorem write_frames {content : γ} {done : Effect γ} (h : t.write path content = .ok done) :
    done.Frames t := by
  rw [write] at h
  cases ho : t.openPlace path with
  | error e => simp [ho] at h
  | ok p =>
    simp only [ho, Except.ok.injEq] at h
    rw [← h]
    exact fun q hq => put_node (hq p List.mem_cons_self) _

theorem Effect.Frames.refl (t : FileTree γ) : Effect.Frames t ⟨t, []⟩ := fun _ _ => rfl

theorem Effect.Frames.trans {done last : Effect γ} (h : done.Frames t)
    (h' : last.Frames done.tree) : Effect.Frames t ⟨last.tree, done.touched ++ last.touched⟩ :=
  fun q hq => (h' q fun p hp => hq p (List.mem_append_right _ hp)).trans
    (h q fun p hp => hq p (List.mem_append_left _ hp))

theorem makeDir_frames {done : Effect γ} (h : t.makeDir path = .ok done) : done.Frames t := by
  rw [makeDir] at h
  cases he : t.entryPlace path with
  | error e => simp [he] at h
  | ok p =>
    simp only [he] at h
    split at h
    · cases h
    · rw [← Except.ok.inj h]
      exact fun q hq => put_node (hq p List.mem_cons_self) _

theorem makeDirs_frames (l : List String) : (t.makeDirs l).1.Frames t := by
  induction l with
  | nil => exact .refl t
  | cons x above ih =>
    rw [makeDirs]
    split
    · rename_i done hdone
      exact makeDir_frames hdone
    · revert ih
      generalize t.makeDirs above = made
      obtain ⟨done, result⟩ := made
      intro ih
      cases result with
      | error e => exact ih
      | ok u =>
        dsimp only
        split
        · rename_i last hlast
          exact ih.trans (makeDir_frames hlast)
        · exact ih
    · exact .refl t

theorem create_frames (path : List String) (content : γ) : (t.create path content).1.Frames t := by
  have hdirs := makeDirs_frames (t := t) path.dropLast.reverse
  rw [create]
  revert hdirs
  generalize t.makeDirs path.dropLast.reverse = made
  obtain ⟨done, result⟩ := made
  intro hdirs
  cases result with
  | error e => exact hdirs
  | ok u =>
    dsimp only
    split
    · exact hdirs
    · rename_i last hlast
      exact hdirs.trans (write_frames hlast)

theorem unlink_frames {done : Effect γ} (h : t.unlink path = .ok done) : done.Frames t := by
  rw [unlink] at h
  cases he : t.entryPlace path with
  | error e => simp [he] at h
  | ok p =>
    simp only [he] at h
    split at h
    · cases h
    · cases h
    · rw [← Except.ok.inj h]
      exact fun q hq => prune_node (hq p List.mem_cons_self)

end FileTree
