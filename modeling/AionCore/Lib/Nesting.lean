import Mathlib.Data.List.Basic

/-!
# Nesting

Openings and closings of elements, read with a stack. Around a part of what is properly nested an
element may be put, as long as the part has whole elements only, but for those of the same kind.
-/

namespace Nesting

variable {κ : Type*}

inductive Tag (κ : Type*) where
  | opening (k : κ)
  | closing (k : κ)

def Tag.kind : Tag κ → κ
  | .opening k => k
  | .closing k => k

variable [DecidableEq κ] (inside : Option κ → κ → Bool)

/-- The elements that are open after the tags; `inside` tells which may be opened within which. -/
def read (stack : List κ) : List (Tag κ) → Option (List κ)
  | [] => some stack
  | .opening k :: tags => if inside stack.head? k then read (k :: stack) tags else none
  | .closing k :: tags =>
    match stack with
    | [] => none
    | top :: stack => if top = k then read stack tags else none

def Closed (tags : List (Tag κ)) : Prop := read (fun _ _ => true) [] tags = some []

instance (tags : List (Tag κ)) : Decidable (Closed tags) := by
  unfold Closed
  infer_instance

variable {inside} {k : κ} {stack stack' : List κ} {tags tags' : List (Tag κ)}

theorem read_append : read inside stack (tags ++ tags') =
    (read inside stack tags).bind fun s => read inside s tags' := by
  induction tags generalizing stack with
  | nil => rfl
  | cons tag tags ih =>
    cases tag with
    | opening k =>
      simp only [List.cons_append, read]
      split
      · exact ih
      · rfl
    | closing k =>
      cases stack with
      | nil => rfl
      | cons top stack =>
        simp only [List.cons_append, read]
        split
        · exact ih
        · rfl

theorem read_append_eq_some (h : read inside stack (tags ++ tags') = some stack') :
    ∃ s, read inside stack tags = some s ∧ read inside s tags' = some stack' := by
  rw [read_append] at h
  exact Option.bind_eq_some_iff.mp h

def others (k : κ) (tags : List (Tag κ)) : List (Tag κ) := tags.filter (·.kind ≠ k)

theorem others_same (tag : Tag κ) (h : tag.kind = k) : others k (tag :: tags) = others k tags :=
  List.filter_cons_of_neg (by simp [h])

theorem others_ne (tag : Tag κ) (h : tag.kind ≠ k) :
    others k (tag :: tags) = tag :: others k tags :=
  List.filter_cons_of_pos (by simp [h])

omit [DecidableEq κ] in
theorem append_cons_of_forall {l l' : List κ} (h : ∀ j ∈ l, j = k) :
    l ++ k :: l' = k :: (l ++ l') := by
  induction l with
  | nil => rfl
  | cons j l ih =>
    obtain ⟨rfl, h⟩ := List.forall_mem_cons.mp h
    exact congrArg (List.cons j) (ih h)

/-- One more element below those that a part opens and closes, deep in the stack: `opened` are the
elements that the part has open, over those that were open before. -/
theorem read_below (hk : ∀ j, inside (some k) j = true) {opened below : List κ}
    (h : read inside (opened ++ below) tags = some stack')
    (hclosed : read (fun _ _ => true) (opened.filter (· ≠ k)) (others k tags) = some []) :
    read inside (opened ++ k :: below) tags = some (k :: stack') := by
  induction tags generalizing opened below with
  | nil =>
    obtain rfl := Option.some.inj h
    have hall : ∀ j ∈ opened, j = k := by
      have hnone := Option.some.inj hclosed
      intro j hj
      by_contra hne
      have hmem : j ∈ opened.filter (· ≠ k) := List.mem_filter.mpr ⟨hj, decide_eq_true hne⟩
      rw [hnone] at hmem
      cases hmem
    exact congrArg some (append_cons_of_forall hall)
  | cons tag tags ih =>
    cases tag with
    | opening j =>
      unfold read at h ⊢
      split at h
      · next hinside =>
        have htop : inside (opened ++ k :: below).head? j = true := by
          cases opened with
          | nil => exact hk j
          | cons top opened => exact hinside
        rw [if_pos htop]
        refine @ih (j :: opened) below h ?_
        by_cases hj : j = k
        · rw [others_same (.opening j) hj] at hclosed
          rwa [List.filter_cons_of_neg (by simp [hj])]
        · rw [others_ne (.opening j) hj] at hclosed
          rwa [List.filter_cons_of_pos (by simp [hj])]
      · cases h
    | closing j =>
      cases opened with
      | nil =>
        -- what was open before is closed: it is of the kind, and the new one takes its place
        by_cases hj : j = k
        · rw [others_same (.closing j) hj] at hclosed
          subst hj
          cases below with
          | nil => cases h
          | cons top below =>
            unfold read at h
            dsimp only [List.nil_append] at h
            split at h
            · next htop =>
              unfold read
              dsimp only [List.nil_append]
              rw [if_pos rfl, htop]
              exact @ih [] below h hclosed
            · cases h
        · rw [others_ne (.closing j) hj] at hclosed
          cases hclosed
      | cons top opened =>
        unfold read at h ⊢
        dsimp only [List.cons_append] at h ⊢
        split at h
        · next htop =>
          subst htop
          rw [if_pos rfl]
          refine ih h ?_
          by_cases hj : top = k
          · rwa [others_same (.closing top) hj, List.filter_cons_of_neg (by simp [hj])] at hclosed
          · rw [others_ne (.closing top) hj, List.filter_cons_of_pos (by simp [hj]), read]
              at hclosed
            rwa [if_pos rfl] at hclosed
        · cases h

theorem read_around (hk : ∀ j, inside (some k) j = true) (htop : inside stack.head? k = true)
    (hclosed : Closed (others k tags)) (h : read inside stack tags = some stack') :
    read inside stack (.opening k :: tags ++ [.closing k]) = some stack' := by
  have hbelow : read inside ([] ++ k :: stack) tags = some (k :: stack') :=
    read_below hk h hclosed
  rw [List.nil_append] at hbelow
  rw [List.cons_append, read, if_pos htop, read_append, hbelow]
  simp [read]

end Nesting
