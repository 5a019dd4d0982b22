import Mathlib.Data.List.Basic
import Mathlib.Data.List.Nodup

/-!
# Tables with a primary key

A table is a list of rows in the order of their insertion, no two with one key. What a query by
the key finds, what an update of one row and an insertion leave as it was.
-/

namespace Table

variable {ρ κ : Type*} (key : ρ → κ) (rows : List ρ) (k : κ)

/-- No two rows have one key. -/
def Distinct : Prop := (rows.map key).Nodup

theorem Distinct.inj {key : ρ → κ} {rows : List ρ} {r r' : ρ} (h : Distinct key rows)
    (hr : r ∈ rows) (hr' : r' ∈ rows) (hk : key r = key r') : r = r' :=
  List.inj_on_of_nodup_map h hr hr' hk

theorem Distinct.count_of_mem [DecidableEq κ] {key : ρ → κ} {rows : List ρ} {r : ρ}
    (h : Distinct key rows) (hr : r ∈ rows) : (rows.map key).count (key r) = 1 :=
  List.count_eq_one_of_mem h (List.mem_map_of_mem hr)

theorem Distinct.count_of_notMem [DecidableEq κ] {key : ρ → κ} {rows some : List ρ} {r : ρ}
    (h : Distinct key rows) (hsome : ∀ r ∈ some, r ∈ rows) (hr : r ∈ rows) (hn : r ∉ some) :
    (some.map key).count (key r) = 0 := by
  refine List.count_eq_zero_of_not_mem fun hk => ?_
  obtain ⟨r', hr', hkey⟩ := List.mem_map.mp hk
  exact hn (h.inj (hsome r' hr') hr hkey ▸ hr')

variable [DecidableEq κ]

/-- The row with the key. -/
def find : Option ρ := rows.find? fun r => key r = k

/-- Change the row with the key. -/
def modify (f : ρ → ρ) : List ρ := rows.map fun r => if key r = k then f r else r

variable {key rows k} {f : ρ → ρ} {r r' : ρ}

theorem mem_of_find (h : find key rows k = some r) : r ∈ rows := List.mem_of_find?_eq_some h

theorem key_of_find (h : find key rows k = some r) : key r = k := by
  simpa using List.find?_some h

theorem find_eq_some (h : Distinct key rows) : find key rows k = some r ↔ r ∈ rows ∧ key r = k := by
  constructor
  · intro hr
    exact ⟨mem_of_find hr, key_of_find hr⟩
  · rintro ⟨hr, hk⟩
    cases hfind : find key rows k with
    | none => exact absurd (decide_eq_true hk) (List.find?_eq_none.mp hfind r hr)
    | some r' =>
      have hk' : key r' = key r := (key_of_find hfind).trans hk.symm
      rw [h.inj (mem_of_find hfind) hr hk']

theorem find_eq_none : find key rows k = none ↔ ∀ r ∈ rows, key r ≠ k := by
  rw [find, List.find?_eq_none]
  simp

theorem find_modify (hf : ∀ r, key r = k → key (f r) = k) :
    find key (modify key rows k f) k = (find key rows k).map f := by
  induction rows with
  | nil => rfl
  | cons r rows ih =>
    unfold find modify at ih ⊢
    rw [List.map_cons]
    by_cases hk : key r = k
    · rw [if_pos hk, List.find?_cons_of_pos (by simpa using hf r hk),
        List.find?_cons_of_pos (by simpa using hk)]
      rfl
    · rw [if_neg hk, List.find?_cons_of_neg (by simpa using hk),
        List.find?_cons_of_neg (by simpa using hk)]
      exact ih

theorem mem_modify :
    r ∈ modify key rows k f ↔ (r ∈ rows ∧ key r ≠ k) ∨ ∃ r₀ ∈ rows, key r₀ = k ∧ f r₀ = r := by
  rw [modify, List.mem_map]
  constructor
  · rintro ⟨r₀, hr₀, rfl⟩
    by_cases hk : key r₀ = k
    · rw [if_pos hk]
      exact .inr ⟨r₀, hr₀, hk, rfl⟩
    · rw [if_neg hk]
      exact .inl ⟨hr₀, hk⟩
  · rintro (⟨hr, hk⟩ | ⟨r₀, hr₀, hk, rfl⟩)
    · exact ⟨r, hr, if_neg hk⟩
    · exact ⟨r₀, hr₀, if_pos hk⟩

/-- In a table with distinct keys the rows after an update are the others and the one updated. -/
theorem Distinct.mem_modify_of_find (h : Distinct key rows) (hfind : find key rows k = some r') :
    r ∈ modify key rows k f ↔ (r ∈ rows ∧ key r ≠ k) ∨ r = f r' := by
  rw [mem_modify]
  constructor
  · rintro (hr | ⟨r₀, hr₀, hk, rfl⟩)
    · exact .inl hr
    · have heq : r₀ = r' := h.inj hr₀ (mem_of_find hfind) (hk.trans (key_of_find hfind).symm)
      exact .inr (congrArg f heq)
  · rintro (hr | rfl)
    · exact .inl hr
    · exact .inr ⟨r', mem_of_find hfind, key_of_find hfind, rfl⟩

theorem map_key_modify (hf : ∀ r, key r = k → key (f r) = key r) :
    (modify key rows k f).map key = rows.map key := by
  rw [modify, List.map_map]
  apply List.map_congr_left
  intro r _
  show key (if key r = k then f r else r) = key r
  split
  · next hk => exact hf r hk
  · rfl

theorem Distinct.modify (h : Distinct key rows) (hf : ∀ r, key r = k → key (f r) = key r) :
    Distinct key (modify key rows k f) := by
  unfold Distinct
  rw [map_key_modify hf]
  exact h

theorem Distinct.insert (h : Distinct key rows) (hfree : find key rows (key r) = none) :
    Distinct key (rows ++ [r]) := by
  unfold Distinct
  rw [List.map_append, List.nodup_append]
  refine ⟨h, List.nodup_singleton _, ?_⟩
  rintro k hk k' hk' rfl
  obtain ⟨r₀, hr₀, rfl⟩ := List.mem_map.mp hk
  exact find_eq_none.mp hfree r₀ hr₀ (List.mem_singleton.mp hk')

end Table
