import Mathlib.Data.List.Basic

/-!
# Registries

A list whose entries are named by their position: entries are added at the end and changed in
place, so a position goes on naming the same entry. What stands at a position after a change.
-/

namespace Registry

variable {α : Type*} {l : List α} {a b : α} {j k : ℕ}

theorem lt_of_getElem? (h : l[k]? = some a) : k < l.length :=
  (List.getElem?_eq_some_iff.mp h).1

theorem getElem?_add : (l ++ [b])[j]? = some a ↔ l[j]? = some a ∨ j = l.length ∧ a = b := by
  rw [List.getElem?_append]
  split
  · rename_i hlt
    constructor
    · exact Or.inl
    · rintro (h | ⟨h, -⟩)
      · exact h
      · omega
  · rename_i hge
    have hnone : l[j]? = none := List.getElem?_eq_none (by omega)
    rw [hnone, List.getElem?_singleton]
    constructor
    · intro h
      split at h
      · exact .inr ⟨by omega, (Option.some.inj h).symm⟩
      · cases h
    · rintro (h | ⟨h, rfl⟩)
      · cases h
      · rw [if_pos (by omega)]

theorem getElem?_add_of_some (h : l[j]? = some a) : (l ++ [b])[j]? = some a :=
  getElem?_add.mpr (.inl h)

theorem getElem?_replace {c : α} (hk : l[k]? = some c) :
    (l.set k b)[j]? = some a ↔ j = k ∧ a = b ∨ j ≠ k ∧ l[j]? = some a := by
  have hlt := lt_of_getElem? hk
  rw [List.getElem?_set]
  split
  · rename_i he
    subst he
    simp [hlt, eq_comm]
  · rename_i hne
    simp [Ne.symm hne]

theorem mem_replace_of_ne {c : α} (hk : l[k]? = some c) (ha : a ∈ l) (hne : a ≠ c) :
    a ∈ l.set k b := by
  obtain ⟨j, hj⟩ := List.getElem?_of_mem ha
  have hjk : j ≠ k := by
    rintro rfl
    exact hne (Option.some.inj (hj.symm.trans hk))
  exact List.mem_of_getElem? ((getElem?_replace hk).mpr (.inr ⟨hjk, hj⟩))

theorem getElem?_change {f : α → α} :
    (l.modify k f)[j]? = some a ↔ j = k ∧ (∃ c, l[k]? = some c ∧ a = f c) ∨
      j ≠ k ∧ l[j]? = some a := by
  rw [List.getElem?_modify]
  by_cases he : k = j
  · subst he
    cases hk : l[k]? with
    | none => simp
    | some c => simp [eq_comm]
  · simp [he, Ne.symm he]

end Registry
