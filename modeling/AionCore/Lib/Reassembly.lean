import Mathlib.Data.List.Basic

/-!
# Parts that are put together

A message comes in numbered parts, in any order and more than once. A receiver keeps a slot for each
part and starts anew when all slots are filled, so it completes the message once if and only if the
parts come in full, but not twice in full one time after the other.
-/

namespace Reassembly

variable {α : Type*} {n i : ℕ} {seen l l' a b : List ℕ}

def Full (n : ℕ) (l : List ℕ) : Prop := ∀ i < n, i ∈ l

instance (n : ℕ) (l : List ℕ) : Decidable (Full n l) :=
  inferInstanceAs (Decidable (∀ i < n, i ∈ l))

/-- Every part is there in a first stretch and again in the rest. -/
def Twice (n : ℕ) (l : List ℕ) : Prop := ∃ a b, l = a ++ b ∧ Full n a ∧ Full n b

def rounds (n : ℕ) : List ℕ → List ℕ → ℕ
  | _, [] => 0
  | seen, i :: l => if Full n (i :: seen) then rounds n [] l + 1 else rounds n (i :: seen) l

theorem Full.mono (h : Full n l) (hl : l ⊆ l') : Full n l' := fun i hi => hl (h i hi)

theorem not_full_nil (h : 0 < n) : ¬Full n [] := fun hfull => List.not_mem_nil (hfull 0 h)

theorem rounds_pos_iff (h : ¬Full n seen) : 0 < rounds n seen l ↔ Full n (l ++ seen) := by
  induction l generalizing seen with
  | nil => exact iff_of_false (Nat.lt_irrefl 0) h
  | cons i l ih =>
    rw [rounds]
    split
    · rename_i hfull
      refine iff_of_true (Nat.succ_pos _) (hfull.mono ?_)
      rw [List.cons_append]
      exact List.cons_subset_cons i (List.subset_append_right l seen)
    · rename_i hfull
      rw [ih hfull]
      refine ⟨fun h => h.mono fun j => ?_, fun h => h.mono fun j => ?_⟩
      · simp only [List.mem_append, List.mem_cons]
        tauto
      · simp only [List.mem_append, List.mem_cons]
        tauto

theorem two_le_rounds_iff (hn : 0 < n) (h : ¬Full n seen) :
    2 ≤ rounds n seen l ↔ ∃ a b, l = a ++ b ∧ Full n (a ++ seen) ∧ Full n b := by
  induction l generalizing seen with
  | nil =>
    refine iff_of_false (by simp [rounds]) ?_
    rintro ⟨a, b, hab, hfull, -⟩
    obtain ⟨rfl, rfl⟩ := List.append_eq_nil_iff.mp hab.symm
    exact h hfull
  | cons i l ih =>
    rw [rounds]
    split
    · rename_i hfull
      have hpos := rounds_pos_iff (l := l) (not_full_nil hn)
      rw [List.append_nil] at hpos
      rw [Nat.succ_le_succ_iff, Nat.succ_le_iff, hpos]
      constructor
      · exact fun hrest => ⟨[i], l, rfl, hfull, hrest⟩
      · rintro ⟨a, b, hab, ha, hb⟩
        cases a with
        | nil => exact absurd ha h
        | cons j a =>
          rw [(List.cons.inj hab).2]
          exact hb.mono (List.subset_append_right a b)
    · rename_i hfull
      rw [ih hfull]
      have hsame : ∀ a, Full n (a ++ i :: seen) ↔ Full n (i :: a ++ seen) := by
        intro a
        refine ⟨fun h => h.mono fun j => ?_, fun h => h.mono fun j => ?_⟩
        · simp only [List.cons_append, List.mem_append, List.mem_cons]
          tauto
        · simp only [List.cons_append, List.mem_append, List.mem_cons]
          tauto
      constructor
      · rintro ⟨a, b, rfl, ha, hb⟩
        exact ⟨i :: a, b, rfl, (hsame a).mp ha, hb⟩
      · rintro ⟨a, b, hab, ha, hb⟩
        cases a with
        | nil => exact absurd ha h
        | cons j a =>
          obtain ⟨rfl, rfl⟩ := List.cons.inj hab
          exact ⟨a, b, rfl, (hsame a).mpr ha, hb⟩

theorem rounds_eq_one_iff (hn : 0 < n) : rounds n [] l = 1 ↔ Full n l ∧ ¬Twice n l := by
  have hpos := rounds_pos_iff (l := l) (not_full_nil hn)
  have htwo := two_le_rounds_iff (l := l) hn (not_full_nil hn)
  simp only [List.append_nil] at hpos htwo
  rw [← hpos, Twice, ← htwo]
  omega

/-- The slots of a receiver that has seen some parts. -/
def slots (part : ℕ → α) (n : ℕ) (seen : List ℕ) : List (Option α) :=
  (List.range n).map fun i => if i ∈ seen then some (part i) else none

variable {part : ℕ → α}

theorem slots_nil : slots part n [] = List.replicate n none := by
  simp [slots]

theorem length_slots : (slots part n seen).length = n := by
  simp [slots]

theorem slots_set : (slots part n seen).set i (some (part i)) =
    slots part n (i :: seen) := by
  refine List.ext_getElem (by simp [slots]) fun j hj hj' => ?_
  rw [List.getElem_set]
  simp only [slots, List.getElem_map, List.getElem_range, List.mem_cons]
  by_cases hij : i = j
  · rw [if_pos hij, if_pos (.inl hij.symm), hij]
  · rw [if_neg hij]
    simp only [Ne.symm hij, false_or]

theorem slots_cons_of_le (h : n ≤ i) : slots part n (i :: seen) = slots part n seen := by
  refine List.map_congr_left fun j hj => ?_
  have hne : j ≠ i := by
    have := List.mem_range.mp hj
    omega
  simp only [List.mem_cons, hne, false_or]

theorem all_slots : (slots part n seen).all Option.isSome = true ↔ Full n seen := by
  simp only [slots, List.all_map, List.all_eq_true, List.mem_range, Function.comp_apply, Full]
  refine forall₂_congr fun i _ => ?_
  split <;> simp_all

theorem flatMap_slots {β : Type*} (f : Option α → List β) (h : Full n seen) :
    (slots part n seen).flatMap f = (List.range n).flatMap fun i => f (some (part i)) := by
  rw [slots, List.flatMap_map]
  refine List.flatMap_congr fun i hi => ?_
  rw [if_pos (h i (List.mem_range.mp hi))]

end Reassembly
