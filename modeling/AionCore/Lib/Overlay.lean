import Mathlib.Data.List.Basic
import Mathlib.Data.Option.Basic

/-!
# Changes laid over a map

A writer reads a map, changes some of its entries and puts back the whole map. When that keeps what
other writers did since it read the map.
-/

abbrev Changes (κ ν : Type*) := List (κ × Option ν)

namespace Changes

variable {κ ν : Type*} [DecidableEq κ]

def lay (changes : Changes κ ν) (map : κ → Option ν) (k : κ) : Option ν :=
  (changes.lookup k).getD (map k)

def Disjoint (changes changes' : Changes κ ν) : Prop := ∀ e ∈ changes, ∀ e' ∈ changes', e.1 ≠ e'.1

instance (changes changes' : Changes κ ν) : Decidable (changes.Disjoint changes') := by
  unfold Disjoint
  infer_instance

def Agree (changes : Changes κ ν) (map map' : κ → Option ν) : Prop :=
  ∀ k, changes.lookup k = none → map k = map' k

/-- The map has all the values that were written, and is else as it was at first. -/
def Kept (first : κ → Option ν) (written : List (Changes κ ν)) (map : κ → Option ν) : Prop :=
  (∀ changes ∈ written, ∀ k v, changes.lookup k = some v → map k = v) ∧
    ∀ k, (∀ changes ∈ written, changes.lookup k = none) → map k = first k

variable {changes changes' : Changes κ ν} {map map' first : κ → Option ν} {k : κ} {v : Option ν}
  {written : List (Changes κ ν)}

theorem lay_of_some (h : changes.lookup k = some v) : changes.lay map k = v := by
  rw [lay, h, Option.getD_some]

theorem lay_of_none (h : changes.lookup k = none) : changes.lay map k = map k := by
  rw [lay, h, Option.getD_none]

@[simp] theorem lay_nil : lay [] map = map := rfl

theorem lay_append : lay (changes ++ changes') map = changes.lay (changes'.lay map) := by
  funext k
  rw [lay, List.lookup_append, lay, lay]
  cases changes.lookup k with
  | none => rfl
  | some v => rfl

theorem lay_cons {k' : κ} :
    lay ((k', v) :: changes) map k = if k = k' then v else changes.lay map k := by
  rw [lay, List.lookup_cons]
  by_cases h : k = k'
  · rw [if_pos h, beq_iff_eq.mpr h]
    rfl
  · have hne : (k == k') = false := by simpa using h
    rw [if_neg h, hne]
    rfl

theorem exists_mem_of_lookup (h : changes.lookup k = some v) : ∃ e ∈ changes, e.1 = k := by
  induction changes with
  | nil => cases h
  | cons e changes ih =>
    rw [List.lookup_cons] at h
    by_cases hk : k = e.1
    · exact ⟨e, List.mem_cons_self, hk.symm⟩
    · have hne : (k == e.1) = false := by simpa using hk
      rw [hne] at h
      obtain ⟨e', he', hkey⟩ := ih h
      exact ⟨e', List.mem_cons_of_mem _ he', hkey⟩

theorem Disjoint.lookup_eq_none (h : changes.Disjoint changes') (hk : changes'.lookup k = some v) :
    changes.lookup k = none := by
  cases hlook : changes.lookup k with
  | none => rfl
  | some v' =>
    obtain ⟨e, he, rfl⟩ := exists_mem_of_lookup hlook
    obtain ⟨e', he', hkey⟩ := exists_mem_of_lookup hk
    exact absurd hkey.symm (h e he e' he')

theorem kept_start : Kept first [] first := by
  refine ⟨fun changes hmem => ?_, fun _ _ => rfl⟩
  cases hmem

/-- Without changes there is nothing more to keep. -/
theorem kept_nil_cons : Kept first ([] :: written) map ↔ Kept first written map := by
  constructor
  · rintro ⟨hwritten, hrest⟩
    refine ⟨fun changes hmem => hwritten changes (List.mem_cons_of_mem _ hmem), ?_⟩
    intro k hk
    refine hrest k fun changes hmem => ?_
    obtain rfl | hmem := List.mem_cons.mp hmem
    · rfl
    · exact hk changes hmem
  · rintro ⟨hwritten, hrest⟩
    refine ⟨fun changes hmem k v hv => ?_,
      fun k hk => hrest k fun changes hmem => hk changes (List.mem_cons_of_mem _ hmem)⟩
    obtain rfl | hmem := List.mem_cons.mp hmem
    · cases hv
    · exact hwritten changes hmem k v hv

/-- A writer that lays its changes over a map that it read keeps what was written just if the map
is, but for these changes, still the one that it read. -/
theorem Kept.lay_iff (h : Kept first written map') (hd : ∀ c ∈ written, changes.Disjoint c) :
    Kept first (changes :: written) (changes.lay map) ↔ changes.Agree map map' := by
  constructor
  · rintro ⟨hwritten, hrest⟩ k hk
    have hlay : changes.lay map k = map k := lay_of_none hk
    rw [← hlay]
    by_cases hex : ∃ c ∈ written, ∃ v, c.lookup k = some v
    · obtain ⟨c, hc, v, hv⟩ := hex
      rw [h.1 c hc k v hv]
      exact hwritten c (List.mem_cons_of_mem _ hc) k v hv
    · have hnone : ∀ c ∈ written, c.lookup k = none := fun c hc =>
        Option.eq_none_iff_forall_not_mem.mpr fun v hv => hex ⟨c, hc, v, hv⟩
      rw [h.2 k hnone]
      refine hrest k fun c hc => ?_
      obtain rfl | hc := List.mem_cons.mp hc
      · exact hk
      · exact hnone c hc
  · intro hagree
    constructor
    · intro c hc k v hv
      obtain rfl | hc := List.mem_cons.mp hc
      · exact lay_of_some hv
      · have hk := (hd c hc).lookup_eq_none hv
        rw [lay_of_none hk, hagree k hk, h.1 c hc k v hv]
    · intro k hk
      have hnone := hk changes List.mem_cons_self
      rw [lay_of_none hnone, hagree k hnone]
      exact h.2 k fun c hc => hk c (List.mem_cons_of_mem _ hc)

end Changes
