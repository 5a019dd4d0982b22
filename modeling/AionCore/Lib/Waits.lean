import Mathlib.Data.Finset.Preimage
import Mathlib.Order.WellFoundedSet

/-!
# Waiting relations

`r x y` reads `x` waits for `y`. A waiting relation is free of deadlock if nobody
waits for themselves along any chain. The file says when one party may change what
it waits for, and that a finite set of parties under such a relation always has one
that waits for nobody else in the set.
-/

namespace Waits

open Relation

variable {α : Type*} {r r' : α → α → Prop}

def Acyclic (r : α → α → Prop) : Prop := ∀ x, ¬TransGen r x x

theorem Acyclic.mono (h : Acyclic r') (hr : ∀ x y, r x y → r' x y) : Acyclic r :=
  fun x hx => h x (TransGen.mono hr _ _ hx)

/-- The relation in which `a` waits for what `p` says, and everybody else as before. -/
def rewait (r : α → α → Prop) (a : α) (p : α → Prop) (x y : α) : Prop :=
  (x = a ∧ p y) ∨ (x ≠ a ∧ r x y)

/-- A chain to `a` needs none of the edges out of `a`. -/
theorem reaches_of_rewait {a x : α} {p : α → Prop} (h : ReflTransGen (rewait r a p) x a) :
    ReflTransGen r x a := by
  induction h using ReflTransGen.head_induction_on with
  | refl => exact .refl
  | head hxy _ ih =>
    rcases hxy with ⟨rfl, -⟩ | ⟨-, hxy⟩
    · exact .refl
    · exact .head hxy ih

theorem rewait_of_reaches {a x : α} (p : α → Prop) (h : ReflTransGen r x a) :
    ReflTransGen (rewait r a p) x a := by
  induction h using ReflTransGen.head_induction_on with
  | refl => exact .refl
  | @head x y hxy _ ih =>
    by_cases hx : x = a
    · rw [hx]
    · exact .head (.inr ⟨hx, hxy⟩) ih

/-- A chain of the changed relation that ends elsewhere either avoids `a`'s new edges
or passes through `a`. -/
theorem transGen_of_rewait {a x y : α} {p : α → Prop} (h : TransGen (rewait r a p) x y) :
    TransGen r x y ∨ ReflTransGen (rewait r a p) x a ∧ TransGen (rewait r a p) a y := by
  induction h using TransGen.head_induction_on with
  | single hxy =>
    rcases hxy with ⟨rfl, hp⟩ | ⟨-, hxy⟩
    · exact .inr ⟨.refl, .single (.inl ⟨rfl, hp⟩)⟩
    · exact .inl (.single hxy)
  | head hxz hzy ih =>
    rcases hxz with ⟨rfl, hp⟩ | ⟨hx, hxz⟩
    · exact .inr ⟨.refl, .head (.inl ⟨rfl, hp⟩) hzy⟩
    · rcases ih with hr | ⟨hza, hay⟩
      · exact .inl (.head hxz hr)
      · exact .inr ⟨.head (.inr ⟨hx, hxz⟩) hza, hay⟩

/-- One party may change what it waits for exactly if nobody it then waits for is
itself or waits for it. -/
theorem acyclic_rewait_iff {a : α} {p : α → Prop} (h : Acyclic r) :
    Acyclic (rewait r a p) ↔ ∀ y, p y → ¬ReflTransGen r y a := by
  constructor
  · intro hacyclic y hp hy
    exact hacyclic a (.head' (.inl ⟨rfl, hp⟩) (rewait_of_reaches p hy))
  · intro hp
    -- a cycle through `a` would lead from something `a` waits for back to `a`
    have hloop : ¬TransGen (rewait r a p) a a := by
      intro hcycle
      obtain ⟨y, hay, hya⟩ := TransGen.head'_iff.mp hcycle
      rcases hay with ⟨-, hpy⟩ | ⟨hne, -⟩
      · exact hp y hpy (reaches_of_rewait hya)
      · exact hne rfl
    intro x hx
    rcases transGen_of_rewait hx with hr | ⟨hxa, hax⟩
    · exact h x hr
    · exact hloop (hax.trans_left hxa)

theorem Acyclic.exists_free (h : Acyclic r) {S : Finset α} (hS : S.Nonempty) :
    ∃ x ∈ S, ∀ y ∈ S, ¬r x y := by
  have hstrict : IsStrictOrder α (Function.swap (TransGen r)) :=
    { irrefl := h
      trans := fun _ _ _ hab hbc => hbc.trans hab }
  have hwf : (S : Set α).WellFoundedOn (Function.swap (TransGen r)) := S.finite_toSet.wellFoundedOn
  obtain ⟨a, ha⟩ := hS
  obtain ⟨⟨x, hx⟩, -, hmin⟩ := hwf.has_min Set.univ ⟨⟨a, ha⟩, trivial⟩
  exact ⟨x, hx, fun y hy hxy => hmin ⟨y, hy⟩ trivial (.single hxy)⟩

end Waits
