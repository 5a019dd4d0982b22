import Mathlib.Data.List.Infix

/-!
# Leaves of a tree

The leaves of a tree by their places: none stands under another. What becomes of them when some
places are set anew and what is in the way of these goes, and when such a change stays within
given places.
-/

namespace Leaves

variable {α β : Type*}

def Meets (p q : List α) : Prop := p <+: q ∨ q <+: p

instance [DecidableEq α] (p q : List α) : Decidable (Meets p q) :=
  inferInstanceAs (Decidable (p <+: q ∨ q <+: p))

def Flat (f : List α → Option β) : Prop := ∀ p q, f p ≠ none → f q ≠ none → p <+: q → p = q

/-- The places in `A` are set, what meets one of them may go, and the rest stays. -/
structure Change (A : List α → Prop) (f g : List α → Option β) : Prop where
  rest : ∀ q, g q = f q ∨ A q ∨ g q = none ∧ ∃ p, A p ∧ Meets q p
  flat : Flat g

/-- Nothing outside `N` meets a place in `A`. -/
def Apart (A N : List α → Prop) (f : List α → Option β) : Prop :=
  ∀ p q, A p → ¬N q → f q ≠ none → ¬Meets q p

variable {A B N : List α → Prop} {f g h : List α → Option β} {p q : List α}

theorem Flat.eq_of_meets (hf : Flat f) (hp : f p ≠ none) (hq : f q ≠ none) (hm : Meets p q) :
    p = q := by
  obtain hpq | hqp := hm
  · exact hf p q hp hq hpq
  · exact (hf q p hq hp hqp).symm

theorem Apart.mono (hA : ∀ p, B p → A p) (hapart : Apart A N f) : Apart B N f :=
  fun p q hp => hapart p q (hA p hp)

/-- A change stays within `N` if all that is set is there and meets nothing else. -/
theorem Change.agrees (hc : Change A f g) (hA : ∀ p, A p → N p) (hapart : Apart A N f)
    (hq : ¬N q) : g q = f q := by
  obtain hsame | hAq | ⟨hnone, p, hp, hm⟩ := hc.rest q
  · exact hsame
  · exact absurd (hA q hAq) hq
  · rw [hnone]
    by_contra hf
    exact hapart p q hp hq (Ne.symm hf) hm

/-- The change stays within `N` only if what is set meets nothing else. -/
theorem Change.apart (hc : Change A f g) (hf : Flat f) (hset : ∀ p, A p → g p = h p)
    (hstands : ∀ p, A p → h p = none → f p ≠ none) (hA : ∀ p, A p → N p)
    (hagrees : ∀ q, ¬N q → g q = f q) : Apart A N f := by
  intro p q hp hq hfq hm
  have hne : q ≠ p := by
    rintro rfl
    exact hq (hA q hp)
  by_cases hh : h p = none
  · exact hne (hf.eq_of_meets hfq (hstands p hp hh) hm)
  · -- both stand after the change
    have hgp : g p ≠ none := by rwa [hset p hp]
    have hgq : g q ≠ none := by rwa [hagrees q hq]
    exact hne (hc.flat.eq_of_meets hgq hgp hm)

def set [DecidableEq α] (f : List α → Option β) (p : List α) (b : Option β) (q : List α) :
    Option β :=
  if q = p then b else if Meets q p then none else f q

theorem change_set [DecidableEq α] (hf : Flat f) (p : List α) (b : Option β) :
    Change (· = p) f (set f p b) := by
  have hmeets : ∀ q, q ≠ p → set f p b q ≠ none → ¬Meets q p ∧ f q ≠ none := by
    intro q hne hq
    rw [set, if_neg hne] at hq
    split at hq
    · exact absurd rfl hq
    · rename_i hm
      exact ⟨hm, hq⟩
  constructor
  · intro q
    by_cases hq : q = p
    · exact .inr (.inl hq)
    by_cases hm : Meets q p
    · exact .inr (.inr ⟨by rw [set, if_neg hq, if_pos hm], p, rfl, hm⟩)
    · exact .inl (by rw [set, if_neg hq, if_neg hm])
  · intro q r hq hr hqr
    by_contra hne
    by_cases hqp : q = p
    · exact (hmeets r (fun h => hne (hqp.trans h.symm)) hr).1 (.inr (hqp ▸ hqr))
    · obtain ⟨hm, hfq⟩ := hmeets q hqp hq
      have hrp : r ≠ p := by
        rintro rfl
        exact hm (.inl hqr)
      exact hne (hf q r hfq (hmeets r hrp hr).2 hqr)

end Leaves
