import Mathlib.Data.Fintype.Defs
import Mathlib.Data.List.Basic
import Mathlib.Data.List.Nodup
import Mathlib.Logic.Relation
import Mathlib.Order.WellFounded
import Mathlib.Data.Fintype.Order

/-!
# Lists that respect a dependency

`needs b a` says that `b` comes after `a`. A closed list has with each element all that it needs,
further in front; so it has no element on a cycle. In a finite collection that has with each
element one that it needs, every element leads to a cycle.
-/

open Relation

namespace Precedence

variable {α : Type*} {needs : α → α → Prop} {l : List α} {a b : α}

/-- `a` stands before `b`. -/
def Before (l : List α) (a b : α) : Prop := [a, b].Sublist l

def Closed (needs : α → α → Prop) (l : List α) : Prop :=
  ∀ pre b post, l = pre ++ b :: post → ∀ a, needs b a → a ∈ pre

theorem closed_nil : Closed needs [] := by
  intro pre b post h
  cases pre <;> cases h

theorem Closed.snoc (h : Closed needs l) (hb : ∀ a, needs b a → a ∈ l) :
    Closed needs (l ++ [b]) := by
  intro pre c post hsplit a hca
  rcases List.eq_nil_or_concat post with rfl | ⟨post, z, rfl⟩
  · obtain ⟨rfl, hc⟩ := List.append_inj' hsplit rfl
    obtain rfl := List.singleton_inj.mp hc
    exact hb a hca
  · rw [List.concat_eq_append, ← List.cons_append, ← List.append_assoc] at hsplit
    exact h pre c post (List.append_inj' hsplit rfl).1 a hca

theorem Closed.mem (h : Closed needs l) (hb : b ∈ l) (hba : needs b a) : a ∈ l := by
  obtain ⟨pre, post, rfl⟩ := List.append_of_mem hb
  exact List.mem_append_left _ (h pre b post rfl a hba)

theorem Closed.before (h : Closed needs l) (hb : b ∈ l) (hba : needs b a) : Before l a b := by
  obtain ⟨pre, post, rfl⟩ := List.append_of_mem hb
  have ha : [a].Sublist pre := List.singleton_sublist.mpr (h pre b post rfl a hba)
  exact ha.append (List.singleton_sublist.mpr List.mem_cons_self)

theorem Closed.mem_pre {pre post : List α} (h : Closed needs (pre ++ b :: post))
    (hba : TransGen needs b a) : a ∈ pre := by
  have hpre : Closed needs pre := by
    rintro pre' c post' rfl a hca
    exact h pre' c (post' ++ b :: post) (by rw [List.append_assoc, List.cons_append]) a hca
  induction hba with
  | single hba => exact h pre b post rfl _ hba
  | tail _ hca ih => exact hpre.mem ih hca

theorem Closed.acyclic (h : Closed needs l) (hl : l.Nodup) (hb : b ∈ l) : ¬TransGen needs b b := by
  intro hcycle
  obtain ⟨pre, post, rfl⟩ := List.append_of_mem hb
  have hmem := h.mem_pre hcycle
  exact (List.nodup_append.mp hl).2.2 b hmem b List.mem_cons_self rfl

/-- An element leads to a cycle. -/
def Blocked (needs : α → α → Prop) (a : α) : Prop :=
  ∃ c, ReflTransGen needs a c ∧ TransGen needs c c

theorem Closed.not_blocked (h : Closed needs l) (hl : l.Nodup) (ha : a ∈ l) :
    ¬Blocked needs a := by
  rintro ⟨c, hac, hcycle⟩
  refine h.acyclic hl ?_ hcycle
  clear hcycle
  induction hac with
  | refl => exact ha
  | tail _ hbc ih => exact h.mem ih hbc

/-- Where every element needs one of the others, all lead to a cycle. -/
theorem blocked_of_needs {s : Set α} (hs : s.Finite) (hneeds : ∀ b ∈ s, ∃ a ∈ s, needs b a)
    (ha : a ∈ s) : Blocked needs a := by
  let reached : Set α := {c | c ∈ s ∧ ReflTransGen needs a c}
  have hfinite : Finite reached := hs.subset fun c hc => hc.1
  by_contra hblocked
  -- without a cycle what is needed comes strictly before, and there is a first
  let before : reached → reached → Prop := fun c b => TransGen needs b.1 c.1
  have : IsTrans reached before := ⟨fun _ _ _ hcb hba => hba.trans hcb⟩
  have : Std.Irrefl before := ⟨fun c hcycle => hblocked ⟨c.1, c.2.2, hcycle⟩⟩
  have hwf : WellFounded before := Finite.wellFounded_of_trans_of_irrefl before
  obtain ⟨m, -, hmin⟩ := hwf.has_min Set.univ ⟨⟨a, ha, .refl⟩, trivial⟩
  obtain ⟨c, hc, hmc⟩ := hneeds m.1 m.2.1
  exact hmin ⟨c, hc, m.2.2.tail hmc⟩ trivial (.single hmc)

end Precedence
