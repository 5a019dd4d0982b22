import AionCore.Lib.Precedence
import Mathlib.Data.List.Chain

/-!
# Closed paths

A closed path goes from an element back to it and meets no other one twice. Where a list is closed
but for some broken steps, every closed walk along it takes a broken step.
-/

open Relation

namespace Precedence

variable {α : Type*} {needs broken : α → α → Prop} {l p : List α} {a b : α}

def ClosedPath (needs : α → α → Prop) (c : List α) : Prop :=
  ∃ a p, c = a :: p ++ [a] ∧ (a :: p).Nodup ∧ c.IsChain needs

theorem transGen_of_isChain (h : (a :: p ++ [b]).IsChain needs) : TransGen needs a b := by
  induction p generalizing a with
  | nil => exact .single (List.isChain_pair.mp h)
  | cons c p ih =>
    obtain ⟨hac, hchain⟩ := List.isChain_cons_cons.mp h
    exact .head hac (ih hchain)

theorem exists_isChain (h : TransGen needs a b) : ∃ p, (a :: p ++ [b]).IsChain needs := by
  induction h using TransGen.head_induction_on with
  | single hab => exact ⟨[], List.isChain_pair.mpr hab⟩
  | head hac _ ih =>
    obtain ⟨p, hchain⟩ := ih
    exact ⟨_ :: p, List.isChain_cons_cons.mpr ⟨hac, hchain⟩⟩

theorem ClosedPath.transGen {c : List α} (h : ClosedPath needs c) :
    ∃ a, TransGen needs a a := by
  obtain ⟨a, p, rfl, -, hchain⟩ := h
  exact ⟨a, transGen_of_isChain hchain⟩

/-- Every element of a closed walk leads to a cycle. -/
theorem blocked_of_mem_walk (hwalk : (a :: p ++ [a]).IsChain needs) (hb : b ∈ a :: p ++ [a]) :
    Blocked needs b := by
  refine ⟨a, ?_, transGen_of_isChain hwalk⟩
  obtain ⟨pre, post, hsplit⟩ := List.append_of_mem hb
  have hlast : (b :: post).getLast? = some a := by
    rw [← List.getLast?_append_of_ne_nil pre (List.cons_ne_nil b post), ← hsplit,
      List.getLast?_concat]
  rw [hsplit] at hwalk
  exact List.relationReflTransGen_of_exists_isChain_cons post hwalk.right_of_append
    (List.getLast_of_getLast?_eq_some hlast)

theorem Blocked.exists_step (h : Blocked needs a) : ∃ b, needs a b := by
  obtain ⟨c, hac, hcycle⟩ := h
  have hstep : TransGen needs a c := TransGen.trans_right hac hcycle
  obtain ⟨b, hab, -⟩ := TransGen.head'_iff.mp hstep
  exact ⟨b, hab⟩

theorem closedPath_of_step {pre post : List α} (hnodup : (pre ++ a :: post).Nodup)
    (hchain : (pre ++ a :: post).IsChain needs)
    (hstep : ∀ b ∈ (a :: post).getLast?, needs b a) : ClosedPath needs (a :: post ++ [a]) := by
  refine ⟨a, post, rfl, (List.nodup_append.mp hnodup).2.1, ?_⟩
  refine hchain.right_of_append.append (List.isChain_singleton a) fun b hb c hc => ?_
  obtain rfl := Option.some.inj hc
  exact hstep b hb

/-- A closed walk along a list that is closed but for the broken steps takes one of them. -/
theorem Closed.broken_step (h : Closed (fun b a => needs b a ∧ ¬broken b a) l) (hl : l.Nodup)
    (ha : a ∈ l) (hwalk : (a :: p ++ [a]).IsChain needs) :
    ∃ b c, [b, c] <:+: a :: p ++ [a] ∧ broken b c := by
  by_contra hnone
  push Not at hnone
  have hwhole : (a :: p ++ [a]).IsChain fun b c => needs b c ∧ ¬broken b c := by
    refine List.isChain_iff_forall_rel_of_append_cons_cons.mpr fun b c pre post heq => ?_
    refine ⟨List.isChain_iff_forall_rel_of_append_cons_cons.mp hwalk heq, hnone b c ?_⟩
    exact ⟨pre, post, by rw [heq, List.append_assoc]; rfl⟩
  exact h.acyclic hl ha (transGen_of_isChain hwhole)

end Precedence
