import Mathlib.Data.List.Range
import Mathlib.Data.List.Nodup
import Mathlib.Data.List.Perm.Basic

/-!
# Tickets

Tickets are numbered as they are drawn. Each is held by somebody until it is spent, and it is spent
once; what is held and what is spent together are the tickets drawn.
-/

/-- The tickets up to `total` are those held and those spent. -/
def Tickets (total : ℕ) (held spent : List ℕ) : Prop := (held ++ spent).Perm (List.range total)

namespace Tickets

variable {total k : ℕ} {held held' spent ks : List ℕ}

theorem nil : Tickets 0 [] [] := List.Perm.nil

section

variable (h : Tickets total held spent)
include h

theorem draw : Tickets (total + 1) (total :: held) spent := by
  unfold Tickets
  rw [List.range_succ, List.cons_append]
  exact (List.Perm.cons total h).trans (List.perm_append_singleton total _).symm

theorem pass (hheld : held.Perm held') :
    Tickets total held' spent :=
  (hheld.symm.append_right spent).trans h

theorem spendAll (hheld : held.Perm (ks ++ held')) :
    Tickets total held' (spent ++ ks) := by
  have hpass : ((ks ++ held') ++ spent).Perm (List.range total) := h.pass hheld
  have hmove : (held' ++ (spent ++ ks)).Perm ((ks ++ held') ++ spent) := by
    rw [← List.append_assoc, List.append_assoc ks]
    exact List.perm_append_comm
  exact hmove.trans hpass

theorem spend (hheld : held.Perm (k :: held')) :
    Tickets total held' (spent ++ [k]) :=
  h.spendAll hheld

theorem nodup : (held ++ spent).Nodup :=
  h.nodup_iff.mpr List.nodup_range

theorem once : spent.Nodup := (List.nodup_append.mp h.nodup).2.1

theorem unspent (hk : k ∈ held) : k ∉ spent := fun hspent =>
  (List.nodup_append.mp h.nodup).2.2 k hk k hspent rfl

theorem lt_of_held (hk : k ∈ held) : k < total :=
  List.mem_range.mp (h.mem_iff.mp (List.mem_append_left _ hk))

theorem held_or_spent (hk : k < total) : k ∈ held ∨ k ∈ spent :=
  List.mem_append.mp (h.mem_iff.mpr (List.mem_range.mpr hk))

end

end Tickets
