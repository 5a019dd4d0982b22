import Mathlib.Data.List.Basic

/-!
# What stands in a history

A history is a list of events, the oldest first. Some events give a thing and some take it away; it
stands if an event has given it and no later one has taken it away.
-/

namespace History

variable {ε : Type*} {gives ends : ε → Prop} {log : List ε} {e : ε}

/-- Given by an event after which none takes it away. -/
def Stands (gives ends : ε → Prop) (log : List ε) : Prop :=
  ∃ before e after, log = before ++ e :: after ∧ gives e ∧ ∀ x ∈ after, ¬ends x

theorem not_stands_nil : ¬Stands gives ends [] := by
  rintro ⟨before, e, after, h, -⟩
  simp at h

/-- One more event gives the thing, or leaves it. -/
theorem stands_concat :
    Stands gives ends (log ++ [e]) ↔ gives e ∨ (Stands gives ends log ∧ ¬ends e) := by
  constructor
  · rintro ⟨before, x, after, h, hgives, hkept⟩
    rcases List.eq_nil_or_concat after with rfl | ⟨after, last, rfl⟩
    · obtain ⟨-, hx⟩ := List.append_inj' h rfl
      obtain rfl : e = x := (List.cons.inj hx).1
      exact .inl hgives
    · have hsplit : log ++ [e] = (before ++ x :: after) ++ [last] := by
        simpa using h
      obtain ⟨rfl, hlast⟩ := List.append_inj' hsplit rfl
      obtain rfl : e = last := (List.cons.inj hlast).1
      refine .inr ⟨⟨before, x, after, rfl, hgives, fun y hy => ?_⟩, ?_⟩
      · exact hkept y (by simp [hy])
      · exact hkept e (by simp)
  · rintro (hgives | ⟨⟨before, x, after, rfl, hgives, hkept⟩, hend⟩)
    · exact ⟨log, e, [], rfl, hgives, fun _ h => by cases h⟩
    · refine ⟨before, x, after ++ [e], by simp, hgives, fun y hy => ?_⟩
      rcases List.mem_append.mp hy with hy | hy
      · exact hkept y hy
      · obtain rfl := List.mem_singleton.mp hy
        exact hend

theorem Stands.mono {gives' ends' : ε → Prop} (h : Stands gives ends log)
    (hgives : ∀ e ∈ log, gives e → gives' e) (hends : ∀ e ∈ log, ends' e → ends e) :
    Stands gives' ends' log := by
  obtain ⟨before, x, after, rfl, hx, hkept⟩ := h
  refine ⟨before, x, after, rfl, hgives x (by simp) hx, fun y hy hend => ?_⟩
  exact hkept y hy (hends y (by simp [hy]) hend)

end History
