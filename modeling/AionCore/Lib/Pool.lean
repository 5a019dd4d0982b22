import Mathlib.Data.List.Basic
import Mathlib.Data.List.Perm.Basic

/-!
# Pools of tasks

Tasks run side by side, each at one of its awaits. When a task goes on, those that run on in
its place take its position; the order of a pool means nothing, so what a step does to a pool
is said up to rearrangement: one task goes, some come, the rest stays.
-/

namespace Pool

variable {α β : Type*}

/-- Task `k` goes on, and `next` runs in its place. -/
def proceed (pool : List α) (k : ℕ) (next : List α) : List α :=
  pool.take k ++ next ++ pool.drop (k + 1)

/-- The tasks besides task `k`. -/
def others (pool : List α) (k : ℕ) : List α := pool.take k ++ pool.drop (k + 1)

variable {pool next : List α} {k : ℕ} {a : α}

theorem perm_others (h : pool[k]? = some a) : pool.Perm (a :: others pool k) := by
  obtain ⟨hk, rfl⟩ := List.getElem?_eq_some_iff.mp h
  have hsplit : pool = pool.take k ++ pool[k] :: pool.drop (k + 1) := by
    rw [List.getElem_cons_drop, List.take_append_drop]
  conv_lhs => rw [hsplit]
  exact List.perm_middle

theorem perm_proceed (pool : List α) (k : ℕ) (next : List α) :
    (proceed pool k next).Perm (next ++ others pool k) := by
  rw [proceed, others, List.append_assoc]
  exact List.perm_append_comm_assoc _ _ _

theorem mem_iff (h : pool[k]? = some a) {b : α} : b ∈ pool ↔ b = a ∨ b ∈ others pool k := by
  rw [(perm_others h).mem_iff, List.mem_cons]

theorem mem_proceed {b : α} : b ∈ proceed pool k next ↔ b ∈ next ∨ b ∈ others pool k := by
  rw [(perm_proceed pool k next).mem_iff, List.mem_append]

theorem mem_of_others {b : α} (h : b ∈ others pool k) : b ∈ pool := by
  rcases List.mem_append.mp h with h | h
  · exact List.mem_of_mem_take h
  · exact List.mem_of_mem_drop h

theorem forall_proceed {P : α → Prop} (hpool : ∀ b ∈ pool, P b) (hnext : ∀ b ∈ next, P b) :
    ∀ b ∈ proceed pool k next, P b := by
  intro b hb
  rcases mem_proceed.mp hb with hb | hb
  · exact hnext b hb
  · exact hpool b (mem_of_others hb)

end Pool
