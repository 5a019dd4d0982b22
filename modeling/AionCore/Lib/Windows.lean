import Mathlib.Data.List.Basic
import Mathlib.Algebra.BigOperators.Group.List.Basic
import Mathlib.Algebra.GroupWithZero.Nat

/-!
# Fixed windows

Events are counted in windows of one length: a window opens with an event that finds the last one
over, and an event belongs to the window that is open when it comes. If no window has more than `m`
events, then no span of that length has more than `2 * m`, wherever it begins.
-/

/-- A window with the times of its events. -/
structure Window where
  opened : ℕ
  times : List ℕ
  deriving DecidableEq

namespace Window

/-- An event is counted in the last window. -/
def record (now : ℕ) : List Window → List Window
  | [] => []
  | win :: windows => ⟨win.opened, win.times ++ [now]⟩ :: windows

variable (length : ℕ)

/-- The windows, the last one first: one opens when the one before is over, and its events come
before it is over. -/
structure Spaced (windows : List Window) : Prop where
  apart : windows.Pairwise fun later earlier => earlier.opened + length ≤ later.opened
  within : ∀ win ∈ windows, ∀ time ∈ win.times, win.opened ≤ time ∧ time < win.opened + length

/-- The number of events from `t` on, for the length of a window. -/
def inSpan (t : ℕ) (times : List ℕ) : ℕ := times.countP fun time => t ≤ time ∧ time ≤ t + length

def spanCount (t : ℕ) (windows : List Window) : ℕ :=
  (windows.map fun win => inSpan length t win.times).sum

variable {length} {windows : List Window} {win : Window}

theorem Spaced.nil : Spaced length [] := ⟨.nil, fun win h => (by cases h)⟩

theorem Spaced.tail (h : Spaced length (win :: windows)) : Spaced length windows :=
  ⟨(List.pairwise_cons.mp h.apart).2, fun other hmem => h.within other (List.mem_cons_of_mem _ hmem)⟩

theorem Spaced.opens (h : Spaced length windows) {now : ℕ}
    (hover : ∀ win ∈ windows, win.opened + length ≤ now) {times : List ℕ}
    (htimes : ∀ time ∈ times, now ≤ time ∧ time < now + length) :
    Spaced length (⟨now, times⟩ :: windows) := by
  refine ⟨List.pairwise_cons.mpr ⟨hover, h.apart⟩, fun win hmem => ?_⟩
  obtain rfl | hmem := List.mem_cons.mp hmem
  · exact htimes
  · exact h.within win hmem

/-- An event comes before its window is over. -/
theorem Spaced.record (h : Spaced length (win :: windows)) {now : ℕ} (hopened : win.opened ≤ now)
    (hopen : now < win.opened + length) : Spaced length (record now (win :: windows)) := by
  obtain ⟨hapart, hrest⟩ := List.pairwise_cons.mp h.apart
  refine ⟨List.pairwise_cons.mpr ⟨hapart, hrest⟩, fun other hmem time htime => ?_⟩
  obtain rfl | hmem := List.mem_cons.mp hmem
  · obtain htime | htime := List.mem_append.mp htime
    · exact h.within win List.mem_cons_self time htime
    · rw [List.mem_singleton.mp htime]
      exact ⟨hopened, hopen⟩
  · exact h.within other (List.mem_cons_of_mem _ hmem) time htime

theorem Spaced.over_of_le (h : Spaced length (win :: windows)) {now : ℕ} (hnow : win.opened ≤ now) :
    ∀ other ∈ windows, other.opened + length ≤ now := fun other hmem =>
  Nat.le_trans ((List.pairwise_cons.mp h.apart).1 other hmem) hnow

theorem inSpan_le (t : ℕ) (times : List ℕ) : inSpan length t times ≤ times.length :=
  List.countP_le_length

theorem spanCount_cons (t : ℕ) :
    spanCount length t (win :: windows) = inSpan length t win.times + spanCount length t windows := by
  simp only [spanCount, List.map_cons, List.sum_cons]

theorem spanCount_eq_zero {t : ℕ}
    (h : ∀ win ∈ windows, ∀ time ∈ win.times, ¬(t ≤ time ∧ time ≤ t + length)) :
    spanCount length t windows = 0 := by
  induction windows with
  | nil => rfl
  | cons win windows ih =>
    have hwin : inSpan length t win.times = 0 := by
      refine List.countP_eq_zero.mpr fun time htime hspan => ?_
      exact h win List.mem_cons_self time htime (of_decide_eq_true hspan)
    rw [spanCount_cons, hwin, Nat.zero_add]
    exact ih fun other hmem => h other (List.mem_cons_of_mem _ hmem)

/-- If the last window has an event in the span, those before the last but one have none. -/
theorem Spaced.none_before {first : Window} (h : Spaced length (win :: first :: windows)) {t time : ℕ}
    (htime : time ∈ win.times) (hspan : time ≤ t + length) :
    ∀ other ∈ windows, ∀ before ∈ other.times, ¬(t ≤ before ∧ before ≤ t + length) := by
  intro other hother before hbefore hin
  have hlast := (h.within win List.mem_cons_self time htime).1
  have hgap : first.opened + length ≤ win.opened :=
    (List.pairwise_cons.mp h.apart).1 first List.mem_cons_self
  have hover : other.opened + length ≤ first.opened :=
    (List.pairwise_cons.mp h.tail.apart).1 other hother
  have hend := (h.tail.tail.within other hother before hbefore).2
  omega

/-- A span of the length of a window meets two windows at most. -/
theorem Spaced.spanCount_le (h : Spaced length windows) {m : ℕ}
    (hm : ∀ win ∈ windows, win.times.length ≤ m) (t : ℕ) : spanCount length t windows ≤ 2 * m := by
  induction windows with
  | nil => exact Nat.zero_le _
  | cons win windows ih =>
    have hwin : inSpan length t win.times ≤ m :=
      Nat.le_trans (inSpan_le t win.times) (hm win List.mem_cons_self)
    have hrest := ih h.tail fun other hmem => hm other (List.mem_cons_of_mem _ hmem)
    rw [spanCount_cons]
    by_cases hnone : inSpan length t win.times = 0
    · omega
    · -- an event of the last window is in the span, so only the last two windows meet it
      obtain ⟨time, htime, hspan⟩ := List.countP_pos_iff.mp (Nat.pos_of_ne_zero hnone)
      have hspan := of_decide_eq_true hspan
      cases windows with
      | nil =>
        show inSpan length t win.times + 0 ≤ 2 * m
        omega
      | cons first windows =>
        have hfirst : inSpan length t first.times ≤ m :=
          Nat.le_trans (inSpan_le t first.times)
            (hm first (List.mem_cons_of_mem _ List.mem_cons_self))
        have hzero : spanCount length t windows = 0 :=
          spanCount_eq_zero (h.none_before htime hspan.2)
        rw [spanCount_cons, hzero]
        omega

end Window
