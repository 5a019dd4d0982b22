import Mathlib.Data.List.Sort
import Mathlib.Data.List.Range

/-!
# Offset paging

Rows come in descending order of a key that several of them may share, arranged anew for every
request, and a page is cut at an offset. The pages make up the rows exactly if no page ends among
rows of one key.
-/

namespace OffsetPages

open scoped List

variable {α β : Type*} [LinearOrder β] (key : α → β)

/-- An order in which the rows `m` may come. -/
structure Arranges (l m : List α) : Prop where
  perm : l.Perm m
  sorted : l.Pairwise fun a b => key b ≤ key a

/-- A page, the first one numbered zero. -/
def page (size k : ℕ) (l : List α) : List α := (l.drop (k * size)).take size

/-- The first `n` rows end among rows of one key. -/
def Splits (m : List α) (n : ℕ) : Prop :=
  ∃ t, m.countP (t < key ·) < n ∧ n < m.countP (t ≤ key ·)

variable {key} {l l' m : List α} {n size k : ℕ} {p : α → Bool}

theorem exists_arranges (key : α → β) (m : List α) : ∃ l, Arranges key l m := by
  exact ⟨m.insertionSort fun a b => key b ≤ key a, List.perm_insertionSort _ m,
    List.pairwise_insertionSort _ m⟩

theorem splits_congr {γ : Type*} {key' : γ → β} {m' : List γ} (h : m.map key = m'.map key') :
    Splits key m n ↔ Splits key' m' n := by
  have hcount : ∀ q : β → Bool, m.countP (fun a => q (key a)) = m'.countP fun a => q (key' a) := by
    intro q
    have hq := congrArg (List.countP q) h
    rwa [List.countP_map, List.countP_map] at hq
  have hlt := fun t => hcount fun b => t < b
  have hle := fun t => hcount fun b => t ≤ b
  simp only [Splits, hlt, hle]

/-- Rows above a bound come first. -/
theorem filter_eq_take (hl : l.Pairwise fun a b => key b ≤ key a)
    (hp : ∀ a b, key b ≤ key a → p b → p a) : l.filter p = l.take (l.countP p) := by
  induction l with
  | nil => rfl
  | cons a l ih =>
    rw [List.pairwise_cons] at hl
    by_cases ha : p a
    · rw [List.filter_cons_of_pos ha, List.countP_cons_of_pos ha, List.take_succ_cons, ih hl.2]
    · have hnone : ∀ b ∈ l, ¬p b := fun b hb hpb => ha (hp a b (hl.1 b hb) hpb)
      rw [List.filter_cons_of_neg ha, List.countP_cons_of_neg ha, List.countP_eq_zero.mpr hnone,
        List.filter_eq_nil_iff.mpr hnone]
      rfl

/-- Which rows are above a bound is seen from their number. -/
theorem lt_countP_iff (hl : l.Pairwise fun a b => key b ≤ key a)
    (hp : ∀ a b, key b ≤ key a → p b → p a) (hn : n < l.length) : n < l.countP p ↔ p l[n] := by
  induction l generalizing n with
  | nil => exact absurd hn (Nat.not_lt_zero n)
  | cons a l ih =>
    rw [List.pairwise_cons] at hl
    by_cases ha : p a
    · rw [List.countP_cons_of_pos ha]
      cases n with
      | zero => exact iff_of_true (Nat.succ_pos _) ha
      | succ n =>
        rw [Nat.succ_lt_succ_iff]
        exact ih hl.2 (Nat.lt_of_succ_lt_succ hn)
    · have hnone : ∀ b ∈ l, ¬p b := fun b hb hpb => ha (hp a b (hl.1 b hb) hpb)
      rw [List.countP_cons_of_neg ha, List.countP_eq_zero.mpr hnone]
      refine iff_of_false (Nat.not_lt_zero n) fun hpn => ?_
      rcases List.mem_cons.mp (List.getElem_mem hn) with heq | hmem
      · exact ha (heq ▸ hpn)
      · exact hnone _ hmem hpn

theorem lt_countP_lt_iff (h : Arranges key l m) (t : β) (hn : n < l.length) :
    n < m.countP (t < key ·) ↔ t < key l[n] := by
  rw [← h.perm.countP_eq, lt_countP_iff h.sorted, decide_eq_true_eq]
  exact fun a b hab hb => decide_eq_true ((of_decide_eq_true hb).trans_le hab)

theorem lt_countP_le_iff (h : Arranges key l m) (t : β) (hn : n < l.length) :
    n < m.countP (t ≤ key ·) ↔ t ≤ key l[n] := by
  rw [← h.perm.countP_eq, lt_countP_iff h.sorted, decide_eq_true_eq]
  exact fun a b hab hb => decide_eq_true ((of_decide_eq_true hb).trans hab)

/-- Where rows of one key are not split, the first rows are the same in every order. -/
theorem take_perm (h : Arranges key l m) (h' : Arranges key l' m) (hn : ¬Splits key m n) :
    (l.take n).Perm (l'.take n) := by
  by_cases hlength : m.length ≤ n
  · rw [List.take_of_length_le (h.perm.length_eq.trans_le hlength),
      List.take_of_length_le (h'.perm.length_eq.trans_le hlength)]
    exact h.perm.trans h'.perm.symm
  · have hlt : n < l.length := by
      rw [h.perm.length_eq]
      omega
    -- the rows above the key of the first row that is not taken are all that is taken
    have hbelow : ¬n < m.countP (key l[n] < key ·) := fun hc =>
      lt_irrefl _ ((lt_countP_lt_iff h _ hlt).mp hc)
    have habove : n < m.countP (key l[n] ≤ key ·) := (lt_countP_le_iff h _ hlt).mpr le_rfl
    have hcount : m.countP (key l[n] < key ·) = n := by
      by_contra hne
      exact hn ⟨key l[n], by omega, habove⟩
    have htake : ∀ {l₀ : List α}, Arranges key l₀ m → l₀.take n = l₀.filter (key l[n] < key ·) := by
      intro l₀ h₀
      rw [filter_eq_take h₀.sorted, h₀.perm.countP_eq, hcount]
      exact fun a b hab hb => decide_eq_true ((of_decide_eq_true hb).trans_le hab)
    rw [htake h, htake h']
    exact (h.perm.trans h'.perm.symm).filter _

/-- Pages that end between keys make up the rows, whichever order each of them is cut from. -/
theorem pages_perm {order : ℕ → List α} (horder : ∀ k, Arranges key (order k) m)
    (hn : ∀ k, ¬Splits key m (k * size)) (h : Arranges key l m) :
    ((List.range n).flatMap fun k => page size k (order k)).Perm (l.take (n * size)) := by
  induction n with
  | zero => rw [List.range_zero, Nat.zero_mul, List.take_zero]; rfl
  | succ n ih =>
    have hsplit : (order n).take ((n + 1) * size) =
        (order n).take (n * size) ++ page size n (order n) := by
      rw [Nat.succ_mul, List.take_add]
      rfl
    rw [List.range_succ, List.flatMap_append, List.flatMap_singleton]
    calc ((List.range n).flatMap fun k => page size k (order k)) ++ page size n (order n)
      _ ~ l.take (n * size) ++ page size n (order n) := ih.append_right _
      _ ~ (order n).take (n * size) ++ page size n (order n) :=
        (take_perm h (horder n) (hn n)).append_right _
      _ ~ (order n).take ((n + 1) * size) := .of_eq hsplit.symm
      _ ~ l.take ((n + 1) * size) := take_perm (horder n) h (hn (n + 1))

/-- Two neighbours of one key, at the end of the first rows, may come in either order. -/
theorem Splits.exists_swap (hn : Splits key m n) : ∃ a x y c, a.length + 1 = n ∧
    Arranges key (a ++ x :: y :: c) m ∧ Arranges key (a ++ y :: x :: c) m := by
  obtain ⟨t, hlt, hle⟩ := hn
  obtain ⟨l, h⟩ := exists_arranges key m
  have hlength : n < l.length := by
    rw [h.perm.length_eq]
    exact hle.trans_le List.countP_le_length
  obtain ⟨j, rfl⟩ : ∃ j, n = j + 1 := ⟨n - 1, by omega⟩
  have hj : j < l.length := by omega
  have hx : key l[j] ≤ t := not_lt.mp fun hc => by
    have := (lt_countP_lt_iff h t hj).mpr hc
    omega
  have hy : t ≤ key l[j + 1] := (lt_countP_le_iff h t hlength).mp hle
  have heq : l = l.take j ++ l[j] :: l[j + 1] :: l.drop (j + 2) := by
    rw [← List.drop_eq_getElem_cons hlength, ← List.drop_eq_getElem_cons hj, List.take_append_drop]
  have hsame : key l[j] = key l[j + 1] :=
    le_antisymm (hx.trans hy) (List.pairwise_iff_getElem.mp h.sorted j (j + 1) hj hlength (by omega))
  have hmap : ((l.take j ++ l[j + 1] :: l[j] :: l.drop (j + 2)).map key) = l.map key := by
    conv_rhs => rw [heq]
    simp only [List.map_append, List.map_cons, hsame]
  refine ⟨l.take j, l[j], l[j + 1], l.drop (j + 2), ?_, heq ▸ h, ?_, ?_⟩
  · rw [List.length_take]
    omega
  · refine List.Perm.trans ?_ h.perm
    conv_rhs => rw [heq]
    exact (List.Perm.swap _ _ _).append_left _
  · have hsorted : (l.map key).Pairwise fun a b => b ≤ a := List.pairwise_map.mpr h.sorted
    rw [← hmap] at hsorted
    exact List.pairwise_map.mp hsorted

/-- Where a page ends among rows of one key, two orders may show one row on that page and on the
next. -/
theorem Splits.exists_repeated (hn : Splits key m ((k + 1) * size)) : ∃ l l' x,
    Arranges key l m ∧ Arranges key l' m ∧ x ∈ page size k l ∧ x ∈ page size (k + 1) l' := by
  obtain ⟨a, x, y, c, hlength, h, h'⟩ := hn.exists_swap
  have hsize : 0 < size := by
    by_contra hz
    rw [Nat.eq_zero_of_not_pos hz, Nat.mul_zero] at hlength
    omega
  rw [Nat.succ_mul] at hlength
  refine ⟨_, _, x, h, h', ?_, ?_⟩
  · have hx : (a ++ x :: y :: c)[a.length]? = some x := by simp
    refine List.mem_of_getElem? (i := size - 1) ?_
    rw [page, List.getElem?_take_of_lt (by omega), List.getElem?_drop, ← hx]
    congr 1
    omega
  · have hx : (a ++ y :: x :: c)[a.length + 1]? = some x := by simp
    refine List.mem_of_getElem? (i := 0) ?_
    rw [page, List.getElem?_take_of_lt hsize, List.getElem?_drop, ← hx]
    congr 1
    rw [Nat.succ_mul]
    omega

end OffsetPages
