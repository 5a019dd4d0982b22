import Mathlib.Data.List.Sort
import Mathlib.Data.List.DropRight

/-!
# Keyset paging

Rows in the order of a key that no two of them share. A query asks for the rows on one side of a
key, in ascending or in descending order, and cuts after a number of them: what such a page is in
the list of all rows, and that pages on one side of each other make up that list.
-/

namespace Keyset

variable {α β : Type*}

theorem nodup_map_filter {key : α → β} {l : List α} (h : (l.map key).Nodup) (p : α → Bool) :
    ((l.filter p).map key).Nodup :=
  h.sublist (List.filter_sublist.map key)

variable [LinearOrder β] (key : α → β)

def ascending (l : List α) : List α := l.insertionSort fun a b => key a ≤ key b

def descending (l : List α) : List α := l.insertionSort fun a b => key b ≤ key a

def Increasing (l : List α) : Prop := l.Pairwise fun a b => key a < key b

variable {key} {l l' : List α} {k : β} {x : α}

@[simp] theorem mem_ascending : x ∈ ascending key l ↔ x ∈ l :=
  (List.perm_insertionSort _ l).mem_iff

@[simp] theorem mem_descending : x ∈ descending key l ↔ x ∈ l :=
  (List.perm_insertionSort _ l).mem_iff

@[simp] theorem length_ascending : (ascending key l).length = l.length :=
  (List.perm_insertionSort _ l).length_eq

theorem Increasing.filter (h : Increasing key l) (p : α → Bool) : Increasing key (l.filter p) :=
  List.Pairwise.sublist List.filter_sublist h

theorem Increasing.eq_of_perm (h : Increasing key l) (h' : Increasing key l') (hp : l.Perm l') :
    l = l' := by
  have sorted : l.Pairwise fun a b => key a < key b := h
  refine hp.eq_of_pairwise ?_ sorted h'
  intro a b _ _ hab hba
  exact absurd hab (lt_asymm hba)

section

variable (h : (l.map key).Nodup)
include h

theorem increasing_ascending : Increasing key (ascending key l) := by
  have sorted : (ascending key l).Pairwise fun a b => key a ≤ key b := by
    exact List.pairwise_insertionSort _ l
  have distinct : (ascending key l).Pairwise fun a b => key a ≠ key b := by
    have hn : ((ascending key l).map key).Nodup :=
      ((List.perm_insertionSort _ l).map key).nodup_iff.mpr h
    exact List.pairwise_map.mp hn
  exact (sorted.and distinct).imp fun hab => lt_of_le_of_ne hab.1 hab.2

theorem pairwise_descending :
    (descending key l).Pairwise fun a b => key b < key a := by
  have sorted : (descending key l).Pairwise fun a b => key b ≤ key a := by
    exact List.pairwise_insertionSort _ l
  have distinct : (descending key l).Pairwise fun a b => key a ≠ key b := by
    have hn : ((descending key l).map key).Nodup :=
      ((List.perm_insertionSort _ l).map key).nodup_iff.mpr h
    exact List.pairwise_map.mp hn
  exact (sorted.and distinct).imp fun hab => lt_of_le_of_ne hab.1 hab.2.symm

theorem descending_eq_reverse :
    descending key l = (ascending key l).reverse := by
  have increasing : Increasing key (descending key l).reverse :=
    List.pairwise_reverse.mpr (pairwise_descending h)
  have perm : (descending key l).reverse.Perm (ascending key l) :=
    (List.reverse_perm _).trans
      ((List.perm_insertionSort _ l).trans (List.perm_insertionSort _ l).symm)
  rw [← increasing.eq_of_perm (increasing_ascending h) perm, List.reverse_reverse]

theorem ascending_filter (p : α → Bool) :
    ascending key (l.filter p) = (ascending key l).filter p := by
  have perm : (ascending key (l.filter p)).Perm ((ascending key l).filter p) :=
    (List.perm_insertionSort _ _).trans ((List.perm_insertionSort _ l).symm.filter p)
  exact (increasing_ascending (nodup_map_filter h p)).eq_of_perm
    ((increasing_ascending h).filter p) perm

end

theorem ascending_eq_self (h : Increasing key l) : ascending key l = l := by
  have sorted : l.Pairwise fun a b => key a ≤ key b := h.imp le_of_lt
  exact sorted.insertionSort_eq

theorem reverse_take_descending (h : (l.map key).Nodup) (n : ℕ) :
    ((descending key l).take n).reverse = (ascending key l).rtake n := by
  rw [descending_eq_reverse h, List.rtake_eq_reverse_take_reverse]

section Split

variable {before after : List α}

section

variable (h : Increasing key (before ++ x :: after))
include h

theorem Increasing.lt_of_mem_before {a : α} (ha : a ∈ before) : key a < key x :=
  (List.pairwise_append.mp h).2.2 a ha x List.mem_cons_self

theorem Increasing.lt_of_mem_after {a : α} (ha : a ∈ after) : key x < key a :=
  (List.pairwise_cons.mp (List.pairwise_append.mp h).2.1).1 a ha

theorem Increasing.filter_lt :
    (before ++ x :: after).filter (fun a => key a < key x) = before := by
  have hbefore : before.filter (fun a => key a < key x) = before :=
    List.filter_eq_self.mpr fun a ha => decide_eq_true (h.lt_of_mem_before ha)
  have hafter : after.filter (fun a => key a < key x) = [] :=
    List.filter_eq_nil_iff.mpr fun a ha hlt =>
      absurd (of_decide_eq_true hlt) (lt_asymm (h.lt_of_mem_after ha))
  simp [List.filter_append, hbefore, hafter]

theorem Increasing.filter_gt :
    (before ++ x :: after).filter (fun a => key x < key a) = after := by
  have hbefore : before.filter (fun a => key x < key a) = [] :=
    List.filter_eq_nil_iff.mpr fun a ha hlt =>
      absurd (of_decide_eq_true hlt) (lt_asymm (h.lt_of_mem_before ha))
  have hafter : after.filter (fun a => key x < key a) = after :=
    List.filter_eq_self.mpr fun a ha => decide_eq_true (h.lt_of_mem_after ha)
  simp [List.filter_append, hbefore, hafter]

end

end Split

section Cut

/-- What a cut of the rows in descending order leaves out is below all that it keeps. -/
theorem lt_of_notMem_take (h : (l.map key).Nodup) {n : ℕ} {a b : α}
    (ha : a ∈ (descending key l).take n) (hb : b ∈ l) (hn : b ∉ (descending key l).take n) :
    key b < key a := by
  have sorted := pairwise_descending h
  rw [← List.take_append_drop n (descending key l)] at sorted
  have hdrop : b ∈ (descending key l).drop n := by
    have hmem : b ∈ (descending key l).take n ++ (descending key l).drop n := by
      rw [List.take_append_drop]
      exact mem_descending.mpr hb
    obtain hmem | hmem := List.mem_append.mp hmem
    · exact absurd hmem hn
    · exact hmem
  exact (List.pairwise_append.mp sorted).2.2 a ha b hdrop

/-- The last row of a cut is below the others. -/
theorem last_le_of_mem_take (h : (l.map key).Nodup) {n : ℕ} {a last : α}
    (ha : a ∈ (descending key l).take n) (hlast : ((descending key l).take n).getLast? = some last) :
    key last ≤ key a := by
  have sorted : ((descending key l).take n).Pairwise fun a b => key b < key a :=
    (pairwise_descending h).sublist (List.take_sublist _ _)
  obtain ⟨front, hfront⟩ := List.getLast?_eq_some_iff.mp hlast
  rw [hfront] at ha sorted
  obtain ha | ha := List.mem_append.mp ha
  · exact ((List.pairwise_append.mp sorted).2.2 a ha last List.mem_cons_self).le
  · exact (congrArg key (List.mem_singleton.mp ha)).ge

theorem length_take_descending {n : ℕ} (h : n < l.length) :
    ((descending key l).take n).length = n := by
  have hlen : (descending key l).length = l.length := (List.perm_insertionSort _ l).length_eq
  rw [List.length_take, hlen, min_eq_left h.le]

theorem lt_length_of_notMem_take {n : ℕ} {b : α} (hb : b ∈ l)
    (hn : b ∉ (descending key l).take n) : n < l.length := by
  by_contra hle
  have hlen : (descending key l).length = l.length := (List.perm_insertionSort _ l).length_eq
  rw [List.take_of_length_le (by omega)] at hn
  exact hn (mem_descending.mpr hb)

end Cut

end Keyset
