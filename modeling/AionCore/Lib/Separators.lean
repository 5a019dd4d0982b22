import Mathlib.Data.List.Basic

/-!
# Texts with separators

A text is split at one separator or at all of them, and what was joined comes apart again if no
part has the separator in it. Pairs are written with a separator within a pair and another one
between two pairs.
-/

namespace Separators

variable {α : Type*} [DecidableEq α]

def splitOnce (sep : α) : List α → Option (List α × List α)
  | [] => none
  | a :: text =>
    if a = sep then some ([], text)
    else (splitOnce sep text).map fun split => (a :: split.1, split.2)

/-- At most `n` parts; the last one keeps its separators. -/
def splitn (sep : α) : ℕ → List α → List (List α)
  | 0, _ => []
  | 1, text => [text]
  | n + 2, text =>
    match splitOnce sep text with
    | none => [text]
    | some (before, after) => before :: splitn sep (n + 1) after

def writePairs (item eq : α) (pairs : List (List α × List α)) : List α :=
  [item].intercalate (pairs.map fun pair => pair.1 ++ eq :: pair.2)

def readPairs (item eq : α) (text : List α) : List (List α × List α) :=
  (text.splitOn item).filterMap (splitOnce eq)

/-- A pair that the separators leave whole. -/
def Apart (item eq : α) (pair : List α × List α) : Prop :=
  item ∉ pair.1 ∧ eq ∉ pair.1 ∧ item ∉ pair.2

variable {sep item eq : α} {text before after : List α} {pairs : List (List α × List α)}
  {pair : List α × List α}

theorem splitOnce_append (h : sep ∉ before) (after : List α) :
    splitOnce sep (before ++ sep :: after) = some (before, after) := by
  induction before with
  | nil => exact if_pos rfl
  | cons a before ih =>
    obtain ⟨ha, hbefore⟩ := List.ne_and_not_mem_of_not_mem_cons h
    rw [List.cons_append, splitOnce, if_neg (Ne.symm ha), ih hbefore]
    rfl

theorem splitOnce_eq_none (h : sep ∉ text) : splitOnce sep text = none := by
  induction text with
  | nil => rfl
  | cons a text ih =>
    obtain ⟨ha, htext⟩ := List.ne_and_not_mem_of_not_mem_cons h
    rw [splitOnce, if_neg (Ne.symm ha), ih htext]
    rfl

theorem splitOnce_eq_some (h : splitOnce sep text = some (before, after)) :
    text = before ++ sep :: after ∧ sep ∉ before := by
  induction text generalizing before with
  | nil => cases h
  | cons a text ih =>
    rw [splitOnce] at h
    split at h
    · rename_i ha
      obtain ⟨rfl, rfl⟩ := Prod.mk.inj (Option.some.inj h)
      exact ⟨by rw [ha]; rfl, List.not_mem_nil⟩
    · rename_i ha
      obtain ⟨split, hsplit, heq⟩ := Option.map_eq_some_iff.mp h
      obtain ⟨rfl, rfl⟩ := Prod.mk.inj heq
      obtain ⟨htext, hnot⟩ := ih hsplit
      exact ⟨congrArg (a :: ·) htext, List.not_mem_cons_of_ne_of_not_mem (Ne.symm ha) hnot⟩

theorem splitn_append (h : sep ∉ before) (n : ℕ) (after : List α) :
    splitn sep (n + 2) (before ++ sep :: after) = before :: splitn sep (n + 1) after := by
  rw [splitn, splitOnce_append h]

theorem splitn_of_notMem (h : sep ∉ text) (n : ℕ) : splitn sep (n + 1) text = [text] := by
  cases n with
  | zero => rfl
  | succ n => rw [splitn, splitOnce_eq_none h]

/-- A part has no separator in it. -/
theorem notMem_of_mem_splitOn {part : List α} (h : part ∈ text.splitOn sep) : sep ∉ part := by
  induction text generalizing part with
  | nil =>
    rw [List.splitOn_nil, List.mem_singleton] at h
    rw [h]
    exact List.not_mem_nil
  | cons a text ih =>
    rw [List.splitOn_cons_eq_if_modifyHead] at h
    split at h
    · rcases List.mem_cons.mp h with rfl | h
      · exact List.not_mem_nil
      · exact ih h
    · rename_i ha
      obtain ⟨head, rest, hsplit⟩ := List.exists_cons_of_ne_nil (List.splitOn_ne_nil sep text)
      rw [hsplit] at h ih
      rcases List.mem_cons.mp h with rfl | h
      · exact List.not_mem_cons_of_ne_of_not_mem (fun hsep => ha (by simp [hsep]))
          (ih List.mem_cons_self)
      · exact ih (List.mem_cons_of_mem head h)

/-- Pairs that the separators leave whole are read as they were written. -/
theorem readPairs_writePairs (hitem : item ≠ eq) (h : ∀ pair ∈ pairs, Apart item eq pair)
    (hpairs : pairs ≠ []) : readPairs item eq (writePairs item eq pairs) = pairs := by
  have hparts : ∀ part ∈ pairs.map fun pair => pair.1 ++ eq :: pair.2, item ∉ part := by
    intro part hpart
    obtain ⟨pair, hpair, rfl⟩ := List.mem_map.mp hpart
    obtain ⟨hkey, -, hvalue⟩ := h pair hpair
    rw [List.mem_append, List.mem_cons]
    rintro (hmem | hmem | hmem)
    · exact hkey hmem
    · exact hitem hmem
    · exact hvalue hmem
  rw [readPairs, writePairs, List.splitOn_intercalate item hparts (by simpa using hpairs),
    List.filterMap_map]
  calc pairs.filterMap (splitOnce eq ∘ fun pair => pair.1 ++ eq :: pair.2)
      = pairs.filterMap some :=
        List.filterMap_congr fun pair hpair => splitOnce_append (h pair hpair).2.1 pair.2
    _ = pairs := List.filterMap_some

theorem apart_of_mem_readPairs (h : pair ∈ readPairs item eq text) : Apart item eq pair := by
  obtain ⟨part, hpart, hsplit⟩ := List.mem_filterMap.mp h
  obtain ⟨rfl, heq⟩ := splitOnce_eq_some hsplit
  have hitem := notMem_of_mem_splitOn hpart
  rw [List.mem_append, List.mem_cons, not_or, not_or] at hitem
  exact ⟨hitem.1, heq, hitem.2.2⟩

end Separators
