import Mathlib.Data.List.Basic
import Mathlib.Logic.Function.Basic
import Mathlib.Logic.Relation

/-!
# Promises

A party at work holds the channel on which it has promised to tell the outcome. However
often promises are made and kept, no channel is told twice, and a channel that has been told
nothing is held by somebody.
-/

/-- The channels that parties hold, and what each channel has been told. -/
@[ext] structure Promises (α ω : Type*) where
  held : α → Option ℕ
  told : List (List ω)

namespace Promises

variable {α ω : Type*}

def tell (told : List (List ω)) (k : ℕ) (o : ω) : List (List ω) :=
  told.modify k fun outcomes => outcomes ++ [o]

@[simp] theorem length_tell (told : List (List ω)) (k : ℕ) (o : ω) :
    (tell told k o).length = told.length :=
  List.length_modify _ told k

theorem getElem?_tell (told : List (List ω)) (k j : ℕ) (o : ω) :
    (tell told k o)[j]? = if j = k then told[j]?.map (· ++ [o]) else told[j]? := by
  rw [tell, List.getElem?_modify]
  by_cases h : j = k
  · simp [h]
  · simp [h, Ne.symm h]

variable {k : ℕ}

theorem tell_append (told more : List (List ω)) (hk : k < told.length) (o : ω) :
    tell (told ++ more) k o = tell told k o ++ more := by
  refine List.ext_getElem? fun j => ?_
  rw [getElem?_tell, List.getElem?_append, List.getElem?_append, length_tell, getElem?_tell]
  by_cases hj : j = k
  · subst hj
    rw [if_pos rfl, if_pos hk, if_pos hk, if_pos rfl]
  · rw [if_neg hj, if_neg hj]

/-- Every channel that is told nothing is held, by one party only, and no channel has been
told twice. -/
structure Kept (P : Promises α ω) : Prop where
  pending : ∀ a k, P.held a = some k → P.told[k]? = some []
  holder : ∀ a b k, P.held a = some k → P.held b = some k → a = b
  watched : ∀ k : ℕ, P.told[k]? = some [] → ∃ a, P.held a = some k
  once : ∀ (k : ℕ) (l : List ω), P.told[k]? = some l → l.length ≤ 1

theorem kept_empty : Kept (⟨fun _ => none, []⟩ : Promises α ω) where
  pending _ _ h := by cases h
  holder _ _ _ h := by cases h
  watched _ h := by simp at h
  once _ _ h := by simp at h

theorem Kept.lt_length {P : Promises α ω} (h : P.Kept) {a : α} (hk : P.held a = some k) :
    k < P.told.length :=
  (List.getElem?_eq_some_iff.mp (h.pending a k hk)).1

variable [DecidableEq α]

/-- `a` promises an outcome on a new channel. -/
def make (P : Promises α ω) (a : α) : Promises α ω where
  held := Function.update P.held a (some P.told.length)
  told := P.told ++ [[]]

/-- `a` tells the outcome on the channel that it holds. -/
def keep (P : Promises α ω) (a : α) (k : ℕ) (o : ω) : Promises α ω where
  held := Function.update P.held a none
  told := tell P.told k o

/-- Make a promise or keep one. -/
inductive Move : Promises α ω → Promises α ω → Prop
  | make {P} (a : α) (free : P.held a = none) : Move P (P.make a)
  | keep {P} (a : α) (k : ℕ) (o : ω) (held : P.held a = some k) : Move P (P.keep a k o)

abbrev Moves : Promises α ω → Promises α ω → Prop := Relation.ReflTransGen Move

variable {P P' : Promises α ω}

theorem held_make (P : Promises α ω) (a b : α) :
    (P.make a).held b = if b = a then some P.told.length else P.held b := by
  simp only [make, Function.update_apply]

theorem held_keep (P : Promises α ω) (a b : α) (k : ℕ) (o : ω) :
    (P.keep a k o).held b = if b = a then none else P.held b := by
  simp only [keep, Function.update_apply]

theorem getElem?_make (P : Promises α ω) (a : α) (j : ℕ) :
    (P.make a).told[j]? = if j = P.told.length then some [] else P.told[j]? := by
  simp only [make]
  by_cases h : j = P.told.length
  · simp [h]
  · rw [if_neg h, List.getElem?_append]
    split
    · rfl
    · have hlen : P.told.length ≤ j := by omega
      rw [List.getElem?_eq_none hlen, List.getElem?_eq_none (by simp; omega)]

theorem Kept.make (h : P.Kept) {a : α} (hfree : P.held a = none) : (P.make a).Kept where
  pending b k hk := by
    rw [held_make] at hk
    rw [getElem?_make]
    split at hk
    · obtain rfl := Option.some.inj hk
      rw [if_pos rfl]
    · have hlt := h.lt_length hk
      rw [if_neg (by omega), h.pending b k hk]
  holder b c k hb hc := by
    rw [held_make] at hb hc
    split at hb <;> split at hc
    · rename_i hba hca
      rw [hba, hca]
    · have hlt := h.lt_length hc
      obtain rfl := Option.some.inj hb
      omega
    · have hlt := h.lt_length hb
      obtain rfl := Option.some.inj hc
      omega
    · exact h.holder b c k hb hc
  watched k hk := by
    rw [getElem?_make] at hk
    split at hk
    · rename_i hlast
      exact ⟨a, by rw [held_make, if_pos rfl, hlast]⟩
    · obtain ⟨b, hb⟩ := h.watched k hk
      refine ⟨b, ?_⟩
      rw [held_make, if_neg, hb]
      rintro rfl
      rw [hfree] at hb
      cases hb
  once k l hl := by
    rw [getElem?_make] at hl
    split at hl
    · obtain rfl := Option.some.inj hl
      exact Nat.zero_le 1
    · exact h.once k l hl

theorem Kept.keep (h : P.Kept) {a : α} (hk : P.held a = some k) (o : ω) :
    (P.keep a k o).Kept where
  pending b j hj := by
    rw [held_keep] at hj
    split at hj
    · cases hj
    · rename_i hne
      have hjk : j ≠ k := by
        rintro rfl
        exact hne (h.holder b a j hj hk)
      change (tell P.told k o)[j]? = _
      rw [getElem?_tell, if_neg hjk, h.pending b j hj]
  holder b c j hb hc := by
    rw [held_keep] at hb hc
    split at hb <;> split at hc
    · cases hb
    · cases hb
    · cases hc
    · exact h.holder b c j hb hc
  watched j hj := by
    change (tell P.told k o)[j]? = _ at hj
    rw [getElem?_tell] at hj
    split at hj
    · obtain ⟨l, -, hl⟩ := Option.map_eq_some_iff.mp hj
      simp at hl
    · rename_i hne
      obtain ⟨b, hb⟩ := h.watched j hj
      refine ⟨b, ?_⟩
      rw [held_keep, if_neg, hb]
      rintro rfl
      exact hne (Option.some.inj (hb.symm.trans hk))
  once j l hl := by
    change (tell P.told k o)[j]? = _ at hl
    rw [getElem?_tell] at hl
    split at hl
    · rename_i hjk
      -- the channel that is told had been told nothing
      rw [hjk, h.pending a k hk] at hl
      obtain rfl := Option.some.inj hl
      exact Nat.le_refl 1
    · exact h.once j l hl

theorem Move.kept (hm : Move P P') (h : P.Kept) : P'.Kept := by
  cases hm with
  | make a hfree => exact h.make hfree
  | keep a k o hk => exact h.keep hk o

theorem Moves.kept (hm : Moves P P') (h : P.Kept) : P'.Kept := by
  induction hm with
  | refl => exact h
  | tail _ hm ih => exact hm.kept ih

/-- What a channel has been told stays, and more may be told. -/
theorem Move.told (hm : Move P P') {l : List ω} (hl : P.told[k]? = some l) :
    ∃ more, P'.told[k]? = some (l ++ more) := by
  cases hm with
  | make a _ =>
    have hlt := (List.getElem?_eq_some_iff.mp hl).1
    exact ⟨[], by rw [getElem?_make, if_neg (by omega), hl, List.append_nil]⟩
  | keep a j o _ =>
    change ∃ more, (tell P.told j o)[k]? = _
    rw [getElem?_tell]
    split
    · exact ⟨[o], by rw [hl, Option.map_some]⟩
    · exact ⟨[], by rw [hl, List.append_nil]⟩

theorem Moves.told (hm : Moves P P') {l : List ω} (hl : P.told[k]? = some l) :
    ∃ more, P'.told[k]? = some (l ++ more) := by
  induction hm with
  | refl => exact ⟨[], by rw [hl, List.append_nil]⟩
  | tail _ hm ih =>
    obtain ⟨more, hmore⟩ := ih
    obtain ⟨last, hlast⟩ := hm.told hmore
    exact ⟨more ++ last, by rw [hlast, List.append_assoc]⟩

theorem Moves.told_eq (hm : Moves P P') (h : P.Kept) {o : ω} (ho : P.told[k]? = some [o]) :
    P'.told[k]? = some [o] := by
  obtain ⟨more, hmore⟩ := hm.told ho
  have hlen := (hm.kept h).once k _ hmore
  obtain rfl : more = [] := by
    rw [List.length_append, List.length_singleton] at hlen
    exact List.length_eq_zero_iff.mp (by omega)
  exact hmore

/-- A party lets go of a channel only when it has told an outcome there. -/
theorem Moves.told_of_released (hm : Moves P P') (h : P.Kept) {a : α} (hk : P.held a = some k) :
    P'.held a = some k ∨ ∃ o, P'.told[k]? = some [o] := by
  induction hm with
  | refl => exact .inl hk
  | @tail Q Q' hQ hm ih =>
    have hQk := Moves.kept hQ h
    rcases ih with hheld | ⟨o, ho⟩
    · cases hm with
      | make b hfree =>
        refine .inl ?_
        rw [held_make, if_neg, hheld]
        rintro rfl
        rw [hfree] at hheld
        cases hheld
      | keep b j o hj =>
        by_cases hab : a = b
        · subst hab
          obtain rfl : j = k := Option.some.inj (hj.symm.trans hheld)
          refine .inr ⟨o, ?_⟩
          change (tell Q.told j o)[j]? = _
          rw [getElem?_tell, if_pos rfl, hQk.pending a j hj]
          rfl
        · exact .inl (by rw [held_keep, if_neg hab, hheld])
    · exact .inr ⟨o, Moves.told_eq (.single hm) hQk ho⟩

theorem Moves.length_le (hm : Moves P P') : P.told.length ≤ P'.told.length := by
  induction hm with
  | refl => exact Nat.le_refl _
  | tail _ hm ih =>
    refine Nat.le_trans ih ?_
    cases hm with
    | make a _ => simp [Promises.make]
    | keep a k o _ => exact Nat.le_of_eq (length_tell _ k o).symm

end Promises
