import Mathlib.Logic.Relation

/-!
# Deterministic machines with guarded inputs

A machine fires one input at a time; `admits` says which inputs its environment
may offer in a state. The file packages the induction over runs once: an
invariant of one step is an invariant of every run, for the machine itself, for
the same machine under a stricter guard, and along a map to another machine.
-/

/-- A machine over states `σ` with inputs `ι`. -/
structure Machine (σ ι : Type*) where
  start : σ → Prop
  admits : σ → ι → Prop
  fire : σ → ι → σ

namespace Machine

variable {σ ι τ κ : Type*} (M : Machine σ ι)

def Next (s s' : σ) : Prop := ∃ i, M.admits s i ∧ s' = M.fire s i

/-- Any number of admitted steps. -/
def Reaches : σ → σ → Prop := Relation.ReflTransGen M.Next

/-- Reached from a start state. -/
def Reachable (s : σ) : Prop := ∃ s₀, M.start s₀ ∧ M.Reaches s₀ s

/-- The same machine in an environment that also meets `C` at every step. -/
def restrict (C : σ → ι → Prop) : Machine σ ι :=
  { M with admits := fun s i => M.admits s i ∧ C s i }

variable {M}

theorem Reaches.preserves {P : σ → Prop} (step : ∀ s i, P s → M.admits s i → P (M.fire s i))
    {s s' : σ} (h : M.Reaches s s') (hs : P s) : P s' := by
  induction h with
  | refl => exact hs
  | tail _ hn ih =>
    obtain ⟨i, hi, rfl⟩ := hn
    exact step _ i ih hi

theorem Reachable.invariant {P : σ → Prop} (init : ∀ s, M.start s → P s)
    (step : ∀ s i, P s → M.admits s i → P (M.fire s i)) {s : σ} (h : M.Reachable s) : P s := by
  obtain ⟨s₀, h₀, hr⟩ := h
  exact hr.preserves step (init s₀ h₀)

theorem Reachable.start {s : σ} (h : M.start s) : M.Reachable s := ⟨s, h, .refl⟩

theorem Reachable.trans {s s' : σ} (h : M.Reachable s) (hr : M.Reaches s s') : M.Reachable s' := by
  obtain ⟨s₀, h₀, h⟩ := h
  exact ⟨s₀, h₀, h.trans hr⟩

theorem Reachable.fire {s : σ} (h : M.Reachable s) {i : ι} (hi : M.admits s i) :
    M.Reachable (M.fire s i) :=
  h.trans (.single ⟨i, hi, rfl⟩)

theorem Reachable.invariant_of_reachable {P : σ → Prop} (init : ∀ s, M.start s → P s)
    (step : ∀ s i, M.Reachable s → P s → M.admits s i → P (M.fire s i)) {s : σ}
    (h : M.Reachable s) : P s := by
  have both : M.Reachable s ∧ P s := h.invariant (P := fun s => M.Reachable s ∧ P s)
    (fun s hs => ⟨.start hs, init s hs⟩)
    fun s i hp hi => ⟨hp.1.fire hi, step s i hp.1 hp.2 hi⟩
  exact both.2

theorem Reaches.preserves_of_reachable {P : σ → Prop}
    (step : ∀ s i, M.Reachable s → P s → M.admits s i → P (M.fire s i))
    {s s' : σ} (hr : M.Reachable s) (h : M.Reaches s s') (hs : P s) : P s' := by
  have both : M.Reachable s' ∧ P s' := h.preserves (P := fun s => M.Reachable s ∧ P s)
    (fun s i hp hi => ⟨hp.1.fire hi, step s i hp.1 hp.2 hi⟩) ⟨hr, hs⟩
  exact both.2

theorem Reaches.of_restrict {C : σ → ι → Prop} {s s' : σ} (h : (M.restrict C).Reaches s s') :
    M.Reaches s s' :=
  Relation.ReflTransGen.mono (fun _ _ ⟨i, hi, he⟩ => ⟨i, hi.1, he⟩) _ _ h

theorem Reachable.of_restrict {C : σ → ι → Prop} {s : σ} (h : (M.restrict C).Reachable s) :
    M.Reachable s := by
  obtain ⟨s₀, h₀, hr⟩ := h
  exact ⟨s₀, h₀, hr.of_restrict⟩

/-- An environment that offers just the inputs that keep `P`: `P` holds in every state it
reaches, and from there the next input keeps `P` exactly if it is such an input. -/
theorem Reachable.exact {P : σ → Prop} {C : σ → ι → Prop} (init : ∀ s, M.start s → P s)
    (step : ∀ s i, M.Reachable s → P s → M.admits s i → (P (M.fire s i) ↔ C s i)) {s : σ}
    (h : (M.restrict C).Reachable s) :
    P s ∧ ∀ i, M.admits s i → (P (M.fire s i) ↔ C s i) := by
  have hs : P s := h.invariant_of_reachable (M := M.restrict C) init fun s i hr hp hi =>
    (step s i hr.of_restrict hp hi.1).mpr hi.2
  exact ⟨hs, fun i hi => step s i h.of_restrict hs hi⟩

/-- A map that turns every step into a run of another machine maps reachable
states to reachable states. -/
theorem Reachable.map {N : Machine τ κ} (f : σ → τ) (init : ∀ s, M.start s → N.Reachable (f s))
    (step : ∀ s i, M.admits s i → N.Reaches (f s) (f (M.fire s i))) {s : σ} (h : M.Reachable s) :
    N.Reachable (f s) :=
  h.invariant (P := fun s => N.Reachable (f s)) init fun s i hs hi => hs.trans (step s i hi)

section Execution

instance decidableRestrict {C : σ → ι → Prop} [∀ s i, Decidable (M.admits s i)]
    [∀ s i, Decidable (C s i)] : ∀ s i, Decidable ((M.restrict C).admits s i) :=
  fun s i => inferInstanceAs (Decidable (M.admits s i ∧ C s i))

variable (M)

/-- Feed a list of inputs to the machine. -/
def run (s : σ) (is : List ι) : σ := is.foldl M.fire s

def Accepts : σ → List ι → Prop
  | _, [] => True
  | s, i :: is => M.admits s i ∧ Accepts (M.fire s i) is

instance decidableAccepts [∀ s i, Decidable (M.admits s i)] :
    ∀ (s : σ) (is : List ι), Decidable (M.Accepts s is)
  | _, [] => .isTrue trivial
  | s, i :: is =>
    have := decidableAccepts (M.fire s i) is
    inferInstanceAs (Decidable (M.admits s i ∧ M.Accepts (M.fire s i) is))

variable {M}

theorem reaches_run {s : σ} {is : List ι} (h : M.Accepts s is) : M.Reaches s (M.run s is) := by
  induction is generalizing s with
  | nil => exact .refl
  | cons i is ih => exact .head ⟨i, h.1, rfl⟩ (ih h.2)

theorem reachable_run {s : σ} {is : List ι} (hs : M.start s) (h : M.Accepts s is) :
    M.Reachable (M.run s is) :=
  ⟨s, hs, reaches_run h⟩

end Execution

end Machine
