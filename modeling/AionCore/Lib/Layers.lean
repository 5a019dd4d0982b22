import Mathlib.Data.List.Basic
import Mathlib.Data.List.Induction
import Mathlib.Data.Option.Basic

/-!
# Layers over a map

A layer sets some of the entries of a map; layers are laid one after the other, and what a later one
sets counts.
-/

abbrev Layer (κ ν : Type*) := κ → Option ν

namespace Layer

variable {κ ν : Type*}

def onto (layer : Layer κ ν) (base : κ → ν) (k : κ) : ν := (layer k).getD (base k)

def lay (layers : List (Layer κ ν)) (base : κ → ν) : κ → ν :=
  layers.foldl (fun base layer => layer.onto base) base

def Clear (layer : Layer κ ν) : Prop := ∀ k, layer k = none

variable {layer : Layer κ ν} {layers layers' : List (Layer κ ν)} {base : κ → ν} {k : κ}

@[simp] theorem lay_nil : lay [] base = base := rfl

@[simp] theorem lay_cons : lay (layer :: layers) base = lay layers (layer.onto base) := rfl

theorem lay_append : lay (layers ++ layers') base = lay layers' (lay layers base) :=
  List.foldl_append

theorem lay_concat : lay (layers ++ [layer]) base = layer.onto (lay layers base) := by
  rw [lay_append]
  rfl

theorem Clear.onto_eq (h : layer.Clear) : layer.onto base = base := by
  funext k
  rw [onto, h k, Option.getD_none]

theorem lay_of_clear (h : ∀ layer ∈ layers, layer.Clear) : lay layers base = base := by
  induction layers generalizing base with
  | nil => rfl
  | cons layer layers ih =>
    rw [lay_cons, (h layer List.mem_cons_self).onto_eq]
    exact ih fun layer' hmem => h layer' (List.mem_cons_of_mem _ hmem)

theorem lay_apply : lay layers base k = (layers.filterMap (· k)).getLast?.getD (base k) := by
  induction layers using List.reverseRecOn with
  | nil => rfl
  | append_singleton layers layer ih =>
    rw [lay_concat, onto, List.filterMap_append]
    cases h : layer k with
    | none => simp [h, ih]
    | some v => simp [h]

end Layer
