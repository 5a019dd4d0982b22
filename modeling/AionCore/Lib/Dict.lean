import Mathlib.Data.List.AList
import Mathlib.Data.List.Sort
import Mathlib.Logic.Function.Basic

/-!
# Dictionaries, iteration orders and supplies of fresh identifiers

`Dict` is Mathlib's association list with a constant value type, here with the in-place
updates of a mutable map, the arbitrary iteration order of a hash map (`IterOrder`), and an
inexhaustible source of pairwise distinct identifiers (`Supply`).
-/

/-- A finite map from `α` to `β`. -/
abbrev Dict (α β : Type*) := AList (fun _ : α => β)

namespace Dict

variable {α β : Type*}

def mapValues (f : α → β → β) (d : Dict α β) : Dict α β where
  entries := d.entries.map fun e => ⟨e.1, f e.1 e.2⟩
  nodupKeys := List.NodupKeys.map₂ f d.entries d.nodupKeys

/-- Keep the entries that satisfy `p`. -/
def retain (p : α → β → Bool) (d : Dict α β) : Dict α β where
  entries := d.entries.filter fun e => p e.1 e.2
  nodupKeys := d.nodupKeys.sublist List.filter_sublist

def values (d : Dict α β) : List β := d.entries.map fun e => e.2

variable [DecidableEq α]

/-- Update the value at one key, if the key is there. -/
def modify (a : α) (f : β → β) (d : Dict α β) : Dict α β :=
  d.mapValues fun k b => if k = a then f b else b

@[simp] theorem lookup_mapValues (f : α → β → β) (d : Dict α β) (a : α) :
    (d.mapValues f).lookup a = (d.lookup a).map (f a) :=
  List.dlookup_map₂ (γ := fun _ => β) (δ := fun _ => β) (l := d.entries) (f := f) a

@[simp] theorem lookup_modify (d : Dict α β) (a k : α) (f : β → β) :
    (Dict.modify a f d).lookup k = if k = a then (d.lookup k).map f else d.lookup k := by
  rw [modify, lookup_mapValues]
  by_cases h : k = a
  · simp [h]
  · simp [h]

variable {d : Dict α β}

/-- An update that leaves the value as it is leaves the map as it is. -/
theorem modify_eq_self {a : α} {f : β → β} (h : ∀ b, d.lookup a = some b → f b = b) :
    Dict.modify a f d = d := by
  apply AList.ext
  conv_rhs => rw [← List.map_id d.entries]
  refine List.map_congr_left fun e he => ?_
  change (⟨e.1, if e.1 = a then f e.2 else e.2⟩ : Sigma fun _ : α => β) = e
  by_cases hk : e.1 = a
  · have hlookup : d.lookup e.1 = some e.2 := AList.mem_lookup_iff.mpr he
    rw [if_pos hk, h e.2 (hk ▸ hlookup)]
  · rw [if_neg hk]

@[simp] theorem lookup_retain (p : α → β → Bool) (d : Dict α β) (a : α) :
    (d.retain p).lookup a = (d.lookup a).filter (p a) := by
  apply Option.ext
  intro b
  change b ∈ (d.retain p).lookup a ↔ b ∈ (d.lookup a).filter (p a)
  rw [AList.mem_lookup_iff, Option.mem_filter_iff, AList.mem_lookup_iff]
  exact List.mem_filter

theorem lookup_insert' (d : Dict α β) (a k : α) (b : β) :
    AList.lookup k (AList.insert a b d) = if k = a then some b else d.lookup k := by
  by_cases h : k = a
  · subst k
    simp
  · rw [if_neg h, AList.lookup_insert_ne h]

theorem lookup_erase' (d : Dict α β) (a k : α) :
    AList.lookup k (AList.erase a d) = if k = a then none else d.lookup k := by
  by_cases h : k = a
  · subst k
    simp
  · rw [if_neg h, AList.lookup_erase_ne h]

theorem values_insert (d : Dict α β) (a : α) (b : β) :
    values (AList.insert a b d) = b :: values (AList.erase a d) := by
  show (AList.insert a b d).entries.map _ = b :: (d.entries.kerase a).map _
  rw [AList.entries_insert, List.map_cons]

/-- Taking an entry out takes its value out. -/
theorem values_perm {a : α} {b : β} (h : d.lookup a = some b) :
    d.values.Perm (b :: values (AList.erase a d)) := by
  have hmem : (⟨a, b⟩ : Sigma fun _ : α => β) ∈ d.entries := AList.mem_lookup_iff.mp h
  have hkey : a ∈ d.entries.keys := List.mem_keys_of_mem hmem
  obtain ⟨b', before, after, hbefore, hentries, hrest⟩ := List.exists_of_kerase hkey
  have hb : b' = b := by
    have hlookup : d.lookup a = some b' :=
      AList.mem_lookup_iff.mpr (hentries ▸ List.mem_append_right _ List.mem_cons_self)
    exact Option.some.inj (hlookup.symm.trans h)
  subst hb
  show (d.entries.map _).Perm (b' :: (d.entries.kerase a).map _)
  rw [hrest, hentries, List.map_append, List.map_append, List.map_cons]
  exact List.perm_middle

omit [DecidableEq α] in
theorem values_retain (p : β → Bool) (d : Dict α β) :
    (d.retain fun _ b => p b).values = d.values.filter p := by
  simp only [values, retain, List.filter_map, Function.comp_def]

theorem erase_eq_self {a : α} (h : d.lookup a = none) : AList.erase a d = d := by
  apply AList.ext
  exact List.kerase_of_notMem_keys fun hkey => by
    have hmem : a ∈ d := hkey
    rw [AList.lookup_eq_none] at h
    exact h hmem

theorem mem_values {b : β} : b ∈ d.values ↔ ∃ a, d.lookup a = some b := by
  simp only [values, List.mem_map]
  constructor
  · rintro ⟨⟨a, b⟩, he, rfl⟩
    exact ⟨a, AList.mem_lookup_iff.mpr he⟩
  · rintro ⟨a, ha⟩
    exact ⟨⟨a, b⟩, AList.mem_lookup_iff.mp ha, rfl⟩

def sortedKeys [LinearOrder α] (d : Dict α β) : List α := d.keys.insertionSort (· ≤ ·)

end Dict

/-- An order in which a hash map may hand out its entries: any rearrangement. -/
structure IterOrder (α : Type*) where
  arrange : List α → List α
  perm : ∀ l, (arrange l).Perm l

namespace IterOrder

variable {α : Type*}

/-- The order in which the entries are stored. -/
def stored : IterOrder α := ⟨id, fun _ => .refl _⟩

@[simp] theorem mem_arrange (o : IterOrder α) {l : List α} {a : α} : a ∈ o.arrange l ↔ a ∈ l :=
  (o.perm l).mem_iff

end IterOrder

/-- An inexhaustible source of pairwise distinct identifiers. -/
structure Supply (α : Type*) where
  draw : ℕ → α
  fresh : Function.Injective draw

namespace Supply

variable {α : Type*}

/-- `a` is among the first `n` identifiers drawn from the supply. -/
def Drawn (u : Supply α) (n : ℕ) (a : α) : Prop := ∃ k < n, u.draw k = a

theorem not_drawn (u : Supply α) (n : ℕ) : ¬u.Drawn n (u.draw n) := by
  rintro ⟨k, hk, he⟩
  have := u.fresh he
  omega

theorem Drawn.mono {u : Supply α} {m n : ℕ} {a : α} (h : u.Drawn m a) (hmn : m ≤ n) :
    u.Drawn n a := by
  obtain ⟨k, hk, he⟩ := h
  exact ⟨k, by omega, he⟩

theorem drawn_draw (u : Supply α) {m n : ℕ} (h : m < n) : u.Drawn n (u.draw m) := ⟨m, h, rfl⟩

theorem Drawn.ne_draw {u : Supply α} {n : ℕ} {a : α} (h : u.Drawn n a) : a ≠ u.draw n := by
  rintro rfl
  exact u.not_drawn n h

def tallyOf (ch : Char) : Supply String where
  draw n := String.ofList (List.replicate (n + 1) ch)
  fresh m n h := by
    have hl := congrArg String.length h
    simpa using hl

/-- The identifiers `x`, `xx`, `xxx` and so on. -/
def tally : Supply String := tallyOf 'x'

theorem tally_ne_empty (n : ℕ) : tally.draw n ≠ "" := by
  intro h
  have hl := congrArg String.length h
  simp [tally, tallyOf] at hl

end Supply
