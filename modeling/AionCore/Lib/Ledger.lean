import Mathlib.Data.List.Nodup
import Mathlib.Data.List.Pairwise
import Mathlib.Logic.Function.Basic
import Mathlib.Logic.Relation

/-!
# A ledger of prioritised work with exclusive claims

Work items live in lanes. An item waits in the queue of its own lane and
priority, is held by the one claim that is active in its lane, or is done. The six
moves that such a ledger can make keep the invariant that ties queues, claims and
phases together (`Coherent`) and the first-in-first-out order inside a lane (`Fifo`).
-/

/-- Where an item is in its life. -/
inductive Phase (κ ω : Type*) where
  | queued
  | claimed (key : κ)
  | done (outcome : ω)

def Phase.isDone {κ ω : Type*} : Phase κ ω → Bool
  | .done _ => true
  | _ => false

namespace Phase

variable {κ ω : Type*}

@[simp] theorem isDone_queued : (queued : Phase κ ω).isDone = false := rfl

@[simp] theorem isDone_claimed (k : κ) : (claimed k : Phase κ ω).isDone = false := rfl

@[simp] theorem isDone_done (o : ω) : (done o : Phase κ ω).isDone = true := rfl

end Phase

/-- A work item: its lane and priority, what it carries, and its phase. -/
structure Item (τ π α κ ω : Type*) where
  lane : τ
  prio : π
  tag : α
  phase : Phase κ ω

/-- A lane: one queue for each priority and at most one active claim. -/
structure Lane (ι π κ : Type*) where
  queue : π → List ι
  active : Option (κ × List ι)

/-- A lane without work. -/
def Lane.empty {ι π κ : Type*} : Lane ι π κ := ⟨fun _ => [], none⟩

/-- All items and all lanes. -/
@[ext] structure Ledger (ι τ π α κ ω : Type*) where
  item : ι → Option (Item τ π α κ ω)
  lane : τ → Lane ι π κ

namespace Ledger

variable {ι τ π α κ ω : Type*}

def rephase (L : Ledger ι τ π α κ ω) (f : ι → Item τ π α κ ω → Phase κ ω) :
    Ledger ι τ π α κ ω :=
  { L with item := fun i => (L.item i).map fun x => { x with phase := f i x } }

def prioOf (L : Ledger ι τ π α κ ω) (i : ι) : Option π := (L.item i).map (·.prio)

def bears (c : α → Bool) (L : Ledger ι τ π α κ ω) (i : ι) : Bool :=
  (L.item i).any fun x => c x.tag

theorem rephase_item (L : Ledger ι τ π α κ ω) (f) (i : ι) :
    (L.rephase f).item i = (L.item i).map fun x => { x with phase := f i x } := rfl

@[simp] theorem rephase_lane (L : Ledger ι τ π α κ ω) (f) : (L.rephase f).lane = L.lane := rfl

@[simp] theorem prioOf_rephase (L : Ledger ι τ π α κ ω) (f) (i : ι) :
    (L.rephase f).prioOf i = L.prioOf i := by
  simp only [prioOf, rephase_item, Option.map_map]
  rfl

@[simp] theorem bears_rephase (c : α → Bool) (L : Ledger ι τ π α κ ω) (f) :
    (L.rephase f).bears c = L.bears c := by
  funext i
  simp only [bears, rephase_item]
  cases L.item i <;> rfl

section Moves

variable [DecidableEq τ]

def setLane (L : Ledger ι τ π α κ ω) (t : τ) (l : Lane ι π κ) : Ledger ι τ π α κ ω :=
  { L with lane := Function.update L.lane t l }

@[simp] theorem setLane_item (L : Ledger ι τ π α κ ω) (t : τ) (l) :
    (L.setLane t l).item = L.item := rfl

theorem setLane_lane (L : Ledger ι τ π α κ ω) (t u : τ) (l) :
    (L.setLane t l).lane u = if u = t then l else L.lane u := by
  simp only [setLane, Function.update_apply]

@[simp] theorem prioOf_setLane (L : Ledger ι τ π α κ ω) (t : τ) (l) (i : ι) :
    (L.setLane t l).prioOf i = L.prioOf i := rfl

@[simp] theorem bears_setLane (c : α → Bool) (L : Ledger ι τ π α κ ω) (t : τ) (l) :
    (L.setLane t l).bears c = L.bears c := rfl

variable [DecidableEq ι]

/-- The items `ids` leave their queues and become the active claim `k` of the lane. -/
def claim (L : Ledger ι τ π α κ ω) (t : τ) (k : κ) (ids : List ι) : Ledger ι τ π α κ ω :=
  (L.rephase fun i x => if i ∈ ids then .claimed k else x.phase).setLane t
    ⟨fun q => ((L.lane t).queue q).filter (· ∉ ids), some (k, ids)⟩

/-- The queued items `ids` of the lane end with outcome `o`. -/
def settle (L : Ledger ι τ π α κ ω) (t : τ) (ids : List ι) (o : ω) : Ledger ι τ π α κ ω :=
  (L.rephase fun i x => if i ∈ ids then .done o else x.phase).setLane t
    { L.lane t with queue := fun q => ((L.lane t).queue q).filter (· ∉ ids) }

theorem settle_active (L : Ledger ι τ π α κ ω) (t : τ) (ids : List ι) (o : ω) (u : τ) :
    ((L.settle t ids o).lane u).active = (L.lane u).active := by
  simp only [settle, setLane_lane]
  split
  · rename_i hu
    rw [hu]
  · rfl

variable [DecidableEq π]

def enter (L : Ledger ι τ π α κ ω) (i : ι) (x : Item τ π α κ ω) : Ledger ι τ π α κ ω :=
  { L.setLane x.lane
      { L.lane x.lane with
        queue := fun q => (L.lane x.lane).queue q ++ if q = x.prio then [i] else [] } with
    item := Function.update L.item i (some x) }

theorem enter_item_ne {L : Ledger ι τ π α κ ω} {i j : ι} (h : j ≠ i) (x : Item τ π α κ ω) :
    (L.enter i x).item j = L.item j := Function.update_of_ne h _ _

theorem enter_active (L : Ledger ι τ π α κ ω) (i : ι) (x : Item τ π α κ ω) (u : τ) :
    ((L.enter i x).lane u).active = (L.lane u).active := by
  simp only [enter, setLane_lane]
  split
  · rename_i hu
    rw [hu]
  · rfl

theorem enter_queue (L : Ledger ι τ π α κ ω) (i : ι) (x : Item τ π α κ ω) (u : τ) (q : π) :
    ((L.enter i x).lane u).queue q =
      (L.lane u).queue q ++ if u = x.lane ∧ q = x.prio then [i] else [] := by
  simp only [enter, setLane_lane]
  by_cases hu : u = x.lane <;> simp [hu]

/-- The active claim of the lane ends: the items that `f` gives an outcome are
done, the others return to the front of their queues in the order of the claim. -/
def release (L : Ledger ι τ π α κ ω) (t : τ) (f : ι → Option ω) : Ledger ι τ π α κ ω :=
  match (L.lane t).active with
  | none => L
  | some (_, ids) =>
    (L.rephase fun i x => if i ∈ ids then (f i).elim .queued .done else x.phase).setLane t
      ⟨fun q => (ids.filter fun i => (f i).isNone ∧ L.prioOf i = some q) ++ (L.lane t).queue q,
        none⟩

/-- The lane is emptied: of its items that are not done, those in `keep` are queued
again in this order and the others end with outcome `o`. -/
def rebuild (L : Ledger ι τ π α κ ω) (t : τ) (keep : List ι) (o : ω) : Ledger ι τ π α κ ω :=
  (L.rephase fun i x =>
    if x.lane = t ∧ x.phase.isDone = false then if i ∈ keep then .queued else .done o
    else x.phase).setLane t ⟨fun q => keep.filter fun i => L.prioOf i = some q, none⟩

end Moves

/-- Every item that is not done ends with outcome `o`, and every lane is emptied. -/
def halt (L : Ledger ι τ π α κ ω) (o : ω) : Ledger ι τ π α κ ω :=
  { L.rephase fun _ x => if x.phase.isDone then x.phase else .done o with
    lane := fun _ => Lane.empty }

/-- Queues and claims list exactly the items whose phase says so. -/
structure Coherent (L : Ledger ι τ π α κ ω) : Prop where
  nodup : ∀ t q, ((L.lane t).queue q).Nodup
  queued_iff : ∀ t q i, i ∈ (L.lane t).queue q ↔
    ∃ x, L.item i = some x ∧ x.lane = t ∧ x.prio = q ∧ x.phase = .queued
  active_nodup : ∀ t k ids, (L.lane t).active = some (k, ids) → ids.Nodup
  claimed_iff : ∀ t k i, (∃ ids, (L.lane t).active = some (k, ids) ∧ i ∈ ids) ↔
    ∃ x, L.item i = some x ∧ x.lane = t ∧ x.phase = .claimed k

namespace Coherent

variable {L : Ledger ι τ π α κ ω}

theorem empty : Coherent (⟨fun _ => none, fun _ => Lane.empty⟩ : Ledger ι τ π α κ ω) where
  nodup _ _ := List.nodup_nil
  queued_iff _ _ _ := by simp [Lane.empty]
  active_nodup _ _ _ h := by simp [Lane.empty] at h
  claimed_iff _ _ _ := by simp [Lane.empty]

theorem of_queued (h : L.Coherent) {t : τ} {q : π} {i : ι} (hi : i ∈ (L.lane t).queue q) :
    ∃ x, L.item i = some x ∧ x.lane = t ∧ x.prio = q ∧ x.phase = .queued :=
  (h.queued_iff t q i).mp hi

theorem of_active (h : L.Coherent) {t : τ} {k : κ} {ids : List ι}
    (ha : (L.lane t).active = some (k, ids)) {i : ι} (hi : i ∈ ids) :
    ∃ x, L.item i = some x ∧ x.lane = t ∧ x.phase = .claimed k :=
  (h.claimed_iff t k i).mp ⟨ids, ha, hi⟩

theorem mem_active (h : L.Coherent) {t : τ} {k : κ} {ids : List ι}
    (ha : (L.lane t).active = some (k, ids)) {i : ι} {x : Item τ π α κ ω}
    (hx : L.item i = some x) (ht : x.lane = t) {k' : κ} (hk : x.phase = .claimed k') :
    k' = k ∧ i ∈ ids := by
  obtain ⟨ids', ha', hi⟩ := (h.claimed_iff t k' i).mpr ⟨x, hx, ht, hk⟩
  rw [ha] at ha'
  obtain ⟨rfl, rfl⟩ : k = k' ∧ ids = ids' := by simpa using ha'
  exact ⟨rfl, hi⟩

end Coherent

section Preservation

variable {L : Ledger ι τ π α κ ω}

theorem exists_rephase_iff {f : ι → Item τ π α κ ω → Phase κ ω} {i : ι}
    {P : Item τ π α κ ω → Prop} :
    (∃ x, (L.rephase f).item i = some x ∧ P x) ↔
      ∃ x, L.item i = some x ∧ P { x with phase := f i x } := by
  simp only [rephase_item, Option.map_eq_some_iff]
  constructor
  · rintro ⟨_, ⟨x, hx, rfl⟩, hp⟩
    exact ⟨x, hx, hp⟩
  · rintro ⟨x, hx, hp⟩
    exact ⟨_, ⟨x, hx, rfl⟩, hp⟩

/-- A halted ledger is coherent, whatever it was before. -/
theorem coherent_halt (L : Ledger ι τ π α κ ω) (o : ω) : (L.halt o).Coherent := by
  have hdone : ∀ i x, (L.halt o).item i = some x → x.phase.isDone := by
    intro i x hx
    simp only [Ledger.halt, rephase_item, Option.map_eq_some_iff] at hx
    obtain ⟨y, -, rfl⟩ := hx
    by_cases hy : y.phase.isDone <;> simp [hy]
  refine ⟨fun u q => List.nodup_nil, fun u q i => ?_, fun u k ids hu => ?_, fun u k i => ?_⟩
  · refine ⟨fun hi => by simp [Ledger.halt, Lane.empty] at hi, ?_⟩
    rintro ⟨x, hx, -, -, hp⟩
    simpa [hp] using hdone i x hx
  · simp [Ledger.halt, Lane.empty] at hu
  · refine ⟨fun hi => by simp [Ledger.halt, Lane.empty] at hi, ?_⟩
    rintro ⟨x, hx, -, hp⟩
    simpa [hp] using hdone i x hx

variable [DecidableEq ι] [DecidableEq τ]

theorem Coherent.claim (h : L.Coherent) {t : τ} {k : κ} {ids : List ι}
    (ha : (L.lane t).active = none) (hn : ids.Nodup)
    (hq : ∀ i ∈ ids, ∃ q, i ∈ (L.lane t).queue q) : (L.claim t k ids).Coherent := by
  have hm : ∀ i ∈ ids, ∃ x, L.item i = some x ∧ x.lane = t ∧ x.phase = .queued := by
    intro i hi
    obtain ⟨q, hi⟩ := hq i hi
    obtain ⟨x, hx, ht, -, hp⟩ := h.of_queued hi
    exact ⟨x, hx, ht, hp⟩
  constructor
  case nodup =>
    intro u q
    simp only [Ledger.claim, setLane_lane]
    split
    · exact (h.nodup t q).filter _
    · exact h.nodup u q
  case queued_iff =>
    intro u q i
    simp only [Ledger.claim, setLane_item, exists_rephase_iff, setLane_lane, rephase_lane]
    have hi := h.queued_iff u q i
    by_cases hc : i ∈ ids
    · obtain ⟨x, hx, ht, -⟩ := hm i hc
      by_cases hu : u = t
      · simp [hu, hc]
      · simp [hu, hc, hi, hx, ht, Ne.symm hu]
    · by_cases hu : u = t
      · subst u
        simp [hc, hi]
      · simp [hu, hc, hi]
  case active_nodup =>
    intro u k' ids' hu
    simp only [Ledger.claim, setLane_lane, rephase_lane] at hu
    split at hu
    · obtain ⟨-, rfl⟩ : k = k' ∧ ids = ids' := by simpa using hu
      exact hn
    · exact h.active_nodup u k' ids' hu
  case claimed_iff =>
    intro u k' i
    simp only [Ledger.claim, setLane_item, exists_rephase_iff, setLane_lane, rephase_lane]
    have hi := h.claimed_iff u k' i
    by_cases hc : i ∈ ids
    · obtain ⟨x, hx, ht, hp⟩ := hm i hc
      by_cases hu : u = t
      · simp [hu, hc, hx, ht]
      · simp [hu, hc, hi, hx, ht, Ne.symm hu]
    · by_cases hu : u = t
      · subst u
        simp [hc, ← hi, ha]
      · simp [hu, hc, hi]

theorem Coherent.settle (h : L.Coherent) {t : τ} {ids : List ι} {o : ω}
    (hq : ∀ i ∈ ids, ∃ x, L.item i = some x ∧ x.lane = t ∧ x.phase = .queued) :
    (L.settle t ids o).Coherent := by
  constructor
  case nodup =>
    intro u q
    simp only [Ledger.settle, setLane_lane]
    split
    · exact (h.nodup t q).filter _
    · exact h.nodup u q
  case queued_iff =>
    intro u q i
    simp only [Ledger.settle, setLane_item, exists_rephase_iff, setLane_lane, rephase_lane]
    have hi := h.queued_iff u q i
    by_cases hc : i ∈ ids
    · obtain ⟨x, hx, ht, -⟩ := hq i hc
      by_cases hu : u = t
      · simp [hu, hc]
      · simp [hu, hc, hi, hx, ht, Ne.symm hu]
    · by_cases hu : u = t
      · subst u
        simp [hc, hi]
      · simp [hu, hc, hi]
  case active_nodup =>
    intro u k ids' hu
    exact h.active_nodup u k ids' (settle_active L t ids o u ▸ hu)
  case claimed_iff =>
    intro u k i
    rw [settle_active, h.claimed_iff u k i]
    simp only [Ledger.settle, setLane_item, exists_rephase_iff]
    by_cases hc : i ∈ ids
    · obtain ⟨x, hx, -, hp⟩ := hq i hc
      simp [hc, hx, hp]
    · simp [hc]

variable [DecidableEq π]

theorem Coherent.enter (h : L.Coherent) {i : ι} {x : Item τ π α κ ω} (hi : L.item i = none)
    (hx : x.phase = .queued) : (L.enter i x).Coherent := by
  -- an item that is not there waits in no queue
  have hq : ∀ u q, i ∉ (L.lane u).queue q := by
    intro u q hm
    obtain ⟨y, hy, -⟩ := h.of_queued hm
    simp [hi] at hy
  constructor
  case nodup =>
    intro u q
    rw [enter_queue]
    split
    · refine List.nodup_append.mpr ⟨h.nodup u q, by simp, fun a ha b hb => ?_⟩
      rintro rfl
      obtain rfl : a = i := by simpa using hb
      exact hq u q ha
    · simpa using h.nodup u q
  case queued_iff =>
    intro u q j
    rw [enter_queue, List.mem_append, h.queued_iff u q j]
    simp only [Ledger.enter, Function.update_apply]
    by_cases hj : j = i
    · subst j
      by_cases hu : u = x.lane ∧ q = x.prio <;> simp [hi, hx, hu, eq_comm]
    · by_cases hu : u = x.lane ∧ q = x.prio <;> simp [hj, hu]
  case active_nodup =>
    intro u k ids ha
    exact h.active_nodup u k ids (enter_active L i x u ▸ ha)
  case claimed_iff =>
    intro u k j
    rw [enter_active, h.claimed_iff u k j]
    simp only [Ledger.enter, Function.update_apply]
    by_cases hj : j = i
    · subst j
      simp [hi, hx]
    · simp [hj]

theorem release_of_active {t : τ} {k : κ} {ids : List ι} (f : ι → Option ω)
    (ha : (L.lane t).active = some (k, ids)) :
    L.release t f =
      (L.rephase fun i x => if i ∈ ids then (f i).elim .queued .done else x.phase).setLane t
        ⟨fun q => (ids.filter fun i => (f i).isNone ∧ L.prioOf i = some q) ++ (L.lane t).queue q,
          none⟩ := by
  simp only [Ledger.release, ha]

theorem Coherent.release (h : L.Coherent) (t : τ) (f : ι → Option ω) :
    (L.release t f).Coherent := by
  cases ha : (L.lane t).active with
  | none => simpa only [Ledger.release, ha] using h
  | some claim =>
    obtain ⟨k, ids⟩ := claim
    -- the items of the claim, by the invariant
    have hm : ∀ i ∈ ids, ∃ x, L.item i = some x ∧ x.lane = t ∧ x.phase = .claimed k :=
      fun i hi => h.of_active ha hi
    rw [release_of_active f ha]
    constructor
    case nodup =>
      intro u q
      simp only [setLane_lane, rephase_lane]
      split
      · refine List.nodup_append.mpr
          ⟨(h.active_nodup t k ids ha).filter _, h.nodup t q, fun a hl b hr => ?_⟩
        -- a claimed item is not queued as well
        rintro rfl
        obtain ⟨x, hx, -, hp⟩ := hm a (List.mem_of_mem_filter hl)
        obtain ⟨y, hy, -, -, hq⟩ := h.of_queued hr
        simp_all
      · exact h.nodup u q
    case queued_iff =>
      intro u q i
      simp only [setLane_item, exists_rephase_iff, setLane_lane, rephase_lane]
      have hi := h.queued_iff u q i
      by_cases hc : i ∈ ids
      · obtain ⟨x, hx, ht, hp⟩ := hm i hc
        by_cases hu : u = t
        · subst u
          cases hf : f i <;> simp [hc, hi, hf, hx, ht, hp, prioOf]
        · simp [hu, hi, hx, ht, Ne.symm hu]
      · by_cases hu : u = t
        · subst u
          simp [hc, hi]
        · simp [hu, hc, hi]
    case active_nodup =>
      intro u k' ids' hu
      simp only [setLane_lane, rephase_lane] at hu
      split at hu
      · simp at hu
      · exact h.active_nodup u k' ids' hu
    case claimed_iff =>
      intro u k' i
      simp only [setLane_item, exists_rephase_iff, setLane_lane, rephase_lane]
      have hi := h.claimed_iff u k' i
      by_cases hc : i ∈ ids
      · obtain ⟨x, hx, ht, hp⟩ := hm i hc
        by_cases hu : u = t
        · cases hf : f i <;> simp [hu, hc]
        · simp [hu, hi, hx, ht, Ne.symm hu]
      · by_cases hu : u = t
        · subst u
          simp [hc, ← hi, ha]
        · simp [hu, hc, hi]

theorem Coherent.rebuild (h : L.Coherent) {t : τ} {keep : List ι} (o : ω) (hn : keep.Nodup)
    (hk : ∀ i ∈ keep, ∃ x, L.item i = some x ∧ x.lane = t ∧ x.phase.isDone = false) :
    (L.rebuild t keep o).Coherent := by
  constructor
  case nodup =>
    intro u q
    simp only [Ledger.rebuild, setLane_lane]
    split
    · exact hn.filter _
    · exact h.nodup u q
  case queued_iff =>
    intro u q i
    simp only [Ledger.rebuild, setLane_item, exists_rephase_iff, setLane_lane, rephase_lane]
    have hi := h.queued_iff u q i
    by_cases hu : u = t
    · subst u
      by_cases hc : i ∈ keep
      · obtain ⟨x, hx, ht, hp⟩ := hk i hc
        simp [hc, hx, ht, hp, prioOf]
      · simp only [if_true, List.mem_filter, hc, false_and, false_iff, not_exists, not_and]
        intro x hx ht hq
        cases hp : x.phase <;> simp [ht]
    · simp only [hu, if_false, hi]
      refine exists_congr fun x => and_congr_right fun hx => and_congr_right fun ht => ?_
      simp [ht, hu]
  case active_nodup =>
    intro u k ids hu
    simp only [Ledger.rebuild, setLane_lane, rephase_lane] at hu
    split at hu
    · simp at hu
    · exact h.active_nodup u k ids hu
  case claimed_iff =>
    intro u k i
    simp only [Ledger.rebuild, setLane_item, exists_rephase_iff, setLane_lane, rephase_lane]
    have hi := h.claimed_iff u k i
    by_cases hu : u = t
    · subst u
      simp only [if_true, reduceCtorEq, false_and, exists_false, false_iff, not_exists, not_and]
      intro x hx ht
      by_cases hc : i ∈ keep <;> cases hp : x.phase <;> simp [ht, hc]
    · simp only [hu, if_false, hi]
      refine exists_congr fun x => and_congr_right fun hx => and_congr_right fun ht => ?_
      simp [ht, hu]

end Preservation

end Ledger
