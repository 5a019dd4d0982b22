import AionCore.Lib.Ledger

/-!
# Runs of ledger moves

A run of moves keeps the ledger coherent, never changes an item apart from its phase,
never changes the phase of an item that is done, and keeps the first-in-first-out order
of every lane when its rebuilds are ordered.
-/

/-- `i` entered the log before `j`. -/
def Before {ι : Type*} (log : List ι) (i j : ι) : Prop :=
  ∃ a b : ℕ, a < b ∧ log[a]? = some i ∧ log[b]? = some j

namespace Before

variable {ι : Type*} {log : List ι} {i j : ι}

theorem mono (h : Before log i j) (more : List ι) : Before (log ++ more) i j := by
  obtain ⟨a, b, hab, ha, hb⟩ := h
  have hl : b < log.length := (List.getElem?_eq_some_iff.mp hb).1
  refine ⟨a, b, hab, ?_, ?_⟩
  · rw [List.getElem?_append_left (by omega), ha]
  · rw [List.getElem?_append_left hl, hb]

theorem of_mem_append (hi : i ∈ log) (hj : j ∈ more) : Before (log ++ more) i j := by
  obtain ⟨a, ha⟩ := List.mem_iff_getElem?.mp hi
  obtain ⟨b, hb⟩ := List.mem_iff_getElem?.mp hj
  have hl : a < log.length := (List.getElem?_eq_some_iff.mp ha).1
  refine ⟨a, log.length + b, by omega, ?_, ?_⟩
  · rw [List.getElem?_append_left hl, ha]
  · rw [List.getElem?_append_right (by omega), Nat.add_sub_cancel_left, hb]

theorem asymm (hn : log.Nodup) (h : Before log i j) : ¬Before log j i := by
  rintro ⟨a', b', hab', ha', hb'⟩
  obtain ⟨a, b, hab, ha, hb⟩ := h
  have hl : a < log.length := (List.getElem?_eq_some_iff.mp ha).1
  have hl' : a' < log.length := (List.getElem?_eq_some_iff.mp ha').1
  have h₁ : a = b' := (List.getElem?_inj hl hn).mp (ha.trans hb'.symm)
  have h₂ : a' = b := (List.getElem?_inj hl' hn).mp (ha'.trans hb.symm)
  omega

end Before

namespace Ledger

variable {ι τ π α κ ω : Type*}

/-- Items that can be claimed leave a lane in the order `R` in which they entered:
each queue lists them in this order, and the active claim took them, in this order,
from one queue whose remaining ones entered later. -/
structure Fifo (c : α → Bool) (R : ι → ι → Prop) (L : Ledger ι τ π α κ ω) : Prop where
  queue : ∀ t q, (((L.lane t).queue q).filter (L.bears c)).Pairwise R
  active : ∀ t k ids, (L.lane t).active = some (k, ids) →
    ∃ q, (∀ i ∈ ids, L.bears c i ∧ L.prioOf i = some q) ∧
      (ids ++ ((L.lane t).queue q).filter (L.bears c)).Pairwise R

theorem Fifo.mono {c : α → Bool} {R S : ι → ι → Prop} {L : Ledger ι τ π α κ ω}
    (h : Fifo c R L) (hRS : ∀ i j, R i j → S i j) : Fifo c S L where
  queue t q := (h.queue t q).imp fun hr => hRS _ _ hr
  active t k ids ha := by
    obtain ⟨q, hq, hp⟩ := h.active t k ids ha
    exact ⟨q, hq, hp.imp fun hr => hRS _ _ hr⟩

theorem Fifo.empty (c : α → Bool) (R : ι → ι → Prop) :
    Fifo c R (⟨fun _ => none, fun _ => Lane.empty⟩ : Ledger ι τ π α κ ω) where
  queue _ _ := by simp [Lane.empty]
  active _ _ _ h := by simp [Lane.empty] at h

variable [DecidableEq ι] [DecidableEq τ] [DecidableEq π]

/-- One move of the ledger. New items come after all others in the order `R`, a claim
takes every claimable item of one queue, and where `ordered` is promised a rebuilt
lane lists its claimable items in the order `R`. -/
inductive Move (c : α → Bool) (R : ι → ι → Prop) (ordered : Prop) :
    Ledger ι τ π α κ ω → Ledger ι τ π α κ ω → Prop
  | enter {L} (i : ι) (x : Item τ π α κ ω) (absent : L.item i = none)
      (queued : x.phase = .queued) (last : ∀ j y, L.item j = some y → R j i) :
      Move c R ordered L (L.enter i x)
  | claim {L} (t : τ) (k : κ) (q : π) (idle : (L.lane t).active = none) :
      Move c R ordered L (L.claim t k (((L.lane t).queue q).filter (L.bears c)))
  | settle {L} (t : τ) (ids : List ι) (o : ω)
      (queued : ∀ i ∈ ids, ∃ x, L.item i = some x ∧ x.lane = t ∧ x.phase = .queued) :
      Move c R ordered L (L.settle t ids o)
  | release {L} (t : τ) (f : ι → Option ω) : Move c R ordered L (L.release t f)
  | rebuild {L} (t : τ) (keep : List ι) (o : ω) (nodup : keep.Nodup)
      (live : ∀ i ∈ keep, ∃ x, L.item i = some x ∧ x.lane = t ∧ x.phase.isDone = false)
      (order : ordered →
        ∀ q, ((keep.filter fun i => L.prioOf i = some q).filter (L.bears c)).Pairwise R) :
      Move c R ordered L (L.rebuild t keep o)
  | halt {L} (o : ω) : Move c R ordered L (L.halt o)

abbrev Moves (c : α → Bool) (R : ι → ι → Prop) (ordered : Prop) :
    Ledger ι τ π α κ ω → Ledger ι τ π α κ ω → Prop :=
  Relation.ReflTransGen (Move c R ordered)

variable {c : α → Bool} {R : ι → ι → Prop} {ordered : Prop} {L L' : Ledger ι τ π α κ ω}

theorem Move.mono {S : ι → ι → Prop} (h : Move c R ordered L L') (hRS : ∀ i j, R i j → S i j) :
    Move c S ordered L L' := by
  cases h with
  | enter i x absent queued last =>
    exact .enter i x absent queued fun j y hj => hRS _ _ (last j y hj)
  | claim t k q idle => exact .claim t k q idle
  | settle t ids o queued => exact .settle t ids o queued
  | release t f => exact .release t f
  | rebuild t keep o nodup live order =>
    exact .rebuild t keep o nodup live fun ho q => (order ho q).imp fun hr => hRS _ _ hr
  | halt o => exact .halt o

theorem Move.coherent (h : Move c R ordered L L') (hL : L.Coherent) : L'.Coherent := by
  cases h with
  | enter i x absent queued _ => exact hL.enter absent queued
  | claim t k q idle =>
    exact hL.claim idle ((hL.nodup t q).filter _) fun i hi => ⟨q, List.mem_of_mem_filter hi⟩
  | settle t ids o queued => exact hL.settle queued
  | release t f => exact hL.release t f
  | rebuild t keep o nodup live _ => exact hL.rebuild o nodup live
  | halt o => exact coherent_halt L o

theorem Moves.coherent (h : Moves c R ordered L L') (hL : L.Coherent) : L'.Coherent := by
  induction h with
  | refl => exact hL
  | tail _ hm ih => exact hm.coherent ih

variable {x : Item τ π α κ ω}

/-- A move changes nothing of an existing item but its phase, and not even that once
the item is done. -/
theorem Move.persists (h : Move c R ordered L L') (hL : L.Coherent) {i : ι}
    (hx : L.item i = some x) :
    ∃ p, L'.item i = some { x with phase := p } ∧ (x.phase.isDone → p = x.phase) := by
  cases h with
  | enter j y absent _ _ =>
    have hne : i ≠ j := by
      rintro rfl
      simp [absent] at hx
    exact ⟨x.phase, by simp [Ledger.enter, hne, hx], fun _ => rfl⟩
  | claim t k q idle =>
    refine ⟨_, by rw [Ledger.claim, setLane_item, rephase_item, hx, Option.map_some], ?_⟩
    intro hd
    refine if_neg fun hi => ?_
    obtain ⟨y, hy, -, -, hp⟩ := hL.of_queued (List.mem_of_mem_filter hi)
    simp_all
  | settle t ids o queued =>
    refine ⟨_, by rw [Ledger.settle, setLane_item, rephase_item, hx, Option.map_some], ?_⟩
    intro hd
    refine if_neg fun hi => ?_
    obtain ⟨y, hy, -, hp⟩ := queued i hi
    simp_all
  | release t f =>
    cases ha : (L.lane t).active with
    | none => exact ⟨x.phase, by simp only [Ledger.release, ha, hx], fun _ => rfl⟩
    | some claim =>
      obtain ⟨k, ids⟩ := claim
      refine ⟨_,
        by rw [release_of_active f ha, setLane_item, rephase_item, hx, Option.map_some], ?_⟩
      intro hd
      refine if_neg fun hi => ?_
      obtain ⟨y, hy, -, hp⟩ := hL.of_active ha hi
      simp_all
  | rebuild t keep o _ _ _ =>
    refine ⟨_, by rw [Ledger.rebuild, setLane_item, rephase_item, hx, Option.map_some], ?_⟩
    intro hd
    simp [hd]
  | halt o =>
    refine ⟨_, by rw [Ledger.halt, rephase_item, hx, Option.map_some], ?_⟩
    intro hd
    simp [hd]

theorem Moves.persists (h : Moves c R ordered L L') (hL : L.Coherent) {i : ι}
    (hx : L.item i = some x) :
    ∃ p, L'.item i = some { x with phase := p } ∧ (x.phase.isDone → p = x.phase) := by
  induction h with
  | refl => exact ⟨x.phase, hx, fun _ => rfl⟩
  | @tail M M' hLM hm ih =>
    obtain ⟨p, hp, hd⟩ := ih
    obtain ⟨p', hp', hd'⟩ := hm.persists (Moves.coherent hLM hL) hp
    refine ⟨p', hp', fun hx => ?_⟩
    -- done before the last move, and with the phase it has always had
    have hpx := hd hx
    subst hpx
    exact hd' hx

omit [DecidableEq ι] [DecidableEq τ] [DecidableEq π] in
/-- An ordered list stays ordered when one element that comes after all others is added
at its end, or none. -/
theorem pairwise_append_last {l new : List ι} {i : ι} (hl : l.Pairwise R)
    (hnew : new = [] ∨ new = [i]) (last : ∀ j ∈ l, R j i) : (l ++ new).Pairwise R := by
  rcases hnew with rfl | rfl
  · rwa [List.append_nil]
  · refine List.pairwise_append.mpr ⟨hl, List.pairwise_singleton R i, fun j hj k hk => ?_⟩
    obtain rfl := List.mem_singleton.mp hk
    exact last j hj

/-- The claimable part of a queue, when an item has entered. -/
theorem filter_enter (hL : L.Coherent) {i : ι} (absent : L.item i = none)
    (x : Item τ π α κ ω) (u : τ) (q : π) :
    ∃ new, (new = [] ∨ new = [i]) ∧
      (((L.enter i x).lane u).queue q).filter ((L.enter i x).bears c) =
        ((L.lane u).queue q).filter (L.bears c) ++ new := by
  refine ⟨(if u = x.lane ∧ q = x.prio then [i] else []).filter ((L.enter i x).bears c), ?_, ?_⟩
  · split
    · cases hb : (L.enter i x).bears c i <;> simp [hb]
    · exact .inl rfl
  · rw [enter_queue, List.filter_append]
    congr 1
    refine List.filter_congr fun j hj => ?_
    obtain ⟨y, hy, -⟩ := hL.of_queued hj
    have hne : j ≠ i := by
      rintro rfl
      cases absent.symm.trans hy
    rw [bears, bears, enter_item_ne hne]

/-- An item enters last, so it comes after everything queued or claimed. -/
theorem Fifo.enter (h : Fifo c R L) (hL : L.Coherent) {i : ι} (absent : L.item i = none)
    (last : ∀ j y, L.item j = some y → R j i) :
    Fifo c R (L.enter i x) := by
  have hqueued : ∀ u q, ∀ j ∈ ((L.lane u).queue q).filter (L.bears c), R j i := by
    intro u q j hj
    obtain ⟨y, hy, -⟩ := hL.of_queued (List.mem_of_mem_filter hj)
    exact last j y hy
  constructor
  case queue =>
    intro u q
    obtain ⟨new, hnew, he⟩ := filter_enter (c := c) hL absent x u q
    rw [he]
    exact pairwise_append_last (h.queue u q) hnew (hqueued u q)
  case active =>
    intro u k ids hu
    rw [enter_active] at hu
    obtain ⟨q, hq, hp⟩ := h.active u k ids hu
    obtain ⟨new, hnew, he⟩ := filter_enter (c := c) hL absent x u q
    refine ⟨q, fun j hj => ?_, ?_⟩
    · obtain ⟨y, hy, -⟩ := hL.of_active hu hj
      have hne : j ≠ i := by
        rintro rfl
        cases absent.symm.trans hy
      rw [bears, prioOf, enter_item_ne hne]
      exact hq j hj
    · rw [he, ← List.append_assoc]
      refine pairwise_append_last hp hnew fun j hj => ?_
      rcases List.mem_append.mp hj with hj | hj
      · obtain ⟨y, hy, -⟩ := hL.of_active hu hj
        exact last j y hy
      · exact hqueued u q j hj

omit [DecidableEq π] in
theorem Fifo.claim (h : Fifo c R L) (hL : L.Coherent) {t : τ} (k : κ) (q : π) :
    Fifo c R (L.claim t k (((L.lane t).queue q).filter (L.bears c))) := by
  constructor
  case queue =>
    intro u p
    simp only [Ledger.claim, setLane_lane, bears_setLane, bears_rephase, rephase_lane]
    split
    · exact ((h.queue t p).sublist (List.filter_sublist.filter _))
    · exact h.queue u p
  case active =>
    intro u k' ids hu
    simp only [Ledger.claim, setLane_lane, rephase_lane] at hu
    simp only [Ledger.claim, setLane_lane, bears_setLane, bears_rephase, rephase_lane,
      prioOf_setLane, prioOf_rephase]
    split at hu
    · rename_i hut
      obtain ⟨-, rfl⟩ : k = k' ∧ ((L.lane t).queue q).filter (L.bears c) = ids := by simpa using hu
      refine ⟨q, fun i hi => ?_, ?_⟩
      · obtain ⟨hq, hb⟩ := List.mem_filter.mp hi
        obtain ⟨x, hx, -, hp, -⟩ := hL.of_queued hq
        exact ⟨hb, by simp [prioOf, hx, hp]⟩
      · -- every claimable item of the queue went into the claim
        have hnil : (((L.lane t).queue q).filter
            (· ∉ ((L.lane t).queue q).filter (L.bears c))).filter (L.bears c) = [] := by
          simp only [List.filter_filter, List.filter_eq_nil_iff, List.mem_filter]
          intro i hi
          simp [hi]
        rw [if_pos hut]
        simpa only [hnil, List.append_nil] using h.queue t q
    · rename_i hut
      simpa only [if_neg hut] using h.active u k' ids hu

omit [DecidableEq π] in
theorem Fifo.settle (h : Fifo c R L) (t : τ) (ids : List ι) (o : ω) :
    Fifo c R (L.settle t ids o) := by
  have hsub : ∀ u q, (((L.settle t ids o).lane u).queue q).Sublist ((L.lane u).queue q) := by
    intro u q
    simp only [Ledger.settle, setLane_lane, rephase_lane]
    split
    · rename_i hu
      exact hu ▸ List.filter_sublist
    · exact .refl _
  have hb : (L.settle t ids o).bears c = L.bears c := by simp [Ledger.settle]
  constructor
  case queue =>
    intro u q
    rw [hb]
    exact (h.queue u q).sublist ((hsub u q).filter _)
  case active =>
    intro u k ids' hu
    rw [settle_active] at hu
    obtain ⟨q, hq, hp⟩ := h.active u k ids' hu
    rw [hb]
    refine ⟨q, fun i hi => ?_, hp.sublist (((hsub u q).filter _).append_left ids')⟩
    simpa [Ledger.settle] using hq i hi

/-- A released claim returns to the front of the one queue it was taken from. -/
theorem Fifo.release (h : Fifo c R L) (t : τ) (f : ι → Option ω) : Fifo c R (L.release t f) := by
  cases ha : (L.lane t).active with
  | none => simpa only [Ledger.release, ha] using h
  | some claim =>
    obtain ⟨k, ids⟩ := claim
    rw [release_of_active f ha]
    constructor
    case queue =>
      intro u p
      simp only [setLane_lane, bears_setLane, bears_rephase, rephase_lane]
      split
      -- the claim was taken from the queue `q`, so it goes in front of what is left there
      · obtain ⟨q, hq, hp⟩ := h.active t k ids ha
        simp only [List.filter_append]
        by_cases hpq : p = q
        · subst p
          refine hp.sublist (List.Sublist.append_right ?_ _)
          exact List.filter_sublist.trans List.filter_sublist
        · have hnil : ids.filter (fun i => (f i).isNone ∧ L.prioOf i = some p) = [] := by
            refine List.filter_eq_nil_iff.mpr fun i hi => ?_
            simp [(hq i hi).2, Ne.symm hpq]
          rw [hnil]
          exact h.queue t p
      · exact h.queue u p
    case active =>
      intro u k' ids' hu
      simp only [setLane_lane, rephase_lane] at hu
      simp only [setLane_lane, bears_setLane, bears_rephase, rephase_lane, prioOf_setLane,
        prioOf_rephase]
      split at hu
      · simp at hu
      · rename_i hut
        simpa only [if_neg hut] using h.active u k' ids' hu

theorem Fifo.rebuild (h : Fifo c R L) (t : τ) {keep : List ι} (o : ω)
    (hk : ∀ q, ((keep.filter fun i => L.prioOf i = some q).filter (L.bears c)).Pairwise R) :
    Fifo c R (L.rebuild t keep o) := by
  constructor
  case queue =>
    intro u p
    simp only [Ledger.rebuild, setLane_lane, bears_setLane, bears_rephase, rephase_lane]
    split
    · exact hk p
    · exact h.queue u p
  case active =>
    intro u k ids hu
    simp only [Ledger.rebuild, setLane_lane, rephase_lane] at hu
    simp only [Ledger.rebuild, setLane_lane, bears_setLane, bears_rephase, rephase_lane,
      prioOf_setLane, prioOf_rephase]
    split at hu
    · simp at hu
    · rename_i hut
      simpa only [if_neg hut] using h.active u k ids hu

theorem Move.fifo (h : Move c R True L L') (hL : L.Coherent) (hF : Fifo c R L) : Fifo c R L' := by
  cases h with
  | enter i x absent _ last => exact hF.enter hL absent last
  | claim t k q _ => exact hF.claim hL k q
  | settle t ids o _ => exact hF.settle t ids o
  | release t f => exact hF.release t f
  | rebuild t keep o _ _ order => exact hF.rebuild t o (order trivial)
  | halt o => exact ⟨fun _ _ => by simp [Ledger.halt, Lane.empty],
      fun _ _ _ hu => by simp [Ledger.halt, Lane.empty] at hu⟩

theorem Moves.fifo (h : Moves c R True L L') (hL : L.Coherent) (hF : Fifo c R L) :
    Fifo c R L' := by
  induction h with
  | refl => exact hF
  | @tail M M' hLM hm ih => exact hm.fifo (Moves.coherent hLM hL) ih

end Ledger
