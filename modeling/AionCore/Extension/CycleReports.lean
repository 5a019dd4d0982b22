import AionCore.Extension.LoadOrder
import AionCore.Lib.ClosedPaths

/-!
# Extensions: the cycles that are reported

`dfs_find_cycles` reports a cycle for every step that leads back to its path. Every closed path
takes such a step: the extension of it that the search leaves first has been left before the next
one, which was therefore on the path.
-/

namespace AionCore.Extension

open Precedence Relation

variable {adj : String → List String} {known : List String}

namespace CycleSearch

variable {s : CycleSearch} {done : List String} {node next : String}

/-- A reported cycle ends with the step from `b` to `a`. -/
def Closes (s : CycleSearch) (b a : String) : Prop := ∃ c ∈ s.cycles, [b, a] <:+ c

/-- The search has left `done`, in this order, and is at the end of its path. -/
structure Traces (adj : String → List String) (s : CycleSearch) (done : List String) : Prop where
  nodup : (done ++ s.path).Nodup
  chain : s.path.IsChain fun b a => a ∈ adj b
  onStack : ∀ x, x ∈ s.onStack ↔ x ∈ s.path
  visited : ∀ x, x ∈ s.visited ↔ x ∈ done ∨ x ∈ s.path
  settled : Closed (fun b a => a ∈ adj b ∧ ¬s.Closes b a) done
  cycles : ∀ c ∈ s.cycles, ClosedPath (fun b a => a ∈ adj b) c

/-- The search has gone on from `s`, with the same path, and has left more. -/
structure Continues (adj : String → List String) (s : CycleSearch) (done : List String)
    (s' : CycleSearch) (done' : List String) : Prop where
  traces : s'.Traces adj done'
  path : s'.path = s.path
  done : done ⊆ done'
  cycles : s.cycles ⊆ s'.cycles

variable {s' : CycleSearch}

theorem Closes.mono (hcycles : s.cycles ⊆ s'.cycles) {b a : String} (h : s.Closes b a) :
    s'.Closes b a := by
  obtain ⟨c, hc, hend⟩ := h
  exact ⟨c, hcycles hc, hend⟩

theorem Continues.refl (h : s.Traces adj done) : Continues adj s done s done :=
  ⟨h, rfl, List.Subset.refl _, List.Subset.refl _⟩

theorem Continues.trans {s'' : CycleSearch} {done' done'' : List String}
    (h : Continues adj s done s' done') (h' : Continues adj s' done' s'' done'') :
    Continues adj s done s'' done'' :=
  ⟨h'.traces, h'.path.trans h.path, List.Subset.trans h.done h'.done,
    List.Subset.trans h.cycles h'.cycles⟩

theorem Continues.visited {done' : List String} (hs : s.Traces adj done)
    (h : Continues adj s done s' done') {x : String} (hx : x ∈ s.visited) : x ∈ s'.visited := by
  rw [h.traces.visited, h.path]
  exact ((hs.visited x).mp hx).imp_left fun hdone => h.done hdone

/-- A node that is entered ends the path. -/
theorem Traces.enter (h : s.Traces adj done) (hnode : node ∉ s.visited)
    (hstep : ∀ last ∈ s.path.getLast?, node ∈ adj last) : (s.enter node).Traces adj done := by
  have hfresh := mt (h.visited node).mpr hnode
  push Not at hfresh
  refine ⟨?_, ?_, fun x => ?_, fun x => ?_, h.settled, h.cycles⟩
  · show (done ++ (s.path ++ [node])).Nodup
    rw [← List.append_assoc, List.nodup_append]
    refine ⟨h.nodup, List.nodup_singleton _, ?_⟩
    rintro x hx y hy rfl
    obtain rfl := List.mem_singleton.mp hy
    rcases List.mem_append.mp hx with hx | hx
    · exact hfresh.1 hx
    · exact hfresh.2 hx
  · refine h.chain.append (List.isChain_singleton _) fun last hlast y hy => ?_
    obtain rfl := Option.some.inj hy
    exact hstep last hlast
  · show x ∈ s.onStack ++ [node] ↔ x ∈ s.path ++ [node]
    rw [List.mem_append, List.mem_append, h.onStack]
  · show x ∈ s.visited ++ [node] ↔ x ∈ done ∨ x ∈ s.path ++ [node]
    rw [List.mem_append, List.mem_append, h.visited, or_assoc]

/-- A step back to the path is reported. -/
theorem Traces.close (h : s.Traces adj done) (hlast : s.path.getLast? = some node)
    (hstep : next ∈ adj node) (hnext : next ∈ s.path) :
    Continues adj s done (s.close next) done ∧ (s.close next).Closes node next := by
  obtain ⟨pre, post, hpath⟩ := List.append_of_mem hnext
  have hnodup := (List.nodup_append.mp h.nodup).2.1
  have hchain := h.chain
  rw [hpath] at hnodup hchain hlast
  have hrest : s.path.drop (s.path.idxOf next) = next :: post := by
    have hpre : next ∉ pre := fun hmem =>
      (List.nodup_append.mp hnodup).2.2 next hmem next List.mem_cons_self rfl
    rw [hpath, List.idxOf_append_of_notMem hpre, List.idxOf_cons_self, Nat.add_zero,
      List.drop_left]
  have hend : (next :: post).getLast? = some node := by
    rwa [List.getLast?_append_of_ne_nil _ (List.cons_ne_nil _ _)] at hlast
  have hcycle : ClosedPath (fun b a => a ∈ adj b) (next :: post ++ [next]) :=
    closedPath_of_step hnodup hchain fun b hb => by
      obtain rfl := Option.some.inj (hend.symm.trans hb)
      exact hstep
  have hclose : s.close next = { s with cycles := s.cycles ++ [next :: post ++ [next]] } := by
    rw [CycleSearch.close, if_pos hnext, hrest]
  have hmore : s.cycles ⊆ (s.close next).cycles := by
    rw [hclose]
    exact List.subset_append_left _ _
  refine ⟨⟨⟨?_, ?_, ?_, ?_, ?_, ?_⟩, ?_, List.Subset.refl _, hmore⟩, ?_⟩
  · rw [hclose]
    exact h.nodup
  · rw [hclose]
    exact h.chain
  · rw [hclose]
    exact h.onStack
  · rw [hclose]
    exact h.visited
  · intro before b after hsplit a ha
    exact h.settled before b after hsplit a ⟨ha.1, fun hclosed => ha.2 (hclosed.mono hmore)⟩
  · rw [hclose]
    intro c hc
    rcases List.mem_append.mp hc with hc | hc
    · exact h.cycles c hc
    · obtain rfl := List.mem_singleton.mp hc
      exact hcycle
  · rw [hclose]
  · rw [hclose]
    refine ⟨_, List.mem_append_right _ (List.mem_singleton_self _), ?_⟩
    obtain ⟨init, hinit⟩ := List.getLast?_eq_some_iff.mp hend
    refine ⟨init, ?_⟩
    rw [hinit, List.append_assoc]
    rfl

/-- What is left has all its steps to nodes left before or reported. -/
theorem Traces.leave {path : List String} (h : s.Traces adj done) (hpath : s.path = path ++ [node])
    (hsteps : ∀ y ∈ adj node, y ∈ done ∨ s.Closes node y) :
    (s.leave node).Traces adj (done ++ [node]) ∧ (s.leave node).path = path := by
  have hnodup := h.nodup
  rw [hpath] at hnodup
  have hleft : (s.leave node).path = path := by
    show s.path.dropLast = path
    rw [hpath, List.dropLast_concat]
  have hnot : node ∉ path := fun hmem =>
    (List.nodup_append.mp (List.nodup_append.mp hnodup).2.1).2.2 node hmem node
      (List.mem_singleton_self _) rfl
  refine ⟨⟨?_, ?_, fun x => ?_, fun x => ?_, ?_, h.cycles⟩, hleft⟩
  · rw [hleft, List.append_assoc]
    have hperm : (path ++ [node]).Perm ([node] ++ path) := List.perm_append_comm
    exact (hperm.append_left done).nodup_iff.mp hnodup
  · rw [hleft]
    have hchain := h.chain
    rw [hpath] at hchain
    exact hchain.left_of_append
  · rw [hleft]
    show x ∈ s.onStack.filter (· ≠ node) ↔ x ∈ path
    rw [List.mem_filter, h.onStack, hpath, List.mem_append, List.mem_singleton, decide_eq_true_eq]
    constructor
    · rintro ⟨hx | hx, hne⟩
      · exact hx
      · exact absurd hx hne
    · intro hx
      refine ⟨.inl hx, ?_⟩
      rintro rfl
      exact hnot hx
  · rw [hleft]
    show x ∈ s.visited ↔ _
    rw [h.visited, hpath, List.mem_append, List.mem_append]
    tauto
  · exact Closed.snoc h.settled fun a ha => (hsteps a ha.1).resolve_right ha.2

end CycleSearch

def unvisited (known : List String) (s : CycleSearch) : ℕ := known.countP (· ∉ s.visited)

theorem unvisited_le {s s' : CycleSearch} (h : ∀ x ∈ s.visited, x ∈ s'.visited) :
    unvisited known s' ≤ unvisited known s := by
  apply List.countP_mono_left
  intro x _ hx
  exact decide_eq_true (mt (h x) (of_decide_eq_true hx))

theorem unvisited_enter {s : CycleSearch} {node : String} (hknown : node ∈ known)
    (hnode : node ∉ s.visited) : unvisited known (s.enter node) < unvisited known s := by
  obtain ⟨pre, post, rfl⟩ := List.append_of_mem hknown
  have hentered : ∀ x ∈ s.visited, x ∈ (s.enter node).visited :=
    fun x hx => List.mem_append_left _ hx
  have hpre : unvisited pre (s.enter node) ≤ unvisited pre s := unvisited_le hentered
  have hpost : unvisited post (s.enter node) ≤ unvisited post s := unvisited_le hentered
  have hself : node ∈ (s.enter node).visited :=
    List.mem_append_right _ (List.mem_singleton_self _)
  simp only [unvisited, List.countP_append, List.countP_cons, hself, hnode, not_true_eq_false,
    not_false_eq_true, decide_true, decide_false, if_true, Bool.false_eq_true, if_false] at *
  omega

def visitNext (adj : String → List String) (depth : ℕ) (s : CycleSearch) (next : String) :
    CycleSearch :=
  if next ∉ s.visited then dfsFindCycles adj depth s next
  else if next ∈ s.onStack then s.close next
  else s

/-- A search that is deep enough leaves the node that it is called for, having reported a cycle
for every step that led back to its path. -/
theorem dfsFindCycles_continues (hclosed : ∀ x ∈ known, ∀ y ∈ adj x, y ∈ known) (depth : ℕ) :
    ∀ {s : CycleSearch} {done : List String} {node : String}, s.Traces adj done →
      node ∈ known → node ∉ s.visited → (∀ last ∈ s.path.getLast?, node ∈ adj last) →
      unvisited known s ≤ depth →
      ∃ done', CycleSearch.Continues adj s done (dfsFindCycles adj depth s node) done' ∧
        node ∈ done' := by
  induction depth with
  | zero =>
    intro s done node hs hknown hnode _ hdepth
    have := unvisited_enter hknown hnode
    omega
  | succ depth ih =>
    intro s done node hs hknown hnode hstep hdepth
    have hentered := hs.enter hnode hstep
    have hrest : unvisited known (s.enter node) ≤ depth := by
      have := unvisited_enter hknown hnode
      omega
    have hnext : ∀ {s' : CycleSearch} {done' : List String} {next : String}, next ∈ adj node →
        CycleSearch.Continues adj (s.enter node) done s' done' →
        ∃ done'', CycleSearch.Continues adj s' done' (visitNext adj depth s' next) done'' ∧
          (next ∈ done'' ∨ (visitNext adj depth s' next).Closes node next) := by
      intro s' done' next hadj hs'
      have hlast : s'.path.getLast? = some node := by
        rw [hs'.path]
        exact List.getLast?_concat
      rw [visitNext]
      by_cases hvisited : next ∈ s'.visited
      · rw [if_neg (not_not_intro hvisited)]
        by_cases hpath : next ∈ s'.path
        · rw [if_pos ((hs'.traces.onStack next).mpr hpath)]
          obtain ⟨hcontinues, hcloses⟩ := hs'.traces.close hlast hadj hpath
          exact ⟨done', hcontinues, .inr hcloses⟩
        · rw [if_neg (mt (hs'.traces.onStack next).mp hpath)]
          have hdone := ((hs'.traces.visited next).mp hvisited).resolve_right hpath
          exact ⟨done', .refl hs'.traces, .inl hdone⟩
      · rw [if_pos hvisited]
        obtain ⟨done'', hcontinues, hdone⟩ := ih hs'.traces (hclosed node hknown next hadj)
          hvisited (fun last hmem => by
            obtain rfl := Option.some.inj (hlast.symm.trans hmem)
            exact hadj)
          ((unvisited_le fun x => hs'.visited hentered).trans hrest)
        exact ⟨done'', hcontinues, .inl hdone⟩
    -- each step taken leads to a node that is left, or is reported
    have hloop : ∀ (nexts : List String) {s' : CycleSearch} {done' : List String},
        nexts ⊆ adj node → CycleSearch.Continues adj (s.enter node) done s' done' →
        ∃ done'', CycleSearch.Continues adj s' done' (nexts.foldl (visitNext adj depth) s') done'' ∧
          ∀ y ∈ nexts, y ∈ done'' ∨ (nexts.foldl (visitNext adj depth) s').Closes node y := by
      intro nexts
      induction nexts with
      | nil =>
        intro s' done' _ hs'
        exact ⟨done', .refl hs'.traces, fun y hy => absurd hy List.not_mem_nil⟩
      | cons next nexts ihnexts =>
        intro s' done' hnexts hs'
        obtain ⟨done₁, h₁, hfirst⟩ := hnext (hnexts List.mem_cons_self) hs'
        obtain ⟨done₂, h₂, hothers⟩ :=
          ihnexts (fun y hy => hnexts (List.mem_cons_of_mem _ hy)) (hs'.trans h₁)
        refine ⟨done₂, h₁.trans h₂, fun y hy => ?_⟩
        rcases List.mem_cons.mp hy with rfl | hy
        · exact hfirst.imp (fun hdone => h₂.done hdone) fun hcloses => hcloses.mono h₂.cycles
        · exact hothers y hy
    obtain ⟨done', hs', hsteps⟩ := hloop (adj node) (List.Subset.refl _) (.refl hentered)
    obtain ⟨hleft, hpath⟩ := hs'.traces.leave hs'.path hsteps
    exact ⟨done' ++ [node], ⟨hleft, hpath, List.subset_append_of_subset_left _ hs'.done, hs'.cycles⟩,
      List.mem_append_right _ (List.mem_singleton_self _)⟩

section Involved

open LoadState (eq_of_name mem_sorted)

variable {extensions : List LoadedExtension} {involved : List String} {a b : String}

section

variable (hnames : (names extensions).Nodup)
include hnames

theorem extensionOf_eq_some {ext : LoadedExtension} :
    extensionOf extensions a = some ext ↔ ext ∈ extensions ∧ ext.manifest.name = a := by
  constructor
  · intro h
    refine ⟨List.mem_reverse.mp (List.mem_of_find?_eq_some h), ?_⟩
    simpa using List.find?_some h
  · rintro ⟨hext, rfl⟩
    cases hfound : extensionOf extensions ext.manifest.name with
    | none =>
      have hnone := List.find?_eq_none.mp hfound ext (List.mem_reverse.mpr hext)
      simp at hnone
    | some ext' =>
      have hext' := List.mem_reverse.mp (List.mem_of_find?_eq_some hfound)
      have hname : ext'.manifest.name = ext.manifest.name := by simpa using List.find?_some hfound
      rw [eq_of_name hnames hext' hext hname]

theorem mem_involvedDependencies (hinvolved : involved ⊆ names extensions) :
    a ∈ involvedDependencies extensions involved b ↔
      DependsOn extensions b a ∧ b ∈ involved ∧ a ∈ involved := by
  rw [involvedDependencies]
  cases hext : extensionOf extensions b with
  | none =>
    refine iff_of_false List.not_mem_nil ?_
    rintro ⟨⟨ext, hmem, hname, -⟩, -⟩
    cases hext.symm.trans ((extensionOf_eq_some hnames).mpr ⟨hmem, hname⟩)
  | some ext =>
    obtain ⟨hmem, rfl⟩ := (extensionOf_eq_some hnames).mp hext
    dsimp only
    split
    · next hb =>
      rw [mem_sorted, List.mem_filter, decide_eq_true_eq]
      constructor
      · rintro ⟨hkey, ha⟩
        exact ⟨⟨ext, hmem, rfl, mem_installedDependencies.mpr ⟨hkey, hinvolved ha⟩⟩, hb, ha⟩
      · rintro ⟨⟨ext', hmem', hname, hdep⟩, -, ha⟩
        obtain rfl := eq_of_name hnames hmem' hmem hname
        exact ⟨(mem_installedDependencies.mp hdep).1, ha⟩
    · next hb => exact iff_of_false List.not_mem_nil fun h => hb h.2.1

/-- The search of `find_cycles` leaves every extension that is involved. -/
theorem findCycles_traces (hinvolved : involved ⊆ names extensions) :
    ∃ (s : CycleSearch) (done : List String),
      s.Traces (involvedDependencies extensions involved) done ∧
        involved ⊆ done ∧ findCycles extensions involved = s.cycles := by
  have hclosed : ∀ x ∈ involved, ∀ y ∈ involvedDependencies extensions involved x, y ∈ involved :=
    fun x _ y hy => ((mem_involvedDependencies hnames hinvolved).mp hy).2.2
  have hloop : ∀ (nodes : List String) {s : CycleSearch} {done : List String}, nodes ⊆ involved →
      s.Traces (involvedDependencies extensions involved) done → s.path = [] →
      ∃ done', CycleSearch.Continues (involvedDependencies extensions involved) s done
        (nodes.foldl (fun s node =>
          if node ∉ s.visited then
            dfsFindCycles (involvedDependencies extensions involved) involved.length s node
          else s) s) done' ∧ nodes ⊆ done' := by
    intro nodes
    induction nodes with
    | nil =>
      intro s done _ hs _
      exact ⟨done, .refl hs, List.nil_subset _⟩
    | cons node nodes ih =>
      intro s done hnodes hs hpath
      have hothers : nodes ⊆ involved := fun y hy => hnodes (List.mem_cons_of_mem _ hy)
      rw [List.foldl_cons]
      by_cases hvisited : node ∈ s.visited
      · rw [if_neg (not_not_intro hvisited)]
        obtain ⟨done', hcontinues, hleft⟩ := ih hothers hs hpath
        have hdone := ((hs.visited node).mp hvisited).resolve_right (hpath ▸ List.not_mem_nil)
        exact ⟨done', hcontinues, List.cons_subset.mpr ⟨hcontinues.done hdone, hleft⟩⟩
      · rw [if_pos hvisited]
        obtain ⟨done₁, h₁, hdone⟩ := dfsFindCycles_continues hclosed involved.length hs
          (hnodes List.mem_cons_self) hvisited (fun last hlast => by rw [hpath] at hlast; cases hlast)
          List.countP_le_length
        obtain ⟨done', h₂, hleft⟩ := ih hothers h₁.traces (h₁.path.trans hpath)
        exact ⟨done', h₁.trans h₂, List.cons_subset.mpr ⟨h₂.done hdone, hleft⟩⟩
  have hstart : CycleSearch.Traces (involvedDependencies extensions involved)
      ⟨[], [], [], []⟩ [] :=
    ⟨List.nodup_nil, List.isChain_nil, fun _ => .rfl, fun x => by simp, closed_nil,
      fun c hc => absurd hc List.not_mem_nil⟩
  obtain ⟨done, hcontinues, hleft⟩ :=
    hloop (sorted involved) (fun x hx => mem_sorted.mp hx) hstart rfl
  exact ⟨_, done, hcontinues.traces, fun x hx => hleft (mem_sorted.mpr hx), rfl⟩

end

end Involved

end AionCore.Extension
