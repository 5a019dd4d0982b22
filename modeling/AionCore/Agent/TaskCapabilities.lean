import AionCore.Agent.TaskSlots

/-!
# Agents: the capabilities of the agent returned

The check of the capabilities sees the slot before the call enters it. A call gets what it asks for
if the slot that it enters and the build that it waits for offer it.
-/

namespace AionCore.Agent

open Registry

@[simp] theorem RuntimeCapabilities.satisfies_self (capabilities : RuntimeCapabilities) :
    capabilities.satisfies capabilities = true := by
  obtain ⟨version⟩ := capabilities
  cases version with
  | none => rfl
  | some version => simp [satisfies]

def FactoryReply.isBuilt : FactoryReply → Bool
  | .built _ _ _ => true
  | .pending | .failed => false

def BuildStage.Outside (stage : BuildStage) : Prop :=
  (∀ slot, stage ≠ .waiting slot) ∧ ∀ a, stage ≠ .returned a

theorem BuildStage.Turns.outside {stage stage' : BuildStage} (h : stage.Turns stage') :
    stage'.Outside := by
  cases h with
  | passed | outdated | killed => simp [BuildStage.Outside]

namespace TaskWorld

def Recorded (w : TaskWorld) (a : ℕ) (capabilities : RuntimeCapabilities) : Prop :=
  ∃ slot, w.cellAt slot = some ⟨a, capabilities⟩

/-- Whoever was returned an agent was returned one that can do what was asked. -/
def Capable (w : TaskWorld) : Prop :=
  ∀ (k : ℕ) (call : BuildCall) (a : ℕ), w.calls[k]? = some call → call.stage = .returned a →
    (∃ capabilities, w.Recorded a capabilities) ∧
      ∀ capabilities, w.Recorded a capabilities →
        capabilities.satisfies call.options.runtimeCapabilities = true

/-- A slot that is full when it is entered offers what the call asks for, and a factory call that
returns an agent offers what those ask for that wait for it. -/
def Offers (w : TaskWorld) : TaskStep → Prop
  | .advance k reply => ∀ call ∈ w.calls[k]?,
      (call.stage = .enter → ∀ managed ∈ w.initialisedManagedTask call.conversationId,
        managed.runtimeCapabilities.satisfies call.options.runtimeCapabilities = true) ∧
      (reply.isBuilt = true → ∀ slot ∈ call.stage.building?, ∀ other ∈ w.calls,
        other.stage = .waiting slot →
          call.options.runtimeCapabilities.satisfies other.options.runtimeCapabilities = true)
  | _ => True

/-- What the call waits for and what it was returned can do what it asks for. -/
structure Serves (w : TaskWorld) (call : BuildCall) : Prop where
  waiting : ∀ slot managed, call.stage = .waiting slot → w.cellAt slot = some managed →
    managed.runtimeCapabilities.satisfies call.options.runtimeCapabilities = true
  returned : ∀ a, call.stage = .returned a → ∃ capabilities, w.Recorded a capabilities ∧
    capabilities.satisfies call.options.runtimeCapabilities = true

instance decidableOffers (w : TaskWorld) : ∀ step, Decidable (w.Offers step) := by
  intro step
  cases step <;> dsimp only [Offers] <;> infer_instance

def Matched (w : TaskWorld) : Prop := ∀ call ∈ w.calls, w.Serves call

variable {setup : TaskSetup} {w w' : TaskWorld} {step : TaskStep} {call new : BuildCall}
  {k slot : ℕ}

theorem serves_of_outside (h : call.stage.Outside) : w.Serves call :=
  ⟨fun slot _ hstage => absurd hstage (h.1 slot), fun a hstage => absurd hstage (h.2 a)⟩

theorem Serves.cells (h : w.Serves call) (hcells : ∀ slot, w'.cellAt slot = w.cellAt slot) :
    w'.Serves call where
  waiting slot managed hstage hcell := h.waiting slot managed hstage (hcells slot ▸ hcell)
  returned a hstage := by
    obtain ⟨capabilities, ⟨slot, hslot⟩, hsatisfies⟩ := h.returned a hstage
    exact ⟨capabilities, ⟨slot, (hcells slot).trans hslot⟩, hsatisfies⟩

theorem Matched.frame (hw : w.Matched) (hcells : ∀ slot, w'.cellAt slot = w.cellAt slot)
    (hcalls : ∀ call ∈ w'.calls, call ∈ w.calls ∨ w'.Serves call) : w'.Matched := by
  intro call hcall
  obtain hold | hserves := hcalls call hcall
  · exact (hw call hold).cells hcells
  · exact hserves

theorem mem_calls_set (hcalls : w'.calls = w.calls.set k new) (hnew : w'.Serves new) :
    ∀ call ∈ w'.calls, call ∈ w.calls ∨ w'.Serves call := by
  intro call hcall
  rw [hcalls] at hcall
  obtain hold | rfl := List.mem_or_eq_of_mem_set hcall
  · exact .inl hold
  · exact .inr hnew

theorem mem_calls_add (hcalls : w'.calls = w.calls ++ [new]) (hnew : w'.Serves new) :
    ∀ call ∈ w'.calls, call ∈ w.calls ∨ w'.Serves call := by
  intro call hcall
  rw [hcalls] at hcall
  obtain hold | hadded := List.mem_append.mp hcall
  · exact .inl hold
  · rw [List.mem_singleton.mp hadded]
    exact .inr hnew

theorem cellAt_of_slots (hslots : w'.slots = w.slots) (slot : ℕ) :
    w'.cellAt slot = w.cellAt slot := by
  unfold cellAt
  rw [hslots]

/-- A slot that stays empty changes no cell. -/
theorem cellAt_set_empty {slot' : ℕ} {value value' : TaskSlot}
    (hslot' : w.slots[slot']? = some value) (hempty : value.cell = none)
    (hempty' : value'.cell = none) (hslots : w'.slots = w.slots.set slot' value') (slot : ℕ) :
    w'.cellAt slot = w.cellAt slot := by
  apply Option.ext
  intro managed
  constructor
  · intro h
    obtain h | ⟨-, h⟩ := cellAt_of_set hslot' hslots h
    · exact h
    · rw [hempty'] at h
      cases h
  · exact cellAt_set hslot' hempty hslots

theorem cellAt_add {value : TaskSlot} (hempty : value.cell = none)
    (hslots : w'.slots = w.slots ++ [value]) (slot : ℕ) : w'.cellAt slot = w.cellAt slot := by
  apply Option.ext
  intro managed
  rw [cellAt_eq_some, cellAt_eq_some, hslots]
  constructor
  · rintro ⟨initialiser, h⟩
    obtain h | ⟨-, rfl⟩ := getElem?_add.mp h
    · exact ⟨initialiser, h⟩
    · cases hempty
  · rintro ⟨initialiser, h⟩
    exact ⟨initialiser, getElem?_add_of_some h⟩

theorem cellAt_length (w : TaskWorld) : w.cellAt w.slots.length = none := by
  simp [cellAt]

theorem Matched.move (hw : w.Matched) (held : w.SlotsHeld) (hoffers : w.Offers step)
    (move : TaskMove setup w step w') : w'.Matched := by
  have hsame : SameTasks w w' → ∀ slot, w'.cellAt slot = w.cellAt slot := fun same =>
    same.cellAt
  cases move with
  | kept same calls _ =>
    exact hw.frame (hsame same) fun call hcall => .inl (calls ▸ hcall)
  | called _ _ _ same calls _ =>
    exact hw.frame (hsame same) (mem_calls_add calls (serves_of_outside (by simp [BuildStage.Outside])))
  | sent options _ same heq =>
    obtain ⟨new, hcheck, -, hcalls⟩ := calls_send setup w options
    rw [← heq] at hcalls
    exact hw.frame (hsame same)
      (mem_calls_add hcalls (serves_of_outside (by simp [BuildStage.Outside, hcheck])))
  | staged _ _ _ _ turns same calls _ =>
    exact hw.frame (hsame same) (mem_calls_set calls (serves_of_outside turns.outside))
  | refreshed _ _ _ _ same calls _ =>
    exact hw.frame (hsame same) (mem_calls_set calls (serves_of_outside (by simp [BuildStage.Outside])))
  | removed _ _ _ _ _ slots _ calls _ =>
    refine hw.frame (cellAt_of_slots slots) ?_
    obtain calls | ⟨_, _, _, -, calls⟩ := calls
    · exact fun call hcall => .inl (calls ▸ hcall)
    · exact mem_calls_set calls (serves_of_outside (by simp [BuildStage.Outside]))
  | joined k call slot reply shape hk hstage hstored same calls _ =>
    subst shape
    refine hw.frame (hsame same) (mem_calls_set calls ⟨?_, fun a h => (by cases h)⟩)
    intro slot' managed h hcell
    obtain rfl := BuildStage.waiting.inj h
    refine (hoffers call hk).1 hstage managed ?_
    rw [hsame same] at hcell
    exact Option.bind_eq_some_iff.mpr ⟨slot, hstored, hcell⟩
  | opened _ _ _ _ _ _ slots _ calls _ =>
    refine hw.frame (cellAt_add rfl slots)
      (mem_calls_set calls ⟨?_, fun a h => (by cases h)⟩)
    intro slot managed h hcell
    obtain rfl := BuildStage.waiting.inj h
    rw [cellAt_add rfl slots, cellAt_length] at hcell
    cases hcell
  | received k call slot managed hk hstage hcell same calls _ =>
    have hcall := hw call (List.mem_of_getElem? hk)
    refine hw.frame (hsame same) (mem_calls_set calls ⟨fun _ _ h => (by cases h), ?_⟩)
    intro a h
    obtain rfl := BuildStage.returned.inj h
    exact ⟨managed.runtimeCapabilities, ⟨slot, (hsame same slot).trans hcell⟩,
      hcall.waiting slot managed hstage hcell⟩
  | started _ _ _ _ _ hempty _ slots _ calls _ =>
    exact hw.frame (cellAt_set_empty hempty rfl rfl slots)
      (mem_calls_set calls (serves_of_outside (by simp [BuildStage.Outside])))
  | failed k call slot hk hbuilding _ slots _ calls _ =>
    exact hw.frame (cellAt_set_empty (held k call slot hk hbuilding) rfl rfl slots)
      (mem_calls_set calls (serves_of_outside (by simp [BuildStage.Outside])))
  | built k call slot agent reply shape built hk hbuilding _ slots _ calls _ =>
    obtain ⟨agentType, status, at', rfl, -⟩ := built
    subst shape
    have hempty := held k call slot hk hbuilding
    have hoffer := (hoffers call hk).2 rfl slot (by rw [hbuilding]; rfl)
    have hnew : w'.cellAt slot =
        some ⟨w.agents.length, call.options.runtimeCapabilities⟩ := by
      refine cellAt_eq_some.mpr ⟨none, ?_⟩
      rw [slots, getElem?_replace hempty]
      exact .inl ⟨rfl, rfl⟩
    intro other hother
    rw [calls] at hother
    obtain hold | rfl := List.mem_or_eq_of_mem_set hother
    · refine ⟨fun slot' managed hstage hcell => ?_, fun a hstage => ?_⟩
      · obtain hcell | ⟨rfl, hcell⟩ := cellAt_of_set hempty slots hcell
        · exact (hw other hold).waiting slot' managed hstage hcell
        · rw [← Option.some.inj hcell]
          exact hoffer other hold hstage
      · obtain ⟨capabilities, ⟨slot', hslot'⟩, hsatisfies⟩ := (hw other hold).returned a hstage
        exact ⟨capabilities, ⟨slot', cellAt_set hempty rfl slots hslot'⟩, hsatisfies⟩
    · refine ⟨fun _ _ h => (by cases h), fun a h => ?_⟩
      obtain rfl := BuildStage.returned.inj h
      exact ⟨call.options.runtimeCapabilities, ⟨slot, hnew⟩, RuntimeCapabilities.satisfies_self _⟩
  | killed _ _ _ _ _ slots _ calls _ | reported _ _ _ _ slots _ calls _ =>
    exact hw.frame (cellAt_of_slots slots) fun call hcall => .inl (calls ▸ hcall)

/-- As long as slots and builds offer what is asked of them, whoever is returned an agent is
returned one that can do what was asked. -/
theorem returned_agents_capable (h : ((machine setup).restrict Offers).Reachable w) :
    w.Capable := by
  have hmatched : w.Matched := h.invariant_of_reachable (P := Matched)
    (fun _ hs call hcall => (by subst hs; cases hcall))
    fun w _ hr hw hadmits =>
      hw.move (slotsHeld_of_reachable hr.of_restrict) hadmits.2 (move_fire setup w _)
  have hrecord := cellsRecord_of_reachable h.of_restrict
  intro k call a hk hstage
  obtain ⟨capabilities, hrecorded, hsatisfies⟩ :=
    (hmatched call (List.mem_of_getElem? hk)).returned a hstage
  refine ⟨⟨capabilities, hrecorded⟩, fun capabilities' hrecorded' => ?_⟩
  obtain ⟨slot, hslot⟩ := hrecorded
  obtain ⟨slot', hslot'⟩ := hrecorded'
  obtain ⟨agent, ha, hcapabilities⟩ := hrecord slot _ hslot
  obtain ⟨agent', ha', hcapabilities'⟩ := hrecord slot' _ hslot'
  have hagent : agent = agent' := Option.some.inj (ha.symm.trans ha')
  have hsame : capabilities' = capabilities :=
    calc
      capabilities' = agent'.options.runtimeCapabilities := hcapabilities'.symm
      _ = agent.options.runtimeCapabilities := by rw [hagent]
      _ = capabilities := hcapabilities
  rw [hsame]
  exact hsatisfies

def versionOptions (version : Option UInt32) : BuildTaskOptions :=
  ⟨⟨"u", "c", false, []⟩, ⟨version⟩⟩

def waitForPlainBuild : List TaskStep :=
  [.call "c" (versionOptions none), .advance 0 .pending, .advance 0 .pending, .advance 0 .pending,
    .call "c" (versionOptions (some 2)), .advance 1 .pending, .advance 1 .pending,
    .advance 0 (.built .acp none 0), .advance 1 .pending]

theorem waiting_call_gets_plain_agent :
    ¬∀ w, (machine .tally).Reachable w → w.Capable := by
  intro hclaim
  have haccepts : (machine .tally).Accepts empty waitForPlainBuild := by decide +kernel
  have h := hclaim _ (Machine.reachable_run rfl haccepts)
  have hcall : ((machine .tally).run empty waitForPlainBuild).calls[1]? =
      some ⟨"c", versionOptions (some 2), .returned 0, 0⟩ := by decide +kernel
  have hcell : ((machine .tally).run empty waitForPlainBuild).cellAt 0 = some ⟨0, ⟨none⟩⟩ := by
    decide +kernel
  have hcapable := (h 1 _ 0 hcall rfl).2 ⟨none⟩ ⟨0, hcell⟩
  cases hcapable

/-- A call that asks for version 2 finds an agent without it and rebuilds it. -/
def rebuildForVersion : List TaskStep :=
  [.call "c" (versionOptions none), .advance 0 .pending, .advance 0 .pending, .advance 0 .pending,
    .advance 0 (.built .acp none 0), .call "c" (versionOptions (some 2)), .advance 1 .pending,
    .advance 1 .pending, .advance 1 .pending, .advance 1 .pending, .advance 1 .pending,
    .advance 1 (.built .acp none 0)]

theorem returned_agents_capable_after_rebuild :
    ((machine .tally).run empty rebuildForVersion).Capable := by
  have haccepts : ((machine .tally).restrict Offers).Accepts empty rebuildForVersion := by
    decide +kernel
  exact returned_agents_capable (Machine.reachable_run rfl haccepts)

end TaskWorld

end AionCore.Agent
