import AionCore.Lib.Dict
import AionCore.Lib.Machine

/-!
# Channels: plugin instances

The lifecycle calls of `ChannelManager` in `manager.rs`, each split at its awaits: what is awaited
ends well or not, and the call goes on to its next await. A plugin that is dropped is not stopped by
that: its connection runs on its own task.
-/

namespace AionCore.Channel

/-- A started instance of the plugin, by its number. -/
structure PluginInstance where
  plugin : String
  number : ℕ
  deriving DecidableEq

/-- What awaits an instance that is brought up: its `initialize`, its `start`, and the update of the
row once it runs. -/
inductive StartStage where
  | initializing
  | starting
  | updating (number : ℕ)
  deriving DecidableEq

def StartStage.held (id : String) : StartStage → List PluginInstance
  | .updating n => [⟨id, n⟩]
  | _ => []

inductive EnableStage where
  | resolving
  | stopping (number : ℕ)
  | upserting
  | launching (stage : StartStage)
  deriving DecidableEq

inductive DisableStage where
  | removing
  | stopping (number : ℕ)
  | updating
  deriving DecidableEq

/-- A call under way. `restore_plugins` is at the first of the rows left, `shutdown` at the first of
the keys left. -/
inductive PluginCall where
  | enable (id : String) (stage : EnableStage)
  | disable (id : String) (stage : DisableStage)
  | restore (rows : List String) (stage : StartStage)
  | shutdown (keys : List String) (stopping : Option ℕ)
  deriving DecidableEq

/-- A call that has returned, with the instances that ran then. -/
inductive PluginReturn where
  | disable (id : String) (running : List PluginInstance)
  | shutdown (running : List PluginInstance)

/-- The map of the manager, the instances that were started and not stopped, and the calls under
way; as history the calls that have returned and the instances started by a call of `enable_plugin`
that returned an error. -/
structure ChannelManager where
  plugins : Dict String ℕ
  running : List PluginInstance
  nextNumber : ℕ
  calls : List PluginCall
  returned : List PluginReturn
  abandoned : List PluginInstance

/-- A call begins, or one that is under way goes on when what it awaits has ended, well or not. -/
inductive PluginStep where
  | enablePlugin (id : String)
  | disablePlugin (id : String)
  | restorePlugins (rows : List String)
  | shutdown
  | proceed (call : PluginCall) (ok : Bool)

namespace PluginCall

/-- The instance that the call has in hand: one that it stops, or one that it has started and not
yet stored. -/
def held : PluginCall → List PluginInstance
  | enable id (.stopping n) | disable id (.stopping n) | shutdown (id :: _) (some n) => [⟨id, n⟩]
  | enable id (.launching stage) | restore (id :: _) stage => stage.held id
  | _ => []

/-- The call awaits the `stop` of an instance. -/
def isStopping : PluginCall → Bool
  | enable _ (.stopping _) | disable _ (.stopping _) | shutdown _ (some _) => true
  | _ => false

def storing : PluginCall → Option String
  | enable id (.launching (.updating _)) | restore (id :: _) (.updating _) => some id
  | _ => none

/-- The plugin whose `disable_plugin` returns next. -/
def disabling : PluginCall → Option String
  | disable id .updating => some id
  | _ => none

/-- A `shutdown` that returns next. -/
def isShutDown : PluginCall → Bool
  | shutdown [] _ => true
  | _ => false

end PluginCall

namespace ChannelManager

def new : ChannelManager := ⟨∅, [], 0, [], [], []⟩

def goOn (w : ChannelManager) (call : PluginCall) : ChannelManager :=
  { w with calls := w.calls ++ [call] }

/-- The part of `stop_plugin` before its await: the instance is taken out of the map. -/
def takeOut (w : ChannelManager) (id : String) : ChannelManager :=
  { w with plugins := w.plugins.erase id }

/-- The `stop` of the instance has ended; an error is only logged. -/
def stopped (w : ChannelManager) (i : PluginInstance) (ok : Bool) : ChannelManager :=
  if ok then { w with running := w.running.erase i } else w

/-- The instance is brought up by one more await; there is a next stage unless it was stored or has
failed. -/
def launch (w : ChannelManager) (id : String) (stage : StartStage) (ok : Bool) :
    ChannelManager × Option StartStage :=
  match stage with
  | .initializing => (w, if ok then some .starting else none)
  | .starting =>
    if ok then
      ({ w with running := w.running ++ [⟨id, w.nextNumber⟩], nextNumber := w.nextNumber + 1 },
        some (.updating w.nextNumber))
    else (w, none)
  | .updating n => (if ok then { w with plugins := w.plugins.insert id n } else w, none)

/-- What a failed call of `enable_plugin` had started. -/
def startedBy (id : String) (stage : StartStage) (ok : Bool) : List PluginInstance :=
  match stage with
  | .updating n => if ok then [] else [⟨id, n⟩]
  | _ => []

def enablePlugin (w : ChannelManager) (id : String) (stage : EnableStage) (ok : Bool) :
    ChannelManager :=
  match stage with
  | .resolving =>
    if ok then
      match w.plugins.lookup id with
      | some n => (w.takeOut id).goOn (.enable id (.stopping n))
      | none => w.goOn (.enable id .upserting)
    else w
  | .stopping n => (w.stopped ⟨id, n⟩ ok).goOn (.enable id .upserting)
  | .upserting => if ok then w.goOn (.enable id (.launching .initializing)) else w
  | .launching stage =>
    match (w.launch id stage ok).2 with
    | some next => (w.launch id stage ok).1.goOn (.enable id (.launching next))
    | none =>
      { (w.launch id stage ok).1 with abandoned := w.abandoned ++ startedBy id stage ok }

def disablePlugin (w : ChannelManager) (id : String) (stage : DisableStage) (ok : Bool) :
    ChannelManager :=
  match stage with
  | .removing =>
    match w.plugins.lookup id with
    | some n => (w.takeOut id).goOn (.disable id (.stopping n))
    | none => w.goOn (.disable id .updating)
  | .stopping n => (w.stopped ⟨id, n⟩ ok).goOn (.disable id .updating)
  | .updating => { w with returned := w.returned ++ [.disable id w.running] }

def restorePlugins (w : ChannelManager) (rows : List String) (stage : StartStage) (ok : Bool) :
    ChannelManager :=
  match rows with
  | [] => w
  | id :: rest =>
    match (w.launch id stage ok).2 with
    | some next => (w.launch id stage ok).1.goOn (.restore (id :: rest) next)
    | none => (w.launch id stage ok).1.goOn (.restore rest .initializing)

def shutdown (w : ChannelManager) (keys : List String) (stopping : Option ℕ) (ok : Bool) :
    ChannelManager :=
  match keys, stopping with
  | [], _ => { w with returned := w.returned ++ [.shutdown w.running] }
  | key :: rest, some n => (w.stopped ⟨key, n⟩ ok).goOn (.shutdown rest none)
  | key :: rest, none =>
    match w.plugins.lookup key with
    | some n => (w.takeOut key).goOn (.shutdown (key :: rest) (some n))
    | none => w.goOn (.shutdown rest none)

/-- The call leaves its await. -/
def proceed (w : ChannelManager) (call : PluginCall) (ok : Bool) : ChannelManager :=
  let w := { w with calls := w.calls.erase call }
  match call with
  | .enable id stage => w.enablePlugin id stage ok
  | .disable id stage => w.disablePlugin id stage ok
  | .restore rows stage => w.restorePlugins rows stage ok
  | .shutdown keys stopping => w.shutdown keys stopping ok

/-- `shutdown` takes the keys of the map when it begins. -/
def fire (w : ChannelManager) : PluginStep → ChannelManager
  | .enablePlugin id => w.goOn (.enable id .resolving)
  | .disablePlugin id => w.goOn (.disable id .removing)
  | .restorePlugins rows => w.goOn (.restore rows .initializing)
  | .shutdown => w.goOn (.shutdown w.plugins.keys none)
  | .proceed call ok => w.proceed call ok

def machine : Machine ChannelManager PluginStep where
  start w := w = .new
  admits w
    | .proceed call _ => call ∈ w.calls
    | _ => True
  fire := fire

/-- A `stop` succeeds; the row of a started instance is updated and no instance is stored under its
id then; and when `disable_plugin` or `shutdown` returns, no instance that it should have stopped is
stored or in the hands of another call. -/
def Careful (w : ChannelManager) : PluginStep → Prop
  | .proceed call ok => (call.isStopping = true → ok = true) ∧
      (∀ id ∈ call.storing, ok = true ∧ w.plugins.lookup id = none) ∧
      (∀ id ∈ call.disabling, w.plugins.lookup id = none ∧
        ∀ other ∈ w.calls, ∀ i ∈ other.held, i.plugin ≠ id) ∧
      (call.isShutDown = true → w.plugins.keys = [] ∧ ∀ other ∈ w.calls, other.held = [])
  | _ => True

/-- With no call under way every running instance is the one stored under its id; none ran for a
plugin when it was disabled or the manager was shut down, and none that a failed call started. -/
structure AllOwned (w : ChannelManager) : Prop where
  stored : w.calls = [] → ∀ i ∈ w.running, w.plugins.lookup i.plugin = some i.number
  disabled : ∀ id running, .disable id running ∈ w.returned → ∀ i ∈ running, i.plugin ≠ id
  shutDown : ∀ running, .shutdown running ∈ w.returned → running = []
  abandoned : ∀ i ∈ w.abandoned, i ∉ w.running

instance decidableAdmits : ∀ w step, Decidable (machine.admits w step) := by
  intro w step
  cases step <;> (simp only [machine]; infer_instance)

instance decidableCareful : ∀ w step, Decidable (Careful w step) := by
  intro w step
  cases step <;> (simp only [Careful]; infer_instance)

variable {w : ChannelManager} {hand : List PluginInstance} {call : PluginCall} {id : String} {n : ℕ}
  {i : PluginInstance} {step : PluginStep}

def Placed (w : ChannelManager) (i : PluginInstance) : Prop :=
  w.plugins.lookup i.plugin = some i.number ∨ ∃ call ∈ w.calls, i ∈ call.held

/-- Every running instance is placed, those in the hand of a call between two awaits excepted. -/
structure Kept (w : ChannelManager) (hand : List PluginInstance) : Prop where
  placed : ∀ i ∈ w.running, i ∈ hand ∨ w.Placed i
  nodup : w.running.Nodup
  fresh : ∀ i ∈ w.running, i.number < w.nextNumber

theorem kept_new : new.Kept [] :=
  ⟨fun i h => (by cases h), List.nodup_nil, fun i h => (by cases h)⟩

/-- The call leaves its await. -/
theorem Kept.leave (h : w.Kept []) (call : PluginCall) :
    { w with calls := w.calls.erase call }.Kept call.held := by
  refine ⟨fun i hi => ?_, h.nodup, h.fresh⟩
  obtain hhand | hmap | ⟨other, hother, hheld⟩ := h.placed i hi
  · cases hhand
  · exact .inr (.inl hmap)
  · -- what the call holds comes into the hand
    by_cases hcall : other = call
    · exact .inl (hcall ▸ hheld)
    · exact .inr (.inr ⟨other, (List.mem_erase_of_ne hcall).mpr hother, hheld⟩)

theorem Kept.goOn (h : w.Kept hand) (hhand : ∀ i ∈ hand, i ∈ call.held) : (w.goOn call).Kept [] := by
  refine ⟨fun i hi => .inr ?_, h.nodup, h.fresh⟩
  obtain hin | hmap | ⟨other, hother, hheld⟩ := h.placed i hi
  · exact .inr ⟨call, List.mem_append_right _ (List.mem_singleton_self _), hhand i hin⟩
  · exact .inl hmap
  · exact .inr ⟨other, List.mem_append_left _ hother, hheld⟩

/-- The stored instance is taken into the hand. -/
theorem Kept.takeOut (h : w.Kept []) (hlookup : w.plugins.lookup id = some n) :
    (w.takeOut id).Kept [⟨id, n⟩] := by
  refine ⟨fun i hi => ?_, h.nodup, h.fresh⟩
  obtain hhand | hmap | hheld := h.placed i hi
  · cases hhand
  · -- at most one instance is stored under the id
    by_cases hid : i.plugin = id
    · obtain rfl : i.number = n := Option.some.inj (hmap.symm.trans (hid ▸ hlookup))
      refine .inl (List.mem_singleton.mpr ?_)
      rw [← hid]
    · refine .inr (.inl ?_)
      show AList.lookup i.plugin (AList.erase id w.plugins) = some i.number
      rw [AList.lookup_erase_ne hid]
      exact hmap
  · exact .inr (.inr hheld)

theorem Kept.stopped (h : w.Kept [i]) : (w.stopped i true).Kept [] := by
  refine ⟨fun other hother => .inr ?_, h.nodup.erase i, fun other hother =>
    h.fresh other (List.mem_of_mem_erase hother)⟩
  obtain ⟨hne, hmem⟩ := (List.Nodup.mem_erase_iff h.nodup).mp hother
  obtain hhand | hplaced := h.placed other hmem
  · exact absurd (List.mem_singleton.mp hhand) hne
  · exact hplaced

/-- A new instance is started and in the hand. -/
theorem Kept.started (h : w.Kept []) (id : String) :
    { w with
      running := w.running ++ [(⟨id, w.nextNumber⟩ : PluginInstance)]
      nextNumber := w.nextNumber + 1 }.Kept [⟨id, w.nextNumber⟩] := by
  have hcases : ∀ {i : PluginInstance}, i ∈ w.running ++ [⟨id, w.nextNumber⟩] →
      i ∈ w.running ∨ i = ⟨id, w.nextNumber⟩ := fun hi =>
    (List.mem_append.mp hi).imp_right List.mem_singleton.mp
  refine ⟨fun i hi => ?_, ?_, fun i hi => ?_⟩
  · obtain hold | rfl := hcases hi
    · exact (h.placed i hold).imp (fun hin => (by cases hin)) fun hplaced => hplaced
    · exact .inl (List.mem_singleton_self _)
  · refine List.nodup_append.mpr ⟨h.nodup, List.nodup_singleton _, fun i hi j hj hij => ?_⟩
    have hfresh := h.fresh i hi
    rw [hij, List.mem_singleton.mp hj] at hfresh
    exact Nat.lt_irrefl _ hfresh
  · obtain hold | rfl := hcases hi
    · exact Nat.lt_succ_of_lt (h.fresh i hold)
    · exact Nat.lt_succ_self _

/-- What was in the hand is stored where nothing is stored. -/
theorem Kept.store (h : w.Kept [⟨id, n⟩]) (hfree : w.plugins.lookup id = none) :
    { w with plugins := w.plugins.insert id n }.Kept [] := by
  refine ⟨fun i hi => .inr ?_, h.nodup, h.fresh⟩
  obtain hhand | hmap | hheld := h.placed i hi
  · obtain rfl := List.mem_singleton.mp hhand
    exact .inl (AList.lookup_insert _)
  · have hid : i.plugin ≠ id := by
      intro hid
      rw [hid, hfree] at hmap
      cases hmap
    exact .inl ((AList.lookup_insert_ne hid).trans hmap)
  · exact .inr hheld

variable {ok : Bool} {stage : StartStage}

/-- An instance is brought up by one more await, and stored if nothing is stored under its id. -/
theorem Kept.launch (h : w.Kept (stage.held id))
    (hstore : ∀ n, stage = .updating n → ok = true ∧ w.plugins.lookup id = none) :
    (w.launch id stage ok).1.Kept (((w.launch id stage ok).2.map (StartStage.held id)).getD []) := by
  cases stage with
  | initializing => cases ok <;> exact h
  | starting =>
    cases ok with
    | false => exact h
    | true => exact h.started id
  | updating n =>
    obtain ⟨rfl, hfree⟩ := hstore n rfl
    exact h.store hfree

theorem Kept.enablePlugin {stage : EnableStage} (h : w.Kept (PluginCall.enable id stage).held)
    (hstop : (PluginCall.enable id stage).isStopping = true → ok = true)
    (hstore : ∀ id' ∈ (PluginCall.enable id stage).storing,
      ok = true ∧ w.plugins.lookup id' = none) :
    (w.enablePlugin id stage ok).Kept [] := by
  cases stage with
  | resolving =>
    cases ok with
    | false => exact h
    | true =>
      simp only [ChannelManager.enablePlugin, if_true]
      cases hlookup : w.plugins.lookup id with
      | none => exact h.goOn fun i hi => (by cases hi)
      | some n => exact (Kept.takeOut h hlookup).goOn fun i hi => hi
  | stopping n =>
    obtain rfl := hstop rfl
    exact (Kept.stopped h).goOn fun i hi => (by cases hi)
  | upserting =>
    cases ok with
    | false => exact h
    | true => exact h.goOn fun i hi => (by cases hi)
  | launching stage =>
    have hlaunch : (w.launch id stage ok).1.Kept _ := Kept.launch h fun n hn => by
      subst hn
      exact hstore id rfl
    simp only [ChannelManager.enablePlugin]
    cases hnext : (w.launch id stage ok).2 with
    | none =>
      rw [hnext] at hlaunch
      exact ⟨hlaunch.placed, hlaunch.nodup, hlaunch.fresh⟩
    | some next =>
      rw [hnext] at hlaunch
      exact hlaunch.goOn fun i hi => hi

theorem Kept.disablePlugin {stage : DisableStage} (h : w.Kept (PluginCall.disable id stage).held)
    (hstop : (PluginCall.disable id stage).isStopping = true → ok = true) :
    (w.disablePlugin id stage ok).Kept [] := by
  cases stage with
  | removing =>
    simp only [ChannelManager.disablePlugin]
    cases hlookup : w.plugins.lookup id with
    | none => exact h.goOn fun i hi => (by cases hi)
    | some n => exact (Kept.takeOut h hlookup).goOn fun i hi => hi
  | stopping n =>
    obtain rfl := hstop rfl
    exact (Kept.stopped h).goOn fun i hi => (by cases hi)
  | updating => exact ⟨h.placed, h.nodup, h.fresh⟩

theorem Kept.restorePlugins {rows : List String} (h : w.Kept (PluginCall.restore rows stage).held)
    (hstore : ∀ id ∈ (PluginCall.restore rows stage).storing,
      ok = true ∧ w.plugins.lookup id = none) :
    (w.restorePlugins rows stage ok).Kept [] := by
  cases rows with
  | nil => exact h
  | cons id rest =>
    have hlaunch : (w.launch id stage ok).1.Kept _ := Kept.launch h fun n hn => by
      subst hn
      exact hstore id rfl
    simp only [ChannelManager.restorePlugins]
    cases hnext : (w.launch id stage ok).2 with
    | none =>
      rw [hnext] at hlaunch
      exact hlaunch.goOn fun i hi => (by cases hi)
    | some next =>
      rw [hnext] at hlaunch
      exact hlaunch.goOn fun i hi => hi

theorem Kept.shutdown {keys : List String} {stopping : Option ℕ}
    (h : w.Kept (PluginCall.shutdown keys stopping).held)
    (hstop : (PluginCall.shutdown keys stopping).isStopping = true → ok = true) :
    (w.shutdown keys stopping ok).Kept [] := by
  cases keys with
  | nil => exact ⟨h.placed, h.nodup, h.fresh⟩
  | cons key rest =>
    cases stopping with
    | some n =>
      obtain rfl := hstop rfl
      exact (Kept.stopped h).goOn fun i hi => (by cases hi)
    | none =>
      simp only [ChannelManager.shutdown]
      cases hlookup : w.plugins.lookup key with
      | none => exact h.goOn fun i hi => (by cases hi)
      | some n => exact (Kept.takeOut h hlookup).goOn fun i hi => hi

theorem Kept.fire (h : w.Kept []) (hcareful : w.Careful step) : (w.fire step).Kept [] := by
  have hnone : ∀ {call : PluginCall}, call.held = [] → (w.goOn call).Kept [] := fun _ =>
    h.goOn fun i hi => (by cases hi)
  cases step with
  | enablePlugin id => exact hnone rfl
  | disablePlugin id => exact hnone rfl
  | restorePlugins rows => exact h.goOn fun i hi => (by cases hi)
  | shutdown => exact h.goOn fun i hi => (by cases hi)
  | proceed call ok =>
    obtain ⟨hstop, hstore, -, -⟩ := hcareful
    have hleft := h.leave call
    cases call with
    | enable id stage => exact hleft.enablePlugin hstop hstore
    | disable id stage => exact hleft.disablePlugin hstop
    | restore rows stage => exact hleft.restorePlugins hstore
    | shutdown keys stopping => exact hleft.shutdown hstop

@[simp] theorem goOn_returned : (w.goOn call).returned = w.returned := rfl

@[simp] theorem goOn_abandoned : (w.goOn call).abandoned = w.abandoned := rfl

@[simp] theorem takeOut_returned : (w.takeOut id).returned = w.returned := rfl

@[simp] theorem takeOut_abandoned : (w.takeOut id).abandoned = w.abandoned := rfl

@[simp] theorem stopped_returned (ok : Bool) : (w.stopped i ok).returned = w.returned := by
  cases ok <;> rfl

@[simp] theorem stopped_abandoned (ok : Bool) : (w.stopped i ok).abandoned = w.abandoned := by
  cases ok <;> rfl

@[simp] theorem launch_returned (stage : StartStage) (ok : Bool) :
    (w.launch id stage ok).1.returned = w.returned := by
  cases stage <;> cases ok <;> rfl

@[simp] theorem launch_abandoned (stage : StartStage) (ok : Bool) :
    (w.launch id stage ok).1.abandoned = w.abandoned := by
  cases stage <;> cases ok <;> rfl

/-- What a call that leaves its last await reports. -/
def report (w : ChannelManager) : PluginCall → List PluginReturn
  | .disable id .updating => [.disable id w.running]
  | .shutdown [] _ => [.shutdown w.running]
  | _ => []

def abandons (call : PluginCall) (ok : Bool) : List PluginInstance :=
  match call with
  | .enable id (.launching stage) => startedBy id stage ok
  | _ => []

/-- What a step adds to the history. -/
theorem recorded_proceed (call : PluginCall) (ok : Bool) :
    (w.proceed call ok).returned = w.returned ++ w.report call ∧
      (w.proceed call ok).abandoned = w.abandoned ++ abandons call ok := by
  cases call with
  | enable id stage =>
    cases stage with
    | resolving =>
      cases ok with
      | false => simp [proceed, enablePlugin, report, abandons]
      | true =>
        cases hlookup : w.plugins.lookup id <;>
          simp [proceed, enablePlugin, report, abandons, hlookup]
    | stopping n => simp [proceed, enablePlugin, report, abandons]
    | upserting => cases ok <;> simp [proceed, enablePlugin, report, abandons]
    | launching stage =>
      -- a launch that has a next stage has not failed
      cases stage <;> cases ok <;>
        simp [proceed, enablePlugin, launch, startedBy, report, abandons]
  | disable id stage =>
    cases stage with
    | removing =>
      cases hlookup : w.plugins.lookup id <;>
        simp [proceed, disablePlugin, report, abandons, hlookup]
    | stopping n => simp [proceed, disablePlugin, report, abandons]
    | updating => simp [proceed, disablePlugin, report, abandons]
  | restore rows stage =>
    cases rows with
    | nil => simp [proceed, restorePlugins, report, abandons]
    | cons id rest =>
      simp only [proceed, restorePlugins, report, abandons, List.append_nil]
      split <;> simp
  | shutdown keys stopping =>
    cases keys with
    | nil => simp [proceed, shutdown, report, abandons]
    | cons key rest =>
      cases stopping with
      | some n => simp [proceed, shutdown, report, abandons]
      | none =>
        cases hlookup : w.plugins.lookup key <;>
          simp [proceed, shutdown, report, abandons, hlookup]

/-- A call that stores what it has started abandons nothing. -/
theorem abandons_eq_nil {call : PluginCall} (hstore : ∀ id ∈ call.storing, ok = true) :
    abandons call ok = [] := by
  cases call with
  | enable id stage =>
    cases stage with
    | launching stage =>
      cases stage with
      | updating n =>
        rw [hstore id rfl]
        rfl
      | initializing => rfl
      | starting => rfl
    | resolving => rfl
    | stopping n => rfl
    | upserting => rfl
  | disable => rfl
  | restore => rfl
  | shutdown => rfl

/-- What has returned has left none running, and nothing was abandoned. -/
structure Reported (w : ChannelManager) : Prop where
  disabled : ∀ id running, .disable id running ∈ w.returned → ∀ i ∈ running, i.plugin ≠ id
  shutDown : ∀ running, .shutdown running ∈ w.returned → running = []
  abandoned : w.abandoned = []

theorem Kept.none_disabled (h : w.Kept []) (hfree : w.plugins.lookup id = none)
    (hothers : ∀ other ∈ w.calls, ∀ i ∈ other.held, i.plugin ≠ id) :
    ∀ i ∈ w.running, i.plugin ≠ id := by
  intro i hi hid
  obtain hhand | hmap | ⟨other, hother, hheld⟩ := h.placed i hi
  · cases hhand
  · rw [hid, hfree] at hmap
    cases hmap
  · exact hothers other hother i hheld hid

/-- Nothing runs when the manager is shut down. -/
theorem Kept.none_shutDown (h : w.Kept []) (hempty : w.plugins.keys = [])
    (hothers : ∀ other ∈ w.calls, other.held = []) : w.running = [] := by
  refine List.eq_nil_iff_forall_not_mem.mpr fun i hi => ?_
  obtain hhand | hmap | ⟨other, hother, hheld⟩ := h.placed i hi
  · cases hhand
  · have hkey : i.plugin ∈ w.plugins.keys :=
      AList.mem_keys.mpr (AList.lookup_isSome.mp (by rw [hmap]; rfl))
    rw [hempty] at hkey
    cases hkey
  · rw [hothers other hother] at hheld
    cases hheld

theorem Reported.fire (h : w.Reported) (hkept : w.Kept []) (hcareful : w.Careful step) :
    (w.fire step).Reported := by
  cases step with
  | enablePlugin id => exact ⟨h.disabled, h.shutDown, h.abandoned⟩
  | disablePlugin id => exact ⟨h.disabled, h.shutDown, h.abandoned⟩
  | restorePlugins rows => exact ⟨h.disabled, h.shutDown, h.abandoned⟩
  | shutdown => exact ⟨h.disabled, h.shutDown, h.abandoned⟩
  | proceed call ok =>
    obtain ⟨-, hstore, hdisable, hshutdown⟩ := hcareful
    have hreturned : ∀ {r : PluginReturn}, r ∈ (w.proceed call ok).returned →
        r ∈ w.returned ∨ r ∈ w.report call := by
      intro r hr
      rw [(recorded_proceed call ok).1] at hr
      exact List.mem_append.mp hr
    refine ⟨fun id running hr => ?_, fun running hr => ?_, ?_⟩
    · obtain hold | hnew := hreturned hr
      · exact h.disabled id running hold
      · cases call with
        | disable id' stage =>
          cases stage with
          | updating =>
            obtain ⟨rfl, rfl⟩ := PluginReturn.disable.inj (List.mem_singleton.mp hnew)
            exact hkept.none_disabled (hdisable id rfl).1 (hdisable id rfl).2
          | removing => cases hnew
          | stopping n => cases hnew
        | enable => cases hnew
        | restore => cases hnew
        | shutdown keys stopping =>
          cases keys with
          | nil => cases List.mem_singleton.mp hnew
          | cons key rest => cases hnew
    · obtain hold | hnew := hreturned hr
      · exact h.shutDown running hold
      · cases call with
        | shutdown keys stopping =>
          cases keys with
          | nil =>
            obtain rfl := PluginReturn.shutdown.inj (List.mem_singleton.mp hnew)
            exact hkept.none_shutDown (hshutdown rfl).1 (hshutdown rfl).2
          | cons key rest => cases hnew
        | disable id' stage =>
          cases stage with
          | updating => cases List.mem_singleton.mp hnew
          | removing => cases hnew
          | stopping n => cases hnew
        | enable => cases hnew
        | restore => cases hnew
    · have hnone := abandons_eq_nil fun id hid => (hstore id hid).1
      show (w.proceed call ok).abandoned = []
      rw [(recorded_proceed call ok).2, hnone, List.append_nil]
      exact h.abandoned

theorem Kept.allOwned (h : w.Kept []) (hreported : w.Reported) : w.AllOwned := by
  refine ⟨fun hcalls i hi => ?_, hreported.disabled, hreported.shutDown, fun i hi => ?_⟩
  · obtain hhand | hmap | ⟨call, hcall, -⟩ := h.placed i hi
    · cases hhand
    · exact hmap
    · rw [hcalls] at hcall
      cases hcall
  · rw [hreported.abandoned] at hi
    cases hi

/-- In every run of careful steps no instance runs unowned. -/
theorem no_plugin_unowned (h : (machine.restrict Careful).Reachable w) : w.AllOwned := by
  have hboth := h.invariant (M := machine.restrict Careful) (P := fun w => w.Kept [] ∧ w.Reported)
    (fun w hw => by
      obtain rfl : w = .new := hw
      exact ⟨kept_new, fun id running hr => (by cases hr), fun running hr => (by cases hr), rfl⟩)
    fun _ _ hs hi => ⟨hs.1.fire hi.2, hs.2.fire hs.1 hi.2⟩
  exact hboth.1.allOwned hboth.2

/-- The awaits of `enable_plugin` for a plugin that is not stored, up to the update of its row. -/
def enabling (id : String) (number : ℕ) (ok : Bool) : List PluginStep :=
  [.enablePlugin id, .proceed (.enable id .resolving) true, .proceed (.enable id .upserting) true,
    .proceed (.enable id (.launching .initializing)) true,
    .proceed (.enable id (.launching .starting)) true,
    .proceed (.enable id (.launching (.updating number))) ok]

/-- A plugin is enabled, disabled and enabled again, and the manager is shut down. -/
theorem no_plugin_unowned_sample : (machine.run .new (enabling "telegram" 0 true ++
    [.disablePlugin "telegram", .proceed (.disable "telegram" .removing) true,
      .proceed (.disable "telegram" (.stopping 0)) true,
      .proceed (.disable "telegram" .updating) true] ++ enabling "telegram" 1 true ++
    [.shutdown, .proceed (.shutdown ["telegram"] none) true,
      .proceed (.shutdown ["telegram"] (some 1)) true,
      .proceed (.shutdown [] none) true])).AllOwned :=
  no_plugin_unowned (Machine.reachable_run rfl (by decide +kernel))

/-- The plugin is started and the update of its row fails. -/
theorem failed_enable_leaves_plugin_running : ¬∀ w, machine.Reachable w → w.AllOwned := by
  intro h
  have howned := h (machine.run .new (enabling "telegram" 0 false))
    (Machine.reachable_run rfl (by decide +kernel))
  exact howned.abandoned ⟨"telegram", 0⟩ (by decide +kernel) (by decide +kernel)

end ChannelManager

end AionCore.Channel
