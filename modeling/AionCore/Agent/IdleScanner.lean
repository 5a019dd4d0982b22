import AionCore.Agent.TaskSlots
import Mathlib.Algebra.Ring.Int.Defs

/-!
# Agents: the idle scanner

`scan_and_cleanup` of `idle_scanner.rs` and `ActiveLeaseRegistry`. A scan collects the idle
conversations, awaits the coordinator and kills by conversation, one task an id. What goes on
between is any run of the task manager, renewals of leases and the clock, which may be set back.
-/

namespace AionCore.Agent

open Registry
open AionCore.Conversation (AgentType ConversationStatus)

/-- `i64::saturating_add`. -/
def saturatingAdd (x y : ℤ) : ℤ := max (-2 ^ 63) (min (2 ^ 63 - 1) (x + y))

/-- `i64::saturating_sub`. -/
def saturatingSub (x y : ℤ) : ℤ := max (-2 ^ 63) (min (2 ^ 63 - 1) (x - y))

def activeLeaseTtlMs : ℤ := 90000

structure ActiveLeaseRegistry where
  leases : Dict String ℤ
  ttlMs : ℤ

namespace ActiveLeaseRegistry

def new : ActiveLeaseRegistry := ⟨∅, activeLeaseTtlMs⟩

variable (r : ActiveLeaseRegistry) (now : ℤ)

/-- `renew_many`; `renew` is that of one conversation. -/
def renewMany (conversationIds : List String) : ActiveLeaseRegistry :=
  let expiresAt := saturatingAdd now r.ttlMs
  let renew (leases : Dict String ℤ) (id : String) := leases.insert id expiresAt
  { r with leases := conversationIds.foldl renew r.leases }

def activeUntil (conversationId : String) : ActiveLeaseRegistry × Option ℤ :=
  match r.leases.lookup conversationId with
  | none => (r, none)
  | some expiresAt =>
    if now < expiresAt then (r, some expiresAt)
    else ({ r with leases := r.leases.erase conversationId }, none)

def isActive (conversationId : String) : Bool := (r.activeUntil now conversationId).2.isSome

end ActiveLeaseRegistry

def TaskWorld.idleAgent (w : TaskWorld) (now idleThresholdMs : ℤ) (conversationId : String) :
    Option ℕ :=
  (w.initialisedManagedTask conversationId).bind fun managed =>
    w.agents[managed.agent]?.bind fun agent =>
      if agent.agentType ≠ .acp ∨ ¬(agent.status = none ∨ agent.status = some .finished) ∨
          saturatingSub now agent.lastActivityAt ≤ idleThresholdMs then none
      else some managed.agent

/-- `collect_idle` over the given conversations: who is idle and not protected by a lease, each with
the agent found, and the leases without those found expired. -/
def collectIdle (w : TaskWorld) (now idleThresholdMs : ℤ) :
    List String → ActiveLeaseRegistry → ActiveLeaseRegistry × List (String × ℕ)
  | [], r => (r, [])
  | key :: keys, r =>
    match w.idleAgent now idleThresholdMs key with
    | none => collectIdle w now idleThresholdMs keys r
    | some a =>
      let (r', active) := r.activeUntil now key
      let (r'', found) := collectIdle w now idleThresholdMs keys r'
      match active with
      | some _ => (r'', found)
      | none => (r'', (key, a) :: found)

/-- A conversation that a scan has collected, with the agent found. Of its history since: how many
tasks had been removed, what status the agent has reported, and until when leases were renewed. -/
structure IdleTarget where
  conversationId : String
  agent : ℕ
  since : ℕ
  reports : List (Option ConversationStatus)
  renewals : List ℤ

def reported (a : ℕ) : TaskStep → List (Option ConversationStatus)
  | .report b status _ => if b = a then [status] else []
  | _ => []

namespace IdleTarget

def noteStep (target : IdleTarget) (step : TaskStep) : IdleTarget :=
  { target with reports := target.reports ++ reported target.agent step }

def noteRenewal (target : IdleTarget) (conversationIds : List String) (expiresAt : ℤ) :
    IdleTarget :=
  { target with renewals := target.renewals ++
      if target.conversationId ∈ conversationIds then [expiresAt] else [] }

end IdleTarget

/-- A run of `scan_and_cleanup`. `none` as long as the coordinator is awaited, then the ids whose
kill is yet to come. -/
structure IdleScan where
  targets : List IdleTarget
  pending : Option (List String)

/-- A future of the scanner for a slot that was not initialised. -/
structure IdleWait where
  wait : ℕ
  conversationId : String
  found : Option ℕ

/-- A kill with `IdleTimeout` that the scanner sends: the agent that gets it, its status and whether
a lease protects its conversation at that moment, and the agent that the scan has found. -/
structure IdleKill where
  agent : ℕ
  status : Option ConversationStatus
  leased : Bool
  found : Option ℕ
  deriving DecidableEq

/-- The agent is not running, not protected by a lease, and the one that was found idle. -/
structure IdleKill.Safe (kill : IdleKill) : Prop where
  notRunning : kill.status ≠ some .running
  notLeased : kill.leased = false
  found : kill.found = some kill.agent

structure IdleWorld where
  manager : TaskWorld
  registry : ActiveLeaseRegistry
  now : ℤ
  scans : List IdleScan
  awaited : List IdleWait
  kills : List IdleKill

inductive IdleStep where
  | task (step : TaskStep)
  | clock (now : ℤ)
  | renew (conversationIds : List String)
  | collect (idleThresholdMs : ℤ) (order : IterOrder String)
  | coordinate (s : ℕ) (unhandled : String → Bool)
  | kill (s i : ℕ)

namespace IdleWorld

def empty : IdleWorld := ⟨.empty, .new, 0, [], [], []⟩

variable (setup : TaskSetup) (w : IdleWorld)

def note (f : IdleTarget → IdleTarget) : List IdleScan :=
  w.scans.map fun scan => { scan with targets := scan.targets.map f }

def record (a : ℕ) (conversationId : String) (found : Option ℕ) : IdleKill :=
  ⟨a, w.manager.agents[a]?.bind (·.status), w.registry.isActive w.now conversationId, found⟩

def nextKill (s i : ℕ) : Option (IdleScan × List String × String) :=
  w.scans[s]?.bind fun scan => scan.pending.bind fun ids => ids[i]?.map fun id => (scan, ids, id)

def pollKills (j : ℕ) : List IdleKill :=
  match w.manager.waits[j]?, w.awaited.find? (·.wait = j) with
  | some wait, some awaited =>
    if wait.done then []
    else (w.manager.cellAt wait.slot).toList.map fun managed =>
      w.record managed.agent awaited.conversationId awaited.found
  | _, _ => []

/-- `kill_and_wait` with `IdleTimeout`. -/
def idleKill (conversationId : String) (found : Option ℕ) : IdleWorld :=
  { w with
    manager := w.manager.killAndWait conversationId (some .idleTimeout)
    kills := w.kills ++ (w.manager.initialisedManagedTask conversationId).toList.map fun managed =>
      w.record managed.agent conversationId found
    awaited :=
      if (w.manager.tasks.lookup conversationId).isSome ∧
          w.manager.initialisedManagedTask conversationId = none then
        w.awaited ++ [⟨w.manager.waits.length, conversationId, found⟩]
      else w.awaited }

def fire (w : IdleWorld) : IdleStep → IdleWorld
  | .task step =>
    { w with
      manager := w.manager.fire setup step
      scans := w.note (·.noteStep step)
      kills := match step with
        | .poll j => w.kills ++ w.pollKills j
        | _ => w.kills }
  | .clock now => { w with now }
  | .renew conversationIds =>
    { w with
      registry := w.registry.renewMany w.now conversationIds
      scans := w.note (·.noteRenewal conversationIds (saturatingAdd w.now w.registry.ttlMs)) }
  | .collect idleThresholdMs order =>
    let (registry, found) := collectIdle w.manager w.now idleThresholdMs
      (order.arrange w.manager.tasks.keys) w.registry
    { w with
      registry
      scans := w.scans ++
        [⟨found.map fun entry => ⟨entry.1, entry.2, w.manager.removed.length, [], []⟩, none⟩] }
  | .coordinate s unhandled =>
    match w.scans[s]? with
    | some ⟨targets, none⟩ =>
      { w with
        scans := w.scans.set s
          ⟨targets, some ((targets.map (·.conversationId)).filter unhandled)⟩ }
    | some ⟨_, some _⟩ | none => w
  | .kill s i =>
    match w.nextKill s i with
    | none => w
    | some (scan, ids, id) =>
      let target : Option IdleTarget := scan.targets.find? (·.conversationId = id)
      let w' := { w with scans := w.scans.set s { scan with pending := some (ids.eraseIdx i) } }
      w'.idleKill id (target.map (·.agent))

/-- Scans side by side with whatever else goes on. -/
def machine : Machine IdleWorld IdleStep where
  start w := w = empty
  admits _ _ := True
  fire := fire setup

instance decidableAdmits : ∀ w step, Decidable ((machine setup).admits w step) :=
  fun _ _ => .isTrue trivial

/-- Since the conversation was collected its task has not been removed, no turn that has begun is
still running, and no lease that was renewed has time left. -/
structure Undisturbed (target : IdleTarget) : Prop where
  inPlace : target.conversationId ∉ w.manager.removed.drop target.since
  turnOver : target.reports.getLast? ≠ some (some .running)
  leaseOver : ∀ expiresAt ∈ target.renewals.getLast?, expiresAt ≤ w.now

/-- The scanner kills an agent of a conversation that nothing has disturbed since it was collected,
and no build ends for which one of its futures waits. -/
def KillsUndisturbed (w : IdleWorld) : IdleStep → Prop
  | .kill s i => ∀ next ∈ w.nextKill s i,
      (w.manager.initialisedManagedTask next.2.2).isSome = true →
        ∀ target ∈ next.1.targets, target.conversationId = next.2.2 → w.Undisturbed target
  | .task (.poll j) => w.pollKills j = []
  | _ => True

instance decidableUndisturbed (target : IdleTarget) : Decidable (w.Undisturbed target) :=
  decidable_of_iff (_ ∧ _ ∧ _)
    ⟨fun h => ⟨h.1, h.2.1, h.2.2⟩, fun h => ⟨h.inPlace, h.turnOver, h.leaseOver⟩⟩

end IdleWorld

namespace ActiveLeaseRegistry

variable {r : ActiveLeaseRegistry} {now expiresAt : ℤ} {conversationId key : String}

/-- A look at a lease only takes leases away. -/
theorem lookup_of_activeUntil
    (h : (r.activeUntil now conversationId).1.leases.lookup key = some expiresAt) :
    r.leases.lookup key = some expiresAt := by
  unfold activeUntil at h
  split at h
  · exact h
  · split at h
    · exact h
    · rw [Dict.lookup_erase'] at h
      split at h
      · cases h
      · exact h

theorem lookup_of_not_active (h : (r.activeUntil now conversationId).2 = none) :
    (r.activeUntil now conversationId).1.leases.lookup conversationId = none := by
  unfold activeUntil at h ⊢
  cases hlookup : r.leases.lookup conversationId with
  | none => exact hlookup
  | some expiresAt =>
    rw [hlookup] at h
    dsimp only at h ⊢
    by_cases hlive : now < expiresAt
    · rw [if_pos hlive] at h
      cases h
    · rw [if_neg hlive, Dict.lookup_erase', if_pos rfl]

theorem not_isActive (h : ∀ expiresAt, r.leases.lookup conversationId = some expiresAt →
    expiresAt ≤ now) : r.isActive now conversationId = false := by
  unfold isActive activeUntil
  split
  · rfl
  · rename_i expiresAt hlookup
    rw [if_neg (not_lt.mpr (h expiresAt hlookup))]
    rfl

theorem lookup_renewMany (r : ActiveLeaseRegistry) (now : ℤ) (ids : List String) (key : String) :
    (r.renewMany now ids).leases.lookup key =
      if key ∈ ids then some (saturatingAdd now r.ttlMs) else r.leases.lookup key := by
  have hfold : ∀ (ids : List String) (leases : Dict String ℤ) (expiresAt : ℤ),
      (ids.foldl (fun leases id => leases.insert id expiresAt) leases).lookup key =
        if key ∈ ids then some expiresAt else leases.lookup key := by
    intro ids
    induction ids with
    | nil => intro leases expiresAt; simp
    | cons id ids ih =>
      intro leases expiresAt
      rw [List.foldl_cons, ih, Dict.lookup_insert']
      by_cases hids : key ∈ ids
      · simp [hids]
      · by_cases hid : key = id
        · simp [hid]
        · simp [hids, hid]
  exact hfold ids r.leases _

end ActiveLeaseRegistry

section Collecting

variable {m : TaskWorld} {now idleThresholdMs : ℤ} {c : String} {a : ℕ}

theorem TaskWorld.idleAgent_spec (h : m.idleAgent now idleThresholdMs c = some a) :
    m.Stores c a ∧ ∃ agent, m.agents[a]? = some agent ∧ agent.status ≠ some .running := by
  unfold TaskWorld.idleAgent at h
  obtain ⟨managed, hmanaged, h⟩ := Option.bind_eq_some_iff.mp h
  obtain ⟨agent, hagent, h⟩ := Option.bind_eq_some_iff.mp h
  split at h
  · cases h
  · rename_i hidle
    obtain rfl := Option.some.inj h
    refine ⟨⟨managed, hmanaged, rfl⟩, agent, hagent, ?_⟩
    intro hrunning
    simp [hrunning] at hidle

/-- Collecting only takes leases away, and those that are collected have none left. -/
theorem collectIdle_spec (m : TaskWorld) (now idleThresholdMs : ℤ) (keys : List String)
    (r : ActiveLeaseRegistry) :
    (∀ key expiresAt, (collectIdle m now idleThresholdMs keys r).1.leases.lookup key =
        some expiresAt → r.leases.lookup key = some expiresAt) ∧
      ∀ entry ∈ (collectIdle m now idleThresholdMs keys r).2,
        m.idleAgent now idleThresholdMs entry.1 = some entry.2 ∧
          (collectIdle m now idleThresholdMs keys r).1.leases.lookup entry.1 = none := by
  induction keys generalizing r with
  | nil => exact ⟨fun _ _ h => h, fun _ h => (by cases h)⟩
  | cons key keys ih =>
    unfold collectIdle
    split
    · exact ih r
    · rename_i a ha
      obtain ⟨hkept, hfound⟩ := ih (r.activeUntil now key).1
      have hmono : ∀ key' expiresAt,
          (collectIdle m now idleThresholdMs keys (r.activeUntil now key).1).1.leases.lookup key' =
            some expiresAt → r.leases.lookup key' = some expiresAt := fun key' expiresAt h =>
        ActiveLeaseRegistry.lookup_of_activeUntil (hkept key' expiresAt h)
      dsimp only
      split
      · exact ⟨hmono, hfound⟩
      · rename_i hactive
        refine ⟨hmono, fun entry hentry => ?_⟩
        obtain rfl | hentry := List.mem_cons.mp hentry
        · refine ⟨ha, ?_⟩
          rw [Option.eq_none_iff_forall_ne_some]
          intro expiresAt h
          have hnone := ActiveLeaseRegistry.lookup_of_not_active hactive
          rw [hkept key expiresAt h] at hnone
          cases hnone
        · exact hfound entry hentry

end Collecting

namespace TaskWorld

variable {setup : TaskSetup} {m m' : TaskWorld} {step : TaskStep} {a : ℕ} {agent : AgentInstance}

theorem removed_move (move : TaskMove setup m step m') :
    m'.removed = m.removed ∨ ∃ c, m'.removed = m.removed ++ [c] := by
  cases move with
  | kept same _ _ => exact .inl same.past.removed
  | called _ _ _ same _ _ => exact .inl same.past.removed
  | sent _ _ same _ => exact .inl same.past.removed
  | staged _ _ _ _ _ same _ _ => exact .inl same.past.removed
  | refreshed _ _ _ _ same _ _ => exact .inl same.past.removed
  | removed conversationId _ _ _ _ _ _ _ _ _ removed => exact .inr ⟨conversationId, removed⟩
  | joined _ _ _ _ _ _ _ _ same _ _ => exact .inl same.past.removed
  | opened _ _ _ _ _ _ _ _ _ _ past => exact .inl past.removed
  | received _ _ _ _ _ _ _ same _ _ => exact .inl same.past.removed
  | started _ _ _ _ _ _ _ _ _ _ _ past => exact .inl past.removed
  | failed _ _ _ _ _ _ _ _ _ _ past => exact .inl past.removed
  | built _ _ _ _ _ _ _ _ _ _ _ _ _ _ past => exact .inl past.removed
  | killed _ _ _ _ _ _ _ _ _ _ past => exact .inl past.removed
  | reported _ _ _ _ _ _ _ _ past => exact .inl past.removed

/-- An agent keeps its status unless it reports another. -/
theorem status_move (move : TaskMove setup m step m')
    (hstep : ∀ b status lastActivityAt, step ≠ .report b status lastActivityAt)
    (ha : m.agents[a]? = some agent) :
    ∃ agent', m'.agents[a]? = some agent' ∧ agent'.status = agent.status := by
  have hkept : m'.agents = m.agents →
      ∃ agent', m'.agents[a]? = some agent' ∧ agent'.status = agent.status :=
    fun heq => ⟨agent, heq ▸ ha, rfl⟩
  have hkilled : ∀ b reason, m'.agents = (m.killAgent b reason).agents →
      ∃ agent', m'.agents[a]? = some agent' ∧ agent'.status = agent.status := by
    intro b reason heq
    rw [heq]
    by_cases hb : a = b
    · exact ⟨_, getElem?_change.mpr (.inl ⟨hb, agent, hb ▸ ha, rfl⟩), rfl⟩
    · exact ⟨agent, getElem?_change.mpr (.inr ⟨hb, ha⟩), rfl⟩
  cases move with
  | kept same _ _ => exact hkept same.agents
  | called _ _ _ same _ _ => exact hkept same.agents
  | sent _ _ same _ => exact hkept same.agents
  | staged _ _ _ _ _ same _ _ => exact hkept same.agents
  | refreshed _ _ _ _ same _ _ => exact hkept same.agents
  | removed _ slot reason _ _ _ agents _ _ _ _ =>
    cases hcell : m.cellAt slot with
    | none =>
      rw [hcell] at agents
      exact hkept agents
    | some managed =>
      rw [hcell] at agents
      exact hkilled managed.agent reason agents
  | joined _ _ _ _ _ _ _ _ same _ _ => exact hkept same.agents
  | opened _ _ _ _ _ _ _ agents _ _ _ => exact hkept agents
  | received _ _ _ _ _ _ _ same _ _ => exact hkept same.agents
  | started _ _ _ _ _ _ _ _ agents _ _ _ => exact hkept agents
  | failed _ _ _ _ _ _ _ agents _ _ _ => exact hkept agents
  | built _ _ _ _ _ _ _ _ _ _ _ agents _ _ _ =>
    rw [agents]
    exact ⟨agent, getElem?_add_of_some ha, rfl⟩
  | killed _ managed reason _ _ _ agents _ _ _ _ => exact hkilled managed.agent reason agents
  | reported b status lastActivityAt _ _ _ _ _ _ shape => exact absurd shape (hstep b status _)

end TaskWorld

namespace IdleWorld

/-- What the history of a target says about the state. -/
structure Tracks (w : IdleWorld) (target : IdleTarget) : Prop where
  since : target.since ≤ w.manager.removed.length
  inPlace : target.conversationId ∉ w.manager.removed.drop target.since →
    w.manager.Stores target.conversationId target.agent
  status : ∃ agent : AgentInstance, w.manager.agents[target.agent]? = some agent ∧
    (target.reports = [] ∧ agent.status ≠ some .running ∨
      target.reports.getLast? = some agent.status)
  lease : ∀ expiresAt, w.registry.leases.lookup target.conversationId = some expiresAt →
    target.renewals.getLast? = some expiresAt

/-- The targets are tracked, and only targets are left to kill. -/
structure Watched (setup : TaskSetup) (w : IdleWorld) : Prop where
  manager : (TaskWorld.machine setup).Reachable w.manager
  targets : ∀ scan ∈ w.scans, ∀ target ∈ scan.targets, w.Tracks target
  pending : ∀ scan ∈ w.scans, ∀ ids, scan.pending = some ids →
    ∀ id ∈ ids, ∃ target ∈ scan.targets, target.conversationId = id

variable {setup : TaskSetup} {w w' : IdleWorld} {target : IdleTarget} {step : TaskStep}

/-- Histories go on with the steps of the task manager. -/
theorem Tracks.task (h : w.Tracks target) (hr : (TaskWorld.machine setup).Reachable w.manager)
    (step : TaskStep) (hmanager : w'.manager = w.manager.fire setup step)
    (hregistry : w'.registry = w.registry) : w'.Tracks (target.noteStep step) := by
  have held := TaskWorld.slotsHeld_of_reachable hr
  have move := TaskWorld.move_fire setup w.manager step
  rw [← hmanager] at move
  unfold IdleTarget.noteStep
  refine ⟨?_, fun hgone => ?_, ?_, fun expiresAt hlookup => ?_⟩
  · obtain hsame | ⟨c, hremoved⟩ := TaskWorld.removed_move move
    · rw [hsame]
      exact h.since
    · rw [hremoved, List.length_append]
      exact h.since.trans (Nat.le_add_right _ _)
  · have hbefore : target.conversationId ∉ w.manager.removed.drop target.since ∧
        w'.manager.removed ≠ w.manager.removed ++ [target.conversationId] := by
      obtain hsame | ⟨c, hremoved⟩ := TaskWorld.removed_move move
      · rw [hsame] at hgone ⊢
        exact ⟨hgone, by simp⟩
      · rw [hremoved, List.drop_append_of_le_length h.since, List.mem_append] at hgone
        rw [hremoved]
        refine ⟨fun hmem => hgone (.inl hmem), fun heq => hgone (.inr ?_)⟩
        simpa [eq_comm] using heq
    exact (TaskWorld.stores_move held move (h.inPlace hbefore.1)).resolve_right hbefore.2
  · obtain ⟨agent, hagent, hstatus⟩ := h.status
    have hquiet : (∀ b status lastActivityAt, step ≠ .report b status lastActivityAt) →
        reported target.agent step = [] := by
      intro hstep
      cases step with
      | report b status lastActivityAt => exact absurd rfl (hstep b status lastActivityAt)
      | call _ _ | send _ | advance _ _ | kill _ _ | killAndWait _ _ | poll _ | clear _
      | clearNext _ => rfl
    by_cases hstep : ∀ b status lastActivityAt, step ≠ .report b status lastActivityAt
    · obtain ⟨agent', hagent', heq⟩ := TaskWorld.status_move move hstep hagent
      refine ⟨agent', hagent', ?_⟩
      rw [hquiet hstep, List.append_nil, heq]
      exact hstatus
    · simp only [not_forall, not_not] at hstep
      obtain ⟨b, status, lastActivityAt, rfl⟩ := hstep
      rw [hmanager]
      by_cases hb : b = target.agent
      · refine ⟨{ agent with status, lastActivityAt }, ?_, .inr ?_⟩
        · exact getElem?_change.mpr (.inl ⟨hb.symm, agent, hb ▸ hagent, rfl⟩)
        · simp [reported, hb]
      · refine ⟨agent, getElem?_change.mpr (.inr ⟨Ne.symm hb, hagent⟩), ?_⟩
        simpa [reported, hb] using hstatus
  · rw [hregistry] at hlookup
    exact h.lease expiresAt hlookup

/-- The histories depend on neither the scans nor the clock. -/
theorem Tracks.frame (h : w.Tracks target) (hmanager : w'.manager = w.manager)
    (hleases : ∀ key expiresAt, w'.registry.leases.lookup key = some expiresAt →
      w.registry.leases.lookup key = some expiresAt) : w'.Tracks target := by
  refine ⟨?_, ?_, ?_, fun expiresAt hlookup => h.lease expiresAt (hleases _ _ hlookup)⟩
  · rw [hmanager]
    exact h.since
  · rw [hmanager]
    exact h.inPlace
  · rw [hmanager]
    exact h.status

section

variable (h : Watched setup w)
include h

theorem Watched.note (f : IdleTarget → IdleTarget)
    (hconversation : ∀ target, (f target).conversationId = target.conversationId)
    (hmanager : (TaskWorld.machine setup).Reachable w'.manager) (hscans : w'.scans = w.note f)
    (htracks : ∀ target, w.Tracks target → w'.Tracks (f target)) : Watched setup w' := by
  have hold : ∀ scan ∈ w'.scans, ∃ old ∈ w.scans,
      scan = { old with targets := old.targets.map f } := by
    intro scan hscan
    rw [hscans] at hscan
    obtain ⟨old, hmem, rfl⟩ := List.mem_map.mp hscan
    exact ⟨old, hmem, rfl⟩
  refine ⟨hmanager, fun scan hscan target htarget => ?_, fun scan hscan ids hids id hid => ?_⟩
  · obtain ⟨old, hmem, rfl⟩ := hold scan hscan
    obtain ⟨target₀, htarget₀, rfl⟩ := List.mem_map.mp htarget
    exact htracks target₀ (h.targets old hmem target₀ htarget₀)
  · obtain ⟨old, hmem, rfl⟩ := hold scan hscan
    obtain ⟨target, htarget, rfl⟩ := h.pending old hmem ids hids id hid
    exact ⟨f target, List.mem_map_of_mem htarget, hconversation target⟩

theorem watched_renew (ids : List String) :
    Watched setup (w.fire setup (.renew ids)) := by
  refine h.note (·.noteRenewal ids (saturatingAdd w.now w.registry.ttlMs)) (fun _ => rfl) h.manager
    rfl fun target htracks => ?_
  refine ⟨htracks.since, htracks.inPlace, htracks.status, fun expiresAt hlookup => ?_⟩
  have hrenewed := ActiveLeaseRegistry.lookup_renewMany w.registry w.now ids target.conversationId
  have hlookup' := hrenewed.symm.trans hlookup
  unfold IdleTarget.noteRenewal
  by_cases hids : target.conversationId ∈ ids
  · rw [if_pos hids] at hlookup' ⊢
    rw [List.getLast?_append, ← hlookup']
    rfl
  · rw [if_neg hids] at hlookup' ⊢
    rw [List.append_nil]
    exact htracks.lease expiresAt hlookup'

theorem watched_collect (idleThresholdMs : ℤ) (order : IterOrder String) :
    Watched setup (w.fire setup (.collect idleThresholdMs order)) := by
  obtain ⟨hkept, hfound⟩ := collectIdle_spec w.manager w.now idleThresholdMs
    (order.arrange w.manager.tasks.keys) w.registry
  refine ⟨h.manager, fun scan hscan target htarget => ?_, fun scan hscan ids hids id hid => ?_⟩
  · obtain hscan | hscan := List.mem_append.mp hscan
    · exact (h.targets scan hscan target htarget).frame rfl hkept
    · obtain rfl := List.mem_singleton.mp hscan
      obtain ⟨entry, hentry, rfl⟩ := List.mem_map.mp htarget
      obtain ⟨hidle, hlease⟩ := hfound entry hentry
      obtain ⟨hstores, agent, hagent, hstatus⟩ := TaskWorld.idleAgent_spec hidle
      refine ⟨le_rfl, fun _ => hstores, ⟨agent, hagent, .inl ⟨rfl, hstatus⟩⟩,
        fun expiresAt hlookup => ?_⟩
      cases hlease.symm.trans hlookup
  · obtain hscan | hscan := List.mem_append.mp hscan
    · exact h.pending scan hscan ids hids id hid
    · obtain rfl := List.mem_singleton.mp hscan
      cases hids

theorem watched_coordinate (s : ℕ) (unhandled : String → Bool) :
    Watched setup (w.fire setup (.coordinate s unhandled)) := by
  simp only [fire]
  split
  · rename_i targets hs
    have hscans : ∀ scan ∈ w.scans.set s
        ⟨targets, some ((targets.map (·.conversationId)).filter unhandled)⟩, scan ∈ w.scans ∨
          scan = ⟨targets, some ((targets.map (·.conversationId)).filter unhandled)⟩ :=
      fun scan hscan => List.mem_or_eq_of_mem_set hscan
    refine ⟨h.manager, fun scan hscan target htarget => ?_, fun scan hscan ids hids id hid => ?_⟩
    · obtain hscan | rfl := hscans scan hscan
      · exact (h.targets scan hscan target htarget).frame rfl fun _ _ h => h
      · exact (h.targets _ (List.mem_of_getElem? hs) target htarget).frame rfl fun _ _ h => h
    · obtain hscan | rfl := hscans scan hscan
      · exact h.pending scan hscan ids hids id hid
      · obtain rfl := Option.some.inj hids
        obtain ⟨target, htarget, heq⟩ := List.mem_map.mp (List.mem_filter.mp hid).1
        exact ⟨target, htarget, heq⟩
  · exact h
  · exact h

end

theorem nextKill_eq_some {s i : ℕ} {scan : IdleScan} {ids : List String} {id : String} :
    w.nextKill s i = some (scan, ids, id) ↔
      w.scans[s]? = some scan ∧ scan.pending = some ids ∧ ids[i]? = some id := by
  unfold nextKill
  constructor
  · intro h
    obtain ⟨scan', hscan, h⟩ := Option.bind_eq_some_iff.mp h
    obtain ⟨ids', hids, h⟩ := Option.bind_eq_some_iff.mp h
    obtain ⟨id', hid, h⟩ := Option.map_eq_some_iff.mp h
    cases h
    exact ⟨hscan, hids, hid⟩
  · rintro ⟨hscan, hids, hid⟩
    simp [hscan, hids, hid]

theorem watched_kill (h : Watched setup w) (s i : ℕ) :
    Watched setup (w.fire setup (.kill s i)) := by
  simp only [fire]
  split
  · exact h
  · rename_i scan ids id hnext
    obtain ⟨hscan, hids, -⟩ := nextKill_eq_some.mp hnext
    have hmem : scan ∈ w.scans := List.mem_of_getElem? hscan
    have htracks : ∀ (w' : IdleWorld) (target : IdleTarget),
        w'.manager = w.manager.killAndWait id (some .idleTimeout) → w'.registry = w.registry →
        w.Tracks target → w'.Tracks target := by
      intro w' target hmanager hregistry htarget
      have htask := htarget.task h.manager (.killAndWait id (some .idleTimeout)) hmanager hregistry
      have hsame : target.noteStep (.killAndWait id (some .idleTimeout)) = target := by
        simp [IdleTarget.noteStep, reported]
      rwa [hsame] at htask
    refine ⟨h.manager.fire (i := .killAndWait id (some .idleTimeout)) trivial,
      fun scan' hscan' target htarget => htracks _ target rfl rfl ?_,
      fun scan' hscan' ids' hids' id' hid' => ?_⟩
    · obtain hold | rfl := List.mem_or_eq_of_mem_set hscan'
      · exact h.targets scan' hold target htarget
      · exact h.targets scan hmem target htarget
    · obtain hold | rfl := List.mem_or_eq_of_mem_set hscan'
      · exact h.pending scan' hold ids' hids' id' hid'
      · obtain rfl := Option.some.inj hids'
        exact h.pending scan hmem ids hids id' (List.mem_of_mem_eraseIdx hid')

theorem Watched.fire (h : Watched setup w) (step : IdleStep) :
    Watched setup (w.fire setup step) := by
  cases step with
  | task step =>
    exact h.note (·.noteStep step) (fun _ => rfl) (h.manager.fire (i := step) trivial) rfl
      fun target htracks => htracks.task h.manager step rfl rfl
  | clock now =>
    exact ⟨h.manager, fun scan hscan target htarget =>
      (h.targets scan hscan target htarget).frame rfl fun _ _ h => h, h.pending⟩
  | renew ids => exact watched_renew h ids
  | collect idleThresholdMs order => exact watched_collect h idleThresholdMs order
  | coordinate s unhandled => exact watched_coordinate h s unhandled
  | kill s i => exact watched_kill h s i

theorem watched_of_reachable (h : (machine setup).Reachable w) : Watched setup w :=
  h.invariant (P := Watched setup)
    (fun _ hs => by
      subst hs
      exact ⟨.start rfl, fun _ h => (by cases h), fun _ h => (by cases h)⟩)
    fun _ step hw _ => hw.fire step

/-- A target that nothing has disturbed is killed safely. -/
theorem safe_of_undisturbed {managed : ManagedAgentTask} (htracks : w.Tracks target)
    (hundisturbed : w.Undisturbed target)
    (hmanaged : w.manager.initialisedManagedTask target.conversationId = some managed) :
    (w.record managed.agent target.conversationId (some target.agent)).Safe := by
  have hagent : managed.agent = target.agent := by
    obtain ⟨managed', hmanaged', heq⟩ := htracks.inPlace hundisturbed.inPlace
    rw [← heq, Option.some.inj (hmanaged.symm.trans hmanaged')]
  obtain ⟨agent, hget, hstatus⟩ := htracks.status
  refine ⟨?_, ?_, congrArg some hagent.symm⟩
  · have hrecord : (w.record managed.agent target.conversationId (some target.agent)).status =
        agent.status := by
      simp [record, hagent, hget]
    rw [hrecord]
    obtain ⟨-, hidle⟩ | hlast := hstatus
    · exact hidle
    · intro hrunning
      rw [hrunning] at hlast
      exact hundisturbed.turnOver hlast
  · exact ActiveLeaseRegistry.not_isActive fun expiresAt hlookup =>
      hundisturbed.leaseOver expiresAt (htracks.lease expiresAt hlookup)

/-- Every kill of the scanner so far was safe. -/
def KillsSafe (w : IdleWorld) : Prop := ∀ kill ∈ w.kills, kill.Safe

theorem KillsSafe.fire {step : IdleStep} (h : w.KillsSafe) (hw : Watched setup w)
    (hundisturbed : w.KillsUndisturbed step) : (w.fire setup step).KillsSafe := by
  cases step with
  | task step =>
    cases step with
    | poll j =>
      intro kill hkill
      have hnone : w.pollKills j = [] := hundisturbed
      change kill ∈ w.kills ++ w.pollKills j at hkill
      rw [hnone, List.append_nil] at hkill
      exact h kill hkill
    | call _ _ | send _ | advance _ _ | kill _ _ | killAndWait _ _ | clear _ | clearNext _
    | report _ _ _ => exact h
  | clock _ | renew _ | collect _ _ => exact h
  | coordinate s unhandled =>
    simp only [IdleWorld.fire]
    split <;> exact h
  | kill s i =>
    simp only [IdleWorld.fire]
    split
    · exact h
    · rename_i scan ids id hnext
      obtain ⟨hscan, hids, hid⟩ := nextKill_eq_some.mp hnext
      have hmem : scan ∈ w.scans := List.mem_of_getElem? hscan
      intro kill hkill
      obtain hold | hnew := List.mem_append.mp hkill
      · exact h kill hold
      · obtain ⟨managed, hmanaged, rfl⟩ := List.mem_map.mp hnew
        have hmanaged' : w.manager.initialisedManagedTask id = some managed :=
          Option.mem_toList.mp hmanaged
        -- the id is that of a target
        obtain ⟨target, htarget, heq⟩ := hw.pending scan hmem ids hids id (List.mem_of_getElem? hid)
        have hfind : (scan.targets.find? (·.conversationId = id)).isSome = true :=
          List.find?_isSome.mpr ⟨target, htarget, by simpa using heq⟩
        obtain ⟨found, hfound⟩ := Option.isSome_iff_exists.mp hfind
        have hfoundId : found.conversationId = id := by simpa using List.find?_some hfound
        have hfoundMem := List.mem_of_find?_eq_some hfound
        have hsafe := safe_of_undisturbed (hw.targets scan hmem found hfoundMem)
          (hundisturbed _ hnext (by rw [hmanaged']; rfl) found hfoundMem hfoundId)
          (by rw [hfoundId]; exact hmanaged')
        rw [hfoundId] at hsafe
        rw [hfound]
        exact hsafe

/-- As long as nothing disturbs what a scan has collected until it is killed, the scanner kills only
agents that are not running, not leased, and those that it has found idle. -/
theorem scanner_kills_idle_agents
    (h : ((machine setup).restrict KillsUndisturbed).Reachable w) : w.KillsSafe :=
  h.invariant_of_reachable (P := KillsSafe)
    (fun _ hs kill hkill => (by subst hs; cases hkill))
    fun _ _ hr hw hadmits => hw.fire (watched_of_reachable hr.of_restrict) hadmits.2

instance decidableKillsUndisturbed (w : IdleWorld) : ∀ step, Decidable (w.KillsUndisturbed step)
  | .kill s i => inferInstanceAs (Decidable (∀ next ∈ w.nextKill s i,
      (w.manager.initialisedManagedTask next.2.2).isSome = true →
        ∀ target ∈ next.1.targets, target.conversationId = next.2.2 → w.Undisturbed target))
  | .task (.poll j) => inferInstanceAs (Decidable (w.pollKills j = []))
  | .task (.call _ _) | .task (.send _) | .task (.advance _ _) | .task (.kill _ _)
  | .task (.killAndWait _ _) | .task (.clear _) | .task (.clearNext _) | .task (.report _ _ _)
  | .clock _ | .renew _ | .collect _ _ | .coordinate _ _ => .isTrue trivial

/-- An agent of "c" that has finished a turn at time 0 and is collected ten minutes later. -/
def collectedAgent : List IdleStep :=
  [.renew ["c"], .task (.call "c" (TaskWorld.plainOptions "c")), .task (.advance 0 .pending),
    .task (.advance 0 .pending), .task (.advance 0 .pending),
    .task (.advance 0 (.built .acp (some .finished) 0)), .clock 1000000, .collect 600000 .stored]

def turnBeforeKill : List IdleStep :=
  collectedAgent ++ [.task (.report 0 (some .running) 1000000), .coordinate 0 fun _ => true,
    .kill 0 0]

theorem scanner_kills_running_agent :
    ¬∀ w, (machine .tally).Reachable w → w.KillsSafe := by
  intro hclaim
  have haccepts : (machine .tally).Accepts empty turnBeforeKill := by decide +kernel
  have hkills : ((machine .tally).run empty turnBeforeKill).kills =
      [⟨0, some .running, false, some 0⟩] := by decide +kernel
  have hsafe := hclaim _ (Machine.reachable_run rfl haccepts) ⟨0, some .running, false, some 0⟩
    (by rw [hkills]; exact List.mem_singleton_self _)
  exact hsafe.notRunning rfl

theorem scanner_kills_idle_agent :
    ((machine .tally).run empty
      (collectedAgent ++ [.coordinate 0 fun _ => true, .kill 0 0])).KillsSafe := by
  have haccepts : ((machine .tally).restrict KillsUndisturbed).Accepts empty
      (collectedAgent ++ [.coordinate 0 fun _ => true, .kill 0 0]) := by decide +kernel
  exact scanner_kills_idle_agents (Machine.reachable_run rfl haccepts)

end IdleWorld

end AionCore.Agent
