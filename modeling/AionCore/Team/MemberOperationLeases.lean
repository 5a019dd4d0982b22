import AionCore.Team.MemberOperations
import AionCore.Team.MemberRuntimeLeases

/-!
# Who carries out a member-runtime operation

An operation that is going on is carried out by a call in progress that has its lease. The
lease goes from await to await and to the tasks that are spawned; each commit, and taking
the operation's place, ends the operation. Six early exits forget the lease that they hold.
-/

namespace AionCore.Team

namespace MemberRuntimeRegistry

variable {r r' : MemberRuntimeRegistry} {a : String} {tx : ℕ}

theorem held_insert {b : String} {entry : MemberRuntimeEntry}
    (hentries : r'.entries = r.entries.insert b entry) (hheld : r'.promises.held a = some tx) :
    (a ≠ b ∧ r.promises.held a = some tx ∧ r'.entries.lookup a = r.entries.lookup a) ∨
      a = b ∧ entry.pendingTx = some tx ∧ r'.entries.lookup a = some entry := by
  rw [held_promises, hentries, Dict.lookup_insert'] at hheld
  rw [hentries, Dict.lookup_insert']
  by_cases hb : a = b
  · rw [if_pos hb] at hheld ⊢
    exact .inr ⟨hb, hheld, rfl⟩
  · rw [if_neg hb] at hheld ⊢
    exact .inl ⟨hb, hheld, rfl⟩

/-- An operation that is going on after a call was going on before, under the same entry, or
the call has issued its lease. -/
theorem Effect.held {issued : List MemberLease} {took : Option MemberLease}
    (h : Effect r r' issued took) (hrunning : r'.stopped = false)
    (hheld : r'.promises.held a = some tx) :
    r.promises.held a = some tx ∧ r'.entries.lookup a = r.entries.lookup a ∨
      ∃ lease ∈ issued, lease.agentId = a ∧ r'.Owns lease tx := by
  cases h with
  | same => exact .inl ⟨hheld, rfl⟩
  | seed b habsent =>
    rcases held_insert rfl hheld with ⟨-, hsame⟩ | ⟨-, hpending, -⟩
    · exact .inl hsame
    · cases hpending
  | attach b hfree | remove b hfree | replace b operationId tx' hattaching =>
    rcases held_insert rfl hheld with ⟨-, hsame⟩ | ⟨rfl, hpending, hentry⟩
    · exact .inl hsame
    · obtain rfl := Option.some.inj hpending
      exact .inr ⟨_, List.mem_singleton_self _, rfl, rfl, hrunning, hentry⟩
  | settle lease tx' howns hsettles =>
    by_cases hlease : a = lease.agentId
    · subst hlease
      obtain ⟨entry, hentry, hpending⟩ := Option.bind_eq_some_iff.mp hheld
      rw [(hsettles.ended entry hentry).1] at hpending
      cases hpending
    · have hsame := hsettles.others a hlease
      rw [held_promises, hsame] at hheld
      exact .inl ⟨hheld, hsame⟩
  | stop => cases hrunning

/-- Only `stop` stops the registry. -/
theorem stopped_exec (call : RuntimeCall) (h : call ≠ .stop) :
    (r.exec call).1.stopped = r.stopped := by
  cases call with
  | seedReady b =>
    simp only [exec, seedReady]
    repeat' split
    all_goals rfl
  | reserveAttach b retryFailed =>
    simp only [exec, reserveAttach]
    repeat' split
    all_goals rfl
  | reserveRepair b =>
    simp only [exec, reserveRepair]
    repeat' split
    all_goals rfl
  | beginRemove b =>
    simp only [exec, beginRemove]
    repeat' split
    all_goals rfl
  | commitReady lease =>
    simp only [exec, commitReady]
    split <;> rfl
  | commitFailed lease failure =>
    simp only [exec, commitFailed]
    split <;> rfl
  | finishRemove lease =>
    simp only [exec, finishRemove]
    split <;> rfl
  | restoreAttachRequired lease failure =>
    simp only [exec, restoreAttachRequiredAfterRemovePersistError]
    split <;> rfl
  | stop => exact absurd rfl h

def Released (r : MemberRuntimeRegistry) (lease : MemberLease) : Prop := ∀ tx, ¬r.Owns lease tx

theorem Settles.released (lease : MemberLease) (h : r.Settles lease tx r') : r'.Released lease := by
  intro tx' howns
  obtain ⟨-, -, hentry⟩ := howns
  have hover := (h.ended _ hentry).1
  cases lease <;> cases hover

theorem released_of_not_attaching {lease : AttachLease} (h : r.ownedAttach lease = none) :
    r.Released (.attach lease) := by
  intro tx howns
  rw [ownedAttach_eq_some.mpr howns] at h
  cases h

theorem released_of_not_removing {lease : RemoveLease} (h : r.ownedRemoval lease = none) :
    r.Released (.remove lease) := by
  intro tx howns
  rw [ownedRemoval_eq_some.mpr howns] at h
  cases h

theorem released_commitReady (r : MemberRuntimeRegistry) (lease : AttachLease) :
    (r.commitReady lease).1.Released (.attach lease) := by
  rw [commitReady]
  cases howned : r.ownedAttach lease with
  | none => exact released_of_not_attaching howned
  | some tx =>
    exact Settles.released (.attach lease) (settles_insert rfl fun _ hwaiter => by cases hwaiter)

theorem released_commitFailed (r : MemberRuntimeRegistry) (lease : AttachLease)
    (failure : MemberRuntimeFailure) :
    (r.commitFailed lease failure).1.Released (.attach lease) := by
  rw [commitFailed]
  cases howned : r.ownedAttach lease with
  | none => exact released_of_not_attaching howned
  | some tx =>
    exact Settles.released (.attach lease) (settles_insert rfl fun _ hwaiter =>
      (Option.some.inj hwaiter).symm)

theorem released_finishRemove (r : MemberRuntimeRegistry) (lease : RemoveLease) :
    (r.finishRemove lease).1.Released (.remove lease) := by
  rw [finishRemove]
  cases howned : r.ownedRemoval lease with
  | none => exact released_of_not_removing howned
  | some tx => exact Settles.released (.remove lease) settles_erase

theorem released_restore (r : MemberRuntimeRegistry) (lease : RemoveLease)
    (failure : MemberRuntimeFailure) :
    (r.restoreAttachRequiredAfterRemovePersistError lease failure).1.Released (.remove lease) := by
  rw [restoreAttachRequiredAfterRemovePersistError]
  cases howned : r.ownedRemoval lease with
  | none => exact released_of_not_removing howned
  | some tx =>
    exact Settles.released (.remove lease) (settles_insert rfl fun _ hwaiter =>
      (Option.some.inj hwaiter).symm)

/-- After `begin_remove` no attach of the agent is going on. -/
theorem released_beginRemove (hrunning : r.stopped = false) (lease : AttachLease) :
    (r.beginRemove lease.agentId).1.Released (.attach lease) := by
  rintro tx ⟨-, -, hentry⟩
  change (r.beginRemove lease.agentId).1.entries.lookup lease.agentId =
    some (.attaching lease.operationId tx) at hentry
  rw [beginRemove, if_neg (by simp [hrunning])] at hentry
  split at hentry
  all_goals simp_all [startRemove, sendReplace]

end MemberRuntimeRegistry

namespace OperationCall

open MemberRuntimeRegistry

/-- The leases that the call has and that nobody else is to use. -/
def leases : OperationCall → List MemberLease
  | addManualAgent reservation | spawnWelcome _ reservation | spawnEnqueue reservation
  | removeAgent _ (some reservation) => (RuntimeReply.reserved reservation).issued
  | removeReload removalLease | removePersist removalLease | removeDetach removalLease =>
    removalLease.toList.map .remove
  | sessionDetach removal => (RuntimeReply.removal removal).issued
  | ensureSession _ owners => owners.map .attach
  | attachMemberRuntime lease | attachCleanup lease _ => [.attach lease]
  | addAgent _ | spawnAgent _ | removeAgent _ none | sessionRemoveAgent _ => []

/-- The leases that the call forgets when it returns early: a notice or the welcome cannot be
sent, a clean-up does not find the agent any more, a removal cannot load the team again or has
not been able to detach the agent. -/
def forgets (reply : PortReply) (call : OperationCall) : List MemberLease :=
  match call, reply.result with
  | addManualAgent _, .error _ | spawnEnqueue _, .error _ | removeAgent _ _, .error _
  | removeReload _, .error _ | sessionDetach _, .error _ => call.leases
  | removeDetach _, .error (.agentNotFound _) => []
  | removeDetach _, .error _ => call.leases
  | _, _ => []

/-- A reservation of `spawn_agent` is for the agent that it has spawned. -/
def Fits : OperationCall → Prop
  | spawnWelcome slotId reservation | removeAgent slotId (some reservation) =>
    ∀ lease ∈ (RuntimeReply.reserved reservation).issued, lease.agentId = slotId
  | _ => True

def Carry (calls : List OperationCall) (lease : MemberLease) : Prop :=
  ∃ call ∈ calls, lease ∈ call.leases

variable {r r' : MemberRuntimeRegistry}

/-- What a call does when it goes on: the leases that it is issued are carried on, and those that
it had are carried on, forgotten or released. -/
structure Hands (r : MemberRuntimeRegistry) (call : OperationCall) (forgotten : List MemberLease)
    (r' : MemberRuntimeRegistry) (next : List OperationCall) : Prop where
  effect : ∃ issued took, Effect r r' issued took ∧ ∀ lease ∈ issued, Carry next lease
  running : r'.stopped = false
  leases : ∀ lease ∈ call.leases, Carry next lease ∨ lease ∈ forgotten ∨ r'.Released lease

variable {call : OperationCall} {forgotten : List MemberLease} {next : List OperationCall}

theorem Hands.idle (hrunning : r.stopped = false)
    (h : ∀ lease ∈ call.leases, Carry next lease ∨ lease ∈ forgotten) :
    Hands r call forgotten r next :=
  ⟨⟨[], none, .same, nofun⟩, hrunning, fun lease hlease =>
    (h lease hlease).imp id .inl⟩

theorem Hands.exec (runtimeCall : RuntimeCall) (hrunning : r.stopped = false)
    (hcall : runtimeCall ≠ .stop)
    (hissued : ∀ lease ∈ (r.exec runtimeCall).2.issued, Carry next lease)
    (h : ∀ lease ∈ call.leases, Carry next lease ∨ lease ∈ forgotten ∨
      (r.exec runtimeCall).1.Released lease) :
    Hands r call forgotten (r.exec runtimeCall).1 next :=
  ⟨⟨_, _, exec_effect r runtimeCall, hissued⟩, (stopped_exec _ hcall).trans hrunning, h⟩

theorem carry_spawnAttach (reservation : ReserveAttach) :
    ∀ lease ∈ (RuntimeReply.reserved reservation).issued, Carry (spawnAttach reservation) lease := by
  intro lease hlease
  cases reservation with
  | start owner => exact ⟨_, List.mem_singleton_self _, hlease⟩
  | join _ | alreadyReady | removing _ | sessionStopped => cases hlease

section

variable (hrunning : r.stopped = false)
include hrunning

theorem hands_beginRemove {slotId : String} {reservation : Option ReserveAttach}
    (hfits : (removeAgent slotId reservation).Fits) :
    Hands r (removeAgent slotId reservation) forgotten (beginRemove r slotId).1
      (beginRemove r slotId).2 := by
  have hregistry : (beginRemove r slotId).1 = (r.exec (.beginRemove slotId)).1 := by
    rw [beginRemove]
    split <;> rename_i hbegin <;> exact (congrArg Prod.fst hbegin).symm
  rw [hregistry]
  refine .exec _ hrunning nofun (fun lease hlease => ?_) fun lease hlease => .inr (.inr ?_)
  · rw [beginRemove]
    change lease ∈ (RuntimeReply.removal (r.beginRemove slotId).2).issued at hlease
    split <;> rename_i hbegin <;> rw [hbegin] at hlease
    · exact ⟨_, List.mem_singleton_self _, hlease⟩
    all_goals cases hlease
  · cases reservation with
    | none => cases hlease
    | some reservation =>
      have hagent := hfits lease hlease
      cases reservation with
      | start owner =>
        obtain rfl := List.mem_singleton.mp hlease
        subst hagent
        exact released_beginRemove hrunning owner
      | join _ | alreadyReady | removing _ | sessionStopped => cases hlease

theorem hands_removeDetach (removalLease : Option RemoveLease) (reply : PortReply) :
    Hands r (removeDetach removalLease) ((removeDetach removalLease).forgets reply)
      ((removeDetach removalLease).advance r reply).1
      ((removeDetach removalLease).advance r reply).2 := by
  have hfinish : ∀ (lease : RemoveLease) (forgotten : List MemberLease),
      Hands r (removeDetach (some lease)) forgotten (r.finishRemove lease).1 [] := by
    intro lease forgotten
    refine .exec (.finishRemove lease) hrunning nofun nofun fun l hl => ?_
    obtain rfl := List.mem_singleton.mp hl
    exact .inr (.inr (released_finishRemove r lease))
  cases removalLease with
  | none =>
    have hidle : ∀ forgotten, Hands r (removeDetach none) forgotten r [] := fun _ =>
      .idle hrunning nofun
    cases hresult : reply.result with
    | ok u =>
      simp only [advance, hresult]
      exact hidle _
    | error e => cases e <;> simp only [advance, hresult] <;> exact hidle _
  | some lease =>
    cases hresult : reply.result with
    | ok u =>
      simp only [advance, hresult]
      exact hfinish lease _
    | error e =>
      cases e with
      | agentNotFound _ =>
        simp only [advance, hresult]
        exact hfinish lease _
      | _ =>
        simp only [advance, forgets, hresult]
        exact .idle hrunning fun l hl => .inr hl

theorem hands_sessionRemoveAgent (slotId : String) (reply : PortReply) :
    Hands r (sessionRemoveAgent slotId) ((sessionRemoveAgent slotId).forgets reply)
      ((sessionRemoveAgent slotId).advance r reply).1
      ((sessionRemoveAgent slotId).advance r reply).2 := by
  have hregistry : ((sessionRemoveAgent slotId).advance r reply).1 =
      (r.exec (.beginRemove slotId)).1 := by
    rw [advance]
    split <;> rename_i hbegin <;> exact (congrArg Prod.fst hbegin).symm
  rw [hregistry]
  refine .exec _ hrunning nofun (fun lease hlease => ?_) nofun
  change lease ∈ (RuntimeReply.removal (r.beginRemove slotId).2).issued at hlease
  rw [advance]
  split <;> rename_i hbegin <;> rw [hbegin] at hlease
  · cases hlease
  · exact ⟨_, List.mem_singleton_self _, hlease⟩

/-- How `reserve_member_runtime_reconciliation` reserves an agent. -/
theorem reserveReconciliation_spec (agentId : String) (hasTask : Bool) :
    (∃ took, Effect r (r.reserveReconciliation agentId hasTask).1
      (RuntimeReply.reserved (r.reserveReconciliation agentId hasTask).2).issued took) ∧
      (r.reserveReconciliation agentId hasTask).1.stopped = false ∧
      (r.reserveReconciliation agentId hasTask).2 ≠ .sessionStopped := by
  rw [reserveReconciliation]
  split
  · split
    · exact ⟨⟨none, .same⟩, hrunning, fun h => by cases h⟩
    · refine ⟨⟨_, exec_effect r (.reserveRepair agentId)⟩,
        (stopped_exec (.reserveRepair agentId) fun h => by cases h).trans hrunning, fun h => ?_⟩
      rw [reserveRepair, if_neg (by simp [hrunning])] at h
      split at h <;> cases h
  · refine ⟨⟨_, exec_effect r (.reserveAttach agentId true)⟩,
      (stopped_exec (.reserveAttach agentId true) fun h => by cases h).trans hrunning, fun h => ?_⟩
    rw [reserveAttach, if_neg (by simp [hrunning])] at h
    split at h <;> cases h

theorem hands_ensureSession (agentIds : List String) (owners : List AttachLease)
    (reply : PortReply) :
    Hands r (ensureSession agentIds owners) ((ensureSession agentIds owners).forgets reply)
      ((ensureSession agentIds owners).advance r reply).1
      ((ensureSession agentIds owners).advance r reply).2 := by
  cases agentIds with
  | nil =>
    refine .idle hrunning fun lease hlease => .inl ?_
    obtain ⟨owner, howner, rfl⟩ := List.mem_map.mp hlease
    exact ⟨_, List.mem_map_of_mem howner, List.mem_singleton_self _⟩
  | cons agentId agentIds =>
    obtain ⟨⟨took, heffect⟩, hstopped, hne⟩ :=
      reserveReconciliation_spec hrunning agentId reply.hasTask
    have hkept : ∀ more, ∀ lease ∈ owners.map MemberLease.attach,
        Carry [ensureSession agentIds (owners ++ more)] lease := by
      intro more lease hlease
      refine ⟨_, List.mem_singleton_self _, ?_⟩
      obtain ⟨owner, howner, rfl⟩ := List.mem_map.mp hlease
      exact List.mem_map_of_mem (List.mem_append_left more howner)
    have hnothing := hkept []
    rw [List.append_nil] at hnothing
    rw [advance]
    split
    · rename_i r' owner hreserve
      rw [hreserve] at heffect hstopped
      refine ⟨⟨_, took, heffect, fun lease hlease => ?_⟩, hstopped, fun lease hlease =>
        .inl (hkept [owner] lease hlease)⟩
      obtain rfl := List.mem_singleton.mp hlease
      exact ⟨_, List.mem_singleton_self _, List.mem_map_of_mem (by simp)⟩
    · rename_i r' waiter hreserve
      rw [hreserve] at heffect hstopped
      exact ⟨⟨_, took, heffect, nofun⟩, hstopped, fun lease hlease =>
        .inl (hnothing lease hlease)⟩
    · rename_i r' waiter hreserve
      rw [hreserve] at heffect hstopped
      exact ⟨⟨_, took, heffect, nofun⟩, hstopped, fun lease hlease =>
        .inl (hnothing lease hlease)⟩
    · rename_i r' hreserve
      rw [hreserve] at heffect hstopped
      exact ⟨⟨_, took, heffect, nofun⟩, hstopped, fun lease hlease =>
        .inl (hnothing lease hlease)⟩
    · rename_i r' hreserve
      rw [hreserve] at hne
      exact absurd rfl hne

/-- The registry is used once or not, and every lease stays with somebody or is released. -/
theorem hands_advance (hfits : call.Fits) (reply : PortReply) :
    Hands r call (call.forgets reply) (call.advance r reply).1 (call.advance r reply).2 := by
  cases call with
  | addAgent slotId | spawnAgent slotId =>
    cases hresult : reply.result with
    | error e =>
      simp only [advance, hresult]
      exact .idle hrunning nofun
    | ok u =>
      simp only [advance, hresult]
      exact .exec (.reserveAttach slotId false) hrunning nofun
        (fun lease hlease => ⟨_, List.mem_singleton_self _, hlease⟩) nofun
  | addManualAgent reservation | spawnEnqueue reservation =>
    cases hresult : reply.result with
    | error e =>
      simp only [advance, forgets, hresult]
      exact .idle hrunning fun lease hlease => .inr hlease
    | ok u =>
      simp only [advance, hresult]
      exact .idle hrunning fun lease hlease => .inl (carry_spawnAttach reservation lease hlease)
  | spawnWelcome slotId reservation =>
    cases hresult : reply.result with
    | error e | ok u =>
      simp only [advance, hresult]
      exact .idle hrunning fun lease hlease => .inl ⟨_, List.mem_singleton_self _, hlease⟩
  | removeAgent slotId reservation =>
    cases hresult : reply.result with
    | error e =>
      simp only [advance, forgets, hresult]
      exact .idle hrunning fun lease hlease => .inr hlease
    | ok u =>
      simp only [advance, hresult]
      exact hands_beginRemove hrunning hfits
  | removeReload removalLease =>
    cases hresult : reply.result with
    | error e =>
      simp only [advance, forgets, hresult]
      exact .idle hrunning fun lease hlease => .inr hlease
    | ok u =>
      simp only [advance, hresult]
      exact .idle hrunning fun lease hlease => .inl ⟨_, List.mem_singleton_self _, hlease⟩
  | removePersist removalLease =>
    cases hresult : reply.result with
    | error e =>
      cases removalLease with
      | none =>
        simp only [advance, hresult]
        exact .idle hrunning nofun
      | some lease =>
        simp only [advance, hresult]
        refine .exec (.restoreAttachRequired lease membershipPersistFailed) hrunning
          nofun nofun fun l hl => ?_
        obtain rfl := List.mem_singleton.mp hl
        exact .inr (.inr (released_restore r lease membershipPersistFailed))
    | ok u =>
      simp only [advance, hresult]
      exact .idle hrunning fun lease hlease => .inl ⟨_, List.mem_singleton_self _, hlease⟩
  | removeDetach removalLease => exact hands_removeDetach hrunning removalLease reply
  | sessionRemoveAgent slotId => exact hands_sessionRemoveAgent hrunning slotId reply
  | sessionDetach removal =>
    cases hresult : reply.result with
    | error e =>
      simp only [advance, forgets, hresult]
      exact .idle hrunning fun lease hlease => .inr hlease
    | ok u =>
      cases removal with
      | start lease =>
        simp only [advance, hresult]
        refine .exec (.finishRemove lease) hrunning nofun nofun fun l hl => ?_
        obtain rfl := List.mem_singleton.mp hl
        exact .inr (.inr (released_finishRemove r lease))
      | join _ | absent | sessionStopped =>
        simp only [advance, hresult]
        exact .idle hrunning nofun
  | ensureSession agentIds owners => exact hands_ensureSession hrunning agentIds owners reply
  | attachMemberRuntime lease =>
    have hkeep : ∀ failure forgotten,
        Hands r (attachMemberRuntime lease) forgotten r [attachCleanup lease failure] :=
      fun failure _ => .idle hrunning fun l hl => .inl ⟨_, List.mem_singleton_self _, hl⟩
    cases hresult : reply.result with
    | error e =>
      simp only [advance, hresult]
      exact hkeep _ _
    | ok u =>
      simp only [advance, hresult]
      split
      · rename_i hstale
        refine ⟨⟨[], none, .same, nofun⟩, hrunning, fun l hl => .inr (.inr ?_)⟩
        obtain rfl := List.mem_singleton.mp hl
        rw [ownsAttach, Option.not_isSome_iff_eq_none] at hstale
        exact released_of_not_attaching hstale
      · split
        · exact hkeep _ _
        · refine .exec (.commitReady lease) hrunning nofun nofun fun l hl => ?_
          obtain rfl := List.mem_singleton.mp hl
          exact .inr (.inr (released_commitReady r lease))
  | attachCleanup lease failure =>
    refine .exec (.commitFailed lease failure) hrunning nofun nofun fun l hl => ?_
    obtain rfl := List.mem_singleton.mp hl
    exact .inr (.inr (released_commitFailed r lease failure))

end

theorem agentId_of_reserveAttach {slotId : String} {retryFailed : Bool} {lease : MemberLease}
    (h : lease ∈ (RuntimeReply.reserved (r.reserveAttach slotId retryFailed).2).issued) :
    lease.agentId = slotId := by
  rw [reserveAttach] at h
  repeat' split at h
  all_goals first | (obtain rfl := List.mem_singleton.mp h; rfl) | cases h

theorem fits_spawnAttach (reservation : ReserveAttach) :
    ∀ c ∈ spawnAttach reservation, c.Fits := by
  intro c hc
  cases reservation with
  | start lease =>
    obtain rfl := List.mem_singleton.mp hc
    trivial
  | join _ | alreadyReady | removing _ | sessionStopped => cases hc

theorem fits_advance (hfits : call.Fits) (reply : PortReply) :
    ∀ c ∈ (call.advance r reply).2, c.Fits := by
  intro c hc
  cases call with
  | spawnAgent slotId =>
    cases hresult : reply.result with
    | error e => simp [advance, hresult] at hc
    | ok u =>
      simp only [advance, hresult] at hc
      obtain rfl := List.mem_singleton.mp hc
      exact fun lease hlease => agentId_of_reserveAttach hlease
  | spawnWelcome slotId reservation =>
    cases hresult : reply.result with
    | error e =>
      simp only [advance, hresult] at hc
      obtain rfl := List.mem_singleton.mp hc
      exact hfits
    | ok u =>
      simp only [advance, hresult] at hc
      obtain rfl := List.mem_singleton.mp hc
      trivial
  -- the other calls do not go on with such a reservation
  | addManualAgent reservation | spawnEnqueue reservation =>
    simp only [advance] at hc
    split at hc
    · cases hc
    · exact fits_spawnAttach reservation c hc
  | removeAgent slotId reservation =>
    simp only [advance, beginRemove] at hc
    repeat' split at hc
    all_goals first | (obtain rfl := List.mem_singleton.mp hc; trivial) | cases hc
  | ensureSession agentIds owners =>
    cases agentIds with
    | nil =>
      obtain ⟨owner, -, rfl⟩ := List.mem_map.mp hc
      trivial
    | cons agentId agentIds =>
      simp only [advance] at hc
      split at hc
      all_goals first | (obtain rfl := List.mem_singleton.mp hc; trivial) | cases hc
  | _ =>
    simp only [advance] at hc
    repeat' split at hc
    all_goals first | (obtain rfl := List.mem_singleton.mp hc; trivial) | cases hc

theorem fits_of_begins (h : call.Begins) : call.Fits := by
  cases call with
  | removeAgent slotId reservation =>
    cases reservation with
    | none => trivial
    | some reservation => cases h
  | spawnWelcome _ _ => cases h
  | _ => trivial

end OperationCall

namespace Operations

open MemberRuntimeRegistry OperationCall

def Carried (w : Operations) : Prop :=
  ∀ a tx, w.registry.promises.held a = some tx →
    ∃ call ∈ w.calls, ∃ lease ∈ call.leases, lease.agentId = a ∧ w.registry.Owns lease tx

/-- No call forgets the lease of an operation that is still going on. -/
def Remembers (w : Operations) (step : OperationStep) : Prop :=
  ∀ k reply call, step = .advance k reply → w.calls[k]? = some call →
    ∀ lease ∈ call.forgets reply, w.registry.Released lease

structure Sound (w : Operations) : Prop where
  running : w.registry.stopped = false
  fits : ∀ call ∈ w.calls, call.Fits
  kept : w.registry.promises.Kept
  carried : w.Carried

variable {w : Operations} {sessionGeneration : String}

theorem sound_published (sessionGeneration : String) (agentIds : List String) :
    (published sessionGeneration agentIds).Sound := by
  have hseeded : ∀ r : MemberRuntimeRegistry, r.stopped = false → r.promises.Kept →
      (∀ a, r.promises.held a = none) →
      let r' := agentIds.foldl (fun r agentId => (r.seedReady agentId).1) r
      r'.stopped = false ∧ r'.promises.Kept ∧ ∀ a, r'.promises.held a = none := by
    induction agentIds with
    | nil => exact fun r hrunning hkept hfree => ⟨hrunning, hkept, hfree⟩
    | cons agentId agentIds ih =>
      intro r hrunning hkept hfree
      have heffect := exec_effect r (.seedReady agentId)
      have hstopped : (r.exec (.seedReady agentId)).1.stopped = false :=
        (stopped_exec (.seedReady agentId) nofun).trans hrunning
      refine ih _ hstopped ((heffect.moves hkept).kept hkept) fun a => ?_
      by_contra hheld
      obtain ⟨tx, htx⟩ := Option.ne_none_iff_exists'.mp hheld
      rcases heffect.held hstopped htx with ⟨hbefore, -⟩ | ⟨lease, hlease, -⟩
      · rw [hfree a] at hbefore
        cases hbefore
      · cases hlease
  obtain ⟨hrunning, hkept, hfree⟩ := hseeded (.new sessionGeneration) rfl
    (by exact Promises.kept_empty) fun a => rfl
  refine ⟨hrunning, nofun, hkept, fun a tx hheld => ?_⟩
  rw [published, hfree a] at hheld
  cases hheld

theorem Sound.step (h : w.Sound) {step : OperationStep}
    (hstep : (machine sessionGeneration).admits w step) (hremembers : w.Remembers step) :
    ((machine sessionGeneration).fire w step).Sound := by
  cases step with
  | begin call =>
    refine ⟨h.running, fun c hc => ?_, h.kept, fun a tx hheld => ?_⟩
    · rcases List.mem_append.mp hc with hc | hc
      · exact h.fits c hc
      · obtain rfl := List.mem_singleton.mp hc
        exact fits_of_begins hstep
    · obtain ⟨c, hc, hlease⟩ := h.carried a tx hheld
      exact ⟨c, List.mem_append_left _ hc, hlease⟩
  | advance k reply =>
    obtain ⟨call, hcall⟩ : ∃ call, w.calls[k]? = some call := ⟨_, List.getElem?_eq_getElem hstep⟩
    have hfire : (machine sessionGeneration).fire w (.advance k reply) =
        ⟨(call.advance w.registry reply).1,
          w.calls.take k ++ (call.advance w.registry reply).2 ++ w.calls.drop (k + 1)⟩ := by
      change w.fire (.advance k reply) = _
      rw [fire, hcall]
    have hcalls : w.calls = w.calls.take k ++ call :: w.calls.drop (k + 1) := by
      obtain ⟨hlt, rfl⟩ := List.getElem?_eq_some_iff.mp hcall
      rw [← List.drop_eq_getElem_cons hlt, List.take_append_drop]
    have hfits : call.Fits := h.fits call (List.mem_of_getElem? hcall)
    have hhands := hands_advance h.running hfits reply
    obtain ⟨issued, took, heffect, hissued⟩ := hhands.effect
    rw [hfire]
    refine ⟨hhands.running, fun c hc => ?_, (heffect.moves h.kept).kept h.kept,
      fun a tx hheld => ?_⟩
    · rcases List.mem_append.mp hc with hc | hc
      · rcases List.mem_append.mp hc with hc | hc
        · exact h.fits c (List.mem_of_mem_take hc)
        · exact fits_advance hfits reply c hc
      · exact h.fits c (List.mem_of_mem_drop hc)
    · rcases heffect.held hhands.running hheld with ⟨hbefore, hsame⟩ |
        ⟨lease, hlease, ha, howns⟩
      -- the operation was going on before: its call is still there, or was the one that went on
      · obtain ⟨c, hc, lease, hlease, rfl, howns⟩ := h.carried a tx hbefore
        have howns' : (call.advance w.registry reply).1.Owns lease tx :=
          ⟨howns.1.trans (RuntimeHistory.generation_of_effect heffect).symm, hhands.running,
            hsame.trans howns.2.2⟩
        have hcarry : Carry (call.advance w.registry reply).2 lease ∨ c ∈ w.calls.take k ∨
            c ∈ w.calls.drop (k + 1) := by
          rw [hcalls] at hc
          rcases List.mem_append.mp hc with hc | hc
          · exact .inr (.inl hc)
          · rcases List.mem_cons.mp hc with rfl | hc
            · rcases hhands.leases lease hlease with hnext | hforgotten | hreleased
              · exact .inl hnext
              · exact absurd howns (hremembers k reply c rfl hcall lease hforgotten tx)
              · exact absurd howns' (hreleased tx)
            · exact .inr (.inr hc)
        rcases hcarry with ⟨c', hc', hlease'⟩ | hc' | hc'
        · exact ⟨c', List.mem_append_left _ (List.mem_append_right _ hc'), lease, hlease', rfl,
            howns'⟩
        · exact ⟨c, List.mem_append_left _ (List.mem_append_left _ hc'), lease, hlease, rfl,
            howns'⟩
        · exact ⟨c, List.mem_append_right _ hc', lease, hlease, rfl, howns'⟩
      · obtain ⟨c, hc, hlease'⟩ := hissued lease hlease
        exact ⟨c, List.mem_append_left _ (List.mem_append_right _ hc), lease, hlease', ha, howns⟩

/-- In every run in which no call forgets the lease of an operation that is going on, every such
operation has a call in progress that carries it out, and none is going on once no call is in
progress. -/
theorem begun_operations_end (h : ((machine sessionGeneration).restrict Remembers).Reachable w) :
    (∀ a entry tx, w.registry.entries.lookup a = some entry → entry.pendingTx = some tx →
      ∃ call ∈ w.calls, ∃ lease ∈ call.leases, lease.agentId = a ∧ w.registry.Owns lease tx) ∧
    (∀ tx : ℕ, w.registry.channels[tx]? = some [] →
      ∃ call ∈ w.calls, ∃ lease ∈ call.leases, w.registry.Owns lease tx) ∧
    (w.calls = [] →
      (∀ a entry, w.registry.entries.lookup a = some entry → entry.pendingTx = none) ∧
      ∀ sent ∈ w.registry.channels, sent ≠ []) := by
  have hw : w.Sound := h.invariant (M := (machine sessionGeneration).restrict Remembers)
    (by rintro _ ⟨agentIds, rfl⟩; exact sound_published sessionGeneration agentIds)
    fun v step hv hstep => hv.step hstep.1 hstep.2
  have hwatched : ∀ tx : ℕ, w.registry.channels[tx]? = some [] →
      ∃ call ∈ w.calls, ∃ lease ∈ call.leases, w.registry.Owns lease tx := by
    intro tx htx
    obtain ⟨a, ha⟩ := hw.kept.watched tx htx
    obtain ⟨call, hcall, lease, hlease, -, howns⟩ := hw.carried a tx ha
    exact ⟨call, hcall, lease, hlease, howns⟩
  refine ⟨fun a entry tx hentry hpending =>
    hw.carried a tx ((held_of_lookup hentry).trans hpending), hwatched, fun hidle => ⟨?_, ?_⟩⟩
  · intro a entry hentry
    by_contra hpending
    obtain ⟨tx, htx⟩ := Option.ne_none_iff_exists'.mp hpending
    obtain ⟨call, hcall, -⟩ := hw.carried a tx ((held_of_lookup hentry).trans htx)
    rw [hidle] at hcall
    cases hcall
  · rintro sent hsent rfl
    obtain ⟨tx, htx⟩ := List.mem_iff_getElem?.mp hsent
    obtain ⟨call, hcall, -⟩ := hwatched tx htx
    rw [hidle] at hcall
    cases hcall

theorem remembers_of_ok {k : ℕ} {reply : PortReply} (h : reply.result = .ok ()) :
    w.Remembers (.advance k reply) := by
  rintro k' reply' call ⟨⟩ hcall lease hlease
  cases call <;> simp [forgets, h] at hlease

theorem remembers_begin (call : OperationCall) : w.Remembers (.begin call) := by
  rintro k reply c ⟨⟩

def allWell : PortReply := ⟨.ok (), true, true⟩

def addWorker : List OperationStep :=
  [.begin (.addAgent "worker"), .advance 0 allWell, .advance 0 allWell]

/-- Instance: the attach task has the lease. -/
theorem begun_operations_end_sample :
    let w := ((machine "session").restrict Remembers).run (published "session" ["lead"]) addWorker
    (∀ a entry tx, w.registry.entries.lookup a = some entry → entry.pendingTx = some tx →
      ∃ call ∈ w.calls, ∃ lease ∈ call.leases, lease.agentId = a ∧ w.registry.Owns lease tx) ∧
    (∀ tx : ℕ, w.registry.channels[tx]? = some [] →
      ∃ call ∈ w.calls, ∃ lease ∈ call.leases, w.registry.Owns lease tx) ∧
    (w.calls = [] →
      (∀ a entry, w.registry.entries.lookup a = some entry → entry.pendingTx = none) ∧
      ∀ sent ∈ w.registry.channels, sent ≠ []) :=
  begun_operations_end (Machine.reachable_run ⟨["lead"], rfl⟩
    ⟨⟨by decide, remembers_begin _⟩, ⟨by decide, remembers_of_ok rfl⟩,
      ⟨by decide, remembers_of_ok rfl⟩, trivial⟩)

/-- The notices of `add_agent` cannot be written: the call returns, and its lease with it, and
the worker is being attached by nobody. -/
theorem add_agent_forgets_its_lease :
    ∃ w, (machine "session").Reachable w ∧ w.calls = [] ∧
      ∃ a operationId tx, w.registry.entries.lookup a = some (.attaching operationId tx) :=
  ⟨(machine "session").run (published "session" ["lead"])
      [.begin (.addAgent "worker"), .advance 0 allWell,
        .advance 0 ⟨.error (.database (.query "database is locked")), true, true⟩],
    Machine.reachable_run ⟨["lead"], rfl⟩ (by decide), by decide, "worker", 1, 0, by decide⟩

end Operations

end AionCore.Team
