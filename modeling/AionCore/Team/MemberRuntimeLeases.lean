import AionCore.Team.MemberRuntime

/-!
# Who owns a member's runtime

Every call on the registry makes or keeps promises: an operation that is going on holds its
channel, and it lets go of it only by telling an outcome. As long as the operation ids have not
wrapped around, a lease is the only one that its operation answers to, and answers once.
-/

namespace AionCore.Team

/-- The entry of the operation that the lease was issued for. -/
def MemberLease.entry : MemberLease → ℕ → MemberRuntimeEntry
  | attach lease, outcomeTx => .attaching lease.operationId outcomeTx
  | remove lease, outcomeTx => .removing lease.operationId outcomeTx

namespace MemberRuntimeRegistry

def promises (r : MemberRuntimeRegistry) : Promises String AttachOutcome :=
  ⟨fun a => (r.entries.lookup a).bind (·.pendingTx), r.channels⟩

variable {r r' : MemberRuntimeRegistry} {a : String} {tx : ℕ}

theorem held_promises (r : MemberRuntimeRegistry) (a : String) :
    r.promises.held a = (r.entries.lookup a).bind (·.pendingTx) := rfl

variable {entry : MemberRuntimeEntry}

theorem held_of_lookup (h : r.entries.lookup a = some entry) :
    r.promises.held a = entry.pendingTx := by
  rw [held_promises, h, Option.bind_some]

theorem held_of_absent (h : r.entries.lookup a = none) : r.promises.held a = none := by
  rw [held_promises, h, Option.bind_none]

/-- A lease owns an attach if its entry is attaching under its operation. -/
theorem ownedAttach_eq_some {lease : AttachLease} : r.ownedAttach lease = some tx ↔
    lease.sessionGeneration = r.sessionGeneration ∧ r.stopped = false ∧
      r.entries.lookup lease.agentId = some (.attaching lease.operationId tx) := by
  rw [ownedAttach]
  by_cases hgen : lease.sessionGeneration = r.sessionGeneration
  · cases r.stopped with
    | true => simp
    | false =>
      cases r.entries.lookup lease.agentId with
      | none => simp
      | some entry => cases entry <;> simp [hgen]
  · simp [hgen]

/-- A lease owns a removal if its entry is removing under its operation. -/
theorem ownedRemoval_eq_some {lease : RemoveLease} : r.ownedRemoval lease = some tx ↔
    lease.sessionGeneration = r.sessionGeneration ∧ r.stopped = false ∧
      r.entries.lookup lease.agentId = some (.removing lease.operationId tx) := by
  rw [ownedRemoval]
  by_cases hgen : lease.sessionGeneration = r.sessionGeneration
  · cases r.stopped with
    | true => simp
    | false =>
      cases r.entries.lookup lease.agentId with
      | none => simp
      | some entry => cases entry <;> simp [hgen]
  · simp [hgen]

/-- The lease owns the operation that its agent's entry shows, with this channel. -/
def Owns (r : MemberRuntimeRegistry) (lease : MemberLease) (tx : ℕ) : Prop :=
  lease.sessionGeneration = r.sessionGeneration ∧ r.stopped = false ∧
    r.entries.lookup lease.agentId = some (lease.entry tx)

/-- The operation of the lease is over: its entry is gone or no longer pending, and its
channel has been told the outcome. -/
structure Settles (r : MemberRuntimeRegistry) (lease : MemberLease) (tx : ℕ)
    (r' : MemberRuntimeRegistry) : Prop where
  generation : r'.sessionGeneration = r.sessionGeneration
  nextOperationId : r'.nextOperationId = r.nextOperationId
  ended : ∀ entry, r'.entries.lookup lease.agentId = some entry → entry.pendingTx = none ∧
    ∀ waiter, entry.operation = some waiter → waiter = ⟨lease.operationId, tx⟩
  others : ∀ b, b ≠ lease.agentId → r'.entries.lookup b = r.entries.lookup b
  told : ∃ outcome, r'.channels = Promises.tell r.channels tx outcome

/-- What a call can do, with the leases that it issues and the one that it takes. A removal may
begin in place of an attach. -/
inductive Effect (r : MemberRuntimeRegistry) :
    MemberRuntimeRegistry → List MemberLease → Option MemberLease → Prop
  | same : Effect r r [] none
  | seed (a : String) (absent : r.entries.lookup a = none) :
    Effect r { r with entries := r.entries.insert a .ready } [] none
  | attach (a : String) (free : r.promises.held a = none) : Effect r (r.startAttach a).1
    [.attach ⟨r.sessionGeneration, a, ⟨r.nextOperationId, r.channels.length⟩⟩] none
  | remove (a : String) (free : r.promises.held a = none) : Effect r (r.startRemove a)
    [.remove ⟨r.sessionGeneration, a, r.nextOperationId⟩] none
  | replace (a : String) (operationId tx : ℕ)
    (attaching : r.entries.lookup a = some (.attaching operationId tx)) :
    Effect r ((r.startRemove a).sendReplace tx .removed)
      [.remove ⟨r.sessionGeneration, a, r.nextOperationId⟩] none
  | settle (lease : MemberLease) (tx : ℕ) {r' : MemberRuntimeRegistry} (owns : r.Owns lease tx)
    (settles : r.Settles lease tx r') : Effect r r' [] (some lease)
  | stop : Effect r { r with
      stopped := true
      entries := ∅
      channels := tellStopped r.channels r.entries.values } [] none

def taken (call : RuntimeCall) (reply : RuntimeReply) : Option MemberLease :=
  if reply = .flag true then call.lease? else none

theorem startAttach_effect {reserved : ReserveAttach} (hfree : r.promises.held a = none)
    (h : r.startAttach a = (r', reserved)) :
    Effect r r' (RuntimeReply.reserved reserved).issued none := by
  obtain ⟨rfl, rfl⟩ := Prod.mk.inj h
  exact .attach a hfree

theorem reserveAttach_effect (a : String) (retryFailed : Bool) :
    Effect r (r.reserveAttach a retryFailed).1
      (RuntimeReply.reserved (r.reserveAttach a retryFailed).2).issued none := by
  rw [reserveAttach]
  split
  · exact .same
  · split
    · exact .same
    · exact .same
    · rename_i hfailed
      split
      · exact .same
      · exact startAttach_effect (held_of_lookup hfailed) rfl
    · exact .same
    · rename_i hnone
      exact startAttach_effect (held_of_absent hnone) rfl

theorem reserveRepair_effect (a : String) :
    Effect r (r.reserveRepair a).1 (RuntimeReply.reserved (r.reserveRepair a).2).issued none := by
  rw [reserveRepair]
  split
  · exact .same
  · split
    · exact .same
    · rename_i hready
      exact startAttach_effect (held_of_lookup hready) rfl
    · exact .same
    · exact .same
    · rename_i hnone
      exact startAttach_effect (held_of_absent hnone) rfl

theorem beginRemove_effect (a : String) :
    Effect r (r.beginRemove a).1 (RuntimeReply.removal (r.beginRemove a).2).issued none := by
  rw [beginRemove]
  split
  · exact .same
  · split
    · exact .same
    · rename_i operationId outcomeTx hattaching
      exact .replace a operationId outcomeTx hattaching
    · rename_i hfailed
      exact .remove a (held_of_lookup hfailed)
    · rename_i hready
      exact .remove a (held_of_lookup hready)
    · exact .same

variable {lease : MemberLease} {outcome : AttachOutcome}

/-- Writing an entry that is not pending over that of the lease, and telling the outcome. -/
theorem settles_insert (hentry : entry.pendingTx = none)
    (hoperation : ∀ waiter, entry.operation = some waiter → waiter = ⟨lease.operationId, tx⟩) :
    r.Settles lease tx
      ({ r with entries := r.entries.insert lease.agentId entry }.sendReplace tx outcome) where
  generation := rfl
  nextOperationId := rfl
  ended e he := by
    obtain rfl : entry = e := by simpa [sendReplace] using he
    exact ⟨hentry, hoperation⟩
  others b hb := AList.lookup_insert_ne hb
  told := ⟨outcome, rfl⟩

theorem settles_erase : r.Settles lease tx
    ({ r with entries := r.entries.erase lease.agentId }.sendReplace tx outcome) where
  generation := rfl
  nextOperationId := rfl
  ended e he := by simp [sendReplace] at he
  others b hb := AList.lookup_erase_ne hb
  told := ⟨outcome, rfl⟩

/-- What every call does. -/
theorem exec_effect (r : MemberRuntimeRegistry) (call : RuntimeCall) :
    Effect r (r.exec call).1 (r.exec call).2.issued (taken call (r.exec call).2) := by
  cases call with
  | seedReady a =>
    simp only [exec, seedReady]
    split
    · exact .same
    · split
      · rename_i hnone
        exact .seed a hnone
      all_goals exact .same
  | reserveAttach a retryFailed => exact reserveAttach_effect a retryFailed
  | reserveRepair a => exact reserveRepair_effect a
  | beginRemove a => exact beginRemove_effect a
  | commitReady lease =>
    simp only [exec, commitReady]
    split
    · exact .same
    · rename_i tx howned
      exact .settle (.attach lease) tx (ownedAttach_eq_some.mp howned) (settles_insert rfl nofun)
  | commitFailed lease failure =>
    simp only [exec, commitFailed]
    split
    · exact .same
    · rename_i tx howned
      refine .settle (.attach lease) tx (ownedAttach_eq_some.mp howned) (settles_insert rfl ?_)
      rintro _ ⟨⟩
      rfl
  | finishRemove lease =>
    simp only [exec, finishRemove]
    split
    · exact .same
    · rename_i tx howned
      exact .settle (.remove lease) tx (ownedRemoval_eq_some.mp howned) settles_erase
  | restoreAttachRequired lease failure =>
    simp only [exec, restoreAttachRequiredAfterRemovePersistError]
    split
    · exact .same
    · rename_i tx howned
      refine .settle (.remove lease) tx (ownedRemoval_eq_some.mp howned) (settles_insert rfl ?_)
      rintro _ ⟨⟩
      rfl
  | stop =>
    simp only [exec, stop]
    split
    · exact .same
    · exact .stop

/-- A call that returns false has changed nothing. -/
theorem exec_false (r : MemberRuntimeRegistry) (call : RuntimeCall)
    (h : (r.exec call).2 = .flag false) : (r.exec call).1 = r := by
  cases call with
  | reserveAttach a retryFailed | reserveRepair a | beginRemove a => cases h
  | seedReady a =>
    simp only [exec, seedReady] at h ⊢
    repeat' split
    all_goals simp_all
  | commitReady lease =>
    simp only [exec, commitReady] at h ⊢
    split <;> simp_all
  | commitFailed lease failure =>
    simp only [exec, commitFailed] at h ⊢
    split <;> simp_all
  | finishRemove lease =>
    simp only [exec, finishRemove] at h ⊢
    split <;> simp_all
  | restoreAttachRequired lease failure =>
    simp only [exec, restoreAttachRequiredAfterRemovePersistError] at h ⊢
    split <;> simp_all
  | stop =>
    simp only [exec, stop] at h ⊢
    split <;> simp_all

/-- Entering an operation is making a promise. -/
theorem promises_open (r' : MemberRuntimeRegistry)
    (hentry : entry.pendingTx = some r.channels.length)
    (hentries : r'.entries = r.entries.insert a entry)
    (hchannels : r'.channels = r.channels ++ [[]]) : r'.promises = r.promises.make a := by
  refine Promises.ext (funext fun b => ?_) hchannels
  rw [held_promises, hentries, Dict.lookup_insert', Promises.held_make]
  split
  · rw [Option.bind_some, hentry]
    rfl
  · rfl

/-- Settling the operation of a lease is keeping one. -/
theorem Settles.promises (h : r.Settles lease tx r') :
    ∃ outcome, r'.promises = r.promises.keep lease.agentId tx outcome := by
  obtain ⟨outcome, htold⟩ := h.told
  refine ⟨outcome, Promises.ext (funext fun b => ?_) htold⟩
  rw [Promises.held_keep]
  split
  · rename_i hb
    rw [hb, held_promises]
    cases hentry : r'.entries.lookup lease.agentId with
    | none => rfl
    | some entry => exact (h.ended entry hentry).1
  · rename_i hb
    rw [held_promises, h.others b hb, held_promises]

theorem Owns.held (h : r.Owns lease tx) :
    r.promises.held lease.agentId = some tx := by
  rw [held_of_lookup h.2.2]
  cases lease <;> rfl

/-- Telling all members in turn that the session has stopped. -/
theorem tellStopped_moves {l : List (Sigma fun _ : String => MemberRuntimeEntry)}
    (hl : l.NodupKeys) (channels : List (List AttachOutcome)) :
    Promises.Moves ⟨fun a => (l.dlookup a).bind (·.pendingTx), channels⟩
      ⟨fun _ => none, tellStopped channels (l.map fun e => e.2)⟩ := by
  induction l generalizing channels with
  | nil => exact .refl
  | cons e l ih =>
    obtain ⟨hnot, hl⟩ := List.nodupKeys_cons.mp hl
    have hrest : l.dlookup e.1 = none := List.dlookup_eq_none.mpr hnot
    have hlookup : ∀ a, (e :: l).dlookup a = if a = e.1 then some e.2 else l.dlookup a := by
      intro a
      by_cases ha : a = e.1
      · rw [if_pos ha, ha]
        exact List.dlookup_cons_eq l e.1 e.2
      · rw [if_neg ha]
        exact List.dlookup_cons_ne l e ha
    cases hpending : e.2.pendingTx with
    | none =>
      have hsame : (fun a => ((e :: l).dlookup a).bind (·.pendingTx)) =
          fun a => (l.dlookup a).bind (·.pendingTx) := by
        funext a
        rw [hlookup]
        split
        · rename_i ha
          rw [ha, hrest, Option.bind_some, hpending, Option.bind_none]
        · rfl
      have htold : tellStopped channels ((e :: l).map fun e => e.2) =
          tellStopped channels (l.map fun e => e.2) := by
        simp only [tellStopped, List.map_cons, List.filterMap_cons, hpending]
      rw [hsame, htold]
      exact ih hl channels
    | some tx =>
      have htold : tellStopped channels ((e :: l).map fun e => e.2) =
          tellStopped (Promises.tell channels tx .sessionStopped) (l.map fun e => e.2) := by
        simp only [tellStopped, List.map_cons, List.filterMap_cons, hpending, List.foldl_cons]
      rw [htold]
      refine .head (.keep e.1 tx .sessionStopped ?_) ?_
      · change ((e :: l).dlookup e.1).bind (·.pendingTx) = some tx
        rw [hlookup, if_pos rfl, Option.bind_some, hpending]
      · have hsame : Promises.keep
            ⟨fun a => ((e :: l).dlookup a).bind (·.pendingTx), channels⟩ e.1 tx .sessionStopped =
            ⟨fun a => (l.dlookup a).bind (·.pendingTx),
              Promises.tell channels tx .sessionStopped⟩ := by
          refine Promises.ext (funext fun a => ?_) rfl
          rw [Promises.held_keep]
          change (if a = e.1 then none else ((e :: l).dlookup a).bind (·.pendingTx)) =
            (l.dlookup a).bind (·.pendingTx)
          rw [hlookup]
          split
          · rename_i ha
            rw [ha, hrest, Option.bind_none]
          · rfl
        rw [hsame]
        exact ih hl _

/-- Every call makes promises, keeps some or leaves them. -/
theorem Effect.moves {issued : List MemberLease} {took : Option MemberLease}
    (h : Effect r r' issued took) (hkept : r.promises.Kept) :
    Promises.Moves r.promises r'.promises := by
  cases h with
  | same => exact .refl
  | seed a habsent =>
    have hsame : ({ r with entries := r.entries.insert a .ready } :
        MemberRuntimeRegistry).promises = r.promises := by
      refine Promises.ext (funext fun b => ?_) rfl
      rw [held_promises, held_promises, Dict.lookup_insert']
      split
      · rename_i hb
        rw [hb, habsent]
        rfl
      · rfl
    rw [hsame]
  | attach a hfree =>
    rw [promises_open (r.startAttach a).1 rfl rfl rfl]
    exact .single (.make a hfree)
  | remove a hfree =>
    rw [promises_open (r.startRemove a) rfl rfl rfl]
    exact .single (.make a hfree)
  | replace a operationId tx hattaching =>
    -- the attach is told that it is removed before the removal is entered
    have hheld : r.promises.held a = some tx := held_of_lookup hattaching
    have hstep : ((r.startRemove a).sendReplace tx .removed).promises =
        (r.promises.keep a tx .removed).make a := by
      refine Promises.ext (funext fun b => ?_) ?_
      · rw [Promises.held_make, Promises.held_keep]
        change ((r.startRemove a).promises).held b = _
        rw [promises_open (r.startRemove a) rfl rfl rfl, Promises.held_make]
        simp only [Promises.keep, Promises.length_tell]
        split <;> rfl
      · exact Promises.tell_append _ _ (hkept.lt_length hheld) _
    rw [hstep]
    refine .head (.keep a tx .removed hheld) (.single (.make a ?_))
    rw [Promises.held_keep, if_pos rfl]
  | settle lease tx howns hsettles =>
    obtain ⟨outcome, hstep⟩ := hsettles.promises
    rw [hstep]
    exact .single (.keep _ _ _ howns.held)
  | stop => exact tellStopped_moves r.entries.nodupKeys r.channels

end MemberRuntimeRegistry

namespace RuntimeHistory

open MemberRuntimeRegistry

variable {w : RuntimeHistory} {call : RuntimeCall}

/-- The operation id that is drawn together with the channel `tx`. -/
def operationIdOf (tx : ℕ) : ℕ := (tx + 1) % 2 ^ 64

theorem operationIdOf_succ (tx : ℕ) : wrappingSucc (operationIdOf tx) = operationIdOf (tx + 1) := by
  rw [wrappingSucc, operationIdOf, operationIdOf, Nat.mod_add_mod]

theorem operationIdOf_inj {tx tx' : ℕ} (h : tx < 2 ^ 64) (h' : tx' < 2 ^ 64)
    (heq : operationIdOf tx = operationIdOf tx') : tx = tx' := by
  simp only [operationIdOf] at heq
  omega

def IssuedWith (tx : ℕ) : MemberLease → Prop
  | .attach lease => lease.waiter = ⟨operationIdOf tx, tx⟩
  | .remove lease => lease.operationId = operationIdOf tx

/-- Channels, operation ids and leases are drawn together. -/
structure Numbered (w : RuntimeHistory) : Prop where
  kept : w.registry.promises.Kept
  next : w.registry.nextOperationId = operationIdOf w.registry.channels.length
  operations : ∀ a entry waiter, w.registry.entries.lookup a = some entry →
    entry.operation = some waiter → waiter.operationId = operationIdOf waiter.outcomeRx
  issued : ∀ lease ∈ w.issued, lease.sessionGeneration = w.registry.sessionGeneration ∧
    ∃ tx < w.registry.channels.length, IssuedWith tx lease
  distinct : w.registry.channels.length ≤ 2 ^ 64 → w.issued.Nodup
  succeeded : ∀ lease ∈ w.succeeded, ∃ tx outcome,
    lease.operationId = operationIdOf tx ∧ w.registry.channels[tx]? = some [outcome]
  once : w.registry.channels.length ≤ 2 ^ 64 → w.succeeded.Nodup

theorem numbered_new (sessionGeneration : String) :
    Numbered ⟨.new sessionGeneration, [], []⟩ where
  kept := Promises.kept_empty
  next := rfl
  operations a entry waiter h := by cases h
  issued lease h := by cases h
  distinct _ := List.nodup_nil
  succeeded lease h := by cases h
  once _ := List.nodup_nil

variable {took : Option MemberLease} {issued : List MemberLease}

/-- What a call that issues a lease leaves behind. -/
theorem issued_cases {r r' : MemberRuntimeRegistry} (h : Effect r r' issued took) : issued = [] ∨
      ∃ lease, issued = [lease] ∧ lease.sessionGeneration = r.sessionGeneration ∧
        r'.channels.length = r.channels.length + 1 ∧
        (r.nextOperationId = operationIdOf r.channels.length →
          IssuedWith r.channels.length lease) := by
  cases h with
  | same | seed | settle | stop => exact .inl rfl
  | attach a _ => exact .inr ⟨_, rfl, rfl, List.length_append, fun h => by rw [IssuedWith, h]⟩
  | remove a _ => exact .inr ⟨_, rfl, rfl, List.length_append, id⟩
  | replace a operationId tx _ =>
    exact .inr ⟨_, rfl, rfl, by simp [sendReplace, startRemove], id⟩

theorem generation_of_effect {r r' : MemberRuntimeRegistry} (h : Effect r r' issued took) :
    r'.sessionGeneration = r.sessionGeneration := by
  cases h with
  | settle lease tx howns hsettles => exact hsettles.generation
  | _ => rfl

theorem length_tellStopped (channels : List (List AttachOutcome))
    (entries : List MemberRuntimeEntry) :
    (tellStopped channels entries).length = channels.length := by
  rw [tellStopped]
  induction entries.filterMap (·.pendingTx) generalizing channels with
  | nil => rfl
  | cons tx l ih => rw [List.foldl_cons, ih, Promises.length_tell]

/-- The next id goes on counting with the channels. -/
theorem Numbered.next_effect (h : w.Numbered) {r' : MemberRuntimeRegistry}
    (he : Effect w.registry r' issued took) :
    r'.nextOperationId = operationIdOf r'.channels.length := by
  have hopened : ∀ n, n = w.registry.channels.length + 1 →
      wrappingSucc w.registry.nextOperationId = operationIdOf n := by
    rintro _ rfl
    rw [h.next, operationIdOf_succ]
  cases he with
  | same => exact h.next
  | seed a _ => exact h.next
  | attach a _ => exact hopened _ List.length_append
  | remove a _ => exact hopened _ List.length_append
  | replace a operationId tx _ => exact hopened _ (by simp [sendReplace, startRemove])
  | settle lease tx howns hsettles =>
    obtain ⟨outcome, htold⟩ := hsettles.told
    rw [hsettles.nextOperationId, htold, Promises.length_tell, h.next]
  | stop =>
    rw [length_tellStopped, h.next]

/-- Every entry shows the id that was drawn with its channel. -/
theorem Numbered.operations_effect (h : w.Numbered) {r' : MemberRuntimeRegistry}
    (he : Effect w.registry r' issued took) {a : String} {entry : MemberRuntimeEntry}
    {waiter : AttachWaiter} (hentry : r'.entries.lookup a = some entry)
    (hwaiter : entry.operation = some waiter) :
    waiter.operationId = operationIdOf waiter.outcomeRx := by
  have hinserted : ∀ b new, r'.entries = w.registry.entries.insert b new →
      (∀ waiter, new.operation = some waiter →
        waiter.operationId = operationIdOf waiter.outcomeRx) →
      waiter.operationId = operationIdOf waiter.outcomeRx := by
    intro b new hentries hnew
    rw [hentries, Dict.lookup_insert'] at hentry
    split at hentry
    · obtain rfl := Option.some.inj hentry
      exact hnew waiter hwaiter
    · exact h.operations a entry waiter hentry hwaiter
  cases he with
  | same => exact h.operations a entry waiter hentry hwaiter
  | seed b _ => exact hinserted b .ready rfl nofun
  | attach b _ | remove b _ | replace b operationId tx _ =>
    refine hinserted b _ rfl ?_
    rintro _ ⟨⟩
    exact h.next
  | settle lease tx howns hsettles =>
    by_cases ha : a = lease.agentId
    · -- the entry that is left names the operation of the lease
      rw [ha] at hentry
      rw [(hsettles.ended entry hentry).2 waiter hwaiter]
      refine h.operations _ _ ⟨lease.operationId, tx⟩ howns.2.2 ?_
      cases lease <;> rfl
    · rw [hsettles.others a ha] at hentry
      exact h.operations a entry waiter hentry hwaiter
  | stop => cases hentry

/-- The lease that a call takes has not succeeded before. -/
theorem Numbered.not_succeeded (h : w.Numbered) {lease : MemberLease} {tx : ℕ}
    (howns : w.registry.Owns lease tx) (hlen : w.registry.channels.length ≤ 2 ^ 64) :
    lease ∉ w.succeeded := by
  intro hmem
  obtain ⟨tx', outcome, hid, htold⟩ := h.succeeded lease hmem
  have hpending : w.registry.channels[tx]? = some [] := h.kept.pending _ tx howns.held
  have hlease : lease.operationId = operationIdOf tx := by
    refine h.operations _ _ ⟨lease.operationId, tx⟩ howns.2.2 ?_
    cases lease <;> rfl
  have hlt := (List.getElem?_eq_some_iff.mp hpending).1
  have hlt' := (List.getElem?_eq_some_iff.mp htold).1
  obtain rfl : tx' = tx :=
    operationIdOf_inj (by omega) (by omega) (hid.symm.trans hlease)
  rw [hpending] at htold
  cases htold

theorem Numbered.effect (h : w.Numbered) {r' : MemberRuntimeRegistry}
    (he : Effect w.registry r' issued took) :
    Numbered ⟨r', w.issued ++ issued, w.succeeded ++ took.toList⟩ := by
  have hmoves := he.moves h.kept
  have hlen : w.registry.channels.length ≤ r'.channels.length := hmoves.length_le
  constructor
  case kept => exact hmoves.kept h.kept
  case next => exact h.next_effect he
  case operations => exact fun a entry waiter => h.operations_effect he
  case issued =>
    intro lease hlease
    rw [generation_of_effect he]
    rcases List.mem_append.mp hlease with hold | hnew
    · obtain ⟨hgen, tx, htx, hwith⟩ := h.issued lease hold
      exact ⟨hgen, tx, htx.trans_le hlen, hwith⟩
    · rcases issued_cases he with rfl | ⟨new, rfl, hgen, hlast, hwith⟩
      · cases hnew
      · obtain rfl := List.mem_singleton.mp hnew
        exact ⟨hgen, _, by rw [hlast]; exact Nat.lt_succ_self _, hwith h.next⟩
  case distinct =>
    intro hbound
    have hold := h.distinct (hlen.trans hbound)
    rcases issued_cases he with rfl | ⟨new, rfl, -, hlast, hwith⟩
    · rwa [List.append_nil]
    · refine List.nodup_append.mpr ⟨hold, List.nodup_singleton new, ?_⟩
      rintro lease hlease _ hnew rfl
      obtain rfl := List.mem_singleton.mp hnew
      obtain ⟨-, tx, htx, hwith'⟩ := h.issued lease hlease
      change r'.channels.length ≤ 2 ^ 64 at hbound
      -- an older lease was drawn with an older channel, and so with another id
      have hsame : operationIdOf tx = operationIdOf w.registry.channels.length := by
        have hnew := hwith h.next
        cases lease with
        | attach lease =>
          rw [IssuedWith] at hwith' hnew
          exact congrArg AttachWaiter.operationId (hwith'.symm.trans hnew)
        | remove lease => exact hwith'.symm.trans hnew
      have heq := operationIdOf_inj (by omega) (by omega) hsame
      omega
  case succeeded =>
    intro lease hlease
    rcases List.mem_append.mp hlease with hold | hnew
    · obtain ⟨tx, outcome, hid, htold⟩ := h.succeeded lease hold
      exact ⟨tx, outcome, hid, hmoves.told_eq h.kept htold⟩
    · cases he with
      | settle lease' tx howns hsettles =>
        obtain rfl := List.mem_singleton.mp hnew
        obtain ⟨outcome, htold⟩ := hsettles.told
        have hpending : w.registry.channels[tx]? = some [] := h.kept.pending _ tx howns.held
        refine ⟨tx, outcome, ?_, ?_⟩
        · refine h.operations _ _ ⟨lease.operationId, tx⟩ howns.2.2 ?_
          cases lease <;> rfl
        · rw [htold, Promises.getElem?_tell, if_pos rfl, hpending]
          rfl
      | _ => cases hnew
  case once =>
    intro hbound
    have hold := h.once (hlen.trans hbound)
    have hsame : (w.succeeded ++ (none : Option MemberLease).toList).Nodup := by
      rwa [Option.toList_none, List.append_nil]
    cases he with
    | settle lease tx howns hsettles =>
      refine List.nodup_append.mpr ⟨hold, List.nodup_singleton lease, ?_⟩
      rintro lease' hlease _ hnew rfl
      obtain rfl := List.mem_singleton.mp hnew
      exact h.not_succeeded howns (hlen.trans hbound) hlease
    | _ => exact hsame

theorem numbered_of_reachable {sessionGeneration : String}
    (h : (machine sessionGeneration).Reachable w) : w.Numbered := by
  refine h.invariant ?_ fun w call hw _ => ?_
  · rintro _ rfl
    exact numbered_new sessionGeneration
  · have heffect := hw.effect (exec_effect w.registry call)
    have htaken : (taken call (w.registry.exec call).2).toList =
        if (w.registry.exec call).2 = .flag true then call.lease?.toList else [] := by
      rw [taken]
      split <;> rfl
    rwa [htaken] at heffect

/-- An agent whose channel is still held after a call has kept its entry. -/
theorem lookup_of_held {r r' : MemberRuntimeRegistry} (he : Effect r r' issued took)
    (hkept : r.promises.Kept) {a : String} {entry : MemberRuntimeEntry} {tx : ℕ}
    (hentry : r.entries.lookup a = some entry) (hpending : entry.pendingTx = some tx)
    (hheld : r'.promises.held a = some tx) :
    r'.entries.lookup a = some entry := by
  have hbefore : r.promises.held a = some tx := (held_of_lookup hentry).trans hpending
  have hinserted : ∀ b new, r'.entries = r.entries.insert b new → b ≠ a →
      r'.entries.lookup a = some entry := by
    intro b new hentries hne
    rw [hentries, AList.lookup_insert_ne (Ne.symm hne), hentry]
  have hfree : ∀ b, r.promises.held b = none → b ≠ a := by
    rintro b hb rfl
    rw [hbefore] at hb
    cases hb
  cases he with
  | same => exact hentry
  | seed b habsent => exact hinserted b _ rfl (hfree b (held_of_absent habsent))
  | attach b hb => exact hinserted b _ rfl (hfree b hb)
  | remove b hb => exact hinserted b _ rfl (hfree b hb)
  | replace b operationId tx' hattaching =>
    refine hinserted b _ rfl ?_
    rintro rfl
    -- the removal has a channel of its own
    have hlt : tx < r.channels.length := hkept.lt_length hbefore
    simp only [held_promises, sendReplace, startRemove, AList.lookup_insert, Option.bind_some,
      MemberRuntimeEntry.pendingTx, Option.some.injEq] at hheld
    omega
  | settle lease tx' howns hsettles =>
    by_cases ha : a = lease.agentId
    · rw [held_promises] at hheld
      obtain ⟨new, hnew, htx⟩ := Option.bind_eq_some_iff.mp hheld
      rw [ha] at hnew
      rw [(hsettles.ended new hnew).1] at htx
      cases htx
    · rw [hsettles.others a ha, hentry]
  | stop => cases hheld

theorem owns_of_canSucceed {lease : MemberLease} (h : w.CanSucceed lease) :
    ∃ tx, w.registry.Owns lease tx := by
  cases lease with
  | attach lease =>
    have howned : ∃ tx, w.registry.ownedAttach lease = some tx := by
      cases hnone : w.registry.ownedAttach lease with
      | some tx => exact ⟨tx, rfl⟩
      | none => simp [CanSucceed, commitReady, commitFailed, hnone] at h
    obtain ⟨tx, htx⟩ := howned
    exact ⟨tx, ownedAttach_eq_some.mp htx⟩
  | remove lease =>
    have howned : ∃ tx, w.registry.ownedRemoval lease = some tx := by
      cases hnone : w.registry.ownedRemoval lease with
      | some tx => exact ⟨tx, rfl⟩
      | none =>
        simp [CanSucceed, finishRemove, restoreAttachRequiredAfterRemovePersistError, hnone] at h
    obtain ⟨tx, htx⟩ := howned
    exact ⟨tx, ownedRemoval_eq_some.mp htx⟩

/-- Before the ids wrap around one lease of an agent can succeed at most. -/
theorem Numbered.owner_unique (h : w.Numbered) (hbound : w.registry.channels.length ≤ 2 ^ 64)
    {l l' : MemberLease} (hl : l ∈ w.issued) (hl' : l' ∈ w.issued) (hagent : l.agentId = l'.agentId)
    (hcan : w.CanSucceed l) (hcan' : w.CanSucceed l') : l = l' := by
  obtain ⟨tx, hgen, -, hentry⟩ := owns_of_canSucceed hcan
  obtain ⟨tx', hgen', -, hentry'⟩ := owns_of_canSucceed hcan'
  rw [hagent, hentry', Option.some.injEq] at hentry
  obtain ⟨-, k, hk, hwith⟩ := h.issued l hl
  obtain ⟨-, k', hk', hwith'⟩ := h.issued l' hl'
  cases l with
  | attach l =>
    cases l' with
    | remove l' => cases hentry
    | attach l' =>
      have hid : l'.operationId = l.operationId := (MemberRuntimeEntry.attaching.inj hentry).1
      rw [IssuedWith] at hwith hwith'
      have hsame : operationIdOf k' = operationIdOf k := by
        rw [AttachLease.operationId, AttachLease.operationId, hwith, hwith'] at hid
        exact hid
      obtain rfl := operationIdOf_inj (by omega) (by omega) hsame
      obtain ⟨gen, agent, waiter⟩ := l
      obtain ⟨gen', agent', waiter'⟩ := l'
      simp_all [MemberLease.agentId, MemberLease.sessionGeneration]
  | remove l =>
    cases l' with
    | attach l' => cases hentry
    | remove l' =>
      have hid : l'.operationId = l.operationId := (MemberRuntimeEntry.removing.inj hentry).1
      obtain ⟨gen, agent, operationId⟩ := l
      obtain ⟨gen', agent', operationId'⟩ := l'
      simp_all [MemberLease.agentId, MemberLease.sessionGeneration]

/-- Whatever calls are made with whatever leases: a call that returns false changes nothing; a
channel is told one outcome at most, which stays; an entry that is attaching or removing gives
way only after its channel has been told; and up to `2 ^ 64` operations one lease of an agent
can succeed at most. -/
theorem member_runtime_ownership {sessionGeneration : String}
    (h : (machine sessionGeneration).Reachable w) :
    (∀ call, (w.registry.exec call).2 = .flag false → (w.registry.exec call).1 = w.registry) ∧
    (∀ (tx : ℕ) (sent : List AttachOutcome), w.registry.channels[tx]? = some sent →
      sent.length ≤ 1) ∧
    (∀ w', (machine sessionGeneration).Reaches w w' → ∀ (tx : ℕ) (outcome : AttachOutcome),
      w.registry.channels[tx]? = some [outcome] → w'.registry.channels[tx]? = some [outcome]) ∧
    (∀ call a entry tx, w.registry.entries.lookup a = some entry → entry.pendingTx = some tx →
      (w.fire call).registry.entries.lookup a = some entry ∨
        ∃ outcome, (w.fire call).registry.channels[tx]? = some [outcome]) ∧
    (∀ tx : ℕ, w.registry.channels[tx]? = some [] →
      ∃ a entry, w.registry.entries.lookup a = some entry ∧ entry.pendingTx = some tx) ∧
    (w.registry.channels.length ≤ 2 ^ 64 → w.issued.Nodup ∧ w.succeeded.Nodup ∧
      ∀ l ∈ w.issued, ∀ l' ∈ w.issued, l.agentId = l'.agentId → w.CanSucceed l →
        w.CanSucceed l' → l = l') := by
  have hw := numbered_of_reachable h
  refine ⟨exec_false w.registry, hw.kept.once, fun w' hr tx outcome htold => ?_,
    fun call a entry tx hentry hpending => ?_, fun tx htx => ?_, fun hbound => ?_⟩
  · refine hr.preserves_of_reachable (P := fun w => w.registry.channels[tx]? = some [outcome])
      (fun v call hv htold _ => ?_) h htold
    have hkept := (numbered_of_reachable hv).kept
    exact ((exec_effect v.registry call).moves hkept).told_eq hkept htold
  · have heffect := exec_effect w.registry call
    have hheld : w.registry.promises.held a = some tx := (held_of_lookup hentry).trans hpending
    rcases (heffect.moves hw.kept).told_of_released hw.kept hheld with hstill | htold
    · exact .inl (lookup_of_held heffect hw.kept hentry hpending hstill)
    · exact .inr htold
  · obtain ⟨a, ha⟩ := hw.kept.watched tx htx
    obtain ⟨entry, hentry, hpending⟩ := Option.bind_eq_some_iff.mp ha
    exact ⟨a, entry, hentry, hpending⟩
  · exact ⟨hw.distinct hbound, hw.once hbound,
      fun l hl l' hl' => hw.owner_unique hbound hl hl'⟩

/-- A runtime is attached, removed while it is being attached again, and restored. -/
def attachSample : List RuntimeCall :=
  [.reserveAttach "a" false, .commitReady ⟨"session", "a", ⟨1, 0⟩⟩, .reserveRepair "a",
    .beginRemove "a", .restoreAttachRequired ⟨"session", "a", 3⟩ ⟨"persist", "reason"⟩]

/-- Instance: no lease of this run succeeded twice. -/
theorem member_runtime_ownership_sample :
    ((machine "session").run ⟨.new "session", [], []⟩ attachSample).succeeded.Nodup :=
  have hreachable : (machine "session").Reachable
      ((machine "session").run ⟨.new "session", [], []⟩ attachSample) :=
    Machine.reachable_run rfl (by decide)
  ((member_runtime_ownership hreachable).2.2.2.2.2 (by decide)).2.1

/-- A ready runtime is repaired in two calls, which draw one operation id. -/
theorem reaches_repaired (sessionGeneration : String) {a : String}
    (hready : w.registry.entries.lookup a = some .ready) (hstopped : w.registry.stopped = false) :
    ∃ w', (machine sessionGeneration).Reaches w w' ∧
      w'.registry.entries.lookup a = some .ready ∧ w'.registry.stopped = false ∧
      w'.registry.nextOperationId = wrappingSucc w.registry.nextOperationId ∧
      w.issued ⊆ w'.issued ∧ w.succeeded ⊆ w'.succeeded := by
  let lease : AttachLease :=
    ⟨w.registry.sessionGeneration, a, ⟨w.registry.nextOperationId, w.registry.channels.length⟩⟩
  let begun := (w.registry.startAttach a).1
  have hrepair : w.fire (.reserveRepair a) =
      ⟨begun, w.issued ++ [.attach lease], w.succeeded ++ []⟩ := by
    simp [fire, exec, reserveRepair, hstopped, hready, startAttach, lease, begun,
      RuntimeReply.issued]
  have howned : begun.ownedAttach lease = some w.registry.channels.length :=
    ownedAttach_eq_some.mpr ⟨rfl, hstopped, AList.lookup_insert _⟩
  have hissued : .attach lease ∈ (w.fire (.reserveRepair a)).issued := by
    rw [hrepair]
    exact List.mem_append_right _ (List.mem_singleton_self _)
  refine ⟨(w.fire (.reserveRepair a)).fire (.commitReady lease), ?_, ?_⟩
  · refine .tail (.single ⟨.reserveRepair a, nofun, rfl⟩) ⟨.commitReady lease, ?_, rfl⟩
    rintro _ ⟨⟩
    exact .inl hissued
  · rw [hrepair]
    simp only [fire, exec, commitReady, howned]
    exact ⟨AList.lookup_insert _, hstopped, rfl,
      fun l hl => List.mem_append_left _ (List.mem_append_left _ hl),
      fun l hl => List.mem_append_left _ (List.mem_append_left _ hl)⟩

/-- After the first attach and any number of repairs. -/
theorem exists_repaired (k : ℕ) : ∃ w : RuntimeHistory, (machine "session").Reachable w ∧
    w.registry.entries.lookup "a" = some .ready ∧ w.registry.stopped = false ∧
    w.registry.nextOperationId = (2 + k) % 2 ^ 64 ∧
    .attach ⟨"session", "a", ⟨1, 0⟩⟩ ∈ w.issued ∧
    .attach ⟨"session", "a", ⟨1, 0⟩⟩ ∈ w.succeeded := by
  induction k with
  | zero =>
    refine ⟨(machine "session").run ⟨.new "session", [], []⟩ (attachSample.take 2),
      Machine.reachable_run rfl (by decide), ?_⟩
    decide
  | succ k ih =>
    obtain ⟨w, hw, hready, hstopped, hnext, hissued, hsucceeded⟩ := ih
    obtain ⟨w', hr, hready', hstopped', hnext', hmore, hmore'⟩ :=
      reaches_repaired "session" hready hstopped
    refine ⟨w', hw.trans hr, hready', hstopped', ?_, hmore hissued, hmore' hsucceeded⟩
    rw [hnext', hnext, wrappingSucc, Nat.mod_add_mod, Nat.add_assoc]

/-- After `2 ^ 64` operations the first operation id is drawn again, and the lease of the
first attach, which has succeeded, succeeds once more. -/
theorem first_lease_succeeds_again :
    ∃ w, (machine "session").Reachable w ∧ ¬w.succeeded.Nodup := by
  obtain ⟨w, hw, hready, hstopped, hnext, hissued, hsucceeded⟩ := exists_repaired (2 ^ 64 - 1)
  have hgen : w.registry.sessionGeneration = "session" :=
    ((numbered_of_reachable hw).issued _ hissued).1.symm
  let lease : AttachLease := ⟨"session", "a", ⟨1, 0⟩⟩
  let begun := (w.registry.startAttach "a").1
  have hrepair : (w.fire (.reserveRepair "a")).registry = begun := by
    simp [fire, exec, reserveRepair, hstopped, hready, begun]
  have howned : begun.ownedAttach lease = some w.registry.channels.length := by
    refine ownedAttach_eq_some.mpr ⟨hgen.symm, hstopped, ?_⟩
    change AList.lookup "a" (AList.insert "a" _ _) = _
    have hfirst : (2 + (2 ^ 64 - 1)) % 2 ^ 64 = lease.operationId := by
      change (2 + (2 ^ 64 - 1)) % 2 ^ 64 = 1
      omega
    rw [AList.lookup_insert, hnext, hfirst]
  have hissued' : .attach lease ∈ (w.fire (.reserveRepair "a")).issued :=
    List.mem_append_left _ hissued
  have hsucceeded' : .attach lease ∈ (w.fire (.reserveRepair "a")).succeeded :=
    List.mem_append_left _ hsucceeded
  have hrepaired : (machine "session").Reachable (w.fire (.reserveRepair "a")) :=
    hw.fire (i := .reserveRepair "a") nofun
  refine ⟨(w.fire (.reserveRepair "a")).fire (.commitReady lease), hrepaired.fire ?_, ?_⟩
  · rintro _ ⟨⟩
    exact .inl hissued'
  · have hagain : ((w.fire (.reserveRepair "a")).fire (.commitReady lease)).succeeded =
        (w.fire (.reserveRepair "a")).succeeded ++ [.attach lease] := by
      rw [fire, hrepair]
      simp [exec, commitReady, howned, RuntimeCall.lease?]
    rw [hagain]
    exact fun hnodup => (List.nodup_append.mp hnodup).2.2 _ hsucceeded' _
      (List.mem_singleton_self _) rfl

end RuntimeHistory

end AionCore.Team
