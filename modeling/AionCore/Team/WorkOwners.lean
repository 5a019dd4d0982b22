import AionCore.Team.WorkReconcile

/-!
# One owner per message

A live intent that carries a mailbox message owns it in its slot. `reconcile_mailbox` looks
for an owner before it creates an intent, `commit_enqueue` does not: a message whose commit
comes after its recovery has two owners.
-/

namespace AionCore.Team

/-- The intent is live work of the slot for the message. -/
def WorkIntent.Owns (x : WorkIntent) (slotId messageId : String) : Prop :=
  x.slotId = slotId ∧ x.mailboxMessageId = some messageId ∧ x.state.isTerminal = false

namespace CoordinatorState

/-- A slot has at most one live intent for a message. -/
def OneOwner (s : CoordinatorState) : Prop :=
  ∀ slotId m i j x y, s.intents.lookup i = some x → s.intents.lookup j = some y →
    x.Owns slotId m → y.Owns slotId m → i = j

/-- Every owner of `s'` is one of `s`. -/
def OwnersIn (s' s : CoordinatorState) : Prop :=
  ∀ slotId m i y, s'.intents.lookup i = some y → y.Owns slotId m →
    ∃ x, s.intents.lookup i = some x ∧ x.Owns slotId m

variable {s s' : CoordinatorState}

theorem OneOwner.of_ownersIn (hs : s.OneOwner) (h : s'.OwnersIn s) : s'.OneOwner := by
  intro slotId m i j x y hx hy hxm hym
  obtain ⟨x', hx', hxm'⟩ := h slotId m i x hx hxm
  obtain ⟨y', hy', hym'⟩ := h slotId m j y hy hym
  exact hs slotId m i j x' y' hx' hy' hxm' hym'

theorem ownersIn_setIntentStates (s : CoordinatorState) (ids : List String)
    {state : WorkIntentState} (hstate : state.isTerminal) :
    (s.setIntentStates ids state).OwnersIn s := by
  intro slotId m i y hy howns
  rw [lookup_setIntentStates] at hy
  split at hy
  · obtain ⟨x, -, rfl⟩ := Option.map_eq_some_iff.mp hy
    have hlive : state.isTerminal = false := howns.2.2
    rw [hstate] at hlive
    cases hlive
  · exact ⟨y, hy, howns⟩

end CoordinatorState

namespace SlotWorkCoordinator

open CoordinatorState

variable {c : SlotWorkCoordinator} {s : CoordinatorState} {w : Tracked}

theorem alreadyOwned_iff {slotId m : String} : alreadyOwned s slotId m ↔
    ∃ i x, s.intents.lookup i = some x ∧ x.Owns slotId m := by
  simp only [alreadyOwned, List.any_eq_true, Dict.mem_values, decide_eq_true_eq]
  constructor
  · rintro ⟨x, ⟨i, hx⟩, hslot, hm, hlive⟩
    exact ⟨i, x, hx, hslot, hm, by simpa using hlive⟩
  · rintro ⟨i, x, hx, hslot, hm, hlive⟩
    exact ⟨x, ⟨i, hx⟩, hslot, hm, by simpa using hlive⟩

/-- A new live intent leaves one owner per message exactly if its message had none. -/
theorem oneOwner_insert_iff (hs : s.OneOwner) {s' : CoordinatorState} {x : WorkIntent}
    (habsent : s.intents.lookup x.intentId = none) (hlive : x.state.isTerminal = false)
    (hs' : s'.intents = s.intents.insert x.intentId x) :
    s'.OneOwner ↔ ∀ m, x.mailboxMessageId = some m → alreadyOwned s x.slotId m = false := by
  have hlookup : ∀ i, s'.intents.lookup i =
      if i = x.intentId then some x else s.intents.lookup i := by
    intro i
    rw [hs', Dict.lookup_insert']
  have hne : ∀ {i y}, s.intents.lookup i = some y → i ≠ x.intentId := by
    rintro i y hy rfl
    rw [habsent] at hy
    cases hy
  constructor
  · intro hone m hm
    rw [Bool.eq_false_iff, Ne, alreadyOwned_iff]
    rintro ⟨i, y, hy, howns⟩
    have hi : s'.intents.lookup i = some y := by rw [hlookup, if_neg (hne hy), hy]
    have hx : s'.intents.lookup x.intentId = some x := by rw [hlookup, if_pos rfl]
    exact hne hy (hone _ m i _ y x hi hx howns ⟨rfl, hm, hlive⟩)
  · intro hfree slotId m i j y z hy hz hym hzm
    -- an owner other than the new intent is one of `s`, and there `x` finds none
    have hold : ∀ {i y}, s.intents.lookup i = some y → y.Owns slotId m →
        ¬x.Owns slotId m := by
      rintro i y hy hym ⟨rfl, hm, -⟩
      have hown : alreadyOwned s x.slotId m := alreadyOwned_iff.mpr ⟨i, y, hy, hym⟩
      rw [hfree m hm] at hown
      cases hown
    rw [hlookup] at hy hz
    split at hy <;> split at hz
    · rename_i hi hj
      rw [hi, hj]
    · obtain rfl := Option.some.inj hy
      exact absurd hym (hold hz hzm)
    · obtain rfl := Option.some.inj hz
      exact absurd hzm (hold hy hym)
    · exact hs slotId m i j y z hy hz hym hzm

variable {log : List String} {acc : CoordinatorState × List String}

/-- The recovery loop looks for an owner before it creates one. -/
theorem recoverMessage_oneOwner (h : c.Logged acc.1 log) (hone : acc.1.OneOwner) (slotId : String)
    (role : TeamRunTargetRole) (now : TimestampMs) (m : String) :
    (c.recoverMessage slotId role now acc m).1.OneOwner := by
  simp only [recoverMessage]
  split
  · exact hone
  · rename_i hfree
    refine (oneOwner_insert_iff (x := c.recoveryIntent acc.1 slotId m role now) hone h.absent rfl
      rfl).mpr ?_
    intro m' hm'
    obtain rfl : m = m' := Option.some.inj hm'
    exact Bool.eq_false_iff.mpr hfree

theorem foldl_recoverMessage_oneOwner (h : c.Logged acc.1 log) (hone : acc.1.OneOwner)
    (slotId : String) (role : TeamRunTargetRole) (now : TimestampMs) (messageIds : List String) :
    (messageIds.foldl (c.recoverMessage slotId role now) acc).1.OneOwner := by
  induction messageIds generalizing acc log with
  | nil => exact hone
  | cons m messageIds ih =>
    obtain ⟨new, -, hext, -⟩ := c.recoverMessage_extends slotId role now acc m
    exact ih (h.extends hext) (recoverMessage_oneOwner h hone slotId role now m)

theorem reconcileMailbox_oneOwner (h : c.Logged s log) (hone : s.OneOwner) (slotId : String)
    (unread : List String) (role : TeamRunTargetRole) (now : TimestampMs) :
    (c.reconcileMailbox s slotId unread role now).state.OneOwner := by
  simp only [reconcileMailbox]
  refine foldl_recoverMessage_oneOwner
    (h.retains (reconcileMailbox_retains s slotId unread role _)) ?_ slotId role now unread
  exact hone.of_ownersIn (ownersIn_setIntentStates _ _ rfl)

variable (c) in
/-- The call commits no message that its slot already owns. -/
def SparesOwned (w : Tracked) (call : Call) : Prop :=
  ∀ lease m now slot, call.op = .commitEnqueue lease (some m) now →
    c.checkCommit w.state lease (some m) = .ok slot →
    alreadyOwned w.state lease.slotId m = false

theorem commitEnqueue_oneOwner_iff (h : c.Logged s log) (hone : s.OneOwner) (lease : EnqueueLease)
    (messageId : Option String) (now : TimestampMs) :
    (c.commitEnqueue s lease messageId now).state.OneOwner ↔
      ∀ m slot, messageId = some m → c.checkCommit s lease messageId = .ok slot →
        alreadyOwned s lease.slotId m = false := by
  rw [commitEnqueue]
  cases hcheck : c.checkCommit s lease messageId with
  | error e => exact iff_of_true hone fun m slot _ hok => by cases hok
  | ok slot =>
    refine (oneOwner_insert_iff (x := c.committedIntent s lease messageId now) hone h.absent rfl
      rfl).trans ?_
    constructor
    · intro hfree m _ hm _
      exact hfree m hm
    · intro hfree m hm
      exact hfree m slot hm rfl

/-- A call that is no reconciliation leaves one owner per message exactly if it commits no
message that is owned already. -/
theorem fire_oneOwner_iff (h : c.Sound w) (hone : w.state.OneOwner) {call : Call}
    (hcall : c.machine.admits w call) :
    (c.fire w call).state.OneOwner ↔ c.SparesOwned w call := by
  by_cases hcommit : ∃ lease m now, call.op = .commitEnqueue lease m now
  · obtain ⟨lease, messageId, now, hop⟩ := hcommit
    rw [fire, hop]
    refine (commitEnqueue_oneOwner_iff h.logged hone lease messageId now).trans ?_
    simp only [SparesOwned, hop, Op.commitEnqueue.injEq]
    constructor
    · rintro hfree _ m _ slot ⟨rfl, rfl, rfl⟩ hok
      exact hfree m slot rfl hok
    · rintro hfree m slot rfl hok
      exact hfree lease m now slot ⟨rfl, rfl, rfl⟩ hok
  · have hspares : c.SparesOwned w call := fun lease m now slot hop _ =>
      absurd ⟨lease, some m, now, hop⟩ hcommit
    refine iff_of_true ?_ hspares
    by_cases hreconcile : ∃ t unread role now, call.op = .reconcileMailbox t unread role now
    · obtain ⟨t, unread, role, now, hop⟩ := hreconcile
      rw [fire, hop]
      exact reconcileMailbox_oneOwner h.logged hone t unread role now
    · -- no other call creates an intent or takes one back from its end
      refine hone.of_ownersIn fun slotId m i y hy hym => ?_
      cases hx : w.state.intents.lookup i with
      | none =>
        rcases created_cases hx hy with ⟨lease, m', now, -, hop, -⟩ | ⟨t, unread, role, now, hop, -⟩
        · exact absurd ⟨lease, m', now, hop⟩ hcommit
        · exact absurd ⟨t, unread, role, now, hop⟩ hreconcile
      | some x =>
        obtain ⟨state, hx', hend⟩ := h.persists hcall hx
        obtain rfl : { x with state } = y := Option.some.inj (hx'.symm.trans hy)
        refine ⟨x, rfl, hym.1, hym.2.1, ?_⟩
        by_contra hterminal
        rw [Bool.not_eq_false] at hterminal
        have hlive : state.isTerminal = false := hym.2.2
        rw [hend hterminal, hterminal] at hlive
        cases hlive

/-- In every run whose commits spare the messages that their slots already own, a slot has
at most one live intent for a message. The condition is exact: any other call leaves some
slot with two. -/
theorem one_owner_per_message (h : (c.machine.restrict c.SparesOwned).Reachable w) :
    w.state.OneOwner ∧ ∀ call, c.machine.admits w call →
      ((c.fire w call).state.OneOwner ↔ c.SparesOwned w call) := by
  refine h.exact ?_ fun w call hr hone hcall =>
    fire_oneOwner_iff (sound_of_reachable hr) hone hcall
  rintro _ rfl slotId m i j x y hx
  cases hx

/-- Instance: a message is committed and then reconciled. -/
theorem one_owner_per_message_sample :
    let w := sample.machine.run .empty
      (enqueueSample none ++ [bound none (.reconcileMailbox "lead" ["m"] .lead 0)])
    w.state.OneOwner ∧ ∀ call, sample.machine.admits w call →
      ((sample.fire w call).state.OneOwner ↔ sample.SparesOwned w call) := by
  refine one_owner_per_message (c := sample) (Machine.reachable_run
    (M := sample.machine.restrict sample.SparesOwned) rfl
    ⟨⟨by decide, ?_⟩, ⟨by decide, ?_⟩, ⟨by decide, ?_⟩, ⟨by decide, ?_⟩, trivial⟩)
  · rintro lease m now slot ⟨⟩
  · rintro lease m now slot ⟨⟩
  · rintro lease m now slot ⟨⟩ -
    decide
  · rintro lease m now slot ⟨⟩

/-- The message `m` is written between the lease and its commit, and the slot reconciles its
mailbox in between: the recovered intent and the committed one both own it. -/
theorem late_commit_makes_second_owner :
    let w := sample.machine.run .empty [bound none (.setRuntimeConstraint "lead" .ready .stored),
      bound none (.acquireEnqueue sampleRequest),
      bound none (.reconcileMailbox "lead" ["m"] .lead 0),
      bound none (.commitEnqueue (sampleLease "x" none) (some "m") 0)]
    sample.machine.Reachable w ∧ ¬w.state.OneOwner := by
  refine ⟨Machine.reachable_run rfl (by decide), fun hone => ?_⟩
  have hrecovered := hone "lead" "m" "xx" "xxx"
    ⟨"xx", "session", "lead", .lead, .recoveryDrain, .background, some "m", none, 0, .queued⟩
    (sampleIntent "xxx" "m" none .queued) (by decide) (by decide) ⟨rfl, rfl, rfl⟩ ⟨rfl, rfl, rfl⟩
  revert hrecovered
  decide

end SlotWorkCoordinator

end AionCore.Team
