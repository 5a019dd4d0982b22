import AionCore.Agent.AcpSettings

/-!
# ACP sessions: the loop that reconciles

`reconcile_session` as a run of its own: the actions that are planned, one call to the CLI for each,
and a new plan whenever a config option was acknowledged. The CLI answers whatever it likes but that
the session is unknown.
-/

namespace AionCore.Agent

def AcpSession.observedOf (s : AcpSession) : ReconcileAction → Option String
  | .setMode _ => s.observed.mode
  | .setModel _ => s.observed.model
  | .setConfigOption key _ => s.configCurrent.lookup key

def ReconcileAction.withValue (value : String) : ReconcileAction → ReconcileAction
  | .setMode _ => .setMode value
  | .setModel _ => .setModel value
  | .setConfigOption key _ => .setConfigOption key value

/-- A call to the CLI for an action: the value that is sent, and the aggregate then. -/
structure Attempt where
  action : ReconcileAction
  sent : String
  session : AcpSession

def Attempt.Covers (t : Attempt) (a : ReconcileAction) : Prop :=
  a = t.action ∨ a = t.action.withValue t.sent

/-- The action was executed before, and what is observed of it has been the same ever since. The
newest attempt is the first. -/
def Stale (a : ReconcileAction) (now : AcpSession) : List Attempt → Prop
  | [] => False
  | t :: older => t.session.observedOf a = now.observedOf a ∧ (t.action = a ∨ Stale a now older)

instance decidableStale (a : ReconcileAction) (now : AcpSession) :
    ∀ attempts, Decidable (Stale a now attempts)
  | [] => inferInstanceAs (Decidable False)
  | t :: older =>
    have := decidableStale a now older
    inferInstanceAs (Decidable (t.session.observedOf a = now.observedOf a ∧
      (t.action = a ∨ Stale a now older)))

theorem Stale.congr {a : ReconcileAction} {s s' : AcpSession} {attempts : List Attempt}
    (h : Stale a s attempts) (hobserved : s.observedOf a = s'.observedOf a) :
    Stale a s' attempts := by
  induction attempts with
  | nil => exact h
  | cons t older ih =>
    obtain ⟨hsame, hstale⟩ := h
    exact ⟨hsame.trans hobserved, hstale.imp_right ih⟩

/-- A reconciliation: the drifts that were listed when the loop started, and the calls made since,
the newest first. -/
structure ReconcileRun where
  world : SessionWorld
  listed : List ReconcileAction
  attempts : List Attempt
  turns : ℕ

/-- The loop takes the next action, or the CLI answers. -/
inductive ReconcileStep where
  | next
  | reply (reply : Except AcpError (List SessionConfigOption)) (order : IterOrder (String × String))

namespace ReconcileRun

def begin (w : SessionWorld) (order : IterOrder (String × String)) : ReconcileRun :=
  { world := w.planActions order, listed := w.prepared.planReconcile order, attempts := []
    turns := 0 }

variable (r : ReconcileRun)

def session : AcpSession := r.world.session

/-- The call that is made when the next action is taken. -/
def attempt : Option Attempt :=
  r.world.nextAction.opening.calledAction.map fun call => ⟨call.1, call.2, r.session⟩

def fire : ReconcileStep → ReconcileRun
  | .next =>
    { r with
      world := r.world.nextAction
      attempts := r.attempt.toList ++ r.attempts
      turns := r.turns + 1 }
  | .reply reply order =>
    { r with world := r.world.replyToAction reply order, turns := r.turns + 1 }

def admits : ReconcileStep → Prop
  | .next => r.world.opening.actionsLeft.isSome = true
  | .reply reply _ =>
    r.world.opening.calledAction.isSome = true ∧ reply ≠ .error .sessionNotFound

def machine : Machine ReconcileRun ReconcileStep where
  start r := ∃ w asked sid order, w.opening = .planning asked sid ∧ r = begin w order
  admits := admits
  fire := fire

def ended : Bool := r.world.opening.isReady

/-- The loop ends, with a bounded number of calls. -/
structure Ends : Prop where
  calls : r.attempts.length ≤ maxReconcileActions
  turns : r.turns ≤ 2 * maxReconcileActions + 1
  goesOn : r.ended = true ∨ ∃ step, r.admits step

/-- Reconciling ends, and neither repeats itself nor leaves out a drift. -/
structure Fair : Prop extends Ends r where
  unrepeated : ∀ newer t older, r.attempts = newer ++ t :: older →
    ¬Stale t.action t.session older
  attempted : r.ended = true → r.listed.dedup.length ≤ maxReconcileActions →
    ∀ a ∈ r.listed, ∀ order, a ∈ r.session.planReconcile order → ∃ t ∈ r.attempts, t.Covers a
  advertised : ∀ t ∈ r.attempts, ∀ x id, t.action = .ofSetting x id →
    t.session.isValid x t.sent = true

def nextMode : Option String :=
  match r.world.opening with
  | .reconciling _ _ (.setMode mode :: _) _ => some mode
  | _ => none

def acknowledged (reply : Except AcpError (List SessionConfigOption)) : Option ReconcileAction :=
  match r.world.opening.calledAction, reply with
  | some (.setConfigOption key value, _), .ok _ => some (.setConfigOption key value)
  | _, _ => none

def drifts (reply : Except AcpError (List SessionConfigOption))
    (order : IterOrder (String × String)) (executed : ReconcileAction) : List ReconcileAction :=
  ((r.fire (.reply reply order)).session.planReconcile order).filter (· ≠ executed)

/-- A mode is set in a form that is advertised. When a config option is acknowledged each drift that
is left was not attempted, or what is observed of it has changed since; and no more drifts are left
than there are calls. -/
def Careful : ReconcileStep → Prop
  | .next => ∀ mode ∈ r.nextMode, r.world.selectableMode mode ≠ "" ∧
      r.session.isValid .mode (r.world.selectableMode mode) = true
  | .reply reply order => ∀ executed ∈ r.acknowledged reply,
      (∀ a ∈ r.drifts reply order executed,
        ¬Stale a (r.fire (.reply reply order)).session r.attempts) ∧
      (r.listed.dedup.length ≤ maxReconcileActions →
        r.attempts.length + (r.drifts reply order executed).length ≤ maxReconcileActions)

section Steps

variable {r}

/-- What taking the next action comes to. -/
theorem next_cases (h : r.admits .next) :
    ∃ asked sid actions executed, r.world.opening = .reconciling asked sid actions executed ∧
      ((actions = [] ∨ maxReconcileActions ≤ executed) ∧
          r.fire .next =
            { r with world := { r.world with opening := .ready asked sid }, turns := r.turns + 1 } ∨
        ∃ action rest, actions = action :: rest ∧ executed < maxReconcileActions ∧
          ((∃ mode, action = .setMode mode ∧ r.world.selectableMode mode = "") ∧
              r.fire .next =
                { r with
                  world := { r.world with opening := .reconciling asked sid rest (executed + 1) }
                  turns := r.turns + 1 } ∨
            r.fire .next =
              { r with
                world := { r.world with
                  session := r.world.keepResolved action
                  opening := .calling asked sid action (r.world.resolvedValue action) rest
                    (executed + 1) }
                attempts := ⟨action, r.world.resolvedValue action, r.session⟩ :: r.attempts
                turns := r.turns + 1 })) := by
  cases ho : r.world.opening with
  | reconciling asked sid actions executed =>
    refine ⟨asked, sid, actions, executed, rfl, ?_⟩
    cases actions with
    | nil =>
      refine .inl ⟨.inl rfl, ?_⟩
      simp [fire, attempt, SessionWorld.nextAction, ho, Opening.calledAction]
    | cons action rest =>
      by_cases hlimit : maxReconcileActions < executed + 1
      · refine .inl ⟨.inr (by omega), ?_⟩
        simp [fire, attempt, SessionWorld.nextAction, ho, hlimit, Opening.calledAction]
      · refine .inr ⟨action, rest, rfl, by omega, ?_⟩
        by_cases hblank : action.setsMode ∧ r.world.resolvedValue action = ""
        · refine .inl ⟨?_, ?_⟩
          · cases action with
            | setMode mode => exact ⟨mode, rfl, hblank.2⟩
            | setModel model => cases hblank.1
            | setConfigOption key value => cases hblank.1
          · simp [fire, attempt, SessionWorld.nextAction, ho, hlimit, hblank, Opening.calledAction]
        · refine .inr ?_
          simp [fire, attempt, SessionWorld.nextAction, ho, hlimit, hblank, Opening.calledAction]
  | _ => simp [admits, ho, Opening.actionsLeft] at h

/-- What an answer of the CLI comes to. -/
theorem reply_cases {reply : Except AcpError (List SessionConfigOption)}
    {order : IterOrder (String × String)} (h : r.admits (.reply reply order)) :
    ∃ asked sid action value rest executed,
      r.world.opening = .calling asked sid action value rest executed ∧
      (r.fire (.reply reply order) =
          { r with
            world := { r.world with opening := .reconciling asked sid rest executed }
            turns := r.turns + 1 } ∨
        r.acknowledged reply = some action ∧ ∃ options,
          r.fire (.reply reply order) =
            { r with
              world := r.world.planFollowup asked sid action executed options order
              turns := r.turns + 1 }) := by
  obtain ⟨hcalled, hreply⟩ := h
  cases ho : r.world.opening with
  | calling asked sid action value rest executed =>
    refine ⟨asked, sid, action, value, rest, executed, rfl, ?_⟩
    cases reply with
    | error err =>
      have herr : isAcpSessionNotFound err = false :=
        decide_eq_false fun heq => hreply (congrArg _ heq)
      refine .inl ?_
      simp [fire, SessionWorld.replyToAction, ho, herr]
    | ok options =>
      cases action with
      | setMode mode | setModel model => exact .inl (by simp [fire, SessionWorld.replyToAction, ho])
      | setConfigOption key wished =>
        refine .inr ⟨?_, options, ?_⟩
        · simp [acknowledged, ho, Opening.calledAction]
        · simp [fire, SessionWorld.replyToAction, ho]
  | _ => simp [ho, Opening.calledAction] at hcalled

end Steps

section Ending

def Counted : Opening → Prop
  | .reconciling _ _ _ executed => r.attempts.length ≤ executed ∧
      executed ≤ maxReconcileActions ∧ r.turns ≤ 2 * executed
  | .calling _ _ _ _ _ executed => r.attempts.length ≤ executed ∧
      executed ≤ maxReconcileActions ∧ r.turns + 1 ≤ 2 * executed
  | .ready _ _ => r.attempts.length ≤ maxReconcileActions ∧
      r.turns ≤ 2 * maxReconcileActions + 1
  | _ => False

variable {r}

theorem counted_next (h : r.Counted r.world.opening) (ha : r.admits .next) :
    (r.fire .next).Counted (r.fire .next).world.opening := by
  obtain ⟨asked, sid, actions, executed, ho, hnext⟩ := next_cases ha
  rw [ho] at h
  obtain ⟨hcalls, hlimit, hturns⟩ := h
  obtain ⟨-, heq⟩ | ⟨action, rest, -, hless, ⟨-, heq⟩ | heq⟩ := hnext
  · rw [heq]
    exact ⟨hcalls.trans hlimit, by dsimp only; omega⟩
  · rw [heq]
    exact ⟨hcalls.trans (Nat.le_succ _), hless, by dsimp only; omega⟩
  · rw [heq]
    exact ⟨Nat.succ_le_succ hcalls, hless, by dsimp only; omega⟩

theorem counted_reply {reply : Except AcpError (List SessionConfigOption)}
    {order : IterOrder (String × String)} (h : r.Counted r.world.opening)
    (ha : r.admits (.reply reply order)) :
    (r.fire (.reply reply order)).Counted (r.fire (.reply reply order)).world.opening := by
  obtain ⟨asked, sid, action, value, rest, executed, ho, heq | ⟨-, options, heq⟩⟩ := reply_cases ha
  · rw [ho] at h
    rw [heq]
    exact h
  · rw [ho] at h
    rw [heq]
    exact h

theorem reachable_counted (h : machine.Reachable r) : r.Counted r.world.opening := by
  refine h.invariant (P := fun r => r.Counted r.world.opening) ?_ ?_
  · rintro _ ⟨w, asked, sid, order, ho, rfl⟩
    simp [begin, SessionWorld.planActions, ho, Counted]
  · intro s step hs ha
    cases step with
    | next => exact counted_next hs ha
    | reply reply order => exact counted_reply hs ha

/-- Whatever the CLI answers the loop ends. -/
theorem ends_of_reachable (h : machine.Reachable r) : r.Ends := by
  have hcounted := reachable_counted h
  cases ho : r.world.opening with
  | reconciling asked sid actions executed =>
    rw [ho] at hcounted
    obtain ⟨hcalls, hlimit, hturns⟩ := hcounted
    refine ⟨hcalls.trans hlimit, by omega, .inr ⟨.next, ?_⟩⟩
    simp [admits, ho, Opening.actionsLeft]
  | calling asked sid action value rest executed =>
    rw [ho] at hcounted
    obtain ⟨hcalls, hlimit, hturns⟩ := hcounted
    refine ⟨hcalls.trans hlimit, by omega, .inr ⟨.reply (.ok []) .stored, ?_⟩⟩
    simp [admits, ho, Opening.calledAction]
  | ready asked sid =>
    rw [ho] at hcounted
    refine ⟨hcounted.1, hcounted.2, .inl ?_⟩
    simp [ended, ho, Opening.isReady]
  | _ => simp [ho, Counted] at hcounted

end Ending

end ReconcileRun

section Plans

namespace AcpSession

variable {s : AcpSession} {order order' : IterOrder (String × String)} {action : ReconcileAction}

theorem mem_planReconcile_comm :
    action ∈ s.planReconcile order ↔ action ∈ s.planReconcile order' := by
  rw [mem_planReconcile, mem_planReconcile]

theorem nodup_planSetting (x : Setting) : (s.planSetting x).Nodup := by
  unfold planSetting
  cases s.desired.get x with
  | none => exact List.nodup_nil
  | some id =>
    dsimp only
    split
    · exact List.nodup_nil
    · exact List.nodup_singleton _

/-- No action is planned twice. -/
theorem nodup_planReconcile (order : IterOrder (String × String)) :
    (s.planReconcile order).Nodup := by
  have settings : (s.planSetting .mode ++ s.planSetting .model).Nodup := by
    refine List.Nodup.append (nodup_planSetting .mode) (nodup_planSetting .model) ?_
    intro a hmode hmodel
    obtain ⟨id, rfl, -⟩ := mem_planSetting.mp hmode
    obtain ⟨id', heq, -⟩ := mem_planSetting.mp hmodel
    cases (ofSetting_inj heq).1
  have entries : (order.arrange (s.configSelections.entries.map fun e => (e.1, e.2))).Nodup := by
    refine (order.perm _).nodup_iff.mpr ?_
    refine List.Nodup.map ?_ s.configSelections.nodupKeys.nodup
    rintro ⟨key, value⟩ ⟨key', value'⟩ heq
    obtain ⟨rfl, rfl⟩ := Prod.mk.inj heq
    rfl
  refine List.Nodup.append settings (List.Nodup.filterMap ?_ entries) ?_
  · intro e e' a he he'
    obtain ⟨rfl, -⟩ := planConfig_eq_some.mp he
    obtain ⟨heq, -⟩ := planConfig_eq_some.mp he'
    obtain ⟨hkey, hvalue⟩ := ReconcileAction.setConfigOption.inj heq
    exact Prod.ext hkey hvalue
  · intro a hsetting hconfig
    obtain ⟨e, -, he⟩ := List.mem_filterMap.mp hconfig
    obtain ⟨rfl, -⟩ := planConfig_eq_some.mp he
    obtain hmem | hmem := List.mem_append.mp hsetting
    · obtain ⟨id, heq, -⟩ := mem_planSetting.mp hmem
      exact ofSetting_ne_setConfigOption heq.symm
    · obtain ⟨id, heq, -⟩ := mem_planSetting.mp hmem
      exact ofSetting_ne_setConfigOption heq.symm

end AcpSession

namespace SessionWorld

variable {w : SessionWorld} {order : IterOrder (String × String)} {action : ReconcileAction}

theorem valid_of_planned {x : Setting} {id : String}
    (h : .ofSetting x id ∈ w.prepared.planReconcile order) : w.prepared.isValid x id = true := by
  obtain ⟨y, id', heq, hdesired, -⟩ | ⟨key, value, heq, -⟩ := AcpSession.mem_planReconcile.mp h
  · obtain ⟨rfl, rfl⟩ := AcpSession.ofSetting_inj heq
    exact valid_prepared hdesired
  · exact absurd heq AcpSession.ofSetting_ne_setConfigOption

theorem keepResolved_eq (action : ReconcileAction) :
    w.keepResolved action = w.session ∨ ∃ key value, action = .setConfigOption key value ∧
      w.keepResolved action = w.session.setDesiredConfig key (w.resolvedValue action) := by
  cases action with
  | setMode mode => exact .inl rfl
  | setModel model => exact .inl rfl
  | setConfigOption key value =>
    unfold keepResolved
    dsimp only
    split
    · exact .inr ⟨key, value, rfl, rfl⟩
    · exact .inl rfl

theorem observedOf_keepResolved (a : ReconcileAction) :
    (w.keepResolved action).observedOf a = w.session.observedOf a := by
  obtain heq | ⟨key, value, -, heq⟩ := w.keepResolved_eq action <;> rw [heq]
  cases a <;> rfl

theorem isValid_keepResolved (x : Setting) (id : String) :
    (w.keepResolved action).isValid x id = w.session.isValid x id := by
  obtain heq | ⟨key, value, -, heq⟩ := w.keepResolved_eq action <;> rw [heq]
  rfl

/-- A drift that comes of keeping the normal form asks for what is sent. -/
theorem planned_of_keepResolved {a : ReconcileAction}
    (h : a ∈ (w.keepResolved action).planReconcile order) :
    a ∈ w.session.planReconcile order ∨ a = action.withValue (w.resolvedValue action) := by
  obtain heq | ⟨key, value, rfl, heq⟩ := w.keepResolved_eq action
  · exact .inl (heq ▸ h)
  · rw [heq] at h
    obtain hsetting | ⟨key', value', rfl, hselected, hcurrent⟩ := AcpSession.mem_planReconcile.mp h
    · exact .inl (AcpSession.mem_planReconcile.mpr (.inl hsetting))
    · obtain rfl | hkey := eq_or_ne key' key
      · have hvalue : some (w.resolvedValue (.setConfigOption key' value)) = some value' :=
          (AList.lookup_insert _).symm.trans hselected
        obtain rfl := Option.some.inj hvalue
        exact .inr rfl
      · have hsame : w.session.configSelections.lookup key' = some value' :=
          (AList.lookup_insert_ne hkey).symm.trans hselected
        exact .inl (AcpSession.mem_planReconcile.mpr (.inr ⟨key', value', rfl, hsame, hcurrent⟩))

end SessionWorld

end Plans

namespace ReconcileRun

variable (r : ReconcileRun)

/-- What is known of the actions that are left. -/
structure Queue (actions : List ReconcileAction) : Prop where
  nodup : actions.Nodup
  fresh : ∀ a ∈ actions, ¬Stale a r.session r.attempts
  valid : ∀ x id, .ofSetting x id ∈ actions → r.session.isValid x id = true
  fits : r.listed.dedup.length ≤ maxReconcileActions →
    r.attempts.length + actions.length ≤ maxReconcileActions
  left : ∀ order, ∀ a ∈ r.session.planReconcile order,
    a ∈ actions ∨ ∃ t ∈ r.attempts, t.Covers a

/-- What is known of the calls that were made. -/
structure Past (attempts : List Attempt) : Prop where
  unrepeated : ∀ newer t older, attempts = newer ++ t :: older →
    ¬Stale t.action t.session older
  advertised : ∀ t ∈ attempts, ∀ x id, t.action = .ofSetting x id →
    t.session.isValid x t.sent = true

def Phase : Opening → Prop
  | .reconciling _ _ actions executed => r.attempts.length = executed ∧ r.Queue actions
  | .calling _ _ action _ rest executed =>
    r.attempts.length = executed ∧ r.Queue rest ∧ ∃ t ∈ r.attempts, t.action = action
  | .ready _ _ => r.listed.dedup.length ≤ maxReconcileActions →
      ∀ order, ∀ a ∈ r.session.planReconcile order, ∃ t ∈ r.attempts, t.Covers a
  | _ => False

structure Inv : Prop where
  past : Past r.attempts
  phase : r.Phase r.world.opening

section Invariant

variable {r} {action : ReconcileAction} {rest : List ReconcileAction} {attempts : List Attempt}

theorem Past.attempt {t : Attempt} (h : Past attempts)
    (hfresh : ¬Stale t.action t.session attempts)
    (hvalid : ∀ x id, t.action = .ofSetting x id → t.session.isValid x t.sent = true) :
    Past (t :: attempts) where
  unrepeated := by
    intro newer t' older heq
    obtain ⟨rfl, htail⟩ | ⟨newer', rfl, htail⟩ := List.cons_eq_append_iff.mp heq
    · obtain ⟨rfl, rfl⟩ := List.cons.inj htail
      exact hfresh
    · exact h.unrepeated newer' t' older htail
  advertised := by
    intro t' hmem
    obtain rfl | hmem := List.mem_cons.mp hmem
    · exact hvalid
    · exact h.advertised t' hmem

/-- The actions that are planned at first, or after a config option was set; those that are left out
were executed. -/
theorem queue_planned {w : SessionWorld} {order : IterOrder (String × String)}
    (hsession : r.session = w.prepared) (keep : ReconcileAction → Bool)
    (hkeep : ∀ a, keep a = false → ∃ t ∈ r.attempts, t.action = a)
    (hfresh : ∀ a ∈ (w.prepared.planReconcile order).filter keep,
      ¬Stale a r.session r.attempts)
    (hfits : r.listed.dedup.length ≤ maxReconcileActions → r.attempts.length +
      ((w.prepared.planReconcile order).filter keep).length ≤ maxReconcileActions) :
    r.Queue ((w.prepared.planReconcile order).filter keep) where
  nodup := (AcpSession.nodup_planReconcile order).filter _
  fresh := hfresh
  valid := by
    intro x id hmem
    rw [hsession]
    exact SessionWorld.valid_of_planned (List.mem_filter.mp hmem).1
  fits := hfits
  left := by
    intro order' a hplanned
    rw [hsession] at hplanned
    cases hkept : keep a with
    | true =>
      have hplanned : a ∈ w.prepared.planReconcile order :=
        AcpSession.mem_planReconcile_comm.mp hplanned
      exact .inl (List.mem_filter.mpr ⟨hplanned, hkept⟩)
    | false =>
      obtain ⟨t, hmem, rfl⟩ := hkeep a hkept
      exact .inr ⟨t, hmem, .inl rfl⟩

theorem inv_begin {w : SessionWorld} {asked : Option String} {sid : String}
    (order : IterOrder (String × String)) (ho : w.opening = .planning asked sid) :
    (begin w order).Inv := by
  have hworld : (begin w order).world = { w with
      session := w.prepared
      opening := .reconciling asked sid (w.prepared.planReconcile order) 0 } := by
    simp [begin, SessionWorld.planActions, ho]
  have hqueue : (begin w order).Queue ((w.prepared.planReconcile order).filter fun _ => true) := by
    refine queue_planned (w := w) (by rw [session, hworld]) _ ?_ (fun _ _ h => h) ?_
    · intro a h
      cases h
    · rw [List.filter_true, List.Nodup.dedup]
      · intro hfew
        exact (Nat.zero_add _).le.trans hfew
      · exact AcpSession.nodup_planReconcile order
  rw [List.filter_true] at hqueue
  refine ⟨⟨?_, ?_⟩, ?_⟩
  · intro newer t older heq
    exact absurd heq.symm (List.append_ne_nil_of_right_ne_nil _ (List.cons_ne_nil _ _))
  · intro t hmem
    cases hmem
  · rw [hworld]
    exact ⟨rfl, hqueue⟩

/-- What is left when an action is executed. -/
theorem Queue.attempt {r' : ReconcileRun} (h : r.Queue (action :: rest))
    (hsession : r'.session = r.world.keepResolved action)
    (hattempts : r'.attempts = ⟨action, r.world.resolvedValue action, r.session⟩ :: r.attempts)
    (hlisted : r'.listed = r.listed) : r'.Queue rest where
  nodup := h.nodup.of_cons
  fresh := by
    intro a hmem hstale
    rw [hsession, hattempts] at hstale
    -- what is observed is the same, and the action is another one
    obtain ⟨-, rfl | hstale⟩ := hstale
    · exact (List.nodup_cons.mp h.nodup).1 hmem
    · exact h.fresh a (List.mem_cons_of_mem _ hmem)
        (hstale.congr (SessionWorld.observedOf_keepResolved a))
  valid := by
    intro x id hmem
    rw [hsession, SessionWorld.isValid_keepResolved]
    exact h.valid x id (List.mem_cons_of_mem _ hmem)
  fits := by
    intro hfew
    have hfits := h.fits (hlisted ▸ hfew)
    rw [hattempts]
    rw [List.length_cons] at hfits ⊢
    omega
  left := by
    intro order a hplanned
    rw [hsession] at hplanned
    rw [hattempts]
    obtain hplanned | rfl := SessionWorld.planned_of_keepResolved hplanned
    · obtain hmem | ⟨t, hmem, hcovers⟩ := h.left order a hplanned
      · obtain rfl | hmem := List.mem_cons.mp hmem
        · exact .inr ⟨_, List.mem_cons_self, .inl rfl⟩
        · exact .inl hmem
      · exact .inr ⟨t, List.mem_cons_of_mem _ hmem, hcovers⟩
    · exact .inr ⟨_, List.mem_cons_self, .inr rfl⟩

theorem inv_next (h : r.Inv) (ha : r.admits .next) (hcareful : r.Careful .next) :
    (r.fire .next).Inv := by
  obtain ⟨asked, sid, actions, executed, ho, hnext⟩ := next_cases ha
  have hphase := h.phase
  rw [ho] at hphase
  obtain ⟨hcount, hqueue⟩ := hphase
  obtain ⟨hend, heq⟩ | ⟨action, rest, rfl, -, ⟨⟨mode, rfl, hblank⟩, -⟩ | heq⟩ := hnext
  · rw [heq]
    refine ⟨h.past, fun hfew order a hplanned => ?_⟩
    have hfits := hqueue.fits hfew
    have hnone : actions = [] := by
      obtain hnone | hlimit := hend
      · exact hnone
      · refine List.length_eq_zero_iff.mp ?_
        omega
    obtain hmem | hcovered := hqueue.left order a hplanned
    · rw [hnone] at hmem
      cases hmem
    · exact hcovered
  · exact absurd hblank (hcareful mode (by rw [nextMode, ho]; rfl)).1
  · rw [heq]
    refine ⟨h.past.attempt ?_ ?_, ?_⟩
    · exact hqueue.fresh action List.mem_cons_self
    · intro x id hsetting
      have hsetting : action = .ofSetting x id := hsetting
      subst hsetting
      cases x with
      | mode => exact (hcareful id (by rw [nextMode, ho]; rfl)).2
      | model => exact hqueue.valid .model id List.mem_cons_self
    · refine ⟨?_, hqueue.attempt rfl rfl rfl, ⟨_, List.mem_cons_self, rfl⟩⟩
      exact congrArg Nat.succ hcount

theorem inv_reply {reply : Except AcpError (List SessionConfigOption)}
    {order : IterOrder (String × String)} (h : r.Inv) (ha : r.admits (.reply reply order))
    (hcareful : r.Careful (.reply reply order)) : (r.fire (.reply reply order)).Inv := by
  obtain ⟨asked, sid, action, value, rest, executed, ho, hreply⟩ := reply_cases ha
  have hphase := h.phase
  rw [ho] at hphase
  obtain ⟨hcount, hqueue, hexecuted⟩ := hphase
  obtain heq | ⟨hack, options, heq⟩ := hreply
  · rw [heq]
    exact ⟨h.past, hcount, hqueue.nodup, hqueue.fresh, hqueue.valid, hqueue.fits, hqueue.left⟩
  · obtain ⟨hfresh, hfits⟩ := hcareful action hack
    unfold drifts at hfresh hfits
    rw [heq] at hfresh hfits ⊢
    refine ⟨h.past, hcount, ?_⟩
    refine queue_planned (w := { r.world with
      session := r.world.session.applyAdvertisedConfigOptions options }) rfl _ ?_ hfresh hfits
    intro a hskipped
    obtain rfl : a = action := not_not.mp (of_decide_eq_false hskipped)
    exact hexecuted

theorem reachable_inv (h : (machine.restrict Careful).Reachable r) : r.Inv := by
  refine h.invariant ?_ ?_
  · rintro _ ⟨w, asked, sid, order, ho, rfl⟩
    exact inv_begin order ho
  · rintro s step hs ⟨ha, hcareful⟩
    cases step with
    | next => exact inv_next hs ha hcareful
    | reply reply order => exact inv_reply hs ha hcareful

end Invariant

/-- Reconciling a CLI that takes what it acknowledges is fair. -/
theorem fair_of_careful {r : ReconcileRun} (h : (machine.restrict Careful).Reachable r) :
    r.Fair := by
  have hinv := reachable_inv h
  refine ⟨ends_of_reachable h.of_restrict, hinv.past.unrepeated, ?_, hinv.past.advertised⟩
  intro hended hfew a _ order hplanned
  cases ho : r.world.opening with
  | ready asked sid =>
    have hphase := hinv.phase
    rw [ho] at hphase
    exact hphase hfew order a hplanned
  | _ => simp [ended, ho, Opening.isReady] at hended

section Execution

instance (t : Attempt) (a : ReconcileAction) : Decidable (t.Covers a) :=
  inferInstanceAs (Decidable (a = t.action ∨ a = t.action.withValue t.sent))

instance decidableAdmits : ∀ (r : ReconcileRun) (step : ReconcileStep), Decidable (r.admits step)
  | r, .next => inferInstanceAs (Decidable (r.world.opening.actionsLeft.isSome = true))
  | r, .reply reply _ => inferInstanceAs (Decidable
      (r.world.opening.calledAction.isSome = true ∧ reply ≠ .error .sessionNotFound))

instance decidableMachineAdmits :
    ∀ (r : ReconcileRun) (step : ReconcileStep), Decidable (machine.admits r step) :=
  decidableAdmits

instance decidableCareful : ∀ (r : ReconcileRun) (step : ReconcileStep), Decidable (r.Careful step) := by
  intro r step
  cases step <;> dsimp only [Careful] <;> infer_instance

/-- A session in its default mode, with a mode that is desired and config options that are
selected. -/
def driftingWorld (mode : Option String) (selections : Dict String String) : SessionWorld :=
  { SessionWorld.build (CliWorld.agentParams none ⟨none, none⟩) false none with
    session := { AcpSession.new ⟨mode, none⟩ selections with
      sessionId := some "s1", observed := ⟨some "default", none⟩
      advertised := ⟨some CliWorld.twoModes, none⟩ }
    opening := .planning none "s1" }

def threeSelections : Dict String String :=
  ((AList.insert "c" "1" ∅).insert "b" "1").insert "a" "1"

def idleAnswer : List ReconcileStep := [.next, .reply (.ok []) .stored]

/-- Two options take turns, unchanged, until the limit is reached, and the third is never tried. -/
theorem option_starved : ¬∀ r, machine.Reachable r → r.Fair := by
  intro h
  let start := begin (driftingWorld none threeSelections) .stored
  let steps := (List.replicate 8 idleAnswer).flatten ++ [.next]
  have accepts : machine.Accepts start steps := by decide +kernel
  have reachable := Machine.reachable_run (M := machine) ⟨_, _, _, _, rfl, rfl⟩ accepts
  have attempted := (h _ reachable).attempted (by decide +kernel) (by decide +kernel)
    (.setConfigOption "c" "1") (by decide +kernel) .stored (by decide +kernel)
  exact absurd attempted (by decide +kernel)

/-- A mode that was set is set again after an option was acknowledged: that the call succeeded is
not taken for an observation. -/
example :
    let r := machine.run
      (begin (driftingWorld (some "plan") ((∅ : Dict String String).insert "a" "1")) .stored)
      [.next, .reply (.ok []) .stored, .next, .reply (.ok []) .stored, .next]
    r.attempts.map Attempt.action = [.setMode "plan", .setConfigOption "a" "1", .setMode "plan"] ∧
      Stale (.setMode "plan") r.session (r.attempts.drop 1) := by
  decide +kernel

def selectOption (id : String) (category : Option SessionConfigOptionCategory) (current : String)
    (values : List String) : SessionConfigOption :=
  ⟨id, category, .select ⟨current, .ungrouped values⟩⟩

/-- The CLI takes what it acknowledges, and tells the mode. The second option resets the first,
which is then set again. -/
def carefulSteps : List ReconcileStep :=
  [.next, .reply (.ok []) .stored,
    .next, .reply (.ok [selectOption "mode" (some .mode) "plan" ["default", "plan"],
      selectOption "a" none "1" ["0", "1"]]) .stored,
    .next, .reply (.ok [selectOption "a" none "0" ["0", "1"],
      selectOption "b" none "1" ["0", "1"]]) .stored,
    .next, .reply (.ok [selectOption "a" none "1" ["0", "1"]]) .stored, .next]

theorem fair_of_careful_sample :
    let r := machine.run (begin (driftingWorld (some "plan")
      (((∅ : Dict String String).insert "b" "1").insert "a" "1")) .stored) carefulSteps
    r.ended = true ∧ r.attempts.map Attempt.action = [.setConfigOption "a" "1",
      .setConfigOption "b" "1", .setConfigOption "a" "1", .setMode "plan"] ∧ r.Fair := by
  intro r
  have accepts : (machine.restrict Careful).Accepts (begin (driftingWorld (some "plan")
      (((∅ : Dict String String).insert "b" "1").insert "a" "1")) .stored) carefulSteps := by
    decide +kernel
  have reachable : (machine.restrict Careful).Reachable r :=
    Machine.reachable_run ⟨_, _, _, _, rfl, rfl⟩ accepts
  exact ⟨by decide +kernel, by decide +kernel, fair_of_careful reachable⟩

end Execution

end ReconcileRun

end AionCore.Agent
