import AionCore.Agent.AcpPlanning
import AionCore.Agent.AcpSessionIds

/-!
# ACP sessions: the mode and the model of the CLI

A manager opens a session with a fresh process of its CLI. The process has a mode and a model, tells
them truthfully, and changes them when it accepts a call. In which mode and model the session is
opened.
-/

namespace AionCore.Agent

/-- A step of an opening in which every call to the CLI succeeds. -/
inductive CliStep where
  | ensure
  | newSession (response : NewSessionResponse)
  | loadSession (report : SessionReport)
  | plan (order : IterOrder (String × String))
  | next
  | accepted (options : List SessionConfigOption) (order : IterOrder (String × String))
  | mark

def CliStep.step : CliStep → SessionStep
  | .ensure => .ensure
  | .newSession response => .replyNew (.ok response)
  | .loadSession report => .replyLoad (.ok report)
  | .plan order => .plan order
  | .next => .next
  | .accepted options order => .replyAction (.ok options) order
  | .mark => .mark

namespace Opening

def awaitsNew : Opening → Bool
  | .newSession | .resumeSession _ => true
  | _ => false

def awaitsLoad : Opening → Option (Option String)
  | .loadSession _ preloadedMode => some preloadedMode
  | _ => none

def isPlanning : Opening → Bool
  | .planning _ _ => true
  | _ => false

def actionsLeft : Opening → Option (List ReconcileAction × ℕ)
  | .reconciling _ _ actions executed => some (actions, executed)
  | _ => none

def calledAction : Opening → Option (ReconcileAction × String)
  | .calling _ _ action value _ _ => some (action, value)
  | _ => none

def isReady : Opening → Bool
  | .ready _ _ => true
  | _ => false

end Opening

def ReconcileAction.configKey : ReconcileAction → Option String
  | .setConfigOption key _ => some key
  | _ => none

/-- A manager with a fresh process of its CLI: the mode and the model of the process, what was heard
of it, and the aggregate by which actions were planned last. -/
structure CliWorld where
  world : SessionWorld
  cli : PerSetting String
  heard : Heard := {}
  planned : Option AcpSession := none

namespace CliWorld

variable (controls : OptionControls) (s : CliWorld)

/-- The manager after a step. -/
def advance (step : CliStep) : CliWorld := { s with world := s.world.fire step.step }

def hear (report : SessionReport) : CliWorld := { s with heard := s.heard.addReport report }

/-- The CLI accepts the call that awaits its response; after a config option the actions are planned
anew. -/
def accept (options : List SessionConfigOption) (order : IterOrder (String × String)) : CliWorld :=
  let next := s.advance (.accepted options order)
  match s.world.opening.calledAction with
  | none => next
  | some (action, value) =>
    let heard := s.heard.addAccepted controls value action
    let cli := acceptedSettings controls s.cli value action
    if action.configKey.isSome then
      { next with cli, heard := heard.addOptions options, planned := some next.world.session }
    else { next with cli, heard }

def fire : CliStep → CliWorld
  | .newSession response => (s.advance (.newSession response)).hear response.toSessionReport
  | .loadSession report => (s.advance (.loadSession report)).hear report
  | .plan order =>
    let next := s.advance (.plan order)
    { next with planned := some next.world.session }
  | .accepted options order => s.accept controls options order
  | step => s.advance step

/-- The CLI reports truthfully, in the responses that the manager waits for. -/
def admits : CliStep → Prop
  | .ensure => s.world.opening = .closed ∧ s.world.session.opened = false
  | .newSession response =>
    s.world.opening.awaitsNew = true ∧ TruthfulReport controls s.cli response.toSessionReport
  | .loadSession report =>
    s.world.opening.awaitsLoad.isSome = true ∧ TruthfulReport controls s.cli report
  | .plan _ => s.world.opening.isPlanning = true
  | .next => s.world.opening.actionsLeft.isSome = true
  | .accepted options _ => s.world.opening.calledAction.isSome = true ∧
      ∀ call ∈ s.world.opening.calledAction, call.1.configKey.isSome = true →
        TruthfulOptions controls (acceptedSettings controls s.cli call.2 call.1) options
  | .mark => s.world.opening.isReady = true

def machine : Machine CliWorld CliStep where
  start s := ∃ params loadSession persisted cli,
    s = { world := .build params loadSession persisted, cli }
  admits := admits controls
  fire s := s.fire controls

def Open : Prop :=
  s.world.opening.isReady = true ∨
    (s.world.opening = .closed ∧ s.world.session.opened = true)

/-- An open session has the CLI in the desired mode and model; and nothing was planned as if a value
were in force that the CLI neither reported nor acknowledged. -/
structure Chosen : Prop where
  settled : s.Open → s.world.session.Settled controls s.cli
  known : ∀ session ∈ s.planned, session.Known s.heard

/-- The manager resumes a session of an agent that can neither resume nor load: no session is
opened, and nothing reported. -/
def ResumesUntold : Prop :=
  s.world.connected = true ∧ s.world.session.sessionId.isSome = true ∧
    s.world.params.metadata.sessionLoadViaMetaField = false ∧ s.world.session.loadSession = false

def noReport : SessionReport := ⟨none, none, none⟩

/-- The action is sent with its value; a mode that a config option sets may be sent in its normal
form, which is wished from then on. -/
def SendsPlain : ReconcileAction → Prop
  | .setMode mode => s.world.session.InCatalog .mode mode →
      s.world.resolvedValue (.setMode mode) = mode ∧ mode ≠ ""
  | .setModel _ => True
  | .setConfigOption key value => ∀ x ∈ controls key,
      s.world.resolvedValue (.setConfigOption key value) = value ∨
        (key = "mode" ∧ s.world.session.pendingStartupConfig = [])

/-- A step on which nothing comes between the state of the CLI and the aggregate, nor between a
desired mode or model and the CLI. -/
def Plain : CliStep → Prop
  | .ensure => s.ResumesUntold → s.world.session.PlainReport none noReport
  | .newSession response => s.world.session.PlainReport none response.toSessionReport
  | .loadSession report => ∀ preloadedMode ∈ s.world.opening.awaitsLoad,
      s.world.session.PlainReport preloadedMode report
  | .next => ∀ left ∈ s.world.opening.actionsLeft,
      if maxReconcileActions < left.2 + 1 then
        ∀ action ∈ left.1, ¬s.world.session.Needs controls action
      else ∀ action ∈ left.1.head?, s.SendsPlain controls action
  | .accepted options _ => ∀ call ∈ s.world.opening.calledAction, ∀ key ∈ call.1.configKey,
      s.world.session.PlainResponse controls key call.2 options
  | _ => True

section Invariant

/-- What holds while the CLI has not answered a call yet. -/
structure Calling (session : AcpSession) (action : ReconcileAction) (value : String)
    (actions : List ReconcileAction) : Prop where
  setting : ∀ x id, action = .ofSetting x id →
    session.Reconciling controls (s.cli.set value x)
      (s.heard.addAccepted controls value (.ofSetting x id)) actions
  config : ∀ key wished, action = .setConfigOption key wished →
    session.ConfigCalled controls s.cli s.heard key wished value

def Phase (session : AcpSession) : Opening → Prop
  | .closed => (session.opened = false → session.configOptions = none) ∧
      (session.opened = true → session.Settled controls s.cli)
  | .newSession | .resumeSession _ | .loadSession _ _ => session.configOptions = none
  | .planning _ _ => session.Reported s.cli s.heard ∧ ∀ x, session.Controlled controls s.cli x
  | .reconciling _ _ actions _ => session.Reconciling controls s.cli s.heard actions
  | .calling _ _ action value actions _ => s.Calling controls session action value actions
  | .ready _ _ => session.Settled controls s.cli

structure Inv : Prop where
  connected : s.world.connected = true
  phase : s.Phase controls s.world.session s.world.opening
  known : ∀ session ∈ s.planned, session.Known s.heard

variable {controls s}

theorem Inv.phase_of {o : Opening} (h : s.Inv controls) (ho : s.world.opening = o) :
    s.Phase controls s.world.session o := ho ▸ h.phase

theorem narrows_setSessionId (session : AcpSession) (sid : String) :
    session.Narrows (session.setSessionId sid) := by
  unfold AcpSession.setSessionId
  split
  · exact .refl session
  · exact ⟨rfl, rfl, rfl, rfl, fun _ _ h => h, fun _ _ h => .inl h⟩

variable {session : AcpSession} {heard : Heard} {cli : PerSetting String}

theorem reported_setSessionId (h : session.Reported cli heard) (sid : String) :
    (session.setSessionId sid).Reported cli heard := by
  unfold AcpSession.setSessionId
  split
  · exact h
  · exact ⟨h.settings, h.config, h.options⟩

theorem controlled_setSessionId {x : Setting} (h : session.Controlled controls cli x)
    (sid : String) :
    (session.setSessionId sid).Controlled controls cli x := by
  unfold AcpSession.setSessionId
  split
  · exact h
  · exact h

theorem addReport_noReport (heard : Heard) : heard.addReport noReport = heard := by
  obtain ⟨settings, config⟩ := heard
  simp [Heard.addReport, Heard.addCatalogs, noReport, SessionReport.catalog]

theorem truthful_noReport (cli : PerSetting String) : TruthfulReport controls cli noReport := by
  refine ⟨fun x catalog h => ?_, fun options h => (by cases h)⟩
  cases x <;> cases h

variable {report : SessionReport}

/-- A report is taken over by an aggregate that knows no options yet. -/
theorem phase_opened {preloadedMode : Option String} (sid : String)
    (hfresh : session.configOptions = none) (hplain : session.PlainReport preloadedMode report)
    (htruth : TruthfulReport controls cli report) :
    ((session.applyReport (report.withMode preloadedMode)).setSessionId sid).Reported cli
        (heard.addReport report) ∧
      ∀ x, ((session.applyReport (report.withMode preloadedMode)).setSessionId sid).Controlled
        controls cli x := by
  have reported : (session.applyReport (report.withMode preloadedMode)).Reported cli
      (heard.addReport report) := AcpSession.reported_report hfresh hplain htruth
  refine ⟨reported_setSessionId reported sid, fun x => ?_⟩
  exact controlled_setSessionId (AcpSession.controlled_report x hfresh hplain htruth) sid

theorem Inv.ensure (h : s.Inv controls) (ha : s.admits controls .ensure)
    (hp : s.Plain controls .ensure) : (s.fire controls .ensure).Inv controls := by
  obtain ⟨hclosed, hopened⟩ := ha
  have hfresh : s.world.session.configOptions = none := (h.phase_of hclosed).1 hopened
  show Inv controls { s with world := s.world.ensureSessionOpened }
  unfold SessionWorld.ensureSessionOpened
  rw [if_pos h.connected]
  cases hid : s.world.session.sessionId with
  | none => exact ⟨h.connected, hfresh, h.known⟩
  | some sid =>
    simp only [hopened, Bool.false_eq_true, if_false]
    unfold SessionWorld.openSessionResume
    split
    · exact ⟨h.connected, hfresh, h.known⟩
    · next hmeta =>
      split
      · exact ⟨h.connected, hfresh, h.known⟩
      · next hload =>
        -- no session is opened: what is preloaded stands for a report
        have hplain : s.world.session.PlainReport none noReport :=
          hp ⟨h.connected, hid ▸ rfl, Bool.eq_false_of_not_eq_true hmeta,
            Bool.eq_false_of_not_eq_true hload⟩
        have truth : TruthfulReport controls s.cli noReport := truthful_noReport s.cli
        have opened : _ ∧ _ := @phase_opened _ _ s.heard _ _ _ sid hfresh hplain truth
        rw [addReport_noReport] at opened
        exact ⟨h.connected, opened, h.known⟩

theorem Inv.known_hear (h : s.Inv controls) (report : SessionReport) :
    ∀ session ∈ s.planned, session.Known (s.heard.addReport report) :=
  fun session hmem => (h.known session hmem).mono (Heard.grows_addReport report)

theorem Inv.newSession {response : NewSessionResponse} (h : s.Inv controls)
    (ha : s.admits controls (.newSession response)) (hp : s.Plain controls (.newSession response)) :
    (s.fire controls (.newSession response)).Inv controls := by
  obtain ⟨hawaits, htruth⟩ := ha
  have opened : s.world.session.configOptions = none → ∀ asked,
      Inv controls { s with
        world := s.world.sessionOpened asked response.toSessionReport response.sessionId
        heard := s.heard.addReport response.toSessionReport } := by
    intro hfresh asked
    exact ⟨h.connected, phase_opened response.sessionId hfresh hp htruth, h.known_hear _⟩
  show Inv controls { s with
    world := s.world.replyNewSession (.ok response)
    heard := s.heard.addReport response.toSessionReport }
  unfold SessionWorld.replyNewSession
  cases hopening : s.world.opening with
  | newSession => exact opened (h.phase_of hopening) none
  | resumeSession asked => exact opened (h.phase_of hopening) (some asked)
  | _ => rw [hopening] at hawaits; cases hawaits

theorem Inv.loadSession (h : s.Inv controls) (ha : s.admits controls (.loadSession report))
    (hp : s.Plain controls (.loadSession report)) :
    (s.fire controls (.loadSession report)).Inv controls := by
  obtain ⟨hawaits, htruth⟩ := ha
  show Inv controls { s with
    world := s.world.replyLoadSession (.ok report)
    heard := s.heard.addReport report }
  unfold SessionWorld.replyLoadSession
  cases hopening : s.world.opening with
  | loadSession asked preloadedMode =>
    have hplain : s.world.session.PlainReport preloadedMode report :=
      hp preloadedMode (by rw [hopening]; rfl)
    exact ⟨h.connected, phase_opened asked (h.phase_of hopening) hplain htruth, h.known_hear _⟩
  | _ => rw [hopening] at hawaits; cases hawaits

variable {order : IterOrder (String × String)}

theorem Inv.plan (h : s.Inv controls) (ha : s.admits controls (.plan order)) :
    (s.fire controls (.plan order)).Inv controls := by
  have hplanning : s.world.opening.isPlanning = true := ha
  show Inv controls { s with
    world := s.world.planActions order
    planned := some (s.world.planActions order).session }
  unfold SessionWorld.planActions
  cases hopening : s.world.opening with
  | planning asked sid =>
    obtain ⟨reported, controlled⟩ := h.phase_of hopening
    have reconciling := SessionWorld.reconciling_prepared reported controlled order (fun _ => true)
      (fun _ _ => rfl) fun _ _ _ hskipped => (by cases hskipped)
    rw [List.filter_eq_self.mpr fun _ _ => rfl] at reconciling
    refine ⟨h.connected, reconciling, fun session hmem => ?_⟩
    obtain rfl := Option.some.inj hmem
    exact reconciling.known
  | _ => rw [hopening] at hplanning; cases hplanning

/-- A config option is sent, in its normal form if it is a mode. -/
theorem configCalled_keepResolved {w : SessionWorld} {key wished : String}
    {actions : List ReconcileAction} (h : w.session.Reconciling controls cli heard actions)
    (hsent : ∀ x ∈ controls key, w.resolvedValue (.setConfigOption key wished) = wished ∨
      (key = "mode" ∧ w.session.pendingStartupConfig = [])) :
    (w.keepResolved (.setConfigOption key wished)).ConfigCalled controls cli heard key wished
      (w.resolvedValue (.setConfigOption key wished)) := by
  generalize hvalue : w.resolvedValue (.setConfigOption key wished) = value at hsent
  have honest := h.honest.mono
    (Heard.grows_addAccepted controls value (.setConfigOption key wished))
  unfold SessionWorld.keepResolved
  rw [hvalue]
  dsimp only
  split
  · next hkept =>
    obtain ⟨-, hne⟩ := hkept
    have hlookup : ∀ key', (w.session.setDesiredConfig key value).configSelections.lookup key' =
        if key' = key then some value else w.session.configSelections.lookup key' :=
      fun key' => Dict.lookup_insert' _ _ _ _
    refine ⟨⟨honest.settings, fun key' value' hcurrent hwish => ?_, honest.options⟩,
      fun x hdesired hx key' value' hkey' hkeeps hwish => ?_, fun x hx => .inr ⟨?_, ?_⟩⟩
    · rw [hlookup key'] at hwish
      by_cases hkey : key' = key
      · subst hkey
        rw [if_pos rfl] at hwish
        obtain hselected | hselectable := hwish
        · -- the value that is sent is acknowledged when it is accepted
          obtain rfl := Option.some.inj hselected
          exact List.mem_append_right _ (List.mem_singleton.mpr rfl)
        · exact honest.config key' value' hcurrent (.inr hselectable)
      · rw [if_neg hkey] at hwish
        exact honest.config key' value' hcurrent hwish
    · have hkey : key' ≠ key := by
        rintro rfl
        exact hx hkey'
      refine h.controlled x hdesired key' value' hkey' hkeeps ?_
      unfold AcpSession.Wishable at hwish
      rwa [hlookup key', if_neg hkey] at hwish
    · rw [hlookup key, if_pos rfl]
      exact fun heq => hne (Option.some.inj heq)
    · obtain hplain | ⟨-, hpending⟩ := hsent x hx
      · exact absurd hplain hne
      · exact hpending
  · next hkept =>
    refine ⟨honest, fun x hdesired _ => h.controlled x hdesired, fun x hx => .inl ?_⟩
    obtain hplain | ⟨hmode, -⟩ := hsent x hx
    · exact hplain
    · by_contra hne
      exact hkept ⟨hmode, hne⟩

theorem Inv.next (h : s.Inv controls) (ha : s.admits controls .next) (hp : s.Plain controls .next) :
    (s.fire controls .next).Inv controls := by
  have hleft : s.world.opening.actionsLeft.isSome = true := ha
  show Inv controls { s with world := s.world.nextAction }
  unfold SessionWorld.nextAction
  cases hopening : s.world.opening with
  | reconciling asked sid actions executed =>
    have reconciling : s.world.session.Reconciling controls s.cli s.heard actions :=
      h.phase_of hopening
    have plain := hp (actions, executed) (by rw [hopening]; rfl)
    cases actions with
    | nil =>
      exact ⟨h.connected, reconciling.owed.settled fun action hmem => (by cases hmem), h.known⟩
    | cons action actions =>
      simp only at plain ⊢
      split
      · next hlimit =>
        rw [if_pos hlimit] at plain
        exact ⟨h.connected, reconciling.owed.settled plain, h.known⟩
      · next hlimit =>
        rw [if_neg hlimit] at plain
        have sends : s.SendsPlain controls action := plain action rfl
        split
        · next hskip =>
          obtain ⟨hsets, hempty⟩ := hskip
          cases action with
          | setMode mode =>
            refine ⟨h.connected, reconciling.skip (x := .mode) fun hcatalog => ?_, h.known⟩
            obtain ⟨hplain, hsome⟩ := sends hcatalog
            exact hsome (hplain.symm.trans hempty)
          | _ => cases hsets
        · refine ⟨h.connected, ?_, h.known⟩
          cases action with
          | setMode mode =>
            have accepted := reconciling.accepted (x := .mode) fun hcatalog => (sends hcatalog).1
            refine ⟨fun x id heq => ?_, fun _ _ heq => (by cases heq)⟩
            obtain ⟨rfl, rfl⟩ := AcpSession.ofSetting_inj (x := .mode) heq
            exact accepted
          | setModel model =>
            have accepted := reconciling.accepted (x := .model) fun _ => Eq.refl model
            refine ⟨fun x id heq => ?_, fun _ _ heq => (by cases heq)⟩
            obtain ⟨rfl, rfl⟩ := AcpSession.ofSetting_inj (x := .model) heq
            exact accepted
          | setConfigOption key wished =>
            have called := configCalled_keepResolved reconciling sends
            refine ⟨fun x id heq => absurd heq.symm AcpSession.ofSetting_ne_setConfigOption,
              fun key' wished' heq => ?_⟩
            obtain ⟨rfl, rfl⟩ := ReconcileAction.setConfigOption.inj heq
            exact called
  | _ => rw [hopening] at hleft; cases hleft

theorem Inv.accepted {options : List SessionConfigOption} (h : s.Inv controls)
    (ha : s.admits controls (.accepted options order))
    (hp : s.Plain controls (.accepted options order)) :
    (s.fire controls (.accepted options order)).Inv controls := by
  obtain ⟨hcalled, htruth⟩ := ha
  show Inv controls (s.accept controls options order)
  unfold CliWorld.accept
  cases hopening : s.world.opening with
  | calling asked sid action value actions executed =>
    have calling : s.Calling controls s.world.session action value actions := h.phase_of hopening
    have hcall : s.world.opening.calledAction = some (action, value) := by rw [hopening]; rfl
    have hgrows : s.heard.Grows (s.heard.addAccepted controls value action) :=
      Heard.grows_addAccepted controls value action
    -- a mode or a model: the other actions are left
    have setting : ∀ x id, action = .ofSetting x id →
        Inv controls { s with
          world := { s.world with opening := .reconciling asked sid actions executed }
          cli := acceptedSettings controls s.cli value action
          heard := s.heard.addAccepted controls value action } := by
      rintro x id rfl
      refine ⟨h.connected, ?_, fun session hmem => (h.known session hmem).mono hgrows⟩
      rw [acceptedSettings_ofSetting]
      exact calling.setting x id rfl
    have hfire : s.advance (.accepted options order) =
        { s with world := s.world.replyToAction (.ok options) order } := rfl
    simp only [Opening.calledAction, hfire, SessionWorld.replyToAction, hopening]
    cases action with
    | setMode mode => exact setting .mode mode rfl
    | setModel model => exact setting .model model rfl
    | setConfigOption key wished =>
      have plain := hp _ hcall key rfl
      have truth := htruth _ hcall rfl
      have reconciling := SessionWorld.reconciling_followup
        (calling.config key wished rfl) plain truth order
      refine ⟨h.connected, reconciling, fun session hmem => ?_⟩
      obtain rfl := Option.some.inj hmem
      exact reconciling.known
  | _ => rw [hopening] at hcalled; cases hcalled

theorem Inv.mark (h : s.Inv controls) (ha : s.admits controls .mark) :
    (s.fire controls .mark).Inv controls := by
  have hready : s.world.opening.isReady = true := ha
  show Inv controls { s with world := s.world.markOpened }
  unfold SessionWorld.markOpened
  cases hopening : s.world.opening with
  | ready asked sid =>
    have settled : s.world.session.Settled controls s.cli := h.phase_of hopening
    simp only [h.connected, if_true]
    refine ⟨rfl, ⟨fun hopened => (by cases hopened), fun _ => ?_⟩, h.known⟩
    exact ⟨settled.desired, settled.selected⟩
  | _ => rw [hopening] at hready; cases hready

theorem configOptions_preloadAdvertisedCatalog (session : AcpSession) (x : Setting)
    (catalog : Option SessionCatalog) :
    (session.preloadAdvertisedCatalog x catalog).configOptions = session.configOptions := by
  unfold AcpSession.preloadAdvertisedCatalog
  split
  · rfl
  · split <;> rfl

theorem configOptions_seedPreference (params : AcpSessionParams) (session : AcpSession)
    (category : SessionConfigOptionCategory) (preference : Option String) :
    (params.seedPreference session category preference).configOptions =
      session.configOptions := by
  unfold AcpSessionParams.seedPreference
  split
  · rfl
  · split
    · rfl
    · exact (AcpSession.narrows_seedPendingStartupConfig _ _).configOptions

theorem configOptions_preloadPersisted (session : AcpSession) (state : PersistedSessionState) :
    (session.preloadPersisted state).configOptions = session.configOptions := by
  have preload : ∀ (t : AcpSession) (x : Setting) (id : Option String),
      (t.preload x id).configOptions = t.configOptions := by
    intro t x id
    cases id <;> rfl
  unfold AcpSession.preloadPersisted
  split
  · exact (preload _ _ _).trans (preload _ _ _)
  · exact (preload _ _ _).trans (preload _ _ _)

/-- A session that was built knows no options of the CLI. -/
theorem configOptions_session (params : AcpSessionParams) (loadSession : Bool) :
    (params.session loadSession).configOptions = none := by
  have seeds : (params.seedStartupConfigPreferences
      ((AcpSession.new ⟨params.initialMode, params.initialModel⟩
        params.initialConfig).preloadAdvertisedCatalogs params.metadata.handshake)).configOptions =
      none := by
    simp only [AcpSessionParams.seedStartupConfigPreferences, configOptions_seedPreference,
      AcpSession.preloadAdvertisedCatalogs, configOptions_preloadAdvertisedCatalog, AcpSession.new]
  unfold AcpSessionParams.session
  cases params.sessionSnapshot with
  | none => exact seeds
  | some state => exact (configOptions_preloadPersisted _ state).trans seeds

theorem inv_build (params : AcpSessionParams) (loadSession : Bool) (persisted : Option String)
    (cli : PerSetting String) :
    Inv controls { world := .build params loadSession persisted, cli } := by
  have hopened : (params.session loadSession).opened = false :=
    (SessionWorld.sameSession_session params loadSession).opened
  have hfresh := configOptions_session params loadSession
  refine ⟨rfl, ?_, fun session hmem => (by cases hmem)⟩
  have phase : ∀ session : AcpSession, session.opened = false → session.configOptions = none →
      Phase controls { world := .build params loadSession persisted, cli } session .closed := by
    intro session hclosed hoptions
    refine ⟨fun _ => hoptions, fun hopen => ?_⟩
    cases hclosed.symm.trans hopen
  cases persisted with
  | none => exact phase _ hopened hfresh
  | some sid =>
    exact phase _ ((SessionWorld.opened_setSessionId _ sid).trans hopened)
      ((narrows_setSessionId _ sid).configOptions.trans hfresh)

theorem inv_fire (step : CliStep) (h : s.Inv controls) (ha : s.admits controls step)
    (hp : s.Plain controls step) : (s.fire controls step).Inv controls := by
  cases step with
  | ensure => exact h.ensure ha hp
  | newSession response => exact h.newSession ha hp
  | loadSession report => exact h.loadSession ha hp
  | plan order => exact h.plan ha
  | next => exact h.next ha hp
  | accepted options order => exact h.accepted ha hp
  | mark => exact h.mark ha

/-- As long as nothing comes between the CLI and the aggregate, an open session has the CLI in the
desired mode and model, and nothing is planned by a value that was not heard of the CLI. -/
theorem opens_in_chosen_settings
    (h : ((machine controls).restrict (Plain controls)).Reachable s) : s.Chosen controls := by
  have inv : s.Inv controls := by
    refine h.invariant (M := (machine controls).restrict (Plain controls)) (P := Inv controls) ?_
      fun s step hs hstep => inv_fire step hs hstep.1 hstep.2
    rintro s ⟨params, loadSession, persisted, cli, rfl⟩
    exact inv_build params loadSession persisted cli
  refine ⟨fun hopen => ?_, inv.known⟩
  obtain hready | ⟨hclosed, hopened⟩ := hopen
  · cases hopening : s.world.opening with
    | ready asked sid => exact inv.phase_of hopening
    | _ => rw [hopening] at hready; cases hready
  · exact (inv.phase_of hclosed).2 hopened

end Invariant

section Execution

variable (controls : OptionControls)

instance (s : CliWorld) : Decidable s.Open := by
  unfold Open
  infer_instance

instance (session : AcpSession) (cli : PerSetting String) :
    Decidable (session.Settled controls cli) :=
  decidable_of_iff (_ ∧ _) ⟨fun h => ⟨h.1, h.2⟩, fun h => ⟨h.desired, h.selected⟩⟩

instance decidablePlainReport (session : AcpSession) (preloadedMode : Option String)
    (report : SessionReport) : Decidable (session.PlainReport preloadedMode report) :=
  -- the parts one by one: instance search does not find them together
  have : Decidable (∀ incoming ∈ report.configOptions, ∀ x,
      session.StandsAfter report x → ∀ id ∈ session.desired.get x,
        x.Reads id (session.mergedOptions incoming) → x.Shows id incoming) := inferInstance
  have : Decidable (∀ x, session.StandsAfter report x → session.UntoldByOptions report x →
      report.catalog x = none → ∀ id ∈ session.desired.get x, session.isValid x id = true →
        session.observed.get x ≠ some id) := inferInstance
  have : Decidable (session.StandsAfter report .mode → session.UntoldByOptions report .mode →
      ∀ catalog ∈ report.modes, ∀ id ∈ session.desired.get .mode,
        (session.applyAdvertised .mode catalog).isValid .mode id = true →
          preloadedMode = some id → catalog.current = id) := inferInstance
  have : Decidable (∀ key ∈ session.configCurrent.keys,
      session.configSelections.lookup key = session.configCurrent.lookup key →
        session.Lists report key) := inferInstance
  decidable_of_iff (_ ∧ _ ∧ _ ∧ _)
    ⟨fun h => AcpSession.PlainReport.mk h.1 h.2.1 h.2.2.1 h.2.2.2,
      fun h => ⟨h.options, h.told, h.kept, h.listed⟩⟩

instance decidablePlainResponse (session : AcpSession) (key value : String)
    (incoming : List SessionConfigOption) :
    Decidable (session.PlainResponse controls key value incoming) :=
  decidable_of_iff (_ ∧ _) ⟨fun h => ⟨h.1, h.2⟩, fun h => ⟨h.taken, h.kept⟩⟩

instance decidableSendsPlain (s : CliWorld) :
    ∀ action, Decidable (s.SendsPlain controls action)
  | .setMode mode => inferInstanceAs (Decidable (s.world.session.InCatalog .mode mode →
      s.world.resolvedValue (.setMode mode) = mode ∧ mode ≠ ""))
  | .setModel _ => .isTrue trivial
  | .setConfigOption key value => inferInstanceAs (Decidable (∀ x ∈ controls key,
      s.world.resolvedValue (.setConfigOption key value) = value ∨
        (key = "mode" ∧ s.world.session.pendingStartupConfig = [])))

instance decidableCliAdmits : ∀ (s : CliWorld) (step : CliStep),
    Decidable ((machine controls).admits s step) := by
  intro s step
  cases step <;> simp only [machine, admits] <;> infer_instance

instance decidablePlain : ∀ (s : CliWorld) (step : CliStep), Decidable (s.Plain controls step) := by
  intro s step
  cases step <;> simp only [Plain, ResumesUntold] <;> infer_instance

def twoModes : SessionCatalog := ⟨"default", ["default", "plan"]⟩

def setsModel : OptionControls := fun key => if key = "model" then some .model else none

def twoModels (current : String) : SessionConfigOption :=
  ⟨"model", some .model, .select ⟨current, .ungrouped ["sonnet", "opus"]⟩⟩

def agentParams (sessionMode : Option String) (current : PerSetting (Option String)) :
    AcpSessionParams :=
  { metadata := ⟨none, none, false, ⟨some twoModes, none⟩⟩, sessionMode
    currentModelId := none, thoughtLevel := none, sessionSnapshot := some ⟨current, ∅⟩ }

def agent (sessionMode : Option String) (current : PerSetting (Option String)) (loadSession : Bool)
    (persisted : Option String) : CliWorld :=
  { world := .build (agentParams sessionMode current) loadSession persisted
    cli := ⟨"default", "sonnet"⟩ }

def loadedRun : List CliStep :=
  [.ensure, .loadSession ⟨none, some twoModes, none⟩, .plan .stored, .next, .mark]

/-- A stored mode is preloaded as if it were observed, and takes the place of the one that the CLI
reports: the session is open, and the CLI has another. -/
theorem loaded_session_in_other_mode :
    ¬∀ s, (machine setsModel).Reachable s → s.Chosen setsModel := by
  intro h
  let start := agent none ⟨some "plan", none⟩ true (some "s1")
  have accepts : (machine setsModel).Accepts start loadedRun := by decide +kernel
  have reachable := Machine.reachable_run (M := machine setsModel) ⟨_, _, _, _, rfl⟩ accepts
  have settled := (h _ reachable).settled (by decide +kernel)
  exact absurd settled (by decide +kernel)

/-- The same without a call that opens the session, and for a model that a config option shows. -/
example :
    let resumed := (machine setsModel).run (agent none ⟨some "plan", none⟩ false (some "s1"))
      [.ensure, .plan .stored, .next, .mark]
    let fresh := (machine setsModel).run (agent none ⟨none, some "opus"⟩ false none)
      [.ensure, .newSession ⟨⟨none, none, some [twoModels "sonnet"]⟩, "s1"⟩, .plan .stored, .next,
        .mark]
    (resumed.Open ∧ resumed.cli.mode = "default" ∧
      resumed.world.session.desired.mode = some "plan") ∧
    fresh.Open ∧ fresh.cli.model = "sonnet" ∧ fresh.world.session.desired.model = some "opus" := by
  decide +kernel

/-- A mode that is wished anew is set, and so is a model by its config option. -/
theorem opens_in_wished_mode :
    let s := (machine setsModel).run
      { agent (some "plan") ⟨none, none⟩ false none with
        world := .build { agentParams (some "plan") ⟨none, none⟩ with
          currentModelId := some "opus" } false none }
      [.ensure, .newSession ⟨⟨none, some twoModes, some [twoModels "sonnet"]⟩, "s1"⟩, .plan .stored,
        .next, .accepted [] .stored, .next, .accepted [twoModels "opus"] .stored, .next,
        .accepted [] .stored, .next, .mark]
    (s.Open ∧ s.cli = ⟨"plan", "opus"⟩) ∧ s.Chosen setsModel := by
  intro s
  have accepts : ((machine setsModel).restrict (Plain setsModel)).Accepts
      { agent (some "plan") ⟨none, none⟩ false none with
        world := .build { agentParams (some "plan") ⟨none, none⟩ with
          currentModelId := some "opus" } false none }
      [.ensure, .newSession ⟨⟨none, some twoModes, some [twoModels "sonnet"]⟩, "s1"⟩, .plan .stored,
        .next, .accepted [] .stored, .next, .accepted [twoModels "opus"] .stored, .next,
        .accepted [] .stored, .next, .mark] := by
    decide +kernel
  have reachable : ((machine setsModel).restrict (Plain setsModel)).Reachable s :=
    Machine.reachable_run ⟨_, _, _, _, rfl⟩ accepts
  exact ⟨by decide +kernel, opens_in_chosen_settings reachable⟩

end Execution

end CliWorld

end AionCore.Agent
