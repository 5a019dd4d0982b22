import AionCore.Agent.AcpOpening

/-!
# ACP sessions: the id in use

A session is opened under the id that the CLI gives it, and the aggregate keeps the id it was built
with. The two are one id except where a resumed session is given another; until then every later
call uses the session that was opened last.
-/

namespace AionCore.Agent

/-- The id returned is that of the session opened or loaded last, the aggregate holds it and is
opened, and an id that was returned before is returned again. -/
structure OpenReturn.Agrees (r : OpenReturn) : Prop where
  latest : r.latest = some r.sid
  stored : r.stored = some r.sid
  opened : r.opened = true
  again : ∀ sid, r.promised = some sid → r.sid = sid

def SessionUse.Agrees (use : SessionUse) : Prop :=
  ∀ sid, use.promised = some sid → use.sid = some sid

namespace SessionWorld

variable (w : SessionWorld)

/-- Every return and every use of an id so far agrees with the session opened last. -/
structure UsesOpenedSession : Prop where
  returns : ∀ r ∈ w.returns, r.Agrees
  uses : ∀ u ∈ w.uses, u.Agrees

/-- An opening that resumed a session ends under the id that it asked for. -/
def KeepsAskedId : SessionStep → Prop
  | .mark =>
    match w.opening with
    | .ready (some asked) sid => w.connected = true → sid = asked
    | _ => True
  | _ => True

section Frame

open AcpSession (SameSession)

variable (s : AcpSession)

theorem sameSession_applyReport (report : SessionReport) :
    s.SameSession (s.applyReport report) := by
  obtain ⟨models, modes, options⟩ := report
  have hmodels : s.SameSession (s.applyReportedModels models) := by
    cases models <;> exact ⟨rfl, rfl⟩
  have hmodes : s.SameSession ((s.applyReportedModels models).applyReportedModes modes) := by
    cases modes with
    | none => exact hmodels
    | some modes => exact hmodels.trans ⟨rfl, rfl⟩
  cases options with
  | none => exact hmodes
  | some options => exact hmodes.trans (AcpSession.sameSession_applyAdvertisedConfigOptions options)

theorem sameSession_applyNotice (notice : SessionNotice) :
    s.SameSession (s.applyNotice notice) := by
  cases notice with
  | configOptions options => exact AcpSession.sameSession_applyAdvertisedConfigOptions options
  | _ => exact ⟨rfl, rfl⟩

theorem sessionId_setSessionId (sid : String) :
    (s.setSessionId sid).sessionId = some (s.sessionId.getD sid) := by
  unfold AcpSession.setSessionId
  cases h : s.sessionId with
  | none => rfl
  | some stored => exact h

theorem opened_setSessionId (sid : String) : (s.setSessionId sid).opened = s.opened := by
  unfold AcpSession.setSessionId
  cases s.sessionId <;> rfl

theorem setSessionId_of_stored {sid stored : String} (h : s.sessionId = some stored) :
    s.setSessionId sid = s := by
  unfold AcpSession.setSessionId
  rw [h]

theorem sameSession_prepared : w.session.SameSession w.prepared :=
  ((AcpSession.sameSession_resolvePendingStartupConfigSeeds _).trans
    (AcpSession.sameSession_clearInvalidDesired .mode)).trans
    (AcpSession.sameSession_clearInvalidDesired .model)

theorem sameSession_keepResolved (action : ReconcileAction) :
    w.session.SameSession (w.keepResolved action) := by
  cases action with
  | setConfigOption key value =>
    unfold keepResolved
    simp only
    split
    · exact ⟨rfl, rfl⟩
    · exact .refl _
  | _ => exact .refl _

end Frame

section Invariant

/-- The aggregate holds the id that was asked for, if one was, and the CLI has opened `sid`. -/
structure Holds (asked : Option String) (sid : String) : Prop where
  stored : w.session.sessionId = some (asked.getD sid)
  latest : w.latest = some sid

def Fits : Opening → Prop
  | .closed => True
  | .newSession => w.session.sessionId = none ∧ w.session.opened = false
  | .resumeSession asked =>
    w.params.metadata.sessionLoadViaMetaField = true ∧ w.session.sessionId = some asked ∧
      w.session.opened = false
  | .loadSession asked _ => w.session.sessionId = some asked ∧ w.session.opened = false
  | .planning asked sid => w.Holds asked sid ∧ w.session.opened = false
  | .reconciling asked sid _ _ => w.Holds asked sid ∧ w.session.opened = false
  | .calling asked sid _ _ _ _ => w.Holds asked sid ∧ w.session.opened = false
  | .ready asked sid => w.Holds asked sid

/-- Without a meta resume the id stored is always that of the session opened last. -/
structure SessionInv : Prop where
  fits : w.Fits w.opening
  stored : w.params.metadata.sessionLoadViaMetaField = false →
    ∀ sid, w.session.sessionId = some sid → w.latest = some sid
  opened : w.session.opened = true → ∃ sid, w.Holds none sid ∧ w.promised = some sid
  unopened : w.session.opened = false → w.promised = none
  agrees : w.UsesOpenedSession

/-- A step that leaves the ids, the log and whether the session is opened. -/
structure SameIds (w w' : SessionWorld) : Prop where
  params : w'.params = w.params
  session : w.session.SameSession w'.session
  latest : w'.latest = w.latest
  promised : w'.promised = w.promised
  returns : w'.returns = w.returns
  uses : w'.uses = w.uses

variable {w} {w' : SessionWorld} {asked : Option String} {sid : String}

theorem SameIds.holds (same : w.SameIds w') (h : w.Holds asked sid) : w'.Holds asked sid where
  stored := same.session.sessionId.trans h.stored
  latest := same.latest.trans h.latest

theorem SameIds.fits (same : w.SameIds w') {o : Opening} (h : w.Fits o) : w'.Fits o := by
  have hid := same.session.sessionId
  have hopened := same.session.opened
  cases o with
  | closed => trivial
  | newSession => exact ⟨hid.trans h.1, hopened.trans h.2⟩
  | resumeSession asked =>
    refine ⟨?_, hid.trans h.2.1, hopened.trans h.2.2⟩
    rw [same.params]
    exact h.1
  | loadSession asked mode => exact ⟨hid.trans h.1, hopened.trans h.2⟩
  | planning asked sid => exact ⟨same.holds h.1, hopened.trans h.2⟩
  | reconciling asked sid actions executed => exact ⟨same.holds h.1, hopened.trans h.2⟩
  | calling asked sid action value actions executed =>
    exact ⟨same.holds h.1, hopened.trans h.2⟩
  | ready asked sid => exact same.holds h

/-- Such a step keeps the invariant as soon as it ends where the ids fit. -/
theorem SessionInv.of_same (hw : w.SessionInv) (same : w.SameIds w') (hfits : w.Fits w'.opening) :
    w'.SessionInv where
  fits := same.fits hfits
  stored := by
    intro hmeta sid hsid
    rw [same.params] at hmeta
    rw [same.session.sessionId] at hsid
    exact same.latest.trans (hw.stored hmeta sid hsid)
  opened := by
    intro hopened
    rw [same.session.opened] at hopened
    obtain ⟨sid, hheld, hpromised⟩ := hw.opened hopened
    exact ⟨sid, same.holds hheld, same.promised.trans hpromised⟩
  unopened := by
    intro hopened
    rw [same.session.opened] at hopened
    exact same.promised.trans (hw.unopened hopened)
  agrees := by
    constructor
    · rw [same.returns]
      exact hw.agrees.returns
    · rw [same.uses]
      exact hw.agrees.uses

theorem SameIds.of_session {s : AcpSession} (h : w.session.SameSession s) (o : Opening)
    (c : Option ConfigCall) :
    w.SameIds { w with session := s, opening := o, configCall := c } :=
  ⟨rfl, h, rfl, rfl, rfl, rfl⟩

section

variable (hw : w.SessionInv)
include hw

/-- The CLI has opened or loaded a session, under the id asked for unless by a meta resume. -/
theorem SessionInv.sessionOpened (report : SessionReport) (hstored : w.session.sessionId = asked)
    (hopened : w.session.opened = false)
    (hasked : w.params.metadata.sessionLoadViaMetaField = false → asked.getD sid = sid) :
    (w.sessionOpened asked report sid).SessionInv := by
  have same := sameSession_applyReport w.session report
  have hid : (w.sessionOpened asked report sid).session.sessionId = some (asked.getD sid) := by
    change ((w.session.applyReport report).setSessionId sid).sessionId = _
    rw [sessionId_setSessionId, same.sessionId, hstored]
  have hclosed : (w.sessionOpened asked report sid).session.opened = false := by
    change ((w.session.applyReport report).setSessionId sid).opened = _
    rw [opened_setSessionId, same.opened, hopened]
  exact {
    fits := ⟨⟨hid, rfl⟩, hclosed⟩
    stored := by
      intro hmeta sid' hsid'
      rw [hid, hasked hmeta] at hsid'
      exact hsid'
    opened := fun h => (by rw [hclosed] at h; cases h)
    unopened := fun _ => hw.unopened hopened
    agrees := ⟨hw.agrees.returns, hw.agrees.uses⟩ }

theorem SessionInv.rebuild (hopened : w.session.opened = false) :
    w.rebuildAfterSessionNotFound.SessionInv where
  fits := ⟨rfl, rfl⟩
  stored := fun _ sid hsid => (by cases hsid)
  opened := fun h => (by cases h)
  unopened := fun _ => hw.unopened hopened
  agrees := ⟨hw.agrees.returns, hw.agrees.uses⟩

theorem SessionInv.close : { w with opening := .closed }.SessionInv :=
  hw.of_same (.of_session (.refl _) .closed w.configCall) trivial

theorem SessionInv.openSessionResume (hstored : w.session.sessionId = some sid)
    (hopened : w.session.opened = false) : (w.openSessionResume sid).SessionInv := by
  have move : ∀ o : Opening, w.Fits o → { w with opening := o }.SessionInv := fun o ho =>
    hw.of_same (.of_session (.refl _) o w.configCall) ho
  unfold SessionWorld.openSessionResume
  split
  · next hmeta => exact move (.resumeSession sid) ⟨hmeta, hstored, hopened⟩
  · next hmeta =>
    split
    · exact move _ ⟨hstored, hopened⟩
    · have hlatest := hw.stored (Bool.eq_false_iff.mpr hmeta) sid hstored
      have legacy : w.Fits (.planning (some sid) sid) := ⟨⟨hstored, hlatest⟩, hopened⟩
      rw [setSessionId_of_stored w.session hstored]
      exact move _ legacy

theorem SessionInv.ensureSessionOpened : w.ensureSessionOpened.SessionInv := by
  have move : ∀ o : Opening, w.Fits o → { w with opening := o }.SessionInv := fun o ho =>
    hw.of_same (.of_session (.refl _) o w.configCall) ho
  unfold SessionWorld.ensureSessionOpened
  split
  · cases hstored : w.session.sessionId with
    | none =>
      refine move .newSession ⟨hstored, Bool.eq_false_iff.mpr fun hopened => ?_⟩
      obtain ⟨sid, hheld, -⟩ := hw.opened hopened
      cases hheld.stored.symm.trans hstored
    | some sid =>
      simp only
      split
      · next hopened =>
        obtain ⟨sid', hheld, -⟩ := hw.opened hopened
        have hsid : sid' = sid := Option.some.inj (hheld.stored.symm.trans hstored)
        exact move (.ready none sid) (hsid ▸ hheld)
      · next hopened => exact hw.openSessionResume hstored (Bool.eq_false_iff.mpr hopened)
  · exact hw

theorem SessionInv.replyNewSession (reply : Except AcpError NewSessionResponse) :
    (w.replyNewSession reply).SessionInv := by
  unfold SessionWorld.replyNewSession
  have fits := hw.fits
  cases hopening : w.opening with
  | newSession =>
    rw [hopening] at fits
    cases reply with
    | error err => exact hw.close
    | ok response => exact hw.sessionOpened _ fits.1 fits.2 fun _ => rfl
  | resumeSession asked =>
    rw [hopening] at fits
    obtain ⟨hmeta, hstored, hopened⟩ := fits
    cases reply with
    | error err =>
      cases hmissing : isMissingResumedSession err asked with
      | true => simpa [hmissing] using hw.rebuild hopened
      | false => simpa [hmissing] using hw.close
    | ok response =>
      exact hw.sessionOpened _ hstored hopened fun h => (by rw [hmeta] at h; cases h)
  | _ => exact hw

theorem SessionInv.replyLoadSession (reply : Except AcpError SessionReport) :
    (w.replyLoadSession reply).SessionInv := by
  unfold SessionWorld.replyLoadSession
  have fits := hw.fits
  cases hopening : w.opening with
  | loadSession asked mode =>
    rw [hopening] at fits
    obtain ⟨hstored, hopened⟩ := fits
    cases reply with
    | error err =>
      cases hmissing : isAcpSessionNotFound err with
      | true => simpa [hmissing] using hw.rebuild hopened
      | false => simpa [hmissing] using hw.close
    | ok report => exact hw.sessionOpened _ hstored hopened fun _ => rfl
  | _ => exact hw

theorem SessionInv.planActions (order : IterOrder (String × String)) :
    (w.planActions order).SessionInv := by
  unfold SessionWorld.planActions
  have fits := hw.fits
  cases hopening : w.opening with
  | planning asked sid =>
    rw [hopening] at fits
    exact hw.of_same (.of_session (sameSession_prepared w) _ w.configCall) fits
  | _ => exact hw

theorem SessionInv.nextAction : w.nextAction.SessionInv := by
  unfold SessionWorld.nextAction
  have fits := hw.fits
  cases hopening : w.opening with
  | reconciling asked sid actions executed =>
    rw [hopening] at fits
    have ready : { w with opening := .ready asked sid }.SessionInv :=
      hw.of_same (.of_session (.refl _) _ w.configCall) fits.1
    cases actions with
    | nil => exact ready
    | cons action actions =>
      simp only
      split
      · exact ready
      · split
        · exact hw.of_same (.of_session (.refl _) _ w.configCall) fits
        · exact hw.of_same (.of_session (sameSession_keepResolved w action) _ w.configCall) fits
  | _ => exact hw

theorem SessionInv.replyToAction (reply : Except AcpError (List SessionConfigOption))
    (order : IterOrder (String × String)) :
    (w.replyToAction reply order).SessionInv := by
  unfold SessionWorld.replyToAction
  have fits := hw.fits
  cases hopening : w.opening with
  | calling asked sid action value actions executed =>
    rw [hopening] at fits
    have go_on : { w with opening := .reconciling asked sid actions executed }.SessionInv :=
      hw.of_same (.of_session (.refl _) _ w.configCall) fits
    cases reply with
    | error err =>
      cases hmissing : isAcpSessionNotFound err with
      | true =>
        cases asked with
        | none => simpa [hmissing] using hw.close
        | some asked => simpa [hmissing] using hw.rebuild fits.2
      | false => simpa [hmissing] using go_on
    | ok options =>
      cases action with
      | setConfigOption key value =>
        have applied := AcpSession.sameSession_applyAdvertisedConfigOptions (s := w.session) options
        have same := applied.trans
          (sameSession_prepared { w with session := w.session.applyAdvertisedConfigOptions options })
        exact hw.of_same (.of_session same _ w.configCall) fits
      | _ => exact go_on
  | _ => exact hw

theorem SessionInv.markOpened (hkeeps : w.KeepsAskedId .mark) :
    w.markOpened.SessionInv := by
  unfold SessionWorld.markOpened
  cases hopening : w.opening with
  | ready asked sid =>
    have held : w.Holds asked sid := by
      have fits := hw.fits
      rw [hopening] at fits
      exact fits
    simp only
    split
    · next hconnected =>
      have hasked : asked.getD sid = sid := by
        cases asked with
        | none => rfl
        | some asked =>
          unfold KeepsAskedId at hkeeps
          simp only [hopening] at hkeeps
          exact (hkeeps hconnected).symm
      have hstored : w.session.sessionId = some sid := hasked ▸ held.stored
      have again : ∀ sid', w.promised = some sid' → sid = sid' := by
        intro sid' hpromised
        cases hopened : w.session.opened with
        | false => cases (hw.unopened hopened).symm.trans hpromised
        | true =>
          obtain ⟨sid'', hheld, hp⟩ := hw.opened hopened
          have hsame : some sid = some sid' :=
            (hstored.symm.trans hheld.stored).trans (hp.symm.trans hpromised)
          exact Option.some.inj hsame
      have marked : OpenReturn.Agrees ⟨sid, w.latest, w.session.sessionId, true, w.promised⟩ :=
        ⟨held.latest, hstored, rfl, again⟩
      exact {
        fits := trivial
        stored := fun _ sid' hsid' =>
          held.latest.trans (hstored.symm.trans hsid')
        opened := fun _ => ⟨sid, ⟨hstored, held.latest⟩, rfl⟩
        unopened := fun h => (by cases h)
        agrees := by
          refine ⟨fun r hr => ?_, hw.agrees.uses⟩
          obtain hr | hr := List.mem_append.mp hr
          · exact hw.agrees.returns r hr
          · rw [List.mem_singleton.mp hr]
            exact marked }
    · exact hw.close
  | _ => exact hw

/-- What is returned for a resumed session shows whether the id was kept. -/
theorem keepsAskedId_of_agrees (h : w.markOpened.UsesOpenedSession) :
    w.KeepsAskedId .mark := by
  unfold KeepsAskedId
  cases hopening : w.opening with
  | ready asked sid =>
    cases asked with
    | none => trivial
    | some asked =>
      simp only
      intro hconnected
      have held : w.Holds (some asked) sid := by
        have fits := hw.fits
        rw [hopening] at fits
        exact fits
      have returned : ⟨sid, w.latest, w.session.sessionId, true, w.promised⟩ ∈
          w.markOpened.returns := by
        unfold SessionWorld.markOpened
        simp [hopening, hconnected]
      have hstored := (h.returns _ returned).stored
      exact Option.some.inj (hstored.symm.trans held.stored)
  | _ => trivial

theorem SessionInv.use {sid : Option String} (h : w.session.sessionId = sid) :
    (w.use sid).SessionInv where
  fits := by
    have same : ∀ o, w.Fits o → (w.use sid).Fits o := by
      intro o ho
      cases o with
      | planning => exact ⟨⟨ho.1.stored, ho.1.latest⟩, ho.2⟩
      | reconciling => exact ⟨⟨ho.1.stored, ho.1.latest⟩, ho.2⟩
      | calling => exact ⟨⟨ho.1.stored, ho.1.latest⟩, ho.2⟩
      | ready => exact ⟨ho.stored, ho.latest⟩
      | _ => exact ho
    exact same _ hw.fits
  stored := hw.stored
  opened := by
    intro hopened
    obtain ⟨sid, hheld, hpromised⟩ := hw.opened hopened
    exact ⟨sid, ⟨hheld.stored, hheld.latest⟩, hpromised⟩
  unopened := hw.unopened
  agrees := by
    refine ⟨hw.agrees.returns, fun u hu => ?_⟩
    obtain hu | hu := List.mem_append.mp hu
    · exact hw.agrees.uses u hu
    · rw [List.mem_singleton.mp hu]
      intro sid' hpromised
      cases hopened : w.session.opened with
      | false => cases (hw.unopened hopened).symm.trans hpromised
      | true =>
        obtain ⟨sid'', hheld, hp⟩ := hw.opened hopened
        have hsame : sid'' = sid' := Option.some.inj (hp.symm.trans hpromised)
        exact h.symm.trans (hsame ▸ hheld.stored)

theorem SessionInv.setConfigOption (optionId value : String) :
    (w.setConfigOption optionId value).SessionInv := by
  unfold SessionWorld.setConfigOption
  simp only
  split
  · exact hw
  · split
    · next path sid hpath hsid =>
      have used := hw.use hsid
      exact used.of_same ⟨rfl, ⟨rfl, rfl⟩, rfl, rfl, rfl, rfl⟩ used.fits
    · exact hw

theorem SessionInv.endConfigSet : w.endConfigSet.SessionInv :=
  hw.of_same ⟨rfl, ⟨rfl, rfl⟩, rfl, rfl, rfl, rfl⟩ hw.fits

theorem SessionInv.withSession {s : AcpSession} (same : w.session.SameSession s) :
    { w with session := s }.SessionInv :=
  hw.of_same (.of_session same w.opening w.configCall) hw.fits

theorem SessionInv.replyConfigOption (reply : Except AcpError (List SessionConfigOption)) :
    (w.replyConfigOption reply).SessionInv := by
  unfold SessionWorld.replyConfigOption
  split
  · exact hw
  · next call hcall =>
    cases reply with
    | error err => exact hw.endConfigSet
    | ok options =>
      simp only
      split
      · exact hw.endConfigSet
      · split
        · have same := AcpSession.sameSession_applyAdvertisedConfigOptions (s := w.session) options
          exact hw.of_same (.of_session same w.opening _) hw.fits
        · exact (hw.withSession (s := w.session.confirm .mode call.value) ⟨rfl, rfl⟩).endConfigSet
        · exact (hw.withSession (s := w.session.confirm .model call.value) ⟨rfl, rfl⟩).endConfigSet

theorem sessionInv_fire (step : SessionStep) (hkeeps : w.KeepsAskedId step) :
    (w.fire step).SessionInv := by
  cases step with
  | ensure => exact hw.ensureSessionOpened
  | replyNew reply => exact hw.replyNewSession reply
  | replyLoad reply => exact hw.replyLoadSession reply
  | plan order => exact hw.planActions order
  | next => exact hw.nextAction
  | replyAction reply order => exact hw.replyToAction reply order
  | mark => exact hw.markOpened hkeeps
  | abandon => exact hw.close
  | connection up =>
    have same : w.SameIds { w with connected := up } := ⟨rfl, .refl _, rfl, rfl, rfl, rfl⟩
    exact hw.of_same same hw.fits
  | notify notice => exact hw.withSession (sameSession_applyNotice w.session notice)
  | setConfigOption optionId value => exact hw.setConfigOption optionId value
  | replyConfig reply => exact hw.replyConfigOption reply
  | confirmConfig timedOut => exact hw.endConfigSet
  | cancel => exact hw.use rfl

end

end Invariant

section

variable (params : AcpSessionParams)
include params

theorem sameSession_seedPreference (s : AcpSession) (category : SessionConfigOptionCategory)
    (preference : Option String) :
    s.SameSession (params.seedPreference s category preference) := by
  unfold AcpSessionParams.seedPreference
  split
  · exact .refl s
  · split
    · exact .refl s
    · exact AcpSession.sameSession_seedPendingStartupConfig _ _

/-- A session that was built has no id yet and is not opened. -/
theorem sameSession_session (loadSession : Bool) :
    (AcpSession.new ⟨params.initialMode, params.initialModel⟩ params.initialConfig).SameSession
      (params.session loadSession) := by
  let new := AcpSession.new ⟨params.initialMode, params.initialModel⟩ params.initialConfig
  have catalogs : new.SameSession (new.preloadAdvertisedCatalogs params.metadata.handshake) :=
    AcpSession.sameSession_preloadAdvertisedCatalogs _
  have seeds : new.SameSession (params.seedStartupConfigPreferences
      (new.preloadAdvertisedCatalogs params.metadata.handshake)) :=
    ((catalogs.trans (sameSession_seedPreference params _ _ _)).trans
      (sameSession_seedPreference params _ _ _)).trans (sameSession_seedPreference params _ _ _)
  unfold AcpSessionParams.session
  cases params.sessionSnapshot with
  | none => exact seeds.trans ⟨rfl, rfl⟩
  | some state =>
    exact (seeds.trans (AcpSession.sameSession_preloadPersisted state)).trans ⟨rfl, rfl⟩

theorem sessionId_build (loadSession : Bool) (persisted : Option String) :
    (build params loadSession persisted).session.sessionId = persisted := by
  have hid : (params.session loadSession).sessionId = none :=
    (sameSession_session params loadSession).sessionId
  cases persisted with
  | none => exact hid
  | some sid =>
    change ((params.session loadSession).setSessionId sid).sessionId = some sid
    rw [sessionId_setSessionId, hid]
    rfl

theorem sessionInv_build (loadSession : Bool) (persisted : Option String) :
    (build params loadSession persisted).SessionInv := by
  have new := sameSession_session params loadSession
  have hopened : (build params loadSession persisted).session.opened = false := by
    cases persisted with
    | none => exact new.opened
    | some sid => exact (opened_setSessionId _ sid).trans new.opened
  exact {
    fits := trivial
    stored := fun _ sid hsid => (sessionId_build params loadSession persisted).symm.trans hsid
    opened := fun h => (by rw [hopened] at h; cases h)
    unopened := fun _ => rfl
    agrees := ⟨fun r hr => (by cases hr), fun u hu => (by cases hu)⟩ }

end

theorem reachable_sessionInv {w : SessionWorld}
    (h : (sessionMachine.restrict KeepsAskedId).Reachable w) : w.SessionInv := by
  refine h.invariant (M := sessionMachine.restrict KeepsAskedId) (P := SessionInv) ?_
    fun w step hw hstep => sessionInv_fire hw step hstep.2
  rintro w ⟨params, loadSession, persisted, rfl⟩
  exact sessionInv_build params loadSession persisted

/-- As long as resumed sessions keep their id, every id returned or used is that of the session
opened or loaded last; the first that does not keep it is returned under another id than is used. -/
theorem uses_opened_session {w : SessionWorld}
    (h : (sessionMachine.restrict KeepsAskedId).Reachable w) :
    w.UsesOpenedSession ∧
      ∀ step, w.admits step → ((w.fire step).UsesOpenedSession ↔ w.KeepsAskedId step) := by
  have hw := reachable_sessionInv h
  refine ⟨hw.agrees, fun step _ => ⟨fun hagrees => ?_, fun hkeeps => ?_⟩⟩
  · cases step with
    | mark => exact keepsAskedId_of_agrees hw hagrees
    | _ => trivial
  · exact (sessionInv_fire hw step hkeeps).agrees

section Execution

instance decidableAdmits : ∀ (w : SessionWorld) (step : SessionStep),
    Decidable (sessionMachine.admits w step) := by
  intro w step
  cases step with
  | ensure => exact inferInstanceAs (Decidable (w.opening = .closed))
  | replyConfig reply =>
    refine decidable_of_iff ((w.configCall.any fun call => call.acked = false) = true) ?_
    simp [sessionMachine, SessionWorld.admits, Option.any_eq_true]
  | confirmConfig timedOut =>
    refine decidable_of_iff ((w.configCall.any fun call => call.acked = true ∧ (timedOut = true ∨
      ConfigSnapshot.observedMatches w.session.configSnapshot call.optionId call.value = true)) =
        true) ?_
    simp [sessionMachine, SessionWorld.admits, Option.any_eq_true]
  | _ => exact .isTrue trivial

instance decidableKeepsAskedId : ∀ (w : SessionWorld) (step : SessionStep),
    Decidable (w.KeepsAskedId step) := by
  intro w step
  cases step with
  | mark =>
    refine decidable_of_iff ((match w.opening with
      | .ready (some asked) sid => !w.connected || sid = asked
      | _ => true) = true) ?_
    unfold KeepsAskedId
    split
    · simp [Bool.or_eq_true, or_iff_not_imp_left]
    · simp
  | _ => exact .isTrue trivial

def metaResumeParams : AcpSessionParams :=
  { metadata := ⟨some "claude", none, true, ⟨none, none⟩⟩, sessionMode := none
    currentModelId := none, thoughtLevel := none, sessionSnapshot := none }

def resumedAs (sid : String) : List SessionStep :=
  [.ensure, .replyNew (.ok ⟨⟨none, none, none⟩, sid⟩), .plan .stored, .next, .mark]

/-- The CLI gives the session a new id: that one is returned, the old one is used. -/
theorem resumed_session_renamed :
    ¬∀ w, sessionMachine.Reachable w → w.UsesOpenedSession := by
  intro h
  let w := sessionMachine.run (build metaResumeParams false (some "s1"))
    (resumedAs "s2" ++ [.cancel])
  have accepts : sessionMachine.Accepts (build metaResumeParams false (some "s1"))
      (resumedAs "s2" ++ [.cancel]) := by decide +kernel
  have hw := h w (Machine.reachable_run ⟨_, _, _, rfl⟩ accepts)
  have returned : ⟨"s2", some "s2", some "s1", true, none⟩ ∈ w.returns := by decide +kernel
  exact absurd (hw.returns _ returned).stored (by decide)

theorem uses_opened_session_resumed :
    let w := sessionMachine.run (build metaResumeParams false (some "s1"))
      (resumedAs "s1" ++ [.cancel])
    w.UsesOpenedSession ∧
      ∀ step, w.admits step → ((w.fire step).UsesOpenedSession ↔ w.KeepsAskedId step) := by
  intro w
  have accepts : (sessionMachine.restrict KeepsAskedId).Accepts
      (build metaResumeParams false (some "s1")) (resumedAs "s1" ++ [.cancel]) := by
    decide +kernel
  have reachable : (sessionMachine.restrict KeepsAskedId).Reachable w :=
    Machine.reachable_run ⟨_, _, _, rfl⟩ accepts
  exact uses_opened_session reachable

end Execution

end SessionWorld

end AionCore.Agent
