import AionCore.Agent.AcpSessionIds

/-!
# ACP sessions: the first prompt

A session that was opened by session/new gets the preset context and the skills of its assistant
with the first prompt. The flag that asks for them is set with the session and taken when a prompt
is prepared by `ensure_session_and_send`; it is not persisted.
-/

namespace AionCore.Agent

structure SkillIndex where
  name : String
  description : String
  deriving DecidableEq

structure InjectionConfig where
  presetContext : Option String
  skills : List String
  nativeSkillSupport : Bool
  deriving DecidableEq

/-- `discover_by_names`, if the skills with the names that there are were `found`. -/
def discoverByNames (names : List String) (found : List SkillIndex) : List SkillIndex :=
  if names = [] then [] else found

def buildSkillsIndexText (skills : List SkillIndex) : String :=
  if skills = [] then ""
  else
    "\n".intercalate (["## Available Skills", "",
      "To load a skill, include `[LOAD_SKILL: skill-name]` in your response.", ""] ++
      skills.map fun skill => "- **" ++ skill.name ++ "**: " ++ skill.description)

def prepareFirstMessageWithSkillsIndex (content : String) (skills : List SkillIndex)
    (presetContext : Option String) : String :=
  let indexText := buildSkillsIndexText skills
  let rules :=
    if indexText ≠ "" || presetContext.isSome then
      ["[Assistant Rules]"] ++ (presetContext.filter (· ≠ "")).toList ++
        (if indexText ≠ "" then [indexText] else []) ++ ["[/Assistant Rules]", ""]
    else []
  "\n".intercalate (rules ++ [content])

/-- A CLI that reads the skills itself gets the preset context only. -/
def injectFirstMessagePrefix (content : String) (found : List SkillIndex)
    (config : InjectionConfig) : String :=
  if config.nativeSkillSupport then
    match config.presetContext.filter (· ≠ "") with
    | some context => "[Assistant Rules]\n" ++ context ++ "\n[/Assistant Rules]\n\n" ++ content
    | none => content
  else
    let skills := discoverByNames config.skills found
    if skills = [] && (config.presetContext.filter (· ≠ "")).isNone then content
    else prepareFirstMessageWithSkillsIndex content skills config.presetContext

/-- A prompt that is sent to a session: what the user wrote, the assistant's configuration and the
skills that were found then, and the content; `prelude` if the hook has taken the flag for it. -/
structure SentPrompt where
  sid : String
  raw : String
  config : InjectionConfig
  found : List SkillIndex
  content : String
  prelude : Bool
  deriving DecidableEq

def SentPrompt.injected (p : SentPrompt) : String := injectFirstMessagePrefix p.raw p.found p.config

/-- A conversation with its process: the session, the flag, and the prompts that the CLI has not
answered. As history, the sessions created by session/new without resume, and the prompts that the
CLI has accepted. -/
structure PreludeWorld where
  config : InjectionConfig
  session : SessionWorld
  pendingSessionNewPrelude : Bool
  prompts : List SentPrompt
  created : List String
  accepted : List SentPrompt

/-- The session goes on; a prompt is prepared with the id that an opening has returned, and the CLI
accepts it, or it fails; and the process is started anew with a persisted id. -/
inductive PreludeStep where
  | session (step : SessionStep)
  | prepare (sid content : String) (found : List SkillIndex)
  | accept (p : SentPrompt)
  | fail (p : SentPrompt)
  | restart (config : InjectionConfig) (params : AcpSessionParams) (loadSession : Bool)
      (persisted : Option String)

namespace PreludeWorld

def boot (config : InjectionConfig) (params : AcpSessionParams) (loadSession : Bool)
    (persisted : Option String) : PreludeWorld :=
  { config := config, session := .build params loadSession persisted
    pendingSessionNewPrelude := false, prompts := [], created := [], accepted := [] }

/-- The id of the session that `open_session_new` is given in this step. -/
def newSession (w : PreludeWorld) (step : SessionStep) : Option String :=
  match w.session.opening, step with
  | .newSession, .replyNew (.ok response) => some response.sessionId
  | _, _ => none

/-- The hook takes the flag, and the prompt is on its way to the CLI. -/
def prepare (w : PreludeWorld) (sid content : String) (found : List SkillIndex) : PreludeWorld :=
  { w with
    pendingSessionNewPrelude := false
    prompts := w.prompts ++ [{
      sid := sid, raw := content, config := w.config, found := found
      content :=
        if w.pendingSessionNewPrelude then injectFirstMessagePrefix content found w.config
        else content
      prelude := w.pendingSessionNewPrelude }] }

def fire (w : PreludeWorld) : PreludeStep → PreludeWorld
  | .session step =>
    { w with
      session := w.session.fire step
      pendingSessionNewPrelude := w.pendingSessionNewPrelude || (w.newSession step).isSome
      created := w.created ++ (w.newSession step).toList }
  | .prepare sid content found => w.prepare sid content found
  | .accept p => { w with prompts := w.prompts.erase p, accepted := w.accepted ++ [p] }
  | .fail p => { w with prompts := w.prompts.erase p }
  | .restart config params loadSession persisted =>
    { w with
      config := config
      session := .build params loadSession persisted
      pendingSessionNewPrelude := false
      prompts := [] }

def FreshSession (w : PreludeWorld) (id : String) : Prop :=
  id ∉ w.created ∧ ∀ p ∈ w.accepted ++ w.prompts, p.sid ≠ id

/-- A session that is created has an id of its own. -/
def machine : Machine PreludeWorld PreludeStep where
  start w := ∃ config params loadSession persisted, w = boot config params loadSession persisted
  admits w
    | .session step =>
      sessionMachine.admits w.session step ∧ ∀ id ∈ w.newSession step, w.FreshSession id
    | .prepare sid _ _ => ∃ r ∈ w.session.returns, r.sid = sid
    | .accept p | .fail p => p ∈ w.prompts
    | .restart _ _ _ _ => True
  fire := fire

def promptsOf (w : PreludeWorld) (sid : String) : List SentPrompt :=
  w.accepted.filter fun p => decide (p.sid = sid)

/-- In each session created by session/new, the first prompt that is accepted has the prelude, and
no other has it. -/
def PreludeOnce (w : PreludeWorld) : Prop :=
  ∀ sid ∈ w.created, ∀ p rest, w.promptsOf sid = p :: rest →
    p.content = p.injected ∧ ∀ q ∈ rest, q.content = q.raw

/-- A prompt is prepared while none of its session with the prelude waits for its answer, and for
the session that the aggregate holds, or one with no claim to the prelude; a prompt with the prelude
does not fail; and a restart restores no session that has accepted no prompt. -/
def Delivers (w : PreludeWorld) : PreludeStep → Prop
  | .prepare sid _ _ => (∀ p ∈ w.prompts, p.sid = sid → p.prelude = false) ∧
      (w.session.session.sessionId = some sid ∨
        w.pendingSessionNewPrelude = false ∧ (sid ∈ w.created → w.promptsOf sid ≠ []))
  | .fail p => p.prelude = false
  | .restart _ _ _ persisted => ∀ sid ∈ persisted, sid ∈ w.created → w.promptsOf sid ≠ []
  | _ => True

instance (w : PreludeWorld) (id : String) : Decidable (w.FreshSession id) :=
  inferInstanceAs (Decidable (id ∉ w.created ∧ ∀ p ∈ w.accepted ++ w.prompts, p.sid ≠ id))

instance decidableAdmits : ∀ (w : PreludeWorld) step, Decidable (machine.admits w step) := by
  intro w step
  cases step with
  | session step =>
    have := SessionWorld.decidableAdmits w.session step
    exact inferInstanceAs (Decidable (_ ∧ ∀ id ∈ w.newSession step, w.FreshSession id))
  | prepare sid content found =>
    exact inferInstanceAs (Decidable (∃ r ∈ w.session.returns, r.sid = sid))
  | accept p => exact inferInstanceAs (Decidable (p ∈ w.prompts))
  | fail p => exact inferInstanceAs (Decidable (p ∈ w.prompts))
  | restart => exact .isTrue trivial

instance decidableDelivers : ∀ (w : PreludeWorld) step, Decidable (w.Delivers step) := by
  intro w step
  cases step <;> (simp only [Delivers]; infer_instance)

end PreludeWorld

namespace SessionWorld

variable {w w' : SessionWorld}

def AwaitsUnder (w : SessionWorld) : Opening → Prop
  | .newSession => w.session.sessionId = none
  | .resumeSession asked | .loadSession asked _ => w.session.sessionId = some asked
  | _ => True

/-- An id that the aggregate holds afterwards is that of the session that was `created`, or it was
held before. -/
structure Succeeds (w w' : SessionWorld) (created : Option String) : Prop where
  awaits : w'.AwaitsUnder w'.opening
  origin : ∀ sid, w'.session.sessionId = some sid →
    created = some sid ∨ created = none ∧ w.session.sessionId = some sid

theorem Succeeds.of_id (hid : w'.session.sessionId = w.session.sessionId)
    (h : w.AwaitsUnder w'.opening) : w.Succeeds w' none where
  awaits := by
    cases ho : w'.opening with
    | newSession => rw [ho] at h; exact hid.trans h
    | resumeSession asked => rw [ho] at h; exact hid.trans h
    | loadSession asked mode => rw [ho] at h; exact hid.trans h
    | _ => trivial
  origin sid hsid := .inr ⟨rfl, hid.symm.trans hsid⟩

theorem Succeeds.rebuild (w : SessionWorld) :
    w.Succeeds w.rebuildAfterSessionNotFound none where
  awaits := rfl
  origin sid hsid := by cases hsid

/-- A session that was asked for is opened or loaded: the aggregate keeps its id. -/
theorem Succeeds.resumed {asked : String} (h : w.session.sessionId = some asked)
    (report : SessionReport) (sid : String) :
    w.Succeeds (w.sessionOpened (some asked) report sid) none := by
  have same := sameSession_applyReport w.session report
  have hkept : (w.session.applyReport report).setSessionId sid = w.session.applyReport report :=
    setSessionId_of_stored _ (same.sessionId.trans h)
  refine .of_id ?_ trivial
  show ((w.session.applyReport report).setSessionId sid).sessionId = w.session.sessionId
  rw [hkept]
  exact same.sessionId

section

variable (hw : w.AwaitsUnder w.opening)
include hw

theorem succeeds_ensureSessionOpened :
    w.Succeeds w.ensureSessionOpened none := by
  have move : ∀ o : Opening, w.AwaitsUnder o → w.Succeeds { w with opening := o } none :=
    fun o ho => .of_id rfl ho
  unfold SessionWorld.ensureSessionOpened
  split
  · cases hstored : w.session.sessionId with
    | none => exact move .newSession hstored
    | some sid =>
      simp only
      split
      · exact move _ trivial
      · unfold openSessionResume
        split
        · exact move (.resumeSession sid) hstored
        · split
          · exact move (.loadSession sid _) hstored
          · -- the legacy path: the id is kept, and no call is made
            rw [setSessionId_of_stored w.session hstored]
            exact move _ trivial
  · exact .of_id rfl hw

theorem succeeds_replyLoadSession (reply : Except AcpError SessionReport) :
    w.Succeeds (w.replyLoadSession reply) none := by
  unfold SessionWorld.replyLoadSession
  cases hopening : w.opening with
  | loadSession asked mode =>
    have hstored : w.session.sessionId = some asked := by
      rw [hopening] at hw
      exact hw
    cases reply with
    | error err =>
      simp only
      split
      · exact .rebuild w
      · exact .of_id rfl trivial
    | ok report => exact .resumed hstored _ asked
  | _ => exact .of_id rfl (by rw [hopening] at hw ⊢; exact hw)

theorem succeeds_planActions (order : IterOrder (String × String)) :
    w.Succeeds (w.planActions order) none := by
  unfold SessionWorld.planActions
  split
  · exact .of_id (sameSession_prepared w).sessionId trivial
  · exact .of_id rfl hw

theorem succeeds_nextAction : w.Succeeds w.nextAction none := by
  unfold SessionWorld.nextAction
  split
  · exact .of_id rfl trivial
  · split
    · exact .of_id rfl trivial
    · split
      · exact .of_id rfl trivial
      · exact .of_id (sameSession_keepResolved w _).sessionId trivial
  · exact .of_id rfl hw

theorem succeeds_replyToAction (reply : Except AcpError (List SessionConfigOption))
    (order : IterOrder (String × String)) :
    w.Succeeds (w.replyToAction reply order) none := by
  have go_on : ∀ asked sid actions executed,
      w.Succeeds { w with opening := .reconciling asked sid actions executed } none :=
    fun asked sid actions executed => .of_id rfl trivial
  unfold SessionWorld.replyToAction
  split
  · next asked sid action value actions executed hopening =>
    cases reply with
    | error err =>
      simp only
      split
      · cases asked with
        | none => exact .of_id rfl trivial
        | some asked => exact .rebuild w
      · exact go_on asked sid actions executed
    | ok options =>
      cases action with
      | setConfigOption key value =>
        have applied := AcpSession.sameSession_applyAdvertisedConfigOptions (s := w.session) options
        have same := applied.trans (sameSession_prepared { w with
          session := w.session.applyAdvertisedConfigOptions options })
        exact .of_id same.sessionId trivial
      | _ => exact go_on asked sid actions executed
  · exact .of_id rfl hw

theorem succeeds_markOpened : w.Succeeds w.markOpened none := by
  unfold SessionWorld.markOpened
  split
  · split
    · exact .of_id rfl trivial
    · exact .of_id rfl trivial
  · exact .of_id rfl hw

theorem succeeds_setConfigOption (optionId value : String) :
    w.Succeeds (w.setConfigOption optionId value) none := by
  unfold SessionWorld.setConfigOption
  simp only
  split
  · exact .of_id rfl hw
  · split
    · exact .of_id rfl hw
    · exact .of_id rfl hw

theorem succeeds_replyConfigOption (reply : Except AcpError (List SessionConfigOption)) :
    w.Succeeds (w.replyConfigOption reply) none := by
  unfold SessionWorld.replyConfigOption
  split
  · exact .of_id rfl hw
  · next call hcall =>
    cases reply with
    | error err => exact .of_id rfl hw
    | ok options =>
      have same := AcpSession.sameSession_applyAdvertisedConfigOptions (s := w.session) options
      simp only
      split
      · exact .of_id rfl hw
      · split
        · exact .of_id same.sessionId hw
        · exact .of_id rfl hw
        · exact .of_id rfl hw

/-- Only the answer to session/new gives the aggregate another id. -/
theorem succeeds_fire_other {step : SessionStep} (hstep : ∀ reply, step ≠ .replyNew reply) :
    w.Succeeds (w.fire step) none := by
  cases step with
  | ensure => exact succeeds_ensureSessionOpened hw
  | replyNew reply => exact absurd rfl (hstep reply)
  | replyLoad reply => exact succeeds_replyLoadSession hw reply
  | plan order => exact succeeds_planActions hw order
  | next => exact succeeds_nextAction hw
  | replyAction reply order => exact succeeds_replyToAction hw reply order
  | mark => exact succeeds_markOpened hw
  | abandon => exact .of_id rfl trivial
  | connection up => exact .of_id rfl hw
  | notify notice => exact .of_id (sameSession_applyNotice w.session notice).sessionId hw
  | setConfigOption optionId value => exact succeeds_setConfigOption hw optionId value
  | replyConfig reply => exact succeeds_replyConfigOption hw reply
  | confirmConfig timedOut => exact .of_id rfl hw
  | cancel => exact .of_id rfl hw

end

end SessionWorld

namespace PreludeWorld

open SessionWorld (Succeeds)

variable {w : PreludeWorld}

theorem succeeds_replyNewSession (hw : w.session.AwaitsUnder w.session.opening)
    (reply : Except AcpError NewSessionResponse) :
    w.session.Succeeds (w.session.replyNewSession reply) (w.newSession (.replyNew reply)) := by
  unfold SessionWorld.replyNewSession newSession
  cases hopening : w.session.opening with
  | newSession =>
    have hnone : w.session.session.sessionId = none := by
      rw [hopening] at hw
      exact hw
    cases reply with
    | error err => exact .of_id rfl trivial
    | ok response =>
      -- the aggregate holds no id, so it takes the one of the response
      have hid : ((w.session.session.applyReport response.toSessionReport).setSessionId
          response.sessionId).sessionId = some response.sessionId := by
        have same := SessionWorld.sameSession_applyReport w.session.session response.toSessionReport
        rw [SessionWorld.sessionId_setSessionId, same.sessionId, hnone]
        rfl
      exact ⟨trivial, fun sid hsid => .inl (hid.symm.trans hsid)⟩
  | resumeSession asked =>
    have hstored : w.session.session.sessionId = some asked := by
      rw [hopening] at hw
      exact hw
    cases reply with
    | error err =>
      simp only
      split
      · exact .rebuild w.session
      · exact .of_id rfl trivial
    | ok response => exact .resumed hstored _ response.sessionId
  | _ => exact .of_id rfl (by rw [hopening] at hw ⊢; exact hw)

theorem succeeds_fire (hw : w.session.AwaitsUnder w.session.opening) (step : SessionStep) :
    w.session.Succeeds (w.session.fire step) (w.newSession step) := by
  by_cases hreply : ∃ reply, step = .replyNew reply
  · obtain ⟨reply, rfl⟩ := hreply
    exact succeeds_replyNewSession hw reply
  · have hnone : w.newSession step = none := by
      unfold newSession
      split
      · exact absurd ⟨_, rfl⟩ hreply
      · rfl
    rw [hnone]
    exact SessionWorld.succeeds_fire_other hw fun reply h => hreply ⟨reply, h⟩

end PreludeWorld

/-- What a session that was created has been sent: nothing; its first prompt, with the prelude; or,
once that one was accepted, prompts without it. -/
inductive PreludePhase : (waiting accepted : List SentPrompt) → Prop where
  | unsent : PreludePhase [] []
  | sent {p : SentPrompt} (hp : p.prelude = true) : PreludePhase [p] []
  | given {waiting rest : List SentPrompt} {first : SentPrompt} (hfirst : first.prelude = true)
      (hothers : ∀ q ∈ rest ++ waiting, q.prelude = false) : PreludePhase waiting (first :: rest)

namespace PreludePhase

variable {waiting accepted : List SentPrompt} {p : SentPrompt}

section

variable (h : PreludePhase waiting accepted)
include h

/-- A prompt without the prelude follows the first one. -/
theorem prepare (haccepted : accepted ≠ []) (hp : p.prelude = false) :
    PreludePhase (waiting ++ [p]) accepted := by
  cases h with
  | unsent => exact absurd rfl haccepted
  | sent hq => exact absurd rfl haccepted
  | given hfirst hothers =>
    refine .given hfirst fun q hq => ?_
    rw [← List.append_assoc] at hq
    obtain hq | hq := List.mem_append.mp hq
    · exact hothers q hq
    · rw [List.mem_singleton.mp hq]
      exact hp

theorem accept (hp : p ∈ waiting) :
    PreludePhase (waiting.erase p) (accepted ++ [p]) := by
  cases h with
  | unsent => cases hp
  | @sent first hfirst =>
    have hsame : p = first := List.mem_singleton.mp hp
    subst hsame
    rw [List.erase_cons_head]
    exact .given hfirst fun q hq => by cases hq
  | @given _ rest first hfirst hothers =>
    refine .given hfirst fun q hq => hothers q ?_
    obtain hq | hq := List.mem_append.mp hq
    · obtain hq | hq := List.mem_append.mp hq
      · exact List.mem_append_left _ hq
      · rw [List.mem_singleton.mp hq]
        exact List.mem_append_right _ hp
    · exact List.mem_append_right _ (List.mem_of_mem_erase hq)

theorem fail (hp : p ∈ waiting) (hplain : p.prelude = false) :
    PreludePhase (waiting.erase p) accepted := by
  cases h with
  | unsent => cases hp
  | sent hfirst =>
    rw [List.mem_singleton.mp hp, hfirst] at hplain
    cases hplain
  | given hfirst hothers =>
    refine .given hfirst fun q hq => hothers q ?_
    obtain hq | hq := List.mem_append.mp hq
    · exact List.mem_append_left _ hq
    · exact List.mem_append_right _ (List.mem_of_mem_erase hq)

theorem restart : PreludePhase [] accepted := by
  cases h with
  | unsent => exact .unsent
  | sent hp => exact .unsent
  | given hfirst hothers =>
    exact .given hfirst fun q hq => hothers q (by
      rw [List.append_nil] at hq
      exact List.mem_append_left _ hq)

theorem accepted_of_plain (hp : p ∈ waiting) (hplain : p.prelude = false) : accepted ≠ [] := by
  cases h with
  | unsent => cases hp
  | sent hfirst =>
    rw [List.mem_singleton.mp hp, hfirst] at hplain
    cases hplain
  | given hfirst hothers => exact List.cons_ne_nil _ _

theorem accepted_of_started (hstarted : waiting ≠ [] ∨ accepted ≠ [])
    (hplain : ∀ q ∈ waiting, q.prelude = false) :
    accepted ≠ [] := by
  obtain hwaiting | haccepted := hstarted
  · obtain ⟨q, hq⟩ := List.exists_mem_of_ne_nil waiting hwaiting
    exact h.accepted_of_plain hq (hplain q hq)
  · exact haccepted

end

end PreludePhase

namespace PreludeWorld

def waitingOf (w : PreludeWorld) (sid : String) : List SentPrompt :=
  w.prompts.filter fun p => decide (p.sid = sid)

def Holds (w : PreludeWorld) (sid : String) : Prop := w.session.session.sessionId = some sid

/-- The flag is set as long as the session that the aggregate holds was sent nothing. -/
structure PreludeInv (w : PreludeWorld) : Prop where
  awaits : w.session.AwaitsUnder w.session.opening
  phases : ∀ sid ∈ w.created, PreludePhase (w.waitingOf sid) (w.promptsOf sid)
  pending : ∀ sid, w.Holds sid → w.pendingSessionNewPrelude = true →
    sid ∈ w.created ∧ w.waitingOf sid = [] ∧ w.promptsOf sid = []
  taken : ∀ sid ∈ w.created, w.Holds sid → w.pendingSessionNewPrelude = false →
    w.waitingOf sid ≠ [] ∨ w.promptsOf sid ≠ []
  written : ∀ p ∈ w.accepted ++ w.prompts, p.content = if p.prelude then p.injected else p.raw

variable {w : PreludeWorld} {sid : String} {p : SentPrompt}

theorem FreshSession.waitingOf (h : w.FreshSession sid) : w.waitingOf sid = [] := by
  refine List.filter_eq_nil_iff.mpr fun p hp => ?_
  have hne := h.2 p (List.mem_append_right _ hp)
  simp [hne]

theorem FreshSession.promptsOf (h : w.FreshSession sid) : w.promptsOf sid = [] := by
  refine List.filter_eq_nil_iff.mpr fun p hp => ?_
  have hne := h.2 p (List.mem_append_left _ hp)
  simp [hne]

theorem preludeInv_session (hw : w.PreludeInv) (step : SessionStep)
    (hfresh : ∀ id ∈ w.newSession step, w.FreshSession id) :
    (w.fire (.session step)).PreludeInv := by
  obtain ⟨awaits, origin⟩ := succeeds_fire hw.awaits step
  cases hnew : w.newSession step with
  | none =>
    have hfire : w.fire (.session step) = { w with session := w.session.fire step } := by
      simp [fire, hnew]
    -- an id that is held now was held before
    have held : ∀ sid, (w.session.fire step).session.sessionId = some sid → w.Holds sid := by
      intro sid hsid
      obtain h | h := origin sid hsid
      · rw [hnew] at h
        cases h
      · exact h.2
    rw [hfire]
    exact {
      awaits := awaits
      phases := hw.phases
      pending := fun sid hsid => hw.pending sid (held sid hsid)
      taken := fun sid hmem hsid => hw.taken sid hmem (held sid hsid)
      written := hw.written }
  | some id =>
    have hfresh : w.FreshSession id := hfresh id hnew
    have hfire : w.fire (.session step) = { w with
        session := w.session.fire step
        pendingSessionNewPrelude := true
        created := w.created ++ [id] } := by
      simp [fire, hnew]
    rw [hfire]
    exact {
      awaits := awaits
      phases := by
        intro sid hsid
        obtain hsid | hsid := List.mem_append.mp hsid
        · exact hw.phases sid hsid
        · obtain rfl := List.mem_singleton.mp hsid
          show PreludePhase (w.waitingOf sid) (w.promptsOf sid)
          rw [hfresh.waitingOf, hfresh.promptsOf]
          exact .unsent
      pending := by
        intro sid hsid _
        obtain h | h := origin sid hsid
        · obtain rfl : id = sid := Option.some.inj (hnew.symm.trans h)
          exact ⟨List.mem_append_right _ (List.mem_singleton.mpr rfl), hfresh.waitingOf,
            hfresh.promptsOf⟩
        · cases hnew.symm.trans h.1
      taken := fun _ _ _ hflag => by cases hflag
      written := hw.written }

theorem preludeInv_prepare (hw : w.PreludeInv) (content : String) (found : List SkillIndex)
    (hdelivers : w.Delivers (.prepare sid content found)) :
    (w.prepare sid content found).PreludeInv := by
  obtain ⟨hplain, hsession⟩ := hdelivers
  have hwaiting : ∀ other, (w.prepare sid content found).waitingOf other =
      w.waitingOf other ++ if sid = other then [⟨sid, content, w.config, found,
        if w.pendingSessionNewPrelude then injectFirstMessagePrefix content found w.config
        else content, w.pendingSessionNewPrelude⟩] else [] := by
    intro other
    show (w.prompts ++ [_]).filter _ = _
    rw [List.filter_append, List.filter_singleton]
    by_cases hother : sid = other <;> simp [hother, PreludeWorld.waitingOf]
  exact {
    awaits := hw.awaits
    phases := by
      intro other hcreated
      rw [hwaiting]
      by_cases hother : sid = other
      · subst hother
        rw [if_pos rfl]
        show PreludePhase _ (w.promptsOf sid)
        cases hflag : w.pendingSessionNewPrelude with
        | true =>
          -- the flag is set, so the session is the one held and was sent nothing
          have hheld : w.Holds sid := by
            obtain h | h := hsession
            · exact h
            · rw [hflag] at h
              cases h.1
          obtain ⟨-, hwait, hnone⟩ := hw.pending sid hheld hflag
          rw [hwait, hnone]
          exact .sent rfl
        | false =>
          -- the flag was taken, and the prompt that has taken it is not waiting
          have haccepted : w.promptsOf sid ≠ [] := by
            obtain h | h := hsession
            · refine (hw.phases sid hcreated).accepted_of_started
                (hw.taken sid hcreated h hflag) fun q hq => ?_
              have hq := List.mem_filter.mp hq
              exact hplain q hq.1 (of_decide_eq_true hq.2)
            · exact h.2 hcreated
          exact (hw.phases sid hcreated).prepare haccepted rfl
      · rw [if_neg hother, List.append_nil]
        exact hw.phases other hcreated
    pending := fun _ _ hflag => by cases hflag
    taken := by
      intro other hcreated hheld _
      cases hflag : w.pendingSessionNewPrelude with
      | true =>
        have hsid : sid = other := by
          obtain h | h := hsession
          · exact Option.some.inj (h.symm.trans hheld)
          · rw [hflag] at h
            cases h.1
        left
        rw [hwaiting, if_pos hsid]
        exact List.append_ne_nil_of_right_ne_nil _ (List.cons_ne_nil _ _)
      | false =>
        obtain h | h := hw.taken other hcreated hheld hflag
        · left
          rw [hwaiting]
          exact List.append_ne_nil_of_left_ne_nil h _
        · exact .inr h
    written := by
      intro p hp
      have hp : p ∈ w.accepted ++ (w.prompts ++ [_]) := hp
      rw [← List.append_assoc] at hp
      obtain hp | hp := List.mem_append.mp hp
      · exact hw.written p hp
      · rw [List.mem_singleton.mp hp]
        rfl }

section Answers

variable (w)

theorem waitingOf_erase (p : SentPrompt) (sid : String) :
    { w with prompts := w.prompts.erase p }.waitingOf sid = (w.waitingOf sid).erase p :=
  List.erase_filter.symm

theorem waitingOf_erase_of_ne (h : p.sid ≠ sid) : (w.waitingOf sid).erase p = w.waitingOf sid := by
  apply List.erase_of_not_mem
  intro hp
  exact h (of_decide_eq_true (List.mem_filter.mp hp).2)

theorem mem_waitingOf (hp : p ∈ w.prompts) : p ∈ w.waitingOf p.sid :=
  List.mem_filter.mpr ⟨hp, decide_eq_true rfl⟩

end Answers

theorem promptsOf_accept (w : PreludeWorld) (p : SentPrompt) (sid : String) :
    (w.fire (.accept p)).promptsOf sid =
      w.promptsOf sid ++ if p.sid = sid then [p] else [] := by
  show (w.accepted ++ [p]).filter _ = _
  rw [List.filter_append, List.filter_singleton]
  by_cases hsid : p.sid = sid <;> simp [hsid, promptsOf]

theorem preludeInv_accept (hw : w.PreludeInv) (hp : p ∈ w.prompts) :
    (w.fire (.accept p)).PreludeInv := by
  have hwaiting : ∀ sid, (w.fire (.accept p)).waitingOf sid = (w.waitingOf sid).erase p :=
    w.waitingOf_erase p
  exact {
    awaits := hw.awaits
    phases := by
      intro sid hcreated
      rw [hwaiting, promptsOf_accept]
      by_cases hsid : p.sid = sid
      · subst hsid
        rw [if_pos rfl]
        exact (hw.phases p.sid hcreated).accept (w.mem_waitingOf hp)
      · rw [if_neg hsid, List.append_nil, waitingOf_erase_of_ne w hsid]
        exact hw.phases sid hcreated
    pending := by
      intro sid hheld hflag
      obtain ⟨hcreated, hwait, hnone⟩ := hw.pending sid hheld hflag
      -- nothing waits for the session that the flag is for
      have hsid : p.sid ≠ sid := by
        intro h
        have hmem := w.mem_waitingOf hp
        rw [h, hwait] at hmem
        cases hmem
      refine ⟨hcreated, ?_, ?_⟩
      · rw [hwaiting, waitingOf_erase_of_ne w hsid]
        exact hwait
      · rw [promptsOf_accept, if_neg hsid, List.append_nil]
        exact hnone
    taken := by
      intro sid hcreated hheld hflag
      rw [hwaiting, promptsOf_accept]
      by_cases hsid : p.sid = sid
      · right
        rw [if_pos hsid]
        exact List.append_ne_nil_of_right_ne_nil _ (List.cons_ne_nil _ _)
      · rw [if_neg hsid, List.append_nil, waitingOf_erase_of_ne w hsid]
        exact hw.taken sid hcreated hheld hflag
    written := by
      intro q hq
      obtain hq | hq := List.mem_append.mp hq
      · obtain hq | hq := List.mem_append.mp hq
        · exact hw.written q (List.mem_append_left _ hq)
        · rw [List.mem_singleton.mp hq]
          exact hw.written p (List.mem_append_right _ hp)
      · exact hw.written q (List.mem_append_right _ (List.mem_of_mem_erase hq)) }

theorem preludeInv_fail (hw : w.PreludeInv) (hp : p ∈ w.prompts) (hplain : p.prelude = false) :
    (w.fire (.fail p)).PreludeInv := by
  have hwaiting : ∀ sid, (w.fire (.fail p)).waitingOf sid = (w.waitingOf sid).erase p :=
    w.waitingOf_erase p
  exact {
    awaits := hw.awaits
    phases := by
      intro sid hcreated
      rw [hwaiting]
      by_cases hsid : p.sid = sid
      · subst hsid
        exact (hw.phases p.sid hcreated).fail (w.mem_waitingOf hp) hplain
      · rw [waitingOf_erase_of_ne w hsid]
        exact hw.phases sid hcreated
    pending := by
      intro sid hheld hflag
      obtain ⟨hcreated, hwait, hnone⟩ := hw.pending sid hheld hflag
      refine ⟨hcreated, ?_, hnone⟩
      rw [hwaiting, hwait]
      rfl
    taken := by
      intro sid hcreated hheld hflag
      have phase := hw.phases sid hcreated
      rw [hwaiting]
      by_cases hsid : p.sid = sid
      · subst hsid
        exact .inr (phase.accepted_of_plain (w.mem_waitingOf hp) hplain)
      · rw [waitingOf_erase_of_ne w hsid]
        exact hw.taken sid hcreated hheld hflag
    written := by
      intro q hq
      obtain hq | hq := List.mem_append.mp hq
      · exact hw.written q (List.mem_append_left _ hq)
      · exact hw.written q (List.mem_append_right _ (List.mem_of_mem_erase hq)) }

theorem preludeInv_restart (hw : w.PreludeInv) (config : InjectionConfig)
    (params : AcpSessionParams) (loadSession : Bool) (persisted : Option String)
    (hdelivers : w.Delivers (.restart config params loadSession persisted)) :
    (w.fire (.restart config params loadSession persisted)).PreludeInv where
  awaits := trivial
  phases sid hcreated := (hw.phases sid hcreated).restart
  pending _ _ hflag := by cases hflag
  taken sid hcreated hheld _ := by
    have hpersisted : persisted = some sid :=
      (SessionWorld.sessionId_build params loadSession persisted).symm.trans hheld
    exact .inr (hdelivers sid hpersisted hcreated)
  written p hp := by
    have hp : p ∈ w.accepted ++ [] := hp
    rw [List.append_nil] at hp
    exact hw.written p (List.mem_append_left _ hp)

theorem preludeInv_fire (hw : w.PreludeInv) (step : PreludeStep)
    (hadmits : machine.admits w step) (hdelivers : w.Delivers step) : (w.fire step).PreludeInv := by
  cases step with
  | session step => exact preludeInv_session hw step hadmits.2
  | prepare sid content found => exact preludeInv_prepare hw content found hdelivers
  | accept p => exact preludeInv_accept hw hadmits
  | fail p => exact preludeInv_fail hw hadmits hdelivers
  | restart config params loadSession persisted =>
    exact preludeInv_restart hw config params loadSession persisted hdelivers

theorem reachable_preludeInv (h : (machine.restrict Delivers).Reachable w) : w.PreludeInv := by
  refine h.invariant (M := machine.restrict Delivers) (P := PreludeInv) ?_
    fun w step hw hstep => preludeInv_fire hw step hstep.1 hstep.2
  rintro w ⟨config, params, loadSession, persisted, rfl⟩
  exact {
    awaits := trivial
    phases := fun sid hcreated => by cases hcreated
    pending := fun sid _ hflag => by cases hflag
    taken := fun sid hcreated => by cases hcreated
    written := fun p hp => by cases hp }

theorem PreludeInv.preludeOnce (hw : w.PreludeInv) : w.PreludeOnce := by
  intro sid hcreated p rest hprompts
  have written : ∀ q ∈ w.promptsOf sid,
      q.content = if q.prelude then q.injected else q.raw := fun q hq =>
    hw.written q (List.mem_append_left _ (List.mem_filter.mp hq).1)
  have phase := hw.phases sid hcreated
  rw [hprompts] at phase written
  generalize w.waitingOf sid = waiting at phase
  cases phase with
  | given hfirst hothers =>
    refine ⟨?_, fun q hq => ?_⟩
    · have h := written p List.mem_cons_self
      rwa [hfirst] at h
    · have h := written q (List.mem_cons_of_mem p hq)
      rwa [hothers q (List.mem_append_left _ hq)] at h

/-- As long as the flag is not lost, the first prompt that is accepted in a session created by
session/new has the prelude, and no other has it. -/
theorem prelude_given_once (h : (machine.restrict Delivers).Reachable w) : w.PreludeOnce :=
  (reachable_preludeInv h).preludeOnce

section Execution

def presetConfig : InjectionConfig :=
  { presetContext := some "Be brief.", skills := [], nativeSkillSupport := true }

def plainParams : AcpSessionParams :=
  { metadata := ⟨some "codex", none, false, ⟨none, none⟩⟩, sessionMode := none
    currentModelId := none, thoughtLevel := none, sessionSnapshot := none }

/-- A process without a session. -/
def newProcess : PreludeWorld := boot presetConfig plainParams true none

/-- A session is opened by session/new. -/
def openedNew : List PreludeStep :=
  [.session .ensure, .session (.replyNew (.ok ⟨⟨none, none, none⟩, "s1"⟩)),
    .session (.plan .stored), .session .next, .session .mark]

def plainPrompt (raw : String) : SentPrompt := ⟨"s1", raw, presetConfig, [], raw, false⟩

def preludePrompt (raw : String) : SentPrompt :=
  ⟨"s1", raw, presetConfig, [], "[Assistant Rules]\nBe brief.\n[/Assistant Rules]\n\n" ++ raw, true⟩

/-- The first prompt fails after its hook has taken the flag: the next one has no prelude. -/
theorem failed_prompt_loses_prelude : ¬∀ w, machine.Reachable w → w.PreludeOnce := by
  intro h
  let steps := openedNew ++ [.prepare "s1" "hi" [], .fail (preludePrompt "hi"),
    .prepare "s1" "hi again" [], .accept (plainPrompt "hi again")]
  have accepts : machine.Accepts newProcess steps := by decide +kernel
  have once := h _ (Machine.reachable_run ⟨_, _, _, _, rfl⟩ accepts)
  have hcreated : "s1" ∈ (machine.run newProcess steps).created := by decide +kernel
  have hprompts : (machine.run newProcess steps).promptsOf "s1" = [plainPrompt "hi again"] := by
    decide +kernel
  have hcontent := (once "s1" hcreated _ _ hprompts).1
  exact absurd hcontent (by decide +kernel)

theorem prelude_given_once_sample :
    (machine.run newProcess (openedNew ++ [.prepare "s1" "hi" [], .accept (preludePrompt "hi"),
      .prepare "s1" "more" [], .accept (plainPrompt "more")])).PreludeOnce := by
  have accepts : (machine.restrict Delivers).Accepts newProcess (openedNew ++
      [.prepare "s1" "hi" [], .accept (preludePrompt "hi"), .prepare "s1" "more" [],
        .accept (plainPrompt "more")]) := by
    decide +kernel
  exact prelude_given_once
    (Machine.reachable_run (M := machine.restrict Delivers) ⟨_, _, _, _, rfl⟩ accepts)

end Execution

end PreludeWorld

end AionCore.Agent
