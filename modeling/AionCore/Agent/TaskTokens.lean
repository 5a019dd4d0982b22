import AionCore.Agent.TaskSlots

/-!
# Agents: the token of a team agent

The token that an agent is built with is good as long as no task of its conversation is removed
after its issue. From then on the agent is the stored one, and the removal that drops the token
kills the agent.
-/

namespace AionCore.Agent

open Registry

def BuildStage.slot? : BuildStage → Option ℕ
  | .waiting slot | .building slot => some slot
  | _ => none

theorem BuildStage.Turns.slot?_eq_none {stage stage' : BuildStage} (h : stage.Turns stage') :
    stage'.slot? = none := by
  cases h with
  | passed | outdated | killed => rfl

namespace TaskWorld

def Accepted (setup : TaskSetup) (w : TaskWorld) (options : BuildTaskOptions) : Prop :=
  ∃ token, options.runtimeToken = some token ∧ ∀ scope, ∃ claims,
    w.tokens.validate setup.source (some token) options.context.userId
      options.context.conversationId scope teamRuntimeTokenSessionGeneration = .ok claims

def Rejected (setup : TaskSetup) (w : TaskWorld) (options : BuildTaskOptions) : Prop :=
  ∀ token, options.runtimeToken = some token →
    ∀ userId conversationId scope sessionGeneration claims,
      w.tokens.validate setup.source (some token) userId conversationId scope sessionGeneration ≠
        .ok claims

/-- The tokens of the team agents that are alive are accepted, those of the killed ones are not. -/
def TokensFollow (setup : TaskSetup) (w : TaskWorld) : Prop :=
  ∀ (a : ℕ) (agent : AgentInstance), w.agents[a]? = some agent →
    agent.options.context.team = true →
      (agent.kills = [] → w.Accepted setup agent.options) ∧
        (agent.kills ≠ [] → w.Rejected setup agent.options)

/-- No task of its conversation has been removed since the token of the call was issued. -/
def Fresh (w : TaskWorld) (call : BuildCall) : Prop :=
  call.conversationId ∉ w.removed.drop call.since

instance decidableFresh (w : TaskWorld) (call : BuildCall) : Decidable (w.Fresh call) :=
  inferInstanceAs (Decidable (call.conversationId ∉ w.removed.drop call.since))

/-- A factory call that returns the agent of a team was given a token that is fresh. -/
def ReturnsFresh (w : TaskWorld) : TaskStep → Prop
  | .advance k (.built _ _ _) => ∀ call ∈ w.calls[k]?, ∀ _ ∈ call.stage.building?,
      call.options.context.team = true → w.Fresh call
  | _ => True

instance decidableReturnsFresh (w : TaskWorld) : ∀ step, Decidable (w.ReturnsFresh step)
  | .advance k (.built _ _ _) => inferInstanceAs (Decidable (∀ call ∈ w.calls[k]?,
      ∀ _ ∈ call.stage.building?, call.options.context.team = true → w.Fresh call))
  | .advance _ .pending | .advance _ .failed | .call _ _ | .send _ | .kill _ _ | .killAndWait _ _
  | .poll _ | .clear _ | .clearNext _ | .report _ _ _ => .isTrue trivial

/-- Agents of a team are asked for on the send path only. -/
def SendPath (_ : TaskWorld) : TaskStep → Prop
  | .call _ options => options.context.team = false
  | _ => True

instance decidableSendPath (w : TaskWorld) : ∀ step, Decidable (w.SendPath step)
  | .call _ options => inferInstanceAs (Decidable (options.context.team = false))
  | .advance _ _ | .send _ | .kill _ _ | .killAndWait _ _ | .poll _ | .clear _ | .clearNext _
  | .report _ _ _ => .isTrue trivial

/-- The token of the options was generated, and the service holds it for them exactly if `live`. -/
def Carries (setup : TaskSetup) (s : RuntimeTokenService) (options : BuildTaskOptions)
    (live : Prop) : Prop :=
  ∃ token, options.runtimeToken = some token ∧
    setup.source.generate.Drawn s.generated token ∧
    (live → ∃ claims, s.Holds setup.source token claims ∧
      claims.userId = options.context.userId ∧
      claims.conversationId = options.context.conversationId ∧
      claims.sessionGeneration = teamRuntimeTokenSessionGeneration ∧
      ∀ scope, scope ∈ claims.scopes) ∧
    (¬live → ∀ claims, ¬s.Holds setup.source token claims)

def TeamIssue (setup : TaskSetup) (s s' : RuntimeTokenService) (userId conversationId : String)
    (issue : RuntimeTokenIssue) : Prop :=
  s.Issues setup.source s' userId conversationId teamRuntimeTokenSessionGeneration
    {.teamContext, .teamCall} issue

/-- What a step does to the tokens. -/
inductive TokenMove (setup : TaskSetup) (w w' : TaskWorld) : Prop
  | kept (tokens : w'.tokens = w.tokens) (removed : w'.removed = w.removed)
  | issued (userId conversationId : String) (issue : RuntimeTokenIssue)
    (issues : TeamIssue setup w.tokens w'.tokens userId conversationId issue)
    (removed : w'.removed = w.removed)
  | dropped (conversationId : String) (gone : w'.tasks.lookup conversationId = none)
    (tokens : w'.tokens = w.tokens.invalidateConversationId conversationId)
    (removed : w'.removed = w.removed ++ [conversationId])

variable {setup : TaskSetup} {w w' : TaskWorld} {step : TaskStep} {s s' : RuntimeTokenService}
  {options : BuildTaskOptions} {live live' : Prop} {call : BuildCall} {agent : AgentInstance}
  {userId conversationId : String} {issue : RuntimeTokenIssue}

theorem Carries.congr (h : Carries setup s options live) (hlive : live ↔ live') :
    Carries setup s options live' := by
  rwa [← propext hlive]

theorem Carries.accepted (h : Carries setup w.tokens options live)
    (hkept : w.tokens.WellKept setup.source) (hlive : live) : w.Accepted setup options := by
  obtain ⟨token, htoken, hdrawn, hholds, -⟩ := h
  obtain ⟨claims, hclaims, huser, hconversation, hgeneration, hscopes⟩ := hholds hlive
  exact ⟨token, htoken, fun scope => ⟨claims,
    (RuntimeTokenService.validate_ok_iff hkept hdrawn).mpr
      ⟨hclaims, huser, hconversation, hscopes scope, hgeneration⟩⟩⟩

theorem Carries.rejected (h : Carries setup w.tokens options live)
    (hkept : w.tokens.WellKept setup.source) (hdead : ¬live) : w.Rejected setup options := by
  obtain ⟨token, htoken, hdrawn, -, hlost⟩ := h
  intro token' htoken' userId conversationId scope sessionGeneration claims hvalid
  obtain rfl : token = token' := Option.some.inj (htoken.symm.trans htoken')
  exact hlost hdead claims ((RuntimeTokenService.validate_ok_iff hkept hdrawn).mp hvalid).1

section

variable (h : Carries setup s options live)
include h

theorem Carries.issued (hissue : TeamIssue setup s s' userId conversationId issue) :
    Carries setup s' options live := by
  obtain ⟨token, htoken, hdrawn, hholds, hlost⟩ := h
  refine ⟨token, htoken, hdrawn.mono hissue.generated, fun hlive => ?_, fun hdead claims hclaims =>
    hlost hdead claims (hissue.old token claims hdrawn hclaims)⟩
  obtain ⟨claims, hclaims, huser, hconversation, hgeneration, hscopes⟩ := hholds hlive
  exact ⟨claims, hissue.fits token claims hclaims fun _ _ =>
    ⟨hgeneration, fun scope _ => hscopes scope⟩, huser, hconversation, hgeneration, hscopes⟩

theorem Carries.invalidated_other (hne : options.context.conversationId ≠ conversationId) :
    Carries setup (s.invalidateConversationId conversationId) options live := by
  obtain ⟨token, htoken, hdrawn, hholds, hlost⟩ := h
  refine ⟨token, htoken, hdrawn, fun hlive => ?_, fun hdead claims hclaims =>
    hlost hdead claims (RuntimeTokenService.holds_invalidateConversationId.mp hclaims).1⟩
  obtain ⟨claims, hclaims, huser, hconversation, hrest⟩ := hholds hlive
  exact ⟨claims, RuntimeTokenService.holds_invalidateConversationId.mpr
    ⟨hclaims, by rw [hconversation]; exact hne⟩, huser, hconversation, hrest⟩

/-- The tokens of a conversation are dropped with its task. -/
theorem Carries.invalidated (heq : options.context.conversationId = conversationId) :
    Carries setup (s.invalidateConversationId conversationId) options False := by
  obtain ⟨token, htoken, hdrawn, hholds, hlost⟩ := h
  refine ⟨token, htoken, hdrawn, False.elim, fun _ claims hclaims => ?_⟩
  obtain ⟨hclaims, hne⟩ := RuntimeTokenService.holds_invalidateConversationId.mp hclaims
  by_cases hlive : live
  · obtain ⟨claims', hclaims', -, hconversation, -⟩ := hholds hlive
    rw [RuntimeTokenService.holds_unique hclaims hclaims', hconversation] at hne
    exact hne heq
  · exact hlost hlive claims hclaims

end

theorem carries_issue (hissue : TeamIssue setup s s' options.context.userId
      options.context.conversationId issue) (htoken : options.runtimeToken = some issue.token)
    (hlive : live) : Carries setup s' options live := by
  refine ⟨issue.token, htoken, hissue.kept.drawn hissue.holds, fun _ => ⟨issue.claims, hissue.holds,
    hissue.user, hissue.conversation, hissue.generation, fun scope => ?_⟩, fun h => absurd hlive h⟩
  refine hissue.granted ?_
  cases scope with
  | teamContext => simp
  | teamCall => simp

theorem issueTeamToken_spec (hkept : w.tokens.WellKept setup.source)
    (userId conversationId : String) :
    TeamIssue setup w.tokens (w.issueTeamToken setup userId conversationId).1 userId conversationId
      (w.issueTeamToken setup userId conversationId).2 :=
  RuntimeTokenService.issue_spec hkept _ _ _ _

theorem TokenMove.wellKept (move : TokenMove setup w w')
    (hkept : w.tokens.WellKept setup.source) : w'.tokens.WellKept setup.source := by
  cases move with
  | kept tokens _ => rwa [tokens]
  | issued _ _ _ issues _ => exact issues.kept
  | dropped conversationId _ tokens _ =>
    rw [tokens]
    exact hkept.invalidateConversationId conversationId

theorem tokenMove (hkept : w.tokens.WellKept setup.source) (move : TaskMove setup w step w') :
    TokenMove setup w w' := by
  cases move with
  | kept same _ tokens => exact .kept tokens same.past.removed
  | called _ _ _ same _ tokens => exact .kept tokens same.past.removed
  | sent options _ same heq =>
    rw [send] at heq
    split at heq
    · have hissue := issueTeamToken_spec hkept options.context.userId options.context.conversationId
      have htokens := congrArg TaskWorld.tokens heq
      dsimp only at htokens
      rw [← htokens] at hissue
      exact .issued _ _ _ hissue same.past.removed
    · exact .kept (by rw [heq]) same.past.removed
  | staged _ _ _ _ _ same _ tokens => exact .kept tokens same.past.removed
  | refreshed k call _ _ same _ tokens =>
    rw [refreshRuntimeTokenForNewTask] at tokens
    split at tokens
    · have hissue := issueTeamToken_spec hkept call.options.context.userId
        call.options.context.conversationId
      rw [← tokens] at hissue
      exact .issued _ _ _ hissue same.past.removed
    · exact .kept tokens same.past.removed
  | removed conversationId _ _ _ tasks _ _ _ tokens _ removed =>
    refine .dropped conversationId ?_ tokens removed
    rw [tasks, Dict.lookup_erase', if_pos rfl]
  | joined _ _ _ _ _ _ _ _ same _ tokens => exact .kept tokens same.past.removed
  | opened _ _ _ _ _ _ _ _ _ tokens past => exact .kept tokens past.removed
  | received _ _ _ _ _ _ _ same _ tokens => exact .kept tokens same.past.removed
  | started _ _ _ _ _ _ _ _ _ _ tokens past => exact .kept tokens past.removed
  | failed _ _ _ _ _ _ _ _ _ tokens past => exact .kept tokens past.removed
  | built _ _ _ _ _ _ _ _ _ _ _ _ _ tokens past => exact .kept tokens past.removed
  | killed _ _ _ _ _ _ _ _ tokens _ past => exact .kept tokens past.removed
  | reported _ _ _ _ _ _ _ tokens past => exact .kept tokens past.removed

/-- What has become of a call, or where it comes from. -/
inductive CallMove (setup : TaskSetup) (w w' : TaskWorld) (call' : BuildCall) : Prop
  | stayed (call : BuildCall) (mem : call ∈ w.calls)
    (conversation : call'.conversationId = call.conversationId)
    (options : call'.options = call.options) (since : call'.since = call.since)
    (slot : ∀ slot, call'.stage.slot? = some slot → call.stage.slot? = some slot ∨
      w'.tasks.lookup call'.conversationId = some slot)
  | plain (team : call'.options.context.team = false)
  | issued (issue : RuntimeTokenIssue)
    (issues : TeamIssue setup w.tokens w'.tokens call'.options.context.userId
      call'.options.context.conversationId issue)
    (token : call'.options.runtimeToken = some issue.token)
    (since : call'.since = w.removed.length) (removed : w'.removed = w.removed)
    (stage : call'.stage.slot? = none)
    (conversation : call'.conversationId = call'.options.context.conversationId ∨
      ∃ call ∈ w.calls, call.options.context.team = true ∧
        call'.conversationId = call.conversationId ∧
        call'.options.context.conversationId = call.options.context.conversationId)

theorem callMove_set {k : ℕ} {new call' : BuildCall} (hcalls : w'.calls = w.calls.set k new)
    (hcall' : call' ∈ w'.calls) (hnew : CallMove setup w w' new) : CallMove setup w w' call' := by
  rw [hcalls] at hcall'
  obtain hold | rfl := List.mem_or_eq_of_mem_set hcall'
  · exact .stayed call' hold rfl rfl rfl fun _ h => .inl h
  · exact hnew

variable {call' : BuildCall}

section

variable (hkept : w.tokens.WellKept setup.source)
include hkept

theorem callMove_send (options : BuildTaskOptions) (hcall' : call' ∈ (w.send setup options).calls) :
    CallMove setup w (w.send setup options) call' := by
  unfold send at hcall' ⊢
  dsimp only at hcall' ⊢
  split at hcall'
  · rename_i hteam
    rw [if_pos hteam]
    obtain hold | hnew := List.mem_append.mp hcall'
    · exact .stayed call' hold rfl rfl rfl fun _ h => .inl h
    · obtain rfl := List.mem_singleton.mp hnew
      exact .issued _ (issueTeamToken_spec hkept _ _)
        (BuildTaskOptions.runtimeToken_applyConversationRuntimeContext _ _ _ _ _ _) rfl rfl rfl
        (.inl rfl)
  · rename_i hteam
    rw [if_neg hteam]
    obtain hold | hnew := List.mem_append.mp hcall'
    · exact .stayed call' hold rfl rfl rfl fun _ h => .inl h
    · obtain rfl := List.mem_singleton.mp hnew
      have hplain : options.context.team = false := by simpa using hteam
      exact .plain hplain

theorem callMove_refresh {k : ℕ} (hk : w.calls[k]? = some call) (same : SameTasks w w')
    (htokens : w'.tokens = (w.refreshRuntimeTokenForNewTask setup call.options).1) :
    CallMove setup w w'
      { call with
        options := (w.refreshRuntimeTokenForNewTask setup call.options).2
        stage := .enter
        since := w.removed.length } := by
  unfold refreshRuntimeTokenForNewTask at htokens ⊢
  split
  · rename_i hteam
    rw [if_pos hteam] at htokens
    have hissue := issueTeamToken_spec hkept call.options.context.userId
      call.options.context.conversationId
    rw [← htokens] at hissue
    exact .issued _ hissue (BuildTaskOptions.runtimeToken_withRuntimeToken _ _) rfl
      same.past.removed rfl (.inr ⟨call, List.mem_of_getElem? hk, hteam, rfl, rfl⟩)
  · rename_i hteam
    exact .plain (by simpa using hteam)

theorem callMove (hsend : w.SendPath step) (move : TaskMove setup w step w')
    (hcall' : call' ∈ w'.calls) :
    CallMove setup w w' call' := by
  cases move with
  | kept _ calls _ | killed _ _ _ _ _ _ _ calls _ | reported _ _ _ _ _ _ calls _ =>
    rw [calls] at hcall'
    exact .stayed call' hcall' rfl rfl rfl fun _ h => .inl h
  | called conversationId options shape _ calls _ =>
    subst shape
    rw [calls] at hcall'
    obtain hold | hnew := List.mem_append.mp hcall'
    · exact .stayed call' hold rfl rfl rfl fun _ h => .inl h
    · obtain rfl := List.mem_singleton.mp hnew
      exact .plain hsend
  | sent options _ _ heq =>
    subst heq
    exact callMove_send hkept options hcall'
  | staged k call stage hk turns _ calls _ =>
    refine callMove_set calls hcall' (.stayed call (List.mem_of_getElem? hk) rfl rfl rfl ?_)
    intro slot hslot
    have hnone : stage.slot? = none := turns.slot?_eq_none
    rw [hnone] at hslot
    cases hslot
  | refreshed k call hk _ same calls tokens =>
    exact callMove_set calls hcall' (callMove_refresh hkept hk same tokens)
  | removed _ _ _ _ _ _ _ calls _ _ _ =>
    obtain calls | ⟨k, call, hk, -, calls⟩ := calls
    · rw [calls] at hcall'
      exact .stayed call' hcall' rfl rfl rfl fun _ h => .inl h
    · exact callMove_set calls hcall' (.stayed call (List.mem_of_getElem? hk) rfl rfl rfl
        fun _ h => (by cases h))
  | joined k call slot _ _ hk _ hstored same calls _ =>
    refine callMove_set calls hcall' (.stayed call (List.mem_of_getElem? hk) rfl rfl rfl ?_)
    rintro slot' h
    obtain rfl := Option.some.inj h
    exact .inr (same.tasks ▸ hstored)
  | opened k call hk _ _ tasks _ _ calls _ =>
    refine callMove_set calls hcall' (.stayed call (List.mem_of_getElem? hk) rfl rfl rfl ?_)
    rintro slot' h
    obtain rfl := Option.some.inj h
    right
    rw [tasks, Dict.lookup_insert', if_pos rfl]
  | received k call _ _ hk _ _ _ calls _ | failed k call _ hk _ _ _ _ calls _ =>
    exact callMove_set calls hcall' (.stayed call (List.mem_of_getElem? hk) rfl rfl rfl
      fun _ h => (by cases h))
  | started k call slot hk hstage _ _ _ _ calls _ =>
    refine callMove_set calls hcall' (.stayed call (List.mem_of_getElem? hk) rfl rfl rfl ?_)
    intro slot' h
    rw [hstage]
    exact .inl h
  | built k call _ _ _ _ _ hk _ _ _ _ calls _ =>
    exact callMove_set calls hcall' (.stayed call (List.mem_of_getElem? hk) rfl rfl rfl
      fun _ h => (by cases h))

end

/-- The token of a call is held as long as it is fresh, and as long the call has its slot. -/
structure CallToken (setup : TaskSetup) (w : TaskWorld) (call : BuildCall) : Prop where
  conversation : call.conversationId = call.options.context.conversationId
  since : call.since ≤ w.removed.length
  carries : Carries setup w.tokens call.options (w.Fresh call)
  placed : ∀ slot, call.stage.slot? = some slot → w.Fresh call →
    w.tasks.lookup call.conversationId = some slot

/-- The token of an agent is held, and the agent stored, as long as it is alive. -/
structure AgentToken (setup : TaskSetup) (w : TaskWorld) (a : ℕ) (agent : AgentInstance) :
    Prop where
  conversation : agent.conversationId = agent.options.context.conversationId
  carries : Carries setup w.tokens agent.options (agent.kills = [])
  stored : agent.kills = [] → w.Stores agent.conversationId a

theorem fresh_append (call : BuildCall) {c : String} (hsince : call.since ≤ w.removed.length)
    (hremoved : w'.removed = w.removed ++ [c]) :
    w'.Fresh call ↔ w.Fresh call ∧ call.conversationId ≠ c := by
  unfold Fresh
  rw [hremoved, List.drop_append_of_le_length hsince]
  simp

theorem fresh_same (hremoved : w'.removed = w.removed) : w'.Fresh call ↔ w.Fresh call := by
  unfold Fresh
  rw [hremoved]

theorem CallToken.stay (h : CallToken setup w call) (move : TaskMove setup w step w')
    (htokens : TokenMove setup w w') : CallToken setup w' call := by
  cases htokens with
  | kept tokens removed =>
    refine ⟨h.conversation, removed ▸ h.since, ?_, fun slot hslot hfresh => ?_⟩
    · rw [tokens]
      exact h.carries.congr (fresh_same removed).symm
    · refine (tasks_move move (h.placed slot hslot ((fresh_same removed).mp hfresh))).resolve_right ?_
      simp [removed]
  | issued userId conversationId issue issues removed =>
    refine ⟨h.conversation, removed ▸ h.since, ?_, fun slot hslot hfresh => ?_⟩
    · exact (h.carries.issued issues).congr (fresh_same removed).symm
    · refine (tasks_move move (h.placed slot hslot ((fresh_same removed).mp hfresh))).resolve_right ?_
      simp [removed]
  | dropped conversationId gone tokens removed =>
    have hfresh := fresh_append call h.since removed
    refine ⟨h.conversation, ?_, ?_, fun slot hslot hfresh' => ?_⟩
    · rw [removed, List.length_append]
      exact h.since.trans (Nat.le_add_right _ _)
    · rw [tokens]
      by_cases hc : call.conversationId = conversationId
      · exact (h.carries.invalidated (h.conversation ▸ hc)).congr
          ⟨False.elim, fun hf => (hfresh.mp hf).2 hc⟩
      · exact (h.carries.invalidated_other (h.conversation ▸ hc)).congr
          ⟨fun hf => hfresh.mpr ⟨hf, hc⟩, fun hf => (hfresh.mp hf).1⟩
    · obtain ⟨hf, hc⟩ := hfresh.mp hfresh'
      refine (tasks_move move (h.placed slot hslot hf)).resolve_right fun heq => ?_
      rw [removed] at heq
      exact hc (by simpa using heq.symm)

theorem CallToken.move
    (hcalls : ∀ call ∈ w.calls, call.options.context.team = true → CallToken setup w call)
    (hkept : w.tokens.WellKept setup.source) (hsend : w.SendPath step)
    (move : TaskMove setup w step w') (hcall' : call' ∈ w'.calls)
    (hteam : call'.options.context.team = true) : CallToken setup w' call' := by
  have htokens := tokenMove hkept move
  cases callMove hkept hsend move hcall' with
  | stayed call mem conversation options since slot =>
    have h := (hcalls call mem (options ▸ hteam)).stay move htokens
    have hfresh : w'.Fresh call' ↔ w'.Fresh call := by
      unfold Fresh
      rw [conversation, since]
    refine ⟨?_, since ▸ h.since, ?_, fun slot' hslot' hfresh' => ?_⟩
    · rw [conversation, options]
      exact h.conversation
    · rw [options]
      exact h.carries.congr hfresh.symm
    · obtain hslot | hslot := slot slot' hslot'
      · rw [conversation]
        exact h.placed slot' hslot (hfresh.mp hfresh')
      · exact hslot
  | plain team =>
    rw [team] at hteam
    cases hteam
  | issued issue issues token since removed stage conversation =>
    have hfresh : w'.Fresh call' := by
      unfold Fresh
      rw [since, removed, List.drop_length]
      exact List.not_mem_nil
    refine ⟨?_, ?_, carries_issue issues token hfresh, fun slot hslot => ?_⟩
    · obtain heq | ⟨call, hmem, hcallTeam, hconversation, hcontext⟩ := conversation
      · exact heq
      · rw [hconversation, hcontext]
        exact (hcalls call hmem hcallTeam).conversation
    · rw [since, removed]
    · rw [stage] at hslot
      cases hslot

theorem TokenMove.carries_dead (move : TokenMove setup w w')
    (h : Carries setup w.tokens options live) (hdead : ¬live) :
    Carries setup w'.tokens options False := by
  have h' : Carries setup w.tokens options False := h.congr ⟨hdead, False.elim⟩
  cases move with
  | kept tokens _ => rwa [tokens]
  | issued _ _ _ issues _ => exact h'.issued issues
  | dropped conversationId _ tokens _ =>
    rw [tokens]
    by_cases hc : options.context.conversationId = conversationId
    · exact h'.invalidated hc
    · exact h'.invalidated_other hc

/-- The agent is left alive or the removal that has killed it has dropped its token. -/
theorem AgentToken.after {a : ℕ} {agent' : AgentInstance} (h : AgentToken setup w a agent)
    (distinct : w.SlotsDistinct) (htokens : TokenMove setup w w')
    (after : AgentAfter w w' a agent agent') : AgentToken setup w' a agent' := by
  have hconversation : agent'.conversationId = agent'.options.context.conversationId := by
    rw [after.conversation, after.options]
    exact h.conversation
  by_cases halive' : agent'.kills = []
  · have halive : agent.kills = [] := by
      by_contra hkilled
      exact after.killed hkilled halive'
    have hstores := (after.stored (h.stored halive)).resolve_right (not_not_intro halive')
    refine ⟨hconversation, ?_, fun _ => after.conversation ▸ hstores⟩
    have hcarries : Carries setup w.tokens agent.options (agent'.kills = []) :=
      h.carries.congr (by simp [halive, halive'])
    rw [after.options]
    cases htokens with
    | kept tokens _ => rwa [tokens]
    | issued _ _ _ issues _ => exact hcarries.issued issues
    | dropped conversationId gone tokens _ =>
      rw [tokens]
      refine hcarries.invalidated_other fun hc => ?_
      obtain ⟨slot, _, hslot, -, -⟩ := stores_iff.mp hstores
      rw [h.conversation, hc, gone] at hslot
      cases hslot
  · have hdead : Carries setup w'.tokens agent.options False := by
      obtain hkilled | ⟨slot, managed, hcell, rfl, hcondemned⟩ := after.hit halive'
      · exact htokens.carries_dead h.carries hkilled
      · by_cases halive : agent.kills = []
        · -- the slot of the agent is the one of its conversation
          obtain ⟨slot', managed', hslot', hcell', hagent⟩ := stores_iff.mp (h.stored halive)
          obtain rfl : slot' = slot := distinct.cells _ _ _ _ hcell' hcell hagent
          obtain ⟨c, hc, hremoved⟩ | ⟨wait, hwait, rfl⟩ := hcondemned
          · obtain rfl : c = agent.conversationId := distinct.tasks _ _ _ hc hslot'
            cases htokens with
            | kept _ removed | issued _ _ _ _ removed =>
              rw [removed] at hremoved
              simp at hremoved
            | dropped conversationId _ tokens removed =>
              rw [removed] at hremoved
              obtain rfl : conversationId = agent.conversationId := by simpa using hremoved
              rw [tokens]
              exact h.carries.invalidated h.conversation.symm
          · exact absurd hslot' ((distinct.waits wait hwait).2 _)
        · exact htokens.carries_dead h.carries halive
    refine ⟨hconversation, ?_, fun halive => absurd halive halive'⟩
    rw [after.options]
    exact hdead.congr ⟨False.elim, halive'⟩

/-- What the tokens of calls and agents are worth. -/
structure TokensKept (setup : TaskSetup) (w : TaskWorld) : Prop where
  kept : w.tokens.WellKept setup.source
  calls : ∀ call ∈ w.calls, call.options.context.team = true → CallToken setup w call
  agents : ∀ (a : ℕ) (agent : AgentInstance), w.agents[a]? = some agent →
    agent.options.context.team = true → AgentToken setup w a agent

/-- An agent is returned with the token of its call. -/
theorem BuiltBy.carries {k slot a : ℕ} (hw : TokensKept setup w)
    (built : BuiltBy w w' step k call slot a agent) (hteam : agent.options.context.team = true) :
    agent.conversationId = agent.options.context.conversationId ∧ agent.kills = [] ∧
      Carries setup w'.tokens agent.options (w.Fresh call) ∧
      (w.Fresh call → w'.Stores agent.conversationId a) := by
  obtain ⟨agentType, status, at', -, rfl⟩ := built.step
  have h := hw.calls call (List.mem_of_getElem? built.found) hteam
  refine ⟨h.conversation, rfl, built.tokens ▸ h.carries, fun hfresh => ?_⟩
  have hslot := h.placed slot (by rw [built.stage]; rfl) hfresh
  exact stores_iff.mpr ⟨slot, _, built.tasks ▸ hslot, built.cell, rfl⟩

theorem TokensKept.move (hw : TokensKept setup w) (held : w.SlotsHeld)
    (distinct : w.SlotsDistinct) (hsend : w.SendPath step) (hfresh : w.ReturnsFresh step)
    (move : TaskMove setup w step w') : TokensKept setup w' := by
  have htokens := tokenMove hw.kept move
  refine ⟨htokens.wellKept hw.kept, fun call hcall hteam =>
    CallToken.move hw.calls hw.kept hsend move hcall hteam, fun a agent' ha' hteam => ?_⟩
  obtain ⟨agent, ha, after⟩ | ⟨k, call, slot, built⟩ := agent_move held move ha'
  · exact (hw.agents a agent ha (after.options ▸ hteam)).after distinct htokens after
  · obtain ⟨hconversation, halive, hcarries, hstored⟩ := built.carries hw hteam
    have hcall : w.Fresh call := by
      obtain ⟨agentType, status, at', rfl, rfl⟩ := built.step
      exact hfresh call built.found slot (by rw [built.stage]; rfl) hteam
    exact ⟨hconversation, hcarries.congr (by simp [hcall, halive]), fun _ => hstored hcall⟩

theorem TokensKept.follow (hw : TokensKept setup w) : w.TokensFollow setup := by
  intro a agent ha hteam
  have h := hw.agents a agent ha hteam
  exact ⟨fun halive => h.carries.accepted hw.kept halive,
    fun hkilled => h.carries.rejected hw.kept hkilled⟩

/-- As long as team agents are asked for on the send path and returned with fresh tokens, the
tokens follow the agents; a return with a token that is not fresh breaks this. -/
theorem team_tokens_follow_agents
    (h : ((machine setup).restrict fun w step => w.SendPath step ∧ w.ReturnsFresh step).Reachable
      w) :
    w.TokensFollow setup ∧ ∀ step, w.SendPath step →
      ((w.fire setup step).TokensFollow setup ↔ w.ReturnsFresh step) := by
  have hw : TokensKept setup w := h.invariant_of_reachable (P := TokensKept setup)
    (fun _ hs => by
      subst hs
      exact ⟨RuntimeTokenService.wellKept_new, fun _ h => (by cases h), fun _ _ h => (by cases h)⟩)
    fun w step hr hw hadmits => hw.move (slotsHeld_of_reachable hr.of_restrict)
      (slotsDistinct_of_reachable hr.of_restrict) hadmits.2.1 hadmits.2.2 (move_fire setup w step)
  have held := slotsHeld_of_reachable h.of_restrict
  have distinct := slotsDistinct_of_reachable h.of_restrict
  refine ⟨hw.follow, fun step hsend => ⟨fun hnext => ?_, fun hfresh =>
    (hw.move held distinct hsend hfresh (move_fire setup w step)).follow⟩⟩
  cases step with
  | advance k reply =>
    cases reply with
    | built agentType status lastActivityAt =>
      intro call hk slot hslot hteam
      by_contra hstale
      obtain ⟨agent, ha, built⟩ :=
        builtBy_of_returns setup agentType status lastActivityAt held hk hslot
      have hagentTeam : agent.options.context.team = true := by
        obtain ⟨_, _, _, -, rfl⟩ := built.step
        exact hteam
      obtain ⟨-, halive, hcarries, -⟩ := built.carries hw hagentTeam
      have hkept := (tokenMove hw.kept
        (move_fire setup w (.advance k (.built agentType status lastActivityAt)))).wellKept hw.kept
      obtain ⟨token, htoken, hvalid⟩ := (hnext _ agent ha hagentTeam).1 halive
      obtain ⟨claims, hclaims⟩ := hvalid .teamContext
      exact hcarries.rejected hkept hstale token htoken _ _ _ _ claims hclaims
    | pending | failed => exact trivial
  | call _ _ | send _ | kill _ _ | killAndWait _ _ | poll _ | clear _ | clearNext _ | report _ _ _ =>
    exact trivial

def teamOptions : BuildTaskOptions := ⟨⟨"u", "c", true, []⟩, ⟨none⟩⟩

/-- A second send reuses the token of the agent that runs; the agent is killed before the call
enters a slot, and it builds with the token that has gone with it. -/
def killBeforeEntry : List TaskStep :=
  [.send teamOptions, .advance 0 .pending, .advance 0 .pending, .advance 0 .pending,
    .advance 0 (.built .acp none 0), .send teamOptions, .kill "c" (some .teamMcpRebuild),
    .advance 1 .pending, .advance 1 .pending, .advance 1 .pending, .advance 1 (.built .acp none 0)]

theorem killed_token_reaches_agent :
    ¬∀ w, ((machine .tally).restrict SendPath).Reachable w → w.TokensFollow .tally := by
  intro hclaim
  have haccepts : ((machine .tally).restrict SendPath).Accepts empty killBeforeEntry := by
    decide +kernel
  have h := hclaim _ (Machine.reachable_run rfl haccepts)
  let options := teamOptions.applyConversationRuntimeContext "u" "c" none none (some "x")
  have hagent : (((machine .tally).restrict SendPath).run empty killBeforeEntry).agents[1]? =
      some ⟨"c", options, .acp, none, 0, []⟩ := by decide +kernel
  obtain ⟨token, htoken, hvalid⟩ := (h 1 _ hagent rfl).1 rfl
  obtain rfl : "x" = token := by
    have hx : options.runtimeToken = some "x" := by decide +kernel
    exact Option.some.inj (hx.symm.trans htoken)
  obtain ⟨claims, hclaims⟩ := hvalid .teamCall
  have hunknown : (((machine .tally).restrict SendPath).run empty killBeforeEntry).tokens.validate
      TokenSource.tally (some "x") "u" "c" .teamCall teamRuntimeTokenSessionGeneration =
        .error .unknown := by decide +kernel
  cases hunknown.symm.trans hclaims

/-- A send, a kill of what it has built, and a send with a token of its own. -/
def sendAfterKill : List TaskStep :=
  [.send teamOptions, .advance 0 .pending, .advance 0 .pending, .advance 0 .pending,
    .advance 0 (.built .acp none 0), .kill "c" (some .teamMcpRebuild), .send teamOptions,
    .advance 1 .pending, .advance 1 .pending, .advance 1 .pending, .advance 1 (.built .acp none 0)]

theorem team_tokens_follow_after_kill :
    (((machine .tally).restrict fun w step => w.SendPath step ∧ w.ReturnsFresh step).run empty
      sendAfterKill).TokensFollow .tally := by
  have haccepts : ((machine .tally).restrict fun w step =>
      w.SendPath step ∧ w.ReturnsFresh step).Accepts empty sendAfterKill := by decide +kernel
  exact (team_tokens_follow_agents (Machine.reachable_run rfl haccepts)).1

end TaskWorld

end AionCore.Agent
