import AionCore.Cron.JobUpdates

/-!
# Cron: an update stores what it returns

What the edits of a request leave of a job, that the columns set for them make a row which is read
as the edited job, and what of it is not.
-/

namespace AionCore.Cron.Records

open AionCore.Team (TimestampMs trim)

variable {rows rows' : List CronJobRow} {row : CronJobRow} {id : String} {now : TimestampMs}
  {svc : CronService} {req : UpdateCronJobRequest} {before job job' stored : CronJob}
  {edit : JobEdit} {times : UpdateTimes} {clears changed : Bool}

theorem editSchedule_ok (h : svc.editSchedule req job = .ok job') :
    job' = { job with schedule := req.newSchedule job.schedule } := by
  rw [CronService.editSchedule] at h
  rw [UpdateCronJobRequest.newSchedule]
  cases hreq : req.schedule with
  | none =>
    rw [hreq] at h
    cases h
    rfl
  | some dto =>
    rw [hreq] at h
    obtain ⟨-, -, h⟩ := bind_eq_ok.mp h
    cases h
    rfl

variable {mode : ExecutionMode}

theorem fromStr_of_parseExecutionMode {s : String} (h : parseExecutionMode (some s) = .ok mode) :
    ExecutionMode.fromStr s = .ok mode := by
  rw [parseExecutionMode] at h
  split at h
  · next hs =>
    rw [hs]
    exact h
  · exact h

theorem leaves_iff {s : String} (hreq : req.executionMode = some s)
    (hmode : ExecutionMode.fromStr s = .ok mode) :
    req.Leaves job ↔ mode ≠ job.executionMode ∧ mode = .newConversation := by
  have hs : mode.asStr = s := ExecutionMode.asStr_of_fromStr hmode
  rw [UpdateCronJobRequest.Leaves, hreq, ← hs, Option.some.injEq]
  cases mode with
  | existing => exact iff_of_false (fun h => absurd h.2 (by decide)) fun h => by cases h.2
  | newConversation =>
    cases job.executionMode with
    | existing => exact iff_of_true ⟨rfl, rfl⟩ ⟨by decide, rfl⟩
    | newConversation => exact iff_of_false (fun h => by cases h.1) fun h => h.1 rfl

/-- What the edit of the execution mode leaves. -/
structure ModeEdited (req : UpdateCronJobRequest) (job job' : CronJob) (clears : Bool) : Prop where
  eq : job' =
    { job with
      executionMode := job'.executionMode
      conversationId := if req.Leaves job then "" else job.conversationId
      conversationTitle := if req.Leaves job then none else job.conversationTitle }
  executionMode : ∀ s, req.executionMode = some s → ExecutionMode.fromStr s = .ok job'.executionMode
  unchanged : req.executionMode = none → job'.executionMode = job.executionMode
  clears : clears = decide (req.Unbinds job)

theorem editExecutionMode_ok (h : svc.editExecutionMode req job = .ok (job', clears)) :
    ModeEdited req job job' clears := by
  rw [CronService.editExecutionMode] at h
  cases hreq : req.executionMode with
  | none =>
    have hnot : ¬req.Leaves job := by
      rintro ⟨-, hs⟩
      cases hreq.symm.trans hs
    rw [hreq] at h
    cases h
    refine ⟨?_, fun s hs => ?_, fun _ => rfl, ?_⟩
    · rw [if_neg hnot, if_neg hnot]
    · rw [hreq] at hs
      cases hs
    · exact (decide_eq_false fun hunbinds => hnot hunbinds.1).symm
  | some s =>
    rw [hreq] at h
    obtain ⟨mode, hparse, h⟩ := bind_eq_ok.mp h
    obtain ⟨team, -, h⟩ := bind_eq_ok.mp h
    have hmode := fromStr_of_parseExecutionMode hparse
    have hleaves : req.Leaves job ↔ mode ≠ job.executionMode ∧ mode = .newConversation :=
      leaves_iff hreq hmode
    have hrequested : ∀ s', req.executionMode = some s' → ExecutionMode.fromStr s' = .ok mode := by
      intro s' hs'
      cases hreq.symm.trans hs'
      exact hmode
    cases team with
    | true => cases h
    | false =>
      rw [if_neg Bool.false_ne_true] at h
      by_cases hleave : mode ≠ job.executionMode ∧ mode = .newConversation
      · rw [if_pos hleave] at h
        cases h
        have hleave' := hleaves.mpr hleave
        refine ⟨?_, hrequested, fun hnone => ?_, ?_⟩
        · rw [if_pos hleave', if_pos hleave']
        · rw [hreq] at hnone
          cases hnone
        · exact decide_eq_decide.mpr ⟨fun hid => ⟨hleave', hid⟩, fun hunbinds => hunbinds.2⟩
      · rw [if_neg hleave] at h
        cases h
        have hnot : ¬req.Leaves job := fun hleave' => hleave (hleaves.mp hleave')
        refine ⟨?_, hrequested, fun hnone => ?_, ?_⟩
        · rw [if_neg hnot, if_neg hnot]
        · rw [hreq] at hnone
          cases hnone
        · exact (decide_eq_false fun hunbinds => hnot hunbinds.1).symm

variable {dto : CronAgentConfigWriteDto} {config : CronAgentConfig}

theorem assistantId_of_build {runtimeAgentType : String}
    (h : svc.buildCronAgentConfig runtimeAgentType dto = .ok config) :
    config.assistantId = dto.assistantId ∧ ∃ assistantId, dto.assistantId = some assistantId ∧
      trim assistantId ≠ "" := by
  rw [CronService.buildCronAgentConfig] at h
  cases hid : dto.assistantId.filter fun value => trim value ≠ "" with
  | none =>
    rw [hid] at h
    cases h
  | some assistantId =>
    rw [hid] at h
    dsimp only at h
    cases hbackend : svc.resolveAssistantBackend assistantId with
    | none =>
      rw [hbackend] at h
      cases h
    | some backend =>
      rw [hbackend] at h
      obtain ⟨hsome, hne⟩ := Option.filter_eq_some_iff.mp hid
      cases hmodel : normalizeModel dto.model runtimeAgentType with
      | error e =>
        rw [hmodel] at h
        cases h
      | ok model =>
        rw [hmodel] at h
        cases h
        exact ⟨rfl, assistantId, hsome, of_decide_eq_true hne⟩

/-- What the edit of the agent config leaves. -/
structure ConfigEdited (svc : CronService) (req : UpdateCronJobRequest)
    (originalExecutionMode : ExecutionMode) (job job' : CronJob) : Prop where
  eq : job' = { job with agentType := job'.agentType, agentConfig := job'.agentConfig }
  unchanged : req.agentConfig = none → job' = job
  agentConfig : ∀ dto, req.agentConfig = some dto →
    originalExecutionMode = .newConversation ∧
      ∃ config, job'.agentConfig = some config ∧
        svc.buildCronAgentConfig job'.agentType (sanitizeAgentConfigDto dto) = .ok config ∧
        svc.resolveNewJobAgentType (some (sanitizeAgentConfigDto dto)) = .ok job'.agentType

theorem editAgentConfig_ok {originalExecutionMode : ExecutionMode}
    (h : svc.editAgentConfig req originalExecutionMode job = .ok job') :
    ConfigEdited svc req originalExecutionMode job job' := by
  rw [CronService.editAgentConfig] at h
  cases hreq : req.agentConfig with
  | none =>
    rw [hreq] at h
    cases h
    exact ⟨rfl, fun _ => rfl, fun dto hdto => by rw [hreq] at hdto; cases hdto⟩
  | some dto =>
    rw [hreq] at h
    dsimp only at h
    split at h
    · cases h
    · next hmodes =>
      obtain ⟨agentType, htype, h⟩ := bind_eq_ok.mp h
      obtain ⟨-, -, h⟩ := bind_eq_ok.mp h
      obtain ⟨config, hconfig, h⟩ := bind_eq_ok.mp h
      cases h
      refine ⟨rfl, fun hnone => ?_, fun dto' hdto' => ⟨?_, config, rfl, ?_, ?_⟩⟩
      · rw [hreq] at hnone
        cases hnone
      · cases hmode : originalExecutionMode with
        | existing => exact absurd (.inl hmode) hmodes
        | newConversation => rfl
      · cases hreq.symm.trans hdto'
        exact hconfig
      · cases hreq.symm.trans hdto'
        exact htype

def assistantOf (agentConfig : Option CronAgentConfig) : Option String :=
  agentConfig.bind fun config => config.assistantId.or config.customAgentId

/-- What the cleanup of the workspace leaves. -/
structure WorkspaceCleared (job job' : CronJob) (changed : Bool) : Prop where
  eq : job' = { job with agentConfig := job'.agentConfig }
  unchanged : changed = false → job' = job
  assistant : assistantOf job'.agentConfig = assistantOf job.agentConfig

theorem clearAutoWorkspace_ok {conversationId : String}
    (h : svc.clearAutoWorkspaceFromJobConfig job conversationId = (job', changed)) :
    WorkspaceCleared job job' changed := by
  rw [CronService.clearAutoWorkspaceFromJobConfig] at h
  split at h
  · cases h
    exact ⟨rfl, fun _ => rfl, rfl⟩
  · next config hconfig =>
    split at h
    · split at h
      · cases h
        exact ⟨rfl, fun hfalse => absurd hfalse (by decide), (congrArg assistantOf hconfig).symm⟩
      · cases h
        exact ⟨rfl, fun _ => rfl, rfl⟩
    · cases h
      exact ⟨rfl, fun _ => rfl, rfl⟩

/-- Without an agent type of its own, a job has that of its assistant. -/
theorem resolveJobAgentType_congr (h : assistantOf job'.agentConfig = assistantOf job.agentConfig) :
    svc.resolveJobAgentType { job' with agentType := "" } =
      svc.resolveJobAgentType { job with agentType := "" } := by
  have hblank : ¬trim "" ≠ "" := by decide
  rw [CronService.resolveJobAgentType, CronService.resolveJobAgentType, if_neg hblank,
    if_neg hblank]
  have hbind : (job'.agentConfig.bind fun config => config.assistantId.or config.customAgentId) =
      job.agentConfig.bind fun config => config.assistantId.or config.customAgentId := h
  rw [hbind]

variable {agentType : String}

/-- The assistant of a new config resolves as it did for the request. -/
theorem resolveJobAgentType_of_config (hjob : job.agentConfig = some config)
    (hbuild : svc.buildCronAgentConfig agentType dto = .ok config)
    (htype : svc.resolveNewJobAgentType (some dto) = .ok agentType) :
    svc.resolveJobAgentType { job with agentType := "" } = .ok agentType := by
  obtain ⟨hid, assistantId, hsome, hne⟩ := assistantId_of_build hbuild
  have hblank : ¬trim "" ≠ "" := by decide
  have hassistant : (job.agentConfig.bind fun c => c.assistantId.or c.customAgentId).filter
      (fun value => trim value ≠ "") = some assistantId := by
    rw [hjob, Option.bind_some, hid, hsome, Option.some_or, Option.filter_some,
      if_pos (decide_eq_true hne)]
  rw [CronService.resolveJobAgentType, if_neg hblank, hassistant]
  rw [CronService.resolveNewJobAgentType, Option.bind_some, hsome] at htype
  exact htype

/-- What all the edits leave. -/
structure Edited (svc : CronService) (req : UpdateCronJobRequest) (before : CronJob)
    (edit : JobEdit) : Prop where
  eq : edit.job =
    { before with
      name := req.name.getD before.name
      enabled := req.enabled.getD before.enabled
      schedule := req.newSchedule before.schedule
      message := req.message.getD before.message
      executionMode := edit.job.executionMode
      agentConfig := edit.job.agentConfig
      conversationId := if req.Leaves before then "" else before.conversationId
      conversationTitle := edit.job.conversationTitle
      agentType := edit.job.agentType
      description := req.description.or before.description
      updatedAt := edit.job.updatedAt
      nextRunAt := edit.job.nextRunAt
      maxRetries := req.maxRetries.getD before.maxRetries
      queueEnabled := req.queueEnabled.getD before.queueEnabled }
  conversationTitle : edit.job.conversationTitle =
    if req.Unbinds before then none
    else req.conversationTitle.or (if req.Leaves before then none else before.conversationTitle)
  clears : edit.clearConversationBinding = decide (req.Unbinds before)
  nextRunAt : ¬(req.schedule.isSome ∨ req.enabled.isSome) → edit.job.nextRunAt = before.nextRunAt
  executionMode : ∀ s, req.executionMode = some s →
    ExecutionMode.fromStr s = .ok edit.job.executionMode
  sameMode : req.executionMode = none → edit.job.executionMode = before.executionMode
  agentConfig : ∀ dto, req.agentConfig = some dto → edit.agentConfigChanged = false ∧
    ∃ config, edit.job.agentConfig = some config ∧
      svc.buildCronAgentConfig edit.job.agentType (sanitizeAgentConfigDto dto) = .ok config
  sameConfig : req.agentConfig = none → edit.agentConfigChanged = false →
    edit.job.agentConfig = before.agentConfig
  agentType : svc.resolveJobAgentType { edit.job with agentType := "" } = .ok edit.job.agentType

theorem title_edited (hclears : clears = decide (req.Unbinds before)) :
    (if clears then (if req.Leaves before then none else before.conversationTitle)
      else req.conversationTitle.or
        (if req.Leaves before then none else before.conversationTitle)) =
      if req.Unbinds before then none
      else req.conversationTitle.or
        (if req.Leaves before then none else before.conversationTitle) := by
  by_cases hunbinds : req.Unbinds before
  · rw [hclears, decide_eq_true hunbinds, if_pos rfl, if_pos hunbinds, if_pos hunbinds.1]
  · rw [hclears, decide_eq_false hunbinds, if_neg Bool.false_ne_true, if_neg hunbinds]

theorem edit_ok (hbefore : svc.resolveJobAgentType { before with agentType := "" } =
      .ok before.agentType) (h : svc.edit req times before = .ok edit) :
    Edited svc req before edit := by
  obtain ⟨job₁, hschedule, h⟩ := bind_eq_ok.mp h
  cases editSchedule_ok hschedule
  obtain ⟨⟨job₂, clears⟩, hmode, h⟩ := bind_eq_ok.mp h
  obtain ⟨job₃, hconfig, h⟩ := bind_eq_ok.mp h
  have hmode := editExecutionMode_ok hmode
  have hconfig := editAgentConfig_ok hconfig
  dsimp only at h
  cases hcleared : if clears then
      svc.clearAutoWorkspaceFromJobConfig (svc.editRest req times clears job₃) before.conversationId
    else (svc.editRest req times clears job₃, false) with
  | mk job₄ changed =>
    rw [hcleared] at h
    obtain ⟨-, -, h⟩ := bind_eq_ok.mp h
    cases h
    have hworkspace : WorkspaceCleared (svc.editRest req times clears job₃) job₄ changed ∧
        (clears = false → changed = false) := by
      split at hcleared
      · next hclears =>
        exact ⟨clearAutoWorkspace_ok hcleared,
          fun hfalse => absurd (hclears.symm.trans hfalse) (by decide)⟩
      · cases hcleared
        exact ⟨⟨rfl, fun _ => rfl, rfl⟩, fun _ => rfl⟩
    obtain ⟨hworkspace, hchanged⟩ := hworkspace
    have hclears : clears = decide (req.Unbinds before) := hmode.clears
    constructor
    case eq =>
      obtain ⟨agentConfig₄, heq₄⟩ : ∃ agentConfig, job₄ =
          { svc.editRest req times clears job₃ with agentConfig } := ⟨_, hworkspace.eq⟩
      obtain ⟨agentType₃, agentConfig₃, heq₃⟩ : ∃ agentType agentConfig, job₃ =
          { job₂ with agentType, agentConfig } := ⟨_, _, hconfig.eq⟩
      rw [heq₄, heq₃, hmode.eq]
      rfl
    case conversationTitle =>
      have htitle₄ : job₄.conversationTitle =
          (svc.editRest req times clears job₃).conversationTitle :=
        (congrArg CronJob.conversationTitle hworkspace.eq :)
      have htitle₃ : job₃.conversationTitle = job₂.conversationTitle :=
        (congrArg CronJob.conversationTitle hconfig.eq :)
      have htitle₂ : job₂.conversationTitle =
          if req.Leaves before then none else before.conversationTitle :=
        (congrArg CronJob.conversationTitle hmode.eq :)
      rw [htitle₄, CronService.editRest, htitle₃, htitle₂]
      exact title_edited hclears
    case clears => exact hclears
    case nextRunAt =>
      intro hnone
      have hnext : job₄.nextRunAt = (svc.editRest req times clears job₃).nextRunAt :=
        (congrArg CronJob.nextRunAt hworkspace.eq :)
      have hnext₃ : job₃.nextRunAt = job₂.nextRunAt := (congrArg CronJob.nextRunAt hconfig.eq :)
      have hnext₂ : job₂.nextRunAt = before.nextRunAt := (congrArg CronJob.nextRunAt hmode.eq :)
      exact hnext.trans ((if_neg hnone).trans (hnext₃.trans hnext₂))
    case executionMode =>
      intro s hs
      have hmode₄ : job₄.executionMode = job₃.executionMode :=
        (congrArg CronJob.executionMode hworkspace.eq :)
      have hmode₃ : job₃.executionMode = job₂.executionMode :=
        (congrArg CronJob.executionMode hconfig.eq :)
      rw [hmode₄, hmode₃]
      exact hmode.executionMode s hs
    case sameMode =>
      intro hnone
      have hmode₄ : job₄.executionMode = job₃.executionMode :=
        (congrArg CronJob.executionMode hworkspace.eq :)
      have hmode₃ : job₃.executionMode = job₂.executionMode :=
        (congrArg CronJob.executionMode hconfig.eq :)
      exact hmode₄.trans (hmode₃.trans (hmode.unchanged hnone))
    case agentConfig =>
      intro dto hdto
      obtain ⟨hnew, config, hsome, hbuild, -⟩ := hconfig.agentConfig dto hdto
      have hnot : ¬req.Unbinds before := by
        rintro ⟨⟨hexisting, -⟩, -⟩
        rw [hnew] at hexisting
        cases hexisting
      have hunchanged := hchanged (hclears.trans (decide_eq_false hnot))
      have hjob₄ := hworkspace.unchanged hunchanged
      refine ⟨hunchanged, config, ?_, ?_⟩
      · rw [hjob₄]
        exact hsome
      · rw [hjob₄]
        exact hbuild
    case sameConfig =>
      intro hnone hfalse
      rw [hworkspace.unchanged hfalse]
      rw [hconfig.unchanged hnone]
      exact (congrArg CronJob.agentConfig hmode.eq :)
    case agentType =>
      have htype₄ : job₄.agentType = job₃.agentType := (congrArg CronJob.agentType hworkspace.eq :)
      have hassistant : assistantOf job₄.agentConfig = assistantOf job₃.agentConfig :=
        hworkspace.assistant
      rw [htype₄]
      refine (resolveJobAgentType_congr hassistant).trans ?_
      cases hreq : req.agentConfig with
      | none =>
        have hjob₂ : assistantOf job₂.agentConfig = assistantOf before.agentConfig :=
          (congrArg (fun job => assistantOf job.agentConfig) hmode.eq :)
        have htype₂ : job₂.agentType = before.agentType := (congrArg CronJob.agentType hmode.eq :)
        rw [hconfig.unchanged hreq, htype₂]
        exact (resolveJobAgentType_congr hjob₂).trans hbefore
      | some dto =>
        obtain ⟨-, config, hsome, hbuild, htype⟩ := hconfig.agentConfig dto hreq
        exact resolveJobAgentType_of_config hsome hbuild htype

theorem getById_eq_ok : getById rows id = .ok row ↔ Table.find CronJobRow.id rows id = some row := by
  rw [getById]
  cases Table.find CronJobRow.id rows id with
  | none => exact iff_of_false (fun h => by cases h) fun h => by cases h
  | some row' => rw [Except.ok.injEq, Option.some.injEq]

/-- A job is read from its row, with the agent type of its assistant. -/
theorem getJob_eq_ok : svc.getJob rows id = .ok job ↔
    ∃ row original, Table.find CronJobRow.id rows id = some row ∧ Holds row original ∧
      svc.resolveJobAgentType original = .ok job.agentType ∧
      job = { original with agentType := job.agentType } := by
  constructor
  · intro h
    obtain ⟨row, hrow, h⟩ := bind_eq_ok.mp h
    obtain ⟨original, horiginal, h⟩ := bind_eq_ok.mp h
    obtain ⟨agentType, htype, h⟩ := bind_eq_ok.mp h
    cases h
    exact ⟨row, original, getById_eq_ok.mp hrow, cronJobFromRow_eq_ok.mp horiginal, htype, rfl⟩
  · rintro ⟨row, original, hrow, horiginal, htype, hjob⟩
    refine bind_eq_ok.mpr ⟨row, getById_eq_ok.mpr hrow, bind_eq_ok.mpr
      ⟨original, cronJobFromRow_eq_ok.mpr horiginal, bind_eq_ok.mpr ⟨_, htype, ?_⟩⟩⟩
    exact congrArg Except.ok hjob.symm

def storedJob (edit : JobEdit) (row : CronJobRow) : CronJob :=
  { edit.job with
    agentType := ""
    updatedAt := row.updatedAt
    maxRetries := row.maxRetries
    conversationId := row.conversationId
    conversationTitle := row.conversationTitle }

theorem holds_update {original : CronJob} (hrow : Holds row original)
    (hbefore : before = { original with agentType := before.agentType })
    (hedited : Edited svc req before edit) :
    Holds (row.update (edit.updateParams req) now)
      (storedJob edit (row.update (edit.updateParams req) now)) where
  schedule := by
    have hjob : edit.job.schedule = req.newSchedule before.schedule :=
      (congrArg CronJob.schedule hedited.eq :)
    have hschedule : before.schedule = original.schedule := (congrArg CronJob.schedule hbefore :)
    show CronSchedule.parse ((req.schedule.map _).getD _) ((req.schedule.map _).getD _)
      ((req.schedule.map _).getD _) ((req.schedule.map _).getD _) = .ok edit.job.schedule
    cases hreq : req.schedule with
    | none =>
      rw [hjob, UpdateCronJobRequest.newSchedule, hreq, hschedule]
      exact hrow.schedule
    | some dto =>
      have hfits : edit.job.schedule.Fits := by
        rw [hjob, UpdateCronJobRequest.newSchedule, hreq]
        exact CronSchedule.fits_fromDtoWithExistingTimezone dto.2 _
      exact CronSchedule.parse_toRowFields hfits
  executionMode := by
    show ExecutionMode.fromStr (req.executionMode.getD _) = .ok edit.job.executionMode
    cases hreq : req.executionMode with
    | none =>
      have hmode : before.executionMode = original.executionMode :=
        (congrArg CronJob.executionMode hbefore :)
      rw [hedited.sameMode hreq, hmode]
      exact hrow.executionMode
    | some s => exact hedited.executionMode s hreq
  createdBy := by
    have hjob : edit.job.createdBy = before.createdBy := (congrArg CronJob.createdBy hedited.eq :)
    have hcreatedBy : before.createdBy = original.createdBy :=
      (congrArg CronJob.createdBy hbefore :)
    show CreatedBy.fromStr row.createdBy = .ok edit.job.createdBy
    rw [hjob, hcreatedBy]
    exact hrow.createdBy
  agentConfig := by
    have hconfig : before.agentConfig = original.agentConfig :=
      (congrArg CronJob.agentConfig hbefore :)
    show readConfig (Option.getD (if edit.agentConfigChanged = true then _ else _)
      row.agentConfig) = .ok edit.job.agentConfig
    cases hchanged : edit.agentConfigChanged with
    | true => exact readConfig_json _
    | false =>
      cases hreq : req.agentConfig with
      | none =>
        rw [hedited.sameConfig hreq hchanged, hconfig]
        show readConfig ((req.agentConfig.bind _).getD row.agentConfig) = _
        rw [hreq]
        exact hrow.agentConfig
      | some dto =>
        obtain ⟨-, config, hsome, -⟩ := hedited.agentConfig dto hreq
        show readConfig ((req.agentConfig.bind _).getD row.agentConfig) = _
        rw [hreq, Option.bind_some, hsome]
        exact readConfig_json (some config)
  lastStatus := by
    have hjob : edit.job.lastStatus = before.lastStatus :=
      (congrArg CronJob.lastStatus hedited.eq :)
    have hlast : before.lastStatus = original.lastStatus := (congrArg CronJob.lastStatus hbefore :)
    show readStatus row.lastStatus = .ok edit.job.lastStatus
    rw [hjob, hlast]
    exact hrow.lastStatus
  eq := by
    have hjob := hedited.eq
    rw [hbefore, hrow.eq] at hjob
    have hdescription : (req.description.map some).getD row.description =
        req.description.or row.description := by
      cases req.description with
      | none => rfl
      | some description => rfl
    have hnext : Option.getD (if req.schedule.isSome = true ∨ req.enabled.isSome = true then
        some edit.job.nextRunAt else none) row.nextRunAt = edit.job.nextRunAt := by
      by_cases hset : req.schedule.isSome = true ∨ req.enabled.isSome = true
      · rw [if_pos hset, Option.getD_some]
      · have hbefore' : before.nextRunAt = row.nextRunAt := by rw [hbefore, hrow.eq]
        rw [if_neg hset, Option.getD_none, hedited.nextRunAt hset, hbefore']
    refine CronJob.ext (congrArg CronJob.id hjob :) (congrArg CronJob.name hjob :)
      (congrArg CronJob.enabled hjob :) rfl (congrArg CronJob.message hjob :) rfl rfl rfl rfl rfl
      rfl (congrArg CronJob.skillContent hjob :) ?_ (congrArg CronJob.createdAt hjob :) rfl ?_
      (congrArg CronJob.lastRunAt hjob :) rfl (congrArg CronJob.lastError hjob :)
      (congrArg CronJob.runCount hjob :) (congrArg CronJob.retryCount hjob :) rfl
      (congrArg CronJob.queueEnabled hjob :)
    · exact (congrArg CronJob.description hjob :).trans hdescription.symm
    · exact hnext.symm

/-- The job that is read after an update is the one that the update returned. The retries are left
out, and so is the conversation of a job that leaves a blank one. -/
structure Persisted (req : UpdateCronJobRequest) (before job stored : CronJob) : Prop where
  eq : stored =
    { job with
      updatedAt := stored.updatedAt
      maxRetries := stored.maxRetries
      conversationId := stored.conversationId
      conversationTitle := stored.conversationTitle }
  conversation : ¬(req.Leaves before ∧ trim before.conversationId = "") →
    stored.conversationId = job.conversationId ∧
      stored.conversationTitle = job.conversationTitle

/-- What the request sets is there, the retries left out: a cron expression without a time zone
keeps the one before, and a title is dropped by a job that leaves its conversation. -/
structure Requested (svc : CronService) (req : UpdateCronJobRequest) (before stored : CronJob) :
    Prop where
  name : ∀ v, req.name = some v → stored.name = v
  description : ∀ v, req.description = some v → stored.description = some v
  enabled : ∀ v, req.enabled = some v → stored.enabled = v
  schedule : ∀ dto, req.schedule = some dto →
    stored.schedule = dto.1.fromDtoWithExistingTimezone before.schedule
  message : ∀ v, req.message = some v → stored.message = v
  executionMode : ∀ s, req.executionMode = some s → stored.executionMode.asStr = s
  agentConfig : ∀ dto, req.agentConfig = some dto → ∃ config, stored.agentConfig = some config ∧
    svc.buildCronAgentConfig stored.agentType (sanitizeAgentConfigDto dto) = .ok config
  conversationTitle : ∀ v, req.conversationTitle = some v →
    stored.conversationTitle = if req.Unbinds before then none else some v
  queueEnabled : ∀ v, req.queueEnabled = some v → stored.queueEnabled = v

/-- The conversation in the row after an update. -/
theorem conversation_update (row : CronJobRow) (now : TimestampMs)
    (hedited : Edited svc req before edit) :
    (row.update (edit.updateParams req) now).conversationId =
        (if req.Unbinds before then "" else row.conversationId) ∧
      (row.update (edit.updateParams req) now).conversationTitle =
        if req.Unbinds before then none else req.conversationTitle.or row.conversationTitle := by
  have hclears := hedited.clears
  show Option.getD (if edit.clearConversationBinding = true then some "" else none)
      row.conversationId = _ ∧
    Option.getD (if edit.clearConversationBinding = true then some none
      else req.conversationTitle.map some) row.conversationTitle = _
  by_cases hunbinds : req.Unbinds before
  · rw [hclears, decide_eq_true hunbinds, if_pos rfl, if_pos rfl, if_pos hunbinds, if_pos hunbinds]
    exact ⟨rfl, rfl⟩
  · rw [hclears, decide_eq_false hunbinds, if_neg Bool.false_ne_true, if_neg Bool.false_ne_true,
      if_neg hunbinds, if_neg hunbinds]
    refine ⟨rfl, ?_⟩
    cases req.conversationTitle with
    | none => rfl
    | some title => rfl

theorem persisted_of_edited (hid : before.conversationId = row.conversationId)
    (htitle : before.conversationTitle = row.conversationTitle)
    (hedited : Edited svc req before edit) (htype : edit.job.agentType = agentType) :
    Persisted req before edit.job
      { storedJob edit (row.update (edit.updateParams req) now) with agentType } where
  eq := by
    subst htype
    rfl
  conversation := by
    intro hbound
    obtain ⟨hconversation, hstored⟩ := conversation_update row now hedited
    have hjob : edit.job.conversationId =
        if req.Leaves before then "" else before.conversationId :=
      (congrArg CronJob.conversationId hedited.eq :)
    show (row.update (edit.updateParams req) now).conversationId = edit.job.conversationId ∧
      (row.update (edit.updateParams req) now).conversationTitle = edit.job.conversationTitle
    rw [hconversation, hstored, hjob, hedited.conversationTitle, hid, htitle]
    by_cases hleaves : req.Leaves before
    · have hunbinds : req.Unbinds before := ⟨hleaves, fun hblank => hbound ⟨hleaves, hblank⟩⟩
      rw [if_pos hunbinds, if_pos hleaves, if_pos hunbinds, if_pos hunbinds]
      exact ⟨rfl, rfl⟩
    · have hunbinds : ¬req.Unbinds before := fun h => hleaves h.1
      rw [if_neg hunbinds, if_neg hleaves, if_neg hunbinds, if_neg hunbinds, if_neg hleaves]
      exact ⟨rfl, rfl⟩

theorem requested_of_edited (hedited : Edited svc req before edit)
    (htype : edit.job.agentType = agentType) :
    Requested svc req before
      { storedJob edit (row.update (edit.updateParams req) now) with agentType } where
  name := by
    intro v hv
    have hname : edit.job.name = req.name.getD before.name := (congrArg CronJob.name hedited.eq :)
    exact hname.trans (by rw [hv, Option.getD_some])
  description := by
    intro v hv
    have hdescription : edit.job.description = req.description.or before.description :=
      (congrArg CronJob.description hedited.eq :)
    exact hdescription.trans (by rw [hv, Option.some_or])
  enabled := by
    intro v hv
    have henabled : edit.job.enabled = req.enabled.getD before.enabled :=
      (congrArg CronJob.enabled hedited.eq :)
    exact henabled.trans (by rw [hv, Option.getD_some])
  schedule := by
    intro dto hdto
    have hschedule : edit.job.schedule = req.newSchedule before.schedule :=
      (congrArg CronJob.schedule hedited.eq :)
    exact hschedule.trans (by rw [UpdateCronJobRequest.newSchedule, hdto])
  message := by
    intro v hv
    have hmessage : edit.job.message = req.message.getD before.message :=
      (congrArg CronJob.message hedited.eq :)
    exact hmessage.trans (by rw [hv, Option.getD_some])
  executionMode := fun s hs => ExecutionMode.asStr_of_fromStr (hedited.executionMode s hs)
  agentConfig := by
    intro dto hdto
    obtain ⟨-, config, hconfig, hbuild⟩ := hedited.agentConfig dto hdto
    subst htype
    exact ⟨config, hconfig, hbuild⟩
  conversationTitle := by
    intro v hv
    obtain ⟨-, hstored⟩ := conversation_update row now hedited
    exact hstored.trans (by rw [hv, Option.some_or])
  queueEnabled := by
    intro v hv
    have hqueue : edit.job.queueEnabled = req.queueEnabled.getD before.queueEnabled :=
      (congrArg CronJob.queueEnabled hedited.eq :)
    exact hqueue.trans (by rw [hv, Option.getD_some])

/-- The job that is read after an accepted update. -/
theorem getJob_updateJob (h : svc.updateJob rows id req times = .ok (rows', job)) :
    ∃ before stored, svc.getJob rows id = .ok before ∧ svc.getJob rows' id = .ok stored ∧
      stored.maxRetries = before.maxRetries ∧ Persisted req before job stored ∧
      Requested svc req before stored := by
  obtain ⟨before, hget, h⟩ := bind_eq_ok.mp h
  obtain ⟨edit, hedit, h⟩ := bind_eq_ok.mp h
  obtain ⟨rows', hrows, h⟩ := bind_eq_ok.mp h
  cases h
  obtain ⟨row, original, hrow, hholds, htype, hbefore⟩ := getJob_eq_ok.mp hget
  have horiginal : { before with agentType := "" } = original := by
    rw [hbefore, hholds.eq]
  have hedited : Edited svc req before edit := by
    refine edit_ok ?_ hedit
    rw [horiginal]
    exact htype
  obtain ⟨time, hrow'⟩ := find_updateRow hrow hrows
  have hid : before.conversationId = row.conversationId := by rw [hbefore, hholds.eq]
  have htitle : before.conversationTitle = row.conversationTitle := by rw [hbefore, hholds.eq]
  have hretries : before.maxRetries = row.maxRetries := by rw [hbefore, hholds.eq]
  have hassistant : assistantOf
      (storedJob edit (row.update (edit.updateParams req) time)).agentConfig =
        assistantOf edit.job.agentConfig := rfl
  have hstored : svc.resolveJobAgentType
      (storedJob edit (row.update (edit.updateParams req) time)) = .ok edit.job.agentType :=
    (resolveJobAgentType_congr hassistant).trans hedited.agentType
  refine ⟨before, { storedJob edit (row.update (edit.updateParams req) time) with
    agentType := edit.job.agentType }, hget, ?_, ?_, ?_, ?_⟩
  · exact getJob_eq_ok.mpr
      ⟨_, _, hrow', holds_update hholds hbefore hedited, hstored, rfl⟩
  · exact hretries.symm
  · exact persisted_of_edited hid htitle hedited rfl
  · exact requested_of_edited hedited rfl

/-- An accepted update stores what it returns and what the request sets. -/
theorem updateJob_persists (h : svc.updateJob rows id req times = .ok (rows', job)) :
    ∃ before stored, svc.getJob rows id = .ok before ∧ svc.getJob rows' id = .ok stored ∧
      Persisted req before job stored ∧ Requested svc req before stored := by
  obtain ⟨before, stored, hbefore, hstored, -, hpersisted, hrequested⟩ := getJob_updateJob h
  exact ⟨before, stored, hbefore, hstored, hpersisted, hrequested⟩

def sampleService : CronService where
  crates := ⟨fun _ _ _ => none, fun _ _ => true⟩
  assistants := fun _ => some ⟨"def", "claude"⟩
  overlays := fun _ => none
  runtimeBackend := fun agentId => agentId
  fullAutoMode := fun _ _ _ => "bypassPermissions"
  conversations := fun _ => some ⟨some (.record [])⟩
  autoWorkspaceToDelete := fun _ => none
  workspaceMatchesPath := fun stored target => stored = target
  unavailableWorkspace := fun _ => none

def sampleConfig : CronAgentConfig where
  name := "Claude"
  cliPath := none
  isPreset := none
  assistantId := some "assistant_1"
  customAgentId := none
  mode := some "bypassPermissions"
  modelId := none
  model := none
  configOptions := none
  workspace := none

/-- A job that runs in a conversation. -/
def sampleJob : CronJob where
  id := "cron_1"
  name := "Report"
  enabled := true
  schedule := .cron "0 9 * * *" none none
  message := "Write the report"
  executionMode := .existing
  agentConfig := some sampleConfig
  conversationId := "conv_1"
  conversationTitle := some "Chat"
  agentType := ""
  createdBy := .user
  skillContent := none
  description := none
  createdAt := 0
  updatedAt := 0
  nextRunAt := none
  lastRunAt := none
  lastStatus := none
  lastError := none
  runCount := 0
  retryCount := 0
  maxRetries := 3
  queueEnabled := false

/-- The job is to run in conversations of its own, with a title. -/
def sampleRequest : UpdateCronJobRequest where
  name := none
  description := none
  enabled := none
  schedule := none
  message := none
  executionMode := some "new_conversation"
  agentConfig := none
  conversationTitle := some "Daily report"
  maxRetries := none
  queueEnabled := none

def sampleUpdate : Except CronError (List CronJobRow × CronJob) :=
  sampleService.updateJob [cronJobToRow sampleJob] "cron_1" sampleRequest ⟨1, 2, 3⟩

theorem sampleUpdate_eq_ok : ∃ rows' job, sampleUpdate = .ok (rows', job) := by
  have hok : sampleUpdate.toOption.isSome = true := by decide +kernel
  cases hupdate : sampleUpdate with
  | error e =>
    rw [hupdate] at hok
    cases hok
  | ok updated => exact ⟨updated.1, updated.2, rfl⟩

theorem updateJob_persists_sample :
    ∃ rows' job, sampleUpdate = .ok (rows', job) ∧ ∃ before stored,
      sampleService.getJob [cronJobToRow sampleJob] "cron_1" = .ok before ∧
        sampleService.getJob rows' "cron_1" = .ok stored ∧
        Persisted sampleRequest before job stored ∧
        Requested sampleService sampleRequest before stored := by
  obtain ⟨rows', job, hupdate⟩ := sampleUpdate_eq_ok
  exact ⟨rows', job, hupdate, updateJob_persists hupdate⟩

/-- The title of a request that takes a job out of its conversation is dropped. -/
theorem update_drops_title :
    sampleRequest.conversationTitle = some "Daily report" ∧
      ∃ rows' job stored, sampleUpdate = .ok (rows', job) ∧
        sampleService.getJob rows' "cron_1" = .ok stored ∧ stored.conversationTitle = none := by
  have htitle : (sampleUpdate.toOption.bind fun updated =>
      (sampleService.getJob updated.1 "cron_1").toOption).map CronJob.conversationTitle =
        some none := by decide +kernel
  obtain ⟨rows', job, hupdate⟩ := sampleUpdate_eq_ok
  obtain ⟨before, stored, -, hstored, -⟩ := getJob_updateJob hupdate
  rw [hupdate] at htitle
  have htitle' : ((sampleService.getJob rows' "cron_1").toOption).map CronJob.conversationTitle =
      some none := htitle
  rw [hstored] at htitle'
  exact ⟨rfl, rows', job, stored, hupdate, hstored, Option.some.inj htitle'⟩

end AionCore.Cron.Records
