import AionCore.Agent.PermissionRouter
import AionCore.Lib.MergePatch

/-!
# ACP agents: approvals without the user

A permission request for a tool of an MCP server, whose title names both and whose raw input is what
the model wrote for the tool. The server is looked for in the raw input first.
-/

namespace AionCore.Agent

/-- What `raw_input.get("server_name")` names. -/
def rawInputServerName (rawInput : Option JsonValue) : Option String :=
  match rawInput.bind (JsonValue.get · "server_name") with
  | some (.string serverName) => some serverName
  | _ => none

/-- `mcp__S__T`. -/
def mcpToolTitle (serverName toolName : String) : String :=
  String.ofList ("mcp__".toList ++ (serverName.toList ++ ('_' :: '_' :: toolName.toList)))

/-- The request that an agent makes for a tool of a server. -/
def mcpToolRequest (toolCallId serverName toolName : String) (rawInput : Option JsonValue)
    (options : List PermissionOption) : PermissionRequest :=
  ⟨toolCallId, some (mcpToolTitle serverName toolName), rawInputServerName rawInput, options⟩

namespace PermissionOption

/-- The option allows the call. -/
def Allows (option : PermissionOption) : Prop :=
  option.kind = .allowAlways ∨ option.kind = .allowOnce

end PermissionOption

namespace PermissionRequest

variable {request : PermissionRequest} {serverName toolName teamName callId : String}
  {rawInput : Option JsonValue} {options : List PermissionOption}

/-- If the request is approved, then it is for the team's server, and by an option that allows the
call. -/
def ApprovedForTeam (request : PermissionRequest) (serverName : String) : Prop :=
  ∀ optionId, request.autoApproveOptionId = some optionId →
    serverName ∈ autoApproveMcpServers ∧
      ∃ option ∈ request.options, option.optionId = optionId ∧ option.Allows

/-- The raw input names this server. -/
def RawNames (rawInput : Option JsonValue) (serverName : String) : Prop :=
  rawInputServerName rawInput = some serverName ∧ serverName ≠ ""

/-- The title of a tool of this server reads as if it were the other one's. -/
def TitleReadsAs (serverName other : String) : Prop :=
  serverName.toList = other.toList ++ ['_'] ∨ other.toList ++ ['_', '_'] <+: serverName.toList

theorem selectAllowOptionId_isSome :
    request.selectAllowOptionId.isSome = true ↔ ∃ option ∈ request.options, option.Allows := by
  unfold selectAllowOptionId
  rw [Option.isSome_map, Option.isSome_or, Bool.or_eq_true, List.find?_isSome, List.find?_isSome]
  simp only [decide_eq_true_eq, PermissionOption.Allows]
  constructor
  · rintro (⟨option, hmem, hkind⟩ | ⟨option, hmem, hkind⟩)
    · exact ⟨option, hmem, .inl hkind⟩
    · exact ⟨option, hmem, .inr hkind⟩
  · rintro ⟨option, hmem, hkind | hkind⟩
    · exact .inl ⟨option, hmem, hkind⟩
    · exact .inr ⟨option, hmem, hkind⟩

variable {optionId : String}

theorem selectAllowOptionId_allows (h : request.selectAllowOptionId = some optionId) :
    ∃ option ∈ request.options, option.optionId = optionId ∧ option.Allows := by
  unfold selectAllowOptionId at h
  rw [Option.map_eq_some_iff] at h
  obtain ⟨option, hfound, rfl⟩ := h
  rcases Option.or_eq_some_iff.mp hfound with hfound | ⟨-, hfound⟩
  · exact ⟨option, List.mem_of_find?_eq_some hfound, rfl,
      .inl (by simpa using List.find?_some hfound)⟩
  · exact ⟨option, List.mem_of_find?_eq_some hfound, rfl,
      .inr (by simpa using List.find?_some hfound)⟩

theorem autoApproveOptionId_eq_some :
    request.autoApproveOptionId = some optionId ↔
      (∃ serverName ∈ autoApproveMcpServers, request.extractMcpServerName = some serverName) ∧
        request.selectAllowOptionId = some optionId := by
  unfold autoApproveOptionId
  cases hname : request.extractMcpServerName with
  | none => simp
  | some serverName =>
    split
    · next hmem => simp [hmem]
    · next hmem => simp [hmem]

variable {before : List Char}

theorem splitOnce_eq_some {l after : List Char} (h : splitOnce l = some (before, after)) :
    l = before ++ '_' :: '_' :: after := by
  induction l generalizing before with
  | nil => cases h
  | cons c l ih =>
    rw [splitOnce] at h
    split at h
    · next hsep =>
      obtain ⟨rest, hrest⟩ := List.isPrefixOf_iff_prefix.mp hsep
      obtain ⟨rfl, rfl⟩ := List.cons.inj hrest
      obtain ⟨rfl, rfl⟩ := Prod.mk.inj (Option.some.inj h)
      rfl
    · obtain ⟨⟨before', after'⟩, hsplit, heq⟩ := Option.map_eq_some_iff.mp h
      obtain ⟨rfl, rfl⟩ := Prod.mk.inj heq
      rw [ih hsplit, List.cons_append]

theorem splitOnce_append (h : '_' ∉ before) (after : List Char) :
    splitOnce (before ++ '_' :: '_' :: after) = some (before, after) := by
  induction before with
  | nil => rfl
  | cons c before ih =>
    rw [List.mem_cons, not_or] at h
    rw [List.cons_append, splitOnce, if_neg, ih h.2, Option.map_some]
    simp [List.isPrefixOf, h.1]

theorem extractMcpServerFromPrefixedTitle_toolTitle :
    extractMcpServerFromPrefixedTitle (mcpToolTitle serverName toolName) = some teamName ↔
      ∃ after, splitOnce (serverName.toList ++ '_' :: '_' :: toolName.toList) =
        some (teamName.toList, after) ∧ teamName.toList ≠ [] ∧ after ≠ [] := by
  have htitle : (mcpToolTitle serverName toolName).toList =
      "mcp__".toList ++ (serverName.toList ++ '_' :: '_' :: toolName.toList) :=
    String.toList_ofList
  have hstart : "mcp__".toList.isPrefixOf (mcpToolTitle serverName toolName).toList = true :=
    List.isPrefixOf_iff_prefix.mpr ⟨_, htitle.symm⟩
  have hdrop : (mcpToolTitle serverName toolName).toList.drop 5 =
      serverName.toList ++ '_' :: '_' :: toolName.toList := by
    rw [htitle]
    exact List.drop_left' rfl
  unfold extractMcpServerFromPrefixedTitle
  rw [if_pos hstart, hdrop]
  cases hsplit : splitOnce (serverName.toList ++ '_' :: '_' :: toolName.toList) with
  | none => simp
  | some split =>
    obtain ⟨before, after⟩ := split
    dsimp only
    constructor
    · intro h
      split at h
      · cases h
      · next hempty =>
        simp only [Bool.or_eq_true, List.isEmpty_iff, not_or] at hempty
        rw [← Option.some.inj h, String.toList_ofList]
        exact ⟨after, rfl, hempty⟩
    · rintro ⟨after', heq, hbefore, hafter⟩
      obtain ⟨rfl, rfl⟩ := Prod.mk.inj (Option.some.inj heq)
      rw [if_neg (by simp [hbefore, hafter]), String.ofList_toList]

/-- A text without the separator that is followed by one, read at the front of another such text:
either it is the first part of that one, or that one goes on with an underscore. -/
theorem append_separator_eq {name after tool : List Char} (h : '_' ∉ before)
    (heq : name ++ '_' :: '_' :: tool = before ++ '_' :: '_' :: after) :
    name = before ∨ name = before ++ ['_'] ∨ before ++ ['_', '_'] <+: name := by
  rcases List.append_eq_append_iff.mp heq with ⟨rest, rfl, hrest⟩ | ⟨rest, rfl, hrest⟩
  · cases rest with
    | nil => exact .inl (List.append_nil _).symm
    | cons c rest =>
      obtain ⟨rfl, -⟩ := List.cons.inj hrest
      exact absurd (by simp) h
  · cases rest with
    | nil => exact .inl (List.append_nil _)
    | cons c rest =>
      obtain ⟨rfl, htail⟩ := List.cons.inj hrest
      cases rest with
      | nil => exact .inr (.inl rfl)
      | cons d rest =>
        obtain rfl : '_' = d := (List.cons.inj htail).1
        exact .inr (.inr ⟨rest, by simp⟩)

/-- Another server's title is read as this one's exactly if its name goes on after this name with
one underscore, or with two and anything. -/
theorem title_reads_as_iff (hteam : '_' ∉ teamName.toList) (hname : teamName.toList ≠ [])
    (hother : serverName ≠ teamName) :
    extractMcpServerFromPrefixedTitle (mcpToolTitle serverName toolName) = some teamName ↔
      TitleReadsAs serverName teamName := by
  rw [extractMcpServerFromPrefixedTitle_toolTitle]
  constructor
  · rintro ⟨after, hsplit, -, -⟩
    rcases append_separator_eq hteam (splitOnce_eq_some hsplit) with heq | heq
    · exact absurd (String.toList_inj.mp heq) hother
    · exact heq
  · rintro (heq | ⟨rest, heq⟩)
    · refine ⟨'_' :: toolName.toList, ?_, hname, List.cons_ne_nil _ _⟩
      rw [heq, ← splitOnce_append hteam]
      simp
    · refine ⟨rest ++ '_' :: '_' :: toolName.toList, ?_, hname, by simp⟩
      rw [← heq, ← splitOnce_append hteam]
      simp

theorem extractMcpServerName_eq_some :
    (mcpToolRequest callId serverName toolName rawInput options).extractMcpServerName =
        some teamName ↔
      RawNames rawInput teamName ∨ ((∀ other, ¬RawNames rawInput other) ∧
        extractMcpServerFromPrefixedTitle (mcpToolTitle serverName toolName) = some teamName) := by
  unfold extractMcpServerName extractMcpServerFromRawInput mcpToolRequest RawNames
  rw [Option.or_eq_some_iff, Option.filter_eq_some_iff, Option.filter_eq_none_iff, Option.bind_some,
    decide_eq_true_iff]
  refine or_congr_right (and_congr_left fun _ => forall_congr' fun other => ?_)
  rw [decide_eq_true_iff, not_and]

theorem approvedForTeam_iff :
    request.ApprovedForTeam serverName ↔ serverName = "aionui-team" ∨
      (∀ option ∈ request.options, ¬option.Allows) ∨
      request.extractMcpServerName ≠ some "aionui-team" := by
  constructor
  · intro h
    by_contra hnot
    simp only [not_or, not_forall, not_not] at hnot
    obtain ⟨hother, ⟨option, hmem, hallows⟩, hserver⟩ := hnot
    obtain ⟨optionId, hselected⟩ := Option.isSome_iff_exists.mp
      (selectAllowOptionId_isSome.mpr ⟨option, hmem, hallows⟩)
    have hteam := (h optionId (autoApproveOptionId_eq_some.mpr
      ⟨⟨_, List.mem_singleton_self _, hserver⟩, hselected⟩)).1
    exact hother (List.mem_singleton.mp hteam)
  · intro h optionId happroved
    obtain ⟨⟨name, hteam, hserver⟩, hselected⟩ := autoApproveOptionId_eq_some.mp happroved
    obtain rfl := List.mem_singleton.mp hteam
    have hoption := selectAllowOptionId_allows hselected
    rcases h with rfl | hnone | hother
    · exact ⟨hteam, hoption⟩
    · obtain ⟨option, hmem, -, hallows⟩ := hoption
      exact absurd hallows (hnone option hmem)
    · exact absurd hserver hother

/-- A tool is approved for the team's server only, unless an option allows the call and either the
raw input names the team's server, or it names none and the title reads as if it did. -/
theorem approved_for_team_iff (callId serverName toolName : String) (rawInput : Option JsonValue)
    (options : List PermissionOption) :
    (mcpToolRequest callId serverName toolName rawInput options).ApprovedForTeam serverName ↔
      serverName = "aionui-team" ∨ (∀ option ∈ options, ¬option.Allows) ∨
      (¬RawNames rawInput "aionui-team" ∧
        ((∃ other, RawNames rawInput other) ∨ ¬TitleReadsAs serverName "aionui-team")) := by
  rw [approvedForTeam_iff]
  by_cases hteam : serverName = "aionui-team"
  · exact iff_of_true (.inl hteam) (.inl hteam)
  · refine or_congr_right (or_congr_right ?_)
    rw [ne_eq, extractMcpServerName_eq_some, title_reads_as_iff (by decide) (by decide) hteam,
      not_or, not_and_or]
    simp only [not_forall, not_not]

/-- A tool of the shell is approved because the model wrote the name of the team's server among its
arguments. -/
theorem shell_tool_approved : ¬(mcpToolRequest "call-1" "shell" "run"
    (some (.object {"server_name"} fun _ => .string "aionui-team"))
    [⟨.allowAlways, "always"⟩, ⟨.rejectOnce, "reject"⟩]).ApprovedForTeam "shell" := by
  intro h
  have happroved := (h "always" (by decide)).1
  exact absurd (List.mem_singleton.mp happroved) (by decide)

end PermissionRequest

end AionCore.Agent
