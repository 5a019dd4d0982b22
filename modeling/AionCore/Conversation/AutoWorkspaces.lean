import AionCore.Conversation.ExtraUpdates
import AionCore.File.PathSafety
import Mathlib.Data.List.TakeWhile
import Mathlib.Data.Nat.Digits.Defs
import Mathlib.Tactic.IntervalCases

/-!
# Conversations: generated workspaces

`resolve_workspace` of `session_context.rs`, and of `service.rs` `maybe_persist_workspace` and the
check of `ensure_workspace_skill_links`. Whether a workspace is generated is not stored: the path
that would be generated today is computed again, and it has today's date in it.
-/

namespace AionCore.Conversation

open AionCore.File (Component components)

namespace PathText

def split : List Char → List (List Char)
  | [] => [[]]
  | c :: rest =>
    if c = '/' then [] :: split rest
    else
      match split rest with
      | [] => [[c]]
      | piece :: pieces => (c :: piece) :: pieces

/-- The pieces that a name comes from. -/
def names (pieces : List (List Char)) : List Component :=
  (pieces.map String.ofList).filterMap fun x =>
    if x = "" ∨ x = "." then none else if x = ".." then some .parentDir else some (.normal x)

/-- `Path::new(path)`, which compares by its components. -/
def parse (path : String) : List Component := components ((split path.toList).map String.ofList)

def isAbsolute (path : String) : Bool := path.toList.head? = some '/'

/-- `PathBuf::join` -/
def join (base path : String) : String :=
  if isAbsolute path then path
  else if base.toList.getLast? = none ∨ base.toList.getLast? = some '/' then base ++ path
  else base ++ "/" ++ path

theorem split_ne_nil (cs : List Char) : split cs ≠ [] := by
  cases cs with
  | nil => simp [split]
  | cons c rest =>
    rw [split]
    split
    · exact List.cons_ne_nil _ _
    · split
      · exact List.cons_ne_nil _ _
      · exact List.cons_ne_nil _ _

theorem split_append_slash (cs ds : List Char) :
    split (cs ++ '/' :: ds) = split cs ++ split ds := by
  induction cs with
  | nil => simp [split]
  | cons c rest ih =>
    rw [List.cons_append, split, split, ih]
    split
    · rfl
    · cases hrest : split rest with
      | nil => exact absurd hrest (split_ne_nil rest)
      | cons piece pieces => rfl

variable {cs : List Char}

theorem split_plain (h : '/' ∉ cs) : split cs = [cs] := by
  induction cs with
  | nil => rfl
  | cons c rest ih =>
    have hc : c ≠ '/' := fun heq => h (heq ▸ List.mem_cons_self)
    rw [split, if_neg hc, ih fun hmem => h (List.mem_cons_of_mem c hmem)]

@[simp] theorem names_append (ps qs : List (List Char)) :
    names (ps ++ qs) = names ps ++ names qs := by
  simp [names]

/-- What stands before the names, by the first piece: the root, or a leading dot. -/
def lead (first : Option (List Char)) : List Component :=
  if first = some [] then [.rootDir] else if first = some ['.'] then [.curDir] else []

theorem ofList_eq_iff {ds : List Char} : String.ofList cs = String.ofList ds ↔ cs = ds :=
  ⟨fun h => by simpa using congrArg String.toList h, congrArg _⟩

theorem components_map {pieces : List (List Char)} (h : pieces ≠ [[]]) :
    components (pieces.map String.ofList) = lead pieces.head? ++ names pieces := by
  have hempty : "" = String.ofList [] := rfl
  have hdot : "." = String.ofList ['.'] := rfl
  unfold components lead names
  cases pieces with
  | nil => rfl
  | cons p ps =>
    have hbare : (p :: ps).map String.ofList ≠ [""] := by
      intro heq
      rw [List.map_cons, List.cons.injEq, List.map_eq_nil_iff, hempty, ofList_eq_iff] at heq
      exact h (by rw [heq.1, heq.2])
    simp only [List.map_cons, List.head?_cons, Option.some.injEq] at hbare ⊢
    by_cases hp : p = []
    · rw [if_pos ⟨by rw [hp], hbare⟩, if_pos hp]
      rfl
    · have hne : String.ofList p ≠ "" := by rwa [hempty, ne_eq, ofList_eq_iff]
      rw [if_neg fun hlead => hne hlead.1, if_neg hp]
      by_cases hcur : p = ['.']
      · rw [if_pos (by rw [hcur]), if_pos hcur]
        rfl
      · rw [if_neg (by rwa [hdot, ofList_eq_iff]), if_neg hcur]
        rfl

theorem split_eq_bare (h : split cs = [[]]) : cs = [] := by
  cases cs with
  | nil => rfl
  | cons c rest =>
    rw [split] at h
    split at h
    · exact absurd (List.cons.inj h).2 (split_ne_nil rest)
    · split at h
      · cases h
      · cases h

theorem head?_append {ps qs : List (List Char)} (h : ps ≠ []) :
    (ps ++ qs).head? = ps.head? := by
  cases ps with
  | nil => exact absurd rfl h
  | cons p ps => rfl

theorem parse_of_ne {path : String} (h : path ≠ "") :
    parse path = lead (split path.toList).head? ++ names (split path.toList) :=
  components_map fun hbare => h (String.toList_eq_nil_iff.mp (split_eq_bare hbare))

variable {base path : String}

theorem join_ne_empty (h : path ≠ "") : join base path ≠ "" := by
  unfold join
  split
  · exact h
  · split
    · exact fun heq => h (String.append_eq_empty_iff.mp heq).2
    · intro heq
      have := congrArg String.toList heq
      simp at this

/-- What is joined to a path comes after its components. -/
theorem parse_join (hbase : base ≠ "") (hpath : path ≠ "") (hrelative : isAbsolute path = false) :
    parse (join base path) = parse base ++ names (split path.toList) := by
  have hchars : base.toList ≠ [] := fun h => hbase (String.toList_eq_nil_iff.mp h)
  rw [parse_of_ne (join_ne_empty hpath), parse_of_ne hbase]
  unfold join
  rw [if_neg (by simp [hrelative])]
  by_cases hslash : base.toList.getLast? = some '/'
  · -- the slash is there already
    obtain ⟨front, hfront⟩ := List.getLast?_eq_some_iff.mp hslash
    rw [if_pos (.inr hslash), String.toList_append, hfront, List.append_assoc,
      List.singleton_append, split_append_slash, split_append_slash, names_append, names_append,
      head?_append (split_ne_nil _), head?_append (split_ne_nil _)]
    have hbare : names (split []) = [] := by simp [split, names]
    rw [hbare, List.append_nil, List.append_assoc]
  · have hsome : ¬(base.toList.getLast? = none ∨ base.toList.getLast? = some '/') := by
      rw [List.getLast?_eq_none_iff]
      exact fun h => h.elim hchars hslash
    rw [if_neg hsome, String.toList_append, String.toList_append]
    have hcons : base.toList ++ "/".toList ++ path.toList = base.toList ++ '/' :: path.toList := by
      simp
    rw [hcons, split_append_slash, names_append, head?_append (split_ne_nil _), List.append_assoc]

end PathText

open PathText

def zeroPad (width n : ℕ) : String :=
  String.ofList (((Nat.digits 10 n ++
    List.replicate (width - (Nat.digits 10 n).length) 0).reverse).map Nat.digitChar)

structure LocalDate where
  year : ℕ
  month : ℕ
  day : ℕ
  deriving DecidableEq

theorem digitChar_spec {d : ℕ} (h : d < 10) :
    (Nat.digitChar d).toNat - 48 = d ∧ Nat.digitChar d ≠ '/' ∧ Nat.digitChar d ≠ '.' := by
  interval_cases d <;> decide

theorem padded_lt (width n : ℕ) :
    ∀ d ∈ Nat.digits 10 n ++ List.replicate (width - (Nat.digits 10 n).length) 0, d < 10 := by
  intro d hd
  rcases List.mem_append.mp hd with hd | hd
  · exact Nat.digits_lt_base (by decide) hd
  · rw [List.eq_of_mem_replicate hd]
    decide

def ofPad (text : String) : ℕ := Nat.ofDigits 10 ((text.toList.map fun c => c.toNat - 48).reverse)

theorem ofPad_zeroPad (width n : ℕ) : ofPad (zeroPad width n) = n := by
  have hdigits : ∀ ds : List ℕ, (∀ d ∈ ds, d < 10) →
      (ds.map Nat.digitChar).map (fun c => c.toNat - 48) = ds := by
    intro ds hds
    rw [List.map_map]
    exact (List.map_congr_left fun d hd => (digitChar_spec (hds d hd)).1).trans (List.map_id ds)
  rw [ofPad, zeroPad, String.toList_ofList,
    hdigits _ fun d hd => padded_lt width n d (List.mem_reverse.mp hd), List.reverse_reverse,
    Nat.ofDigits_append_replicate_zero, Nat.ofDigits_digits]

/-- A padded number is a name of its own in a path. -/
theorem split_zeroPad {width : ℕ} (hwidth : 0 < width) (n : ℕ) :
    isAbsolute (zeroPad width n) = false ∧ zeroPad width n ≠ "" ∧
      names (split (zeroPad width n).toList) = [.normal (zeroPad width n)] := by
  have hchar : ∀ c ∈ (zeroPad width n).toList, c ≠ '/' ∧ c ≠ '.' := by
    intro c hc
    rw [zeroPad, String.toList_ofList] at hc
    obtain ⟨d, hd, rfl⟩ := List.mem_map.mp hc
    exact (digitChar_spec (padded_lt width n d (List.mem_reverse.mp hd))).2
  have hlength : (zeroPad width n).toList.length ≠ 0 := by
    simp only [zeroPad, String.toList_ofList, List.length_map, List.length_reverse,
      List.length_append, List.length_replicate]
    omega
  have hslash : '/' ∉ (zeroPad width n).toList := fun h => (hchar '/' h).1 rfl
  have hempty : zeroPad width n ≠ "" := fun h => hlength (by rw [h]; rfl)
  have hdot : zeroPad width n ≠ "." := fun h => (hchar '.' (by rw [h]; decide)).2 rfl
  have hdots : zeroPad width n ≠ ".." := fun h => (hchar '.' (by rw [h]; decide)).2 rfl
  refine ⟨?_, hempty, ?_⟩
  · cases hlist : (zeroPad width n).toList with
    | nil => exact absurd (congrArg List.length hlist) hlength
    | cons c rest =>
      have hc : c ≠ '/' := (hchar c (hlist ▸ List.mem_cons_self)).1
      simp [isAbsolute, hlist, hc]
  · rw [split_plain hslash]
    simp [names, hempty, hdot, hdots]

def autoWorkspaceParent (workspaceRoot : String) (today : LocalDate) : String :=
  join (join (join (join workspaceRoot "conversations") (zeroPad 4 today.year))
    (zeroPad 2 today.month)) (zeroPad 2 today.day)

def conversationLabel (agentType : AgentType) (backend : Option ExtraValue) : String :=
  if agentType = .acp then
    match backend with
    | some (.text s) => if s = "" then agentType.serdeName else s
    | _ => agentType.serdeName
  else agentType.serdeName

def workspaceName (conversationId label : String) : String := label ++ "-temp-" ++ conversationId

def expectedAutoWorkspacePath (workspaceRoot : String) (today : LocalDate) (conversationId : String)
    (agentType : AgentType) (backend : Option ExtraValue) : String :=
  join (autoWorkspaceParent workspaceRoot today)
    (workspaceName conversationId (conversationLabel agentType backend))

theorem date_ext {d d' : LocalDate} (hy : zeroPad 4 d.year = zeroPad 4 d'.year)
    (hm : zeroPad 2 d.month = zeroPad 2 d'.month) (hd : zeroPad 2 d.day = zeroPad 2 d'.day) :
    d = d' := by
  have hyear := congrArg ofPad hy
  have hmonth := congrArg ofPad hm
  have hday := congrArg ofPad hd
  simp only [ofPad_zeroPad] at hyear hmonth hday
  cases d
  cases d'
  simp_all

/-- The components of the directory of a day. -/
theorem parse_autoWorkspaceParent (root : String) (d : LocalDate) :
    autoWorkspaceParent root d ≠ "" ∧ parse (autoWorkspaceParent root d) =
      parse (join root "conversations") ++ [.normal (zeroPad 4 d.year),
        .normal (zeroPad 2 d.month), .normal (zeroPad 2 d.day)] := by
  obtain ⟨hya, hye, hyn⟩ := split_zeroPad (show 0 < 4 by decide) d.year
  obtain ⟨hma, hme, hmn⟩ := split_zeroPad (show 0 < 2 by decide) d.month
  obtain ⟨hda, hde, hdn⟩ := split_zeroPad (show 0 < 2 by decide) d.day
  have hroot : join root "conversations" ≠ "" := join_ne_empty (by decide)
  refine ⟨join_ne_empty hde, ?_⟩
  rw [autoWorkspaceParent, parse_join (join_ne_empty hme) hde hda,
    parse_join (join_ne_empty hye) hme hma, parse_join hroot hye hya, hyn, hmn, hdn]
  simp

/-- The directory that is generated under one name on one day is that of the other name on the other
day. An absolute name is a path of its own. -/
def SameDirectory (root : String) (d : LocalDate) (name : String) (d' : LocalDate)
    (name' : String) : Prop :=
  if isAbsolute name = false ∧ isAbsolute name' = false then
    d = d' ∧ names (split name.toList) = names (split name'.toList)
  else parse (join (autoWorkspaceParent root d) name) =
    parse (join (autoWorkspaceParent root d') name')

theorem sameDirectory_iff {root name name' : String} {d d' : LocalDate} (hname : name ≠ "")
    (hname' : name' ≠ "") :
    parse (join (autoWorkspaceParent root d) name) =
      parse (join (autoWorkspaceParent root d') name') ↔ SameDirectory root d name d' name' := by
  unfold SameDirectory
  split
  · next hrelative =>
    obtain ⟨hne, hparent⟩ := parse_autoWorkspaceParent root d
    obtain ⟨hne', hparent'⟩ := parse_autoWorkspaceParent root d'
    rw [parse_join hne hname hrelative.1, parse_join hne' hname' hrelative.2, hparent, hparent',
      List.append_assoc, List.append_assoc, List.append_cancel_left_eq]
    simp only [List.cons_append, List.nil_append, List.cons.injEq, Component.normal.injEq]
    constructor
    · rintro ⟨hy, hm, hd, hnames⟩
      exact ⟨date_ext hy hm hd, hnames⟩
    · rintro ⟨rfl, hnames⟩
      exact ⟨rfl, rfl, rfl, hnames⟩
  · exact Iff.rfl

theorem workspaceName_ne (id label : String) : workspaceName id label ≠ "" := by
  intro h
  have := congrArg String.toList h
  simp [workspaceName] at this

structure WorkspaceContext where
  path : String
  storedPath : String
  isCustom : Bool

inductive WorkspacePathValidationError where
  | empty
  | doesNotExist (path : String)
  | notDirectory (path : String)
  | notAccessible (path : String)

/-- Why a session is not built. -/
inductive SessionBuildError where
  | internal (reason : String)
  | badRequest (reason : String)
  | workspacePathRuntimeUnavailable (path : String)

/-- What the build of a session finds: the dates on which the workspace is resolved and its skills
are linked, the file system, and the backend of the agent, if there is one. -/
structure SessionBuild where
  today : LocalDate
  linked : LocalDate
  metadata : String → PathMetadata
  /-- Why a directory is not created. -/
  createDirAll : String → Option String
  storedBackend : Option (Option String)

def validateWorkspacePathAvailability (metadata : String → PathMetadata) (workspace : String) :
    Except WorkspacePathValidationError String :=
  if trim workspace = "" then .error .empty
  else
    match metadata workspace with
    | .directory => .ok workspace
    | .notDirectory => .error (.notDirectory workspace)
    | .notFound => .error (.doesNotExist workspace)
    | .notAccessible => .error (.notAccessible workspace)

def mapRuntimeWorkspaceValidationError : WorkspacePathValidationError → SessionBuildError
  | .empty => .badRequest "Workspace directory is empty"
  | .doesNotExist path | .notDirectory path | .notAccessible path =>
    .workspacePathRuntimeUnavailable path

section Builds

variable (root : String) (build : SessionBuild)

def resolveWorkspace (conversationId : String) (agentType : AgentType) (extra : ExtraJson)
    (workspaceOverride : Option String) : Except SessionBuildError WorkspaceContext :=
  let expectedAutoWorkspace :=
    expectedAutoWorkspacePath root build.today conversationId agentType (extra.get "backend")
  let existingStoredPath := ((extra.get "workspace").bind ExtraValue.asStr).getD ""
  match (workspaceOverride.map trim).filter (· ≠ "") with
  | some overridePath =>
    match validateWorkspacePathAvailability build.metadata overridePath with
    | .ok normalized => .ok ⟨normalized, existingStoredPath, true⟩
    | .error error => .error (mapRuntimeWorkspaceValidationError error)
  | none =>
    match ((extra.get "workspace").bind ExtraValue.asStr).filter (· ≠ "") with
    | none =>
      match build.createDirAll expectedAutoWorkspace with
      | some e => .error (.internal ("Failed to create workspace: " ++ e))
      | none => .ok ⟨expectedAutoWorkspace, "", false⟩
    | some storedPath =>
      let context (normalized : String) : WorkspaceContext :=
        ⟨normalized, storedPath, parse normalized ≠ parse expectedAutoWorkspace⟩
      match validateWorkspacePathAvailability build.metadata storedPath with
      | .ok normalized => .ok (context normalized)
      | .error (.doesNotExist path) =>
        -- a generated directory may be gone
        if parse expectedAutoWorkspace = parse storedPath then .ok (context path)
        else .error (mapRuntimeWorkspaceValidationError (.doesNotExist path))
      | .error error => .error (mapRuntimeWorkspaceValidationError error)

/-- The workspace of `build`. -/
def buildWorkspace (row : ConversationRow ExtraColumn) :
    Except SessionBuildError WorkspaceContext :=
  match AgentType.ofName row.type, row.extra with
  | none, _ => .error (.internal ("Invalid enum value '" ++ row.type ++ "'"))
  | some _, none => .error (.internal "Invalid extra JSON")
  | some agentType, some extra => resolveWorkspace root build row.id agentType extra none

/-- `config.backend` of an ACP session: that of the agent of its `acp_session` row, unless the extra
has an agent id. The seed of a team is read from the same member of the extra. -/
def configBackend (extra : ExtraJson) : Option String :=
  let backend := (extra.get "backend").bind ExtraValue.asStr
  match ((extra.get "agent_id").bind ExtraValue.asStr).filter (· ≠ "") with
  | some _ => backend
  | none => build.storedBackend.getD backend

def contextBackendValue (agentType : AgentType) (extra : ExtraJson) : Option ExtraValue :=
  if agentType = .acp then ((configBackend build extra).filter (· ≠ "")).map .text else none

/-- `ensure_workspace_skill_links` goes on as for a generated workspace. -/
def linksAsGenerated (row : ConversationRow ExtraColumn) (context : WorkspaceContext) : Bool :=
  match AgentType.ofName row.type, row.extra with
  | some agentType, some extra =>
    !context.isCustom && parse (trim context.path) = parse (expectedAutoWorkspacePath root
      build.linked row.id agentType (contextBackendValue build agentType extra))
  | _, _ => false

/-- The workspace stays generated in a session that is built again: the same path, not custom, and
linked as a generated one. -/
def StaysGenerated (row : ConversationRow ExtraColumn) (path : String) : Prop :=
  ∃ context, buildWorkspace root build row = .ok context ∧ context.path = path ∧
    context.isCustom = false ∧ linksAsGenerated root build row context = true

/-- The build has generated a workspace, and its path is written to the row. -/
structure Provisioned (row row' : ConversationRow ExtraColumn) (context : WorkspaceContext) :
    Prop where
  built : buildWorkspace root build row = .ok context
  written : ∃ now allows updates, maybePersistWorkspace now row allows context.storedPath
    context.path = .ok (some updates) ∧ row' = updates.apply row

end Builds

/-- The later build finds the directory of the first one under the name by which it resolves and
under the one by which it links: on the same day, unless the name is a path of its own. -/
def FoundAgain (root : String) (first later : SessionBuild) (row : ConversationRow ExtraColumn)
    (agentType : AgentType) (extra : ExtraJson) : Prop :=
  let name := workspaceName row.id (conversationLabel agentType (extra.get "backend"))
  let linkName := workspaceName row.id
    (conversationLabel agentType (contextBackendValue later agentType extra))
  let path := join (autoWorkspaceParent root first.today) name
  SameDirectory root first.today name later.today name ∧
    if trim path = path then SameDirectory root first.today name later.linked linkName
    else parse (trim path) = parse (join (autoWorkspaceParent root later.linked) linkName)

theorem trim_ne_empty {s : String} {c : Char} (hc : c ∈ s.toList) (h : isWhitespace c = false) :
    trim s ≠ "" := by
  intro htrim
  have hreverse : ((s.toList.dropWhile isWhitespace).reverse.dropWhile isWhitespace).reverse =
      [] := by
    simpa [trim] using congrArg String.toList htrim
  have hall : ∀ x ∈ s.toList.dropWhile isWhitespace, isWhitespace x = true := by
    have hnil := List.reverse_eq_nil_iff.mp hreverse
    rw [List.dropWhile_eq_nil_iff] at hnil
    exact fun x hx => hnil x (List.mem_reverse.mpr hx)
  rw [← List.takeWhile_append_dropWhile (p := isWhitespace) (l := s.toList)] at hc
  rcases List.mem_append.mp hc with hmem | hmem
  · rw [List.mem_takeWhile_imp hmem] at h
    cases h
  · rw [hall c hmem] at h
    cases h

theorem trim_join_ne (base id label : String) : trim (join base (workspaceName id label)) ≠ "" := by
  have hdash : '-' ∈ (workspaceName id label).toList := by simp [workspaceName]
  refine trim_ne_empty (c := '-') ?_ (by decide)
  unfold join
  split
  · exact hdash
  · split
    · simp [hdash]
    · simp [hdash]

section Rebuilt

variable {root : String} {first later : SessionBuild} {row row' : ConversationRow ExtraColumn}
  {context : WorkspaceContext} {agentType : AgentType} {extra : ExtraJson}
  {metadata : String → PathMetadata}

theorem validate_ok {workspace path : String}
    (h : validateWorkspacePathAvailability metadata workspace = .ok path) : path = workspace := by
  unfold validateWorkspacePathAvailability at h
  split at h
  · cases h
  · split at h <;> cases h
    rfl

theorem validate_missing {workspace path : String}
    (h : validateWorkspacePathAvailability metadata workspace = .error (.doesNotExist path)) :
    path = workspace := by
  unfold validateWorkspacePathAvailability at h
  split at h
  · cases h
  · split at h <;> cases h
    rfl

/-- A workspace is resolved to the generated path, or to the one that was stored. -/
theorem path_of_resolved {id : String}
    (h : resolveWorkspace root first id agentType extra none = .ok context) :
    context.path =
        expectedAutoWorkspacePath root first.today id agentType (extra.get "backend") ∨
      context.path = context.storedPath := by
  unfold resolveWorkspace at h
  simp only [Option.map_none, Option.filter_none] at h
  split at h
  · split at h
    · cases h
    · rw [← Except.ok.inj h]
      exact .inl rfl
  · split at h
    · next path hok =>
      rw [← Except.ok.inj h]
      exact .inr (validate_ok hok)
    · next path hmissing =>
      split at h
      · rw [← Except.ok.inj h]
        exact .inr (validate_missing hmissing)
      · cases h
    · cases h

/-- What is written back: the generated path, beside all that was there. -/
theorem Provisioned.spec (h : Provisioned root first row row' context)
    (htype : AgentType.ofName row.type = some agentType) (hextra : row.extra = some extra) :
    context.path = expectedAutoWorkspacePath root first.today row.id agentType
        (extra.get "backend") ∧
      row'.id = row.id ∧ row'.type = row.type ∧ ∃ extra', row'.extra = some extra' ∧
        extra'.get "workspace" = some (.text context.path) ∧
        ∀ k, k ≠ "workspace" → extra'.get k = extra.get k := by
  obtain ⟨now, allows, updates, hwrite, rfl⟩ := h.written
  have hbuilt := h.built
  simp only [buildWorkspace, htype, hextra] at hbuilt
  have hpath : context.path ≠ context.storedPath := by
    intro heq
    simp [maybePersistWorkspace, heq] at hwrite
  refine ⟨(path_of_resolved hbuilt).resolve_right hpath, rfl, ?_, ?_⟩
  · unfold maybePersistWorkspace at hwrite
    split at hwrite
    · cases hwrite
    · split at hwrite
      · cases hwrite
      · split at hwrite <;> cases hwrite <;> rfl
  · unfold maybePersistWorkspace ExtraColumn.orEmpty at hwrite
    rw [hextra, Option.getD_some] at hwrite
    split at hwrite
    · cases hwrite
    · split at hwrite
      · cases hwrite
      · cases extra with
        | object o | null =>
          cases hwrite
          exact ⟨_, rfl, AList.lookup_insert _, fun k hk => AList.lookup_insert_ne hk⟩
        | other json => cases hwrite

/-- How the path that was written is resolved, whether its directory is there or was removed. -/
theorem resolve_stored {id path : String} {extra' : ExtraJson}
    (hworkspace : extra'.get "workspace" = some (.text path)) (htrim : trim path ≠ "")
    (hdir : later.metadata path = .directory ∨ later.metadata path = .notFound) :
    (∃ context, resolveWorkspace root later id agentType extra' none = .ok context ∧
        context.path = path ∧ context.isCustom = false) ↔
      parse path = parse (expectedAutoWorkspacePath root later.today id agentType
        (extra'.get "backend")) := by
  have hpath : path ≠ "" := fun h => htrim (by rw [h]; rfl)
  have hstored : ((extra'.get "workspace").bind ExtraValue.asStr).filter (· ≠ "") =
      some path := by
    simp [hworkspace, ExtraValue.asStr, hpath]
  unfold resolveWorkspace
  simp only [Option.map_none, Option.filter_none, hstored]
  rcases hdir with hdir | hdir
  · have hvalid : validateWorkspacePathAvailability later.metadata path = .ok path := by
      simp [validateWorkspacePathAvailability, htrim, hdir]
    simp [hvalid]
  · have hmissing : validateWorkspacePathAvailability later.metadata path =
        .error (.doesNotExist path) := by
      simp [validateWorkspacePathAvailability, htrim, hdir]
    simp only [hmissing]
    constructor
    · rintro ⟨context, hok, -, -⟩
      split at hok
      · next heq => exact heq.symm
      · cases hok
    · intro heq
      exact ⟨_, if_pos heq.symm, rfl, by simp [heq]⟩

theorem contextBackendValue_congr {extra' : ExtraJson}
    (h : ∀ k, k ≠ "workspace" → extra'.get k = extra.get k) :
    contextBackendValue later agentType extra' = contextBackendValue later agentType extra := by
  simp only [contextBackendValue, configBackend, h "backend" (by decide), h "agent_id" (by decide)]

/-- A workspace that was written back stays generated if its path is computed again. -/
theorem stays_iff_parse (h : Provisioned root first row row' context)
    (htype : AgentType.ofName row.type = some agentType) (hextra : row.extra = some extra)
    (hdir : later.metadata context.path = .directory ∨ later.metadata context.path = .notFound) :
    StaysGenerated root later row' context.path ↔
      parse context.path = parse (expectedAutoWorkspacePath root later.today row.id agentType
        (extra.get "backend")) ∧
      parse (trim context.path) = parse (expectedAutoWorkspacePath root later.linked row.id agentType
        (contextBackendValue later agentType extra)) := by
  obtain ⟨hpath, hid, htype', extra', hextra', hworkspace, hkept⟩ := h.spec htype hextra
  have htrim : trim context.path ≠ "" := by
    rw [hpath]
    exact trim_join_ne _ _ _
  have hresolve := @resolve_stored root later agentType row.id context.path extra' hworkspace
    htrim hdir
  rw [hkept "backend" (by decide)] at hresolve
  rw [← hresolve]
  simp only [StaysGenerated, buildWorkspace, linksAsGenerated, htype', htype, hextra', hid,
    contextBackendValue_congr hkept, Bool.and_eq_true, Bool.not_eq_true', decide_eq_true_iff]
  constructor
  · rintro ⟨c, hok, hc, hcustom, -, hlinks⟩
    exact ⟨⟨c, hok, hc, hcustom⟩, hc ▸ hlinks⟩
  · rintro ⟨⟨c, hok, hc, hcustom⟩, hlinks⟩
    exact ⟨c, hok, hc, hcustom, hcustom, hc.symm ▸ hlinks⟩

/-- A generated workspace stays generated exactly for the builds that find its directory again. -/
theorem stays_generated_iff (h : Provisioned root first row row' context)
    (htype : AgentType.ofName row.type = some agentType) (hextra : row.extra = some extra)
    (hdir : later.metadata context.path = .directory ∨ later.metadata context.path = .notFound) :
    StaysGenerated root later row' context.path ↔
      FoundAgain root first later row agentType extra := by
  rw [stays_iff_parse h htype hextra hdir, (h.spec htype hextra).1]
  unfold FoundAgain expectedAutoWorkspacePath
  refine and_congr (sameDirectory_iff (workspaceName_ne _ _) (workspaceName_ne _ _)) ?_
  split
  · next hkeeps =>
    rw [hkeeps]
    exact sameDirectory_iff (workspaceName_ne _ _) (workspaceName_ne _ _)
  · exact Iff.rfl

end Rebuilt

section Samples

/-- A build on one day, with the directory of every path as given. -/
def buildOn (today : LocalDate) (metadata : PathMetadata) : SessionBuild :=
  ⟨today, today, fun _ => metadata, fun _ => none, none⟩

def sampleConversation (extra : ExtraJson) : ConversationRow ExtraColumn where
  id := "c1"
  userId := "u1"
  name := "chat"
  type := "aionrs"
  extra := some extra
  model := none
  status := none
  source := none
  channelChatId := none
  pinned := false
  pinnedAt := none
  createdAt := 0
  updatedAt := 0

/-- The path that is generated for it. -/
def samplePath : String :=
  expectedAutoWorkspacePath "/data" ⟨2024, 5, 31⟩ "c1" .aionrs none

example : samplePath = "/data/conversations/2024/05/31/aionrs-temp-c1" := by decide +kernel

theorem samplePath_ne : samplePath ≠ "" := by
  unfold samplePath expectedAutoWorkspacePath
  exact join_ne_empty (workspaceName_ne _ _)

theorem sample_provisioned : Provisioned "/data" (buildOn ⟨2024, 5, 31⟩ .notFound)
    (sampleConversation (.object ∅))
    (sampleConversation (.object (AList.insert "workspace" (.text samplePath) ∅)))
    ⟨samplePath, "", false⟩ := by
  refine ⟨rfl, 0, true,
    extraUpdate 0 (.object (AList.insert "workspace" (.text samplePath) ∅)), ?_, rfl⟩
  simp only [maybePersistWorkspace, samplePath_ne, or_self, if_false]
  rfl

/-- On the same day the workspace is found again though its directory is gone. -/
theorem stays_generated_same_day : StaysGenerated "/data" (buildOn ⟨2024, 5, 31⟩ .notFound)
    (sampleConversation (.object (AList.insert "workspace" (.text samplePath) ∅))) samplePath := by
  refine (stays_generated_iff sample_provisioned rfl rfl (.inr rfl)).mpr ?_
  have hsame : SameDirectory "/data" ⟨2024, 5, 31⟩ (workspaceName "c1" "aionrs") ⟨2024, 5, 31⟩
      (workspaceName "c1" "aionrs") := by
    rw [SameDirectory, if_pos (by decide)]
    exact ⟨rfl, rfl⟩
  refine ⟨hsame, ?_⟩
  rw [if_pos (by decide +kernel)]
  exact hsame

/-- The next day it counts as custom, or is missing. -/
theorem generated_workspace_lost : ¬∀ root first later row row' context,
    Provisioned root first row row' context →
    later.metadata context.path = .directory ∨ later.metadata context.path = .notFound →
    StaysGenerated root later row' context.path := by
  intro h
  have hstays := h _ _ (buildOn ⟨2024, 6, 1⟩ .notFound) _ _ _ sample_provisioned (.inr rfl)
  have hparse := ((stays_iff_parse sample_provisioned rfl rfl (.inr rfl)).mp hstays).1
  have hsame := (sameDirectory_iff (workspaceName_ne _ _) (workspaceName_ne _ _)).mp hparse
  rw [SameDirectory, if_pos (by decide)] at hsame
  exact absurd hsame.1 (by decide)

end Samples

end AionCore.Conversation
