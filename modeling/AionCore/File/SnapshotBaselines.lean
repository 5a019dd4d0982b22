import AionCore.File.Snapshots
import AionCore.Lib.Registry

/-!
# File service: the baseline of a snapshot

Several strings lead to one workspace, and all of them share its temporary directory. A baseline
stays as long as no call removes a directory that a session or another `init` uses, and no
`init` enters its state over another one.
-/

namespace AionCore.File

variable {γ : Type}

theorem discardSingleFile_head (crates : SnapshotCrates γ) (repo : GitRepo γ)
    (files : Dict String γ) (relPath : String) (operation : FileChangeOperation) :
    (discardSingleFile crates repo files relPath operation).repo.head = repo.head := by
  cases operation with
  | create => rfl
  | modify | delete =>
    cases hhead : repo.head <;> simp [discardSingleFile, hhead, GitRepo.checkoutPathFromHead]

theorem perform_head [DecidableEq γ] (crates : SnapshotCrates γ) (state : WorkspaceState)
    (repo : GitRepo γ) (files : Dict String γ) (op : SnapshotOp) :
    (op.perform crates state repo files).repo.head = repo.head := by
  cases op with
  | getInfo => rfl
  | compare => rfl
  | baselineContent filePath => rfl
  | stageFile filePath =>
    show (repo.stageSingleFile files filePath).head = repo.head
    rw [GitRepo.stageSingleFile]
    split <;> rfl
  | stageAll => rfl
  | unstageFile filePath =>
    cases hhead : repo.head <;> simp [SnapshotOp.perform, hhead, GitRepo.unstageSingleFile]
  | unstageAll =>
    cases hhead : repo.head <;> simp [SnapshotOp.perform, hhead, GitRepo.unstageAllFiles]
  | discardFile filePath operation => exact discardSingleFile_head crates repo files _ _
  | resetFile filePath operation =>
    refine (discardSingleFile_head crates _ files filePath operation).trans ?_
    cases hhead : repo.head with
    | none => exact hhead
    | some head => exact hhead

theorem addAll_empty (crates : SnapshotCrates γ) (files : Dict String γ) :
    GitRepo.addAll crates ∅ files = files.retain fun p _ => !crates.isIgnored p := by
  rw [GitRepo.addAll, AList.union_empty]
  rfl

namespace InitStage

def commits : InitStage γ → Option String
  | .committing state => some state.repoPath
  | _ => none

/-- What a call has done to the temporary directory so far. -/
def Built (repos : Dict String (GitRepo γ)) : InitStage γ → Prop
  | .clearing state => state.mode = .snapshot
  | .creating state => state.mode = .snapshot ∧ repos.lookup state.repoPath = none
  | .committing state => state.mode = .snapshot ∧
    ∃ repo, repos.lookup state.repoPath = some repo ∧ repo.head = none ∧ repo.index = ∅
  | .checking state (some content) => state.mode = .snapshot ∧
    ∃ repo, repos.lookup state.repoPath = some repo ∧ repo.head = some content
  | .inserting state (some content) _ => state.mode = .snapshot ∧
    ∃ repo, repos.lookup state.repoPath = some repo ∧ repo.head = some content
  | _ => True

variable {repos : Dict String (GitRepo γ)} {stage : InitStage γ}

theorem Built.frame {repos' : Dict String (GitRepo γ)} (h : stage.Built repos)
    (hsame : ∀ dir, stage.builds = some dir → repos'.lookup dir = repos.lookup dir) :
    stage.Built repos' := by
  cases stage with
  | opening state => trivial
  | resolving => trivial
  | clearing state => exact h
  | creating state => exact ⟨h.1, (hsame _ rfl).trans h.2⟩
  | committing state =>
    obtain ⟨hmode, repo, hrepo, hrest⟩ := h
    exact ⟨hmode, repo, (hsame _ rfl).trans hrepo, hrest⟩
  | checking state content | inserting state content info =>
    cases content with
    | none => trivial
    | some content =>
      obtain ⟨hmode, repo, hrepo, hhead⟩ := h
      exact ⟨hmode, repo, (hsame _ rfl).trans hrepo, hhead⟩
  | returned result => trivial

/-- A repository is worked on that no call is about to commit in. -/
theorem Built.work (h : stage.Built repos) {dir : String} {repo repo' : GitRepo γ}
    (hrepo : repos.lookup dir = some repo) (hhead : repo'.head = repo.head)
    (hcommits : stage.commits ≠ some dir) :
    stage.Built (repos.insert dir repo') := by
  have hkeep : ∀ (d : String) (head : Dict String γ),
      (∃ repo, repos.lookup d = some repo ∧ repo.head = some head) →
      ∃ repo, AList.lookup d (repos.insert dir repo') = some repo ∧ repo.head = some head := by
    rintro d head ⟨r, hr, hrhead⟩
    rw [Dict.lookup_insert']
    by_cases hd : d = dir
    · rw [hd, hrepo] at hr
      rw [if_pos hd, ← Option.some.inj hr] at *
      exact ⟨repo', rfl, hhead.trans hrhead⟩
    · rw [if_neg hd]
      exact ⟨r, hr, hrhead⟩
  cases stage with
  | opening state => trivial
  | resolving => trivial
  | clearing state => exact h
  | creating state =>
    refine ⟨h.1, ?_⟩
    rw [Dict.lookup_insert', if_neg]
    · exact h.2
    · intro hd
      have hnone := h.2
      rw [hd, hrepo] at hnone
      cases hnone
  | committing state =>
    obtain ⟨hmode, r, hr, hrest⟩ := h
    refine ⟨hmode, r, ?_, hrest⟩
    rw [Dict.lookup_insert', if_neg fun hd => hcommits (congrArg some hd)]
    exact hr
  | checking state content | inserting state content info =>
    cases content with
    | none => trivial
    | some content => exact ⟨h.1, hkeep _ _ h.2⟩
  | returned result => trivial

end InitStage

namespace SnapshotWorld

variable {crates : SnapshotCrates γ} {w : SnapshotWorld γ} {k j d : ℕ}
  {workspace dir : String}

def usedBaseline (w : SnapshotWorld γ) (workspace : String) : Option (Dict String γ) :=
  (w.workspaces.lookup workspace).bind fun state => (w.repoOf state).bind (·.head)

/-- Calls on a string that was initialized in snapshot mode use what its init took from the
workspace. -/
def Stable (w : SnapshotWorld γ) : Prop :=
  ∀ workspace content, w.live.lookup workspace = some content →
    w.usedBaseline workspace = some content

/-- A session or an `init` that has removed what was left there uses the directory. -/
def Busy (w : SnapshotWorld γ) (dir : String) : Prop :=
  (∃ workspace ∈ w.live.keys, ∃ state ∈ w.workspaces.lookup workspace, state.repoPath = dir) ∨
    ∃ call ∈ w.inits, call.stage.builds = some dir

/-- No directory in use is removed, no state is entered over another one, and no call works on a
repository in which an `init` is about to commit. -/
def Careful (w : SnapshotWorld γ) : SnapshotStep γ → Prop
  | .clear k => ∀ call ∈ w.inits[k]?, ∀ dir ∈ call.stage.clears, ¬w.Busy dir
  | .clearFails k gone _ => gone = true →
    ∀ call ∈ w.inits[k]?, ∀ dir ∈ call.stage.clears, ¬w.Busy dir
  | .insert k => ∀ call ∈ w.inits[k]?, call.stage.inserts = true →
    w.workspaces.lookup call.workspace = none
  | .perform j _ => ∀ call ∈ w.ops[j]?, call.result.isNone = true →
    call.state.mode = .snapshot →
    ∀ init ∈ w.inits, init.stage.commits ≠ some call.state.repoPath
  | .removeDir d => ∀ call ∈ w.disposes[d]?, call.result.isNone = true → ¬w.Busy call.repoPath
  | .removeDirFails d gone _ => gone = true →
    ∀ call ∈ w.disposes[d]?, call.result.isNone = true → ¬w.Busy call.repoPath
  | _ => True

/-- The state of a session and its repository. -/
structure Session (w : SnapshotWorld γ) (workspace : String) (content : Dict String γ)
    (state : WorkspaceState) : Prop where
  entered : w.workspaces.lookup workspace = some state
  mode : state.mode = .snapshot
  repo : ∃ repo, w.repos.lookup state.repoPath = some repo ∧ repo.head = some content
  apart : ∀ call ∈ w.inits, call.stage.builds ≠ some state.repoPath

structure Sound (w : SnapshotWorld γ) : Prop where
  sessions : ∀ workspace content, w.live.lookup workspace = some content →
    ∃ state, w.Session workspace content state
  built : ∀ call ∈ w.inits, call.stage.Built w.repos
  alone : ∀ (j k : ℕ) (a b : InitCall γ) (dir : String),
    w.inits[j]? = some a → w.inits[k]? = some b → a.stage.builds = some dir →
      b.stage.builds = some dir → j = k

theorem Sound.stable (h : w.Sound) : w.Stable := by
  intro workspace content hlive
  obtain ⟨state, hs⟩ := h.sessions workspace content hlive
  obtain ⟨repo, hrepo, hhead⟩ := hs.repo
  rw [usedBaseline, hs.entered]
  show (w.repoOf state).bind _ = _
  rw [repoOf, hs.mode]
  rw [hrepo]
  exact hhead

theorem Sound.new (disk : Disk γ) (repos : Dict String (GitRepo γ)) :
    (new disk repos).Sound where
  sessions workspace content h := by simp [SnapshotWorld.new] at h
  built _ h := absurd h List.not_mem_nil
  alone j k a b dir hj := by simp [SnapshotWorld.new] at hj

/-- The invariant is about the sessions, the repositories and the calls of `init` only. -/
theorem Sound.congr (h : w.Sound) {w' : SnapshotWorld γ} (hrepos : w'.repos = w.repos)
    (hworkspaces : w'.workspaces = w.workspaces) (hinits : w'.inits = w.inits)
    (hlive : w'.live = w.live) : w'.Sound := by
  refine ⟨fun ws content hws => ?_, fun call hcall => ?_, ?_⟩
  · obtain ⟨state, hs⟩ := h.sessions ws content (hlive ▸ hws)
    exact ⟨state, hworkspaces ▸ hs.entered, hs.mode, hrepos ▸ hs.repo, hinits ▸ hs.apart⟩
  · rw [hrepos]
    exact h.built call (hinits ▸ hcall)
  · rw [hinits]
    exact h.alone

/-- A directory that is not in use is removed. -/
theorem Sound.erase (h : w.Sound) (hfree : ¬w.Busy dir) :
    ({ w with repos := w.repos.erase dir } : SnapshotWorld γ).Sound := by
  have hsame : ∀ d, d ≠ dir → AList.lookup d (w.repos.erase dir) = w.repos.lookup d := by
    intro d hd
    rw [Dict.lookup_erase', if_neg hd]
  refine ⟨fun workspace content hlive => ?_, fun call hcall => ?_, h.alone⟩
  · obtain ⟨state, hs⟩ := h.sessions workspace content hlive
    obtain ⟨repo, hrepo, hhead⟩ := hs.repo
    have hne : state.repoPath ≠ dir := by
      intro hd
      refine hfree (.inl ⟨workspace, ?_, state, hs.entered, hd⟩)
      rw [← AList.mem_keys, ← AList.lookup_isSome, hlive]
      rfl
    exact ⟨state, hs.entered, hs.mode, ⟨repo, (hsame _ hne).trans hrepo, hhead⟩, hs.apart⟩
  · refine (h.built call hcall).frame fun d hd => hsame d ?_
    rintro rfl
    exact hfree (.inr ⟨call, hcall, hd⟩)

variable {old : InitCall γ}

section

variable (h : w.Sound)
include h

variable {stage : InitStage γ}

/-- An `init` leaves the temporary directories alone from now on. -/
theorem Sound.leave (hk : w.inits[k]? = some old) (workspace : String)
    (hbuilds : stage.builds = none) (hbuilt : stage.Built w.repos) :
    (w.setInit k workspace stage).Sound := by
  refine ⟨fun ws content hlive => ?_, fun call hcall => ?_, fun i j a b dir hi hj ha hb => ?_⟩
  · obtain ⟨state, hs⟩ := h.sessions ws content hlive
    refine ⟨state, hs.entered, hs.mode, hs.repo, fun call hcall => ?_⟩
    rcases List.mem_or_eq_of_mem_set hcall with hcall | rfl
    · exact hs.apart call hcall
    · simp [hbuilds]
  · rcases List.mem_or_eq_of_mem_set hcall with hcall | rfl
    · exact h.built call hcall
    · exact hbuilt
  · rcases (Registry.getElem?_replace hk).mp hi with ⟨-, rfl⟩ | ⟨-, hi⟩
    · rw [hbuilds] at ha
      cases ha
    · rcases (Registry.getElem?_replace hk).mp hj with ⟨-, rfl⟩ | ⟨-, hj⟩
      · rw [hbuilds] at hb
        cases hb
      · exact h.alone i j a b dir hi hj ha hb

/-- An `init` works in a directory that no session and no other `init` uses. -/
theorem Sound.build (hk : w.inits[k]? = some old) (workspace : String)
    {repos : Dict String (GitRepo γ)} (hbuilds : stage.builds = some dir)
    (hbuilt : stage.Built repos) (hsame : ∀ d, d ≠ dir → repos.lookup d = w.repos.lookup d)
    (hsession : ∀ ws ∈ w.live.keys, ∀ state ∈ w.workspaces.lookup ws, state.repoPath ≠ dir)
    (hinits : ∀ j a, j ≠ k → w.inits[j]? = some a → a.stage.builds ≠ some dir) :
    ({ w.setInit k workspace stage with repos := repos } : SnapshotWorld γ).Sound := by
  refine ⟨fun ws content hlive => ?_, fun call hcall => ?_, fun i j a b e hi hj ha hb => ?_⟩
  · obtain ⟨state, hs⟩ := h.sessions ws content hlive
    obtain ⟨repo, hrepo, hhead⟩ := hs.repo
    have hkey : ws ∈ w.live.keys := by
      have hlive : w.live.lookup ws = some content := hlive
      rw [← AList.mem_keys, ← AList.lookup_isSome, hlive]
      rfl
    have hne := hsession ws hkey state hs.entered
    refine ⟨state, hs.entered, hs.mode, ⟨repo, (hsame _ hne).trans hrepo, hhead⟩,
      fun call hcall => ?_⟩
    rcases List.mem_or_eq_of_mem_set hcall with hcall | rfl
    · exact hs.apart call hcall
    · rw [hbuilds]
      exact fun heq => hne (Option.some.inj heq).symm
  · obtain ⟨j, hj⟩ := List.getElem?_of_mem hcall
    rcases (Registry.getElem?_replace hk).mp hj with ⟨-, rfl⟩ | ⟨hne, hj⟩
    · exact hbuilt
    · refine (h.built call (List.mem_of_getElem? hj)).frame fun e he => hsame e ?_
      rintro rfl
      exact hinits j call hne hj he
  · rcases (Registry.getElem?_replace hk).mp hi with ⟨hik, rfl⟩ | ⟨hik, hi'⟩
    · rcases (Registry.getElem?_replace hk).mp hj with ⟨hjk, -⟩ | ⟨hjk, hj'⟩
      · rw [hik, hjk]
      · rw [hbuilds] at ha
        exact absurd (ha ▸ hb) (hinits j b hjk hj')
    · rcases (Registry.getElem?_replace hk).mp hj with ⟨-, rfl⟩ | ⟨-, hj'⟩
      · rw [hbuilds] at hb
        exact absurd (hb ▸ ha) (hinits i a hik hi')
      · exact h.alone i j a b e hi' hj' ha hb

/-- The directory in which an `init` works is its own. -/
theorem Sound.own (hk : w.inits[k]? = some old) (hbuilds : old.stage.builds = some dir) :
    (∀ ws ∈ w.live.keys, ∀ state ∈ w.workspaces.lookup ws, state.repoPath ≠ dir) ∧
      ∀ j a, j ≠ k → w.inits[j]? = some a → a.stage.builds ≠ some dir := by
  constructor
  · intro ws hws state hstate hd
    rw [← AList.mem_keys, ← AList.lookup_isSome] at hws
    obtain ⟨content, hlive⟩ := Option.isSome_iff_exists.mp hws
    obtain ⟨state', hs⟩ := h.sessions ws content hlive
    obtain rfl : state' = state := Option.some.inj (hs.entered.symm.trans hstate)
    exact hs.apart old (List.mem_of_getElem? hk) (hd ▸ hbuilds)
  · intro j a hne hj ha
    exact hne (h.alone j k a old dir hj hk ha hbuilds)

theorem Sound.init (workspace : String) : (w.init workspace).Sound := by
  have hadd : ∀ stage : InitStage γ, stage.builds = none → stage.Built w.repos →
      ({ w with inits := w.inits ++ [⟨workspace, stage⟩] } : SnapshotWorld γ).Sound := by
    intro stage hbuilds hbuilt
    refine ⟨fun ws content hlive => ?_, fun call hcall => ?_, fun i j a b dir hi hj ha hb => ?_⟩
    · obtain ⟨state, hs⟩ := h.sessions ws content hlive
      refine ⟨state, hs.entered, hs.mode, hs.repo, fun call hcall => ?_⟩
      rcases List.mem_append.mp hcall with hcall | hcall
      · exact hs.apart call hcall
      · rw [List.mem_singleton.mp hcall, hbuilds]
        simp
    · rcases List.mem_append.mp hcall with hcall | hcall
      · exact h.built call hcall
      · rw [List.mem_singleton.mp hcall]
        exact hbuilt
    · rcases Registry.getElem?_add.mp hi with hi' | ⟨-, rfl⟩
      · rcases Registry.getElem?_add.mp hj with hj' | ⟨-, rfl⟩
        · exact h.alone i j a b dir hi' hj' ha hb
        · rw [hbuilds] at hb
          cases hb
      · rw [hbuilds] at ha
        cases ha
  rw [SnapshotWorld.init]
  split
  · exact hadd _ rfl trivial
  · exact hadd _ rfl trivial

theorem Sound.openRepo (k : ℕ) : (w.openRepo crates k).Sound := by
  rw [SnapshotWorld.openRepo]
  split
  · rename_i workspace state hk
    split <;> exact h.leave hk workspace rfl trivial
  · exact h

theorem Sound.resolve (k : ℕ) : (w.resolve crates k).Sound := by
  rw [SnapshotWorld.resolve]
  split
  · rename_i workspace hk
    split
    · exact h.leave hk workspace rfl trivial
    · split
      · exact h.leave hk workspace rfl trivial
      · exact h.leave hk workspace rfl rfl
  · exact h

theorem Sound.clear (hstep : w.Careful (.clear k)) : (w.clear k).Sound := by
  rw [SnapshotWorld.clear]
  split
  · rename_i workspace state hk
    have hfree : ¬w.Busy state.repoPath := hstep _ hk _ rfl
    have hmode : state.mode = .snapshot := h.built _ (List.mem_of_getElem? hk)
    refine h.build hk workspace rfl ⟨hmode, ?_⟩ (fun d hd => ?_)
      (fun ws hws state' hstate' hd => hfree (.inl ⟨ws, hws, state', hstate', hd⟩))
      fun j a _ hj ha => hfree (.inr ⟨a, List.mem_of_getElem? hj, ha⟩)
    · rw [Dict.lookup_erase', if_pos rfl]
    · rw [Dict.lookup_erase', if_neg hd]
  · exact h

variable {error : String}

theorem Sound.clearFails {gone : Bool} (hstep : w.Careful (.clearFails k gone error)) :
    (w.clearFails k gone error).Sound := by
  rw [SnapshotWorld.clearFails]
  split
  · rename_i workspace state hk
    have hnext : ∀ stage : InitStage γ, stage.builds = none → (∀ repos, stage.Built repos) →
        ({ w.setInit k workspace stage with
          repos := if gone then w.repos.erase state.repoPath else w.repos } :
            SnapshotWorld γ).Sound := by
      intro stage hbuilds hbuilt
      cases gone with
      | false => exact h.leave hk workspace hbuilds (hbuilt _)
      | true =>
        have herased := h.erase (hstep rfl _ hk _ rfl)
        exact herased.leave hk workspace hbuilds (hbuilt _)
    exact hnext _ rfl fun _ => trivial
  · exact h

theorem Sound.create (k : ℕ) : (w.create k).Sound := by
  rw [SnapshotWorld.create]
  split
  · rename_i workspace state hk
    obtain ⟨hmode, hnone⟩ : state.mode = .snapshot ∧ w.repos.lookup state.repoPath = none :=
      h.built _ (List.mem_of_getElem? hk)
    obtain ⟨hsession, hinits⟩ := h.own hk rfl
    refine h.build hk workspace rfl ⟨hmode, ⟨none, ∅, none⟩, ?_, rfl, rfl⟩ (fun d hd => ?_)
      hsession hinits
    · rw [Dict.lookup_insert', if_pos rfl, hnone]
      rfl
    · rw [Dict.lookup_insert', if_neg hd]
  · exact h

theorem Sound.commit (k : ℕ) : (w.commit crates k).Sound := by
  rw [SnapshotWorld.commit]
  split
  · rename_i workspace state hk
    obtain ⟨hmode, repo, hrepo, hhead, hindex⟩ : state.mode = .snapshot ∧
        ∃ repo, w.repos.lookup state.repoPath = some repo ∧ repo.head = none ∧
          repo.index = ∅ := h.built _ (List.mem_of_getElem? hk)
    obtain ⟨hsession, hinits⟩ := h.own hk rfl
    rw [hrepo]
    dsimp only
    rw [hhead]
    let index := GitRepo.addAll crates repo.index (w.disk.files state.workspacePath)
    have hcontent : some index =
        some ((w.disk.files state.workspacePath).retain fun p _ => !crates.isIgnored p) := by
      show some (GitRepo.addAll crates repo.index _) = _
      rw [hindex, addAll_empty]
    refine h.build hk workspace rfl ⟨hmode, { repo with head := some index, index := index }, ?_,
      hcontent⟩ (fun d hd => ?_) hsession hinits
    · rw [Dict.lookup_insert', if_pos rfl]
    · rw [Dict.lookup_insert', if_neg hd]
  · exact h

theorem Sound.check (k : ℕ) : (w.check crates k).Sound := by
  rw [SnapshotWorld.check]
  split
  · rename_i workspace state content hk
    split
    · exact h.leave hk workspace rfl trivial
    · have hbuilt := h.built _ (List.mem_of_getElem? hk)
      cases content with
      | none => exact h.leave hk workspace rfl trivial
      | some content =>
        obtain ⟨hsession, hinits⟩ := h.own hk rfl
        exact h.build hk workspace rfl hbuilt (fun _ _ => rfl) hsession hinits
  · exact h

theorem Sound.initFails (k : ℕ) (error : String) : (w.initFails k error).Sound := by
  rw [SnapshotWorld.initFails]
  split
  · rename_i workspace _ hk
    exact h.leave hk workspace rfl trivial
  · rename_i workspace _ hk
    exact h.leave hk workspace rfl trivial
  · rename_i workspace _ _ hk
    exact h.leave hk workspace rfl trivial
  · exact h

/-- A state is entered under a string that has none; no session is lost. -/
theorem Sound.enter (workspace : String) (state : WorkspaceState)
    (hnew : w.workspaces.lookup workspace = none) {live : Dict String (Dict String γ)}
    (hlive : ∀ ws content, live.lookup ws = some content → w.live.lookup ws = some content ∨
      ws = workspace ∧ state.mode = .snapshot ∧
        (∃ repo, w.repos.lookup state.repoPath = some repo ∧ repo.head = some content) ∧
        ∀ call ∈ w.inits, call.stage.builds ≠ some state.repoPath) :
    ({ w with workspaces := w.workspaces.insert workspace state, live := live } :
      SnapshotWorld γ).Sound := by
  refine ⟨fun ws content hws => ?_, h.built, h.alone⟩
  rcases hlive ws content hws with hold | ⟨rfl, hmode, hrepo, hapart⟩
  · obtain ⟨state', hs⟩ := h.sessions ws content hold
    refine ⟨state', ?_, hs.mode, hs.repo, hs.apart⟩
    rw [Dict.lookup_insert', if_neg]
    · exact hs.entered
    · rintro rfl
      have hentered := hs.entered
      rw [hnew] at hentered
      cases hentered
  · refine ⟨state, ?_, hmode, hrepo, hapart⟩
    rw [Dict.lookup_insert', if_pos rfl]

theorem Sound.insert (hstep : w.Careful (.insert k)) : (w.insert k).Sound := by
  rw [SnapshotWorld.insert]
  split
  · rename_i workspace state content info hk
    have hnew : w.workspaces.lookup workspace = none := hstep _ hk rfl
    have hleft : (w.setInit k workspace (.returned (.ok info))).Sound :=
      h.leave hk workspace rfl trivial
    refine hleft.enter workspace state hnew fun ws c hws => ?_
    split at hws
    · rename_i content _
      rw [Dict.lookup_insert'] at hws
      split at hws
      · -- the new session, in the directory that the call has built
        rename_i heq
        obtain ⟨hmode, hrepo⟩ : state.mode = .snapshot ∧
            ∃ repo, w.repos.lookup state.repoPath = some repo ∧ repo.head = some content :=
          h.built _ (List.mem_of_getElem? hk)
        obtain ⟨-, hinits⟩ := h.own hk rfl
        rw [← Option.some.inj hws]
        refine .inr ⟨heq, hmode, hrepo, fun call hcall => ?_⟩
        obtain ⟨j, hj⟩ := List.getElem?_of_mem hcall
        rcases (Registry.getElem?_replace hk).mp hj with ⟨-, rfl⟩ | ⟨hne, hj⟩
        · simp [InitStage.builds]
        · exact hinits j call hne hj
      · exact .inl hws
    · exact .inl hws
  · exact h

theorem Sound.dispose (workspace : String) : (w.dispose workspace).Sound := by
  rw [SnapshotWorld.dispose]
  split
  · exact h
  · refine ⟨fun ws content hws => ?_, h.built, h.alone⟩
    have hws : AList.lookup ws (w.live.erase workspace) = some content := hws
    rw [Dict.lookup_erase'] at hws
    split at hws
    · cases hws
    · rename_i hne
      obtain ⟨state, hs⟩ := h.sessions ws content hws
      refine ⟨state, ?_, hs.mode, hs.repo, hs.apart⟩
      rw [Dict.lookup_erase', if_neg hne]
      exact hs.entered

theorem Sound.removeDir (hstep : w.Careful (.removeDir d)) :
    (w.removeDir d).Sound := by
  rw [SnapshotWorld.removeDir]
  split
  · rename_i repoPath hd
    have herased := h.erase (hstep _ hd rfl)
    exact herased.congr rfl rfl rfl rfl
  · exact h

theorem Sound.removeDirFails {gone : Bool} (hstep : w.Careful (.removeDirFails d gone error)) :
    (w.removeDirFails d gone error).Sound := by
  rw [SnapshotWorld.removeDirFails]
  split
  · rename_i repoPath hd
    have herased : ({ w with repos := if gone then w.repos.erase repoPath else w.repos } :
        SnapshotWorld γ).Sound := by
      cases gone with
      | false => exact h
      | true => exact h.erase (hstep rfl _ hd rfl)
    exact herased.congr rfl rfl rfl rfl
  · exact h

theorem Sound.call (workspace : String) (op : SnapshotOp) :
    (w.call workspace op).Sound := by
  rw [SnapshotWorld.call]
  split
  · exact h.congr rfl rfl rfl rfl
  · exact h.congr rfl rfl rfl rfl

theorem Sound.perform [DecidableEq γ] {failure : Option String}
    (hstep : w.Careful (.perform j failure)) : (w.perform crates j failure).Sound := by
  rw [SnapshotWorld.perform]
  split
  · rename_i state op hj
    split
    · exact h.congr rfl rfl rfl rfl
    · exact h.congr rfl rfl rfl rfl
    · rename_i repo hopen
      have hhead := perform_head crates state repo (w.disk.files state.workspacePath) op
      revert hhead
      generalize op.perform crates state repo (w.disk.files state.workspacePath) = done
      intro hhead
      have hrepo : w.repoOf state = some repo := by
        rw [openRepoOf] at hopen
        split at hopen
        · rename_i hrepo
          rw [hrepo, Except.ok.inj hopen]
        · cases hopen
      dsimp only
      rw [setRepo]
      cases hmode : state.mode with
      | gitRepo => exact h.congr rfl rfl rfl rfl
      | snapshot =>
        rw [repoOf, hmode] at hrepo
        have hrepo : w.repos.lookup state.repoPath = some repo := hrepo
        refine ⟨fun ws content hws => ?_, fun call hcall => ?_, h.alone⟩
        · obtain ⟨state', hs⟩ := h.sessions ws content hws
          obtain ⟨r, hr, hrhead⟩ := hs.repo
          refine ⟨state', hs.entered, hs.mode, ?_, hs.apart⟩
          rw [Dict.lookup_insert']
          split
          · rename_i heq
            rw [heq, hrepo] at hr
            rw [← Option.some.inj hr] at hrhead
            exact ⟨done.repo, rfl, hhead.trans hrhead⟩
          · exact ⟨r, hr, hrhead⟩
        · exact (h.built call hcall).work hrepo hhead (hstep _ hj rfl hmode call hcall)
  · exact h

theorem Sound.fire [DecidableEq γ] (step : SnapshotStep γ) (hstep : w.Careful step) :
    (w.fire crates step).Sound := by
  cases step with
  | edit disk => exact h.congr rfl rfl rfl rfl
  | init workspace => exact h.init workspace
  | openRepo k => exact h.openRepo k
  | resolve k => exact h.resolve k
  | clear k => exact h.clear hstep
  | clearFails k gone error => exact h.clearFails hstep
  | create k => exact h.create k
  | commit k => exact h.commit k
  | check k => exact h.check k
  | initFails k error => exact h.initFails k error
  | insert k => exact h.insert hstep
  | call workspace op => exact h.call workspace op
  | perform j failure => exact h.perform hstep
  | dispose workspace => exact h.dispose workspace
  | removeDir d => exact h.removeDir hstep
  | removeDirFails d gone error => exact h.removeDirFails hstep

end

/-- While no call removes a directory in use, enters its state over another one or works on a
repository that is about to get its first commit, each session keeps its baseline. -/
theorem baseline_stable [DecidableEq γ]
    (h : ((machine crates).restrict Careful).Reachable w) : w.Stable := by
  have hsound : w.Sound := h.invariant (M := (machine crates).restrict Careful)
    (P := Sound) (by rintro _ ⟨disk, repos, rfl⟩; exact Sound.new disk repos)
    fun w step hw hstep => hw.fire step hstep.2
  exact hsound.stable

instance (w : SnapshotWorld γ) (dir : String) : Decidable (w.Busy dir) := by
  unfold Busy
  infer_instance

instance : ∀ (w : SnapshotWorld γ) step, Decidable (Careful w step) := by
  intro w step
  cases step <;> dsimp only [Careful] <;> infer_instance

instance [DecidableEq γ] (crates : SnapshotCrates γ) :
    ∀ w step, Decidable ((machine crates).admits w step) :=
  fun _ _ => .isTrue trivial

/-- A hash that tells all paths apart, and no ignored files. -/
def sampleCrates : SnapshotCrates String where
  tempDir := "/tmp"
  hash := id
  isIgnored _ := false
  text := some
  openError _ := "could not find repository"
  unbornHead := "reference not found"

/-- One workspace with one file, under two spellings. -/
def sampleDisk (content : String) : Disk String where
  canonicalize path := if path = "/ws" ∨ path = "/ws/" then some "/ws" else none
  files path := if path = "/ws" then (∅ : Dict String String).insert "a.txt" content else ∅
  git _ := none

/-- The steps of an `init` that builds its repository. -/
def buildSteps (k : ℕ) : List (SnapshotStep String) :=
  [.resolve k, .clear k, .create k, .commit k, .check k, .insert k]

/-- A session with a second `init`, changes and calls, and then one under the other string. -/
def sampleSteps : List (SnapshotStep String) :=
  .init "/ws" :: buildSteps 0 ++
  [.edit (sampleDisk "two"), .call "/ws" .stageAll, .perform 0 none, .call "/ws" .compare,
    .perform 1 none, .init "/ws", .openRepo 1, .call "/ws" (.resetFile "a.txt" .modify),
    .perform 2 none, .dispose "/ws", .removeDir 0] ++
  .init "/ws/" :: buildSteps 2

theorem baseline_stable_sample :
    ((machine sampleCrates).run (new (sampleDisk "one") ∅) sampleSteps).Stable :=
  baseline_stable
    (Machine.reachable_run (M := (machine sampleCrates).restrict Careful) ⟨_, _, rfl⟩
      (by decide +kernel))

def respelledSteps : List (SnapshotStep String) :=
  .init "/ws" :: buildSteps 0 ++ .edit (sampleDisk "two") :: .init "/ws/" :: buildSteps 1

theorem second_spelling_resets :
    ∃ w, (machine sampleCrates).Reachable w ∧ ¬w.Stable := by
  refine ⟨(machine sampleCrates).run (new (sampleDisk "one") ∅) respelledSteps,
    Machine.reachable_run ⟨_, _, rfl⟩ (by decide +kernel), fun h => ?_⟩
  have htaken : (((machine sampleCrates).run (new (sampleDisk "one") ∅)
      respelledSteps).live.lookup "/ws").map (·.lookup "a.txt") = some (some "one") := by
    decide +kernel
  have hused : (((machine sampleCrates).run (new (sampleDisk "one") ∅)
      respelledSteps).usedBaseline "/ws").map (·.lookup "a.txt") = some (some "two") := by
    decide +kernel
  obtain ⟨content, hlive, hone⟩ := Option.map_eq_some_iff.mp htaken
  rw [h "/ws" content hlive, Option.map_some, hone] at hused
  exact absurd hused (by decide)

end SnapshotWorld

end AionCore.File
