import AionCore.File.Discards
import AionCore.Lib.FileAdditions

/-!
# File service: how far a discarded change reaches

A deletion takes the entry that the joined path names, a checkout and a reset of the index take
all paths that match. When these are the path of the request and nothing else.
-/

namespace AionCore.File

open FileTree (Effect)
open Leaves (Apart Change Flat Meets)

section Entries

variable {t t' : FileTree Bytes} {q e : Place}

theorem entryAt_congr (h : t'.node q = t.node q) : entryAt t' q = entryAt t q := by
  rw [entryAt, h, entryAt]

theorem node_of_entryAt (h : entryAt t q ≠ none) :
    q ≠ [] ∧ t.node q ≠ none ∧ t.node q ≠ some .dir := by
  rw [entryAt] at h
  by_cases hq : q = []
  · rw [if_pos hq] at h
    exact absurd rfl h
  · rw [if_neg hq] at h
    refine ⟨hq, fun hn => ?_, fun hn => ?_⟩
    · rw [hn] at h
      exact h rfl
    · rw [hn] at h
      exact h rfl

theorem entryAt_of_node {n : Node Bytes} (hq : q ≠ []) (h : t.node q = some n) (hdir : n ≠ .dir) :
    entryAt t q ≠ none := by
  rw [entryAt, if_neg hq, h]
  cases n with
  | dir => exact absurd rfl hdir
  | file content => simp
  | link target => simp

theorem flat_entryAt (hg : t.Grounded) : Flat (entryAt t) := by
  intro p q hp hq hpq
  by_contra hne
  obtain ⟨hnil, -, hdir⟩ := node_of_entryAt hp
  exact hdir (hg.dir_above (node_of_entryAt hq).2.1 hnil hpq hne)

theorem flat_under (hg : t.Grounded) (dir : Place) : Flat fun p => entryAt t (dir ++ p) := by
  intro p q hp hq hpq
  have heq := flat_entryAt hg _ _ hp hq ((List.prefix_append_right_inj dir).mpr hpq)
  exact List.append_cancel_left heq

/-- What is removed is gone, and what stands elsewhere stays. -/
theorem entryAt_prune (hg : t.Grounded) (he : entryAt t e ≠ none) (q : Place) :
    entryAt (t.prune e) q = if q = e then none else entryAt t q := by
  by_cases heq : e <+: q
  · have hnone : entryAt (t.prune e) q = none := by
      rw [entryAt, FileTree.prune]
      dsimp only
      rw [if_pos heq]
      split <;> rfl
    rw [hnone]
    split
    · rfl
    · rename_i hne
      by_contra hq
      exact hne (flat_entryAt hg e q he (Ne.symm hq) heq).symm
  · rw [if_neg (by rintro rfl; exact heq List.prefix_rfl)]
    exact entryAt_congr (FileTree.prune_node heq)

/-- What `unlink` removes. -/
theorem unlink_cases (t : FileTree Bytes) (path : List String) :
    ((∀ done, t.unlink path ≠ .ok done) ∧
      ∀ e, t.entryPlace path = .ok e → entryAt t e = none) ∨
    ∃ e, t.entryPlace path = .ok e ∧ entryAt t e ≠ none ∧
      t.unlink path = .ok ⟨t.prune e, [e]⟩ := by
  rw [FileTree.unlink]
  cases hentry : t.entryPlace path with
  | error e => exact .inl ⟨fun _ h => (by cases h), fun _ h => (by cases h)⟩
  | ok e =>
    dsimp only
    cases hn : t.node e with
    | none =>
      refine .inl ⟨fun _ h => (by cases h), ?_⟩
      rintro _ ⟨⟩
      by_contra hsome
      exact (node_of_entryAt hsome).2.1 hn
    | some n =>
      have hne := FileTree.entryPlace_ne_nil hentry
      cases n with
      | dir =>
        refine .inl ⟨fun _ h => (by cases h), ?_⟩
        rintro _ ⟨⟩
        by_contra hsome
        exact (node_of_entryAt hsome).2.2 hn
      | file content | link target => exact .inr ⟨e, rfl, entryAt_of_node hne hn (by simp), rfl⟩

end Entries

namespace WorkTree

section Conditions

variable (git : Git) (w : WorkTree) (relPath : PathString)

/-- A file that the joined path names lies in the workspace, and HEAD has none there unless git
reports that it was created. -/
def DeletesOwn : Prop :=
  w.tree.pathExists (w.joined relPath) = true →
    ∀ e, w.tree.entryPlace (w.joined relPath) = .ok e → entryAt w.tree e ≠ none →
      w.workspace <+: e ∧
        ∀ p, w.workspace ++ p = e → w.committed p ≠ none → w.HasStatus git p .create

/-- What a reset of the index sets is at the path of the request, and no other entry of the index
meets it. -/
def UnstagesAlone : Prop :=
  (∀ p, w.Unstages git relPath p → w.Own relPath p) ∧
    Apart (w.Unstages git relPath) (w.Own relPath) w.staged

/-- What a checkout sets is at the path of the request, and nothing else on the disk or in the
index meets it. -/
def RestoresAlone (A : PathString → Prop) : Prop :=
  (∀ p, A p → w.Own relPath p) ∧ Apart A (w.Own relPath) w.onDisk ∧
    Apart A (w.Own relPath) w.staged

def RestoresUnstaged (p : PathString) : Prop :=
  git.pathMatches relPath p = true ∧ w.onDisk p ≠ w.committed p ∧ w.committed p ≠ none

def DiscardsAlone : FileChangeOperation → Prop
  | .create => w.DeletesOwn git relPath
  | .modify | .delete => w.RestoresAlone relPath (w.Restores git relPath)

def ResetsAlone : FileChangeOperation → Prop
  | .create => w.UnstagesAlone git relPath ∧ w.DeletesOwn git relPath
  | .modify | .delete =>
    w.UnstagesAlone git relPath ∧ w.RestoresAlone relPath (w.RestoresUnstaged git relPath)

end Conditions

variable {git : Git} {w : WorkTree} {relPath : PathString} {operation : FileChangeOperation}
  {index : Entries} {out : CheckedOut}

theorem Sound.onDisk (h : w.Sound) : Flat w.onDisk := flat_under h.grounded w.workspace

theorem discard_create_kept (hkept : ∀ done, w.tree.unlink (w.joined relPath) ≠ .ok done) :
    (w.discardSingleFile git relPath .create).1 = w := by
  unfold discardSingleFile
  dsimp only
  split
  · split
    · rfl
    · rename_i done hdone
      exact absurd hdone (hkept done)
  · rfl

theorem discard_create_absent (hexists : ¬w.tree.pathExists (w.joined relPath) = true) :
    (w.discardSingleFile git relPath .create).1 = w := by
  unfold discardSingleFile
  rw [if_neg hexists]

theorem discard_create_deleted {done : Effect Bytes}
    (hexists : w.tree.pathExists (w.joined relPath) = true)
    (hdone : w.tree.unlink (w.joined relPath) = .ok done) :
    (w.discardSingleFile git relPath .create).1 = { w with tree := done.tree } := by
  unfold discardSingleFile
  rw [if_pos hexists, hdone]

/-- What a deletion does to the disk. -/
theorem delete_cases (git : Git) (w : WorkTree) (relPath : PathString) (index : Entries) :
    ((discardSingleFile git { w with index := index } relPath .create).1 =
        { w with index := index } ∧
      (w.tree.pathExists (w.joined relPath) = true →
        ∀ e, w.tree.entryPlace (w.joined relPath) = .ok e → entryAt w.tree e = none)) ∨
    ∃ e, (discardSingleFile git { w with index := index } relPath .create).1 =
        { w with tree := w.tree.prune e, index := index } ∧
      w.tree.pathExists (w.joined relPath) = true ∧
      w.tree.entryPlace (w.joined relPath) = .ok e ∧ entryAt w.tree e ≠ none := by
  by_cases hexists : w.tree.pathExists (w.joined relPath) = true
  · obtain ⟨hfails, hnone⟩ | ⟨e, hentry, hsome, hdone⟩ := unlink_cases w.tree (w.joined relPath)
    · exact .inl ⟨discard_create_kept (w := { w with index := index }) hfails, fun _ => hnone⟩
    · exact .inr ⟨e, discard_create_deleted (w := { w with index := index }) hexists hdone, hexists,
        hentry, hsome⟩
  · exact .inl ⟨discard_create_absent (w := { w with index := index }) hexists,
      fun h => absurd h hexists⟩

/-- A deletion, after which the index may be another one, touches only the path of the request
exactly if it deletes a file of its own. -/
theorem delete_touchesOnly_iff (git : Git) (relPath : PathString) (hw : w.Sound)
    (index : Entries) :
    w.TouchesOnly git relPath .create
        (discardSingleFile git { w with index := index } relPath .create).1 ↔
      (∀ p, ¬w.Own relPath p → index.lookup p = w.staged p) ∧ w.DeletesOwn git relPath := by
  obtain ⟨heq, hnone⟩ | ⟨e, heq, hexists, hentry, hsome⟩ := delete_cases git w relPath index
  · rw [heq]
    constructor
    · intro h
      refine ⟨h.staged, fun hexists e hentry hsome => ?_⟩
      exact absurd (hnone hexists e hentry) hsome
    · rintro ⟨hindex, -⟩
      exact ⟨fun _ _ => rfl, fun _ _ => rfl, hindex, fun _ _ _ _ => rfl⟩
  · rw [heq]
    have hnode : w.tree.node e ≠ none := (node_of_entryAt hsome).2.1
    constructor
    · intro h
      refine ⟨h.staged, fun _ e' hentry' _ => ?_⟩
      obtain rfl : e = e' := Except.ok.inj (hentry.symm.trans hentry')
      constructor
      · by_contra hout
        have hsame := h.outside e hout
        rw [FileTree.prune] at hsame
        exact hnode (hsame.symm.trans (if_pos List.prefix_rfl))
      · rintro p rfl hcommitted
        by_contra hstatus
        have hsame := h.baseline rfl p hcommitted hstatus
        rw [entryAt_prune hw.grounded hsome, if_pos rfl] at hsame
        exact hsome hsame.symm
    · rintro ⟨hindex, hown⟩
      obtain ⟨hin, hbaseline⟩ := hown hexists e hentry hsome
      constructor
      · intro q hq
        exact FileTree.prune_node fun heq => hq (hin.trans heq)
      · intro q hq
        rw [entryAt_prune hw.grounded hsome, if_neg]
        rintro rfl
        exact hq (.inr hentry)
      · exact hindex
      · intro _ p hcommitted hstatus
        rw [entryAt_prune hw.grounded hsome, if_neg]
        · rfl
        · intro heq
          exact hstatus (hbaseline p heq hcommitted)

/-- The disk and the index after a checkout. -/
def after (w : WorkTree) (out : CheckedOut) : WorkTree :=
  { w with tree := out.tree, index := out.index }

section

variable (h : w.ChecksOut git relPath out)
include h

theorem ChecksOut.touchesOnly (hop : operation ≠ .create)
    (halone : w.RestoresAlone relPath (w.Restores git relPath)) :
    w.TouchesOnly git relPath operation (w.after out) := by
  obtain ⟨hown, hdisk, hindex⟩ := halone
  constructor
  · exact h.confined
  · intro q hq
    by_cases hin : w.workspace <+: q
    · obtain ⟨p, rfl⟩ := hin
      exact h.files.agrees hown hdisk hq
    · exact entryAt_congr (h.confined q hin)
  · exact fun p hp => h.index.agrees hown hindex hp
  · exact fun hcreate => absurd hcreate hop

theorem ChecksOut.own (hok : out.result = .ok ())
    (hothers : ∀ q, ¬w.Names relPath q → entryAt out.tree q = entryAt w.tree q) :
    ∀ p, w.Restores git relPath p → w.Own relPath p := by
  intro p hp
  by_contra hnot
  exact hp.2.2.1 ((hothers _ hnot).symm.trans (h.done hok p hp).1)

theorem ChecksOut.alone (hw : w.Sound) (hok : out.result = .ok ())
    (htouches : w.TouchesOnly git relPath operation (w.after out)) :
    w.RestoresAlone relPath (w.Restores git relPath) := by
  have hown := h.own hok htouches.others
  refine ⟨hown, ?_, ?_⟩
  · refine h.files.apart hw.onDisk (fun p hp => (h.done hok p hp).1) ?_ hown
      fun p hp => htouches.others _ hp
    intro p hp hnone hdisk
    exact hp.2.2.1 (hdisk.trans hnone.symm)
  · refine h.index.apart hw.staged (fun p hp => (h.done hok p hp).2) ?_ hown htouches.staged
    intro p hp hnone
    exact hp.2.2.2.resolve_left (not_not.mpr hnone)

end

theorem Sound.withIndex (hw : w.Sound) (hindex : Flat index.lookup) :
    Sound { w with index := index } :=
  ⟨hw.grounded, hw.committed, hindex⟩

section

variable (h : w.ResetsIndex git relPath index)
include h

theorem ResetsIndex.agrees (halone : w.UnstagesAlone git relPath) (p : PathString)
    (hp : ¬w.Own relPath p) :
    index.lookup p = w.staged p :=
  h.change.agrees halone.1 halone.2 hp

theorem ResetsIndex.alone (hw : w.Sound) (hown : ∀ p, w.Unstages git relPath p → w.Own relPath p)
    (hagrees : ∀ p, ¬w.Own relPath p → index.lookup p = w.staged p) :
    w.UnstagesAlone git relPath := by
  refine ⟨hown, h.change.apart hw.staged h.set ?_ hown hagrees⟩
  intro p hp hnone hstaged
  exact hp.2.2 (hstaged.trans hnone.symm)

theorem ResetsIndex.agrees_iff (hw : w.Sound) :
    (∀ p, ¬w.Own relPath p → index.lookup p = w.staged p) ↔ w.UnstagesAlone git relPath := by
  refine ⟨fun hagrees => h.alone hw (fun p hp => ?_) hagrees, h.agrees⟩
  by_contra hnot
  exact hp.2.2 ((hagrees p hnot).symm.trans (h.set p hp))

/-- In an index that has been reset a path that matches is as in HEAD if it is there. -/
theorem ResetsIndex.restores_iff (hhead : w.head ≠ none) (p : PathString) :
    Restores git { w with index := index } relPath p ↔ w.RestoresUnstaged git relPath p := by
  constructor
  · rintro ⟨-, hmatch, hdisk, hknown⟩
    refine ⟨hmatch, hdisk, hknown.elim id fun hstaged => ?_⟩
    by_cases hsame : w.staged p = w.committed p
    · obtain heq | hset | ⟨hnone, -⟩ := h.change.rest p
      · rwa [← hsame, ← heq]
      · exact absurd hsame hset.2.2
      · exact absurd hnone hstaged
    · rwa [← h.set p ⟨hhead, hmatch, hsame⟩]
  · rintro ⟨hmatch, hdisk, hcommitted⟩
    exact ⟨hhead, hmatch, hdisk, .inl hcommitted⟩

end

theorem RestoresAlone.congr {A B : PathString → Prop} (h : w.RestoresAlone relPath A)
    (hB : ∀ p, B p → A p) (hindex : ∀ p, ¬w.Own relPath p → index.lookup p = w.staged p) :
    RestoresAlone { w with index := index } relPath B := by
  obtain ⟨hown, hdisk, hstaged⟩ := h
  refine ⟨fun p hp => hown p (hB p hp), hdisk.mono hB, fun p q hp hq hsome => ?_⟩
  refine hstaged p q (hB p hp) hq ?_
  rwa [← hindex q hq]

/-- A reset of the index and a checkout touch nothing else if neither does. -/
theorem reset_touchesOnly (hop : operation ≠ .create) (hhead : w.head ≠ none)
    (hreset : w.ResetsIndex git relPath index)
    (hcheck : ChecksOut git { w with index := index } relPath out)
    (hunstages : w.UnstagesAlone git relPath)
    (hrestores : w.RestoresAlone relPath (w.RestoresUnstaged git relPath)) :
    w.TouchesOnly git relPath operation (w.after out) := by
  have hagrees := hreset.agrees hunstages
  have halone := hrestores.congr (fun p => (hreset.restores_iff hhead p).mp) hagrees
  have htouches := hcheck.touchesOnly hop halone
  exact ⟨htouches.outside, htouches.others,
    fun p hp => (htouches.staged p hp).trans (hagrees p hp),
    fun hcreate => absurd hcreate hop⟩

/-- The index of another path is as it was after the reset if it is so after the checkout. -/
theorem reset_agrees (hw : w.Sound) (hhead : w.head ≠ none)
    (hreset : w.ResetsIndex git relPath index)
    (hcheck : ChecksOut git { w with index := index } relPath out)
    (hown : ∀ p, Restores git { w with index := index } relPath p → w.Own relPath p)
    (hfinal : ∀ p, ¬w.Own relPath p → out.index.lookup p = w.staged p) :
    ∀ p, ¬w.Own relPath p → index.lookup p = w.staged p := by
  intro p hp
  obtain hsame | hset | ⟨hnone, -⟩ := hreset.change.rest p
  · exact hsame
  · -- what the reset has set, the checkout leaves
    obtain hkept | hrestored | ⟨hgone, p', hp', hm⟩ := hcheck.index.rest p
    · exact hkept.symm.trans (hfinal p hp)
    · exact absurd (hown p hrestored) hp
    · have hstands : w.committed p ≠ none := by
        intro hnone
        exact hset.2.2 ((hfinal p hp).symm.trans (hgone.trans hnone.symm))
      have hstands' := ((hreset.restores_iff hhead p').mp hp').2.2
      obtain rfl := hw.committed.eq_of_meets hstands hstands' hm
      exact absurd (hown p hp') hp
  · obtain hkept | hrestored | ⟨hgone, -⟩ := hcheck.index.rest p
    · exact hkept.symm.trans (hfinal p hp)
    · exact absurd (hown p hrestored) hp
    · rw [hnone, ← hfinal p hp, hgone]

theorem reset_alone (hw : w.Sound) (hhead : w.head ≠ none)
    (hreset : w.ResetsIndex git relPath index)
    (hcheck : ChecksOut git { w with index := index } relPath out) (hok : out.result = .ok ())
    (hop : operation ≠ .create) (htouches : w.TouchesOnly git relPath operation (w.after out)) :
    w.UnstagesAlone git relPath ∧ w.RestoresAlone relPath (w.RestoresUnstaged git relPath) := by
  have hown := hcheck.own hok htouches.others
  have hagrees := reset_agrees hw hhead hreset hcheck hown htouches.staged
  refine ⟨(hreset.agrees_iff hw).mp hagrees, ?_⟩
  have htouches' : TouchesOnly git { w with index := index } relPath operation (w.after out) :=
    ⟨htouches.outside, htouches.others,
      fun p hp => (htouches.staged p hp).trans (hagrees p hp).symm,
      fun hcreate => absurd hcreate hop⟩
  have halone := hcheck.alone (hw.withIndex hreset.change.flat) hok htouches'
  exact halone.congr (fun p => (hreset.restores_iff hhead p).mpr) fun p hp => (hagrees p hp).symm

/-- The conditions on a reset are enough if the index could not be reset before the checkout. -/
theorem RestoresAlone.of_unstaged (hw : w.Sound) (hunstages : w.UnstagesAlone git relPath)
    (h : w.RestoresAlone relPath (w.RestoresUnstaged git relPath)) :
    w.RestoresAlone relPath (w.Restores git relPath) := by
  obtain ⟨hown, hdisk, hstaged⟩ := h
  -- a path that HEAD does not have is in the index
  have hcases : ∀ p, w.Restores git relPath p → w.RestoresUnstaged git relPath p ∨
      w.Unstages git relPath p ∧ w.onDisk p ≠ none := by
    rintro p ⟨hhead, hmatch, hne, hknown⟩
    by_cases hcommitted : w.committed p = none
    · have hsome := hknown.resolve_left (not_not.mpr hcommitted)
      refine .inr ⟨⟨hhead, hmatch, fun hsame => hsome (hsame.trans hcommitted)⟩, ?_⟩
      exact fun hnone => hne (hnone.trans hcommitted.symm)
    · exact .inl ⟨hmatch, hne, hcommitted⟩
  refine ⟨fun p hp => ?_, fun p q hp hq hsome hm => ?_, fun p q hp hq hsome hm => ?_⟩
  · obtain hrestores | ⟨hunstage, -⟩ := hcases p hp
    · exact hown p hrestores
    · exact hunstages.1 p hunstage
  · obtain hrestores | ⟨hunstage, hstands⟩ := hcases p hp
    · exact hdisk p q hrestores hq hsome hm
    · obtain rfl := hw.onDisk.eq_of_meets hsome hstands hm
      exact hq (hunstages.1 q hunstage)
  · obtain hrestores | ⟨hunstage, -⟩ := hcases p hp
    · exact hstaged p q hrestores hq hsome hm
    · exact hunstages.2 p q hunstage hq hsome hm

theorem TouchesOnly.refl (git : Git) (w : WorkTree) (relPath : PathString)
    (operation : FileChangeOperation) : w.TouchesOnly git relPath operation w :=
  ⟨fun _ _ => rfl, fun _ _ => rfl, fun _ _ => rfl, fun _ _ _ _ => rfl⟩

theorem discard_eq (hop : operation ≠ .create) (w : WorkTree) :
    w.discardSingleFile git relPath operation = w.checkoutPathFromHead git relPath := by
  cases operation with
  | create => exact absurd rfl hop
  | modify => rfl
  | delete => rfl

theorem checkout_unborn (hhead : w.head = none) : (w.checkoutPathFromHead git relPath).1 = w := by
  rw [checkoutPathFromHead, hhead]

theorem checkout_born {head : Entries} (hhead : w.head = some head) :
    (w.checkoutPathFromHead git relPath).1 =
      w.after (git.checkoutHead w.tree w.workspace head w.index relPath) := by
  unfold checkoutPathFromHead
  split
  · rename_i hnone
    cases hhead.symm.trans hnone
  · rename_i head' hhead'
    obtain rfl := Option.some.inj (hhead.symm.trans hhead')
    rfl

theorem discardsAlone_iff (hop : operation ≠ .create) :
    w.DiscardsAlone git relPath operation ↔
      w.RestoresAlone relPath (w.Restores git relPath) := by
  cases operation with
  | create => exact absurd rfl hop
  | modify => rfl
  | delete => rfl

theorem resetsAlone_iff (hop : operation ≠ .create) :
    w.ResetsAlone git relPath operation ↔
      w.UnstagesAlone git relPath ∧
        w.RestoresAlone relPath (w.RestoresUnstaged git relPath) := by
  cases operation with
  | create => exact absurd rfl hop
  | modify => rfl
  | delete => rfl

/-- Without a HEAD nothing is set. -/
theorem alone_unborn (hhead : w.head = none) :
    w.UnstagesAlone git relPath ∧ w.RestoresAlone relPath (w.Restores git relPath) ∧
      w.RestoresAlone relPath (w.RestoresUnstaged git relPath) := by
  have hunstages : ∀ p, ¬w.Unstages git relPath p := fun p hp => hp.1 hhead
  have hrestores : ∀ p, ¬w.Restores git relPath p := fun p hp => hp.1 hhead
  have hunstaged : ∀ p, ¬w.RestoresUnstaged git relPath p := by
    intro p hp
    refine hp.2.2 ?_
    rw [committed, hhead]
    rfl
  refine ⟨⟨fun p hp => absurd hp (hunstages p), fun p _ hp => absurd hp (hunstages p)⟩,
    ⟨fun p hp => absurd hp (hrestores p), fun p _ hp => absurd hp (hrestores p),
      fun p _ hp => absurd hp (hrestores p)⟩,
    fun p hp => absurd hp (hunstaged p), fun p _ hp => absurd hp (hunstaged p),
    fun p _ hp => absurd hp (hunstaged p)⟩

/-- What the unstaging does to the index. -/
theorem unstage_cases (hgit : w.Trusted git relPath) :
    (w.unstageSingleFile git relPath).1 = w ∧ (w.head = none ∨ ¬w.Succeeds git relPath) ∨
    ∃ index, (w.unstageSingleFile git relPath).1 = { w with index := index } ∧
      w.head ≠ none ∧ w.ResetsIndex git relPath index := by
  unfold unstageSingleFile
  split
  · rename_i hhead
    exact .inl ⟨rfl, .inl hhead⟩
  · rename_i head hhead
    split
    · rename_i e hfails
      refine .inl ⟨rfl, .inr fun h => ?_⟩
      obtain ⟨⟨index, hindex⟩, -⟩ := h head hhead
      cases hfails.symm.trans hindex
    · rename_i index hreset
      exact .inr ⟨index, rfl, by simp [hhead], hgit.resets head index hhead hreset⟩

/-- A checkout that may follow on a reset of the index. -/
theorem checkout_cases (hgit : w.Trusted git relPath) (hindex : Flat index.lookup) :
    w.head = none ∧ (checkoutPathFromHead git { w with index := index } relPath).1 =
        { w with index := index } ∨
    ∃ out, (checkoutPathFromHead git { w with index := index } relPath).1 = w.after out ∧
      ChecksOut git { w with index := index } relPath out ∧
      (w.Succeeds git relPath → out.result = .ok ()) := by
  by_cases hhead : w.head = none
  · exact .inl ⟨hhead, checkout_unborn (w := { w with index := index }) hhead⟩
  · obtain ⟨head, hhead⟩ := Option.ne_none_iff_exists'.mp hhead
    exact .inr ⟨_, checkout_born (w := { w with index := index }) hhead,
      hgit.checks head index hhead hindex, fun h => (h head hhead).2 index⟩

theorem discard_touches (hw : w.Sound) (hgit : w.Trusted git relPath) :
    (w.DiscardsAlone git relPath operation →
      w.TouchesOnly git relPath operation (w.discardSingleFile git relPath operation).1) ∧
    (w.Succeeds git relPath →
      w.TouchesOnly git relPath operation (w.discardSingleFile git relPath operation).1 →
      w.DiscardsAlone git relPath operation) := by
  by_cases hop : operation = .create
  · obtain rfl := hop
    have hiff := delete_touchesOnly_iff git relPath hw w.index
    exact ⟨fun h => hiff.mpr ⟨fun _ _ => rfl, h⟩, fun _ h => (hiff.mp h).2⟩
  · rw [discard_eq hop, discardsAlone_iff hop]
    obtain ⟨hhead, heq⟩ | ⟨out, heq, hcheck, hok⟩ := checkout_cases hgit hw.staged
    · rw [heq]
      exact ⟨fun _ => .refl git w relPath operation, fun _ _ => (alone_unborn hhead).2.1⟩
    · rw [heq]
      exact ⟨hcheck.touchesOnly hop, fun h => hcheck.alone hw (hok h)⟩

theorem reset_touches (hw : w.Sound) (hgit : w.Trusted git relPath) :
    (w.ResetsAlone git relPath operation →
      w.TouchesOnly git relPath operation (w.resetSingleFile git relPath operation).1) ∧
    (w.Succeeds git relPath →
      w.TouchesOnly git relPath operation (w.resetSingleFile git relPath operation).1 →
      w.ResetsAlone git relPath operation) := by
  rw [resetSingleFile]
  by_cases hop : operation = .create
  · obtain rfl := hop
    obtain ⟨heq, hfails⟩ | ⟨index, heq, -, hreset⟩ := unstage_cases hgit
    · have hiff := delete_touchesOnly_iff git relPath hw w.index
      rw [heq]
      refine ⟨fun h => hiff.mpr ⟨fun _ _ => rfl, h.2⟩, fun hok h => ⟨?_, (hiff.mp h).2⟩⟩
      exact (alone_unborn (hfails.resolve_right (not_not.mpr hok))).1
    · have hiff := delete_touchesOnly_iff git relPath hw index
      rw [heq, ResetsAlone, hiff, hreset.agrees_iff hw]
      exact ⟨id, fun _ => id⟩
  · rw [discard_eq hop, resetsAlone_iff hop]
    obtain ⟨heq, hfails⟩ | ⟨index, heq, hhead, hreset⟩ := unstage_cases hgit
    · -- the checkout meets the index as it was
      rw [heq]
      obtain ⟨hhead, hsame⟩ | ⟨out, hsame, hcheck, -⟩ := checkout_cases hgit hw.staged
      · rw [hsame]
        obtain ⟨hunstages, -, hunstaged⟩ := alone_unborn (w := w) hhead
        exact ⟨fun _ => .refl git w relPath operation, fun _ _ => ⟨hunstages, hunstaged⟩⟩
      · rw [hsame]
        refine ⟨fun h => hcheck.touchesOnly hop (.of_unstaged hw h.1 h.2), fun hok _ => ?_⟩
        obtain ⟨hunstages, -, hunstaged⟩ :=
          alone_unborn (w := w) (hfails.resolve_right (not_not.mpr hok))
        exact ⟨hunstages, hunstaged⟩
    · rw [heq]
      obtain ⟨hnone, -⟩ | ⟨out, hsame, hcheck, hok⟩ := checkout_cases hgit hreset.change.flat
      · exact absurd hnone hhead
      · rw [hsame]
        exact ⟨fun h => reset_touchesOnly hop hhead hreset hcheck h.1 h.2,
          fun h => reset_alone hw hhead hreset hcheck (hok h) hop⟩

/-- A discard and a reset touch only the path of the request if what they set is there and meets
nothing else, and when git does not fail, in no other case. -/
theorem discard_touches_only_path (git : Git) (w : WorkTree) (relPath : PathString)
    (operation : FileChangeOperation) (hw : w.Sound) (hgit : w.Trusted git relPath) :
    ((w.DiscardsAlone git relPath operation →
        w.TouchesOnly git relPath operation (w.discardSingleFile git relPath operation).1) ∧
      (w.ResetsAlone git relPath operation →
        w.TouchesOnly git relPath operation (w.resetSingleFile git relPath operation).1)) ∧
    (w.Succeeds git relPath →
      (w.TouchesOnly git relPath operation (w.discardSingleFile git relPath operation).1 ↔
        w.DiscardsAlone git relPath operation) ∧
      (w.TouchesOnly git relPath operation (w.resetSingleFile git relPath operation).1 ↔
        w.ResetsAlone git relPath operation)) := by
  refine ⟨⟨(discard_touches hw hgit).1, (reset_touches hw hgit).1⟩, fun hok => ⟨⟨?_, ?_⟩, ?_, ?_⟩⟩
  · exact (discard_touches hw hgit).2 hok
  · exact (discard_touches hw hgit).1
  · exact (reset_touches hw hgit).2 hok
  · exact (reset_touches hw hgit).1

def putBack (workspace : Place) (done : FileTree Bytes × Entries)
    (e : Sigma fun _ : PathString => Entry) : FileTree Bytes × Entries :=
  (done.1.put (workspace ++ e.1) e.2.node,
    AList.insert e.1 e.2 (done.2.retain fun p _ => !decide (p <+: e.1 ∨ e.1 <+: p)))

/-- Whether a pathspec without special characters, or the pathspec `*`, matches. -/
def globs (pattern p : PathString) : Bool := pattern = ["*"] ∨ pattern <+: p

/-- Git with these pathspecs, where all of HEAD is in the index. -/
def globGit : Git where
  pathMatches := globs
  isIgnored _ := false
  resetDefault head index relPath :=
    .ok ((head.retain fun p _ => globs relPath p) ∪ index.retain fun p _ => !globs relPath p)
  checkoutHead tree workspace head index relPath :=
    let done := (head.entries.filter fun e => globs relPath e.1).foldl (putBack workspace)
      (tree, index)
    ⟨done.1, done.2, .ok ()⟩
  unbornHead := "reference 'refs/heads/master' not found"

def sampleHead : Entries := AList.insert ["a"] (.file [1]) (AList.insert ["b"] (.file [2]) ∅)

/-- The workspace `/ws` with two files that are not as in HEAD, and a file `/x` beside it. -/
def sample : WorkTree where
  tree := .ofList [(["x"], .file [0]), (["ws"], .dir), (["ws", "a"], .file [3]),
    (["ws", "b"], .file [4])]
  workspace := ["ws"]
  head := some sampleHead
  index := sampleHead

theorem flat_of_keys {d : Entries} (h : ∀ p ∈ d.keys, ∀ q ∈ d.keys, p <+: q → p = q) :
    Flat d.lookup := by
  intro p q hp hq
  rw [ne_eq, AList.lookup_eq_none, not_not] at hp hq
  exact h p hp q hq

theorem sample_sound : sample.Sound where
  grounded := FileTree.grounded_ofList (by decide +kernel)
  committed := flat_of_keys (by decide)
  staged := flat_of_keys (by decide)

theorem sample_restores (index : Entries) (p : PathString) :
    Restores globGit { sample with index := index } ["a"] p ↔ p = ["a"] := by
  constructor
  · rintro ⟨-, hmatch, hne, -⟩
    have hap : ["a"] <+: p := (of_decide_eq_true hmatch).resolve_left (by decide)
    by_contra hpa
    have hdisk : sample.onDisk p = none := by
      by_contra hsome
      exact hpa (sample_sound.onDisk _ p (by decide +kernel) hsome hap).symm
    have hcommitted : sample.committed p = none := by
      by_contra hsome
      exact hpa (sample_sound.committed _ p (by decide) hsome hap).symm
    exact hne (hdisk.trans hcommitted.symm)
  · rintro rfl
    have hne : sample.onDisk ["a"] ≠ sample.committed ["a"] := by decide +kernel
    have hsome : sample.committed ["a"] ≠ none := by decide
    exact ⟨by simp [sample], by decide, hne, .inl hsome⟩

/-- The index after a path has been put back. -/
theorem putBack_index (workspace : Place) (done : FileTree Bytes × Entries)
    (e : Sigma fun _ : PathString => Entry) (p : PathString) :
    (putBack workspace done e).2.lookup p = Leaves.set done.2.lookup e.1 (some e.2) p := by
  rw [putBack, Dict.lookup_insert', Dict.lookup_retain, Leaves.set]
  by_cases hp : p = e.1
  · rw [if_pos hp, if_pos hp]
  rw [if_neg hp, if_neg hp]
  by_cases hm : Meets p e.1
  · rw [if_pos hm, show decide (p <+: e.1 ∨ e.1 <+: p) = true from decide_eq_true hm]
    cases done.2.lookup p <;> rfl
  · rw [if_neg hm, show decide (p <+: e.1 ∨ e.1 <+: p) = false from decide_eq_false hm]
    cases done.2.lookup p <;> rfl

theorem sample_checksOut (index : Entries) (hindex : Flat index.lookup) :
    ChecksOut globGit { sample with index := index } ["a"]
      (globGit.checkoutHead sample.tree ["ws"] sampleHead index ["a"]) := by
  have hfile : sample.tree.node (["ws"] ++ ["a"]) ≠ some .dir := by decide +kernel
  have hnode := sample_sound.grounded.put_node (n := .file [1]) (by simp) hfile
  have hgrounded := sample_sound.grounded.put (n := .file [1])
    (sample_sound.grounded.realDir (.inr (by decide +kernel))) (by decide) hfile
  have hrestores : Restores globGit { sample with index := index } ["a"] = (· = ["a"]) :=
    funext fun p => propext (sample_restores index p)
  constructor
  · exact hgrounded
  · intro q hq
    exact FileTree.put_node (fun h => hq ((List.prefix_append ["ws"] ["a"]).trans h)) _
  · refine ⟨fun p => ?_, flat_under hgrounded ["ws"]⟩
    by_cases hp : p = ["a"]
    · exact .inr (.inl (hrestores ▸ hp))
    · left
      refine entryAt_congr ?_
      exact (hnode _).trans (if_neg fun h => hp (List.append_cancel_left h))
  · rw [hrestores]
    have hset := Leaves.change_set hindex ["a"] (some (.file [1]))
    rwa [← funext (putBack_index ["ws"] (sample.tree, index) ⟨["a"], .file [1]⟩)] at hset
  · intro _ p hp
    rw [hrestores] at hp
    obtain rfl := hp
    have hdisk : entryAt (sample.tree.put ["ws", "a"] (.file [1])) ["ws", "a"] =
        sample.committed ["a"] := by decide +kernel
    exact ⟨hdisk, putBack_index ["ws"] (sample.tree, index) ⟨["a"], .file [1]⟩ ["a"]⟩

theorem sample_unstages (p : PathString) : ¬sample.Unstages globGit ["a"] p :=
  fun h => h.2.2 rfl

theorem sample_trusted : sample.Trusted globGit ["a"] where
  resets head index hhead hindex := by
    obtain rfl := Option.some.inj hhead
    have hsame : index = sampleHead := by
      obtain rfl := Except.ok.inj hindex
      exact AList.ext (by decide)
    rw [hsame]
    exact ⟨⟨fun _ => .inl rfl, sample_sound.staged⟩, fun p hp => absurd hp (sample_unstages p)⟩
  checks head index hhead hindex := by
    obtain rfl := Option.some.inj hhead
    exact sample_checksOut index hindex

theorem sample_restoresAlone {A : PathString → Prop} (hA : ∀ p, A p → p = ["a"]) :
    sample.RestoresAlone ["a"] A := by
  refine ⟨fun p hp => ?_, fun p q hp hq hsome hm => ?_, fun p q hp hq hsome hm => ?_⟩
  · obtain rfl := hA p hp
    exact .inl rfl
  · obtain rfl := hA p hp
    obtain rfl := sample_sound.onDisk.eq_of_meets hsome (by decide +kernel) hm
    exact hq (.inl rfl)
  · obtain rfl := hA p hp
    obtain rfl := sample_sound.staged.eq_of_meets hsome (by decide) hm
    exact hq (.inl rfl)

theorem discard_touches_only_path_sample :
    sample.TouchesOnly globGit ["a"] .modify
        (sample.discardSingleFile globGit ["a"] .modify).1 ∧
      sample.TouchesOnly globGit ["a"] .modify
        (sample.resetSingleFile globGit ["a"] .modify).1 := by
  have hrestores : sample.RestoresAlone ["a"] (sample.Restores globGit ["a"]) :=
    sample_restoresAlone fun p => (sample_restores sampleHead p).mp
  have hunstaged : sample.RestoresAlone ["a"] (sample.RestoresUnstaged globGit ["a"]) :=
    sample_restoresAlone fun p hp => (sample_restores sampleHead p).mp
      ⟨by simp [sample], hp.1, hp.2.1, .inl hp.2.2⟩
  have hunstages : sample.UnstagesAlone globGit ["a"] :=
    ⟨fun p hp => absurd hp (sample_unstages p), fun p _ hp => absurd hp (sample_unstages p)⟩
  have hok : sample.Succeeds globGit ["a"] := fun head _ => ⟨⟨_, rfl⟩, fun _ => rfl⟩
  obtain ⟨-, hiff⟩ := discard_touches_only_path globGit sample ["a"] .modify sample_sound
    sample_trusted
  exact ⟨(hiff hok).1.mpr hrestores, (hiff hok).2.mpr ⟨hunstages, hunstaged⟩⟩

/-- A path with `..` takes a file beside the workspace, the pathspec `*` takes a file that the
request does not name, and a deletion takes a file of the baseline. -/
theorem discard_touches_others :
    ¬sample.TouchesOnly globGit ["..", "x"] .create
        (sample.discardSingleFile globGit ["..", "x"] .create).1 ∧
      ¬sample.TouchesOnly globGit ["*"] .modify
        (sample.discardSingleFile globGit ["*"] .modify).1 ∧
      ¬sample.TouchesOnly globGit ["a"] .create
        (sample.discardSingleFile globGit ["a"] .create).1 := by
  refine ⟨fun h => ?_, fun h => ?_, fun h => ?_⟩
  · exact absurd (h.outside ["x"] (by decide)) (by decide +kernel)
  · have hnames : ¬sample.Names ["*"] ["ws", "b"] := by
      rintro (h | h)
      · exact absurd h (by decide)
      · have hentry : sample.tree.entryPlace (sample.joined ["*"]) = .ok ["ws", "*"] := by
          decide +kernel
        exact absurd (Except.ok.inj (hentry.symm.trans h)) (by decide)
    exact absurd (h.others ["ws", "b"] hnames) (by decide +kernel)
  · have hstatus : ¬sample.HasStatus globGit ["a"] .create := by
      rw [HasStatus]
      decide +kernel
    exact absurd (h.baseline rfl ["a"] (by decide) hstatus) (by decide +kernel)

end WorkTree

end AionCore.File
