import AionCore.Lib.Dict
import Mathlib.Data.List.Infix

/-!
# Extensions: the rules and skills of assistants

The three functions for assistant resources of `skill_service.rs`, against a record of what has been
written for each id and locale. The file system takes every name and does not fail.
-/

namespace AionCore.Extension

/-- `validate_filename`, which otherwise returns `PathTraversal` with the name. -/
def ValidFilename (name : String) : Prop :=
  '/' ∉ name.toList ∧ '\\' ∉ name.toList ∧ ¬"..".toList <:+: name.toList ∧ name ≠ ""

instance (name : String) : Decidable (ValidFilename name) := by
  unfold ValidFilename
  infer_instance

structure PathTraversal where
  name : String

def validateFilename (name : String) : Except PathTraversal Unit :=
  if ValidFilename name then .ok () else .error ⟨name⟩

/-- The names of one resource. -/
def ValidNames (assistantId : String) (locale : Option String) : Prop :=
  ValidFilename assistantId ∧ ∀ loc ∈ locale, ValidFilename loc

def validateNames (assistantId : String) (locale : Option String) : Except PathTraversal Unit := do
  validateFilename assistantId
  locale.elim (.ok ()) validateFilename

/-- The directory of one kind, if it has been created, with its files. -/
abbrev ResourceDir := Option (Dict String String)

def resourceFile (assistantId : String) (locale : Option String) : String :=
  match locale with
  | some loc => if loc ≠ "" then assistantId ++ "." ++ loc ++ ".md" else assistantId ++ ".md"
  | none => assistantId ++ ".md"

namespace ResourceDir

/-- `read_to_string` of a file of the directory. -/
def file (dir : ResourceDir) (name : String) : Option String := dir.bind (·.lookup name)

def readAssistantResource (dir : ResourceDir) (assistantId : String) (locale : Option String) :
    Except PathTraversal String := do
  validateNames assistantId locale
  .ok (((dir.file (resourceFile assistantId locale)).or
    (dir.file (resourceFile assistantId none))).getD "")

def writeAssistantResource (dir : ResourceDir) (assistantId content : String)
    (locale : Option String) : Except PathTraversal ResourceDir := do
  validateNames assistantId locale
  .ok (some ((dir.getD ∅).insert (resourceFile assistantId locale) content))

/-- Whether `delete_assistant_resource` removes the file. -/
def deletes (assistantId name : String) : Bool :=
  name = assistantId ++ ".md" ∨
    (assistantId ++ ".").toList <+: name.toList ∧ ".md".toList <:+ name.toList

/-- Whether a file has been removed, with the directory after it. -/
def deleteAssistantResource (dir : ResourceDir) (assistantId : String) :
    Except PathTraversal (Bool × ResourceDir) := do
  validateFilename assistantId
  .ok (dir.elim (false, none) fun files => (files.keys.any (deletes assistantId),
    some (files.retain fun name _ => !deletes assistantId name)))

end ResourceDir

inductive ResourceCall where
  | write (assistantId content : String) (locale : Option String)
  | read (assistantId : String) (locale : Option String)
  | delete (assistantId : String)

namespace ResourceCall

def assistantId : ResourceCall → String
  | write id _ _ | read id _ | delete id => id

def Accepted : ResourceCall → Prop
  | write id _ locale | read id locale => ValidNames id locale
  | delete id => ValidFilename id

end ResourceCall

/-- The directory after a call, which stays as it is where the call returns an error. -/
def ResourceDir.after (dir : ResourceDir) : ResourceCall → ResourceDir
  | .write id content locale => (dir.writeAssistantResource id content locale).toOption.getD dir
  | .read _ _ => dir
  | .delete id => ((dir.deleteAssistantResource id).map Prod.snd).toOption.getD dir

/-- What the last write for an id and a locale wrote, unless the id has been deleted since. -/
abbrev WrittenResources := String → Option String → Option String

namespace WrittenResources

def after (written : WrittenResources) : ResourceCall → WrittenResources
  | .write a content l => fun id locale =>
    if id = a ∧ locale = l then some content else written id locale
  | .read _ _ => written
  | .delete a => fun id locale => if id = a then none else written id locale

/-- The text for a locale, else the one for no locale, else none. -/
def shown (written : WrittenResources) (assistantId : String) (locale : Option String) : String :=
  ((written assistantId locale).or (written assistantId none)).getD ""

end WrittenResources

def resourcesAfter (calls : List ResourceCall) : ResourceDir := calls.foldl ResourceDir.after none

def writtenAfter (calls : List ResourceCall) : WrittenResources :=
  calls.foldl WrittenResources.after fun _ _ => none

/-- After every run of calls for these ids, a read for one of them returns what has been written for
it, and no call for another of them changes what it returns. -/
def ReadsRight (ids : Set String) : Prop :=
  ∀ calls : List ResourceCall, (∀ call ∈ calls, call.Accepted ∧ call.assistantId ∈ ids) →
    ∀ id ∈ ids, ∀ locale, ValidNames id locale →
      (resourcesAfter calls).readAssistantResource id locale =
          .ok ((writtenAfter calls).shown id locale) ∧
        ∀ call : ResourceCall, call.Accepted → call.assistantId ∈ ids → call.assistantId ≠ id →
          (resourcesAfter (calls ++ [call])).readAssistantResource id locale =
            (resourcesAfter calls).readAssistantResource id locale

variable {id : String} {locale : Option String}

theorem validateNames_ok (h : ValidNames id locale) :
    validateNames id locale = .ok () := by
  unfold validateNames validateFilename
  rw [if_pos h.1]
  cases locale with
  | none => rfl
  | some loc => exact if_pos (h.2 loc rfl)

/-- What comes after the dot behind the id. -/
def ending : Option String → List Char
  | none => "md".toList
  | some loc => loc.toList ++ ".md".toList

theorem resourceFile_toList (h : ∀ loc ∈ locale, ValidFilename loc) :
    (resourceFile id locale).toList = id.toList ++ '.' :: ending locale := by
  cases locale with
  | none => simp [resourceFile, ending]
  | some loc =>
    have hne : loc ≠ "" := (h loc rfl).2.2.2
    simp [resourceFile, hne, ending]

variable {locale' : Option String}

theorem ending_injective (h : ending locale = ending locale') :
    locale = locale' := by
  cases locale with
  | none =>
    cases locale' with
    | none => rfl
    | some loc' =>
      have := congrArg List.length h
      simp [ending] at this
  | some loc =>
    cases locale' with
    | none =>
      have := congrArg List.length h
      simp [ending] at this
    | some loc' =>
      rw [ending, ending, List.append_left_inj] at h
      exact congrArg some (String.toList_inj.mp h)

/-- Neither id is the other one up to a dot. -/
def Undotted (a b : String) : Prop := ¬(a ++ ".").toList <+: b.toList

variable {a b : String}

theorem eq_of_append_dot (hab : Undotted a b) (hba : Undotted b a) {s t : List Char}
    (h : a.toList ++ '.' :: s = b.toList ++ '.' :: t) : a = b ∧ s = t := by
  obtain ⟨rest, hb, hs⟩ | ⟨rest, ha, ht⟩ := List.append_eq_append_iff.mp h
  · cases rest with
    | nil => exact ⟨(String.toList_inj.mp (by simpa using hb)).symm, by simpa using hs⟩
    | cons c rest =>
      obtain ⟨rfl, -⟩ := List.cons.inj hs
      exact absurd ⟨rest, by simp [hb]⟩ hab
  · cases rest with
    | nil => exact ⟨String.toList_inj.mp (by simpa using ha), by simpa using ht.symm⟩
    | cons c rest =>
      obtain ⟨rfl, -⟩ := List.cons.inj ht
      exact absurd ⟨rest, by simp [ha]⟩ hba

/-- Ids that are no beginning of each other have different files. -/
theorem resourceFile_inj (hab : Undotted a b) (hba : Undotted b a)
    (hl : ∀ loc ∈ locale, ValidFilename loc) (hl' : ∀ loc ∈ locale', ValidFilename loc) :
    resourceFile a locale = resourceFile b locale' ↔ a = b ∧ locale = locale' := by
  constructor
  · intro h
    have hlist := congrArg String.toList h
    rw [resourceFile_toList hl, resourceFile_toList hl'] at hlist
    obtain ⟨heq, hend⟩ := eq_of_append_dot hab hba hlist
    exact ⟨heq, ending_injective hend⟩
  · rintro ⟨rfl, rfl⟩
    rfl

/-- A deletion removes the files of its id, and no others. -/
theorem deletes_resourceFile (hab : Undotted a b) (hba : Undotted b a)
    (hl : ∀ loc ∈ locale, ValidFilename loc) :
    ResourceDir.deletes a (resourceFile b locale) = true ↔ a = b := by
  rw [ResourceDir.deletes, decide_eq_true_iff]
  constructor
  · rintro (h | ⟨⟨rest, h⟩, -⟩)
    · have hnone : ∀ loc ∈ (none : Option String), ValidFilename loc := by simp
      exact ((resourceFile_inj hba hab hl hnone).mp h).1.symm
    · rw [resourceFile_toList hl] at h
      exact (eq_of_append_dot hab hba (s := rest) (by simpa using h)).1
  · rintro rfl
    refine .inr ?_
    rw [resourceFile_toList hl]
    refine ⟨⟨ending locale, by simp⟩, ?_⟩
    cases locale with
    | none => exact ⟨a.toList, by simp [ending]⟩
    | some loc => exact ⟨a.toList ++ '.' :: loc.toList, by simp [ending]⟩

/-- The files of these ids hold what has been written for them. -/
def Holds (ids : Set String) (dir : ResourceDir) (written : WrittenResources) : Prop :=
  ∀ id ∈ ids, ∀ locale, ValidNames id locale → dir.file (resourceFile id locale) = written id locale

/-- No id is another one with a dot and more behind it. -/
def Apart (ids : Set String) : Prop :=
  ∀ a ∈ ids, ∀ b ∈ ids, ValidFilename a → ValidFilename b → Undotted a b

variable {ids : Set String} {dir : ResourceDir} {written : WrittenResources}

theorem Holds.read (h : Holds ids dir written) (hid : id ∈ ids) (hok : ValidNames id locale) :
    dir.readAssistantResource id locale = .ok (written.shown id locale) := by
  have hnone : ValidNames id none := ⟨hok.1, by simp⟩
  unfold ResourceDir.readAssistantResource
  rw [validateNames_ok hok, h id hid locale hok, h id hid none hnone]
  rfl

variable {call : ResourceCall}

/-- A call keeps the files of ids that are apart in step with what has been written. -/
theorem Holds.after (h : Holds ids dir written) (hids : Apart ids) (hok : call.Accepted)
    (hcall : call.assistantId ∈ ids) :
    Holds ids (dir.after call) (written.after call) := by
  intro id hid locale hn
  have hheld := h id hid locale hn
  cases call with
  | read a l => exact hheld
  | write a content l =>
    have hafter : dir.after (.write a content l) =
        some ((dir.getD ∅).insert (resourceFile a l) content) := by
      simp only [ResourceDir.after, ResourceDir.writeAssistantResource, validateNames_ok hok]
      rfl
    have hfile := resourceFile_inj (hids id hid a hcall hn.1 hok.1) (hids a hcall id hid hok.1 hn.1)
      hn.2 hok.2
    rw [hafter]
    simp only [ResourceDir.file, Option.bind_some, Dict.lookup_insert', hfile,
      WrittenResources.after]
    rw [← hheld]
    cases dir <;> rfl
  | delete a =>
    have hdel := deletes_resourceFile (hids a hcall id hid hok hn.1) (hids id hid a hcall hn.1 hok)
      hn.2
    have hafter : dir.after (.delete a) =
        dir.map (Dict.retain fun name _ => !ResourceDir.deletes a name) := by
      simp only [ResourceDir.after, ResourceDir.deleteAssistantResource, validateFilename,
        if_pos (show ValidFilename a from hok)]
      cases dir <;> rfl
    rw [hafter]
    change _ = if id = a then none else written id locale
    rw [← hheld]
    cases dir with
    | none => exact (ite_self none).symm
    | some files =>
      have hlookup := Dict.lookup_retain (fun name _ => !ResourceDir.deletes a name) files
        (resourceFile id locale)
      refine hlookup.trans ?_
      by_cases heq : a = id
      · rw [if_pos heq.symm, hdel.mpr heq]
        cases files.lookup (resourceFile id locale) <;> rfl
      · rw [if_neg (Ne.symm heq), Bool.eq_false_iff.mpr (mt hdel.mp heq)]
        cases hfile : files.lookup (resourceFile id locale) <;>
          simp [ResourceDir.file, hfile]

theorem Holds.run (h : Holds ids dir written) (hids : Apart ids) {calls : List ResourceCall}
    (hcalls : ∀ call ∈ calls, call.Accepted ∧ call.assistantId ∈ ids) :
    Holds ids (calls.foldl ResourceDir.after dir) (calls.foldl WrittenResources.after written) := by
  induction calls generalizing dir written with
  | nil => exact h
  | cons call calls ih =>
    have ⟨hok, hid⟩ := hcalls call List.mem_cons_self
    exact ih (h.after hids hok hid) fun c hc => hcalls c (List.mem_cons_of_mem _ hc)

theorem WrittenResources.after_of_ne (hne : call.assistantId ≠ id) (locale : Option String) :
    written.after call id locale = written id locale := by
  cases call with
  | read a l => rfl
  | write a content l => exact if_neg fun h => hne h.1.symm
  | delete a => exact if_neg (Ne.symm hne)

theorem not_readsRight (ha : a ∈ ids) (hb : b ∈ ids) (hva : ValidFilename a)
    (hvb : ValidFilename b) (hab : (a ++ ".").toList <+: b.toList) : ¬ReadsRight ids := by
  intro h
  have hne : b ≠ a := by
    rintro rfl
    have hle := hab.length_le
    rw [String.toList_append, List.length_append] at hle
    exact absurd hle (Nat.not_add_one_le_self _)
  have hread := (h [.write b "rules" none, .delete a]
    (by simp [ResourceCall.Accepted, ResourceCall.assistantId, ValidNames, *]) b hb none
    ⟨hvb, by simp⟩).1
  have hdel : ResourceDir.deletes a (resourceFile b none) := by
    rw [ResourceDir.deletes, decide_eq_true_iff]
    refine .inr ⟨?_, b.toList, by simp [resourceFile]⟩
    simpa [resourceFile] using hab.trans (List.prefix_append _ _)
  simp [resourcesAfter, writtenAfter, ResourceDir.after, ResourceDir.writeAssistantResource,
    ResourceDir.deleteAssistantResource, ResourceDir.readAssistantResource, validateNames,
    validateFilename, hva, hvb, hne, hdel, WrittenResources.after, WrittenResources.shown,
    ResourceDir.file, bind, Except.bind, Except.toOption, Except.map] at hread

/-- Rules and skills do not mix as long as no id is another one with a dot and more behind it. -/
theorem reads_right_iff (ids : Set String) : ReadsRight ids ↔ Apart ids := by
  constructor
  · intro h a ha b hb hva hvb hab
    exact not_readsRight ha hb hva hvb hab h
  · intro hids calls hcalls id hid locale hn
    have hholds : Holds ids (resourcesAfter calls) (writtenAfter calls) :=
      Holds.run (fun _ _ _ _ => rfl) hids hcalls
    refine ⟨hholds.read hid hn, fun call hok hcall hne => ?_⟩
    have hnext := (hholds.after hids hok hcall).read hid hn
    rw [hholds.read hid hn, resourcesAfter, List.foldl_append]
    refine hnext.trans ?_
    simp only [WrittenResources.shown, WrittenResources.after_of_ne hne]

/-- Deleting the rules of `a` deletes those of `a.b`. -/
theorem resources_mix : ¬ReadsRight Set.univ :=
  not_readsRight trivial trivial (show ValidFilename "a" by decide)
    (show ValidFilename "a.b" by decide) (by decide)

end AionCore.Extension
