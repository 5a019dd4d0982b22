import AionCore.File.ZipSafety

/-!
# File service: archives that are whole or not there

All calls that create archives side by side. As long as no call opens a file that another one relies
on or its own source, what gives up had nothing at its output, and no id is used twice, an archive
is whole or its output as it was, and the registered ids are those of the calls in progress.
-/

namespace AionCore.File

namespace ZipState

variable (svc : FileService) (zip : ZipFormat)

/-- The calls in progress. -/
def running (s : ZipState) : List ZipCall := s.calls.filter (·.phase.inProgress)

def others (s : ZipState) (i : ℕ) : List ZipCall := (s.calls.eraseIdx i).filter (·.phase.inProgress)

/-- A file that is opened is relied on by nobody else, nor is it read by the call itself; a call
gives up only where nothing was, and the file is removed; no flag is left behind by an error; and no
id is used or cancelled twice. -/
def Careful (s : ZipState) : ZipEvent → Prop
  | .create request => ∀ output ∈ (svc.validateZip s.tree request).toOption,
    (∀ call ∈ s.running, request.requestId = none ∨ call.requestId ≠ request.requestId) ∧
      ∀ call ∈ s.running, ∀ p ∈ call.phase.file, p ∉ svc.relies s.tree output request.entries
  | .advance i fault => ∀ call ∈ s.calls[i]?,
    (∀ p ∈ call.opens s.tree fault, p ∉ svc.zipSources call.before call.entries ∧
      ∀ other ∈ s.others i, p ∉ svc.relies other.before other.output other.entries ∧
        other.phase.file ≠ some p) ∧
    (call.phase.givesUp = true → fault = none ∧ call.before.node call.output = none) ∧
    (call.phase.fails = true → ∀ id ∈ call.requestId, s.zipCancellations id = none)
  | .cancel id => ∀ call ∈ s.running, call.requestId = some id → call.cancelled = false

instance (s : ZipState) (e : ZipEvent) : Decidable (s.Careful svc e) :=
  match e with
  | .create request => inferInstanceAs
    (Decidable (∀ output ∈ (svc.validateZip s.tree request).toOption, _ ∧ _))
  | .advance i _ => inferInstanceAs (Decidable (∀ call ∈ s.calls[i]?, _ ∧ _ ∧ _))
  | .cancel _ => inferInstanceAs (Decidable (∀ call ∈ s.running, _))

/-- A call in progress. -/
def At (s : ZipState) (i : ℕ) (call : ZipCall) : Prop :=
  s.calls[i]? = some call ∧ call.phase.inProgress = true

/-- All calls in progress are sound and no two of them meet; the registered ids are those of the
calls in progress that are not cancelled. -/
structure Safe (svc : FileService) (zip : ZipFormat) (s : ZipState) : Prop where
  sound : ∀ i call, s.At i call → call.Sound svc zip s.tree
  sources : ∀ i call p, s.At i call → call.phase.file = some p →
    p ∉ svc.zipSources call.before call.entries
  apart : ∀ i call p j other, s.At i call → call.phase.file = some p → s.At j other → j ≠ i →
    p ∉ svc.relies other.before other.output other.entries ∧ other.phase.file ≠ some p
  registered : ∀ id i, s.zipCancellations id = some i →
    ∃ call, s.At i call ∧ call.requestId = some id ∧ call.cancelled = false
  live : ∀ i call id, s.At i call → call.requestId = some id → call.cancelled = false →
    s.zipCancellations id = some i
  unique : ∀ i call j other id, s.At i call → s.At j other → call.requestId = some id →
    other.requestId = some id → i = j

variable {svc zip} {tree : FileTree Bytes} {call : ZipCall} {p : Place} {fault : Option String}
  {s : ZipState} {i j : ℕ} {other : ZipCall} {id : String}

theorem At.mem_running (h : s.At i call) : call ∈ s.running :=
  List.mem_filter.mpr ⟨List.mem_of_getElem? h.1, h.2⟩

theorem mem_running : call ∈ s.running ↔ ∃ i, s.At i call := by
  constructor
  · intro h
    obtain ⟨hmem, hprogress⟩ := List.mem_filter.mp h
    obtain ⟨i, hi⟩ := List.mem_iff_getElem?.mp hmem
    exact ⟨i, hi, hprogress⟩
  · rintro ⟨i, h⟩
    exact h.mem_running

theorem At.mem_others (h : s.At j other) (hne : j ≠ i) : other ∈ s.others i :=
  List.mem_filter.mpr ⟨List.mem_eraseIdx_iff_getElem?.mpr ⟨j, hne, h.1⟩, h.2⟩

theorem At.eq (h : s.At i call) (h' : s.At i other) : call = other :=
  Option.some.inj (h.1.symm.trans h'.1)

section Create

variable {request : ZipRequest} {output : Place}

theorem checkSources_ok {sourceRoot : Option PathString} {entries : List ZipEntry}
    (h : svc.checkSources tree sourceRoot entries = .ok ()) {name : String} {filePath : PathString}
    (hmem : .disk name filePath ∈ entries) : ∃ q, tree.canonicalize svc.cwd filePath = .ok q := by
  induction entries with
  | nil => cases hmem
  | cons entry entries ih =>
    cases entry with
    | text name' content =>
      obtain heq | hmem := List.mem_cons.mp hmem
      · cases heq
      · exact ih h hmem
    | disk name' filePath' =>
      rw [FileService.checkSources] at h
      split at h
      · cases h
      · rename_i q hvalid
        obtain heq | hmem := List.mem_cons.mp hmem
        · cases heq
          exact ⟨q, (validatePath_ok hvalid).1⟩
        · exact ih h hmem

/-- A call that passes the checks is sound. -/
theorem validateZip_ok (h : svc.validateZip tree request = .ok output) :
    Intact svc tree ⟨output, request.entries, request.requestId, tree⟩ := by
  rw [FileService.validateZip] at h
  split at h
  · cases h
  · rename_i place hvalid
    split at h
    · cases h
    · rename_i u hsources
      obtain rfl := Except.ok.inj h
      refine ⟨?_, ?_⟩
      · intro name filePath hmem
        obtain ⟨q, hq⟩ := checkSources_ok hsources hmem
        obtain ⟨pieces, hroute, hlookup⟩ := canonicalize_sound hq
        refine ⟨pieces, q, hroute, ?_, hlookup, hlookup, rfl⟩
        exact List.mem_filterMap.mpr ⟨_, hmem, by simp [hq, Except.toOption]⟩
      · obtain ⟨d, up, x, rfl, -, -, hcanonical, -⟩ := validatePathForWrite_ok hvalid
        obtain ⟨pieces, -, hlookup⟩ := canonicalize_sound hcanonical
        exact ⟨d, x, rfl, FileTree.lookup_arrived hlookup⟩

theorem at_concat {tree' : FileTree Bytes} {flags : String → Option ℕ} {new : ZipCall}
    (h : At ⟨tree', s.calls ++ [new], flags⟩ i call) :
    s.At i call ∧ i ≠ s.calls.length ∨ i = s.calls.length ∧ call = new := by
  obtain ⟨hcall, hprogress⟩ := h
  obtain hlt | hge := Nat.lt_or_ge i s.calls.length
  · rw [List.getElem?_append_left hlt] at hcall
    exact .inl ⟨⟨hcall, hprogress⟩, Nat.ne_of_lt hlt⟩
  · rw [List.getElem?_append_right hge] at hcall
    obtain ⟨hlength, hcall⟩ := List.getElem?_eq_some_iff.mp hcall
    rw [List.length_singleton] at hlength
    exact .inr ⟨by omega, by simpa using hcall.symm⟩

theorem At.concat {tree' : FileTree Bytes} {flags : String → Option ℕ} {new : ZipCall}
    (h : s.At i call) : At ⟨tree', s.calls ++ [new], flags⟩ i call :=
  ⟨(List.getElem?_append_left (List.getElem?_eq_some_iff.mp h.1).1).trans h.1, h.2⟩

variable {requestId : Option String}

theorem addFlag_eq_some (h : FileService.addFlag s requestId id = some i) :
    s.zipCancellations id = some i ∨ i = s.calls.length ∧ requestId = some id := by
  cases requestId with
  | none => exact .inl h
  | some id' =>
    rw [FileService.addFlag] at h
    by_cases hid : id = id'
    · subst hid
      rw [Function.update_self] at h
      exact .inr ⟨(Option.some.inj h).symm, rfl⟩
    · rw [Function.update_of_ne hid] at h
      exact .inl h

theorem addFlag_of_ne (h : requestId ≠ some id) :
    FileService.addFlag s requestId id = s.zipCancellations id := by
  cases requestId with
  | none => rfl
  | some id' => exact Function.update_of_ne (fun hid => h (congrArg some hid.symm)) _ _

theorem new_at {tree' : FileTree Bytes} {flags : String → Option ℕ} {job : ZipJob} :
    At ⟨tree', s.calls ++ [⟨job, false, .queued⟩], flags⟩ s.calls.length ⟨job, false, .queued⟩ :=
  ⟨List.getElem?_concat_length, rfl⟩

theorem Safe.create (h : s.Safe svc zip) (hcareful : s.Careful svc (.create request)) :
    (svc.fireZip zip s (.create request)).Safe svc zip := by
  unfold FileService.fireZip
  unfold Careful at hcareful
  dsimp only at hcareful ⊢
  cases hvalid : svc.validateZip s.tree request with
  | error e => exact h
  | ok output =>
    obtain ⟨hids, hfiles⟩ := hcareful output (by rw [hvalid]; rfl)
    refine ⟨?_, ?_, ?_, ?_, ?_, ?_⟩
    · intro j other hother
      obtain ⟨hother, -⟩ | ⟨rfl, rfl⟩ := at_concat hother
      · exact h.sound j other hother
      · exact ⟨validateZip_ok hvalid, rfl⟩
    · intro j other p hother hp
      obtain ⟨hother, -⟩ | ⟨rfl, rfl⟩ := at_concat hother
      · exact h.sources j other p hother hp
      · cases hp
    · intro j other p k third hother hp hthird hne
      obtain ⟨hother, -⟩ | ⟨rfl, rfl⟩ := at_concat hother
      · obtain ⟨hthird, -⟩ | ⟨rfl, rfl⟩ := at_concat hthird
        · exact h.apart j other p k third hother hp hthird hne
        · exact ⟨hfiles other hother.mem_running p hp, by simp [ZipPhase.file]⟩
      · cases hp
    · intro id k hk
      obtain hk | ⟨rfl, hid⟩ := addFlag_eq_some hk
      · obtain ⟨other, hother, hid, hcancelled⟩ := h.registered id k hk
        exact ⟨other, hother.concat, hid, hcancelled⟩
      · exact ⟨_, new_at, hid, rfl⟩
    · intro j other id hother hid hcancelled
      obtain ⟨hother, -⟩ | ⟨rfl, rfl⟩ := at_concat hother
      · have hlive := h.live j other id hother hid hcancelled
        have hne : request.requestId ≠ some id := by
          intro hrequest
          obtain hnone | hne := hids other hother.mem_running
          · rw [hrequest] at hnone
            cases hnone
          · exact hne (hid.trans hrequest.symm)
        exact (addFlag_of_ne hne).trans hlive
      · dsimp only at hid
        rw [hid]
        exact Function.update_self _ _ _
    · intro j other k third id hother hthird hid hid'
      have hfresh : ∀ m old, s.At m old → old.requestId = some id →
          request.requestId ≠ some id := by
        intro m old hold hid hrequest
        obtain hnone | hne := hids old hold.mem_running
        · rw [hrequest] at hnone
          cases hnone
        · exact hne (hid.trans hrequest.symm)
      obtain ⟨hother, -⟩ | ⟨rfl, rfl⟩ := at_concat hother
      · obtain ⟨hthird, -⟩ | ⟨rfl, rfl⟩ := at_concat hthird
        · exact h.unique j other k third id hother hthird hid hid'
        · exact absurd hid' (hfresh j other hother hid)
      · obtain ⟨hthird, -⟩ | ⟨rfl, rfl⟩ := at_concat hthird
        · exact absurd hid (hfresh k third hthird hid')
        · rfl

end Create

section Advance

variable {tree' : FileTree Bytes} {phase : ZipPhase} {flags : String → Option ℕ}

theorem at_set (h : At ⟨tree', s.calls.set i { call with phase := phase }, flags⟩ j other) :
    j = i ∧ other = { call with phase := phase } ∨ j ≠ i ∧ s.At j other := by
  obtain ⟨hother, hprogress⟩ := h
  by_cases hj : i = j
  · subst hj
    obtain ⟨hlength, -⟩ := List.getElem?_eq_some_iff.mp hother
    rw [List.length_set] at hlength
    rw [List.getElem?_set_self hlength] at hother
    exact .inl ⟨rfl, (Option.some.inj hother).symm⟩
  · rw [List.getElem?_set_ne hj] at hother
    exact .inr ⟨Ne.symm hj, hother, hprogress⟩

theorem At.set (h : s.At j other) (hne : j ≠ i) :
    At ⟨tree', s.calls.set i { call with phase := phase }, flags⟩ j other :=
  ⟨(List.getElem?_set_ne (Ne.symm hne)).trans h.1, h.2⟩

theorem At.set_self (h : s.At i call) (hprogress : phase.inProgress = true) :
    At ⟨tree', s.calls.set i { call with phase := phase }, flags⟩ i { call with phase := phase } :=
  ⟨List.getElem?_set_self (List.getElem?_eq_some_iff.mp h.1).1, hprogress⟩

theorem Safe.uses (h : s.Safe svc zip) (hcareful : s.Careful svc (.advance i fault))
    (hcall : s.At i call) (huses : Uses s.tree call fault p) :
    p ∉ svc.zipSources call.before call.entries ∧ ∀ j other, s.At j other → j ≠ i →
      p ∉ svc.relies other.before other.output other.entries ∧ other.phase.file ≠ some p := by
  obtain hfile | hopens := huses
  · exact ⟨h.sources i call p hcall hfile, fun j other hother hne =>
      h.apart i call p j other hcall hfile hother hne⟩
  · obtain ⟨hsources, hothers⟩ := (hcareful call hcall.1).1 p hopens
    exact ⟨hsources, fun j other hother hne => hothers other (hother.mem_others hne)⟩

variable {result : Except FileError Bool}

theorem Safe.closes (hcareful : s.Careful svc (.advance i fault)) (hcall : s.At i call)
    {p : Place} {written : List (String × Bytes)}
    (hphase : call.phase = .closing p written result) :
    fault = none ∧ call.before.node call.output = none := by
  refine (hcareful call hcall.1).2.1 ?_
  rw [hphase]
  rfl

theorem dropFlag_eq_some (h : FileService.dropFlag s call id = some i) :
    s.zipCancellations id = some i ∧
      ∀ place value, call.phase = .finished place (.ok value) → call.requestId ≠ some id := by
  unfold FileService.dropFlag at h
  split at h
  · split at h
    · cases h
    · rename_i hid
      exact ⟨h, fun _ _ _ => hid⟩
  · rename_i hother
    exact ⟨h, fun place value hphase => absurd hphase (hother place value)⟩

theorem dropFlag_of_ne
    (h : call.requestId = some id → ∀ place result, call.phase ≠ .finished place result) :
    FileService.dropFlag s call id = s.zipCancellations id := by
  unfold FileService.dropFlag
  split
  · rename_i hphase
    exact if_neg fun hid => h hid _ _ hphase
  · rfl

/-- Only what has a result returns. -/
theorem advance_inProgress (hprogress : call.phase.inProgress = true)
    (h : ∀ place result, call.phase ≠ .finished place result) :
    (svc.advanceZip zip tree call fault).2.inProgress = true := by
  unfold FileService.advanceZip
  cases hphase : call.phase with
  | finished place result => exact absurd hphase (h place result)
  | returned result =>
    rw [hphase] at hprogress
    cases hprogress
  | queued | prepared | writing p written rest | loaded p written entry rest =>
    dsimp only
    repeat' split
    all_goals rfl
  | closing p written result =>
    dsimp only
    split <;> rfl

theorem advance_finished {place : Option Place} (h : call.phase = .finished place result) :
    svc.advanceZip zip tree call fault = (tree, .returned result) := by
  unfold FileService.advanceZip
  rw [h]

theorem Safe.advance (h : s.Safe svc zip) (hcareful : s.Careful svc (.advance i fault))
    (hcall : s.At i call) :
    (svc.fireZip zip s (.advance i fault)).Safe svc zip := by
  have hadvanced := (h.sound i call hcall).advance (fun p hp => (h.uses hcareful hcall hp).1)
    (fun p written result hphase => Safe.closes hcareful hcall hphase)
  unfold FileService.fireZip
  dsimp only
  rw [hcall.1]
  refine ⟨?_, ?_, ?_, ?_, ?_, ?_⟩
  · intro j other hother
    obtain ⟨rfl, rfl⟩ | ⟨hne, hother⟩ := at_set hother
    · exact ⟨hadvanced.intact, hadvanced.sound⟩
    · have hsound := h.sound j other hother
      obtain hsame | ⟨p, huses, hdiffer⟩ := hadvanced.effect
      · dsimp only
        rw [hsame]
        exact hsound
      · obtain ⟨hrelies, hfile⟩ := (h.uses hcareful hcall huses).2 j other hother hne
        exact hsound.differ hdiffer hrelies hfile
  · intro j other p hother hp
    obtain ⟨rfl, rfl⟩ | ⟨hne, hother⟩ := at_set hother
    · exact (h.uses hcareful hcall (hadvanced.file p hp)).1
    · exact h.sources j other p hother hp
  · intro j other p k third hother hp hthird hne
    obtain ⟨rfl, rfl⟩ | ⟨hj, hold⟩ := at_set hother
    · obtain ⟨rfl, -⟩ | ⟨hk, hthird⟩ := at_set hthird
      · exact absurd rfl hne
      · exact (h.uses hcareful hcall (hadvanced.file p hp)).2 k third hthird hk
    · obtain ⟨rfl, rfl⟩ | ⟨hk, hthird⟩ := at_set hthird
      · obtain ⟨hrelies, -⟩ := h.apart j other p k call hold hp hcall hne
        refine ⟨hrelies, fun hfile => ?_⟩
        exact ((h.uses hcareful hcall (hadvanced.file p hfile)).2 j other hold hj).2 hp
      · exact h.apart j other p k third hold hp hthird hne
  · intro id k hk
    obtain ⟨hold, hfinished⟩ := dropFlag_eq_some hk
    obtain ⟨other, hother, hid, hcancelled⟩ := h.registered id k hold
    by_cases hki : k = i
    · subst hki
      obtain rfl := hother.eq hcall
      have hnot : ∀ place result, other.phase ≠ .finished place result := by
        intro place result hphase
        cases result with
        | ok value => exact hfinished place value hphase hid
        | error e =>
          have hnone := (hcareful other hcall.1).2.2 (by rw [hphase]; rfl) id hid
          rw [hnone] at hold
          cases hold
      exact ⟨_, hcall.set_self (advance_inProgress hcall.2 hnot), hid, hcancelled⟩
    · exact ⟨other, hother.set hki, hid, hcancelled⟩
  · intro j other id hother hid hcancelled
    obtain ⟨rfl, rfl⟩ | ⟨hne, hother⟩ := at_set hother
    · refine (dropFlag_of_ne fun _ place result hphase => ?_).trans
        (h.live j call id hcall hid hcancelled)
      have hreturned := hother.2
      rw [advance_finished hphase] at hreturned
      cases hreturned
    · refine (dropFlag_of_ne fun hid' place result hphase => ?_).trans
        (h.live j other id hother hid hcancelled)
      exact hne (h.unique j other i call id hother hcall hid hid')
  · intro j other k third id hother hthird hid hid'
    have hjob : ∀ {m old}, At ⟨(svc.advanceZip zip s.tree call fault).1,
        s.calls.set i { call with phase := (svc.advanceZip zip s.tree call fault).2 },
        FileService.dropFlag s call⟩ m old →
          ∃ old', s.At m old' ∧ old'.requestId = old.requestId := by
      intro m old hold
      obtain ⟨rfl, rfl⟩ | ⟨-, hold⟩ := at_set hold
      · exact ⟨call, hcall, rfl⟩
      · exact ⟨old, hold, rfl⟩
    obtain ⟨other', hother', heq⟩ := hjob hother
    obtain ⟨third', hthird', heq'⟩ := hjob hthird
    exact h.unique j other' k third' id hother' hthird' (heq.trans hid) (heq'.trans hid')

end Advance

section Cancel

variable {tree' : FileTree Bytes} {flags : String → Option ℕ}

theorem at_modify
    (h : At ⟨tree', s.calls.modify i fun call => { call with cancelled := true }, flags⟩ j call) :
    ∃ old, s.At j old ∧ call.toZipJob = old.toZipJob ∧ call.phase = old.phase ∧
      (i = j → call.cancelled = true) ∧ (i ≠ j → call = old) := by
  obtain ⟨hcall, hprogress⟩ := h
  rw [List.getElem?_modify] at hcall
  obtain ⟨old, hold, heq⟩ := Option.map_eq_some_iff.mp hcall
  by_cases hij : i = j
  · rw [if_pos hij] at heq
    subst heq
    exact ⟨old, ⟨hold, hprogress⟩, rfl, rfl, fun _ => rfl, fun hne => absurd hij hne⟩
  · rw [if_neg hij] at heq
    subst heq
    exact ⟨old, ⟨hold, hprogress⟩, rfl, rfl, fun heq => absurd heq hij, fun _ => rfl⟩

theorem At.modify (h : s.At j call) (hne : i ≠ j) :
    At ⟨tree', s.calls.modify i fun call => { call with cancelled := true }, flags⟩ j call := by
  refine ⟨?_, h.2⟩
  rw [List.getElem?_modify, h.1]
  exact congrArg some (if_neg hne)

theorem Safe.cancel (h : s.Safe svc zip) : (svc.fireZip zip s (.cancel id)).Safe svc zip := by
  unfold FileService.fireZip
  dsimp only
  cases hi : s.zipCancellations id with
  | none => exact h
  | some i =>
    obtain ⟨call, hcall, hid, -⟩ := h.registered id i hi
    refine ⟨?_, ?_, ?_, ?_, ?_, ?_⟩
    · intro j other hother
      obtain ⟨old, hold, hjob, hphase, -⟩ := at_modify hother
      obtain ⟨hintact, hsound⟩ := h.sound j old hold
      refine ⟨hjob ▸ hintact, ?_⟩
      rw [hphase, hjob]
      exact hsound
    · intro j other p hother hp
      obtain ⟨old, hold, hjob, hphase, -⟩ := at_modify hother
      rw [hjob]
      exact h.sources j old p hold (hphase ▸ hp)
    · intro j other p k third hother hp hthird hne
      obtain ⟨old, hold, -, hphase, -⟩ := at_modify hother
      obtain ⟨old', hold', hjob', hphase', -⟩ := at_modify hthird
      rw [hjob', hphase']
      exact h.apart j old p k old' hold (hphase ▸ hp) hold' hne
    · intro id' k hk
      dsimp only at hk
      by_cases heq : id' = id
      · subst heq
        rw [Function.update_self] at hk
        cases hk
      · rw [Function.update_of_ne heq] at hk
        obtain ⟨other, hother, hid', hcancelled⟩ := h.registered id' k hk
        have hne : i ≠ k := by
          rintro rfl
          obtain rfl := hother.eq hcall
          exact heq (Option.some.inj (hid'.symm.trans hid))
        exact ⟨other, hother.modify hne, hid', hcancelled⟩
    · intro j other id' hother hid' hcancelled
      obtain ⟨old, hold, hjob, -, hsame, hother'⟩ := at_modify hother
      have hij : i ≠ j := by
        intro hij
        rw [hsame hij] at hcancelled
        cases hcancelled
      obtain rfl := hother' hij
      have heq : id' ≠ id := by
        rintro rfl
        exact hij (h.unique i call j other id' hcall hold hid hid')
      exact (Function.update_of_ne heq _ _).trans (h.live j other id' hold hid' hcancelled)
    · intro j other k third id' hother hthird hid' hid''
      obtain ⟨old, hold, hjob, -⟩ := at_modify hother
      obtain ⟨old', hold', hjob', -⟩ := at_modify hthird
      rw [hjob] at hid'
      rw [hjob'] at hid''
      exact h.unique j old k old' id' hold hold' hid' hid''

end Cancel

theorem safe_of_start (hs : (svc.zipMachine zip).start s) : s.Safe svc zip := by
  obtain ⟨hcalls, hflags⟩ := hs
  have hnone : ∀ i call, ¬s.At i call := by
    intro i call hcall
    have hget := hcall.1
    rw [hcalls] at hget
    cases hget
  refine ⟨fun i call h => absurd h (hnone i call), fun i call _ h => absurd h (hnone i call),
    fun i call _ _ _ h => absurd h (hnone i call), fun id i h => ?_,
    fun i call _ h => absurd h (hnone i call), fun i call _ _ _ h => absurd h (hnone i call)⟩
  rw [hflags] at h
  cases h

/-- Careful calls are safe side by side. -/
theorem safe_of_reachable (h : ((svc.zipMachine zip).restrict (Careful svc)).Reachable s) :
    s.Safe svc zip := by
  refine h.invariant (M := (svc.zipMachine zip).restrict (Careful svc))
    (P := fun s => s.Safe svc zip)
    (fun s (hs : (svc.zipMachine zip).start s) => safe_of_start hs) ?_
  rintro s e hsafe ⟨hadmits, hcareful⟩
  cases e with
  | create request => exact hsafe.create hcareful
  | advance i fault =>
    obtain ⟨call, hcall, hprogress⟩ := hadmits
    exact hsafe.advance hcareful ⟨hcall, hprogress⟩
  | cancel id => exact hsafe.cancel

variable (zip) in
/-- A call that is told its result has finished, and nothing else happens then. -/
theorem finished_of_created {result : Except FileError Bool}
    (h : svc.answerZip s (.advance i fault) = some (.created j result)) :
    ∃ call place, s.At i call ∧ call.phase = .finished place result ∧
      (svc.fireZip zip s (.advance i fault)).tree = s.tree := by
  unfold FileService.answerZip at h
  dsimp only at h
  split at h
  · rename_i call hcall
    split at h
    · rename_i place result' hphase
      obtain ⟨-, rfl⟩ := ZipAnswer.created.inj (Option.some.inj h)
      refine ⟨call, place, ⟨hcall, by rw [hphase]; rfl⟩, hphase, ?_⟩
      unfold FileService.fireZip
      dsimp only
      rw [hcall]
      dsimp only
      rw [advance_finished hphase]
    · cases h
  · cases h

/-- While the calls are careful, sources stay as they are, a call that returns true leaves the
archive of its entries as they were and one that does not leaves its output as it was, and the
registered ids are those of calls in progress. -/
theorem archives_whole_or_absent
    (h : ((svc.zipMachine zip).restrict (Careful svc)).Reachable s) :
    (∀ call ∈ s.running, ∀ name filePath, .disk name filePath ∈ call.entries →
      svc.entryContent s.tree (.disk name filePath) =
        svc.entryContent call.before (.disk name filePath)) ∧
    (∀ id i, s.zipCancellations id = some i → ∃ call, s.At i call ∧ call.requestId = some id) ∧
    (∀ request e, svc.answerZip s (.create request) = some (.refused e) →
      svc.fireZip zip s (.create request) = s) ∧
    (∀ i fault, svc.answerZip s (.advance i fault) = some (.created i (.ok true)) →
      ∃ call contents archive, s.At i call ∧
        call.entries.mapM (svc.entryContent call.before) = .ok contents ∧
        zip.finish contents = .ok archive ∧
        (svc.fireZip zip s (.advance i fault)).tree.read call.output = .ok archive) ∧
    (∀ i fault result, svc.answerZip s (.advance i fault) = some (.created i result) →
      result ≠ .ok true →
      ∃ call, s.At i call ∧ (svc.fireZip zip s (.advance i fault)).tree.node call.output =
        call.before.node call.output) ∧
    ∀ id found, s.Careful svc (.cancel id) →
      svc.answerZip s (.cancel id) = some (.cancelled found) →
      (found = true ↔ ∃ i call, s.At i call ∧ call.requestId = some id) := by
  have hsafe := safe_of_reachable h
  refine ⟨?_, ?_, ?_, ?_, ?_, ?_⟩
  · intro call hcall name filePath hmem
    obtain ⟨i, hcall⟩ := mem_running.mp hcall
    exact (hsafe.sound i call hcall).intact.entryContent hmem
  · intro id i hi
    obtain ⟨call, hcall, hid, -⟩ := hsafe.registered id i hi
    exact ⟨call, hcall, hid⟩
  · intro request e hanswer
    unfold FileService.answerZip at hanswer
    unfold FileService.fireZip
    dsimp only at hanswer ⊢
    cases hvalid : svc.validateZip s.tree request with
    | error e => rfl
    | ok output =>
      rw [hvalid] at hanswer
      cases hanswer
  · intro i fault hanswer
    obtain ⟨call, place, hcall, hphase, htree⟩ := finished_of_created zip hanswer
    have hsound := (hsafe.sound i call hcall).phase
    rw [hphase] at hsound
    obtain ⟨-, p, -, contents, archive, hcontents, harchive, hlookup, hnode⟩ | ⟨hne, -⟩ := hsound
    · refine ⟨call, contents, archive, hcall, hcontents, harchive, ?_⟩
      rw [htree, FileTree.read, hlookup]
      dsimp only
      rw [hnode]
    · exact absurd rfl hne
  · intro i fault result hanswer hresult
    obtain ⟨call, place, hcall, hphase, htree⟩ := finished_of_created zip hanswer
    have hsound := (hsafe.sound i call hcall).phase
    rw [hphase] at hsound
    obtain ⟨hok, -⟩ | ⟨-, -, hsame⟩ := hsound
    · exact absurd hok hresult
    · exact ⟨call, hcall, by rw [htree, hsame]⟩
  · intro id found hcareful hanswer
    obtain rfl := ZipAnswer.cancelled.inj (Option.some.inj hanswer)
    constructor
    · intro hfound
      obtain ⟨i, hi⟩ := Option.isSome_iff_exists.mp hfound
      obtain ⟨call, hcall, hid, -⟩ := hsafe.registered id i hi
      exact ⟨i, call, hcall, hid⟩
    · rintro ⟨i, call, hcall, hid⟩
      rw [hsafe.live i call id hcall hid (hcareful call hcall.mem_running hid)]
      rfl

instance (s : ZipState) (e : ZipEvent) : Decidable (FileService.admitsZip s e) :=
  match e with
  | .create _ | .cancel _ => .isTrue trivial
  | .advance i _ => inferInstanceAs (Decidable (∃ call ∈ s.calls[i]?, call.phase.inProgress = true))

instance (s : ZipState) (e : ZipEvent) : Decidable ((svc.zipMachine zip).admits s e) :=
  inferInstanceAs (Decidable (FileService.admitsZip s e))

/-- A service for one directory. -/
def oneDirectory : FileService := ⟨[["", "w"]], []⟩

/-- Archives without a format. -/
def plainZip : ZipFormat where
  refuses _ _ _ := none
  bytes written := written.flatMap (·.2)
  finish written := .ok (written.flatMap (·.2))

/-- The directory with a source, and perhaps with a file at the output, before the first call. -/
def atFirst (output : Option Bytes) : ZipState where
  tree := ⟨fun
    | ["w"] => some .dir
    | ["w", "a"] => some (.file [1])
    | ["w", "o"] => output.map .file
    | _ => none⟩
  calls := []
  zipCancellations _ := none

def archiveOf (entries : List ZipEntry) : ZipRequest :=
  ⟨["", "w", "o"], entries, some "r", none, none⟩

/-- The calls so far go on. -/
def goOn (n : ℕ) : List ZipEvent := List.replicate n (.advance 0 none)

/-- A call that writes two entries and is told so. -/
theorem archives_whole_or_absent_sample :
    ∃ call archive, ((oneDirectory.zipMachine plainZip).run (atFirst none)
        (.create (archiveOf [.disk "a" ["", "w", "a"], .text "b" "c"]) :: goOn 7)).At 0 call ∧
      (oneDirectory.fireZip plainZip ((oneDirectory.zipMachine plainZip).run (atFirst none)
        (.create (archiveOf [.disk "a" ["", "w", "a"], .text "b" "c"]) :: goOn 7))
          (.advance 0 none)).tree.read call.output = .ok archive := by
  have haccepts : ((oneDirectory.zipMachine plainZip).restrict (Careful oneDirectory)).Accepts
      (atFirst none) (.create (archiveOf [.disk "a" ["", "w", "a"], .text "b" "c"]) :: goOn 7) := by
    decide +kernel
  have hreachable := Machine.reachable_run
    (M := (oneDirectory.zipMachine plainZip).restrict (Careful oneDirectory)) ⟨rfl, rfl⟩ haccepts
  obtain ⟨-, -, -, htrue, -⟩ := archives_whole_or_absent hreachable
  obtain ⟨call, contents, archive, hcall, -, -, hread⟩ := htrue 0 none (by decide +kernel)
  exact ⟨call, archive, hcall, hread⟩

/-- A call over a file, cancelled before its first entry. -/
def cancelledRun : ZipState := (oneDirectory.zipMachine plainZip).run (atFirst (some [7]))
  (.create (archiveOf [.disk "a" ["", "w", "a"]]) :: goOn 2 ++ .cancel "r" :: goOn 2)

/-- A call whose source cannot be read. -/
def failedRun : ZipState := (oneDirectory.zipMachine plainZip).run (atFirst none)
  (.create (archiveOf [.disk "a" ["", "w", "a"]]) :: goOn 2 ++ .advance 0 (some "EIO") :: goOn 2)

/-- A call that archives its own output. -/
def selfRun : ZipState := (oneDirectory.zipMachine plainZip).run (atFirst (some [7]))
  (.create (archiveOf [.disk "o" ["", "w", "o"]]) :: goOn 5)

/-- The file at the output is gone after a cancellation; the id of a failed call stays registered
and is found by a cancellation; and an output that is a source is archived empty. -/
theorem cancelled_archive_removes_output :
    ((atFirst (some [7])).tree.node ["w", "o"] = some (.file [7]) ∧
      oneDirectory.answerZip cancelledRun (.advance 0 none) = some (.created 0 (.ok false)) ∧
      (oneDirectory.fireZip plainZip cancelledRun (.advance 0 none)).tree.node ["w", "o"] = none) ∧
    (failedRun.running.isEmpty = true ∧ failedRun.zipCancellations "r" = some 0 ∧
      oneDirectory.answerZip failedRun (.cancel "r") = some (.cancelled true)) ∧
    oneDirectory.answerZip selfRun (.advance 0 none) = some (.created 0 (.ok true)) ∧
      selfRun.tree.read ["w", "o"] = .ok [] := by
  decide +kernel

end ZipState

end AionCore.File
