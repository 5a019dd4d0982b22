import AionCore.Channel.MediaDecryption
import AionCore.Conversation.AutoWorkspaces
import AionCore.Lib.FileAdditions
import AionCore.Lib.Separators

/-!
# Channels: the files of WeCom media

`download_and_decrypt_media` of the WeCom plugin. A file is created under a name that comes from the
network; both the directory and the name go through a filter of characters that lets dots through.
-/

namespace AionCore.Channel.Wecom

open AionCore.Conversation.PathText
open AionCore.File (PathString Component components fileName parent osError)
open Separators (splitOnce)

def pieces (path : String) : PathString := (split path.toList).map String.ofList

/-- `rsplit_file_at_dot` of the standard library: what is before and after the last dot. -/
def rsplitFileAtDot (file : String) : Option String × Option String :=
  if file = ".." then (some file, none)
  else
    match splitOnce '.' file.toList.reverse with
    | none => (none, some file)
    | some (after, before) =>
      if before = [] then (some file, none)
      else (some (String.ofList before.reverse), some (String.ofList after.reverse))

/-- `Path::file_stem` -/
def fileStem (path : String) : Option String :=
  (fileName (pieces path)).bind fun file => (rsplitFileAtDot file).1.or (rsplitFileAtDot file).2

/-- `Path::extension` -/
def extension (path : String) : Option String :=
  (fileName (pieces path)).bind fun file =>
    (rsplitFileAtDot file).1.bind fun _ => (rsplitFileAtDot file).2

def safeChar (value : Char) : Char :=
  if value.isAlphanum ∨ value = '.' ∨ value = '-' ∨ value = '_' then value else '_'

def sanitize (value : String) : String := String.ofList (value.toList.map safeChar)

def safeComponent (value : String) : String :=
  if sanitize value = "" then "message" else sanitize value

def mediaExtension (mime : String) : Option String :=
  match mime with
  | "image/jpeg" => some "jpg"
  | "image/png" => some "png"
  | "image/gif" => some "gif"
  | "image/webp" => some "webp"
  | "application/pdf" => some "pdf"
  | "text/plain" => some "txt"
  | _ => (pieces mime)[1]?.filter (· ≠ "")

def safeMediaName (originalName mime : Option String) (messageId : String) : String :=
  match (fileName (pieces (originalName.getD ""))).filter (· ≠ "") with
  | some base =>
    match extension (sanitize base), mime.bind mediaExtension with
    | none, some extension => sanitize base ++ "." ++ extension
    | _, _ => sanitize base
  | none =>
    "wecom-" ++ safeComponent messageId ++ "." ++ (mime.bind mediaExtension).getD "bin"

def stemAndExtension (name : String) : String × Option String :=
  match fileStem name with
  | some stem => (stem, extension name)
  | none => (name, none)

def candidate (parts : String × Option String) (suffix : ℕ) : String :=
  match parts.2, suffix with
  | some extension, 0 => parts.1 ++ "." ++ extension
  | some extension, suffix => parts.1 ++ "-" ++ toString suffix ++ "." ++ extension
  | none, 0 => parts.1
  | none, suffix => parts.1 ++ "-" ++ toString suffix

def mediaDir (temp messageId : String) : String :=
  join (join (join temp "aionui") "wecom") (safeComponent messageId)

def detectMediaMime (bytes : List UInt8) : Option String :=
  if [0x89, 0x50, 0x4e, 0x47, 0x0d, 0x0a, 0x1a, 0x0a] <+: bytes then some "image/png"
  else if [0xff, 0xd8, 0xff] <+: bytes then some "image/jpeg"
  else if [0x47, 0x49, 0x46, 0x38] <+: bytes then some "image/gif"
  else if [0x52, 0x49, 0x46, 0x46] <+: bytes ∧ [0x57, 0x45, 0x42, 0x50] <+: bytes.drop 8 then
    some "image/webp"
  else none

def located (cwd : Place) (path : PathString) : Except Errno (List String) :=
  if path.any fun x => '\x00' ∈ x.toList then .error .inval
  else
    match FileTree.route cwd path with
    | none => .error .noEnt
    | some route => .ok route

def ioError (path : String) (e : Errno) : String :=
  if '\x00' ∈ path.toList then "file name contained an unexpected NUL byte" else osError e

def parents : ℕ → PathString → List PathString
  | 0, _ => []
  | n + 1, path =>
    match parent path with
    | none => []
    | some above => above :: parents n above

variable (t : FileTree (List UInt8)) (cwd : Place)

def mkdir (path : PathString) : Except Errno (FileTree.Effect (List UInt8)) :=
  (located cwd path).bind t.makeDir

def isDir (path : PathString) : Bool :=
  match located cwd path with
  | .error _ => false
  | .ok route => t.isDir route

/-- `create_dir_all`, given the path and the paths above it. -/
def createDirAll : List PathString → FileTree (List UInt8) × Except Errno Unit
  | [] => (t, .error .noEnt)
  | path :: above =>
    if path = [""] then (t, .ok ())
    else
      match mkdir t cwd path with
      | .ok done => (done.tree, .ok ())
      | .error .noEnt =>
        match createDirAll above with
        | (made, .error e) => (made, .error e)
        | (made, .ok ()) =>
          match mkdir made cwd path with
          | .ok done => (done.tree, .ok ())
          | .error e => (made, if isDir made cwd path then .ok () else .error e)
      | .error e => (t, if isDir t cwd path then .ok () else .error e)

/-- `open` with `write` and `create_new`. -/
def openNew (path : PathString) : Except Errno (FileTree (List UInt8) × Place) :=
  (located cwd path).bind (t.createNew [])

/-- What a download leaves: the tree, the path of the file that was created, and the result. -/
structure Saved where
  tree : FileTree (List UInt8)
  created : Option String
  result : Except String (String × ℕ × Option String)

def failed (e : String) : Saved := ⟨t, none, .error e⟩

variable (data : List UInt8) (mime : Option String) (interrupted : Option (List UInt8 × String))

/-- The loop over the suffixes. `interrupted` is what a write that fails has written by then, with
its error. -/
def allocate (dir : String) (parts : String × Option String) : List ℕ → Saved
  | [] => failed t "could not allocate a unique attachment path"
  | suffix :: suffixes =>
    let path := join dir (candidate parts suffix)
    match openNew t cwd (pieces path) with
    | .ok (opened, place) =>
      match interrupted with
      | none => ⟨opened.put place (.file data), some path, .ok (path, data.length, mime)⟩
      | some (reached, e) =>
        ⟨opened.put place (.file reached), some path, .error ("save attachment failed: " ++ e)⟩
    | .error .exist => allocate dir parts suffixes
    | .error e => failed t ("save attachment failed: " ++ ioError path e)

def saveMedia (temp : String) (originalName : Option String) (messageId : String) : Saved :=
  let dir := mediaDir temp messageId
  let above := parents (components (pieces dir)).length (pieces dir)
  match createDirAll t cwd (pieces dir :: above) with
  | (made, .error e) => failed made ("create attachment directory failed: " ++ ioError dir e)
  | (made, .ok ()) =>
    allocate made cwd data mime interrupted dir
      (stemAndExtension (safeMediaName originalName mime messageId)) (List.range 1000)

/-- An answer of the server. -/
structure Response where
  contentLength : Option ℕ
  bytes : Except String (List UInt8)

def maxMediaBytes : ℕ := 50 * 1024 * 1024

/-- `download_and_decrypt_media`, with what the server answers and `detect_media_mime` left open;
`none` if it panics. -/
def downloadAndDecryptMedia (read : KeyReaders) (aes : Aes256) (detect : List UInt8 → Option String)
    (response : Except String Response) (aeskey temp : String) (originalName : Option String)
    (messageId : String) : Option Saved :=
  match response with
  | .error e => some (failed t ("download failed: " ++ e))
  | .ok response =>
    if response.contentLength.any (· > maxMediaBytes) then
      some (failed t "media exceeds 50 MiB limit")
    else
      match response.bytes with
      | .error e => some (failed t ("read download failed: " ++ e))
      | .ok encrypted =>
        if encrypted.length > maxMediaBytes then some (failed t "media exceeds 50 MiB limit")
        else
          (decryptMedia read aes encrypted aeskey).map fun
            | .error e => failed t e
            | .ok decrypted =>
              saveMedia t cwd decrypted (detect decrypted) interrupted temp originalName messageId

def Ordinary (x : String) : Prop := x ≠ "" ∧ x ≠ "." ∧ x ≠ ".." ∧ '/' ∉ x.toList

instance : DecidablePred Ordinary := fun x =>
  inferInstanceAs (Decidable (x ≠ "" ∧ x ≠ "." ∧ x ≠ ".." ∧ '/' ∉ x.toList))

/-- A path that is a file in a directory of a message. -/
def InMediaFolder (temp path : String) : Prop :=
  ∃ dir file, Ordinary dir ∧ Ordinary file ∧
    parse path = parse temp ++
      [.normal "aionui", .normal "wecom", .normal dir, .normal file]

variable {t cwd data mime interrupted} {name base stem ext value temp messageId path : String}
  {originalName : Option String} {paths : List PathString} {made : FileTree (List UInt8)}
  {saved : Saved}

theorem names_ordinary (h : Ordinary name) : names (split name.toList) = [.normal name] := by
  obtain ⟨hempty, hdot, hup, hslash⟩ := h
  rw [split_plain hslash, names, List.map_cons, List.map_nil, String.ofList_toList]
  simp [hempty, hdot, hup]

theorem isAbsolute_of_notMem (h : '/' ∉ value.toList) : isAbsolute value = false := by
  rw [isAbsolute, decide_eq_false_iff_not]
  exact fun heq => h (List.mem_of_mem_head? (heq ▸ rfl))

theorem parse_ordinary (h : Ordinary name) : parse name = [.normal name] := by
  rw [parse_of_ne h.1, names_ordinary h, split_plain h.2.2.2, List.head?_cons, lead,
    if_neg, if_neg, List.nil_append]
  · intro hdot
    exact h.2.1 (String.toList_inj.mp (Option.some.inj hdot))
  · intro hempty
    exact h.1 (String.toList_inj.mp (Option.some.inj hempty))

theorem parse_join_ordinary (h : Ordinary name) :
    parse (join base name) = parse base ++ [.normal name] := by
  by_cases hbase : base = ""
  · rw [hbase, join, if_neg (by rw [isAbsolute_of_notMem h.2.2.2]; decide), if_pos (.inl rfl),
      String.empty_append, parse_ordinary h]
    rfl
  · rw [parse_join hbase h.1 (isAbsolute_of_notMem h.2.2.2), names_ordinary h]

theorem fileName_ordinary (h : Ordinary name) : fileName (pieces name) = some name := by
  have hparse : components (pieces name) = [.normal name] := parse_ordinary h
  rw [fileName, hparse]
  rfl

theorem slash_notMem_split {cs piece : List Char} (h : piece ∈ split cs) : '/' ∉ piece := by
  induction cs generalizing piece with
  | nil =>
    rw [split, List.mem_singleton] at h
    rw [h]
    exact List.not_mem_nil
  | cons c rest ih =>
    obtain ⟨first, more, hsplit⟩ := List.exists_cons_of_ne_nil (split_ne_nil rest)
    rw [hsplit] at ih
    rw [split, hsplit] at h
    split at h
    · rcases List.mem_cons.mp h with rfl | h
      · exact List.not_mem_nil
      · exact ih h
    · rename_i hc
      rcases List.mem_cons.mp h with rfl | h
      · exact List.not_mem_cons_of_ne_of_not_mem (Ne.symm hc) (ih List.mem_cons_self)
      · exact ih (List.mem_cons_of_mem first h)

theorem ordinary_of_mem_names {cs : List Char} (h : .normal name ∈ names (split cs)) :
    Ordinary name := by
  obtain ⟨x, hx, hname⟩ := List.mem_filterMap.mp h
  obtain ⟨piece, hpiece, rfl⟩ := List.mem_map.mp hx
  split at hname
  · cases hname
  · rename_i hskip
    split at hname
    · cases hname
    · rename_i hup
      obtain rfl := Component.normal.inj (Option.some.inj hname)
      rw [not_or] at hskip
      refine ⟨hskip.1, hskip.2, hup, ?_⟩
      rw [String.toList_ofList]
      exact slash_notMem_split hpiece

/-- The last component of a path is no special one. -/
theorem ordinary_of_fileName (h : fileName (pieces path) = some name) : Ordinary name := by
  have hmem : .normal name ∈ components (pieces path) := by
    rw [fileName] at h
    split at h
    · rename_i last hlast
      rw [← Option.some.inj h]
      exact List.mem_of_getLast? hlast
    · cases h
  by_cases hpath : path = ""
  · rw [hpath] at hmem
    cases hmem
  · have hparse : components (pieces path) = _ := parse_of_ne hpath
    rw [hparse] at hmem
    rcases List.mem_append.mp hmem with hlead | hnames
    · rw [lead] at hlead
      split at hlead
      · simp at hlead
      · split at hlead
        · simp at hlead
        · cases hlead
    · exact ordinary_of_mem_names hnames

theorem safeChar_eq_dot {c : Char} : safeChar c = '.' ↔ c = '.' := by
  rw [safeChar]
  split
  · rfl
  · rename_i h
    rw [not_or, not_or] at h
    exact iff_of_false (by decide) h.2.1

theorem safeChar_ne_slash (c : Char) : safeChar c ≠ '/' := by
  rw [safeChar]
  split
  · rename_i h
    rintro rfl
    revert h
    decide
  · decide

theorem slash_notMem_sanitize : '/' ∉ (sanitize value).toList := by
  rw [sanitize, String.toList_ofList, List.mem_map]
  rintro ⟨c, -, hc⟩
  exact safeChar_ne_slash c hc

theorem sanitize_eq_dots (n : ℕ) :
    sanitize value = String.ofList (List.replicate n '.') ↔
      value = String.ofList (List.replicate n '.') := by
  rw [sanitize, ofList_eq_iff, ← String.toList_inj, String.toList_ofList, List.eq_replicate_iff,
    List.eq_replicate_iff, List.length_map, List.forall_mem_map]
  simp only [safeChar_eq_dot]

theorem sanitize_ordinary (h : value ≠ "") (hdot : value ≠ ".") (hup : value ≠ "..") :
    Ordinary (sanitize value) :=
  ⟨fun heq => h ((sanitize_eq_dots 0).mp heq), fun heq => hdot ((sanitize_eq_dots 1).mp heq),
    fun heq => hup ((sanitize_eq_dots 2).mp heq), slash_notMem_sanitize⟩

theorem safeComponent_ordinary : Ordinary (safeComponent value) ↔ value ≠ "." ∧ value ≠ ".." := by
  constructor
  · intro h
    constructor
    · rintro rfl
      exact absurd h (by decide)
    · rintro rfl
      exact absurd h (by decide)
  · rintro ⟨hdot, hup⟩
    rw [safeComponent]
    split
    · decide
    · rename_i hempty
      refine sanitize_ordinary (fun heq => hempty ?_) hdot hup
      rw [heq]
      rfl

theorem mediaExtension_spec (h : mediaExtension value = some ext) :
    ext ≠ "" ∧ '/' ∉ ext.toList := by
  unfold mediaExtension at h
  split at h
  iterate 6
    rw [← Option.some.inj h]
    decide
  · obtain ⟨hget, hne⟩ := Option.filter_eq_some_iff.mp h
    obtain ⟨piece, hpiece, rfl⟩ := List.mem_map.mp (List.mem_of_getElem? hget)
    refine ⟨of_decide_eq_true hne, ?_⟩
    rw [String.toList_ofList]
    exact slash_notMem_split hpiece

theorem ordinary_of_length (h : 3 ≤ name.length) (hslash : '/' ∉ name.toList) : Ordinary name := by
  refine ⟨?_, ?_, ?_, hslash⟩
  all_goals
    rintro rfl
    revert h
    decide

theorem length_pos (h : name ≠ "") : 1 ≤ name.length := by
  rw [← String.length_toList]
  exact List.length_pos_iff.mpr fun heq => h (String.toList_eq_nil_iff.mp heq)

/-- A name, a separator and more. -/
theorem ordinary_append {sep : String} (hname : name ≠ "") (hsep : sep ≠ "") (hext : ext ≠ "")
    (hslash : '/' ∉ name.toList ∧ '/' ∉ sep.toList ∧ '/' ∉ ext.toList) :
    Ordinary (name ++ sep ++ ext) := by
  have hname := length_pos hname
  have hsep := length_pos hsep
  have hext := length_pos hext
  refine ordinary_of_length ?_ ?_
  · rw [String.length_append, String.length_append]
    omega
  · simp [hslash]

theorem safeMediaName_ordinary : Ordinary (safeMediaName originalName mime messageId) := by
  rw [safeMediaName]
  split
  · rename_i base hbase
    obtain ⟨hempty, hdot, hup, -⟩ := ordinary_of_fileName (Option.filter_eq_some_iff.mp hbase).1
    have hsafe : Ordinary (sanitize base) := sanitize_ordinary hempty hdot hup
    split
    · rename_i ext hnone hext
      obtain ⟨value, -, hvalue⟩ := Option.bind_eq_some_iff.mp hext
      obtain ⟨hne, hslash⟩ := mediaExtension_spec hvalue
      exact ordinary_append hsafe.1 (by decide) hne ⟨hsafe.2.2.2, by decide, hslash⟩
    · exact hsafe
  · have hext : ((mime.bind mediaExtension).getD "bin") ≠ "" ∧
        '/' ∉ ((mime.bind mediaExtension).getD "bin").toList := by
      cases hmime : mime.bind mediaExtension with
      | none => decide
      | some ext =>
        obtain ⟨value, -, hvalue⟩ := Option.bind_eq_some_iff.mp hmime
        exact mediaExtension_spec hvalue
    have hslash : '/' ∉ (safeComponent messageId).toList := by
      rw [safeComponent]
      split
      · decide
      · exact slash_notMem_sanitize
    refine ordinary_append (by simp) (by decide) hext.1 ⟨?_, by decide, hext.2⟩
    simp [hslash]

variable {parts : String × Option String}

/-- A name is put together again from its stem and its extension. -/
theorem stemAndExtension_spec (h : Ordinary name) (hparts : stemAndExtension name = parts) :
    parts.1 ≠ "" ∧ name = parts.1 ++ ((parts.2.map ("." ++ ·)).getD "") := by
  subst hparts
  rw [stemAndExtension, fileStem, extension, fileName_ordinary h, Option.bind_some,
    Option.bind_some, rsplitFileAtDot, if_neg h.2.2.1]
  cases hsplit : splitOnce '.' name.toList.reverse with
  | none => exact ⟨h.1, String.append_empty.symm⟩
  | some parts =>
    obtain ⟨after, before⟩ := parts
    dsimp only
    by_cases hbefore : before = []
    · rw [if_pos hbefore]
      exact ⟨h.1, String.append_empty.symm⟩
    · rw [if_neg hbefore]
      obtain ⟨htext, -⟩ := Separators.splitOnce_eq_some hsplit
      refine ⟨by simpa using hbefore, ?_⟩
      have hname : name.toList = before.reverse ++ '.' :: after.reverse := by
        rw [← List.reverse_reverse name.toList, htext]
        simp
      apply String.toList_inj.mp
      rw [hname]
      simp

theorem toString_ordinary (n : ℕ) : toString n ≠ "" ∧ '/' ∉ (toString n).toList := by
  have hdigits : (toString n).toList = Nat.toDigits 10 n := Nat.toList_repr
  constructor
  · intro heq
    rw [heq] at hdigits
    exact Nat.toDigits_ne_nil hdigits.symm
  · intro hslash
    rw [hdigits] at hslash
    exact absurd (Nat.isDigit_of_mem_toDigits (by decide) (by decide) hslash) (by decide)

/-- No suffix makes a name special. -/
theorem candidate_ordinary (h : Ordinary name) (suffix : ℕ) :
    Ordinary (candidate (stemAndExtension name) suffix) := by
  obtain ⟨hstem, hname⟩ := stemAndExtension_spec h rfl
  generalize stemAndExtension name = parts at hstem hname
  obtain ⟨stem, extension⟩ := parts
  obtain ⟨hdigits, hslashdigits⟩ := toString_ordinary suffix
  have hslash := hname ▸ h.2.2.2
  cases extension with
  | none =>
    have hstemslash : '/' ∉ stem.toList := by simpa using hslash
    cases suffix with
    | zero => simpa [candidate, hname] using h
    | succ n =>
      exact ordinary_append hstem (by decide) hdigits ⟨hstemslash, by decide, hslashdigits⟩
  | some extension =>
    have hparts : '/' ∉ stem.toList ∧ '/' ∉ extension.toList := by simpa using hslash
    cases suffix with
    | zero =>
      have hsame : candidate (stem, some extension) 0 = name := by
        rw [hname]
        exact String.append_assoc
      exact hsame ▸ h
    | succ n =>
      have hmore : candidate (stem, some extension) (n + 1) =
          stem ++ "-" ++ (toString (n + 1) ++ "." ++ extension) := by
        rw [← String.append_assoc, ← String.append_assoc]
        rfl
      rw [hmore]
      refine ordinary_append hstem (by decide) ?_ ⟨hparts.1, by decide, ?_⟩
      · exact fun heq => hdigits (by simp_all)
      · rw [String.toList_append, String.toList_append, List.mem_append, List.mem_append, not_or,
          not_or]
        exact ⟨⟨hslashdigits, by decide⟩, hparts.2⟩

theorem exists_of_bind {ε α β : Type} {x : Except ε α} {f : α → Except ε β} {b : β}
    (h : x.bind f = .ok b) : ∃ a, x = .ok a ∧ f a = .ok b := by
  cases x with
  | error e => cases h
  | ok a => exact ⟨a, rfl, h⟩

theorem mkdir_keeps {path : PathString} {done : FileTree.Effect (List UInt8)}
    (h : mkdir t cwd path = .ok done) : t.Keeps done.tree := by
  obtain ⟨route, -, hmade⟩ := exists_of_bind h
  exact FileTree.makeDir_keeps hmade

theorem createDirAll_keeps (t : FileTree (List UInt8)) (cwd : Place) (paths : List PathString) :
    t.Keeps (createDirAll t cwd paths).1 := by
  induction paths with
  | nil => exact .refl t
  | cons path above ih =>
    rw [createDirAll]
    split
    · exact .refl t
    · split
      · rename_i done hdone
        exact mkdir_keeps hdone
      · split
        · rename_i made e hmade
          rwa [hmade] at ih
        · rename_i made hmade
          rw [hmade] at ih
          split
          · rename_i done hdone
            exact ih.trans (mkdir_keeps hdone)
          · exact ih
      · exact .refl t

/-- A file that is created is new, and lies in the directory under a name of the candidates. -/
theorem allocate_spec {dir : String} {suffixes : List ℕ}
    (h : allocate t cwd data mime interrupted dir parts suffixes = saved) :
    t.Keeps saved.tree ∧
      ∀ path, saved.created = some path → ∃ suffix, path = join dir (candidate parts suffix) := by
  subst h
  induction suffixes with
  | nil => exact ⟨.refl t, fun path h => by cases h⟩
  | cons suffix suffixes ih =>
    unfold allocate
    dsimp only
    split
    · rename_i opened place hopen
      obtain ⟨route, -, hcreate⟩ := exists_of_bind hopen
      split
      · refine ⟨FileTree.createNew_keeps hcreate data, fun path h => ⟨suffix, ?_⟩⟩
        exact (Option.some.inj h).symm
      · rename_i reached e
        refine ⟨FileTree.createNew_keeps hcreate reached, fun path h => ⟨suffix, ?_⟩⟩
        exact (Option.some.inj h).symm
    · exact ih
    · exact ⟨.refl t, fun path h => by cases h⟩

/-- `create_dir_all` and the loop over the suffixes. -/
theorem saveMedia_spec
    (h : saveMedia t cwd data mime interrupted temp originalName messageId = saved) :
    t.Keeps saved.tree ∧ ∀ path, saved.created = some path →
      ∃ file, Ordinary file ∧ path = join (mediaDir temp messageId) file := by
  unfold saveMedia at h
  dsimp only at h
  generalize hpaths : pieces (mediaDir temp messageId) :: parents _ _ = paths at h
  have hkeeps := createDirAll_keeps t cwd paths
  generalize createDirAll t cwd paths = outcome at h hkeeps
  obtain ⟨made, result⟩ := outcome
  cases result with
  | error e =>
    rw [← h]
    exact ⟨hkeeps, fun path h => by cases h⟩
  | ok done =>
    obtain ⟨hmore, hpath⟩ := allocate_spec h
    refine ⟨hkeeps.trans hmore, fun path h => ?_⟩
    obtain ⟨suffix, hsuffix⟩ := hpath path h
    exact ⟨_, candidate_ordinary safeMediaName_ordinary suffix, hsuffix⟩

/-- Two special message ids lead out of the folder, no other one does. -/
theorem inMediaFolder_iff (h : Ordinary name) :
    InMediaFolder temp (join (mediaDir temp messageId) name) ↔
      messageId ≠ "." ∧ messageId ≠ ".." := by
  have hwecom : parse (join (join temp "aionui") "wecom") =
      parse temp ++ [.normal "aionui", .normal "wecom"] := by
    rw [parse_join_ordinary (by decide), parse_join_ordinary (by decide), List.append_assoc]
    rfl
  rw [← safeComponent_ordinary, InMediaFolder, parse_join_ordinary h, mediaDir]
  constructor
  · rintro ⟨dir, file, -, -, heq⟩
    by_contra hspecial
    have hbase : join (join temp "aionui") "wecom" ≠ "" := join_ne_empty (by decide)
    rw [safeComponent_ordinary, ← not_or, not_not] at hspecial
    rcases hspecial with rfl | rfl
    · have hsafe : safeComponent "." = "." := by decide
      have hnames : names (split ".".toList) = [] := by decide
      rw [hsafe, parse_join hbase (by decide) (by decide), hwecom, hnames] at heq
      have hlength := congrArg List.length heq
      simp at hlength
    · have hsafe : safeComponent ".." = ".." := by decide
      have hnames : names (split "..".toList) = [.parentDir] := by decide
      rw [hsafe, parse_join hbase (by decide) (by decide), hwecom, hnames, List.append_assoc,
        List.append_assoc] at heq
      simpa using List.append_cancel_left heq
  · intro hdir
    refine ⟨_, name, hdir, h, ?_⟩
    rw [parse_join_ordinary hdir, hwecom]
    simp

variable {read : KeyReaders} {aes : Aes256} {detect : List UInt8 → Option String}
  {response : Except String Response} {aeskey : String}

/-- Whatever is downloaded under whatever name: nothing that is in the tree changes, and the file
lies in its folder if and only if the message id is no special component. -/
theorem download_stays_in_folder_iff
    (h : downloadAndDecryptMedia t cwd interrupted read aes detect response aeskey temp originalName
      messageId = some saved) :
    t.Keeps saved.tree ∧ ∀ path, saved.created = some path →
      (InMediaFolder temp path ↔ messageId ≠ "." ∧ messageId ≠ "..") := by
  have hfailed : ∀ e, failed t e = saved → t.Keeps saved.tree ∧
      ∀ path, saved.created = some path →
        (InMediaFolder temp path ↔ messageId ≠ "." ∧ messageId ≠ "..") := by
    rintro e rfl
    exact ⟨.refl t, fun path h => by cases h⟩
  unfold downloadAndDecryptMedia at h
  split at h
  · exact hfailed _ (Option.some.inj h)
  · split at h
    · exact hfailed _ (Option.some.inj h)
    · split at h
      · exact hfailed _ (Option.some.inj h)
      · split at h
        · exact hfailed _ (Option.some.inj h)
        · obtain ⟨result, -, hsaved⟩ := Option.map_eq_some_iff.mp h
          cases result with
          | error e => exact hfailed e hsaved
          | ok decrypted =>
            obtain ⟨hkeeps, hpath⟩ := saveMedia_spec hsaved
            refine ⟨hkeeps, fun path hcreated => ?_⟩
            obtain ⟨file, hfile, rfl⟩ := hpath path hcreated
            exact inMediaFolder_iff hfile

def onlyTemp : FileTree (List UInt8) := ⟨fun p => if p = ["tmp"] then some .dir else none⟩

/-- The download of a greeting that comes as `a b.txt` in the message. -/
def saveGreeting (messageId : String) : Option Saved :=
  downloadAndDecryptMedia onlyTemp [] none zeroKeyReaders zeroKeyAes detectMediaMime
    (.ok ⟨none, .ok (firstBlock.1 ++ secondBlock.1)⟩) zeroKeyText "/tmp" (some "a b.txt") messageId

theorem download_stays_in_folder_sample :
    ∃ saved, saveGreeting "m1" = some saved ∧
      saved.created = some "/tmp/aionui/wecom/m1/a_b.txt" ∧
      InMediaFolder "/tmp" "/tmp/aionui/wecom/m1/a_b.txt" := by
  have hcreated : (saveGreeting "m1").bind Saved.created =
      some "/tmp/aionui/wecom/m1/a_b.txt" := by decide +kernel
  obtain ⟨saved, hsaved, hpath⟩ := Option.bind_eq_some_iff.mp hcreated
  exact ⟨saved, hsaved, hpath,
    ((download_stays_in_folder_iff hsaved).2 _ hpath).mpr (by decide)⟩

/-- The message id `..` leads out of the folder. -/
theorem parent_id_leaves_folder :
    ∃ saved, saveGreeting ".." = some saved ∧
      saved.created = some "/tmp/aionui/wecom/../a_b.txt" ∧
      ¬InMediaFolder "/tmp" "/tmp/aionui/wecom/../a_b.txt" := by
  have hcreated : (saveGreeting "..").bind Saved.created =
      some "/tmp/aionui/wecom/../a_b.txt" := by decide +kernel
  obtain ⟨saved, hsaved, hpath⟩ := Option.bind_eq_some_iff.mp hcreated
  have hjoin : join (mediaDir "/tmp" "..") "a_b.txt" = "/tmp/aionui/wecom/../a_b.txt" := by decide
  refine ⟨saved, hsaved, hpath, ?_⟩
  rw [← hjoin, inMediaFolder_iff (by decide)]
  decide

end AionCore.Channel.Wecom
