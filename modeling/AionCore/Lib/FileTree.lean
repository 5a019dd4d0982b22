import Mathlib.Data.List.Basic
import Mathlib.Data.List.Infix

/-!
# File trees

A file system as POSIX sees it: directories, files and symbolic links under one root. A
place is named by the names on the way to it from the root; a path is walked piece by
piece, `.`, `..` and links included, and a link costs one of a bounded number of jumps.
The system calls follow links on the way, and only `open` at the end of the path too.
-/

abbrev Place := List String

/-- What stands at a place; a link holds the pieces of its target between the slashes, the
first of them empty if the target is absolute. -/
inductive Node (γ : Type*) where
  | dir
  | file (content : γ)
  | link (target : List String)
  deriving DecidableEq

/-- Why a system call fails. -/
inductive Errno where
  | noEnt
  | notDir
  | isDir
  | exist
  | loop
  | inval
  deriving DecidableEq

/-- What stands at each place; the root is a directory in any case. -/
@[ext] structure FileTree (γ : Type*) where
  node : Place → Option (Node γ)

namespace FileTree

/-- A piece of a path that names an object in its directory. -/
def Plain (x : String) : Prop := x ≠ "" ∧ x ≠ "." ∧ x ≠ ".." ∧ '\x00' ∉ x.toList

instance : DecidablePred Plain := fun x =>
  inferInstanceAs (Decidable (x ≠ "" ∧ x ≠ "." ∧ x ≠ ".." ∧ '\x00' ∉ x.toList))

variable {γ : Type*} (t : FileTree γ)

/-- Where a walk ends: at an object, at a name that is missing in its directory, or nowhere. -/
inductive Goal where
  | arrived (place : Place)
  | absent (place : Place)
  | failed (e : Errno)

/-- A walk has ended or stands before a link in `dir`. -/
inductive Progress where
  | done (goal : Goal)
  | link (dir : Place) (target rest : List String)

/-- Walk from the directory `cur` up to the first link. A piece after a file or after a
missing name ends the walk in an error, and so does one that is no name at all. -/
def advance (cur : Place) : List String → Progress
  | [] => .done (.arrived cur)
  | x :: rest =>
    if x = "" ∨ x = "." then advance cur rest
    else if x = ".." then advance cur.dropLast rest
    else if ¬Plain x then .done (.failed .inval)
    else
      match t.node (cur ++ [x]) with
      | some .dir => advance (cur ++ [x]) rest
      | some (.file _) => .done (if rest = [] then .arrived (cur ++ [x]) else .failed .notDir)
      | some (.link target) => .link cur target rest
      | none => .done (if rest = [] then .absent (cur ++ [x]) else .failed .noEnt)

/-- Walk from `cur`, following at most `jumps` links. -/
def follow (jumps : ℕ) (cur : Place) (pieces : List String) : Goal :=
  match t.advance cur pieces with
  | .done goal => goal
  | .link dir target rest =>
    match jumps with
    | 0 => .failed .loop
    | jumps + 1 => follow jumps (if target.head? = some "" then [] else dir) (target ++ rest)

def maxLinks : ℕ := 40

/-- Look up an absolute path, links included. -/
def lookup (path : List String) : Goal := t.follow maxLinks [] path

/-- The pieces of a path string, from the root on; a relative one starts in `cwd`. The
empty string names nothing. -/
def route (cwd : Place) (path : List String) : Option (List String) :=
  if path = [] ∨ path = [""] then none
  else if path.head? = some "" then some path
  else some (cwd ++ path)

/-- `realpath`. -/
def canonicalize (cwd : Place) (path : List String) : Except Errno Place :=
  match route cwd path with
  | none => .error .noEnt
  | some pieces =>
    match t.lookup pieces with
    | .arrived place => .ok place
    | .absent _ => .error .noEnt
    | .failed e => .error e

def pathExists (path : List String) : Bool :=
  match t.lookup path with
  | .arrived _ => true
  | _ => false

def isDirAt (p : Place) : Bool :=
  p.isEmpty || match t.node p with
    | some .dir => true
    | _ => false

def isDir (path : List String) : Bool :=
  match t.lookup path with
  | .arrived place => t.isDirAt place
  | _ => false

def isFile (path : List String) : Bool :=
  match t.lookup path with
  | .arrived place => !t.isDirAt place
  | _ => false

/-- The content of the file that the path leads to. -/
def read (path : List String) : Except Errno γ :=
  match t.lookup path with
  | .arrived place =>
    match t.node place with
    | some (.file content) => .ok content
    | _ => .error .isDir
  | .absent _ => .error .noEnt
  | .failed e => .error e

def put (p : Place) (n : Node γ) : FileTree γ where
  node q := if q = p then some n else if p <+: q then none else t.node q

def prune (p : Place) : FileTree γ := ⟨fun q => if p <+: q then none else t.node q⟩

/-- Move what stands at `p` and under it to `q`. -/
def graft (p q : Place) : FileTree γ where
  node r := if q <+: r then t.node (p ++ r.drop q.length) else if p <+: r then none else t.node r

/-- A tree after a call, with the places that the call created, changed, moved or removed
(for a directory also all that stands under it). -/
structure Effect (γ : Type*) where
  tree : FileTree γ
  touched : List Place

/-- The place that `open` for writing with creation leads to. -/
def openPlace (path : List String) : Except Errno Place :=
  match t.lookup path with
  | .arrived place => if t.isDirAt place then .error .isDir else .ok place
  | .absent place => .ok place
  | .failed e => .error e

/-- The directory entry that a path names: links are followed on the way to it, but not at
its end. -/
def entryPlace (path : List String) : Except Errno Place :=
  match path.getLast? with
  | none => .error .exist
  | some x =>
    match t.lookup path.dropLast with
    | .arrived dir =>
      if ¬t.isDirAt dir then .error .notDir
      else if ¬Plain x then .error .inval
      else .ok (dir ++ [x])
    | .absent _ => .error .noEnt
    | .failed e => .error e

/-- Write a whole file, creating it if it is missing. -/
def write (path : List String) (content : γ) : Except Errno (Effect γ) :=
  match t.openPlace path with
  | .error e => .error e
  | .ok place => .ok ⟨t.put place (.file content), [place]⟩

/-- `mkdir`. -/
def makeDir (path : List String) : Except Errno (Effect γ) :=
  match t.entryPlace path with
  | .error e => .error e
  | .ok place =>
    match t.node place with
    | some _ => .error .exist
    | none => .ok ⟨t.put place .dir, [place]⟩

/-- `unlink`. -/
def unlink (path : List String) : Except Errno (Effect γ) :=
  match t.entryPlace path with
  | .error e => .error e
  | .ok place =>
    match t.node place with
    | none => .error .noEnt
    | some .dir => .error .isDir
    | some _ => .ok ⟨t.prune place, [place]⟩

def removeDirAll (path : List String) : Except Errno (Effect γ) :=
  match t.lookup path with
  | .arrived place => if t.isDirAt place then .ok ⟨t.prune place, [place]⟩ else .error .notDir
  | .absent _ => .error .noEnt
  | .failed e => .error e

/-- `rename`. An object that is replaced is no directory, nothing moves under itself; a
target that is a directory is refused here even if it is empty. -/
def rename (source target : List String) : Except Errno (Effect γ) :=
  match t.entryPlace source, t.entryPlace target with
  | .error e, _ | .ok _, .error e => .error e
  | .ok p, .ok q =>
    if p <+: q ∧ p ≠ q then .error .inval
    else
      match t.node p, t.node q with
      | none, _ => .error .noEnt
      | some _, some .dir => .error .isDir
      | some .dir, some _ => .error .notDir
      | some _, _ => .ok ⟨if p = q then t else t.graft p q, [p, q]⟩

/-- `create_dir_all`, given the names from the last to the first: try to create the
directory, and create those above it if they are missing. -/
def makeDirs : List String → Effect γ × Except Errno Unit
  | [] => (⟨t, []⟩, .ok ())
  | x :: above =>
    let path := (x :: above).reverse
    match t.makeDir path with
    | .ok done => (done, .ok ())
    | .error .noEnt =>
      match makeDirs above with
      | (done, .error e) => (done, .error e)
      | (done, .ok ()) =>
        match done.tree.makeDir path with
        | .ok last => (⟨last.tree, done.touched ++ last.touched⟩, .ok ())
        | .error e => (done, if done.tree.isDir path then .ok () else .error e)
    | .error e => (⟨t, []⟩, if t.isDir path then .ok () else .error e)

/-- What failed when a file was created with its directories. -/
inductive Stage where
  | directories
  | file

/-- Create the directories that are missing on the way to a file and write it. -/
def create (path : List String) (content : γ) : Effect γ × Except (Stage × Errno) Unit :=
  match t.makeDirs path.dropLast.reverse with
  | (done, .error e) => (done, .error (.directories, e))
  | (done, .ok ()) =>
    match done.tree.write path content with
    | .error e => (done, .error (.file, e))
    | .ok last => (⟨last.tree, done.touched ++ last.touched⟩, .ok ())

/-- The first directory that is missing on a path, which is given from its last name to its
first. -/
def gap : List String → Option Place
  | [] => none
  | x :: above =>
    match gap above with
    | some p => some p
    | none =>
      match t.lookup above.reverse with
      | .arrived dir =>
        if t.isDirAt dir ∧ (t.node (dir ++ [x])).isNone then some (dir ++ [x]) else none
      | _ => none

/-- The first place that changes when a file is created under a path, with the directories
that are missing on it. -/
def landing (path : List String) : Option Place :=
  match t.gap path.dropLast.reverse with
  | some p => some p
  | none => if t.isDir path.dropLast then (t.openPlace path).toOption else none

variable {t} {cur d p q : Place} {x : String} {pieces rest : List String} {n : ℕ}

theorem advance_skip (h : x = "" ∨ x = ".") : t.advance cur (x :: rest) = t.advance cur rest := by
  rw [advance, if_pos h]

theorem advance_up : t.advance cur (".." :: rest) = t.advance cur.dropLast rest := by
  rw [advance, if_neg (by decide), if_pos rfl]

theorem advance_bad (h : ¬(x = "" ∨ x = ".")) (hup : x ≠ "..") (hx : ¬Plain x) :
    t.advance cur (x :: rest) = .done (.failed .inval) := by
  rw [advance, if_neg h, if_neg hup, if_pos hx]

theorem advance_plain (hx : Plain x) : t.advance cur (x :: rest) =
    match t.node (cur ++ [x]) with
    | some .dir => t.advance (cur ++ [x]) rest
    | some (.file _) => .done (if rest = [] then .arrived (cur ++ [x]) else .failed .notDir)
    | some (.link target) => .link cur target rest
    | none => .done (if rest = [] then .absent (cur ++ [x]) else .failed .noEnt) := by
  rw [advance, if_neg (not_or.mpr ⟨hx.1, hx.2.1⟩), if_neg hx.2.2.1, if_neg (not_not.mpr hx)]

theorem advance_dir (hx : Plain x) (hn : t.node (cur ++ [x]) = some .dir) :
    t.advance cur (x :: rest) = t.advance (cur ++ [x]) rest := by
  rw [advance_plain hx, hn]

theorem piece_cases (x : String) :
    (x = "" ∨ x = ".") ∨ x = ".." ∨ Plain x ∨ ¬(x = "" ∨ x = ".") ∧ x ≠ ".." ∧ ¬Plain x := by
  by_cases hskip : x = "" ∨ x = "."
  · exact .inl hskip
  by_cases hup : x = ".."
  · exact .inr (.inl hup)
  by_cases hx : Plain x
  · exact .inr (.inr (.inl hx))
  · exact .inr (.inr (.inr ⟨hskip, hup, hx⟩))

variable (t) in
def RealDir (p : Place) : Prop := ∀ d x, d ++ [x] <+: p → Plain x ∧ t.node (d ++ [x]) = some .dir

theorem RealDir.nil : t.RealDir [] := by
  intro d x h
  have := h.length_le
  simp at this

theorem realDir_snoc :
    t.RealDir (d ++ [x]) ↔ t.RealDir d ∧ Plain x ∧ t.node (d ++ [x]) = some .dir := by
  constructor
  · intro h
    exact ⟨fun d' y hp => h d' y (hp.trans (List.prefix_append d [x])), h d x List.prefix_rfl⟩
  · rintro ⟨hd, hx, hn⟩ d' y hp
    rcases List.prefix_concat_iff.mp hp with he | hp
    · obtain ⟨rfl, rfl⟩ : d' = d ∧ y = x := by simpa using he
      exact ⟨hx, hn⟩
    · exact hd d' y hp

theorem RealDir.ancestor (h : t.RealDir p) (hp : q <+: p) : t.RealDir q :=
  fun d x hd => h d x (hd.trans hp)

theorem RealDir.dropLast (h : t.RealDir p) : t.RealDir p.dropLast :=
  h.ancestor (List.dropLast_prefix p)

theorem isDirAt_iff : t.isDirAt p = true ↔ p = [] ∨ t.node p = some .dir := by
  rw [isDirAt, Bool.or_eq_true, List.isEmpty_iff]
  cases hn : t.node p with
  | none => simp
  | some n => cases n <;> simp

theorem RealDir.isDirAt (h : t.RealDir p) : t.isDirAt p = true := by
  rcases List.eq_nil_or_concat p with rfl | ⟨d, x, rfl⟩
  · rfl
  · rw [List.concat_eq_append] at h ⊢
    exact isDirAt_iff.mpr (.inr (realDir_snoc.mp h).2.2)

/-- Where a walk can end: at a real directory, or at a file or a missing name in one. -/
def Goal.Sound (t : FileTree γ) : Goal → Prop
  | .arrived p => t.RealDir p ∨
    ∃ d x c, p = d ++ [x] ∧ t.RealDir d ∧ Plain x ∧ t.node p = some (.file c)
  | .absent p => ∃ d x, p = d ++ [x] ∧ t.RealDir d ∧ Plain x ∧ t.node p = none
  | .failed _ => True

/-- A walk has ended soundly or stands in a real directory. -/
def Progress.Sound (t : FileTree γ) : Progress → Prop
  | .done goal => goal.Sound t
  | .link dir _ _ => t.RealDir dir

theorem advance_sound (h : t.RealDir cur) : (t.advance cur pieces).Sound t := by
  induction pieces generalizing cur with
  | nil => exact .inl h
  | cons x rest ih =>
    rcases piece_cases x with hskip | rfl | hx | ⟨hskip, hup, hx⟩
    · rw [advance_skip hskip]
      exact ih h
    · rw [advance_up]
      exact ih h.dropLast
    · rw [advance_plain hx]
      split
      · rename_i hn
        exact ih (realDir_snoc.mpr ⟨h, hx, hn⟩)
      · rename_i c hn
        by_cases hr : rest = []
        · rw [if_pos hr]
          exact .inr ⟨cur, x, c, rfl, h, hx, hn⟩
        · rw [if_neg hr]
          trivial
      · exact h
      · rename_i hn
        by_cases hr : rest = []
        · rw [if_pos hr]
          exact ⟨cur, x, rfl, h, hx, hn⟩
        · rw [if_neg hr]
          trivial
    · rw [advance_bad hskip hup hx]
      trivial

theorem follow_sound (h : t.RealDir cur) : (t.follow n cur pieces).Sound t := by
  induction n generalizing cur pieces with
  | zero =>
    have hs : (t.advance cur pieces).Sound t := advance_sound h
    rw [follow]
    split
    · rename_i hgoal
      rwa [hgoal] at hs
    · trivial
  | succ n ih =>
    have hs : (t.advance cur pieces).Sound t := advance_sound h
    rw [follow]
    split
    · rename_i hgoal
      rwa [hgoal] at hs
    · rename_i hlink
      rw [hlink] at hs
      apply ih
      split
      · exact .nil
      · exact hs

theorem lookup_sound : (t.lookup pieces).Sound t := follow_sound .nil

/-- A path that starts with a real directory is walked from there. -/
theorem advance_append (h : t.RealDir (cur ++ d)) :
    t.advance cur (d ++ rest) = t.advance (cur ++ d) rest := by
  induction d generalizing cur with
  | nil => rw [List.append_nil, List.nil_append]
  | cons x d ih =>
    have he : cur ++ x :: d = cur ++ [x] ++ d := by simp
    rw [he] at h ⊢
    obtain ⟨-, hx, hn⟩ := realDir_snoc.mp (h.ancestor (List.prefix_append _ d))
    rw [List.cons_append, advance_dir hx hn]
    exact ih h

theorem lookup_append (h : t.RealDir d) : t.lookup (d ++ rest) = t.follow maxLinks d rest := by
  have ha : t.advance [] (d ++ rest) = t.advance ([] ++ d) rest := advance_append h
  rw [List.nil_append] at ha
  rw [lookup, follow, ha, follow]

theorem lookup_realDir (h : t.RealDir d) : t.lookup d = .arrived d := by
  have ha : t.lookup (d ++ []) = t.follow maxLinks d [] := lookup_append h
  rw [List.append_nil] at ha
  rw [ha]
  rfl

def Progress.extend (t : FileTree γ) (more : List String) : Progress → Progress
  | .done (.arrived p) => if t.isDirAt p then t.advance p more else .done (.failed .notDir)
  | .done (.absent _) => .done (.failed .noEnt)
  | .done (.failed e) => .done (.failed e)
  | .link dir target rest => .link dir target (rest ++ more)

theorem advance_extend {more : List String} (hmore : more ≠ []) (h : t.RealDir cur) :
    t.advance cur (pieces ++ more) = (t.advance cur pieces).extend t more := by
  induction pieces generalizing cur with
  | nil =>
    show t.advance cur more = if t.isDirAt cur then t.advance cur more else _
    rw [if_pos h.isDirAt]
  | cons x rest ih =>
    rw [List.cons_append]
    rcases piece_cases x with hskip | rfl | hx | ⟨hskip, hup, hx⟩
    · rw [advance_skip hskip, advance_skip hskip]
      exact ih h
    · rw [advance_up, advance_up]
      exact ih h.dropLast
    · rw [advance_plain hx, advance_plain hx]
      have hne : rest ++ more ≠ [] := by simp [hmore]
      cases hn : t.node (cur ++ [x]) with
      | none =>
        dsimp only
        rw [if_neg hne]
        by_cases hr : rest = []
        · rw [if_pos hr]
          rfl
        · rw [if_neg hr]
          rfl
      | some n =>
        cases n with
        | dir => exact ih (realDir_snoc.mpr ⟨h, hx, hn⟩)
        | link target => rfl
        | file c =>
          rw [if_neg hne]
          have hfile : ¬t.isDirAt (cur ++ [x]) = true := by simp [isDirAt_iff, hn]
          by_cases hr : rest = []
          · rw [if_pos hr, Progress.extend, if_neg hfile]
          · rw [if_neg hr]
            rfl
    · rw [advance_bad hskip hup hx, advance_bad hskip hup hx]
      rfl

theorem follow_congr {cur' : Place} {pieces' : List String}
    (h : t.advance cur pieces = t.advance cur' pieces') :
    t.follow n cur pieces = t.follow n cur' pieces' := by
  cases n <;> rw [follow, h, follow]

/-- A path that leads nowhere, or to a missing name, still leads nowhere when it goes on. -/
theorem follow_extend_missing (more : List String) (hmore : more ≠ []) (h : t.RealDir cur)
    (hmiss : (∃ p, t.follow n cur pieces = .absent p) ∨ t.follow n cur pieces = .failed .noEnt) :
    t.follow n cur (pieces ++ more) = .failed .noEnt := by
  induction n generalizing cur pieces with
  | zero =>
    have hs : (t.advance cur pieces).Sound t := advance_sound h
    rw [follow] at hmiss ⊢
    rw [advance_extend hmore h]
    cases hp : t.advance cur pieces with
    | link dir target rest => simp [hp] at hmiss
    | done goal => cases goal <;> simp_all [Progress.extend]
  | succ n ih =>
    have hs : (t.advance cur pieces).Sound t := advance_sound h
    rw [follow] at hmiss ⊢
    rw [advance_extend hmore h]
    cases hp : t.advance cur pieces with
    | done goal => cases goal <;> simp_all [Progress.extend]
    | link dir target rest =>
      simp only [hp] at hmiss hs
      simp only [Progress.extend]
      rw [← List.append_assoc]
      apply ih
      · split
        · exact .nil
        · exact hs
      · exact hmiss

/-- A path to a real directory leads, when it goes on, where the rest leads from there. -/
theorem follow_extend (more : List String) (hmore : more ≠ []) (h : t.RealDir cur)
    (hd : t.follow n cur pieces = .arrived d) (hdir : t.RealDir d) :
    ∃ m, t.follow n cur (pieces ++ more) = t.follow m d more := by
  induction n generalizing cur pieces with
  | zero =>
    rw [follow] at hd
    cases hp : t.advance cur pieces with
    | link dir target rest => simp [hp] at hd
    | done goal =>
      simp only [hp] at hd
      refine ⟨0, follow_congr ?_⟩
      rw [advance_extend hmore h, hp, hd, Progress.extend, if_pos hdir.isDirAt]
  | succ n ih =>
    have hs : (t.advance cur pieces).Sound t := advance_sound h
    rw [follow] at hd
    cases hp : t.advance cur pieces with
    | done goal =>
      simp only [hp] at hd
      refine ⟨n + 1, follow_congr ?_⟩
      rw [advance_extend hmore h, hp, hd, Progress.extend, if_pos hdir.isDirAt]
    | link dir target rest =>
      simp only [hp] at hd hs
      rw [follow, advance_extend hmore h, hp]
      simp only [Progress.extend]
      rw [← List.append_assoc]
      apply ih
      · split
        · exact .nil
        · exact hs
      · exact hd

/-- What a missing or an ordinary name in a directory leads to. -/
theorem follow_name (hx : Plain x) (hlink : ∀ target, t.node (d ++ [x]) ≠ some (.link target)) :
    t.follow n d [x] = (match t.node (d ++ [x]) with
      | none => .absent (d ++ [x])
      | some _ => .arrived (d ++ [x])) := by
  rw [follow, advance_plain hx]
  cases hn : t.node (d ++ [x]) with
  | none => rfl
  | some node =>
    cases node with
    | dir => rfl
    | file c => rfl
    | link target => exact absurd hn (hlink target)

theorem realDir_of_lookup (h : t.lookup pieces = .arrived d) (hd : t.isDirAt d = true) :
    t.RealDir d := by
  have hs : Goal.Sound t (.arrived d) := h ▸ lookup_sound
  rcases hs with hr | ⟨d', x, c, rfl, -, -, hn⟩
  · exact hr
  · simp [isDirAt_iff, hn] at hd

end FileTree
