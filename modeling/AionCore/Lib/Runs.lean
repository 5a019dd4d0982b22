import Mathlib.Data.List.Induction

/-!
# Runs of chunks

A stream in which some items carry a chunk of text and some cut the text. Its runs are the texts
between two cuts, the empty ones dropped. A reader that sees one item at a time keeps the runs that
are closed and the current one.
-/

/-- What a reader of a stream has gathered. -/
structure Runs where
  closed : List String
  current : String

namespace Runs

variable {α : Type*}

def cut (r : Runs) : Runs := ⟨r.closed ++ [r.current].filter (· ≠ ""), ""⟩

def prolong (r : Runs) (text : String) : Runs := ⟨r.closed, r.current ++ text⟩

@[simp] theorem cut_current (r : Runs) : r.cut.current = "" := rfl

@[simp] theorem prolong_closed (r : Runs) (text : String) : (r.prolong text).closed = r.closed := rfl

@[simp] theorem prolong_current (r : Runs) (text : String) :
    (r.prolong text).current = r.current ++ text := rfl

theorem cut_of_current_eq {r : Runs} (h : r.current = "") : r.cut = r := by
  obtain ⟨closed, current⟩ := r
  subst h
  simp [cut]

theorem cut_closed_of_current_ne {r : Runs} (h : r.current ≠ "") :
    r.cut.closed = r.closed ++ [r.current] := by
  simp [cut, h]

theorem prolong_empty (r : Runs) : r.prolong "" = r := by
  simp [prolong]

variable (cuts : α → Bool) (chunk : α → String)

/-- Read one item. -/
def read (r : Runs) (a : α) : Runs := if cuts a then r.cut else r.prolong (chunk a)

def scan (l : List α) : Runs := l.foldl (read cuts chunk) ⟨[], ""⟩

/-- The runs of a stream. -/
def runsOf (l : List α) : List String :=
  ((l.splitOnP cuts).map fun run => String.join (run.map chunk)).filter (· ≠ "")

theorem scan_concat (l : List α) (a : α) :
    scan cuts chunk (l ++ [a]) = (scan cuts chunk l).read cuts chunk a := by
  simp [scan]

/-- Reading goes on in the current run: it becomes the head of the first run to come. -/
theorem foldl_read_cut_closed (l : List α) (r : Runs) :
    (l.foldl (read cuts chunk) r).cut.closed = r.closed ++
      (((l.splitOnP cuts).map fun run => String.join (run.map chunk)).modifyHead
        (r.current ++ ·)).filter (· ≠ "") := by
  induction l generalizing r with
  | nil => simp [cut]
  | cons a l ih =>
    rw [List.foldl_cons, ih, List.splitOnP_cons_eq_if_modifyHead]
    obtain ⟨run, rest, hsplit⟩ : ∃ run rest, l.splitOnP cuts = run :: rest :=
      List.exists_cons_of_ne_nil (List.splitOnP_ne_nil cuts l)
    by_cases ha : cuts a
    · by_cases hr : r.current = ""
      · simp [read, ha, hsplit, cut, hr]
      · simp [read, ha, hsplit, cut, hr]
    · simp [read, ha, hsplit, prolong, String.append_assoc]

theorem scan_cut_closed (l : List α) : (scan cuts chunk l).cut.closed = runsOf cuts chunk l := by
  rw [scan, foldl_read_cut_closed, runsOf]
  obtain ⟨run, rest, hsplit⟩ : ∃ run rest, l.splitOnP cuts = run :: rest :=
    List.exists_cons_of_ne_nil (List.splitOnP_ne_nil cuts l)
  simp [hsplit]

theorem join_cut (r : Runs) :
    String.join r.cut.closed = String.join r.closed ++ r.current := by
  by_cases h : r.current = ""
  · rw [cut_of_current_eq h, h, String.append_empty]
  · simp [cut_closed_of_current_ne h]

variable {cuts chunk}

/-- Nothing is lost where what cuts carries no text. -/
theorem join_scan (hcuts : ∀ a, cuts a → chunk a = "") (l : List α) :
    String.join (scan cuts chunk l).closed ++ (scan cuts chunk l).current =
      String.join (l.map chunk) := by
  induction l using List.reverseRecOn with
  | nil => simp [scan]
  | append_singleton l a ih =>
    rw [scan_concat, read, List.map_append, String.join_append, ← ih]
    by_cases ha : cuts a
    · simp [ha, join_cut, hcuts a ha]
    · simp [ha, String.append_assoc]

theorem join_runsOf (hcuts : ∀ a, cuts a → chunk a = "") (l : List α) :
    String.join (runsOf cuts chunk l) = String.join (l.map chunk) := by
  rw [← scan_cut_closed, join_cut, join_scan hcuts]

end Runs
