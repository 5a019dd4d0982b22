import AionCore.Lib.Replacements
import Mathlib.Data.List.Infix

/-!
# Text outside brackets

A bracket is one letter, one or more others, and the next of a second letter: the text outside the
brackets, what stands in them, and replacements that lose nothing outside. Within a bracket the
letters since its opening are kept, which are text when it is never closed.
-/

namespace Brackets

open Patterns

variable {α : Type*} [DecidableEq α] (o c : α)

section Reading

/-- Outside of brackets, or with the letters since the opening one. -/
def next : Option (List α) → α → Option (List α)
  | none, d => if d = o then some [] else none
  | some inside, d => if d = c then none else some (inside ++ [d])

def after (s : Option (List α)) (text : List α) : Option (List α) := text.foldl (next o c) s

def kept : Option (List α) → α → List α
  | none, d => if d = o then [] else [d]
  | some inside, d => if d = c ∧ inside = [] then [o, c] else []

def outsideFrom (s : Option (List α)) : List α → List α
  | [] => s.elim [] (o :: ·)
  | d :: text => kept o c s d ++ outsideFrom (next o c s d) text

def outside (text : List α) : List α := outsideFrom o c none text

/-- What stands between two letters that have been read. -/
def closed : Option (List α) → α → List (List α)
  | none, _ => []
  | some inside, d => if d = c then [inside] else []

def insidesFrom (s : Option (List α)) : List α → List (List α)
  | [] => []
  | d :: text => closed c s d ++ insidesFrom (next o c s d) text

/-- What stands between an opening letter and the next closing one. -/
def insides (text : List α) : List (List α) := insidesFrom o c none text

/-- Without brackets. -/
def Free (text : List α) : Prop :=
  ∀ inside, inside ≠ [] → c ∉ inside → ¬ o :: inside ++ [c] <:+: text

end Reading

variable {o c} {s : Option (List α)} {text text' inside a b : List α} {d : α}

@[simp] theorem after_nil : after o c s [] = s := rfl

@[simp] theorem after_cons : after o c s (d :: text) = after o c (next o c s d) text := rfl

@[simp] theorem after_append : after o c s (a ++ b) = after o c (after o c s a) b :=
  List.foldl_append

@[simp] theorem outsideFrom_cons :
    outsideFrom o c s (d :: text) = kept o c s d ++ outsideFrom o c (next o c s d) text :=
  rfl

@[simp] theorem insidesFrom_cons :
    insidesFrom o c s (d :: text) = closed c s d ++ insidesFrom o c (next o c s d) text :=
  rfl

theorem insidesFrom_append :
    insidesFrom o c s (a ++ b) = insidesFrom o c s a ++ insidesFrom o c (after o c s a) b := by
  induction a generalizing s with
  | nil => rfl
  | cons d a ih => rw [List.cons_append, insidesFrom_cons, ih, insidesFrom_cons, after_cons,
      List.append_assoc]

theorem outsideFrom_append (h : after o c s a = none) :
    outsideFrom o c s (a ++ b) = outsideFrom o c s a ++ outside o c b := by
  induction a generalizing s with
  | nil =>
    obtain rfl : s = none := h
    rfl
  | cons d a ih => rw [List.cons_append, outsideFrom_cons, ih h, outsideFrom_cons,
      List.append_assoc]

theorem after_concat (hoc : o ≠ c) : after o c s (a ++ [c]) = none := by
  rw [after_append]
  cases after o c s a with
  | none => exact if_neg hoc.symm
  | some inside => exact if_pos rfl

section Text

theorem after_of_not_mem (h : o ∉ text) : after o c none text = none := by
  induction text with
  | nil => rfl
  | cons d text ih =>
    obtain ⟨hd, htext⟩ := List.ne_and_not_mem_of_not_mem_cons h
    rw [after_cons, next, if_neg (Ne.symm hd), ih htext]

theorem outside_of_not_mem (h : o ∉ text) : outside o c text = text := by
  unfold outside
  induction text with
  | nil => rfl
  | cons d text ih =>
    obtain ⟨hd, htext⟩ := List.ne_and_not_mem_of_not_mem_cons h
    rw [outsideFrom_cons, kept, next, if_neg (Ne.symm hd), if_neg (Ne.symm hd), ih htext]
    rfl

theorem insides_of_not_mem (h : o ∉ text) : insides o c text = [] := by
  unfold insides
  induction text with
  | nil => rfl
  | cons d text ih =>
    obtain ⟨hd, htext⟩ := List.ne_and_not_mem_of_not_mem_cons h
    rw [insidesFrom_cons, next, if_neg (Ne.symm hd), ih htext]
    rfl

end Text

section Pending

theorem after_some (h : c ∉ a) : after o c (some inside) a = some (inside ++ a) := by
  induction a generalizing inside with
  | nil => rw [List.append_nil, after_nil]
  | cons d a ih =>
    obtain ⟨hd, ha⟩ := List.ne_and_not_mem_of_not_mem_cons h
    rw [after_cons, next, if_neg (Ne.symm hd), ih ha, List.append_assoc]
    rfl

theorem insidesFrom_some (h : c ∉ a) :
    insidesFrom o c (some inside) (a ++ c :: b) = (inside ++ a) :: insides o c b := by
  have hnone : insidesFrom o c (some inside) a = [] := by
    induction a generalizing inside with
    | nil => rfl
    | cons d a ih =>
      obtain ⟨hd, ha⟩ := List.ne_and_not_mem_of_not_mem_cons h
      rw [insidesFrom_cons, next, closed, if_neg (Ne.symm hd), if_neg (Ne.symm hd), ih ha]
      rfl
  rw [insidesFrom_append, hnone, after_some h, insidesFrom_cons, closed, next, if_pos rfl,
    if_pos rfl]
  rfl

theorem outsideFrom_some (h : c ∉ a) (hne : inside ++ a ≠ []) :
    outsideFrom o c (some inside) (a ++ c :: b) = outside o c b := by
  induction a generalizing inside with
  | nil =>
    rw [List.append_nil] at hne
    rw [List.nil_append, outsideFrom_cons, kept, next, if_neg (hne ·.2), if_pos rfl]
    rfl
  | cons d a ih =>
    obtain ⟨hd, ha⟩ := List.ne_and_not_mem_of_not_mem_cons h
    rw [List.cons_append, outsideFrom_cons, kept, next, if_neg (hd ·.1.symm),
      if_neg (Ne.symm hd), List.nil_append, ih ha (by simp)]

theorem outsideFrom_some_of_not_mem (h : c ∉ text) :
    outsideFrom o c (some inside) text = o :: (inside ++ text) := by
  induction text generalizing inside with
  | nil => rw [List.append_nil]; rfl
  | cons d text ih =>
    obtain ⟨hd, htext⟩ := List.ne_and_not_mem_of_not_mem_cons h
    rw [outsideFrom_cons, kept, next, if_neg (hd ·.1.symm), if_neg (Ne.symm hd), ih htext,
      List.append_assoc]
    rfl

theorem next_opening : next o c none o = some [] := if_pos rfl

theorem kept_opening : kept o c none o = [] := if_pos rfl

theorem outside_cons (h : d ≠ o) : outside o c (d :: text) = d :: outside o c text := by
  rw [outside, outsideFrom_cons, kept, next, if_neg h, if_neg h]
  rfl

theorem outside_unclosed (h : c ∉ text) : outside o c (o :: text) = o :: text := by
  rw [outside, outsideFrom_cons, kept_opening, next_opening, outsideFrom_some_of_not_mem h]
  rfl

theorem outside_empty : outside o c (o :: c :: text) = o :: c :: outside o c text := by
  rw [outside, outsideFrom_cons, kept_opening, next_opening, outsideFrom_cons, kept,
    if_pos ⟨rfl, rfl⟩, next, if_pos rfl]
  rfl

theorem outside_bracket (hne : inside ≠ []) (h : c ∉ inside) :
    outside o c (o :: (inside ++ c :: text)) = outside o c text := by
  have hall : [] ++ inside ≠ [] := hne
  rw [outside, outsideFrom_cons, kept_opening, next_opening, outsideFrom_some h hall]
  rfl

theorem insides_bracket (h : c ∉ inside) :
    insides o c (o :: (inside ++ c :: text)) = inside :: insides o c text := by
  rw [insides, insidesFrom_cons, next_opening, insidesFrom_some h]
  rfl

/-- Where no bracket has an opening letter in it, those before an opening letter are closed. -/
theorem after_eq_none (hinsides : ∀ x ∈ insidesFrom o c s (a ++ o :: b), o ∉ x) (hb : c ∈ b)
    (hoc : o ≠ c) : after o c s a = none := by
  cases hs : after o c s a with
  | none => rfl
  | some inside =>
    exfalso
    obtain ⟨u, v, rfl, hu⟩ := List.eq_append_cons_of_mem hb
    rw [insidesFrom_append, hs, ← List.cons_append,
      insidesFrom_some (List.not_mem_cons_of_ne_of_not_mem hoc.symm hu)] at hinsides
    refine hinsides _ (List.mem_append_right _ List.mem_cons_self) ?_
    exact List.mem_append_right _ List.mem_cons_self

end Pending

section Free

omit [DecidableEq α] in
theorem free_cons (h : d ≠ o) (hfree : Free o c text) : Free o c (d :: text) := by
  intro inside hne hc hinside
  obtain hprefix | hinside := List.infix_cons_iff.mp hinside
  · exact h (List.cons_prefix_cons.mp hprefix).1.symm
  · exact hfree inside hne hc hinside

omit [DecidableEq α] in
theorem Free.tail (h : Free o c (d :: text)) : Free o c text := fun inside hne hc hinside =>
  h inside hne hc (List.infix_cons hinside)

omit [DecidableEq α] in
theorem free_empty (hoc : o ≠ c) (hfree : Free o c text) : Free o c (o :: c :: text) := by
  intro inside hne hc hinside
  obtain hprefix | hinside := List.infix_cons_iff.mp hinside
  · obtain ⟨x, inside, rfl⟩ := List.exists_cons_of_ne_nil hne
    have hx := (List.cons_prefix_cons.mp (List.cons_prefix_cons.mp hprefix).2).1
    exact hc (hx ▸ List.mem_cons_self)
  · exact free_cons hoc.symm hfree inside hne hc hinside

omit [DecidableEq α] in
theorem free_of_not_mem (h : c ∉ text) : Free o c text := fun _ _ _ hinside =>
  h (hinside.subset (List.mem_append_right _ (List.mem_singleton.mpr rfl)))

/-- No bracket is left outside of the brackets. -/
theorem free_outside (hoc : o ≠ c) (text : List α) : Free o c (outside o c text) := by
  suffices hall : ∀ s : Option (List α), (∀ inside ∈ s, c ∉ inside) →
      Free o c (outsideFrom o c s text) from hall none (fun _ h => nomatch h)
  induction text with
  | nil =>
    intro s hs
    refine free_of_not_mem ?_
    cases s with
    | none => exact List.not_mem_nil
    | some inside =>
      exact List.not_mem_cons_of_ne_of_not_mem hoc.symm (hs inside rfl)
  | cons d text ih =>
    intro s hs
    rw [outsideFrom_cons]
    cases s with
    | none =>
      by_cases hd : d = o
      · rw [kept, next, if_pos hd, if_pos hd]
        refine ih _ ?_
        rintro _ ⟨⟩
        exact List.not_mem_nil
      · rw [kept, next, if_neg hd, if_neg hd]
        exact free_cons hd (ih none fun _ h => nomatch h)
    | some inside =>
      by_cases hd : d = c
      · have htext := ih none fun _ h => nomatch h
        rw [kept, next, if_pos hd]
        split
        · exact free_empty hoc htext
        · exact htext
      · rw [kept, next, if_neg hd, if_neg fun h => hd h.1]
        refine ih _ ?_
        rintro _ ⟨⟩ hc
        obtain hc | hc := List.mem_append.mp hc
        · exact hs inside rfl hc
        · exact hd (List.mem_singleton.mp hc).symm

/-- A text without brackets is outside. -/
theorem Free.outside_eq (h : Free o c text) : outside o c text = text := by
  suffices hall : ∀ s : Option (List α), (∀ inside ∈ s, c ∉ inside) →
      Free o c (s.elim [] (o :: ·) ++ text) →
      outsideFrom o c s text = s.elim [] (o :: ·) ++ text from
    hall none (fun _ h => nomatch h) h
  clear h
  induction text with
  | nil =>
    intro s _ _
    rw [List.append_nil]
    rfl
  | cons d text ih =>
    intro s hs hfree
    rw [outsideFrom_cons]
    cases s with
    | none =>
      by_cases hd : d = o
      · subst hd
        rw [kept, next, if_pos rfl, if_pos rfl]
        refine ih _ ?_ hfree
        rintro _ ⟨⟩
        exact List.not_mem_nil
      · rw [kept, next, if_neg hd, if_neg hd]
        exact congrArg (d :: ·) (ih none (fun _ h => nomatch h) hfree.tail)
    | some inside =>
      by_cases hd : d = c
      · subst hd
        obtain rfl | hne := eq_or_ne inside []
        · rw [kept, next, if_pos rfl, if_pos ⟨rfl, rfl⟩]
          exact congrArg (o :: d :: ·) (ih none (fun _ h => nomatch h) hfree.tail.tail)
        · refine absurd ?_ (hfree inside hne (hs inside rfl))
          exact ⟨[], text, by simp⟩
      · rw [kept, next, if_neg hd, if_neg fun h => hd h.1]
        have hcons : o :: (inside ++ d :: text) = o :: (inside ++ [d] ++ text) := by simp
        change Free o c (o :: (inside ++ d :: text)) at hfree
        rw [hcons] at hfree
        change _ = o :: (inside ++ d :: text)
        rw [hcons]
        refine ih _ ?_ hfree
        rintro _ ⟨⟩ hc
        obtain hc | hc := List.mem_append.mp hc
        · exact hs inside rfl hc
        · exact hd (List.mem_singleton.mp hc).symm

theorem outside_outside (hoc : o ≠ c) (text : List α) :
    outside o c (outside o c text) = outside o c text :=
  (free_outside hoc text).outside_eq

end Free

section Stripping

def bracket (o c : α) : List (Piece α) :=
  literal [o] ++ .many₁ false (fun d => d ≠ c) :: literal [c]

theorem matchMany_inside (h : c ∉ a) :
    matchMany false (fun d => d ≠ c) (matchPieces (literal [c])) (a ++ c :: b) =
      some ([a, [c]], b) := by
  induction a with
  | nil => simp [matchMany, matchPieces, literal, Match.add]
  | cons d a ih =>
    obtain ⟨hd, ha⟩ := List.ne_and_not_mem_of_not_mem_cons h
    rw [List.cons_append, matchMany, if_pos (decide_eq_true (Ne.symm hd)), ih ha]
    rfl

theorem matchPieces_bracket (hne : inside ≠ []) (h : c ∉ inside) :
    matchPieces (bracket o c) (o :: (inside ++ c :: text)) =
      some ([[o], inside, [c]], text) := by
  obtain ⟨d, inside, rfl⟩ := List.exists_cons_of_ne_nil hne
  obtain ⟨hd, hinside⟩ := List.ne_and_not_mem_of_not_mem_cons h
  have hrest := matchMany_inside (b := text) hinside
  simp only [bracket, literal, List.map_cons, List.map_nil, List.cons_append, List.nil_append,
    matchPieces, decide_true, if_true] at hrest ⊢
  rw [if_pos (decide_eq_true (Ne.symm hd)), hrest]
  rfl

theorem matchPieces_bracket_none (h : matchPieces (bracket o c) (o :: text) = none) :
    c ∉ text ∨ ∃ rest, text = c :: rest := by
  by_contra! hclosed
  obtain ⟨inside, rest, rfl, hinside⟩ := List.eq_append_cons_of_mem hclosed.1
  have hne : inside ≠ [] := by
    rintro rfl
    exact hclosed.2 rest rfl
  rw [matchPieces_bracket hne hinside] at h
  cases h

theorem matchPieces_bracket_eq_some {segments : List (List α)}
    (h : matchPieces (bracket o c) (segments.flatten ++ text) = some (segments, text)) :
    ∃ inside, inside ≠ [] ∧ c ∉ inside ∧ segments = [[o], inside, [c]] := by
  obtain ⟨inside, hsegments, hne, hinside⟩ := takes_between (matchPieces_eq_some h).1
  exact ⟨inside, hne, fun hc => of_decide_eq_true (hinside c hc) rfl, hsegments⟩

/-- Stripping every bracket once leaves what is outside. -/
theorem replaceAll_bracket (hoc : o ≠ c) (text : List α) :
    replaceAll (matchPieces (bracket o c)) (fun _ => []) text = outside o c text := by
  refine replaceAll_rec (P := fun _ text out => out = outside o c text) (Q := fun _ _ => True)
    consumes_one (fun _ => rfl) ?_ ?_ (fun _ _ => trivial)
  · rintro _ d text _ hfound rfl
    obtain rfl | hd := eq_or_ne d o
    · obtain hc | ⟨rest, rfl⟩ := matchPieces_bracket_none hfound
      · rw [outside_unclosed hc, (free_of_not_mem hc).outside_eq]
      · rw [outside_empty, outside_cons hoc.symm]
    · exact (outside_cons hd).symm
  · rintro _ segments text _ hfound - rfl
    obtain ⟨inside, hne, hinside, rfl⟩ := matchPieces_bracket_eq_some hfound
    have hflatten : [[o], inside, [c]].flatten ++ text = o :: (inside ++ c :: text) := by simp
    rw [hflatten, outside_bracket hne hinside]
    rfl

end Stripping

section Replacing

variable (o c) {p : List α → Prop} {find : List α → Option (Match α)}
  {replacement : List (List α) → List α}

/-- A text with closed brackets, and one that has all that is outside of them. -/
structure Keeps (p : List α → Prop) (text text' : List α) : Prop where
  closed : after o c none text = none
  closed' : after o c none text' = none
  sublist : (outside o c text).Sublist (outside o c text')
  insides : ∀ x ∈ insides o c text', p x

variable {o c}

def Begins (o c : α) (text : List α) : Prop := ∃ d tail, text = o :: d :: tail ∧ d ≠ c ∧ c ∈ tail

/-- A replacement of matches that begin with a bracket loses nothing outside where no bracket has
an opening letter in it. -/
theorem sublist_replaceAll (hoc : o ≠ c) (hp : ∀ x, p x → o ∉ x) (hfind : Consumes find)
    (hbegins : ∀ segments rest, find (segments.flatten ++ rest) = some (segments, rest) →
      Begins o c segments.flatten)
    (hspan : ∀ segments rest, find (segments.flatten ++ rest) = some (segments, rest) →
      (∀ x ∈ insides o c segments.flatten, p x) →
      Keeps o c p segments.flatten (replacement segments))
    (h : ∀ x ∈ insides o c text, p x) :
    (outside o c text).Sublist (outside o c (replaceAll find replacement text)) ∧
      ∀ x ∈ insides o c (replaceAll find replacement text), p x := by
  refine replaceAll_rec (P := fun _ text out => ∀ s : Option (List α),
      (∀ x ∈ insidesFrom o c s text, p x) →
      (outsideFrom o c s text).Sublist (outsideFrom o c s out) ∧
        ∀ x ∈ insidesFrom o c s out, p x) (Q := fun _ _ => True) hfind ?_ ?_ ?_
    (fun _ _ => trivial) none h
  · intro _ s hs
    exact ⟨List.Sublist.refl _, hs⟩
  · intro _ d text out _ ih s hs
    rw [insidesFrom_cons, List.forall_mem_append] at hs
    obtain ⟨hsublist, hout⟩ := ih _ hs.2
    exact ⟨(List.Sublist.refl _).append hsublist, List.forall_mem_append.mpr ⟨hs.1, hout⟩⟩
  · intro _ segments text out hfound _ ih s hs
    -- A match cannot begin within a bracket, and its own brackets are closed.
    obtain rfl : s = none := by
      obtain ⟨d, tail, htail, -, hc⟩ := hbegins segments text hfound
      rw [htail, List.cons_append] at hs
      refine after_eq_none (a := []) (fun x hx => hp x (hs x hx)) ?_ hoc
      exact List.mem_cons_of_mem _ (List.mem_append_left _ hc)
    rw [insidesFrom_append, List.forall_mem_append] at hs
    have hkeeps := hspan segments text hfound hs.1
    rw [hkeeps.closed] at hs
    obtain ⟨hsublist, hout⟩ := ih none hs.2
    rw [outsideFrom_append hkeeps.closed, outsideFrom_append hkeeps.closed', insidesFrom_append,
      hkeeps.closed']
    exact ⟨hkeeps.sublist.append hsublist, List.forall_mem_append.mpr ⟨hkeeps.insides, hout⟩⟩

omit [DecidableEq α] in
/-- Where there is no bracket nothing is replaced. -/
theorem replaceAll_of_free (hfind : Consumes find)
    (hbegins : ∀ segments rest, find (segments.flatten ++ rest) = some (segments, rest) →
      Begins o c segments.flatten) (h : Free o c text) :
    replaceAll find replacement text = text := by
  refine replaceAll_rec (P := fun _ text out => Free o c text → out = text)
    (Q := fun _ _ => True) hfind (fun _ _ => rfl) ?_ ?_ (fun _ _ => trivial) h
  · intro _ d text out _ ih hfree
    rw [ih hfree.tail]
  · intro _ segments text out hfound _ _ hfree
    exfalso
    obtain ⟨d, tail, htail, hd, hc⟩ := hbegins segments text hfound
    obtain ⟨u, v, rfl, hu⟩ := List.eq_append_cons_of_mem hc
    refine hfree (d :: u) (List.cons_ne_nil _ _)
      (List.not_mem_cons_of_ne_of_not_mem hd.symm hu) ⟨[], v ++ text, ?_⟩
    rw [htail]
    simp

variable (o c) in
/-- Brackets and nothing else. -/
structure Whole (text : List α) : Prop where
  closed : after o c none text = none
  outside : outside o c text = []

theorem whole_bracket (hne : inside ≠ []) (h : c ∉ inside) : Whole o c (o :: (inside ++ [c])) where
  closed := by
    rw [after_cons, next_opening, after_append, after_some h]
    exact if_pos rfl
  outside := outside_bracket hne h

theorem Whole.append (h : Whole o c a) (h' : Whole o c b) : Whole o c (a ++ b) where
  closed := by rw [after_append, h.closed, h'.closed]
  outside := by
    rw [Brackets.outside, outsideFrom_append h.closed, h'.outside, List.append_nil]
    exact h.outside

/-- What stands between brackets, when texts without brackets take their place. -/
theorem keeps_around {opening closing front back : List α} (hoc : o ≠ c) (hp : ∀ x, p x → o ∉ x)
    (hopening : Whole o c opening) (hclosing : Whole o c closing)
    (hbegins : ∃ tail, closing = o :: tail ∧ c ∈ tail) (hfront : o ∉ front) (hback : o ∉ back)
    (h : ∀ x ∈ insides o c (opening ++ text ++ closing), p x) :
    Keeps o c p (opening ++ text ++ closing) (front ++ text ++ back) := by
  obtain ⟨tail, rfl, hc⟩ := hbegins
  have htext : after o c none text = none := by
    have hclosed := after_eq_none (fun x hx => hp x (h x hx)) hc hoc
    rwa [after_append, hopening.closed] at hclosed
  have hleft : after o c none (opening ++ text) = none := by
    rw [after_append, hopening.closed, htext]
  have hright : after o c none (front ++ text) = none := by
    rw [after_append, after_of_not_mem hfront, htext]
  refine ⟨?_, ?_, ?_, ?_⟩
  · rw [after_append, hleft, hclosing.closed]
  · rw [after_append, hright, after_of_not_mem hback]
  · have hall : outside o c (opening ++ text ++ o :: tail) = outside o c text := by
      rw [outside, outsideFrom_append hleft, outsideFrom_append hopening.closed, hclosing.outside,
        List.append_nil]
      exact congrArg (· ++ _) hopening.outside
    have hall' : outside o c (front ++ text ++ back) = front ++ outside o c text ++ back := by
      rw [outside, outsideFrom_append hright, outsideFrom_append (after_of_not_mem hfront),
        outside_of_not_mem hback]
      exact congrArg (· ++ _ ++ _) (outside_of_not_mem hfront)
    rw [hall, hall']
    exact (List.sublist_append_right _ _).trans (List.sublist_append_left _ _)
  · have hin : insides o c (front ++ text ++ back) = insides o c text := by
      rw [insides, insidesFrom_append, hright, insidesFrom_append, after_of_not_mem hfront]
      rw [← insides, ← insides, ← insides, insides_of_not_mem hfront, insides_of_not_mem hback,
        List.append_nil]
      rfl
    rw [hin]
    rw [insides, insidesFrom_append, insidesFrom_append, hopening.closed] at h
    intro x hx
    exact h x (List.mem_append_left _ (List.mem_append_right _ hx))

end Replacing

end Brackets
