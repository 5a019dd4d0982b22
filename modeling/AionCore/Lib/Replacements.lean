import AionCore.Lib.Patterns
import Mathlib.Data.List.Forall2

/-!
# What a replacement does

The matches that are replaced in a text, with what stands before each, and an induction over them.
Where every letter of a text is written as a word of other letters, a pattern of words that can only
begin with a word finds what the pattern of letters finds.
-/

namespace Patterns

variable {α β : Type*}

section Taken

def Piece.Takes : Piece α → List α → Prop
  | .one p, taken => ∃ c, p c = true ∧ taken = [c]
  | .opt p, taken => taken = [] ∨ ∃ c, p c = true ∧ taken = [c]
  | .many _ p, taken => ∀ c ∈ taken, p c = true
  | .many₁ _ p, taken => taken ≠ [] ∧ ∀ c ∈ taken, p c = true

variable {lazy : Bool} {p : α → Bool} {k : List α → Option (Match α)} {text : List α} {m : Match α}
  {pieces : List (Piece α)}

/-- A piece that repeats takes some letters of its class, and the rest matches. -/
theorem matchMany_eq_some (h : matchMany lazy p k text = some m) :
    ∃ taken rest m', text = taken ++ rest ∧ (∀ c ∈ taken, p c = true) ∧ k rest = some m' ∧
      m = Match.add taken m' := by
  have stops : ∀ {text : List α} {m : Match α}, (k text).map (Match.add []) = some m →
      ∃ taken rest m', text = taken ++ rest ∧ (∀ c ∈ taken, p c = true) ∧ k rest = some m' ∧
        m = Match.add taken m' := by
    intro text m h
    obtain ⟨m', hk, rfl⟩ := Option.map_eq_some_iff.mp h
    exact ⟨[], text, m', rfl, List.forall_mem_nil _, hk, rfl⟩
  induction text generalizing m with
  | nil => exact stops h
  | cons c text ih =>
    have goesOn : (if p c then (matchMany lazy p k text).map (Match.push c) else none) = some m →
        ∃ taken rest m', c :: text = taken ++ rest ∧ (∀ c ∈ taken, p c = true) ∧
          k rest = some m' ∧ m = Match.add taken m' := by
      intro h
      split at h
      · next hc =>
        obtain ⟨m', hmore, rfl⟩ := Option.map_eq_some_iff.mp h
        obtain ⟨taken, rest, m'', rfl, htaken, hk, rfl⟩ := ih hmore
        exact ⟨c :: taken, rest, m'', rfl, List.forall_mem_cons.mpr ⟨hc, htaken⟩, hk, rfl⟩
      · cases h
    unfold matchMany at h
    cases lazy with
    | true =>
      obtain h | ⟨-, h⟩ := Option.or_eq_some_iff.mp h
      · exact stops h
      · exact goesOn h
    | false =>
      obtain h | ⟨-, h⟩ := Option.or_eq_some_iff.mp h
      · exact goesOn h
      · exact stops h

/-- The pieces take the text up to the rest, each what it may take. -/
theorem matchPieces_eq_some (h : matchPieces pieces text = some m) :
    List.Forall₂ Piece.Takes pieces m.1 ∧ m.1.flatten ++ m.2 = text := by
  induction pieces generalizing text m with
  | nil =>
    obtain rfl := Option.some.inj h
    exact ⟨.nil, rfl⟩
  | cons piece pieces ih =>
    have push : ∀ {taken rest : List α} {m' : Match α}, piece.Takes taken →
        matchPieces pieces rest = some m' →
        List.Forall₂ Piece.Takes (piece :: pieces) (Match.add taken m').1 ∧
          (Match.add taken m').1.flatten ++ (Match.add taken m').2 = taken ++ rest := by
      intro taken rest m' htakes hrest
      obtain ⟨hall, rfl⟩ := ih hrest
      exact ⟨.cons htakes hall, List.append_assoc _ _ _⟩
    cases piece with
    | one p =>
      cases text with
      | nil => cases h
      | cons c rest =>
        unfold matchPieces at h
        dsimp only at h
        split at h
        · next hc =>
          obtain ⟨m', hm', rfl⟩ := Option.map_eq_some_iff.mp h
          exact push ⟨c, hc, rfl⟩ hm'
        · cases h
    | opt p =>
      cases text with
      | nil =>
        obtain ⟨m', hm', rfl⟩ := Option.map_eq_some_iff.mp h
        exact push (.inl rfl) hm'
      | cons c rest =>
        unfold matchPieces at h
        obtain h | ⟨-, h⟩ := Option.or_eq_some_iff.mp h
        · split at h
          · next hc =>
            obtain ⟨m', hm', rfl⟩ := Option.map_eq_some_iff.mp h
            exact push (.inr ⟨c, hc, rfl⟩) hm'
          · cases h
        · obtain ⟨m', hm', rfl⟩ := Option.map_eq_some_iff.mp h
          exact push (.inl rfl) hm'
    | many lazy p =>
      obtain ⟨taken, rest, m', rfl, htaken, hm', rfl⟩ := matchMany_eq_some h
      exact push htaken hm'
    | many₁ lazy p =>
      cases text with
      | nil => cases h
      | cons c rest =>
        unfold matchPieces at h
        dsimp only at h
        split at h
        · next hc =>
          obtain ⟨m'', hm'', rfl⟩ := Option.map_eq_some_iff.mp h
          obtain ⟨taken, rest, m', rfl, htaken, hm', rfl⟩ := matchMany_eq_some hm''
          exact push ⟨List.cons_ne_nil _ _, List.forall_mem_cons.mpr ⟨hc, htaken⟩⟩ hm'
        · cases h

variable {segments : List (List α)}

theorem takes_literal [DecidableEq α] {as : List α}
    (h : List.Forall₂ Piece.Takes (literal as ++ pieces) segments) :
    ∃ rest, segments = as.map (fun a => [a]) ++ rest ∧ List.Forall₂ Piece.Takes pieces rest := by
  induction as generalizing segments with
  | nil => exact ⟨segments, rfl, h⟩
  | cons a as ih =>
    obtain ⟨taken, tail, ⟨c, hc, rfl⟩, htail, rfl⟩ := List.forall₂_cons_left_iff.mp h
    obtain ⟨rest, rfl, hrest⟩ := ih htail
    exact ⟨rest, by rw [of_decide_eq_true hc]; rfl, hrest⟩

theorem flatten_singletons (text : List α) : (text.map fun a => [a]).flatten = text := by
  rw [← List.flatMap_def, List.flatMap_singleton']

/-- One piece between two literal texts. -/
theorem takes_between [DecidableEq α] {as bs : List α} {piece : Piece α}
    (h : List.Forall₂ Piece.Takes (literal as ++ piece :: literal bs) segments) :
    ∃ taken, segments = as.map (fun a => [a]) ++ taken :: bs.map (fun b => [b]) ∧
      piece.Takes taken := by
  obtain ⟨tail, rfl, htail⟩ := takes_literal h
  obtain ⟨taken, last, htaken, hlast, rfl⟩ := List.forall₂_cons_left_iff.mp htail
  rw [← List.append_nil (literal _)] at hlast
  obtain ⟨none, rfl, hnone⟩ := takes_literal hlast
  obtain rfl := List.forall₂_nil_left_iff.mp hnone
  exact ⟨taken, by rw [List.append_nil], htaken⟩

theorem takes_append {first : List (Piece α)}
    (h : List.Forall₂ Piece.Takes (first ++ pieces) segments) :
    ∃ taken rest, segments = taken ++ rest ∧ List.Forall₂ Piece.Takes first taken ∧
      List.Forall₂ Piece.Takes pieces rest := by
  induction first generalizing segments with
  | nil => exact ⟨[], segments, rfl, .nil, h⟩
  | cons piece first ih =>
    obtain ⟨taken, tail, htaken, htail, rfl⟩ := List.forall₂_cons_left_iff.mp h
    obtain ⟨first', rest, rfl, hfirst, hrest⟩ := ih htail
    exact ⟨taken :: first', rest, rfl, .cons htaken hfirst, hrest⟩

def Piece.accepts : Piece α → α → Bool
  | .one p | .opt p | .many _ p | .many₁ _ p => p

theorem Piece.Takes.accepts {piece : Piece α} {taken : List α} (h : piece.Takes taken) {c : α}
    (hc : c ∈ taken) : piece.accepts c = true := by
  cases piece with
  | one p =>
    obtain ⟨d, hd, rfl⟩ := h
    obtain rfl := List.mem_singleton.mp hc
    exact hd
  | opt p =>
    obtain rfl | ⟨d, hd, rfl⟩ := h
    · cases hc
    · obtain rfl := List.mem_singleton.mp hc
      exact hd
  | many lazy p => exact h c hc
  | many₁ lazy p => exact h.2 c hc

/-- A letter that no piece may take is in no match of them. -/
theorem not_mem_flatten (h : List.Forall₂ Piece.Takes pieces segments) {c : α}
    (hc : ∀ piece ∈ pieces, piece.accepts c = false) : c ∉ segments.flatten := by
  induction h with
  | nil => exact List.not_mem_nil
  | cons htaken _ ih =>
    obtain ⟨hpiece, hrest⟩ := List.forall_mem_cons.mp hc
    rw [List.flatten_cons, List.mem_append]
    rintro (htaken' | hmem)
    · rw [htaken.accepts htaken'] at hpiece
      cases hpiece
    · exact ih hrest hmem

end Taken

section Spans

variable (find : List α → Option (Match α))

def Consumes : Prop :=
  ∀ text m, find text = some m → m.1.flatten ++ m.2 = text ∧ m.1.flatten ≠ []

def spansFrom (before : List α) : ℕ → List α → List (List α × List (List α))
  | 0, _ => []
  | _ + 1, [] => []
  | n + 1, c :: text =>
    match find (c :: text) with
    | some (segments, rest) =>
      (before, segments) :: spansFrom (before ++ segments.flatten) n rest
    | none => spansFrom (before ++ [c]) n text

def spans (text : List α) : List (List α × List (List α)) := spansFrom find [] text.length text

variable {find} {replacement : List (List α) → List α} {P : List α → List α → List α → Prop}
  {Q : List α → List (List α) → Prop}

theorem consumes_one {p : α → Bool} {pieces : List (Piece α)} :
    Consumes (matchPieces (.one p :: pieces)) := by
  intro text m h
  obtain ⟨hall, htext⟩ := matchPieces_eq_some h
  refine ⟨htext, ?_⟩
  obtain ⟨taken, rest, ⟨c, -, rfl⟩, -, hm⟩ := List.forall₂_cons_left_iff.mp hall
  rw [hm]
  exact List.cons_ne_nil _ _

section

variable (hfind : Consumes find)
include hfind

/-- What holds of a letter that stays and of a match that is replaced, each before a rest of which
it holds, holds of the whole text. -/
theorem replaceFrom_rec (nil : ∀ before, P before [] [])
    (keep : ∀ before c text out, find (c :: text) = none → P (before ++ [c]) text out →
      P before (c :: text) (c :: out))
    (span : ∀ before segments text out, find (segments.flatten ++ text) = some (segments, text) →
      Q before segments → P (before ++ segments.flatten) text out →
      P before (segments.flatten ++ text) (replacement segments ++ out)) {n : ℕ}
    {before text : List α} (hn : text.length ≤ n)
    (hspans : ∀ m ∈ spansFrom find before n text, Q m.1 m.2) :
    P before text (replaceFrom find replacement n text) := by
  induction n generalizing before text with
  | zero =>
    obtain rfl := List.length_eq_zero_iff.mp (Nat.le_zero.mp hn)
    exact nil before
  | succ n ih =>
    cases text with
    | nil => exact nil before
    | cons c text =>
      unfold replaceFrom
      unfold spansFrom at hspans
      cases hfound : find (c :: text) with
      | none =>
        rw [hfound] at hspans
        exact keep before c text _ hfound (ih (Nat.le_of_succ_le_succ hn) hspans)
      | some m =>
        obtain ⟨segments, rest⟩ := m
        rw [hfound] at hspans
        obtain ⟨hspan, hspans⟩ := List.forall_mem_cons.mp hspans
        obtain ⟨htext, hne⟩ := hfind _ _ hfound
        have hlength : rest.length ≤ n := by
          have hsum := congrArg List.length htext
          have hpos := List.length_pos_of_ne_nil hne
          rw [List.length_append, List.length_cons] at hsum
          rw [List.length_cons] at hn
          dsimp only at hsum hpos
          omega
        rw [← htext] at hfound ⊢
        exact span before segments rest _ hfound hspan (ih hlength hspans)

theorem replaceAll_rec (nil : ∀ before, P before [] [])
    (keep : ∀ before c text out, find (c :: text) = none → P (before ++ [c]) text out →
      P before (c :: text) (c :: out))
    (span : ∀ before segments text out, find (segments.flatten ++ text) = some (segments, text) →
      Q before segments → P (before ++ segments.flatten) text out →
      P before (segments.flatten ++ text) (replacement segments ++ out)) {text : List α}
    (hspans : ∀ m ∈ spans find text, Q m.1 m.2) :
    P [] text (replaceAll find replacement text) :=
  replaceFrom_rec hfind nil keep span (Nat.le_refl _) hspans

/-- A match stands in the text after what is said to be before it. -/
theorem exists_of_mem_spansFrom {n : ℕ} {before text : List α} {span : List α × List (List α)}
    (h : span ∈ spansFrom find before n text) :
    ∃ rest, before ++ text = span.1 ++ span.2.flatten ++ rest := by
  induction n generalizing before text with
  | zero => cases h
  | succ n ih =>
    cases text with
    | nil => cases h
    | cons c text =>
      unfold spansFrom at h
      cases hfound : find (c :: text) with
      | none =>
        rw [hfound] at h
        obtain ⟨rest, hrest⟩ := ih h
        exact ⟨rest, by rw [← hrest, List.append_assoc]; rfl⟩
      | some m =>
        obtain ⟨segments, rest⟩ := m
        rw [hfound] at h
        obtain ⟨htext, -⟩ := hfind _ _ hfound
        obtain rfl | h := List.mem_cons.mp h
        · exact ⟨rest, by rw [← htext, List.append_assoc]⟩
        · obtain ⟨rest', hrest'⟩ := ih h
          exact ⟨rest', by rw [← hrest', ← htext, List.append_assoc]⟩

theorem exists_of_mem_spans {text : List α} {span : List α × List (List α)}
    (h : span ∈ spans find text) :
    ∃ rest, text = span.1 ++ span.2.flatten ++ rest :=
  exists_of_mem_spansFrom hfind h

end

end Spans

section Words

variable (r : α → List β)

/-- A match with each letter written as its word. -/
def Match.write (m : Match α) : Match β := (m.1.map (List.flatMap r), m.2.flatMap r)

def Simulates (find : List α → Option (Match α)) (find' : List β → Option (Match β)) : Prop :=
  ∀ text, find' (text.flatMap r) = (find text).map (Match.write r)

def RigidAt (find' : List β → Option (Match β)) (a : α) : Prop :=
  ∀ (x y : List β) (text : List α), r a = x ++ y → x ≠ [] → y ≠ [] →
    find' (y ++ text.flatMap r) = none

variable {r} {P : List (Piece α)} {Q : List (Piece β)} {p : α → Bool} {q : β → Bool} {lazy : Bool}

theorem Simulates.nil : Simulates r (matchPieces []) (matchPieces []) := fun _ => rfl

/-- A piece for one letter that is written as itself. -/
theorem Simulates.one (hr : ∀ a, r a ≠ []) (hp : ∀ a, p a = true → ∃ b, r a = [b] ∧ q b = true)
    (hnp : ∀ a, p a = false → ∀ b ∈ (r a).head?, q b = false)
    (h : Simulates r (matchPieces P) (matchPieces Q)) :
    Simulates r (matchPieces (.one p :: P)) (matchPieces (.one q :: Q)) := by
  intro text
  cases text with
  | nil => rfl
  | cons a text =>
    rw [List.flatMap_cons]
    cases hpa : p a with
    | true =>
      obtain ⟨b, hb, hq⟩ := hp a hpa
      simp only [hb, matchPieces, List.cons_append, List.nil_append, hq, hpa, if_true, h text,
        Option.map_map]
      refine congrArg (fun f => Option.map f _) (funext fun m => ?_)
      simp [Match.add, Match.write, hb]
    | false =>
      obtain ⟨b, bs, hb⟩ := List.exists_cons_of_ne_nil (hr a)
      have hq := hnp a hpa b (by rw [hb]; rfl)
      simp [hb, matchPieces, hq, hpa]

theorem Simulates.opt (hr : ∀ a, r a ≠ []) (hp : ∀ a, p a = true → ∃ b, r a = [b] ∧ q b = true)
    (hnp : ∀ a, p a = false → ∀ b ∈ (r a).head?, q b = false)
    (h : Simulates r (matchPieces P) (matchPieces Q)) :
    Simulates r (matchPieces (.opt p :: P)) (matchPieces (.opt q :: Q)) := by
  have skip : ∀ text, (matchPieces Q (text.flatMap r)).map (Match.add []) =
      ((matchPieces P text).map (Match.add [])).map (Match.write r) := by
    intro text
    rw [h text, Option.map_map, Option.map_map]
    rfl
  intro text
  cases text with
  | nil => exact skip []
  | cons a text =>
    have hskip := skip (a :: text)
    rw [List.flatMap_cons] at hskip ⊢
    cases hpa : p a with
    | true =>
      obtain ⟨b, hb, hq⟩ := hp a hpa
      rw [hb] at hskip ⊢
      have htake : (matchPieces Q (text.flatMap r)).map (Match.add [b]) =
          ((matchPieces P text).map (Match.add [a])).map (Match.write r) := by
        rw [h text, Option.map_map, Option.map_map]
        refine congrArg (fun f => Option.map f _) (funext fun m => ?_)
        simp [Match.add, Match.write, hb]
      simp only [matchPieces, List.cons_append, List.nil_append, hq, hpa, if_true] at hskip ⊢
      rw [htake, hskip, Option.map_or]
    | false =>
      obtain ⟨b, bs, hb⟩ := List.exists_cons_of_ne_nil (hr a)
      have hq := hnp a hpa b (by rw [hb]; rfl)
      rw [hb] at hskip ⊢
      simp only [matchPieces, List.cons_append, hq, hpa, Bool.false_eq_true, if_false,
        Option.none_or] at hskip ⊢
      exact hskip

def Match.pushAll (word : List β) (m : Match β) : Match β := word.foldr Match.push m

/-- Nothing stops a piece within a word. -/
theorem matchMany_word {k : List β → Option (Match β)} {y : List β} {text : List α}
    (hq : ∀ b ∈ y, q b = true)
    (hrigid : ∀ x z, y = x ++ z → z ≠ [] → k (z ++ text.flatMap r) = none) :
    matchMany lazy q k (y ++ text.flatMap r) =
      (matchMany lazy q k (text.flatMap r)).map (Match.pushAll y) := by
  induction y with
  | nil => exact Option.map_id'.symm
  | cons b y ih =>
    obtain ⟨hb, hq⟩ := List.forall_mem_cons.mp hq
    have hstop : k (b :: (y ++ text.flatMap r)) = none := hrigid [] (b :: y) rfl (by simp)
    have hrest := ih hq fun x z hy hz => hrigid (b :: x) z (by rw [hy]; rfl) hz
    rw [List.cons_append, matchMany]
    cases lazy <;> simp [hstop, hb, hrest, Option.map_map] <;> rfl

theorem Match.pushAll_add (word taken : List β) (m : Match β) :
    Match.pushAll word (Match.add taken m) = Match.add (word ++ taken) m := by
  induction word with
  | nil => rfl
  | cons b word ih => exact congrArg (Match.push b) ih

theorem write_matchMany {k : List α → Option (Match α)} (a : α) (text : List α) :
    ((matchMany lazy p k text).map (Match.push a)).map (Match.write r) =
      ((matchMany lazy p k text).map (Match.write r)).map (Match.pushAll (r a)) := by
  cases hm : matchMany lazy p k text with
  | none => rfl
  | some m =>
    obtain ⟨taken, rest, m', -, -, -, rfl⟩ := matchMany_eq_some hm
    exact congrArg some (Match.pushAll_add (r a) _ (m'.write r)).symm

/-- Letters of a class are written in words of a class, and nothing that follows begins within
them. -/
structure Spells (r : α → List β) (p : α → Bool) (q : β → Bool)
    (find' : List β → Option (Match β)) : Prop where
  nonempty : ∀ a, r a ≠ []
  inside : ∀ a, p a = true → ∀ b ∈ r a, q b = true
  outside : ∀ a, p a = false → ∀ b ∈ (r a).head?, q b = false
  rigid : ∀ a, p a = true → RigidAt r find' a

/-- A word of the class is taken whole. -/
theorem Spells.word (h : Spells r p q (matchPieces Q)) {a : α} (ha : p a = true) {b : β}
    {word : List β} (hword : r a = b :: word) (text : List α) :
    (matchMany lazy q (matchPieces Q) (word ++ text.flatMap r)).map (Match.push b) =
      (matchMany lazy q (matchPieces Q) (text.flatMap r)).map (Match.pushAll (r a)) := by
  have hinside := h.inside a ha
  rw [hword] at hinside
  rw [matchMany_word (List.forall_mem_cons.mp hinside).2, Option.map_map, hword]
  · rfl
  · rintro x z rfl hz
    exact h.rigid a ha (b :: x) z text hword (List.cons_ne_nil _ _) hz

section

variable (hspells : Spells r p q (matchPieces Q))
include hspells

theorem Simulates.matchMany (h : Simulates r (matchPieces P) (matchPieces Q)) :
    Simulates r (matchMany lazy p (matchPieces P)) (matchMany lazy q (matchPieces Q)) := by
  have hstop : ∀ text, (matchPieces Q (text.flatMap r)).map (Match.add []) =
      ((matchPieces P text).map (Match.add [])).map (Match.write r) := by
    intro text
    rw [h text, Option.map_map, Option.map_map]
    rfl
  intro text
  induction text with
  | nil => exact hstop []
  | cons a text ih =>
    have hstop := hstop (a :: text)
    obtain ⟨b, word, hword⟩ := List.exists_cons_of_ne_nil (hspells.nonempty a)
    rw [List.flatMap_cons, hword, List.cons_append] at hstop ⊢
    have hmore : (if q b then (Patterns.matchMany lazy q (matchPieces Q)
        (word ++ text.flatMap r)).map (Match.push b) else none) =
        (if p a then (Patterns.matchMany lazy p (matchPieces P) text).map (Match.push a)
          else none).map (Match.write r) := by
      cases ha : p a with
      | true =>
        have hb : q b = true := hspells.inside a ha b (by rw [hword]; exact List.mem_cons_self)
        rw [if_pos hb, if_pos rfl, hspells.word ha hword, write_matchMany, ih]
      | false =>
        have hb : q b = false := hspells.outside a ha b (by rw [hword]; rfl)
        rw [hb]
        rfl
    rw [Patterns.matchMany, Patterns.matchMany]
    cases lazy
    · simp only [Bool.false_eq_true, if_false, Option.map_or]
      rw [hmore, hstop]
    · simp only [if_true, Option.map_or]
      rw [hmore, hstop]

theorem Simulates.many (h : Simulates r (matchPieces P) (matchPieces Q)) :
    Simulates r (matchPieces (.many lazy p :: P)) (matchPieces (.many lazy q :: Q)) :=
  h.matchMany hspells

theorem Simulates.many₁ (h : Simulates r (matchPieces P) (matchPieces Q)) :
    Simulates r (matchPieces (.many₁ lazy p :: P)) (matchPieces (.many₁ lazy q :: Q)) := by
  intro text
  cases text with
  | nil => rfl
  | cons a text =>
    obtain ⟨b, word, hword⟩ := List.exists_cons_of_ne_nil (hspells.nonempty a)
    rw [List.flatMap_cons, hword, List.cons_append, matchPieces, matchPieces]
    cases ha : p a with
    | true =>
      have hb : q b = true := hspells.inside a ha b (by rw [hword]; exact List.mem_cons_self)
      rw [if_pos hb, if_pos rfl, hspells.word ha hword, write_matchMany, h.matchMany hspells text]
    | false =>
      have hb : q b = false := hspells.outside a ha b (by rw [hword]; rfl)
      rw [hb]
      rfl

end

/-- The word of a letter is one letter, which no other word contains. -/
structure Marks (r : α → List β) (a : α) (b : β) : Prop where
  word : r a = [b]
  only : ∀ a', a' ≠ a → b ∉ r a'

section Markers

variable [DecidableEq β] {a : α} {b : β}

theorem Marks.rigidAt (h : Marks r a b) (a' : α) :
    RigidAt r (matchPieces (.one (fun d => d = b) :: Q)) a' := by
  intro x y text hword hx hy
  obtain ⟨c, y, rfl⟩ := List.exists_cons_of_ne_nil hy
  have hc : c ≠ b := by
    rintro rfl
    obtain rfl | ha := eq_or_ne a' a
    · have hlength := congrArg List.length (h.word.symm.trans hword)
      have hpos := List.length_pos_of_ne_nil hx
      simp only [List.length_append, List.length_cons, List.length_nil] at hlength
      omega
    · refine h.only a' ha ?_
      rw [hword]
      exact List.mem_append_right _ List.mem_cons_self
  simp [matchPieces, hc]

variable [DecidableEq α]

theorem Marks.simulates (h : Marks r a b) (hr : ∀ a, r a ≠ [])
    (hrest : Simulates r (matchPieces P) (matchPieces Q)) :
    Simulates r (matchPieces (.one (fun d => d = a) :: P))
      (matchPieces (.one (fun d => d = b) :: Q)) := by
  refine hrest.one hr ?_ ?_
  · intro a' ha'
    obtain rfl := of_decide_eq_true ha'
    exact ⟨b, h.word, decide_eq_true rfl⟩
  · intro a' ha' c hc
    refine decide_eq_false ?_
    rintro rfl
    exact h.only a' (of_decide_eq_false ha') (List.mem_of_mem_head? hc)

theorem simulates_literal {as : List α} {bs : List β} (h : List.Forall₂ (Marks r) as bs)
    (hr : ∀ a, r a ≠ []) (hrest : Simulates r (matchPieces P) (matchPieces Q)) :
    Simulates r (matchPieces (literal as ++ P)) (matchPieces (literal bs ++ Q)) := by
  induction h with
  | nil => exact hrest
  | cons hmark _ ih => exact hmark.simulates hr ih

/-- All letters but one, before a marker. -/
theorem Marks.spells (h : Marks r a b) (hr : ∀ a, r a ≠ []) {find' : List β → Option (Match β)}
    (hrigid : ∀ a, RigidAt r find' a) :
    Spells r (fun d => d ≠ a) (fun d => d ≠ b) find' where
  nonempty := hr
  inside := by
    intro a' ha' c hc
    refine decide_eq_true ?_
    rintro rfl
    exact h.only a' (of_decide_eq_true ha') hc
  outside := by
    intro a' ha' c hc
    obtain rfl : a' = a := not_not.mp (of_decide_eq_false ha')
    rw [h.word] at hc
    obtain rfl := Option.some.inj hc
    exact decide_eq_false (not_not.mpr rfl)
  rigid := fun a' _ => hrigid a'

end Markers

section Replacing

variable {find : List α → Option (Match α)} {find' : List β → Option (Match β)}
  {replacement : List (List α) → List α} {replacement' : List (List β) → List β}

/-- Within a word nothing is replaced. -/
theorem replaceFrom_word {y : List β} {text : List α} {n : ℕ} (hn : y.length ≤ n)
    (hrigid : ∀ x z, y = x ++ z → z ≠ [] → find' (z ++ text.flatMap r) = none) :
    replaceFrom find' replacement' n (y ++ text.flatMap r) =
      y ++ replaceFrom find' replacement' (n - y.length) (text.flatMap r) := by
  induction y generalizing n with
  | nil => rfl
  | cons b y ih =>
    obtain ⟨n, rfl⟩ : ∃ k, n = k + 1 := ⟨n - 1, by rw [List.length_cons] at hn; omega⟩
    have hnone : find' (b :: (y ++ text.flatMap r)) = none :=
      hrigid [] (b :: y) rfl (List.cons_ne_nil _ _)
    have hrest := ih (n := n) (Nat.le_of_succ_le_succ hn) fun x z hy hz =>
      hrigid (b :: x) z (by rw [hy]; rfl) hz
    rw [List.cons_append, replaceFrom, hnone]
    rw [hrest, List.length_cons, Nat.add_sub_add_right]
    rfl

/-- Words are replaced where letters are. -/
theorem replaceAll_write (hr : ∀ a, r a ≠ []) (hfind : Consumes find)
    (hsim : Simulates r find find') (hrigid : ∀ a, RigidAt r find' a) {text : List α}
    (hspans : ∀ m ∈ spans find text,
      replacement' (m.2.map (List.flatMap r)) = (replacement m.2).flatMap r) :
    replaceAll find' replacement' (text.flatMap r) =
      (replaceAll find replacement text).flatMap r := by
  refine replaceAll_rec (P := fun _ text out => ∀ n, (text.flatMap r).length ≤ n →
    replaceFrom find' replacement' n (text.flatMap r) = out.flatMap r)
    (Q := fun _ segments => replacement' (segments.map (List.flatMap r)) =
      (replacement segments).flatMap r) hfind ?_ ?_ ?_ hspans _ (Nat.le_refl _)
  · intro _ n _
    cases n <;> rfl
  · intro _ a text out hfound ih n hn
    obtain ⟨b, word, hword⟩ := List.exists_cons_of_ne_nil (hr a)
    have hnone : find' (b :: (word ++ text.flatMap r)) = none := by
      have hfound' := hsim (a :: text)
      rw [hfound, List.flatMap_cons, hword] at hfound'
      exact hfound'
    rw [List.flatMap_cons, hword, List.cons_append] at hn ⊢
    rw [List.length_cons, List.length_append] at hn
    obtain ⟨n, rfl⟩ : ∃ k, n = k + 1 := ⟨n - 1, by omega⟩
    rw [replaceFrom, hnone, List.flatMap_cons, hword]
    rw [replaceFrom_word (by omega), ih _ (by omega)]
    · rfl
    · rintro x z rfl hz
      exact hrigid a (b :: x) z text hword (List.cons_ne_nil _ _) hz
  · intro _ segments text out hfound hspan ih n hn
    have hfound' := hsim (segments.flatten ++ text)
    rw [hfound] at hfound'
    obtain ⟨-, hne⟩ := hfind _ _ hfound
    obtain ⟨a, taken, htaken⟩ := List.exists_cons_of_ne_nil hne
    obtain ⟨b, word, hword⟩ := List.exists_cons_of_ne_nil (hr a)
    have hwritten : (segments.flatten ++ text).flatMap r =
        b :: (word ++ taken.flatMap r ++ text.flatMap r) := by
      simp [htaken, hword]
    rw [hwritten] at hfound' hn ⊢
    rw [List.length_cons, List.length_append] at hn
    obtain ⟨n, rfl⟩ : ∃ k, n = k + 1 := ⟨n - 1, by omega⟩
    rw [replaceFrom, hfound', List.flatMap_append, ← hspan, ← ih n (by omega)]
    rfl

end Replacing

end Words

end Patterns
