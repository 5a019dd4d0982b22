import AionCore.Channel.TelegramTokens
import Mathlib.Data.List.GetD

/-!
# Channels: Markdown in HTML

When the elements that the patterns of Markdown make are properly nested. The patterns run one after
the other, each over what the others have left: a match may have a part of an element in it, stand
within code, or have markup in the target of a link.
-/

namespace AionCore.Channel.Html

open AionCore.Channel.Formatter
open Patterns Nesting

section Condition

def openAt (tokens : List Token) : Option Element := (read inside [] (tags tokens)).bind List.head?

def Outside (before : List Token) : Prop :=
  openAt before ≠ some .code ∧ openAt before ≠ some .pre

/-- What becomes code has no tags; what becomes another element has whole elements only, but for
those of the same kind. -/
def Whole (e : Element) (content : List Token) : Prop :=
  if e = .code then tags content = [] else Closed (others e (tags content))

/-- The matches of a markup stand outside of code, and are whole. -/
def Markup.Apart (m : Markup) (tokens : List Token) : Prop :=
  ∀ span ∈ spans (matchPieces m.pattern) tokens,
    Outside span.1 ∧ Whole m.element (m.content span.2)

def LinksApart (tokens : List Token) : Prop :=
  ∀ span ∈ spans (matchPieces link) tokens, Outside span.1 ∧ Whole .a (segment 1 span.2) ∧
    ∀ t ∈ segment 4 span.2, t.char.isSome = true ∧ t ≠ .ch '"'

def AllApart : List Markup → List Token → Prop
  | [], tokens => LinksApart tokens
  | m :: ms, tokens => m.Apart tokens ∧ AllApart ms (m.apply tokens)

/-- No pattern finds a match within code, or one that has a part of an element of another kind; and
no link has a target that is no plain text. -/
def Apart (isWord : Char → Bool) (text : List Char) : Prop := AllApart markups (blocks isWord text)

end Condition

section Kept

/-- What is known of tokens that take the place of others. -/
structure Kept (before tokens out : List Token) : Prop where
  nested : ∀ stack stack', read inside [] (tags before) = some stack →
    read inside stack (tags tokens) = some stack' → read inside stack (tags out) = some stack'
  special : ∀ c, isSpecial c = true → (chars out).count c = (chars tokens).count c
  pieces : ∀ cs : List Char, cs.map .ch <:+: out → cs.map .ch <:+: tokens

def Framed (out : List Token) : Prop :=
  ∃ first middle last, out = first :: middle ++ [last] ∧ first.char = none ∧ last.char = none

theorem tags_append (tokens tokens' : List Token) :
    tags (tokens ++ tokens') = tags tokens ++ tags tokens' :=
  List.filterMap_append

theorem chars_append (tokens tokens' : List Token) :
    chars (tokens ++ tokens') = chars tokens ++ chars tokens' :=
  List.filterMap_append

theorem not_mem_chars {t : Token} (h : t.char = none) (cs : List Char) : t ∉ cs.map .ch := by
  intro hmem
  obtain ⟨c, -, rfl⟩ := List.mem_map.mp hmem
  cases h

/-- A run of letters other than a separator stands before it or after it. -/
theorem infix_append_cons {α : Type*} {l as bs : List α} {x : α} (hx : x ∉ l)
    (h : l <:+: as ++ x :: bs) : l <:+: as ∨ l <:+: bs := by
  obtain ⟨front, back, heq⟩ := h
  obtain ⟨tail, rfl, -⟩ | ⟨tail, hfront, hback⟩ := List.append_eq_append_iff.mp heq
  · exact .inl ⟨front, tail, rfl⟩
  · cases tail with
    | nil => exact .inl ⟨front, [], by rw [List.append_nil, hfront, List.append_nil]⟩
    | cons y tail =>
      obtain ⟨rfl, rfl⟩ := List.cons.inj hback
      obtain ⟨mid, -, rfl⟩ | ⟨mid, -, hmid⟩ := List.append_eq_append_iff.mp hfront
      · exact absurd (List.mem_append_right _ List.mem_cons_self) hx
      · cases mid with
        | nil =>
          have hmid : x :: tail = l := hmid
          exact absurd (hmid ▸ List.mem_cons_self) hx
        | cons z mid =>
          obtain ⟨-, rfl⟩ := List.cons.inj hmid
          exact .inr ⟨mid, back, rfl⟩

theorem infix_of_infix_cons {α : Type*} {l bs : List α} {x : α} (hx : x ∉ l)
    (h : l <:+: x :: bs) : l <:+: bs := by
  have h : l <:+: [] ++ x :: bs := h
  obtain h | h := infix_append_cons hx h
  · exact h.trans List.nil_infix
  · exact h

variable {before tokens text out out' : List Token} {t : Token}

theorem read_tags_append {stack stack' stack'' : List Element}
    (h : read inside stack (tags tokens) = some stack')
    (h' : read inside stack' (tags text) = some stack'') :
    read inside stack (tags (tokens ++ text)) = some stack'' := by
  rw [tags_append, read_append, h]
  exact h'

theorem exists_of_read_tags_append {stack stack'' : List Element}
    (h : read inside stack (tags (tokens ++ text)) = some stack'') :
    ∃ stack', read inside stack (tags tokens) = some stack' ∧
      read inside stack' (tags text) = some stack'' :=
  read_append_eq_some (tags_append tokens text ▸ h)

theorem prefix_cons (h : ∀ cs : List Char, cs.map .ch <+: out → cs.map .ch <+: text)
    (cs : List Char) (hcs : cs.map .ch <+: t :: out) : cs.map .ch <+: t :: text := by
  cases cs with
  | nil => exact List.nil_prefix
  | cons c cs =>
    obtain ⟨rfl, htail⟩ := List.cons_prefix_cons.mp hcs
    exact List.cons_prefix_cons.mpr ⟨rfl, h cs htail⟩

theorem Kept.cons (h : Kept (before ++ [t]) text out)
    (hbegins : ∀ cs : List Char, cs.map .ch <+: out → cs.map .ch <+: text) :
    Kept before (t :: text) (t :: out) where
  nested := by
    intro stack stack' hbefore hread
    have hread : read inside stack (tags ([t] ++ text)) = some stack' := hread
    obtain ⟨middle, hmiddle, hread⟩ := exists_of_read_tags_append hread
    exact read_tags_append hmiddle
      (h.nested middle stack' (read_tags_append hbefore hmiddle) hread)
  special := by
    intro c hc
    have hsame := h.special c hc
    unfold chars at hsame ⊢
    rw [List.filterMap_cons, List.filterMap_cons]
    cases t.char with
    | none => exact hsame
    | some d => simp only [List.count_cons, hsame]
  pieces := by
    intro cs hcs
    obtain hcs | hcs := List.infix_cons_iff.mp hcs
    · exact (prefix_cons hbegins cs hcs).isInfix
    · exact List.infix_cons (h.pieces cs hcs)

theorem Framed.prefix_append (h : Framed out) (cs : List Char) (hcs : cs.map .ch <+: out ++ out') :
    cs.map .ch <+: text := by
  obtain ⟨first, middle, last, rfl, hfirst, -⟩ := h
  cases cs with
  | nil => exact List.nil_prefix
  | cons c cs =>
    obtain ⟨rfl, -⟩ := List.cons_prefix_cons.mp hcs
    cases hfirst

theorem Kept.append (h : Kept before tokens out) (hframed : Framed out)
    (h' : Kept (before ++ tokens) text out') : Kept before (tokens ++ text) (out ++ out') where
  nested := by
    intro stack stack' hbefore hread
    obtain ⟨middle, hmiddle, hread⟩ := exists_of_read_tags_append hread
    exact read_tags_append (h.nested stack middle hbefore hmiddle)
      (h'.nested middle stack' (read_tags_append hbefore hmiddle) hread)
  special := by
    intro c hc
    rw [chars_append, chars_append, List.count_append, List.count_append, h.special c hc,
      h'.special c hc]
  pieces := by
    intro cs hcs
    obtain ⟨first, middle, last, rfl, -, hlast⟩ := hframed
    rw [List.append_assoc] at hcs
    obtain hcs | hcs := infix_append_cons (not_mem_chars hlast cs) hcs
    · have htokens := h.pieces cs (hcs.trans (List.prefix_append _ _).isInfix)
      exact htokens.trans (List.prefix_append _ _).isInfix
    · exact (h'.pieces cs hcs).trans (List.suffix_append _ _).isInfix

variable {find : List Token → Option (Match Token)} {replacement : List (List Token) → List Token}
  {Q : List Token → List (List Token) → Prop}

/-- What is known of each replacement is known of the whole. -/
theorem kept_replaceAll (hfind : Consumes find)
    (hspan : ∀ before segments rest, find (segments.flatten ++ rest) = some (segments, rest) →
      Q before segments →
      Kept before segments.flatten (replacement segments) ∧ Framed (replacement segments))
    (hspans : ∀ span ∈ spans find tokens, Q span.1 span.2) :
    Kept [] tokens (replaceAll find replacement tokens) := by
  have hall : Kept [] tokens (replaceAll find replacement tokens) ∧
      ∀ cs : List Char, cs.map .ch <+: replaceAll find replacement tokens →
        cs.map .ch <+: tokens := by
    refine replaceAll_rec (P := fun before text out => Kept before text out ∧
      ∀ cs : List Char, cs.map .ch <+: out → cs.map .ch <+: text) (Q := Q) hfind ?_ ?_ ?_ hspans
    · intro before
      exact ⟨⟨fun _ _ _ h => h, fun _ _ => rfl, fun _ h => h⟩, fun _ h => h⟩
    · intro before t text out _ ih
      exact ⟨ih.1.cons ih.2, prefix_cons ih.2⟩
    · intro before segments text out hfound hQ ih
      obtain ⟨hkept, hframed⟩ := hspan before segments text hfound hQ
      exact ⟨hkept.append hframed ih.1, hframed.prefix_append⟩
  exact hall.1

end Kept

section Replacements

variable {before content front back rest : List Token} {segments : List (List Token)} {e : Element}

def Neutral (tokens : List Token) : Prop := ∀ t ∈ tokens, ∃ c, t = .ch c ∧ isSpecial c = false

theorem Neutral.tags (h : Neutral front) : tags front = [] := by
  refine List.filterMap_eq_nil_iff.mpr fun t ht => ?_
  obtain ⟨c, rfl, -⟩ := h t ht
  rfl

theorem Neutral.count (h : Neutral front) {c : Char} (hc : isSpecial c = true) :
    (chars front).count c = 0 := by
  refine List.count_eq_zero.mpr fun hmem => ?_
  obtain ⟨t, ht, htc⟩ := List.mem_filterMap.mp hmem
  obtain ⟨d, rfl, hd⟩ := h t ht
  obtain rfl := Option.some.inj htc
  rw [hd] at hc
  cases hc

theorem neutral_letters {text : String} (h : ∀ c ∈ text.toList, isMarker c = true) :
    Neutral (letters text) := by
  intro t ht
  obtain ⟨c, hc, rfl⟩ := List.mem_map.mp ht
  exact ⟨c, rfl, not_special_of_isMarker (h c hc)⟩

theorem inside_of_outside {stack : List Element} (h : Outside before)
    (hbefore : read inside [] (tags before) = some stack) (k : Element) :
    inside stack.head? k = true := by
  unfold Outside openAt at h
  rw [hbefore] at h
  obtain ⟨hcode, hpre⟩ := h
  cases stack with
  | nil => rfl
  | cons top stack =>
    cases top with
    | code => exact absurd rfl hcode
    | pre => exact absurd rfl hpre
    | _ => rfl

/-- Tags around whole elements. -/
theorem read_whole {stack stack' : List Element} (hpre : e ≠ .pre) (h : Whole e content)
    (hinside : inside stack.head? e = true)
    (hread : read inside stack (tags content) = some stack') :
    read inside stack (.opening e :: tags content ++ [.closing e]) = some stack' := by
  by_cases hcode : e = .code
  · subst hcode
    rw [Whole, if_pos rfl] at h
    rw [h] at hread ⊢
    obtain rfl := Option.some.inj hread
    simp [Nesting.read, hinside]
  · rw [Whole, if_neg hcode] at h
    refine read_around (fun j => ?_) hinside h hread
    cases e with
    | code => exact absurd rfl hcode
    | pre => exact absurd rfl hpre
    | _ => rfl

theorem tags_around : tags (around e content) = .opening e :: tags content ++ [.closing e] := by
  rw [around, tags_append]
  rfl

theorem chars_around : chars (around e content) = chars content := by
  rw [around, chars_append]
  exact List.append_nil _

theorem infix_around {cs : List Char} (h : cs.map .ch <:+: around e content) :
    cs.map .ch <:+: content := by
  obtain h | h := infix_append_cons (not_mem_chars rfl cs) h
  · exact infix_of_infix_cons (not_mem_chars rfl cs) h
  · exact h.trans List.nil_infix

theorem Neutral.special (hfront : Neutral front) (hback : Neutral back) {c : Char}
    (hc : isSpecial c = true) :
    (chars (front ++ content ++ back)).count c = (chars content).count c := by
  rw [chars_append, chars_append, List.count_append, List.count_append, hfront.count hc,
    hback.count hc, Nat.zero_add, Nat.add_zero]

theorem kept_around (hfront : Neutral front) (hback : Neutral back) (hpre : e ≠ .pre)
    (houtside : Outside before) (hwhole : Whole e content) :
    Kept before (front ++ content ++ back) (around e content) where
  nested := by
    intro stack stack' hbefore hread
    rw [tags_append, tags_append, hfront.tags, hback.tags, List.append_nil] at hread
    rw [tags_around]
    exact read_whole hpre hwhole (inside_of_outside houtside hbefore e) hread
  special := by
    intro c hc
    rw [chars_around, hfront.special hback hc]
  pieces := fun cs hcs => (infix_around hcs).trans ⟨front, back, rfl⟩

theorem framed_around : Framed (around e content) := ⟨_, _, _, rfl, rfl, rfl⟩

theorem length_letters (text : String) : (letters text).length = text.length := by
  rw [letters, List.length_map, String.length_toList]

theorem segment_append {n : ℕ} (hn : segments.length = n) (k : ℕ) (tail : List (List Token)) :
    segment (n + k) (segments ++ tail) = segment k tail := by
  subst hn
  rw [segment, List.getD_append_right _ _ _ _ (Nat.le_add_right _ _), Nat.add_sub_cancel_left]
  rfl

/-- A match of a markup is what it has in it between the two markers. -/
theorem Markup.flatten_eq (m : Markup)
    (hfound : matchPieces m.pattern (segments.flatten ++ rest) = some (segments, rest)) :
    segments.flatten = letters m.marker ++ m.content segments ++ letters m.marker := by
  obtain ⟨taken, hsegments, -⟩ := takes_between (matchPieces_eq_some hfound).1
  have hcontent : m.content segments = taken := by
    have hlength : ((letters m.marker).map fun t => [t]).length = m.marker.length := by
      rw [List.length_map, length_letters]
    dsimp only at hsegments
    rw [hsegments]
    exact segment_append hlength 0 _
  dsimp only at hsegments
  rw [hcontent, hsegments, List.flatten_append, List.flatten_cons, flatten_singletons,
    List.append_assoc]

theorem kept_apply {m : Markup} {tokens : List Token} (hpre : m.element ≠ .pre)
    (h : m.Apart tokens) : Kept [] tokens (m.apply tokens) := by
  refine kept_replaceAll (Q := fun before segments =>
    Outside before ∧ Whole m.element (m.content segments)) m.consumes ?_ h
  rintro before segments rest hfound ⟨houtside, hwhole⟩
  refine ⟨?_, framed_around⟩
  rw [m.flatten_eq hfound]
  exact kept_around (neutral_letters m.markers) (neutral_letters m.markers) hpre houtside hwhole

variable {isWord : Char → Bool}

/-- A match of a code block has a word, perhaps a new line, and the code between the fences. -/
theorem codeBlock_flatten_eq
    (hfound : matchPieces (codeBlock isWord) (segments.flatten ++ rest) = some (segments, rest)) :
    ∃ word newline, (∀ t ∈ word, isTokenWord isWord t = true) ∧
      (∀ t ∈ newline, t = .ch '\n') ∧ segments.flatten =
        letters "```" ++ (word ++ newline) ++ segment 5 segments ++ letters "```" := by
  obtain ⟨tail, hsegments, htail⟩ := takes_literal (matchPieces_eq_some hfound).1
  obtain ⟨word, afterWord, hword, hafterWord, rfl⟩ := List.forall₂_cons_left_iff.mp htail
  obtain ⟨newline, code, hnewline, hcode, rfl⟩ := List.forall₂_cons_left_iff.mp hafterWord
  obtain ⟨taken, last, -, hlast, rfl⟩ := List.forall₂_cons_left_iff.mp hcode
  rw [← List.append_nil (literal _)] at hlast
  obtain ⟨none, rfl, hnone⟩ := takes_literal hlast
  obtain rfl := List.forall₂_nil_left_iff.mp hnone
  dsimp only at hsegments
  refine ⟨word, newline, hword, ?_, ?_⟩
  · obtain rfl | ⟨c, hc, rfl⟩ := hnewline
    · exact List.forall_mem_nil _
    · intro t ht
      rw [List.mem_singleton.mp ht]
      exact of_decide_eq_true hc
  · have hsegment : segment 5 segments = taken := by
      rw [hsegments]
      exact segment_append (n := 3) rfl 2 _
    rw [hsegment, hsegments, List.flatten_append, flatten_singletons]
    simp only [List.flatten_cons, List.append_nil, flatten_singletons, List.append_assoc]

theorem neutral_append (hfront : Neutral front) (hback : Neutral back) : Neutral (front ++ back) :=
  fun t ht => (List.mem_append.mp ht).elim (hfront t) (hback t)

theorem neutral_word (h : ∀ t ∈ content, isTokenWord isWord t = true) :
    Neutral content := by
  intro t ht
  have hword := h t ht
  cases t with
  | ch c => exact ⟨c, rfl, Bool.not_eq_true' _ ▸ (Bool.and_eq_true_iff.mp hword).2⟩
  | _ => cases hword

theorem tags_letters (text : List Char) : tags (text.map .ch) = [] := by
  rw [tags, List.filterMap_map]
  exact List.filterMap_eq_nil_iff.mpr fun _ _ => rfl

/-- Code blocks are made of a text without tags. -/
theorem kept_blocks (isWord : Char → Bool) (text : List Char) :
    Kept [] (text.map .ch) (blocks isWord text) := by
  have hfind : Consumes (matchPieces (codeBlock isWord)) := consumes_letters (by decide) _
  refine kept_replaceAll (Q := fun before segments =>
    tags before = [] ∧ tags segments.flatten = []) hfind ?_ fun span hspan => ?_
  · rintro before segments rest hfound ⟨hbefore, htaken⟩
    refine ⟨?_, framed_around⟩
    obtain ⟨word, newline, hword, hnewline, hflatten⟩ := codeBlock_flatten_eq hfound
    have hfence : Neutral (letters "```") := neutral_letters (by decide)
    have hfront : Neutral (letters "```" ++ (word ++ newline)) :=
      neutral_append hfence (neutral_append (neutral_word hword) fun t ht =>
        ⟨'\n', hnewline t ht, rfl⟩)
    have hcode : tags (segment 5 segments) = [] := by
      rw [hflatten, tags_append, tags_append, hfront.tags, hfence.tags, List.append_nil] at htaken
      exact htaken
    refine ⟨?_, ?_, ?_⟩
    · intro stack stack' hread hread'
      rw [hbefore] at hread
      rw [htaken] at hread'
      obtain rfl := Option.some.inj hread
      obtain rfl := Option.some.inj hread'
      rw [blockElement, tags_around, tags_around, hcode]
      rfl
    · intro c hc
      rw [blockElement, chars_around, chars_around, hflatten, hfront.special hfence hc]
    · intro cs hcs
      rw [hflatten]
      exact (infix_around (infix_around hcs)).trans ⟨_, _, rfl⟩
  · obtain ⟨rest, hrest⟩ := exists_of_mem_spans hfind hspan
    have hnone := tags_letters text
    rw [hrest, tags_append, tags_append, List.append_eq_nil_iff, List.append_eq_nil_iff] at hnone
    exact hnone.1

/-- A match of a link has its label and its target. -/
theorem link_flatten_eq
    (hfound : matchPieces link (segments.flatten ++ rest) = some (segments, rest)) :
    segments.flatten = letters "[" ++ segment 1 segments ++ letters "](" ++ segment 4 segments ++
      letters ")" := by
  have htakes := (matchPieces_eq_some hfound).1
  unfold link at htakes
  rw [List.append_assoc] at htakes
  obtain ⟨tail, hsegments, htail⟩ := takes_literal htakes
  obtain ⟨label, afterLabel, -, hafterLabel, rfl⟩ := List.forall₂_cons_left_iff.mp htail
  obtain ⟨target, rfl, htarget⟩ := takes_literal hafterLabel
  obtain ⟨url, last, -, hlast, rfl⟩ := List.forall₂_cons_left_iff.mp htarget
  rw [← List.append_nil (literal _)] at hlast
  obtain ⟨none, rfl, hnone⟩ := takes_literal hlast
  obtain rfl := List.forall₂_nil_left_iff.mp hnone
  dsimp only at hsegments
  have hlabel : segment 1 segments = label := by
    rw [hsegments]
    exact segment_append (n := 1) rfl 0 _
  have hurl : segment 4 segments = url := by
    rw [hsegments]
    exact segment_append (n := 1) rfl 3 _
  rw [hlabel, hurl, hsegments]
  simp only [List.flatten_append, List.flatten_cons, List.append_nil, flatten_singletons,
    List.append_assoc]

theorem tags_of_chars (h : ∀ t ∈ content, t.char.isSome = true) : tags content = [] := by
  refine List.filterMap_eq_nil_iff.mpr fun t ht => ?_
  have hchar := h t ht
  cases t with
  | ch c => rfl
  | _ => cases hchar

theorem kept_links {tokens : List Token} (h : LinksApart tokens) :
    Kept [] tokens (links tokens) := by
  refine kept_replaceAll (Q := fun before segments => Outside before ∧
    Whole .a (segment 1 segments) ∧ ∀ t ∈ segment 4 segments, t.char.isSome = true ∧ t ≠ .ch '"')
    consumes_link ?_ h
  rintro before segments rest hfound ⟨houtside, hwhole, htarget⟩
  have hopen : Neutral (letters "[") := neutral_letters (by decide)
  have hmiddle : Neutral (letters "](") := neutral_letters (by decide)
  have hclose : Neutral (letters ")") := neutral_letters (by decide)
  have hurl := tags_of_chars fun t ht => (htarget t ht).1
  refine ⟨⟨?_, ?_, ?_⟩, ⟨_, _, _, rfl, rfl, rfl⟩⟩
  · intro stack stack' hbefore hread
    have htaken : tags segments.flatten = tags (segment 1 segments) := by
      rw [link_flatten_eq hfound]
      simp only [tags_append, hopen.tags, hmiddle.tags, hclose.tags, hurl, List.nil_append,
        List.append_nil]
    have hout : tags (linkElement segments) =
        .opening .a :: tags (segment 1 segments) ++ [.closing .a] := by
      have hstart : tags (.href :: segment 4 segments) = .opening .a :: tags (segment 4 segments) :=
        rfl
      rw [linkElement, tags_append, tags_append, hstart, hurl]
      rfl
    rw [htaken] at hread
    rw [hout]
    exact read_whole (by decide) hwhole (inside_of_outside houtside hbefore .a) hread
  · intro c hc
    rw [link_flatten_eq hfound]
    have hout : chars (linkElement segments) =
        chars (segment 4 segments) ++ chars (segment 1 segments) := by
      rw [linkElement, chars_append, chars_append]
      exact List.append_nil _
    simp only [hout, chars_append, List.count_append, hopen.count hc, hmiddle.count hc,
      hclose.count hc]
    omega
  · intro cs hcs
    rw [link_flatten_eq hfound]
    obtain hcs | hcs := infix_append_cons (not_mem_chars rfl cs) hcs
    · obtain hcs | hcs := infix_append_cons (not_mem_chars rfl cs) hcs
      · exact (infix_of_infix_cons (not_mem_chars rfl cs) hcs).trans
          ⟨letters "[" ++ segment 1 segments ++ letters "](", letters ")", rfl⟩
      · refine hcs.trans ⟨letters "[", letters "](" ++ segment 4 segments ++ letters ")", ?_⟩
        simp only [List.append_assoc]
    · exact hcs.trans List.nil_infix

/-- Ends of targets are written for links only. -/
def Plain (t : Token) : Prop := t ≠ .href ∧ t ≠ .hrefEnd

theorem plain_replaceAll {find : List Token → Option (Match Token)}
    {replacement : List (List Token) → List Token} {tokens : List Token} (hfind : Consumes find)
    (hspan : ∀ segments rest, find (segments.flatten ++ rest) = some (segments, rest) →
      (∀ t ∈ segments.flatten, Plain t) → ∀ t ∈ replacement segments, Plain t)
    (h : ∀ t ∈ tokens, Plain t) : ∀ t ∈ replaceAll find replacement tokens, Plain t := by
  refine replaceAll_rec (P := fun _ text out => (∀ t ∈ text, Plain t) → ∀ t ∈ out, Plain t)
    (Q := fun _ _ => True) hfind (fun _ h => h) ?_ ?_ (fun _ _ => trivial) h
  · intro _ t text out _ ih h
    obtain ⟨ht, h⟩ := List.forall_mem_cons.mp h
    exact List.forall_mem_cons.mpr ⟨ht, ih h⟩
  · intro _ segments text out hfound _ ih h
    obtain ⟨htaken, h⟩ := List.forall_mem_append.mp h
    exact List.forall_mem_append.mpr ⟨hspan segments text hfound htaken, ih h⟩

theorem plain_around (h : ∀ t ∈ content, Plain t) : ∀ t ∈ around e content, Plain t := by
  refine List.forall_mem_append.mpr ⟨List.forall_mem_cons.mpr ⟨by simp [Plain], h⟩, ?_⟩
  exact List.forall_mem_singleton.mpr (by simp [Plain])

theorem quoted_append {tokens tokens' : List Token} (h : ∀ t ∈ tokens, Plain t)
    (h' : Quoted false tokens') : Quoted false (tokens ++ tokens') := by
  induction tokens with
  | nil => exact h'
  | cons t tokens ih =>
    obtain ⟨ht, hrest⟩ := List.forall_mem_cons.mp h
    cases t with
    | href => exact absurd rfl ht.1
    | hrefEnd => exact absurd rfl ht.2
    | _ => exact ih hrest

theorem quoted_target {url tokens : List Token}
    (h : ∀ t ∈ url, t.char.isSome = true ∧ t ≠ .ch '"') (h' : Quoted false tokens) :
    Quoted true (url ++ .hrefEnd :: tokens) := by
  induction url with
  | nil => exact h'
  | cons t url ih =>
    obtain ⟨⟨hchar, hquote⟩, hrest⟩ := List.forall_mem_cons.mp h
    cases t with
    | ch c => exact ⟨fun hc => hquote (congrArg _ hc), ih hrest⟩
    | _ => cases hchar

/-- After the links were made the targets are quoted. -/
theorem quoted_links {tokens : List Token} (hplain : ∀ t ∈ tokens, Plain t)
    (h : LinksApart tokens) : Quoted false (links tokens) := by
  refine replaceAll_rec (P := fun _ text out => (∀ t ∈ text, Plain t) → Quoted false out)
    (Q := fun before segments => Outside before ∧ Whole .a (segment 1 segments) ∧
      ∀ t ∈ segment 4 segments, t.char.isSome = true ∧ t ≠ .ch '"')
    consumes_link (fun _ _ => trivial) ?_ ?_ h hplain
  · intro _ t text out _ ih h
    obtain ⟨ht, h⟩ := List.forall_mem_cons.mp h
    exact quoted_append (List.forall_mem_singleton.mpr ht) (ih h)
  · intro _ segments text out hfound hspan ih h
    obtain ⟨-, -, htarget⟩ := hspan
    obtain ⟨htaken, hrest⟩ := List.forall_mem_append.mp h
    have hlabel : ∀ t ∈ segment 1 segments, Plain t := by
      intro t ht
      refine htaken t ?_
      rw [link_flatten_eq hfound]
      simp [ht]
    have hclosing : ∀ t ∈ segment 1 segments ++ [.closing .a], Plain t :=
      List.forall_mem_append.mpr ⟨hlabel, List.forall_mem_singleton.mpr (by simp [Plain])⟩
    have hout : linkElement segments ++ out = .href :: (segment 4 segments ++
        .hrefEnd :: (segment 1 segments ++ [.closing .a] ++ out)) := by
      simp only [linkElement, List.append_assoc, List.cons_append]
    rw [hout]
    exact quoted_target htarget (quoted_append hclosing (ih hrest))

end Replacements

section Whole

variable {tokens out out' : List Token}

theorem Kept.trans (h : Kept [] tokens out) (h' : Kept [] out out') : Kept [] tokens out' where
  nested stack stack' hstack hread :=
    h'.nested stack stack' hstack (h.nested stack stack' hstack hread)
  special c hc := (h'.special c hc).trans (h.special c hc)
  pieces cs hcs := h.pieces cs (h'.pieces cs hcs)

theorem plain_apply (m : Markup) (h : ∀ t ∈ tokens, Plain t) : ∀ t ∈ m.apply tokens, Plain t := by
  refine plain_replaceAll m.consumes (fun segments rest hfound hplain => plain_around ?_) h
  intro t ht
  refine hplain t ?_
  rw [m.flatten_eq hfound]
  simp [ht]

theorem kept_allApart {ms : List Markup} (hpre : ∀ m ∈ ms, m.element ≠ .pre)
    (h : AllApart ms tokens) (hplain : ∀ t ∈ tokens, Plain t) :
    Kept [] tokens (links (applyAll ms tokens)) ∧ Quoted false (links (applyAll ms tokens)) := by
  induction ms generalizing tokens with
  | nil => exact ⟨kept_links h, quoted_links hplain h⟩
  | cons m ms ih =>
    obtain ⟨hm, hms⟩ := h
    obtain ⟨hmpre, hmspre⟩ := List.forall_mem_cons.mp hpre
    obtain ⟨hkept, hquoted⟩ := ih hmspre hms (plain_apply m hplain)
    exact ⟨(kept_apply hmpre hm).trans hkept, hquoted⟩

theorem plain_blocks (isWord : Char → Bool) (text : List Char) :
    ∀ t ∈ blocks isWord text, Plain t := by
  refine plain_replaceAll (consumes_letters (by decide) _) ?_ ?_
  · intro segments rest hfound hplain
    refine plain_around (plain_around fun t ht => hplain t ?_)
    obtain ⟨word, newline, -, -, hflatten⟩ := codeBlock_flatten_eq hfound
    rw [hflatten]
    simp [ht]
  · intro t ht
    obtain ⟨c, -, rfl⟩ := List.mem_map.mp ht
    simp [Plain]

theorem chars_letters (text : List Char) : chars (text.map .ch) = text := by
  rw [chars, List.filterMap_map]
  exact List.filterMap_some

theorem Kept.shows {text : List Char} (h : Kept [] (text.map .ch) tokens) : Shows text tokens where
  nested := h.nested [] [] rfl (by rw [tags_letters]; rfl)
  escaped c hc := by rw [h.special c hc, chars_letters]
  code := by
    intro e content _ hcode
    have hpiece : content.map Token.ch <:+: text.map Token.ch :=
      h.pieces content (List.IsInfix.trans ⟨[.opening e], [.closing e], rfl⟩ hcode)
    have hchars : chars (content.map .ch) <:+: chars (text.map .ch) := hpiece.filterMap Token.char
    rwa [chars_letters, chars_letters] at hchars

/-- Where the spans that the patterns take for markup stand apart, the HTML is well formed. -/
theorem wellFormed_of_apart {isWord : Char → Bool} {text : List Char} (hword : PlainWords isWord)
    (h : Apart isWord text) : WellFormed text (markdownToTelegramHtml isWord text) := by
  obtain ⟨hkept, hquoted⟩ := kept_allApart (by decide) h (plain_blocks isWord text)
  refine ⟨marked isWord text, ?_, ?_⟩
  · rw [markdownToTelegramHtml_eq hword]
    exact readHtml_html hquoted
  · exact ((kept_blocks isWord text).trans hkept).shows

end Whole

section Samples

instance (before : List Token) : Decidable (Outside before) := by
  unfold Outside
  infer_instance

instance (e : Element) (content : List Token) : Decidable (Whole e content) := by
  unfold Whole
  infer_instance

instance decidableAllApart : ∀ (ms : List Markup) (tokens : List Token),
    Decidable (AllApart ms tokens)
  | [], tokens => inferInstanceAs (Decidable (∀ span ∈ spans (matchPieces link) tokens,
      Outside span.1 ∧ Whole .a (segment 1 span.2) ∧
        ∀ t ∈ segment 4 span.2, t.char.isSome = true ∧ t ≠ .ch '"'))
  | m :: ms, tokens =>
    have := decidableAllApart ms (m.apply tokens)
    inferInstanceAs (Decidable ((∀ span ∈ spans (matchPieces m.pattern) tokens,
      Outside span.1 ∧ Whole m.element (m.content span.2)) ∧ AllApart ms (m.apply tokens)))

instance (isWord : Char → Bool) (text : List Char) : Decidable (Apart isWord text) :=
  decidableAllApart markups (blocks isWord text)

def isAsciiWord (c : Char) : Bool := c.isAlphanum || c = '_'

theorem plainWords_isAsciiWord : PlainWords isAsciiWord := by
  unfold PlainWords
  decide

theorem wellFormed_of_apart_sample :
    WellFormed "```rs\nx < y\n``` **a *b* `c`** [_d_](http://e)".toList (markdownToTelegramHtml
      isAsciiWord "```rs\nx < y\n``` **a *b* `c`** [_d_](http://e)".toList) :=
  wellFormed_of_apart plainWords_isAsciiWord (by decide +kernel)

/-- Italics that begin within bold text and end after it. -/
theorem bold_and_italics_cross :
    ¬∀ isWord, PlainWords isWord → ∀ text,
      WellFormed text (markdownToTelegramHtml isWord text) := by
  intro h
  obtain ⟨tokens, hread, hshows⟩ := h isAsciiWord plainWords_isAsciiWord "**a *b** c*".toList
  have hhtml : readHtml (markdownToTelegramHtml isAsciiWord "**a *b** c*".toList) =
      some ([.opening .b] ++ letters "a " ++ [.opening .i] ++ letters "b" ++ [.closing .b] ++
        letters " c" ++ [.closing .i]) := by
    decide +kernel
  obtain rfl := Option.some.inj (hread.symm.trans hhtml)
  exact absurd hshows.nested (by decide +kernel)

/-- A span that crosses an element may still be closed by a later one. -/
example :
    ¬Apart isAsciiWord "_a **b *c_ d** e*".toList ∧
      read inside [] (tags (marked isAsciiWord "_a **b *c_ d** e*".toList)) = some [] := by
  decide +kernel

/-- Markup is made within code and within a target, and a quote ends a target. -/
example :
    let html := fun text : String => markdownToTelegramHtml isAsciiWord text.toList
    html "`a_b_c`" = "<code>a<i>b</i>c</code>".toList ∧
      html "[x](http://a_b_c)" = "<a href=\"http://a<i>b</i>c\">x</a>".toList ∧
      readHtml (html "[x](http://a\"b)") = none := by
  decide +kernel

end Samples

end AionCore.Channel.Html
