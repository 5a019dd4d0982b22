import AionCore.Channel.Formatter
import AionCore.Lib.Brackets

/-!
# Channels: what stripping leaves of a text

For Lark, DingTalk and WeChat everything between a `<` and the next `>` is taken for a tag and
stripped, whatever its name. The markdown for some of the elements is written before that.
-/

namespace AionCore.Channel.Formatter

open AionCore.Conversation (isWhitespace)
open Patterns Brackets

section Stripping

variable (text : List Char)

theorem replaceAll_reHtmlTag :
    replaceAll (matchPieces reHtmlTag) (fun _ => []) text = outside '<' '>' text :=
  replaceAll_bracket (by decide) text

theorem stripTagsFrom_eq (n : ℕ) : stripTagsFrom (n + 2) text = outside '<' '>' text := by
  rw [stripTagsFrom, replaceAll_reHtmlTag]
  split
  · next h => exact h.symm
  · rw [stripTagsFrom, replaceAll_reHtmlTag]
    exact if_pos (outside_outside (by decide) text)

theorem stripTagsLoop_eq : stripTagsLoop text = outside '<' '>' text := by
  cases text with
  | nil => decide
  | cons c text => exact stripTagsFrom_eq (c :: text) text.length

end Stripping

def closesTargets (inside : List Char) : Prop :=
  ∀ t ∈ inside.tails, "href=\"".toList <+: t → '"' ∈ t.drop 6

instance (inside : List Char) : Decidable (closesTargets inside) :=
  inferInstanceAs (Decidable (∀ t ∈ inside.tails, "href=\"".toList <+: t → '"' ∈ t.drop 6))

/-- What stands in a span that ends where a reader of HTML would end it. -/
def Fair (inside : List Char) : Prop := '<' ∉ inside ∧ closesTargets inside

instance (inside : List Char) : Decidable (Fair inside) :=
  inferInstanceAs (Decidable (_ ∧ _))

/-- A step that loses nothing outside of the spans of a text, where they are fair, and changes
nothing where there are none. -/
structure Lossless (step : List Char → List Char) : Prop where
  keeps : ∀ text, (∀ x ∈ insides '<' '>' text, Fair x) →
    (outside '<' '>' text).Sublist (outside '<' '>' (step text)) ∧
      ∀ x ∈ insides '<' '>' (step text), Fair x
  free : ∀ text, Free '<' '>' text → step text = text

theorem Lossless.comp {step step' : List Char → List Char} (h : Lossless step)
    (h' : Lossless step') : Lossless fun text => step' (step text) where
  keeps := by
    intro text htext
    obtain ⟨hsublist, hinsides⟩ := h.keeps text htext
    obtain ⟨hsublist', hinsides'⟩ := h'.keeps _ hinsides
    exact ⟨hsublist.trans hsublist', hinsides'⟩
  free := by
    intro text htext
    rw [h.free text htext, h'.free text htext]

section Steps

variable {find : List Char → Option (Match Char)} {replacement : List (List Char) → List Char}

theorem lossless_replaceAll (hfind : Consumes find)
    (hspan : ∀ segments rest, find (segments.flatten ++ rest) = some (segments, rest) →
      Begins '<' '>' segments.flatten ∧ ((∀ x ∈ insides '<' '>' segments.flatten, Fair x) →
        Keeps '<' '>' Fair segments.flatten (replacement segments))) :
    Lossless (replaceAll find replacement) where
  keeps := fun _ htext => sublist_replaceAll (by decide) (fun _ h => h.1) hfind
    (fun segments rest h => (hspan segments rest h).1)
    (fun segments rest h => (hspan segments rest h).2) htext
  free := fun _ htext => replaceAll_of_free hfind (fun segments rest h => (hspan segments rest h).1)
    htext

variable {n : ℕ}

theorem group_between {front middle rest : List (List Char)} {m : ℕ} (hn : front.length = n)
    (hm : n + middle.length = m + 1) : group n m (front ++ middle ++ rest) = middle.flatten := by
  have hlength : (front ++ middle).length = m + 1 := by
    rw [List.length_append, hn, hm]
  rw [group, ← hlength, List.take_left, ← hn, List.drop_left]

variable {segments : List (List Char)}

theorem group_append (hn : segments.length = n) (taken : List Char) (rest : List (List Char)) :
    group n n (segments ++ taken :: rest) = taken := by
  rw [List.append_cons, group_between hn (by simp)]
  exact List.append_nil taken

theorem consumes_lit {text : String} (hne : text.toList ≠ []) (pieces : List (Piece Char)) :
    Consumes (matchPieces (lit text ++ pieces)) := by
  obtain ⟨c, cs, hcs⟩ := List.exists_cons_of_ne_nil hne
  rw [lit, hcs]
  exact consumes_one

/-- What stands between an opening tag and a closing one is marked in another way. -/
theorem lossless_wrap {opening closing front back : String} {piece : Piece Char}
    (hn : opening.toList.length = n) (hopening : Whole '<' '>' opening.toList)
    (hclosing : Whole '<' '>' closing.toList)
    (hopens : ∃ d tail, opening.toList = '<' :: d :: tail ∧ d ≠ '>')
    (hcloses : ∃ tail, closing.toList = '<' :: tail ∧ '>' ∈ tail) (hfront : '<' ∉ front.toList)
    (hback : '<' ∉ back.toList) :
    Lossless (replaceAll (matchPieces (lit opening ++ piece :: lit closing))
      (wrap front back n)) := by
  obtain ⟨d, tail, htail, hd⟩ := hopens
  have hne : opening.toList ≠ [] := by
    rw [htail]
    exact List.cons_ne_nil _ _
  refine lossless_replaceAll (consumes_lit hne _) fun segments rest hfound => ?_
  obtain ⟨taken, hsegments, -⟩ := takes_between (matchPieces_eq_some hfound).1
  dsimp only at hsegments
  have hflatten : segments.flatten = opening.toList ++ taken ++ closing.toList := by
    rw [hsegments, List.flatten_append, List.flatten_cons, flatten_singletons, flatten_singletons,
      List.append_assoc]
  have hgroup : group n n segments = taken := by
    rw [hsegments]
    exact group_append (by rw [List.length_map, hn]) taken _
  rw [hflatten, wrap, hgroup]
  constructor
  · obtain ⟨tail', htail', hmem⟩ := hcloses
    rw [htail, htail']
    exact ⟨d, _, rfl, hd, List.mem_append_right _ (List.mem_cons_of_mem _ hmem)⟩
  · exact keeps_around (by decide) (fun _ h => h.1) hopening hclosing hcloses hfront hback

theorem toList_tag (tag : String) : ("<" ++ tag ++ ">").toList = '<' :: (tag.toList ++ ['>']) := by
  simp

theorem whole_tag {tag : String} (hne : tag.toList ≠ []) (htag : '>' ∉ tag.toList) :
    Whole '<' '>' ("<" ++ tag ++ ">").toList := by
  rw [toList_tag]
  exact whole_bracket hne htag

theorem lossless_element {tag front back : String} (hn : tag.toList.length + 2 = n)
    (hne : tag.toList ≠ []) (htag : '>' ∉ tag.toList) (hfront : '<' ∉ front.toList)
    (hback : '<' ∉ back.toList) :
    Lossless (replaceAll (matchPieces (reElement tag)) (wrap front back n)) := by
  have hclosing : ("</" ++ tag ++ ">").toList = '<' :: ('/' :: tag.toList ++ ['>']) := by
    simp
  have hopens : ∃ d tail', ("<" ++ tag ++ ">").toList = '<' :: d :: tail' ∧ d ≠ '>' := by
    obtain ⟨d, tail, htail⟩ := List.exists_cons_of_ne_nil hne
    rw [htail] at htag
    exact ⟨d, tail ++ ['>'], by rw [toList_tag, htail]; rfl,
      (List.ne_and_not_mem_of_not_mem_cons htag).1.symm⟩
  refine lossless_wrap ?_ (whole_tag hne htag) ?_ hopens ⟨_, hclosing, by simp⟩ hfront hback
  · rw [toList_tag, ← hn]
    simp
  · rw [hclosing]
    exact whole_bracket (List.cons_ne_nil _ _)
      (List.not_mem_cons_of_ne_of_not_mem (by decide) htag)

theorem lossless_reHtmlCode : Lossless (replaceAll (matchPieces reHtmlCode) (wrap "`" "`" 6)) := by
  have hopening : Whole '<' '>' ("<" ++ "code" ++ ">").toList := whole_tag (by decide) (by decide)
  have hclosing : Whole '<' '>' ("<" ++ "/code" ++ ">").toList := whole_tag (by decide) (by decide)
  exact lossless_wrap (by decide) hopening hclosing ⟨_, _, toList_tag "code", by decide⟩
    ⟨_, toList_tag "/code", by decide⟩ (by decide) (by decide)

variable {rest : List Char}

/-- The segments of a block of code. -/
theorem rePreCode_segments
    (h : matchPieces rePreCode (segments.flatten ++ rest) = some (segments, rest)) :
    ∃ attributes, '>' ∉ attributes ∧ segments.flatten = "<pre><code".toList ++ attributes ++
      ['>'] ++ group 12 12 segments ++ "</code></pre>".toList := by
  have htakes := (matchPieces_eq_some h).1
  unfold rePreCode at htakes
  rw [List.append_assoc] at htakes
  obtain ⟨tail, hsegments, htail⟩ := takes_literal htakes
  obtain ⟨attributes, last, hattributes, hlast, rfl⟩ := List.forall₂_cons_left_iff.mp htail
  obtain ⟨code, rfl, -⟩ := takes_between hlast
  have hgroup : group 12 12 segments = code := by
    dsimp only at hsegments
    have hsplit : segments = ("<pre><code".toList.map (fun a => [a]) ++ [attributes, ['>']]) ++
        code :: "</code></pre>".toList.map (fun a => [a]) := by
      rw [hsegments, List.append_assoc]
      rfl
    rw [hsplit]
    exact group_append (n := 12) (by simp) code _
  refine ⟨attributes, fun hmem => absurd (hattributes _ hmem) (by decide), ?_⟩
  dsimp only at hsegments
  rw [hgroup, hsegments]
  simp only [List.flatten_append, List.flatten_cons, flatten_singletons, List.append_assoc,
    List.cons_append, List.nil_append, List.map_cons, List.map_nil,
    show ">".toList = ['>'] from by decide]

theorem lossless_rePreCode : Lossless (replaceAll (matchPieces rePreCode)
    fun segments => "```\n".toList ++ group 12 12 segments ++ "```".toList) := by
  have hfind : Consumes (matchPieces rePreCode) := by
    unfold rePreCode
    rw [List.append_assoc]
    exact consumes_lit (by decide) _
  refine lossless_replaceAll hfind fun segments rest hfound => ?_
  obtain ⟨attributes, hattributes, hflatten⟩ := rePreCode_segments hfound
  have hpre : Whole '<' '>' ("<" ++ "pre" ++ ">").toList := whole_tag (by decide) (by decide)
  have hcode : Whole '<' '>' ('<' :: ("code".toList ++ attributes ++ ['>'])) :=
    whole_bracket (by simp) (by simpa using hattributes)
  have hcode' : Whole '<' '>' ("<" ++ "/code" ++ ">").toList :=
    whole_tag (by decide) (by decide)
  have hpre' : Whole '<' '>' ("<" ++ "/pre" ++ ">").toList := whole_tag (by decide) (by decide)
  have hopening : "<pre><code".toList ++ attributes ++ ['>'] =
      ("<" ++ "pre" ++ ">").toList ++ '<' :: ("code".toList ++ attributes ++ ['>']) := by
    simp
  have hclosing : "</code></pre>".toList =
      ("<" ++ "/code" ++ ">").toList ++ ("<" ++ "/pre" ++ ">").toList := by decide
  rw [hflatten, hopening, hclosing]
  constructor
  · exact ⟨_, _, rfl, by decide, by simp⟩
  · exact keeps_around (by decide) (fun _ h => h.1) (hpre.append hcode) (hcode'.append hpre')
      ⟨_, rfl, by decide⟩ (by decide) (by decide)

/-- The segments of a link, with its target and its text. -/
theorem reHtmlSafeLink_segments {scheme : List (Piece Char)}
    (hscheme : ∀ piece ∈ scheme, piece.accepts '"' = false)
    (h : matchPieces (reHtmlSafeLink scheme) (segments.flatten ++ rest) = some (segments, rest)) :
    ∃ space target middle label, '>' ∉ space ∧ '"' ∉ target ∧ '>' ∉ middle ∧ '<' ∉ label ∧
      segments.flatten = "<a".toList ++ space ++ "href=\"".toList ++ target ++ ['"'] ++ middle ++
        ['>'] ++ label ++ "</a>".toList ∧
      linkMarkdown segments = '[' :: label ++ "](".toList ++ target ++ [')'] := by
  have htakes := (matchPieces_eq_some h).1
  unfold reHtmlSafeLink at htakes
  simp only [List.append_assoc] at htakes
  obtain ⟨tail, hsegments, htail⟩ := takes_literal htakes
  obtain ⟨space, afterSpace, hspace, hafterSpace, rfl⟩ := List.forall₂_cons_left_iff.mp htail
  obtain ⟨afterHref, rfl, hafterHref⟩ := takes_literal hafterSpace
  obtain ⟨start, afterStart, rfl, hstart, hafterStart⟩ := takes_append hafterHref
  obtain ⟨url, afterUrl, hurl, hafterUrl, rfl⟩ := List.forall₂_cons_left_iff.mp hafterStart
  obtain ⟨afterQuote, rfl, hafterQuote⟩ := takes_literal hafterUrl
  obtain ⟨middle, afterMiddle, hmiddle, hafterMiddle, rfl⟩ :=
    List.forall₂_cons_left_iff.mp hafterQuote
  obtain ⟨label, rfl, hlabel⟩ := takes_between hafterMiddle
  refine ⟨space, start.flatten ++ url, middle, label, ?_, ?_, ?_, ?_, ?_, ?_⟩
  · exact fun hmem => absurd (hspace.2 _ hmem) (by decide)
  · rw [List.mem_append]
    rintro (hmem | hmem)
    · exact not_mem_flatten hstart hscheme hmem
    · exact absurd (hurl _ hmem) (by decide)
  · exact fun hmem => absurd (hmiddle _ hmem) (by decide)
  · exact fun hmem => absurd (hlabel _ hmem) (by decide)
  · rw [hsegments]
    simp only [List.flatten_append, List.flatten_cons, flatten_singletons, List.append_assoc,
      List.map_cons, List.map_nil, List.cons_append, List.nil_append,
      show ">".toList = ['>'] from by decide, show "\"".toList = ['"'] from by decide]
  · have hsplit : segments = ("<a".toList.map (fun a => [a]) ++ space ::
        "href=\"".toList.map (fun a => [a])) ++ (start ++ [url]) ++
          ([['"'], middle, ['>']] ++ label :: "</a>".toList.map (fun a => [a])) := by
      rw [hsegments]
      simp
    have hlength : segments.length = start.length + 18 := by
      rw [hsplit]
      simp
    have htarget : group 9 (segments.length - 9) segments = start.flatten ++ url := by
      rw [hlength, hsplit, group_between (by simp) (by simp; omega), List.flatten_append]
      simp
    have hlabel' : group (segments.length - 5) (segments.length - 5) segments = label := by
      rw [hlength, hsplit, ← List.append_assoc]
      exact group_append (by simp) label _
    unfold linkMarkdown
    dsimp only
    rw [htarget, hlabel']
    simp

/-- A link keeps its text, where its target has no end of a span in it. -/
theorem keeps_link {space target middle label : List Char} (hspace : '>' ∉ space)
    (htarget : '"' ∉ target) (hmiddle : '>' ∉ middle) (hlabel : '<' ∉ label)
    (h : ∀ x ∈ insides '<' '>' ("<a".toList ++ space ++ "href=\"".toList ++ target ++ ['"'] ++
      middle ++ ['>'] ++ label ++ "</a>".toList), Fair x) :
    Keeps '<' '>' Fair ("<a".toList ++ space ++ "href=\"".toList ++ target ++ ['"'] ++ middle ++
      ['>'] ++ label ++ "</a>".toList) ('[' :: label ++ "](".toList ++ target ++ [')']) := by
  -- A span that ended in the target would have an open target in it.
  have hends : '>' ∉ target := by
    intro hmem
    obtain ⟨u, v, rfl, hu⟩ := List.eq_append_cons_of_mem hmem
    have hspan : "<a".toList ++ space ++ "href=\"".toList ++ (u ++ '>' :: v) ++ ['"'] ++ middle ++
        ['>'] ++ label ++ "</a>".toList = '<' :: (("a".toList ++ space ++ "href=\"".toList ++ u) ++
          '>' :: (v ++ ['"'] ++ middle ++ ['>'] ++ label ++ "</a>".toList)) := by
      simp
    rw [hspan, insides_bracket (by simpa using ⟨hspace, hu⟩)] at h
    have hquote := (h _ List.mem_cons_self).2 ("href=\"".toList ++ u)
      ((List.mem_tails _ _).mpr ⟨"a".toList ++ space, by simp⟩) (List.prefix_append _ _)
    exact htarget (List.mem_append_left _ (by simpa using hquote))
  have hspan : "<a".toList ++ space ++ "href=\"".toList ++ target ++ ['"'] ++ middle ++ ['>'] ++
      label ++ "</a>".toList = '<' :: (("a".toList ++ space ++ "href=\"".toList ++ target ++
        ['"'] ++ middle) ++ '>' :: (label ++ "</a>".toList)) := by
    simp
  have hinside : '>' ∉ "a".toList ++ space ++ "href=\"".toList ++ target ++ ['"'] ++ middle := by
    simpa using ⟨hspace, hends, hmiddle⟩
  rw [hspan, insides_bracket hinside] at h
  have htarget' : '<' ∉ target := fun hmem =>
    (h _ List.mem_cons_self).1 (by simp [hmem])
  have hout : '<' ∉ '[' :: label ++ "](".toList ++ target ++ [')'] := by
    simpa using ⟨hlabel, htarget'⟩
  have hclosing : Whole '<' '>' ("<" ++ "/a" ++ ">").toList := whole_tag (by decide) (by decide)
  rw [hspan]
  refine ⟨?_, after_of_not_mem hout, ?_, ?_⟩
  · have hend : '<' :: (("a".toList ++ space ++ "href=\"".toList ++ target ++ ['"'] ++ middle) ++
        '>' :: (label ++ "</a>".toList)) = '<' :: (("a".toList ++ space ++ "href=\"".toList ++
          target ++ ['"'] ++ middle) ++ '>' :: (label ++ "</a".toList)) ++ ['>'] := by
      simp
    rw [hend]
    exact after_concat (by decide)
  · rw [outside_bracket (by simp) hinside, outside_of_not_mem hout, outside,
      outsideFrom_append (after_of_not_mem hlabel)]
    have hlabelled : outsideFrom '<' '>' none label ++ outside '<' '>' "</a>".toList = label := by
      refine (congrArg (_ ++ ·) hclosing.outside).trans ?_
      rw [List.append_nil]
      exact outside_of_not_mem hlabel
    rw [hlabelled]
    simp
  · rw [insides_of_not_mem hout]
    exact List.forall_mem_nil _

theorem lossless_links :
    Lossless (replaceAll (firstMatch (schemes.map reHtmlSafeLink)) linkMarkdown) := by
  have hfirst : ∀ text m, firstMatch (schemes.map reHtmlSafeLink) text = some m →
      ∃ scheme ∈ schemes, matchPieces (reHtmlSafeLink scheme) text = some m := by
    intro text m h
    obtain ⟨pattern, hpattern, hm⟩ := List.exists_of_findSome?_eq_some h
    obtain ⟨scheme, hscheme, rfl⟩ := List.mem_map.mp hpattern
    exact ⟨scheme, hscheme, hm⟩
  have hfind : Consumes (firstMatch (schemes.map reHtmlSafeLink)) := by
    intro text m h
    obtain ⟨scheme, -, hm⟩ := hfirst text m h
    exact consumes_one text m hm
  refine lossless_replaceAll hfind fun segments rest hfound => ?_
  obtain ⟨scheme, hscheme, hm⟩ := hfirst _ _ hfound
  have hquote : ∀ scheme ∈ schemes, ∀ piece ∈ scheme, piece.accepts '"' = false := by decide
  obtain ⟨space, target, middle, label, hspace, htarget, hmiddle, hlabel, hflatten, hmarkdown⟩ :=
    reHtmlSafeLink_segments (hquote scheme hscheme) hm
  rw [hflatten, hmarkdown]
  exact ⟨⟨_, _, rfl, by decide, by simp⟩, keeps_link hspace htarget hmiddle hlabel⟩

end Steps

section Output

variable {text : List Char}

def markElements (text : List Char) : List Char :=
  let s := replaceAll (matchPieces rePreCode)
    (fun segments => "```\n".toList ++ group 12 12 segments ++ "```".toList) text
  let s := replaceAll (matchPieces reHtmlCode) (wrap "`" "`" 6) s
  let s := replaceAll (matchPieces (reElement "b")) (wrap "**" "**" 3) s
  let s := replaceAll (matchPieces (reElement "strong")) (wrap "**" "**" 8) s
  let s := replaceAll (matchPieces (reElement "i")) (wrap "*" "*" 3) s
  let s := replaceAll (matchPieces (reElement "em")) (wrap "*" "*" 4) s
  replaceAll (firstMatch (schemes.map reHtmlSafeLink)) linkMarkdown s

theorem htmlToMarkdown_eq (text : List Char) :
    htmlToMarkdown text = outside '<' '>' (markElements (decodeSafeEntities text)) :=
  stripTagsLoop_eq _

theorem lossless_markElements : Lossless markElements := by
  have hb : Lossless (replaceAll (matchPieces (reElement "b")) (wrap "**" "**" 3)) :=
    lossless_element (by decide) (by decide) (by decide) (by decide) (by decide)
  have hstrong : Lossless (replaceAll (matchPieces (reElement "strong")) (wrap "**" "**" 8)) :=
    lossless_element (by decide) (by decide) (by decide) (by decide) (by decide)
  have hi : Lossless (replaceAll (matchPieces (reElement "i")) (wrap "*" "*" 3)) :=
    lossless_element (by decide) (by decide) (by decide) (by decide) (by decide)
  have hem : Lossless (replaceAll (matchPieces (reElement "em")) (wrap "*" "*" 4)) :=
    lossless_element (by decide) (by decide) (by decide) (by decide) (by decide)
  exact (((((lossless_rePreCode.comp lossless_reHtmlCode).comp hb).comp hstrong).comp hi).comp
    hem).comp lossless_links

def tagNames : List String := ["a", "b", "strong", "i", "em", "code", "pre"]

def startsTag : List Char → Bool
  | '<' :: text => tagNames.any fun name => [name, "/" ++ name].any fun tag =>
    let attributes := text.drop tag.length
    tag.toList.isPrefixOf text && attributes.contains '>' &&
      (attributes.head?.any fun c => c = '>' || isWhitespace c)
  | _ => false

def hasTag (text : List Char) : Bool := text.tails.any startsTag

end Output

end AionCore.Channel.Formatter
