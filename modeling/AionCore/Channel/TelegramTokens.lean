import AionCore.Channel.Formatter
import AionCore.Channel.HtmlReading
import AionCore.Lib.Replacements

/-!
# Channels: the patterns of Markdown on tokens

What `markdown_to_telegram_html` writes, as tokens of HTML: each of its patterns replaces what it
finds in the tokens that the patterns before it have left, and no pattern can tell the tokens from
the text that is written for them.
-/

namespace AionCore.Channel.Html

open AionCore.Channel.Formatter
open Patterns Nesting

section Tokens

def letters (text : String) : List Token := text.toList.map .ch

def segment (n : ℕ) (segments : List (List Token)) : List Token := segments.getD n []

def around (e : Element) (content : List Token) : List Token :=
  .opening e :: content ++ [.closing e]

def isTokenWord (isWord : Char → Bool) : Token → Bool
  | .ch c => isWord c && !isSpecial c
  | _ => false

def codeBlock (isWord : Char → Bool) : List (Piece Token) :=
  literal (letters "```") ++ .many false (isTokenWord isWord) :: .opt (· = .ch '\n') ::
    .many true (fun _ => true) :: literal (letters "```")

def link : List (Piece Token) :=
  literal (letters "[") ++ .many₁ false (· ≠ .ch ']') :: literal (letters "](") ++
    .many₁ false (· ≠ .ch ')') :: literal (letters ")")

def isMarker (c : Char) : Bool := c ∈ ['`', '*', '_', '[', ']', '(', ')', '\n']

/-- A pattern that makes an element of what stands between two markers. -/
structure Markup where
  marker : String
  lazy : Bool
  stop : Char
  element : Element
  nonempty : marker.toList ≠ [] := by decide
  markers : ∀ c ∈ marker.toList, isMarker c = true := by decide
  stops : isMarker stop = true := by decide

def Markup.pattern (m : Markup) : List (Piece Token) :=
  literal (letters m.marker) ++ .many₁ m.lazy (· ≠ .ch m.stop) :: literal (letters m.marker)

def Markup.content (m : Markup) (segments : List (List Token)) : List Token :=
  segment m.marker.length segments

def Markup.apply (m : Markup) (tokens : List Token) : List Token :=
  replaceAll (matchPieces m.pattern) (fun segments => around m.element (m.content segments)) tokens

def inlineCode : Markup := { marker := "`", lazy := false, stop := '`', element := .code }

def boldStar : Markup := { marker := "**", lazy := true, stop := '\n', element := .b }

def boldUnder : Markup := { marker := "__", lazy := true, stop := '\n', element := .b }

def italicStar : Markup := { marker := "*", lazy := true, stop := '\n', element := .i }

def italicUnder : Markup := { marker := "_", lazy := true, stop := '\n', element := .i }

def markups : List Markup := [inlineCode, boldStar, boldUnder, italicStar, italicUnder]

def blockElement (segments : List (List Token)) : List Token :=
  around .pre (around .code (segment 5 segments))

def linkElement (segments : List (List Token)) : List Token :=
  .href :: segment 4 segments ++ .hrefEnd :: segment 1 segments ++ [.closing .a]

def blocks (isWord : Char → Bool) (text : List Char) : List Token :=
  replaceAll (matchPieces (codeBlock isWord)) blockElement (text.map .ch)

def applyAll (ms : List Markup) (tokens : List Token) : List Token :=
  ms.foldl (fun tokens m => m.apply tokens) tokens

def links (tokens : List Token) : List Token := replaceAll (matchPieces link) linkElement tokens

def marked (isWord : Char → Bool) (text : List Char) : List Token :=
  links (applyAll markups (blocks isWord text))

end Tokens

section Written

theorem html_ne_nil (t : Token) : t.html ≠ [] := by
  cases t with
  | ch c =>
    show escapeChar c ≠ []
    unfold escapeChar
    split_ifs <;> exact List.cons_ne_nil _ _
  | _ => exact List.cons_ne_nil _ _

variable {c : Char}

theorem escapeChar_of_not_special (h : isSpecial c = false) : escapeChar c = [c] := by
  simp only [isSpecial, Bool.or_eq_false_iff, decide_eq_false_iff_not] at h
  obtain ⟨⟨hamp, hlt⟩, hgt⟩ := h
  rw [escapeChar, if_neg hamp, if_neg hlt, if_neg hgt]

theorem head?_escapeChar (h : isSpecial c = true) : (escapeChar c).head? = some '&' := by
  simp only [isSpecial, Bool.or_eq_true, decide_eq_true_eq] at h
  obtain (rfl | rfl) | rfl := h <;> rfl

/-- Only the character itself is written with a marker. -/
theorem eq_of_mem_html {t : Token} (hc : isMarker c = true) (h : c ∈ t.html) :
    t = .ch c := by
  have plain : ∀ l : List Char, (∀ d ∈ l, isMarker d = false) → c ∉ l := by
    intro l hl hmem
    rw [hl c hmem] at hc
    cases hc
  cases t with
  | ch d =>
    have h : c ∈ escapeChar d := h
    unfold escapeChar at h
    split_ifs at h
    · exact absurd h (plain _ (by decide))
    · exact absurd h (plain _ (by decide))
    · exact absurd h (plain _ (by decide))
    · rw [List.mem_singleton.mp h]
  | opening e => exact absurd h (plain _ (by cases e <;> decide))
  | closing e => exact absurd h (plain _ (by cases e <;> decide))
  | href => exact absurd h (plain _ (by decide))
  | hrefEnd => exact absurd h (plain _ (by decide))

theorem not_special_of_isMarker (h : isMarker c = true) : isSpecial c = false := by
  cases hspecial : isSpecial c with
  | false => rfl
  | true =>
    simp only [isSpecial, Bool.or_eq_true, decide_eq_true_eq] at hspecial
    obtain (rfl | rfl) | rfl := hspecial <;> cases h

theorem marks (h : isMarker c = true) : Marks Token.html (.ch c) c where
  word := escapeChar_of_not_special (not_special_of_isMarker h)
  only := fun _ hne hmem => hne (eq_of_mem_html h hmem)

theorem rigid (h : isMarker c = true) {pieces : List (Piece Char)} (t : Token) :
    RigidAt Token.html (matchPieces (.one (fun d => d = c) :: pieces)) t :=
  (marks h).rigidAt t

variable {text : String}

/-- A literal text of markers. -/
theorem simulates_letters (h : ∀ c ∈ text.toList, isMarker c = true) {pieces : List (Piece Token)}
    {pieces' : List (Piece Char)}
    (hrest : Simulates Token.html (matchPieces pieces) (matchPieces pieces')) :
    Simulates Token.html (matchPieces (literal (letters text) ++ pieces))
      (matchPieces (lit text ++ pieces')) := by
  refine simulates_literal ?_ html_ne_nil hrest
  unfold letters
  generalize text.toList = cs at h
  induction cs with
  | nil => exact .nil
  | cons c cs ih =>
    obtain ⟨hc, hcs⟩ := List.forall_mem_cons.mp h
    exact .cons (marks hc) (ih hcs)

variable {find' : List Char → Option (Match Char)}

theorem spells_except {stop : Char} (hstop : isMarker stop = true)
    (hrigid : ∀ t, RigidAt Token.html find' t) :
    Spells Token.html (fun t => t ≠ .ch stop) (except stop) find' :=
  (marks hstop).spells html_ne_nil hrigid

def Markup.regex (m : Markup) : List (Piece Char) :=
  lit m.marker ++ .many₁ m.lazy (except m.stop) :: lit m.marker

theorem simulates_end (h : ∀ c ∈ text.toList, isMarker c = true) :
    Simulates Token.html (matchPieces (literal (letters text))) (matchPieces (lit text)) := by
  have hend : Simulates Token.html (matchPieces (literal (letters text) ++ []))
      (matchPieces (lit text ++ [])) := simulates_letters h .nil
  rwa [List.append_nil, List.append_nil] at hend

theorem rigid_lit (hne : text.toList ≠ []) (h : ∀ c ∈ text.toList, isMarker c = true)
    (pieces : List (Piece Char)) (t : Token) :
    RigidAt Token.html (matchPieces (lit text ++ pieces)) t := by
  obtain ⟨c, cs, hcs⟩ := List.exists_cons_of_ne_nil hne
  rw [lit, hcs]
  rw [hcs] at h
  exact rigid (List.forall_mem_cons.mp h).1 t

theorem Markup.simulates (m : Markup) :
    Simulates Token.html (matchPieces m.pattern) (matchPieces m.regex) := by
  refine simulates_letters m.markers ((simulates_end m.markers).many₁ ?_)
  refine spells_except m.stops fun t => ?_
  have hrigid := rigid_lit m.nonempty m.markers [] t
  rwa [List.append_nil] at hrigid

/-- The characters that the tokens of the source's tags begin with are no word characters. -/
def PlainWords (isWord : Char → Bool) : Prop := ∀ c ∈ ['&', '<', '"'], isWord c = false

variable {isWord : Char → Bool}

theorem spells_word (hword : PlainWords isWord) :
    Spells Token.html (isTokenWord isWord) isWord find' := by
  have own : ∀ t, isTokenWord isWord t = true → ∃ c, t.html = [c] ∧ isWord c = true := by
    intro t ht
    cases t with
    | ch c =>
      obtain ⟨hc, hspecial⟩ := Bool.and_eq_true_iff.mp ht
      exact ⟨c, escapeChar_of_not_special (Bool.not_eq_true' _ ▸ hspecial), hc⟩
    | _ => cases ht
  refine ⟨html_ne_nil, ?_, ?_, ?_⟩
  · intro t ht b hb
    obtain ⟨c, hc, hisWord⟩ := own t ht
    rw [hc] at hb
    rwa [List.mem_singleton.mp hb]
  · intro t ht b hb
    cases t with
    | ch c =>
      cases hspecial : isSpecial c with
      | true =>
        rw [Token.html, head?_escapeChar hspecial] at hb
        exact Option.some.inj hb ▸ hword '&' (by decide)
      | false =>
        have hc : isWord c = false := by
          rw [isTokenWord, hspecial, Bool.not_false, Bool.and_true] at ht
          exact ht
        rw [Token.html, escapeChar_of_not_special hspecial] at hb
        exact Option.some.inj hb ▸ hc
    | opening e => exact Option.some.inj hb ▸ hword '<' (by decide)
    | closing e => exact Option.some.inj hb ▸ hword '<' (by decide)
    | href => exact Option.some.inj hb ▸ hword '<' (by decide)
    | hrefEnd => exact Option.some.inj hb ▸ hword '"' (by decide)
  · intro t ht x y text hxy hx hy
    obtain ⟨c, hc, -⟩ := own t ht
    have hlength := congrArg List.length (hc.symm.trans hxy)
    have hxpos := List.length_pos_of_ne_nil hx
    have hypos := List.length_pos_of_ne_nil hy
    simp only [List.length_append, List.length_cons, List.length_nil] at hlength
    omega

theorem simulates_codeBlock (hword : PlainWords isWord) :
    Simulates Token.html (matchPieces (codeBlock isWord)) (matchPieces (reCodeBlock isWord)) := by
  have hfence : ∀ c ∈ "```".toList, isMarker c = true := by decide
  have hany : Spells Token.html (fun _ => true) any (matchPieces (lit "```")) :=
    ⟨html_ne_nil, fun _ _ _ _ => rfl, fun _ h => (by cases h), fun t _ => rigid rfl t⟩
  have hnewline := marks (c := '\n') rfl
  have hcode : Simulates Token.html
      (matchPieces (.many true (fun _ => true) :: literal (letters "```")))
      (matchPieces (.many true any :: lit "```")) := (simulates_end hfence).many hany
  refine simulates_letters hfence ((hcode.opt html_ne_nil ?_ ?_).many (spells_word hword))
  · intro t ht
    obtain rfl := of_decide_eq_true ht
    exact ⟨'\n', hnewline.word, rfl⟩
  · intro t ht b hb
    refine decide_eq_false ?_
    rintro rfl
    exact hnewline.only t (of_decide_eq_false ht) (List.mem_of_mem_head? hb)

theorem simulates_link : Simulates Token.html (matchPieces link) (matchPieces reLink) := by
  have htarget : Simulates Token.html
      (matchPieces (.many₁ false (· ≠ .ch ')') :: literal (letters ")")))
      (matchPieces (.many₁ false (except ')') :: lit ")")) :=
    (simulates_end (by decide)).many₁ (spells_except (by decide) fun t => rigid rfl t)
  have hlabel : Simulates Token.html
      (matchPieces (.many₁ false (· ≠ .ch ']') ::
        (literal (letters "](") ++ .many₁ false (· ≠ .ch ')') :: literal (letters ")"))))
      (matchPieces (.many₁ false (except ']') ::
        (lit "](" ++ .many₁ false (except ')') :: lit ")"))) :=
    (simulates_letters (by decide) htarget).many₁
      (spells_except (by decide) fun t => rigid rfl t)
  unfold link reLink
  rw [List.append_assoc, List.append_assoc]
  exact simulates_letters (by decide) hlabel

theorem replaceFrom_one (c : Char) (new : List Char) {n : ℕ} {text : List Char}
    (hn : text.length ≤ n) :
    replaceFrom (matchPieces [.one fun d => d = c]) (fun _ => new) n text =
      text.flatMap fun d => if d = c then new else [d] := by
  induction n generalizing text with
  | zero =>
    obtain rfl := List.length_eq_zero_iff.mp (Nat.le_zero.mp hn)
    rfl
  | succ n ih =>
    cases text with
    | nil => rfl
    | cons d text =>
      rw [List.flatMap_cons, ← ih (Nat.le_of_succ_le_succ hn), replaceFrom]
      by_cases hd : d = c
      · simp [matchPieces, hd, Match.add]
      · simp [matchPieces, hd]

/-- Each character is escaped on its own. -/
theorem escapeHtml_eq (text : List Char) : escapeHtml text = text.flatMap escapeChar := by
  have one : ∀ (c : Char) (new text : List Char),
      replaceAll (matchPieces [.one fun d => d = c]) (fun _ => new) text =
        text.flatMap fun d => if d = c then new else [d] :=
    fun c new text => replaceFrom_one c new (Nat.le_refl _)
  have hall : escapeHtml text =
      ((text.flatMap fun d => if d = '&' then "&amp;".toList else [d]).flatMap
        fun d => if d = '<' then "&lt;".toList else [d]).flatMap
          fun d => if d = '>' then "&gt;".toList else [d] := by
    rw [← one, ← one, ← one]
    rfl
  rw [hall, List.flatMap_assoc, List.flatMap_assoc]
  refine List.flatMap_congr fun d _ => ?_
  by_cases hamp : d = '&'
  · subst hamp
    decide
  by_cases hlt : d = '<'
  · subst hlt
    decide
  by_cases hgt : d = '>'
  · subst hgt
    decide
  simp [escapeChar, hamp, hlt, hgt]

theorem group_html (n : ℕ) (segments : List (List Token)) :
    group n n (segments.map (List.flatMap Token.html)) =
      (segment n segments).flatMap Token.html := by
  induction segments generalizing n with
  | nil => simp [group, segment]
  | cons taken segments ih =>
    cases n with
    | zero => simp [group, segment]
    | succ n => exact ih n

theorem consumes_letters (hne : text.toList ≠ []) (pieces : List (Piece Token)) :
    Consumes (matchPieces (literal (letters text) ++ pieces)) := by
  obtain ⟨c, cs, hcs⟩ := List.exists_cons_of_ne_nil hne
  rw [letters, hcs]
  exact consumes_one

theorem Markup.consumes (m : Markup) : Consumes (matchPieces m.pattern) :=
  consumes_letters m.nonempty _

theorem consumes_link : Consumes (matchPieces link) := by
  unfold link
  rw [List.append_assoc]
  exact consumes_letters (by decide) _

theorem rigid_reLink (t : Token) : RigidAt Token.html (matchPieces reLink) t := by
  unfold reLink
  rw [List.append_assoc]
  exact rigid_lit (by decide) (by decide) _ t

theorem Markup.apply_html (m : Markup) {opening closing : String}
    (hopening : opening.toList = (Token.opening m.element).html)
    (hclosing : closing.toList = (Token.closing m.element).html) (tokens : List Token) :
    replaceAll (matchPieces m.regex) (wrap opening closing m.marker.length)
      (tokens.flatMap Token.html) = (m.apply tokens).flatMap Token.html := by
  refine replaceAll_write html_ne_nil m.consumes m.simulates ?_ fun span _ => ?_
  · exact rigid_lit m.nonempty m.markers _
  · rw [wrap, group_html, hopening, hclosing]
    simp [around, Markup.content]

theorem blocks_html (hword : PlainWords isWord) (text : List Char) :
    replaceAll (matchPieces (reCodeBlock isWord)) (wrap "<pre><code>" "</code></pre>" 5)
      (escapeHtml text) = (blocks isWord text).flatMap Token.html := by
  have htext : escapeHtml text = (text.map Token.ch).flatMap Token.html := by
    rw [escapeHtml_eq, List.flatMap_map]
    rfl
  rw [htext]
  refine replaceAll_write html_ne_nil (consumes_letters (by decide) _) (simulates_codeBlock hword)
    (rigid_lit (by decide) (by decide) _) fun span _ => ?_
  rw [wrap, group_html]
  simp [blockElement, around, Token.html, Element.name]

theorem linkElement_html (segments : List (List Token)) :
    linkTag (segments.map (List.flatMap Token.html)) =
      (linkElement segments).flatMap Token.html := by
  have hstart : "<a href=\"".toList = Token.href.html := by decide
  have hend : "\">".toList = Token.hrefEnd.html := by decide
  have hclosing : "</a>".toList = (Token.closing .a).html := by decide
  unfold linkTag linkElement
  rw [group_html, group_html, hstart, hend, hclosing]
  simp only [List.flatMap_append, List.flatMap_cons, List.flatMap_nil, List.append_nil,
    List.append_assoc]

theorem links_html (tokens : List Token) :
    replaceAll (matchPieces reLink) linkTag (tokens.flatMap Token.html) =
      (links tokens).flatMap Token.html := by
  unfold links
  exact replaceAll_write html_ne_nil consumes_link simulates_link rigid_reLink fun span _ =>
    linkElement_html span.2

/-- What is written for a text is written for its tokens. -/
theorem markdownToTelegramHtml_eq (hword : PlainWords isWord) (text : List Char) :
    markdownToTelegramHtml isWord text = (marked isWord text).flatMap Token.html := by
  unfold markdownToTelegramHtml
  dsimp only
  rw [blocks_html hword]
  have hcode : ∀ ts : List Token, replaceAll (matchPieces reInlineCode) (wrap "<code>" "</code>" 1)
      (ts.flatMap Token.html) = (inlineCode.apply ts).flatMap Token.html :=
    inlineCode.apply_html (by decide) (by decide)
  have hboldStar : ∀ ts : List Token, replaceAll (matchPieces reBoldStar) (wrap "<b>" "</b>" 2)
      (ts.flatMap Token.html) = (boldStar.apply ts).flatMap Token.html :=
    boldStar.apply_html (by decide) (by decide)
  have hboldUnder : ∀ ts : List Token, replaceAll (matchPieces reBoldUnder) (wrap "<b>" "</b>" 2)
      (ts.flatMap Token.html) = (boldUnder.apply ts).flatMap Token.html :=
    boldUnder.apply_html (by decide) (by decide)
  have hitalicStar : ∀ ts : List Token, replaceAll (matchPieces reItalicStar) (wrap "<i>" "</i>" 1)
      (ts.flatMap Token.html) = (italicStar.apply ts).flatMap Token.html :=
    italicStar.apply_html (by decide) (by decide)
  have hitalicUnder : ∀ ts : List Token,
      replaceAll (matchPieces reItalicUnder) (wrap "<i>" "</i>" 1) (ts.flatMap Token.html) =
        (italicUnder.apply ts).flatMap Token.html :=
    italicUnder.apply_html (by decide) (by decide)
  rw [hcode, hboldStar, hboldUnder, hitalicStar, hitalicUnder, links_html]
  rfl

end Written

end AionCore.Channel.Html
