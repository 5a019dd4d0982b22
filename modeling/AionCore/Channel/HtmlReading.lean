import AionCore.Lib.Nesting

/-!
# Channels: HTML as Telegram reads it

The elements that Telegram allows, without attributes but for the target of a link, and text in
which three characters are escaped. A reader of it, and the texts that it takes as they were
written.
-/

namespace AionCore.Channel.Html

open Nesting

/-- A statement about the characters of a literal is decided along the literal. -/
scoped instance (priority := 2000) decidableChars (p : Char → Prop) [DecidablePred p]
    (cs : List Char) : Decidable (∀ c ∈ cs, p c) :=
  List.decidableBAll p cs

inductive Element where
  | b
  | i
  | code
  | pre
  | a
  deriving DecidableEq

def Element.name : Element → List Char
  | .b => ['b']
  | .i => ['i']
  | .code => ['c', 'o', 'd', 'e']
  | .pre => ['p', 'r', 'e']
  | .a => ['a']

/-- A character of the text or of a target, a tag, or one of the ends of a target. -/
inductive Token where
  | ch (c : Char)
  | opening (e : Element)
  | closing (e : Element)
  | href
  | hrefEnd
  deriving DecidableEq

def isSpecial (c : Char) : Bool := c = '&' || c = '<' || c = '>'

def escapeChar (c : Char) : List Char :=
  if c = '&' then ['&', 'a', 'm', 'p', ';']
  else if c = '<' then ['&', 'l', 't', ';']
  else if c = '>' then ['&', 'g', 't', ';']
  else [c]

def hrefStart : List Char := ['<', 'a', ' ', 'h', 'r', 'e', 'f', '=', '"']

def Token.html : Token → List Char
  | .ch c => escapeChar c
  | .opening e => '<' :: e.name ++ ['>']
  | .closing e => '<' :: '/' :: e.name ++ ['>']
  | .href => hrefStart
  | .hrefEnd => ['"', '>']

section Reader

def entity (name : List Char) : Option Char :=
  if name = ['a', 'm', 'p'] then some '&'
  else if name = ['l', 't'] then some '<'
  else if name = ['g', 't'] then some '>'
  else none

def readEntities : Option (List Char) → List Char → Option (List (Char × Bool))
  | none, [] => some []
  | some _, [] => none
  | none, c :: html =>
    if c = '&' then readEntities (some []) html
    else (readEntities none html).map ((c, false) :: ·)
  | some name, c :: html =>
    if c = ';' then (entity name).bind fun d => (readEntities none html).map ((d, true) :: ·)
    else readEntities (some (name ++ [c])) html

/-- Where a reader of tags is: in the text, in a tag, in the target of a link, or after it. -/
inductive Place where
  | text
  | tag (name : List Char)
  | target
  | quote

def tagNamed (name : List Char) : Option Token :=
  [Element.b, .i, .code, .pre, .a].findSome? fun e =>
    if name = e.name then some (.opening e)
    else if name = '/' :: e.name then some (.closing e)
    else none

def readTags : Place → List (Char × Bool) → Option (List Token)
  | .text, [] => some []
  | _, [] => none
  | .text, (c, escaped) :: rest =>
    if escaped then (readTags .text rest).map (.ch c :: ·)
    else if c = '<' then readTags (.tag []) rest
    else if c = '>' then none
    else (readTags .text rest).map (.ch c :: ·)
  | .tag name, (c, escaped) :: rest =>
    if escaped then none
    else if c = '>' then (tagNamed name).bind fun t => (readTags .text rest).map (t :: ·)
    else if c = '"' ∧ name = ['a', ' ', 'h', 'r', 'e', 'f', '='] then
      (readTags .target rest).map (.href :: ·)
    else readTags (.tag (name ++ [c])) rest
  | .target, (c, escaped) :: rest =>
    if escaped then (readTags .target rest).map (.ch c :: ·)
    else if c = '"' then readTags .quote rest
    else if c = '<' ∨ c = '>' then none
    else (readTags .target rest).map (.ch c :: ·)
  | .quote, (c, escaped) :: rest =>
    if c = '>' ∧ escaped = false then (readTags .text rest).map (.hrefEnd :: ·) else none

def readHtml (html : List Char) : Option (List Token) :=
  (readEntities none html).bind (readTags .text)

end Reader

def inside : Option Element → Element → Bool
  | some .code, _ => false
  | some .pre, e => e = .code
  | _, _ => true

def Token.tag : Token → Option (Tag Element)
  | .opening e => some (.opening e)
  | .closing e => some (.closing e)
  | .href => some (.opening .a)
  | _ => none

def tags (tokens : List Token) : List (Tag Element) := tokens.filterMap Token.tag

def Token.char : Token → Option Char
  | .ch c => some c
  | _ => none

def chars (tokens : List Token) : List Char := tokens.filterMap Token.char

/-- The tokens are properly nested; each special character of the text is among their characters,
and what code contains is a piece of the text. -/
structure Shows (text : List Char) (tokens : List Token) : Prop where
  nested : read inside [] (tags tokens) = some []
  escaped : ∀ c, isSpecial c = true → (chars tokens).count c = text.count c
  code : ∀ e content, e = .code ∨ e = .pre →
    .opening e :: content.map .ch ++ [.closing e] <:+: tokens → content <:+: text

/-- What is written for a text is well formed. -/
def WellFormed (text html : List Char) : Prop :=
  ∃ tokens, readHtml html = some tokens ∧ Shows text tokens

def Quoted : Bool → List Token → Prop
  | false, [] => True
  | true, [] => False
  | false, .href :: tokens => Quoted true tokens
  | false, .hrefEnd :: _ => False
  | false, _ :: tokens => Quoted false tokens
  | true, .ch c :: tokens => c ≠ '"' ∧ Quoted true tokens
  | true, .hrefEnd :: tokens => Quoted false tokens
  | true, _ :: _ => False

section Written

def Token.symbols : Token → List (Char × Bool)
  | .ch c => [(c, isSpecial c)]
  | t => t.html.map fun c => (c, false)

theorem readEntities_plain {plain : List Char} (h : ∀ c ∈ plain, c ≠ '&') (html : List Char) :
    readEntities none (plain ++ html) =
      (readEntities none html).map ((plain.map fun c => (c, false)) ++ ·) := by
  induction plain with
  | nil => exact Option.map_id'.symm
  | cons c plain ih =>
    obtain ⟨hc, hplain⟩ := List.forall_mem_cons.mp h
    rw [List.cons_append, readEntities, if_neg hc, ih hplain, Option.map_map]
    rfl

theorem readEntities_escapeChar (c : Char) (html : List Char) :
    readEntities none (escapeChar c ++ html) =
      (readEntities none html).map ((c, isSpecial c) :: ·) := by
  by_cases hamp : c = '&'
  · subst hamp
    rfl
  by_cases hlt : c = '<'
  · subst hlt
    rfl
  by_cases hgt : c = '>'
  · subst hgt
    rfl
  simp [escapeChar, isSpecial, readEntities, hamp, hlt, hgt]

theorem readEntities_html (t : Token) (html : List Char) :
    readEntities none (t.html ++ html) = (readEntities none html).map (t.symbols ++ ·) := by
  cases t with
  | ch c => exact readEntities_escapeChar c html
  | opening e | closing e => exact readEntities_plain (by cases e <;> decide) html
  | href => exact readEntities_plain (by decide) html
  | hrefEnd => exact readEntities_plain (by decide) html

theorem readEntities_tokens (tokens : List Token) :
    readEntities none (tokens.flatMap Token.html) = some (tokens.flatMap Token.symbols) := by
  induction tokens with
  | nil => rfl
  | cons t tokens ih =>
    rw [List.flatMap_cons, readEntities_html, ih]
    rfl

/-- Outside of targets a token is read as it was written. -/
theorem readTags_token {t : Token} (ht : t ≠ .href) (ht' : t ≠ .hrefEnd)
    (rest : List (Char × Bool)) :
    readTags .text (t.symbols ++ rest) = (readTags .text rest).map (t :: ·) := by
  cases t with
  | ch c =>
    cases hc : isSpecial c with
    | true => simp [Token.symbols, readTags, hc]
    | false =>
      obtain ⟨hlt, hgt⟩ : c ≠ '<' ∧ c ≠ '>' := by
        constructor <;> rintro rfl <;> cases hc
      simp [Token.symbols, readTags, hc, hlt, hgt]
  | opening e => cases e <;> rfl
  | closing e => cases e <;> rfl
  | href => exact absurd rfl ht
  | hrefEnd => exact absurd rfl ht'

theorem readTags_target {c : Char} (hc : c ≠ '"') (rest : List (Char × Bool)) :
    readTags .target ((Token.ch c).symbols ++ rest) = (readTags .target rest).map (.ch c :: ·) := by
  cases hspecial : isSpecial c with
  | true => simp [Token.symbols, readTags, hspecial]
  | false =>
    obtain ⟨hlt, hgt⟩ : c ≠ '<' ∧ c ≠ '>' := by
      constructor <;> rintro rfl <;> cases hspecial
    simp [Token.symbols, readTags, hspecial, hc, hlt, hgt]

variable {tokens : List Token}

theorem readTags_tokens {target : Bool} (h : Quoted target tokens) :
    readTags (if target then .target else .text) (tokens.flatMap Token.symbols) = some tokens := by
  induction tokens generalizing target with
  | nil =>
    cases target with
    | true => exact h.elim
    | false => rfl
  | cons t tokens ih =>
    rw [List.flatMap_cons]
    cases target with
    | true =>
      cases t with
      | ch c => exact (readTags_target h.1 _).trans (congrArg _ (@ih true h.2))
      | hrefEnd => exact congrArg (Option.map _) (@ih false h)
      | _ => exact h.elim
    | false =>
      cases t with
      | href => exact congrArg (Option.map _) (@ih true h)
      | hrefEnd => exact h.elim
      | _ =>
        refine (readTags_token (by simp) (by simp) _).trans ?_
        exact congrArg (Option.map _) (@ih false h)

theorem readHtml_html (h : Quoted false tokens) :
    readHtml (tokens.flatMap Token.html) = some tokens := by
  rw [readHtml, readEntities_tokens]
  exact readTags_tokens h

end Written

end AionCore.Channel.Html
