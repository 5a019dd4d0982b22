import AionCore.Conversation.StreamRelay
import AionCore.Lib.Patterns

/-!
# Channels: texts for the platforms

`formatter.rs`: what an agent writes, made fit for the platform that shows it. The word characters
of the patterns are those of the regular expressions' library.
-/

namespace AionCore.Channel

open AionCore.Conversation (isWhitespace)
open Patterns

inductive PluginType where
  | telegram
  | lark
  | dingtalk
  | weixin
  | wecom
  | slack
  | discord
  deriving DecidableEq

namespace Formatter

def group (first last : ℕ) (segments : List (List Char)) : List Char :=
  ((segments.take (last + 1)).drop first).flatten

def any (_ : Char) : Bool := true

def except (c : Char) (d : Char) : Bool := d ≠ c

def isDigit (c : Char) : Bool := '0' ≤ c && c ≤ '9'

def isHexDigit (c : Char) : Bool :=
  isDigit c || ('a' ≤ c && c ≤ 'f') || ('A' ≤ c && c ≤ 'F')

def lit (text : String) : List (Piece Char) := literal text.toList

def replace (old new : String) (text : List Char) : List Char :=
  replaceAll (matchPieces (lit old)) (fun _ => new.toList) text

variable (isWord : Char → Bool)

def reCodeBlock : List (Piece Char) :=
  lit "```" ++ .many false isWord :: .opt (· = '\n') :: .many true any :: lit "```"

def reInlineCode : List (Piece Char) := lit "`" ++ .many₁ false (except '`') :: lit "`"

def reBoldStar : List (Piece Char) := lit "**" ++ .many₁ true (except '\n') :: lit "**"

def reBoldUnder : List (Piece Char) := lit "__" ++ .many₁ true (except '\n') :: lit "__"

def reItalicStar : List (Piece Char) := lit "*" ++ .many₁ true (except '\n') :: lit "*"

def reItalicUnder : List (Piece Char) := lit "_" ++ .many₁ true (except '\n') :: lit "_"

def reLink : List (Piece Char) :=
  lit "[" ++ .many₁ false (except ']') :: lit "](" ++ .many₁ false (except ')') :: lit ")"

def escapeHtml (text : List Char) : List Char :=
  replace ">" "&gt;" (replace "<" "&lt;" (replace "&" "&amp;" text))

def wrap (opening closing : String) (n : ℕ) (segments : List (List Char)) : List Char :=
  opening.toList ++ group n n segments ++ closing.toList

def linkTag (segments : List (List Char)) : List Char :=
  "<a href=\"".toList ++ group 4 4 segments ++ "\">".toList ++ group 1 1 segments ++ "</a>".toList

def markdownToTelegramHtml (text : List Char) : List Char :=
  let s := escapeHtml text
  let s := replaceAll (matchPieces (reCodeBlock isWord)) (wrap "<pre><code>" "</code></pre>" 5) s
  let s := replaceAll (matchPieces reInlineCode) (wrap "<code>" "</code>" 1) s
  let s := replaceAll (matchPieces reBoldStar) (wrap "<b>" "</b>" 2) s
  let s := replaceAll (matchPieces reBoldUnder) (wrap "<b>" "</b>" 2) s
  let s := replaceAll (matchPieces reItalicStar) (wrap "<i>" "</i>" 1) s
  let s := replaceAll (matchPieces reItalicUnder) (wrap "<i>" "</i>" 1) s
  replaceAll (matchPieces reLink) linkTag s

def rePreCode : List (Piece Char) :=
  lit "<pre><code" ++ .many false (except '>') :: lit ">" ++ .many true any :: lit "</code></pre>"

def reHtmlCode : List (Piece Char) := lit "<code>" ++ .many₁ false (except '<') :: lit "</code>"

def reElement (tag : String) : List (Piece Char) :=
  lit ("<" ++ tag ++ ">") ++ .many true any :: lit ("</" ++ tag ++ ">")

def reHtmlSafeLink (scheme : List (Piece Char)) : List (Piece Char) :=
  lit "<a" ++ .many₁ false isWhitespace :: lit "href=\"" ++ scheme ++
    .many false (except '"') :: lit "\"" ++ .many false (except '>') :: lit ">" ++
      .many false (except '<') :: lit "</a>"

def schemes : List (List (Piece Char)) :=
  [lit "http" ++ .opt (· = 's') :: lit "://", lit "mailto:", lit "/"]

def reHtmlTag : List (Piece Char) := lit "<" ++ .many₁ false (except '>') :: lit ">"

def firstMatch (patterns : List (List (Piece Char))) (text : List Char) :
    Option (Match Char) :=
  patterns.findSome? fun pattern => matchPieces pattern text

def digits (base : ℕ) (text : List Char) : ℕ :=
  text.foldl (fun n c => base * n + (if isDigit c then c.toNat - '0'.toNat
    else if c.toNat < 'a'.toNat then c.toNat - 'A'.toNat + 10 else c.toNat - 'a'.toNat + 10)) 0

def decodeNumber (base n : ℕ) (segments : List (List Char)) : List Char :=
  let n := digits base (group n n segments)
  if n.isValidChar then [Char.ofNat n] else segments.flatten

def decodeSafeEntities (text : List Char) : List Char :=
  let s := replace "&quot;" "\"" text
  let s := replace "&#39;" "'" s
  let s := replace "&apos;" "'" s
  let s := replaceAll (matchPieces (lit "&#x" ++ .many₁ false isHexDigit :: lit ";"))
    (decodeNumber 16 3) s
  replaceAll (matchPieces (lit "&#" ++ .many₁ false isDigit :: lit ";")) (decodeNumber 10 2) s

/-- Strips until nothing changes; every turn but the last shortens the text. -/
def stripTagsFrom : ℕ → List Char → List Char
  | 0, text => text
  | n + 1, text =>
    let stripped := replaceAll (matchPieces reHtmlTag) (fun _ => []) text
    if stripped = text then text else stripTagsFrom n stripped

def stripTagsLoop (text : List Char) : List Char := stripTagsFrom (text.length + 1) text

/-- The segments of a link's target, and those of its text; a target that begins with `scheme` has
that many segments more. -/
def linkMarkdown (segments : List (List Char)) : List Char :=
  let n := segments.length
  "[".toList ++ group (n - 5) (n - 5) segments ++ "](".toList ++ group 9 (n - 9) segments ++
    ")".toList

def htmlToMarkdown (text : List Char) : List Char :=
  let s := decodeSafeEntities text
  let s := replaceAll (matchPieces rePreCode)
    (fun segments => "```\n".toList ++ group 12 12 segments ++ "```".toList) s
  let s := replaceAll (matchPieces reHtmlCode) (wrap "`" "`" 6) s
  let s := replaceAll (matchPieces (reElement "b")) (wrap "**" "**" 3) s
  let s := replaceAll (matchPieces (reElement "strong")) (wrap "**" "**" 8) s
  let s := replaceAll (matchPieces (reElement "i")) (wrap "*" "*" 3) s
  let s := replaceAll (matchPieces (reElement "em")) (wrap "*" "*" 4) s
  let s := replaceAll (firstMatch (schemes.map reHtmlSafeLink)) linkMarkdown s
  stripTagsLoop s

def decodeAllEntities (text : List Char) : List Char :=
  replace "&nbsp;" " " (replace "&gt;" ">" (replace "&lt;" "<" (replace "&amp;" "&"
    (decodeSafeEntities text))))

def stripHtml (text : List Char) : List Char :=
  (decodeAllEntities (stripTagsLoop text)).filter fun c => c ≠ '<' && c ≠ '>'

end Formatter

open Formatter in
def formatTextForPlatform (isWord : Char → Bool) (text : String) (platform : PluginType) : String :=
  String.ofList <|
    match platform with
    | .telegram => markdownToTelegramHtml isWord text.toList
    | .lark | .dingtalk => htmlToMarkdown text.toList
    | .weixin | .wecom => stripHtml text.toList
    | _ => escapeHtml text.toList

end AionCore.Channel
