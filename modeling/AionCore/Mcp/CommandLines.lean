import AionCore.Conversation.StreamRelay
import AionCore.Mcp.TransportFormats

/-!
# MCP: the command line of a stdio server

`normalize_transport` of `service.rs` on a command line that a user has put into the command of a
stdio server, against the words that a shell would read in it.
-/

namespace AionCore.Mcp

open AionCore.Conversation (trim)

def SPLITTABLE_STDIO_LAUNCHERS : List String :=
  ["npx", "pnpx", "bunx", "uvx", "uv", "node", "python", "python3", "deno"]

def pushToken (tokens : List String) (current : List Char) : List String :=
  if current = [] then tokens else tokens ++ [String.ofList current]

/-- Where the loop of `shell_split` stands; `escaped` is set once it has read a backslash whose
`chars.next()` is still to come. -/
structure SplitState where
  quote : Option Char
  escaped : Bool
  current : List Char
  tokens : List String

def SplitState.step (s : SplitState) (ch : Char) : SplitState :=
  if s.escaped then { s with escaped := false, current := s.current ++ [ch] }
  else
    match s.quote with
    | some active =>
      if ch = active then { s with quote := none }
      else if ch = '\\' ∧ active = '"' then { s with escaped := true }
      else { s with current := s.current ++ [ch] }
    | none =>
      if ch = '"' ∨ ch = '\'' then { s with quote := some ch }
      else if ch = '\\' then { s with escaped := true }
      else if Conversation.isWhitespace ch then
        { s with current := [], tokens := pushToken s.tokens s.current }
      else { s with current := s.current ++ [ch] }

def shellSplit (input : String) : Except String (List String) :=
  let s := input.toList.foldl SplitState.step ⟨none, false, [], []⟩
  if s.quote.isSome then .error "Unterminated quoted command string"
  else .ok (pushToken s.tokens s.current)

def isQuote (c : Char) : Bool := c = '"' ∨ c = '\''

/-- The first token of `split_whitespace`, without the quotes at its ends. -/
def firstToken (trimmed : String) : String :=
  let token := trimmed.toList.takeWhile (!Conversation.isWhitespace ·)
  String.ofList ((token.dropWhile isQuote).reverse.dropWhile isQuote).reverse

/-- The command line is taken apart. -/
def Splittable (command : String) : Prop :=
  (trim command).toList.any Conversation.isWhitespace ∧
    firstToken (trim command) ∈ SPLITTABLE_STDIO_LAUNCHERS

instance (command : String) : Decidable (Splittable command) := by
  unfold Splittable
  infer_instance

def ofTokens : Except String (List String) → Except TransportError (Option (String × List String))
  | .error message => .error (.invalidTransport message)
  | .ok (command :: arg :: args) => .ok (some (command, arg :: args))
  | .ok _ => .ok none

def splitStdioCommand (command : String) :
    Except TransportError (Option (String × List String)) :=
  let trimmed := trim command
  if trimmed = "" ∨ !trimmed.toList.any Conversation.isWhitespace then .ok none
  else if firstToken trimmed ∉ SPLITTABLE_STDIO_LAUNCHERS then .ok none
  else ofTokens (shellSplit trimmed)

def normalizeTransport : McpServerTransport → Except TransportError McpServerTransport
  | .stdio command [] env =>
    match splitStdioCommand command with
    | .error e => .error e
    | .ok none => .ok (.stdio command [] env)
    | .ok (some (command, args)) => .ok (.stdio command args env)
  | transport => .ok transport

/-- A character without a meaning of its own to a shell. -/
def isPlain (c : Char) : Bool := !Conversation.isWhitespace c ∧ c ∉ "\"'\\$`|&;<>()*?[#~".toList

/-- A piece of a word: without quotes, or in one of the two kinds of quotes. -/
inductive WordPiece where
  | bare (text : List Char)
  | single (text : List Char)
  | double (text : List Char)

namespace WordPiece

/-- What a backslash keeps from its meaning within double quotes. -/
def escape (text : List Char) : List Char :=
  text.flatMap fun c => if c ∈ ['"', '\\', '$', '`'] then ['\\', c] else [c]

def text : WordPiece → List Char
  | bare text => text
  | single text => '\'' :: text ++ ['\'']
  | double text => '"' :: escape text ++ ['"']

def value : WordPiece → List Char
  | bare text | single text | double text => text

/-- The text of the piece is one that a shell reads as its value. -/
def WellFormed : WordPiece → Prop
  | bare text => text ≠ [] ∧ ∀ c ∈ text, isPlain c
  | single text => '\'' ∉ text
  | double _ => True

end WordPiece

/-- A word on a command line: its pieces, next to one another. -/
structure ShellWord where
  pieces : List WordPiece
  nonempty : pieces ≠ []
  wellFormed : ∀ piece ∈ pieces, piece.WellFormed

namespace ShellWord

def text (word : ShellWord) : List Char := word.pieces.flatMap WordPiece.text

def value (word : ShellWord) : String := String.ofList (word.pieces.flatMap WordPiece.value)

end ShellWord

/-- The words with a blank between two of them. -/
def commandLine (word : ShellWord) (words : List ShellWord) : String :=
  String.ofList (word.text ++ words.flatMap fun word => ' ' :: word.text)

/-- The quote is not closed by this text. -/
inductive Unclosed (quote : Char) : List Char → Prop where
  | nil : Unclosed quote []
  | backslash (h : quote = '"') : Unclosed quote ['\\']
  | escaped {c : Char} {body : List Char} (h : quote = '"') (rest : Unclosed quote body) :
      Unclosed quote ('\\' :: c :: body)
  | char {c : Char} {body : List Char} (h : c ≠ quote) (hplain : c = '\\' → quote ≠ '"')
      (rest : Unclosed quote body) : Unclosed quote (c :: body)

def leadingWords (words : List ShellWord) : List Char :=
  words.flatMap fun word => word.text ++ [' ']

/-- A line whose last word has a quote that is not closed. -/
structure OpenLine where
  words : List ShellWord
  pieces : List WordPiece
  wellFormed : ∀ piece ∈ pieces, piece.WellFormed
  quote : Char
  isQuote : isQuote quote
  body : List Char
  unclosed : Unclosed quote body

def OpenLine.text (line : OpenLine) : String :=
  String.ofList (leadingWords line.words ++ line.pieces.flatMap WordPiece.text ++
    line.quote :: line.body)

/-- The command line becomes the command and the arguments that it was written for. -/
def SplitsRight (word : ShellWord) (words : List ShellWord) (env : TextMap) : Prop :=
  normalizeTransport (.stdio (commandLine word words) [] env) =
    .ok (.stdio word.value (words.map ShellWord.value) env)

/-- How a command line has to be written for it. -/
def WellWritten (word : ShellWord) (words : List ShellWord) : Prop :=
  if words = [] then commandLine word [] = word.value
  else Splittable (commandLine word words) ∧ ∀ arg ∈ words, arg.value ≠ ""

variable {word : ShellWord} {words : List ShellWord} {pieces : List WordPiece}
  {current text rest : List Char} {tokens : List String} {quote : Char}

open SplitState

theorem read_chars {active : Option Char} (h : ∀ c ∈ text, ∀ current,
    step ⟨active, false, current, tokens⟩ c = ⟨active, false, current ++ [c], tokens⟩) :
    text.foldl step ⟨active, false, current, tokens⟩ =
      ⟨active, false, current ++ text, tokens⟩ := by
  induction text generalizing current with
  | nil => simp
  | cons c text ih =>
    rw [List.foldl_cons, h c List.mem_cons_self, ih fun c hc => h c (List.mem_cons_of_mem _ hc),
      List.append_assoc, List.singleton_append]

theorem blank_of_plain {c : Char} (h : isPlain c) : Conversation.isWhitespace c = false := by
  simp only [isPlain, decide_eq_true_eq] at h
  simpa using h.1

theorem step_plain {c : Char} (h : isPlain c) :
    step ⟨none, false, current, tokens⟩ c = ⟨none, false, current ++ [c], tokens⟩ := by
  have hblank := blank_of_plain h
  simp only [isPlain, decide_eq_true_eq] at h
  have hquote : ¬(c = '"' ∨ c = '\'') := fun hq => h.2 (by rcases hq with rfl | rfl <;> decide)
  have hslash : c ≠ '\\' := fun hs => h.2 (by subst hs; decide)
  simp [step, hquote, hslash, hblank]

theorem step_single {c : Char} (h : c ≠ '\'') :
    step ⟨some '\'', false, current, tokens⟩ c = ⟨some '\'', false, current ++ [c], tokens⟩ := by
  simp [step, h]

theorem read_double :
    (WordPiece.escape text).foldl step ⟨some '"', false, current, tokens⟩ =
      ⟨some '"', false, current ++ text, tokens⟩ := by
  induction text generalizing current with
  | nil => simp [WordPiece.escape]
  | cons c text ih =>
    have hstep : (if c ∈ ['"', '\\', '$', '`'] then ['\\', c] else [c]).foldl step
        ⟨some '"', false, current, tokens⟩ = ⟨some '"', false, current ++ [c], tokens⟩ := by
      split
      · simp [step]
      · rename_i hc
        simp only [List.mem_cons, not_or] at hc
        simp [step, hc]
    rw [WordPiece.escape, List.flatMap_cons, List.foldl_append, hstep]
    exact ih.trans (by rw [List.append_assoc, List.singleton_append])

/-- A word is read as its value. -/
theorem read_pieces (h : ∀ piece ∈ pieces, piece.WellFormed) :
    (pieces.flatMap WordPiece.text).foldl step ⟨none, false, current, tokens⟩ =
      ⟨none, false, current ++ pieces.flatMap WordPiece.value, tokens⟩ := by
  induction pieces generalizing current with
  | nil => simp
  | cons piece pieces ih =>
    have hpiece := h piece List.mem_cons_self
    have hstep : piece.text.foldl step ⟨none, false, current, tokens⟩ =
        ⟨none, false, current ++ piece.value, tokens⟩ := by
      cases piece with
      | bare text => exact read_chars fun c hc _ => step_plain (hpiece.2 c hc)
      | single text =>
        have hread := @read_chars current text tokens (some '\'') fun c hc _ =>
          step_single (ne_of_mem_of_not_mem hc hpiece)
        rw [WordPiece.text, List.foldl_append, List.foldl_cons]
        simp [step, hread, WordPiece.value]
      | double text =>
        rw [WordPiece.text, List.foldl_append, List.foldl_cons]
        simp [step, read_double, WordPiece.value]
    rw [List.flatMap_cons, List.foldl_append, hstep,
      ih fun p hp => h p (List.mem_cons_of_mem _ hp), List.append_assoc, List.flatMap_cons]

/-- The values that are not empty. -/
def kept (words : List ShellWord) : List String := (words.map ShellWord.value).filter (· ≠ "")

theorem pushToken_value :
    pushToken tokens (word.pieces.flatMap WordPiece.value) = tokens ++ kept [word] := by
  unfold pushToken kept ShellWord.value
  by_cases h : word.pieces.flatMap WordPiece.value = []
  · simp [h]
  · simp [h, String.ofList_eq_empty_iff]

theorem kept_cons (word : ShellWord) (words : List ShellWord) :
    kept (word :: words) = kept [word] ++ kept words := by
  unfold kept
  rw [← List.filter_append, ← List.map_append, List.singleton_append]

theorem read_words :
    (leadingWords words).foldl step ⟨none, false, [], tokens⟩ =
      ⟨none, false, [], tokens ++ kept words⟩ := by
  induction words generalizing tokens with
  | nil => simp [leadingWords, kept]
  | cons word words ih =>
    have hword : word.text.foldl step ⟨none, false, [], tokens⟩ =
        ⟨none, false, word.pieces.flatMap WordPiece.value, tokens⟩ := read_pieces word.wellFormed
    have hblank : step ⟨none, false, word.pieces.flatMap WordPiece.value, tokens⟩ ' ' =
        ⟨none, false, [], tokens ++ kept [word]⟩ := by
      rw [← pushToken_value]
      rfl
    rw [leadingWords, List.flatMap_cons, List.foldl_append, List.foldl_append, hword,
      List.foldl_cons, List.foldl_nil, hblank]
    exact ih.trans (by rw [kept_cons word words, List.append_assoc])

theorem read_unclosed (h : Unclosed quote text) :
    (text.foldl step ⟨some quote, false, current, tokens⟩).quote = some quote := by
  induction h generalizing current with
  | nil => rfl
  | backslash h => simp [step, h]
  | escaped h rest ih => simpa [step, h] using ih
  | @char c _ h hplain rest ih =>
    have hc : ¬(c = '\\' ∧ quote = '"') := fun hc => hplain hc.1 hc.2
    simpa [step, h, hc] using ih

theorem Unclosed.of_isPrefix (h : Unclosed quote text) (hr : rest <+: text) :
    Unclosed quote rest := by
  induction h generalizing rest with
  | nil =>
    rw [List.prefix_nil.mp hr]
    exact .nil
  | backslash h =>
    obtain rfl | ⟨left, rfl, hleft⟩ := List.prefix_cons_iff.mp hr
    · exact .nil
    · rw [List.prefix_nil.mp hleft]
      exact .backslash h
  | escaped h _ ih =>
    obtain rfl | ⟨left, rfl, hleft⟩ := List.prefix_cons_iff.mp hr
    · exact .nil
    obtain rfl | ⟨left', rfl, hleft'⟩ := List.prefix_cons_iff.mp hleft
    · exact .backslash h
    · exact .escaped h (ih hleft')
  | char h hplain _ ih =>
    obtain rfl | ⟨left, rfl, hleft⟩ := List.prefix_cons_iff.mp hr
    · exact .nil
    · exact .char h hplain (ih hleft)

/-- Neither the first character nor the last one is a blank. -/
theorem WordPiece.WellFormed.ends {piece : WordPiece} (h : piece.WellFormed) :
    (∀ c ∈ piece.text.head?, Conversation.isWhitespace c = false) ∧
      ∃ before last, piece.text = before ++ [last] ∧ Conversation.isWhitespace last = false := by
  cases piece with
  | bare text =>
    exact ⟨fun c hc => blank_of_plain (h.2 c (List.mem_of_mem_head? hc)), text.dropLast,
      text.getLast h.1, (List.dropLast_append_getLast h.1).symm,
      blank_of_plain (h.2 _ (List.getLast_mem h.1))⟩
  | single text =>
    exact ⟨by simp [WordPiece.text, Conversation.isWhitespace], '\'' :: text, '\'', rfl, rfl⟩
  | double text =>
    exact ⟨by simp [WordPiece.text, Conversation.isWhitespace], '"' :: escape text, '"', rfl, rfl⟩

/-- `trim` takes blanks off the end only. -/
theorem trim_line (before : List Char) {last : Char}
    (hlast : Conversation.isWhitespace last = false)
    (hfirst : ∀ c ∈ (before ++ last :: text).head?, Conversation.isWhitespace c = false) :
    ∃ body, body <+: text ∧
      trim (String.ofList (before ++ last :: text)) = String.ofList (before ++ last :: body) := by
  have hstart : (before ++ last :: text).dropWhile Conversation.isWhitespace =
      before ++ last :: text := by
    cases before <;> simp_all
  have hend : (last :: before.reverse).dropWhile Conversation.isWhitespace =
      last :: before.reverse := by
    simp [hlast]
  refine ⟨(text.reverse.dropWhile Conversation.isWhitespace).reverse, ?_, ?_⟩
  · rw [← List.reverse_suffix, List.reverse_reverse]
    exact List.dropWhile_suffix _
  · rw [trim, String.toList_ofList, hstart, List.reverse_append, List.reverse_cons,
      List.append_assoc, List.singleton_append, List.dropWhile_append, hend]
    congr 1
    split
    · rename_i hempty
      simp [List.isEmpty_iff.mp hempty]
    · simp

theorem flatMap_head {α : Type} {l : List α} {f : α → List Char}
    (h : ∀ a ∈ l, f a ≠ [] ∧ ∀ c ∈ (f a).head?, Conversation.isWhitespace c = false)
    (hrest : ∀ c ∈ rest.head?, Conversation.isWhitespace c = false) :
    ∀ c ∈ (l.flatMap f ++ rest).head?, Conversation.isWhitespace c = false := by
  cases l with
  | nil => exact hrest
  | cons a l =>
    obtain ⟨hne, hfirst⟩ := h a List.mem_cons_self
    rwa [List.flatMap_cons, List.append_assoc, List.head?_append_of_ne_nil _ hne]

theorem pieces_head (h : ∀ piece ∈ pieces, piece.WellFormed)
    (hrest : ∀ c ∈ rest.head?, Conversation.isWhitespace c = false) :
    ∀ c ∈ (pieces.flatMap WordPiece.text ++ rest).head?, Conversation.isWhitespace c = false := by
  refine flatMap_head (fun piece hpiece => ?_) hrest
  obtain ⟨hfirst, before, last, htext, -⟩ := (h piece hpiece).ends
  exact ⟨by simp [htext], hfirst⟩

theorem ShellWord.ends (word : ShellWord) :
    (∀ c ∈ word.text.head?, Conversation.isWhitespace c = false) ∧
      ∃ before last, word.text = before ++ [last] ∧ Conversation.isWhitespace last = false := by
  have hfirst := @pieces_head word.pieces [] word.wellFormed (by simp)
  obtain ⟨pieces, piece, hpieces⟩ := (List.eq_nil_or_concat word.pieces).resolve_left word.nonempty
  obtain ⟨-, before, last, htext, hlast⟩ := (word.wellFormed piece (by simp [hpieces])).ends
  rw [List.append_nil] at hfirst
  refine ⟨hfirst, pieces.flatMap WordPiece.text ++ before, last, ?_, hlast⟩
  rw [text, hpieces, List.concat_eq_append, List.flatMap_append, List.flatMap_singleton, htext,
    List.append_assoc]

theorem leadingWords_head (hrest : ∀ c ∈ rest.head?, Conversation.isWhitespace c = false) :
    ∀ c ∈ (leadingWords words ++ rest).head?, Conversation.isWhitespace c = false := by
  refine flatMap_head (fun word _ => ⟨by simp, ?_⟩) hrest
  obtain ⟨hfirst, before, last, hword, -⟩ := word.ends
  rw [hword] at hfirst ⊢
  cases before <;> simpa using hfirst

theorem commandLine_eq (word : ShellWord) (words : List ShellWord) :
    ∃ before last, word :: words = before ++ [last] ∧
      commandLine word words = String.ofList (leadingWords before ++ last.text) := by
  induction words generalizing word with
  | nil => exact ⟨[], word, rfl, by simp [commandLine, leadingWords]⟩
  | cons next words ih =>
    obtain ⟨before, last, hwords, hline⟩ := ih next
    refine ⟨word :: before, last, by rw [hwords, List.cons_append], ?_⟩
    have htext := String.ofList_injective hline
    rw [commandLine, List.flatMap_cons, List.cons_append, htext]
    simp [leadingWords]

/-- A command line is read as its values that are not empty. -/
theorem shellSplit_commandLine :
    shellSplit (trim (commandLine word words)) = .ok (kept (word :: words)) := by
  obtain ⟨before, last, hwords, hline⟩ := commandLine_eq word words
  obtain ⟨hfirst, start, final, hlast, hfinal⟩ := last.ends
  obtain ⟨body, hbody, htrim⟩ := trim_line (leadingWords before ++ start) hfinal
    (by rw [List.append_assoc, ← hlast]; exact leadingWords_head hfirst)
  rw [List.prefix_nil.mp hbody, List.append_assoc, ← hlast, ← hline] at htrim
  have hread : last.text.foldl step ⟨none, false, [], kept before⟩ =
      ⟨none, false, last.pieces.flatMap WordPiece.value, kept before⟩ := read_pieces last.wellFormed
  have hkept : kept (word :: words) = kept before ++ kept [last] := by
    rw [hwords, kept, List.map_append, List.filter_append]
    rfl
  rw [htrim, hline, shellSplit, String.toList_ofList, List.foldl_append, read_words,
    List.nil_append, hread, hkept, ← pushToken_value]
  rfl

theorem shellSplit_openLine (line : OpenLine) :
    shellSplit (trim line.text) = .error "Unterminated quoted command string" := by
  have hquote : line.quote = '"' ∨ line.quote = '\'' := by simpa [isQuote] using line.isQuote
  have hblank : Conversation.isWhitespace line.quote = false := by
    rcases hquote with h | h <;> rw [h] <;> rfl
  have hfirst : ∀ c ∈ (leadingWords line.words ++ (line.pieces.flatMap WordPiece.text ++
      line.quote :: line.body)).head?, Conversation.isWhitespace c = false :=
    leadingWords_head (pieces_head line.wellFormed (by simpa using hblank))
  rw [← List.append_assoc] at hfirst
  obtain ⟨body, hbody, htrim⟩ := trim_line _ hblank hfirst
  rw [OpenLine.text, htrim, shellSplit, String.toList_ofList, List.foldl_append, List.foldl_append,
    read_words, read_pieces line.wellFormed, List.foldl_cons]
  simp [step, hquote, read_unclosed (line.unclosed.of_isPrefix hbody)]

theorem splitStdioCommand_eq (command : String) :
    splitStdioCommand command =
      if Splittable command then ofTokens (shellSplit (trim command)) else .ok none := by
  unfold splitStdioCommand Splittable
  by_cases hblank : (trim command).toList.any Conversation.isWhitespace
  · have hne : trim command ≠ "" := by
      rintro hempty
      simp [hempty] at hblank
    by_cases htoken : firstToken (trim command) ∈ SPLITTABLE_STDIO_LAUNCHERS
    · simp [hblank, hne, htoken]
    · simp [hblank, hne, htoken]
  · simp [hblank]

theorem kept_eq_values : kept words = words.map ShellWord.value ↔ ∀ arg ∈ words, arg.value ≠ "" := by
  rw [kept, List.filter_eq_self]
  simp

theorem splitsRight_iff (hword : word.value ≠ "") (env : TextMap) :
    SplitsRight word words env ↔ WellWritten word words := by
  have hkept : kept (word :: words) = word.value :: kept words := by simp [kept, hword]
  rw [SplitsRight, WellWritten, normalizeTransport, splitStdioCommand_eq, shellSplit_commandLine,
    hkept]
  by_cases hsplit : Splittable (commandLine word words)
  · rw [if_pos hsplit, ← kept_eq_values]
    cases words with
    | nil => simp [kept, ofTokens]
    | cons arg words =>
      cases hargs : kept (arg :: words) with
      | nil => simp [ofTokens]
      | cons first args => simp [ofTokens, hsplit]
  · rw [if_neg hsplit]
    cases words with
    | nil => simp
    | cons arg words => simp [hsplit]

theorem splitStdioCommand_some {command : String} {split : String × List String}
    (h : splitStdioCommand command = .ok (some split)) :
    ∃ first arg args, split = (first, arg :: args) := by
  rw [splitStdioCommand_eq] at h
  split at h
  · rcases hread : shellSplit (trim command) with e | _ | ⟨first, _ | ⟨arg, args⟩⟩ <;>
      simp only [hread, ofTokens] at h <;> cases h
    exact ⟨first, arg, args, rfl⟩
  · cases h

theorem normalizeTransport_idem {transport transport' : McpServerTransport}
    (h : normalizeTransport transport = .ok transport') :
    normalizeTransport transport' = .ok transport' := by
  cases transport with
  | stdio command args env =>
    cases args with
    | nil =>
      rw [normalizeTransport] at h
      cases hsplit : splitStdioCommand command with
      | error e => simp [hsplit] at h
      | ok split =>
        rw [hsplit] at h
        cases split with
        | none =>
          cases h
          rw [normalizeTransport, hsplit]
        | some split =>
          cases h
          obtain ⟨first, arg, args, rfl⟩ := splitStdioCommand_some hsplit
          rfl
    | cons arg args =>
      cases h
      rfl
  | _ =>
    cases h
    rfl

/-- A command line is split right where it is well written, one with an open quote is an error where
it is split at all, and what comes out stays as it is. -/
theorem splits_command_lines (word : ShellWord) (hword : word.value ∈ SPLITTABLE_STDIO_LAUNCHERS)
    (words : List ShellWord) (env : TextMap) :
    (SplitsRight word words env ↔ WellWritten word words) ∧
      (∀ line : OpenLine, (∃ e, normalizeTransport (.stdio line.text [] env) = .error e) ↔
        Splittable line.text) ∧
      ∀ transport transport', normalizeTransport transport = .ok transport' →
        normalizeTransport transport' = .ok transport' := by
  refine ⟨splitsRight_iff ?_ env, fun line => ?_, fun _ _ => normalizeTransport_idem⟩
  · rintro hempty
    rw [hempty] at hword
    exact absurd hword (by decide)
  · rw [normalizeTransport, splitStdioCommand_eq, shellSplit_openLine]
    by_cases hsplit : Splittable line.text
    · simp [hsplit, ofTokens]
    · simp [hsplit]

def npx : ShellWord := ⟨[.bare "npx".toList], by decide, by
  simp only [List.mem_singleton, forall_eq]
  exact ⟨by decide, List.all_eq_true.mp (by decide)⟩⟩

def noText : ShellWord := ⟨[.single []], by decide, by
  simp only [List.mem_singleton, forall_eq]
  exact List.not_mem_nil⟩

theorem splits_command_lines_sample :
    "npx" ∈ SPLITTABLE_STDIO_LAUNCHERS ∧ SplitsRight npx [npx] ∅ :=
  ⟨by decide, (splits_command_lines npx (by decide) [npx] ∅).1.mpr ⟨by decide, by decide⟩⟩

/-- Of `npx npx ''` the empty argument is lost. -/
theorem empty_argument_lost :
    normalizeTransport (.stdio (commandLine npx [npx, noText]) [] ∅) =
        .ok (.stdio "npx" ["npx"] ∅) ∧ ¬SplitsRight npx [npx, noText] ∅ := by
  have hread : normalizeTransport (.stdio (commandLine npx [npx, noText]) [] ∅) =
      .ok (.stdio "npx" ["npx"] ∅) := rfl
  refine ⟨hread, ?_⟩
  rw [SplitsRight, hread]
  simp

end AionCore.Mcp
