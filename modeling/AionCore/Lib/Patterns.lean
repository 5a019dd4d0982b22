import Mathlib.Data.List.Basic

/-!
# Patterns

Regular expressions as sequences of pieces: one letter of a class, perhaps one, or as many as there
are, at least one or not, the most or the fewest first. A match is searched by backtracking and
gives what each piece has taken; what matches is replaced from left to right.
-/

namespace Patterns

variable {α : Type*}

inductive Piece (α : Type*) where
  | one (p : α → Bool)
  | opt (p : α → Bool)
  | many (lazy : Bool) (p : α → Bool)
  | many₁ (lazy : Bool) (p : α → Bool)

abbrev Match (α : Type*) := List (List α) × List α

namespace Match

def push (c : α) : Match α → Match α
  | (taken :: segments, rest) => ((c :: taken) :: segments, rest)
  | ([], rest) => ([[c]], rest)

def add (taken : List α) (m : Match α) : Match α := (taken :: m.1, m.2)

end Match

def matchMany (lazy : Bool) (p : α → Bool) (k : List α → Option (Match α)) :
    List α → Option (Match α)
  | [] => (k []).map (Match.add [])
  | c :: text =>
    let stop := (k (c :: text)).map (Match.add [])
    let more := if p c then (matchMany lazy p k text).map (Match.push c) else none
    if lazy then stop.or more else more.or stop

def matchPieces : List (Piece α) → List α → Option (Match α)
  | [], text => some ([], text)
  | .one p :: pieces, text =>
    match text with
    | c :: rest => if p c then (matchPieces pieces rest).map (Match.add [c]) else none
    | [] => none
  | .opt p :: pieces, text =>
    match text with
    | c :: rest =>
      (if p c then (matchPieces pieces rest).map (Match.add [c]) else none).or
        ((matchPieces pieces text).map (Match.add []))
    | [] => (matchPieces pieces text).map (Match.add [])
  | .many lazy p :: pieces, text => matchMany lazy p (matchPieces pieces) text
  | .many₁ lazy p :: pieces, text =>
    match text with
    | c :: rest =>
      if p c then (matchMany lazy p (matchPieces pieces) rest).map (Match.push c) else none
    | [] => none

def literal [DecidableEq α] (text : List α) : List (Piece α) :=
  text.map fun c => .one fun d => d = c

def replaceFrom (find : List α → Option (Match α)) (replacement : List (List α) → List α) :
    ℕ → List α → List α
  | 0, text => text
  | _ + 1, [] => []
  | n + 1, c :: text =>
    match find (c :: text) with
    | some (segments, rest) => replacement segments ++ replaceFrom find replacement n rest
    | none => c :: replaceFrom find replacement n text

def replaceAll (find : List α → Option (Match α)) (replacement : List (List α) → List α)
    (text : List α) : List α :=
  replaceFrom find replacement text.length text

end Patterns
