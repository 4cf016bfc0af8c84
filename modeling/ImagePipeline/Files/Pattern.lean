import ImagePipeline.Decimal.Numeral
import ImagePipeline.Text.Pieces

/-!
# Patterns for paths

A pattern is a path in which a name may contain wildcards: `?` for one character, `*` for any
number of them, `[...]` and `[!...]` for a character in or out of a class. The name `**` stands
for any number of directories. A leading dot is a character like any other.

* `PatternToken.read` and `matchName` are the two halves of the language of names.
* `PathPattern.read` checks the pattern as a whole before its names, so a class that holds a slash
  is refused as unclosed.
-/

namespace ImagePipeline.Files

/-- What is wrong with a pattern. -/
inductive PatternFault where
  /-- Three stars or more. -/
  | wildcards
  /-- Two stars beside something else in one name. -/
  | recursive
  /-- A class that is not closed. -/
  | range
deriving DecidableEq, Repr

/-- The text of a fault. -/
def PatternFault.text : PatternFault → String
  | wildcards => "wildcards are either regular `*` or recursive `**`"
  | recursive => "recursive wildcards must form a single path component"
  | range => "invalid range pattern"

/-- Why a text is no pattern. -/
structure PatternError where
  /-- What is wrong. -/
  fault : PatternFault
  /-- The characters before it. -/
  position : Nat
deriving DecidableEq, Repr

/-- The text of an error. -/
def PatternError.message (e : PatternError) : String :=
  "Pattern syntax error near position " ++ Decimal.natText e.position ++ ": " ++ e.fault.text

/-- A piece of a pattern. -/
inductive PatternToken where
  | char (c : Char)
  /-- One character. -/
  | any
  /-- Any number of characters. -/
  | sequence
  /-- Any number of directories. -/
  | directories
  /-- A character in one of the ranges, or in none of them. -/
  | within (negated : Bool) (ranges : List (Char × Char))
deriving DecidableEq, Repr

namespace PatternToken

/-- The ranges of a class: `a-z` is one, and so is every other character by itself. -/
def ranges : List Char → List (Char × Char)
  | a :: '-' :: b :: rest => (a, b) :: ranges rest
  | a :: rest => (a, a) :: ranges rest
  | [] => []

/-- Whether a token stands for a single character. -/
def accepts (c : Char) : PatternToken → Bool
  | char d => c = d
  | any => true
  | within negated ranges => ranges.any (fun (a, b) => a ≤ c && c ≤ b) != negated
  | sequence | directories => false

/-- The class after an opening bracket and what follows the closing one. The first character of
a class is in it even if it is a closing bracket. -/
def readClass (cs : List Char) :
    Option (PatternToken × { rest : List Char // rest.length < cs.length }) :=
  match cs with
  | '!' :: first :: more =>
    match h : Text.cutChars ']' more with
    | some (inner, rest) =>
      some (within true (ranges (first :: inner)), ⟨rest, by
        have := (Text.cutChars_eq_some_iff.1 h).1
        subst this
        simp only [List.length_cons, List.length_append]
        omega⟩)
    | none => none
  | '!' :: [] => none
  | first :: more =>
    match h : Text.cutChars ']' more with
    | some (inner, rest) =>
      some (within false (ranges (first :: inner)), ⟨rest, by
        have := (Text.cutChars_eq_some_iff.1 h).1
        subst this
        simp only [List.length_cons, List.length_append]
        omega⟩)
    | none => none
  | [] => none

/-- The tokens of a pattern; `position` counts the characters before it, and `inName` tells whether
a name goes on from there. -/
def read (position : Nat) (inName : Bool) (cs : List Char) :
    Except PatternError (List PatternToken) :=
  match cs with
  | [] => .ok []
  | '?' :: rest => (any :: ·) <$> read (position + 1) true rest
  | '*' :: '*' :: '*' :: _ => .error ⟨.wildcards, position + 2⟩
  | '*' :: '*' :: rest =>
    if inName then .error ⟨.recursive, position - 1⟩
    else
      match rest with
      | [] => .ok [directories]
      | '/' :: rest => (directories :: ·) <$> read (position + 3) false rest
      | _ :: _ => .error ⟨.recursive, position + 2⟩
  | '*' :: rest => (sequence :: ·) <$> read (position + 1) true rest
  | '[' :: rest =>
    match readClass rest with
    | some (token, ⟨after, _⟩) =>
      (token :: ·) <$> read (position + 1 + (rest.length - after.length)) true after
    | none => .error ⟨.range, position⟩
  | c :: rest => (char c :: ·) <$> read (position + 1) (c != '/') rest
termination_by cs.length

/-- Whether tokens match a name. -/
def matchName : List PatternToken → List Char → Bool
  | [], cs => cs.isEmpty
  | sequence :: ts, [] => matchName ts []
  | sequence :: ts, c :: cs => matchName ts (c :: cs) || matchName (sequence :: ts) cs
  | directories :: _, _ => false
  | t :: ts, c :: cs => t.accepts c && matchName ts cs
  | _ :: _, [] => false
termination_by ts cs => ts.length + cs.length

/-- The name that tokens without wildcards stand for. -/
def literal? (ts : List PatternToken) : Option String :=
  String.ofList <$> ts.mapM fun t =>
    match t with
    | char c => some c
    | _ => none

end PatternToken

/-- A name in a pattern. -/
inductive NamePattern where
  /-- The name itself. -/
  | literal (name : String)
  /-- The names that tokens match. -/
  | wild (tokens : List PatternToken)
  /-- Any number of names. -/
  | directories
deriving DecidableEq, Repr

namespace NamePattern

/-- Reads the pattern of a name. -/
def read (name : String) : Except PatternError NamePattern := do
  let tokens ← PatternToken.read 0 false name.toList
  return match PatternToken.literal? tokens with
    | some name => literal name
    | none => if tokens = [.directories] then directories else wild tokens

/-- Whether a pattern matches a name. -/
def accepts (name : String) : NamePattern → Bool
  | literal text => name = text
  | wild tokens => PatternToken.matchName tokens name.toList
  | directories => false

/-- Whether a pattern has a dot for its first character, which alone lets it match the names of
the directory itself and of the one around it. -/
def beginsWithDot : NamePattern → Bool
  | wild (.char '.' :: _) => true
  | _ => false

end NamePattern

/-- A pattern for paths. -/
structure PathPattern where
  /-- Whether the paths lead from the root. -/
  absolute : Bool
  /-- The patterns of the names. -/
  names : List NamePattern
  /-- Whether only directories match, as a slash at the end says. -/
  onlyDirectories : Bool
deriving DecidableEq, Repr

namespace PathPattern

/-- Reads a pattern. -/
def read (pattern : String) : Except PatternError PathPattern := do
  let cs := pattern.toList
  let _ ← PatternToken.read 0 false cs
  let absolute := cs.head? == some '/'
  let pieces := Text.split '/' (String.ofList (if absolute then cs.tail else cs))
  let pieces := if pieces.getLast? = some "" && pieces.length > 1 then pieces.dropLast else pieces
  let names ← pieces.mapM NamePattern.read
  return ⟨absolute, names, cs.getLast? == some '/'⟩

end PathPattern

end ImagePipeline.Files
