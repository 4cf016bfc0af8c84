import ImagePipeline.Text.Pieces

/-!
# YAML values

A scalar keeps its text as it is written, for the documents read here hold nothing but texts;
whether it stood there without quotes matters only for an empty document. The characters of a
document fall into blanks, line breaks and all others, and a place in it knows its line and
column.
-/

namespace ImagePipeline

/-- A YAML value. -/
inductive Yaml where
  | scalar (text : String) (plain : Bool)
  | sequence (items : List Yaml)
  | mapping (entries : List (Yaml × Yaml))
  /-- A collection inside itself, by its name. -/
  | within (name : String)
deriving Inhabited

namespace Yaml

/-- Why a text is no YAML document. -/
inductive Error where
  /-- A character that documents must not hold. -/
  | badCharacter
  /-- A character that begins no value, or a value where there is no place for one. -/
  | unexpected
  /-- A quoted text that is not closed. -/
  | unclosed
  | badEscape
  /-- A tab where spaces are asked for. -/
  | tab
  /-- A line that has to hold a key and a colon, and does not. -/
  | missingColon
  | unknownAnchor
  | badTag
  | badDirective
  /-- A second document. -/
  | severalDocuments
deriving DecidableEq, Repr

/-- The text of an error. -/
def Error.message : Error → String
  | badCharacter => "control characters are not allowed"
  | unexpected => "did not find expected node content"
  | unclosed => "found unexpected end of stream"
  | badEscape => "found unknown escape character"
  | tab => "found a tab character that violates indentation"
  | missingColon => "could not find expected ':'"
  | unknownAnchor => "unknown anchor"
  | badTag => "found undefined tag handle"
  | badDirective => "found unknown directive name"
  | severalDocuments => "deserializing from YAML containing more than one document is not supported"

/-- The text of a scalar. -/
def text? : Yaml → Option String
  | scalar text _ => some text
  | _ => none

/-! ### Characters -/

/-- Whether a character is a blank. -/
def isBlank (c : Char) : Bool := c = ' ' || c = '\t'

/-- Whether a character ends a line. -/
def isBreak (c : Char) : Bool := c = '\n' || c.toNat = 0x2028 || c.toNat = 0x2029

/-- Whether a character is neither a blank nor the end of a line. -/
def isInk (c : Char) : Bool := !isBlank c && !isBreak c

/-- Whether a rest begins with a blank, a line break, or not at all. -/
def blankAhead : List Char → Bool
  | [] => true
  | c :: _ => !isInk c

/-- Whether a rest begins with a line break, or not at all. -/
def lineEndAhead : List Char → Bool
  | [] => true
  | c :: _ => isBreak c

/-- The characters of words in names. -/
def isWordChar (c : Char) : Bool := c.isAlphanum || c = '_' || c = '-'

/-- The characters that begin, end and separate the values in brackets. -/
def isBracketMark (c : Char) : Bool :=
  c = ',' || c = '[' || c = ']' || c = '{' || c = '}'

/-- The mark that may stand in front of a text, and of a line. -/
def isByteOrderMark (c : Char) : Bool := c.toNat = 0xFEFF

/-- Whether a rest begins with a mark of three characters that stands for itself. -/
def markerAhead (marker : List Char) (cs : List Char) : Bool :=
  (Text.afterPrefix? marker cs).any blankAhead

/-- The mark in front of a document. -/
def startMarker : List Char := ['-', '-', '-']

/-- The mark behind a document. -/
def endMarker : List Char := ['.', '.', '.']

/-- The characters of a document, the usual line breaks as line feeds. -/
def normalizeBreaks : List Char → List Char
  | '\r' :: '\n' :: cs => '\n' :: normalizeBreaks cs
  | '\r' :: cs => '\n' :: normalizeBreaks cs
  | c :: cs => (if c.toNat = 0x85 then '\n' else c) :: normalizeBreaks cs
  | [] => []

/-- The characters that a document may hold. -/
def isPrintable (c : Char) : Bool :=
  let n := c.toNat
  n = 9 || n = 10 || (0x20 ≤ n && n ≤ 0x7E) || (0xA0 ≤ n && n ≤ 0xFFFD) || 0x10000 ≤ n

/-! ### Places -/

/-- A place in a document. -/
structure Place where
  /-- What follows. -/
  rest : List Char
  /-- The characters before it. -/
  index : Nat
  /-- The lines before it. -/
  line : Nat
  /-- The characters before it on its line. -/
  column : Nat

namespace Place

/-- The place after some characters. -/
def advance : Nat → Place → Place
  | 0, p => p
  | n + 1, p =>
    match p.rest with
    | [] => p
    | c :: rest =>
      if isBreak c then advance n ⟨rest, p.index + 1, p.line + 1, 0⟩
      else advance n ⟨rest, p.index + 1, p.line, p.column + 1⟩

/-- The later place with the rest given. -/
def goTo (rest : List Char) (p : Place) : Place := p.advance (p.rest.length - rest.length)

/-- Whether a marker stands here, at the beginning of a line. -/
def atMarker (marker : List Char) (p : Place) : Bool := p.column = 0 && markerAhead marker p.rest

end Place

end Yaml

end ImagePipeline
