import ImagePipeline.Text.Blank
import ImagePipeline.Text.Case

/-!
# Classes of characters

A class holds the characters of some ranges and kinds, or all others. A folded class makes no
difference between lower and upper case.

* Digits are those of all scripts, blanks those of `Text.isBlank`; words are of ASCII characters
  only.
-/

namespace ImagePipeline.Regex

/-- The digits zero of all scripts, each with the digits after it. -/
def zeroDigits : List Nat :=
  [0x30, 0x660, 0x6F0, 0x7C0, 0x966, 0x9E6, 0xA66, 0xAE6, 0xB66, 0xBE6, 0xC66, 0xCE6, 0xD66,
    0xDE6, 0xE50, 0xED0, 0xF20, 0x1040, 0x1090, 0x17E0, 0x1810, 0x1946, 0x19D0, 0x1A80, 0x1A90,
    0x1B50, 0x1BB0, 0x1C40, 0x1C50, 0xA620, 0xA8D0, 0xA900, 0xA9D0, 0xA9F0, 0xAA50, 0xABF0,
    0xFF10, 0x104A0, 0x10D30, 0x10D40, 0x11066, 0x110F0, 0x11136, 0x111D0, 0x112F0, 0x11450,
    0x114D0, 0x11650, 0x116C0, 0x116D0, 0x116DA, 0x11730, 0x118E0, 0x11950, 0x11BF0, 0x11C50,
    0x11D50, 0x11DA0, 0x11F50, 0x16130, 0x16A60, 0x16AC0, 0x16B50, 0x16D70, 0x1CCF0, 0x1D7CE,
    0x1D7D8, 0x1D7E2, 0x1D7EC, 0x1D7F6, 0x1E140, 0x1E2F0, 0x1E4F0, 0x1E5F1, 0x1E950, 0x1FBF0]

/-- Kinds of characters. -/
inductive CharKind where
  | digit
  | space
  | word
deriving DecidableEq, Repr

/-- Whether a character is of a kind. -/
def CharKind.holds (c : Char) : CharKind → Bool
  | digit => zeroDigits.any fun n => n ≤ c.toNat && c.toNat < n + 10
  | space => Text.isBlank c
  | word => c.isAlphanum || c = '_'

/-- A part of a class. -/
inductive ClassItem where
  | range (first last : Char)
  | kind (negated : Bool) (kind : CharKind)
deriving DecidableEq, Repr

/-- Whether a character is in a part of a class. -/
def ClassItem.holds (c : Char) : ClassItem → Bool
  | range first last => first ≤ c && c ≤ last
  | kind negated k => k.holds c != negated

/-- A class of characters. -/
structure CharClass where
  /-- Whether the class holds the characters that its parts do not. -/
  negated : Bool
  /-- Whether lower and upper case are the same. -/
  folded : Bool
  /-- The parts. -/
  items : List ClassItem
deriving DecidableEq, Repr

namespace CharClass

/-- A character in both cases. -/
def bothCases (c : Char) : List Char :=
  let single (cs : List Char) : List Char := if cs.length = 1 then cs else []
  let lower := single (Text.lowerChar c)
  c :: lower ++ single (Text.upperChar c) ++ lower.flatMap fun l => single (Text.upperChar l)

/-- Whether a character is in a class. -/
def holds (k : CharClass) (c : Char) : Bool :=
  (if k.folded then bothCases c else [c]).any (fun c => k.items.any (·.holds c)) != k.negated

end CharClass

/-- The classes of ASCII characters that have a name. -/
def namedClasses : List (String × List ClassItem) :=
  let upper : ClassItem := .range 'A' 'Z'
  let lower : ClassItem := .range 'a' 'z'
  let digit : ClassItem := .range '0' '9'
  let one (c : Char) : ClassItem := .range c c
  [("alnum", [digit, upper, lower]), ("alpha", [upper, lower]), ("digit", [digit]),
    ("lower", [lower]), ("upper", [upper]), ("word", [digit, upper, lower, one '_']),
    ("xdigit", [digit, .range 'A' 'F', .range 'a' 'f']), ("blank", [one ' ', one '\t']),
    ("space", [one ' ', .range (Char.ofNat 9) (Char.ofNat 13)]), ("graph", [.range '!' '~']),
    ("print", [.range ' ' '~']), ("ascii", [.range (Char.ofNat 0) (Char.ofNat 127)]),
    ("cntrl", [.range (Char.ofNat 0) (Char.ofNat 31), one (Char.ofNat 127)]),
    ("punct", [.range '!' '/', .range ':' '@', .range '[' (Char.ofNat 96),
      .range (Char.ofNat 123) '~'])]

end ImagePipeline.Regex
