import ImagePipeline.Json.Basic

/-!
# Writing JSON text

Values are written without blanks. In strings, only the quote, the backslash and the control
characters below 32 are escaped; five of the latter have short escapes, the others are written
with four hexadecimal digits in lower case.
-/

namespace ImagePipeline.Json

open Decimal (natChars)

/-- A character inside a string literal. -/
def escapeChar (c : Char) : List Char :=
  if c = '"' then ['\\', '"']
  else if c = '\\' then ['\\', '\\']
  else if c = '\n' then ['\\', 'n']
  else if c = '\r' then ['\\', 'r']
  else if c = '\t' then ['\\', 't']
  else if c.toNat = 8 then ['\\', 'b']
  else if c.toNat = 12 then ['\\', 'f']
  else if c.toNat < 32 then
    ['\\', 'u', '0', '0', (c.toNat / 16).digitChar, (c.toNat % 16).digitChar]
  else [c]

/-- A string literal. -/
def stringChars (s : String) : List Char :=
  '"' :: s.toList.flatMap escapeChar ++ ['"']

mutual

/-- The text of a value as characters. -/
def chars : Json → List Char
  | null => "null".toList
  | bool true => "true".toList
  | bool false => "false".toList
  | number n => n.chars
  | string s => stringChars s
  | array [] => ['[', ']']
  | array (j :: js) => '[' :: j.chars ++ itemsChars js
  | object [] => ['{', '}']
  | object ((key, j) :: ms) => '{' :: stringChars key ++ ':' :: j.chars ++ membersChars ms
  | illFormed => "null".toList

/-- The items after the first, and the closing bracket. -/
def itemsChars : List Json → List Char
  | [] => [']']
  | j :: js => ',' :: j.chars ++ itemsChars js

/-- The members after the first, and the closing brace. -/
def membersChars : List (String × Json) → List Char
  | [] => ['}']
  | (key, j) :: ms => ',' :: stringChars key ++ ':' :: j.chars ++ membersChars ms

end

/-- The text of a value. -/
def render (j : Json) : String :=
  String.ofList j.chars

end ImagePipeline.Json
