import ImagePipeline.Json.Basic

/-!
# Reading JSON text

The grammar of RFC 8259, with nothing before the value or after it but blanks. A text is read
to the end before anything is decided about its meaning; a string whose escapes do not pair up
surrogates is grammatical, and becomes `Json.illFormed`.

* `pieces` finds the end of a string, `assemble` joins its escapes to characters.
* `value`, `items` and `members` take a bound on their depth, which `parse?` computes from the
  length of the text.
-/

namespace ImagePipeline.Json

open Decimal (Numeral digit? readDigits value)

/-- The text without the blanks that begin it. -/
def skipBlanks : List Char → List Char
  | c :: cs => if c = ' ' ∨ c = '\t' ∨ c = '\n' ∨ c = '\r' then skipBlanks cs else c :: cs
  | [] => []

/-- The value of a hexadecimal digit. -/
def hexDigit? (c : Char) : Option Nat :=
  let n := c.toNat
  if 48 ≤ n ∧ n ≤ 57 then some (n - 48)
  else if 97 ≤ n ∧ n ≤ 102 then some (n - 87)
  else if 65 ≤ n ∧ n ≤ 70 then some (n - 55)
  else none

/-- The character that a backslash and a letter stand for. -/
def shortEscape? : Char → Option Char
  | '"' => some '"'
  | '\\' => some '\\'
  | '/' => some '/'
  | 'b' => some (Char.ofNat 8)
  | 'f' => some (Char.ofNat 12)
  | 'n' => some '\n'
  | 'r' => some '\r'
  | 't' => some '\t'
  | _ => none

/-- A part of a string literal. -/
inductive Piece where
  /-- A character, written plainly or with a short escape. -/
  | plain (c : Char)
  /-- A UTF-16 unit, written with its four hexadecimal digits. -/
  | unit (n : Nat)

/-- The parts of a string literal up to the closing quote, and what follows the quote. -/
def pieces : List Char → Option (List Piece × List Char)
  | [] => none
  | '"' :: rest => some ([], rest)
  | '\\' :: 'u' :: a :: b :: c :: d :: rest => do
    let n := (((← hexDigit? a) * 16 + (← hexDigit? b)) * 16 + (← hexDigit? c)) * 16
      + (← hexDigit? d)
    let (ps, rest) ← pieces rest
    some (.unit n :: ps, rest)
  | '\\' :: e :: rest => do
    let c ← shortEscape? e
    let (ps, rest) ← pieces rest
    some (.plain c :: ps, rest)
  | c :: rest => do
    if c.toNat < 32 then none
    else
      let (ps, rest) ← pieces rest
      some (.plain c :: ps, rest)

/-- The characters of the parts; none when a surrogate is not part of a pair. -/
def assemble : List Piece → Option (List Char)
  | [] => some []
  | .plain c :: ps => (assemble ps).map (c :: ·)
  | .unit n :: ps =>
    if 0xD800 ≤ n ∧ n < 0xDC00 then
      match ps with
      | .unit m :: qs =>
        if 0xDC00 ≤ m ∧ m < 0xE000 then
          (assemble qs).map (Char.ofNat (0x10000 + (n - 0xD800) * 0x400 + (m - 0xDC00)) :: ·)
        else none
      | _ => none
    else if 0xDC00 ≤ n ∧ n < 0xE000 then none
    else (assemble ps).map (Char.ofNat n :: ·)

/-- The string of the parts. -/
def stringOf (ps : List Piece) : Option String :=
  (assemble ps).map String.ofList

/-- The exponent that may end a numeral, and what follows it. -/
def exponent : List Char → Option (Option Int × List Char)
  | c :: rest =>
    if c = 'e' ∨ c = 'E' then
      let (negative, rest) :=
        match rest with
        | '-' :: rest => (true, rest)
        | '+' :: rest => (false, rest)
        | rest => (false, rest)
      match readDigits rest with
      | ([], _) => none
      | (ds, rest) => some (some (if negative then -(value ds) else value ds), rest)
    else some (none, c :: rest)
  | [] => some (none, [])

/-- A numeral, and what follows it. No zero stands before other digits. -/
def numeral (cs : List Char) : Option (Numeral × List Char) := do
  let (negative, cs) :=
    match cs with
    | '-' :: rest => (true, rest)
    | rest => (false, rest)
  let (whole, cs) ←
    match readDigits cs with
    | ([], _) => none
    | (0 :: _ :: _, _) => none
    | (ds, rest) => some (ds, rest)
  let (fraction, cs) ←
    match cs with
    | '.' :: rest =>
      match readDigits rest with
      | ([], _) => none
      | (ds, rest) => some (ds, rest)
    | rest => some ([], rest)
  let (exponent, cs) ← exponent cs
  some (⟨negative, whole, fraction, exponent⟩, cs)

/-- An object of members, the keys of which may not all be strings. -/
def objectOf (members : List (Option String × Json)) : Json :=
  match members.mapM fun (key, j) => key.map (·, j) with
  | some members => object members
  | none => illFormed

mutual

/-- A value, and what follows it. -/
def readValue : Nat → List Char → Option (Json × List Char)
  | 0, _ => none
  | fuel + 1, cs =>
    match skipBlanks cs with
    | '"' :: rest => do
      let (ps, rest) ← pieces rest
      some ((stringOf ps).elim illFormed string, rest)
    | '[' :: rest =>
      match skipBlanks rest with
      | ']' :: rest => some (array [], rest)
      | rest => (readItems fuel rest).map fun (items, rest) => (array items, rest)
    | '{' :: rest =>
      match skipBlanks rest with
      | '}' :: rest => some (object [], rest)
      | rest => (readMembers fuel rest).map fun (members, rest) => (objectOf members, rest)
    | 'n' :: 'u' :: 'l' :: 'l' :: rest => some (null, rest)
    | 't' :: 'r' :: 'u' :: 'e' :: rest => some (bool true, rest)
    | 'f' :: 'a' :: 'l' :: 's' :: 'e' :: rest => some (bool false, rest)
    | rest => (numeral rest).map fun (n, rest) => (number n, rest)

/-- One or more items up to the closing bracket, and what follows it. -/
def readItems : Nat → List Char → Option (List Json × List Char)
  | 0, _ => none
  | fuel + 1, cs => do
    let (j, rest) ← readValue fuel cs
    match skipBlanks rest with
    | ',' :: rest => (readItems fuel rest).map fun (js, rest) => (j :: js, rest)
    | ']' :: rest => some ([j], rest)
    | _ => none

/-- One or more members up to the closing brace, and what follows it. -/
def readMembers : Nat → List Char → Option (List (Option String × Json) × List Char)
  | 0, _ => none
  | fuel + 1, cs =>
    match skipBlanks cs with
    | '"' :: rest => do
      let (ps, rest) ← pieces rest
      match skipBlanks rest with
      | ':' :: rest =>
        let (j, rest) ← readValue fuel rest
        match skipBlanks rest with
        | ',' :: rest =>
          (readMembers fuel rest).map fun (ms, rest) => ((stringOf ps, j) :: ms, rest)
        | '}' :: rest => some ([(stringOf ps, j)], rest)
        | _ => none
      | _ => none
    | _ => none

end

/-- The value of a JSON text given as characters. -/
def parseChars? (cs : List Char) : Option Json := do
  let (j, rest) ← readValue (2 * cs.length + 2) cs
  if (skipBlanks rest).isEmpty then some j else none

/-- The value of a JSON text. -/
def parse? (s : String) : Option Json :=
  parseChars? s.toList

end ImagePipeline.Json
