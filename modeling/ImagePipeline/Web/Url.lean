import ImagePipeline.Decimal.Numeral
import ImagePipeline.Text.Pieces
import ImagePipeline.Text.Utf8

/-!
# Addresses of web services

An address is kept in the form in which it goes over the wire: the path and the query are
percent-encoded, steps in the path that lead nowhere are gone, and the usual TCP number is left out.
Percent signs and reserved characters stay as they are.

* `Url.read?` reads an absolute address, `Url.join?` one that may be relative to another.
* `Url.text` writes it.
* `Url.addQuery` appends parameters in the encoding of forms, `Url.parameters` decodes them.
-/

namespace ImagePipeline.Web

/-- An address of a web service. -/
structure Url where
  /-- Whether the connection is encrypted. -/
  secure : Bool
  /-- The user and password in front of the host, as written. -/
  userInfo : Option String
  /-- The host. -/
  host : String
  /-- The TCP number, if it is not the usual one. -/
  tcpNumber : Option Nat
  /-- The path, percent-encoded, with its first slash. -/
  path : String
  /-- The query, percent-encoded, without its mark. -/
  query : Option String
  /-- The fragment, percent-encoded, without its mark. -/
  fragment : Option String
deriving DecidableEq, Repr

namespace Url

/-- The hexadecimal digit of a value, in upper case. -/
def hexDigit (n : Nat) : Char :=
  if n < 10 then Char.ofNat (48 + n) else Char.ofNat (55 + n)

/-- A byte as a percent sign and two digits. -/
def percentByte (b : UInt8) : List Char :=
  ['%', hexDigit (b.toNat / 16), hexDigit (b.toNat % 16)]

/-- The characters of a text, those that are not kept percent-encoded. -/
def percentEncode (keep : Char → Bool) (cs : List Char) : List Char :=
  cs.flatMap fun c =>
    if keep c then [c] else (Text.encode (String.ofList [c])).flatMap percentByte

/-- The characters that every part keeps: those of ASCII but controls and blanks. -/
def isGraphic (c : Char) : Bool := 0x20 < c.toNat && c.toNat < 0x7F

/-- The characters that paths keep. -/
def keepInPath (c : Char) : Bool := isGraphic c && !"\"#<>?`\x7b\x7d".toList.contains c

/-- The characters that queries keep. -/
def keepInQuery (c : Char) : Bool := isGraphic c && !"\"#<>'".toList.contains c

/-- The characters that fragments keep. -/
def keepInFragment (c : Char) : Bool := isGraphic c && !"\"<>`".toList.contains c

/-- The characters that forms keep. -/
def keepInForm (c : Char) : Bool :=
  c.isAlphanum || c = '*' || c = '-' || c = '.' || c = '_'

/-- Whether a step of a path stays where it is. -/
def isDot (step : List Char) : Bool :=
  [".", "%2e"].contains (String.ofList (step.map Char.toLower))

/-- Whether a step of a path goes back. -/
def isDoubleDot (step : List Char) : Bool :=
  ["..", ".%2e", "%2e.", "%2e%2e"].contains (String.ofList (step.map Char.toLower))

/-- The steps of a path, the last first, without those that lead nowhere. -/
def resolveSteps (done : List (List Char)) : List (List Char) → List (List Char)
  | [] => done
  | [step] =>
    if isDoubleDot step then [] :: done.tail
    else if isDot step then [] :: done
    else step :: done
  | step :: rest =>
    if isDoubleDot step then resolveSteps done.tail rest
    else if isDot step then resolveSteps done rest
    else resolveSteps (step :: done) rest

/-- A path from the steps before it, the last first, and its own text. -/
def pathFrom (done : List (List Char)) (cs : List Char) : String :=
  let cs := cs.map fun c => if c = '\\' then '/' else c
  let encoded := (resolveSteps done (Text.splitChars '/' cs)).map (percentEncode keepInPath)
  String.ofList ('/' :: Text.joinChars '/' encoded.reverse)

/-- The part before the first of some characters, and the rest from there on. -/
def spanUntil (stops : List Char) (cs : List Char) : List Char × List Char :=
  cs.span fun c => !stops.contains c

/-- The query and the fragment after a path. -/
def readTail (cs : List Char) : Option String × Option String :=
  let (before, fragment) := spanUntil ['#'] cs
  let query := match before with
    | '?' :: query => some (String.ofList (percentEncode keepInQuery query))
    | _ => none
  let fragment := match fragment with
    | '#' :: fragment => some (String.ofList (percentEncode keepInFragment fragment))
    | _ => none
  (query, fragment)

/-- The scheme in front of a colon, and what follows the colon. -/
def readScheme (cs : List Char) : Option (String × List Char) := do
  let (scheme, rest) ← Text.cutChars ':' cs
  match scheme with
  | [] => none
  | c :: more =>
    if c.isAlpha && more.all (fun c => c.isAlphanum || c = '+' || c = '-' || c = '.') then
      some (String.ofList (scheme.map Char.toLower), rest)
    else none

/-- Whether hosts may hold a character. Hosts are ASCII texts here. -/
def isHostChar (c : Char) : Bool :=
  isGraphic c && !"#/:<>?@[\\]^|%".toList.contains c

/-- Reads a host and a TCP number. -/
def readHost (secure : Bool) (cs : List Char) : Option (String × Option Nat) := do
  let (host, after) := match cs with
    | '[' :: _ => match Text.cutChars ']' cs with
      | some (inner, rest) => (inner ++ [']'], rest)
      | none => (cs, [])
    | _ => spanUntil [':'] cs
  let bracketed := host.head? == some '[' && host.getLast? == some ']'
  guard (bracketed || (!host.isEmpty && host.all isHostChar))
  let tcpNumber ← match after with
    | [] | [':'] => some none
    | ':' :: digits =>
      match Decimal.readDigits digits with
      | (ds, []) =>
        let n := Decimal.value ds
        if n < 65536 then some (if n = (if secure then 443 else 80) then none else some n) else none
      | _ => none
    | _ => none
  return (String.ofList (host.map Char.toLower), tcpNumber)

/-- Reads the part after the scheme. -/
def readAuthority (secure : Bool) (cs : List Char) : Option Url := do
  let cs := cs.dropWhile fun c => c = '/' || c = '\\'
  let (authority, rest) := spanUntil ['/', '\\', '?', '#'] cs
  let pieces := Text.splitChars '@' authority
  let userInfo := Text.joinChars '@' pieces.dropLast
  let (host, tcpNumber) ← readHost secure (pieces.getLast?.getD [])
  let (path, after) := spanUntil ['?', '#'] rest
  let (query, fragment) := readTail after
  return {
    secure, host, tcpNumber, query, fragment
    userInfo := if pieces.length = 1 then none else some (String.ofList userInfo)
    path := pathFrom [] path.tail }

/-- The characters of an address: blanks and controls at its ends do not count, nor do tabs and
line breaks anywhere. -/
def clean (s : String) : List Char :=
  let outer (c : Char) : Bool := c.toNat ≤ 0x20
  ((s.toList.dropWhile outer).reverse.dropWhile outer).reverse.filter fun c =>
    c ≠ '\t' && c ≠ '\n' && c ≠ '\r'

/-- Reads an absolute address. Only those of web services are of use. -/
def read? (s : String) : Option Url := do
  let (scheme, rest) ← readScheme (clean s)
  if scheme = "http" then readAuthority false rest
  else if scheme = "https" then readAuthority true rest
  else none

/-- Reads an address that may be relative to another. -/
def join? (base : Url) (s : String) : Option Url :=
  let cs := clean s
  match readScheme cs with
  | some _ => read? s
  | none =>
    let (path, after) := spanUntil ['?', '#'] cs
    let (query, fragment) := readTail after
    let steps := (Text.splitChars '/' base.path.toList.tail).dropLast.reverse
    match path.map fun c => if c = '\\' then '/' else c with
    | '/' :: '/' :: _ => readAuthority base.secure cs
    | '/' :: path => some { base with path := pathFrom [] path, query, fragment }
    | [] =>
      match after with
      | '?' :: _ => some { base with query, fragment }
      | _ => some { base with fragment }
    | path => some { base with path := pathFrom steps path, query, fragment }

/-- The scheme, the host and the TCP number. -/
def origin (u : Url) : String :=
  (if u.secure then "https://" else "http://") ++ u.host
    ++ (match u.tcpNumber with
      | some n => ":" ++ Decimal.natText n
      | none => "")

/-- The path and query, as a request line has them. -/
def target (u : Url) : String :=
  u.path ++ (match u.query with
    | some q => "?" ++ q
    | none => "")

/-- The address as a text. The user and password do not show. -/
def text (u : Url) : String :=
  u.origin ++ u.target ++ (match u.fragment with
    | some f => "#" ++ f
    | none => "")

/-- A text in the encoding of forms. -/
def formEncode (s : String) : String :=
  String.ofList ((percentEncode (fun c => keepInForm c || c = ' ') s.toList).map fun c =>
    if c = ' ' then '+' else c)

/-- The address with more parameters. -/
def addQuery (u : Url) (parameters : List (String × String)) : Url :=
  let added := "&".intercalate (parameters.map fun (k, v) => formEncode k ++ "=" ++ formEncode v)
  { u with query := some (match u.query with
    | some q => if q = "" then added else q ++ "&" ++ added
    | none => added) }

/-- The value of a hexadecimal digit. -/
def hexValue? (c : Char) : Option Nat :=
  let n := c.toNat
  if 48 ≤ n ∧ n ≤ 57 then some (n - 48)
  else if 65 ≤ n ∧ n ≤ 70 then some (n - 55)
  else if 97 ≤ n ∧ n ≤ 102 then some (n - 87)
  else none

/-- The bytes that percent signs and their digits, and all other characters, stand for. -/
def percentDecode : List Char → List UInt8
  | '%' :: a :: b :: rest =>
    match hexValue? a, hexValue? b with
    | some x, some y => UInt8.ofNat (x * 16 + y) :: percentDecode rest
    | _, _ => 37 :: percentDecode (a :: b :: rest)
  | c :: rest => Text.encode (String.ofList [c]) ++ percentDecode rest
  | [] => []

/-- A text out of the encoding of forms. -/
def formDecode (s : String) : String :=
  (Text.decode (percentDecode (s.toList.map fun c => if c = '+' then ' ' else c))).getD s

/-- The parameters in the query. -/
def parameters (u : Url) : List (String × String) :=
  ((Text.split '&' (u.query.getD "")).filter (· ≠ "")).map fun piece =>
    match Text.cut '=' piece with
    | some (k, v) => (formDecode k, formDecode v)
    | none => (formDecode piece, "")

end Url

end ImagePipeline.Web
