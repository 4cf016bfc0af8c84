import ImagePipeline.Yaml.Scalar

/-!
# YAML tags and directives

Tags say of what kind a value is. All values are taken as texts here, so what is read of a tag is
only its handle, which a directive may have to declare. A directive is a line in front of a
document.

* `readTag` yields an empty handle for a tag that has none.
-/

namespace ImagePipeline.Yaml

/-- The characters of tags besides those of words. -/
def isTagChar (verbatim : Bool) (c : Char) : Bool :=
  isWordChar c || ";/?:@&=+$.!~*'()".toList.contains c
    || (verbatim && (c = ',' || c = '[' || c = ']'))

/-- The byte that a percent sign and two digits write. -/
def percentByte? : List Char → Option (Nat × List Char)
  | '%' :: a :: b :: cs => do return ((← hexDigit? a) * 16 + (← hexDigit? b), cs)
  | _ => none

/-- The bytes after the first of a character that begins with a byte. -/
def bytesAfter? (first : Nat) : Option Nat :=
  if first < 0x80 then some 0
  else if first / 0x20 = 6 then some 1
  else if first / 0x10 = 14 then some 2
  else if first / 8 = 30 then some 3
  else none

/-- Reads further bytes of a character. -/
def readBytes : Nat → List Char → Except Error (List Char)
  | 0, cs => .ok cs
  | n + 1, cs =>
    match percentByte? cs with
    | some (byte, cs) => if byte / 0x40 = 2 then readBytes n cs else .error .badTag
    | none => .error .badTag

/-- Reads a character that is written as bytes. -/
def readEscape (cs : List Char) : Except Error (List Char) :=
  match percentByte? cs with
  | none => .error .badTag
  | some (first, cs) =>
    match bytesAfter? first with
    | some n => readBytes n cs
    | none => .error .badTag

/-- Passes the characters of a tag, and tells whether there are any. -/
def readTagChars (verbatim : Bool) : (fuel : Nat) → List Char → Except Error (Bool × List Char)
  | 0, cs => .ok (false, cs)
  | fuel + 1, cs =>
    match cs with
    | [] => .ok (false, [])
    | c :: rest =>
      if c = '%' then do
        let rest ← readEscape cs
        return (true, (← readTagChars verbatim fuel rest).2)
      else if isTagChar verbatim c then do return (true, (← readTagChars verbatim fuel rest).2)
      else .ok (false, cs)

/-- Passes the characters of a tag, of which there has to be one. -/
def readUri (verbatim : Bool) (cs : List Char) : Except Error (List Char) := do
  let (any, rest) ← readTagChars verbatim cs.length cs
  if any then return rest else throw .badTag

/-- Reads a tag after its mark: its handle. -/
def readTagHandle : List Char → Except Error (String × List Char)
  | '<' :: cs => do
    match ← readUri true cs with
    | '>' :: rest => return ("", rest)
    | _ => throw .badTag
  | cs => do
    let word := cs.takeWhile isWordChar
    match cs.dropWhile isWordChar with
    | '!' :: rest => return (String.ofList ('!' :: word ++ ['!']), ← readUri false rest)
    | rest => return ("!", (← readTagChars false cs.length rest).2)

/-- Reads a tag after its mark: its handle. A blank has to follow, or a comma in brackets. -/
def readTag (inBrackets : Bool) (cs : List Char) : Except Error (String × List Char) := do
  let (handle, rest) ← readTagHandle cs
  if blankAhead rest || (inBrackets && rest.head? = some ',') then return (handle, rest)
  else throw .badTag

/-- A directive. -/
inductive Directive where
  | version (major minor : List Char)
  | tagHandle (handle : String)

/-- Reads the number of a version: at most nine digits. -/
def readVersionNumber (cs : List Char) : Except Error (List Char × List Char) :=
  let digits := cs.takeWhile Char.isDigit
  if digits.isEmpty ∨ 9 < digits.length then .error .badDirective
  else .ok (digits.dropWhile (· = '0'), cs.dropWhile Char.isDigit)

/-- Reads the version in a directive. -/
def readVersion (cs : List Char) : Except Error (Directive × List Char) := do
  let (major, cs) ← readVersionNumber cs
  match cs with
  | '.' :: cs =>
    let (minor, cs) ← readVersionNumber cs
    return (.version major minor, cs)
  | _ => throw .badDirective

/-- Reads the handle of tags in a directive, and passes what it stands for. -/
def readHandle : List Char → Except Error (Directive × List Char)
  | '!' :: cs => do
    let word := cs.takeWhile isWordChar
    let (handle, rest) ← match word, cs.dropWhile isWordChar with
      | word, '!' :: rest => pure (String.ofList ('!' :: word ++ ['!']), rest)
      | [], rest => pure ("!", rest)
      | _, _ => throw .badDirective
    if !rest.head?.any isBlank then throw .badDirective
    let rest ← readUri true (rest.dropWhile isBlank)
    if !blankAhead rest then throw .badDirective
    return (.tagHandle handle, rest)
  | _ => .error .badDirective

/-- Reads a directive after its mark, to the end of its line. -/
def readDirective (cs : List Char) : Except Error (Directive × List Char) := do
  let name := cs.takeWhile isWordChar
  let rest := cs.dropWhile isWordChar
  if !blankAhead rest then throw .badDirective
  let (directive, rest) ←
    if name = "YAML".toList then readVersion (rest.dropWhile isBlank)
    else if name = "TAG".toList then readHandle (rest.dropWhile isBlank)
    else throw .badDirective
  let rest := rest.dropWhile isBlank
  let rest := if rest.head? = some '#' then rest.dropWhile (!isBreak ·) else rest
  if !lineEndAhead rest then throw .badDirective
  return (directive, rest.tail)

end ImagePipeline.Yaml
