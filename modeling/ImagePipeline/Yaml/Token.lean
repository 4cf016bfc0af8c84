import ImagePipeline.Yaml.Tag

/-!
# YAML tokens

A document is cut into tokens: marks, names, texts, and the beginnings and ends of the blocks that
indentation makes. That a text is a key shows only at the colon after it, so a place where a key
may begin is remembered, and the tokens for it are put in when the colon comes.

* `Scanner.next` reads one token, and what goes with it.
* `tokens` reads all. Every token takes a character, so their number is bounded by the text.
-/

namespace ImagePipeline.Yaml

/-- A token. -/
inductive Token where
  | directive (directive : Directive)
  | documentStart
  | documentEnd
  | blockSequence
  | blockMapping
  | blockEnd
  | openSequence
  | closeSequence
  | openMapping
  | closeMapping
  | comma
  /-- The mark of an item on a line of its own. -/
  | item
  | key
  | value
  | reference (name : String)
  | anchor (name : String)
  | tag (handle : String)
  | text (text : String) (plain : Bool)

/-- A place where a key may begin. -/
structure KeyPlace where
  /-- The tokens before it. -/
  tokens : Nat
  /-- The place. -/
  place : Place
  /-- Whether a key has to be here, because the lines of a mapping begin at this column. -/
  required : Bool

/-- A document that is read up to some place. -/
structure Scanner where
  /-- The place. -/
  place : Place
  /-- The tokens before it, the latest first. -/
  tokens : List Token
  /-- The columns of the blocks around it, the innermost first. -/
  indents : List Nat
  /-- Where a key may begin in the innermost brackets, or in no brackets. -/
  possible : Option KeyPlace
  /-- Where a key may begin in the brackets around those, and in none. -/
  outer : List (Option KeyPlace)
  /-- Whether a key may begin at the place. -/
  keyAllowed : Bool

namespace Scanner

/-- The beginning of a document. -/
def ofChars (cs : List Char) : Scanner := ⟨⟨cs, 0, 0, 0⟩, [], [], none, [], true⟩

/-- Whether the place is in brackets. -/
def inBrackets (s : Scanner) : Bool := !s.outer.isEmpty

/-- The least column of lines that belong to the innermost block. -/
def indent (s : Scanner) : Nat :=
  match s.indents with
  | [] => 0
  | n :: _ => n + 1

/-- One more token. -/
def emit (s : Scanner) (t : Token) : Scanner := { s with tokens := t :: s.tokens }

/-- Goes on by some characters. -/
def skip (s : Scanner) (n : Nat) : Scanner := { s with place := s.place.advance n }

/-- Goes on by some characters, which are a token. -/
def mark (s : Scanner) (t : Token) (n : Nat) : Scanner := (s.skip n).emit t

/-! ### Blanks -/

/-- Passes blanks, line breaks and comments, and tells whether a key may begin after them. Tabs
are no blanks where a key may begin, except in brackets. -/
def passBlanks (inBrackets : Bool) :
    (comment lineStart keyAllowed : Bool) → List Char → List Char × Bool
  | _, _, keyAllowed, [] => ([], keyAllowed)
  | comment, lineStart, keyAllowed, c :: cs =>
    if isBreak c then passBlanks inBrackets false true (keyAllowed || !inBrackets) cs
    else if comment then passBlanks inBrackets true false keyAllowed cs
    else if c = ' ' ∨ (c = '\t' ∧ (inBrackets ∨ !keyAllowed)) ∨ (isByteOrderMark c ∧ lineStart) then
      passBlanks inBrackets false false keyAllowed cs
    else if c = '#' then passBlanks inBrackets true false keyAllowed cs
    else (c :: cs, keyAllowed)

/-- Goes to the next token. -/
def toNext (s : Scanner) : Scanner :=
  let (rest, keyAllowed) :=
    passBlanks s.inBrackets false (s.place.column = 0) s.keyAllowed s.place.rest
  { s with place := s.place.goTo rest, keyAllowed }

/-! ### Keys and blocks -/

/-- The most characters of a key. -/
def keyLimit : Nat := 1024

/-- A place for a key, if the place reached leaves it one: a key is short and on one line. -/
def stillPossible (now : Place) (k : KeyPlace) : Except Error (Option KeyPlace) :=
  if k.place.line < now.line ∨ k.place.index + keyLimit < now.index then
    if k.required then .error .missingColon else .ok none
  else .ok (some k)

/-- Forgets the places where no key can begin any more. -/
def dropStale (s : Scanner) : Except Error Scanner := do
  let check (k : Option KeyPlace) : Except Error (Option KeyPlace) :=
    match k with
    | some k => stillPossible s.place k
    | none => .ok none
  return { s with possible := ← check s.possible, outer := ← s.outer.mapM check }

/-- Forgets the last place where a key could begin. -/
def dropKey (s : Scanner) : Except Error Scanner :=
  if s.possible.any (·.required) then .error .missingColon else .ok { s with possible := none }

/-- Remembers the place, if a key may begin there. -/
def saveKey (s : Scanner) : Except Error Scanner := do
  if s.keyAllowed then
    let required := !s.inBrackets && s.indents.head? = some s.place.column
    let s ← s.dropKey
    return { s with possible := some ⟨s.tokens.length, s.place, required⟩ }
  else return s

/-- Begins a block at a column, unless one is there already. Its token goes in after `position`
others. -/
def beginBlock (s : Scanner) (column position : Nat) (t : Token) : Scanner :=
  if s.inBrackets ∨ column < s.indent then s
  else
    let after := s.tokens.take (s.tokens.length - position)
    let before := s.tokens.drop (s.tokens.length - position)
    { s with indents := column :: s.indents, tokens := after ++ t :: before }

/-- Ends the blocks in a list whose columns are right of a column. -/
def endBlocks (column : Nat) : List Nat → List Token → List Nat × List Token
  | [], tokens => ([], tokens)
  | n :: indents, tokens =>
    if column < n then endBlocks column indents (.blockEnd :: tokens) else (n :: indents, tokens)

/-- Ends the blocks to which the place does not belong any more. -/
def leaveBlocks (s : Scanner) : Scanner :=
  if s.inBrackets then s
  else
    let (indents, tokens) := endBlocks s.place.column s.indents s.tokens
    { s with indents, tokens }

/-- Ends all blocks. -/
def leaveAll (s : Scanner) : Scanner :=
  if s.inBrackets then s
  else { s with indents := [], tokens := List.replicate s.indents.length .blockEnd ++ s.tokens }

/-! ### Tokens -/

/-- Ends all blocks in front of a mark for whole documents. -/
def leaveDocument (s : Scanner) : Except Error Scanner := do
  return { ← s.leaveAll.dropKey with keyAllowed := false }

/-- Opens brackets. -/
def openBracket (s : Scanner) (t : Token) : Except Error Scanner := do
  let s ← s.saveKey
  return { s.mark t 1 with outer := s.possible :: s.outer, possible := none, keyAllowed := true }

/-- Closes brackets. -/
def closeBracket (s : Scanner) (t : Token) : Except Error Scanner := do
  let s ← s.dropKey
  match s.outer with
  | [] => return { s.mark t 1 with keyAllowed := false }
  | possible :: outer => return { s.mark t 1 with possible, outer, keyAllowed := false }

/-- A mark that begins an item or a key on a line of its own. -/
def lineMark (s : Scanner) (block t : Token) : Except Error Scanner := do
  if !s.inBrackets && !s.keyAllowed then throw .unexpected
  let s ← (s.beginBlock s.place.column s.tokens.length block).dropKey
  return s.mark t 1

/-- The mark between a key and its value. -/
def valueMark (s : Scanner) : Except Error Scanner :=
  match s.possible with
  | some k =>
    let after := s.tokens.take (s.tokens.length - k.tokens)
    let before := s.tokens.drop (s.tokens.length - k.tokens)
    let tokens := after ++ Token.key :: before
    let s := { s with tokens, possible := none, keyAllowed := false }
    .ok ((s.beginBlock k.place.column k.tokens .blockMapping).mark .value 1)
  | none =>
    if !s.inBrackets && !s.keyAllowed then .error .unexpected
    else
      let s := s.beginBlock s.place.column s.tokens.length .blockMapping
      .ok { s.mark .value 1 with keyAllowed := !s.inBrackets }

/-- A token that may begin a key, read by a reader of what follows `skipped` characters. -/
def inKey (s : Scanner) (skipped : Nat)
    (read : List Char → Except Error (Token × List Char)) : Except Error Scanner := do
  let s ← s.saveKey
  let (t, rest) ← read (s.place.rest.drop skipped)
  return { s.emit t with place := s.place.goTo rest, keyAllowed := false }

/-- Reads the name of an anchor. -/
def readName (cs : List Char) : Except Error (String × List Char) :=
  let name := cs.takeWhile isWordChar
  let rest := cs.dropWhile isWordChar
  let ends := blankAhead rest || rest.head?.any ("?:,]\x7d%@`".toList.contains ·)
  if name.isEmpty || !ends then .error .unexpected else .ok (String.ofList name, rest)

/-- A plain text. A key may begin after it if it ends with its line. -/
def plainText (s : Scanner) : Except Error Scanner := do
  let s ← s.saveKey
  let (lines, rest) ←
    readPlain s.inBrackets s.indent s.place.rest.length .empty s.place.column s.place.rest
  return { s.emit (.text lines.plainText true) with
    place := s.place.goTo rest, keyAllowed := lines.broken }

/-- A block of lines. -/
def blockText (s : Scanner) (literal : Bool) : Except Error Scanner := do
  let s ← s.dropKey
  let (text, rest) ← readBlock literal s.indents.head? (s.place.rest.drop 1)
  return { s.emit (.text text false) with place := s.place.goTo rest, keyAllowed := true }

/-- Whether a plain text may begin with a character before others. -/
def beginsPlain (inBrackets : Bool) (c : Char) (cs : List Char) : Bool :=
  if c = '-' then !cs.head?.any isBlank
  else if c = '?' ∨ c = ':' then !inBrackets && !blankAhead cs
  else isInk c && !"#&*!|>'\"%@`,[]\x7b\x7d".toList.contains c

/-- Reads the token that begins with a character before others. -/
def next (s : Scanner) (c : Char) (cs : List Char) : Except Error Scanner := do
  let named (f : String → Token) (cs : List Char) : Except Error (Token × List Char) := do
    let (name, rest) ← readName cs
    return (f name, rest)
  if s.place.column = 0 ∧ c = '%' then
    let s ← s.leaveDocument
    let (directive, rest) ← readDirective cs
    return { s.emit (.directive directive) with place := s.place.goTo rest }
  else if s.place.atMarker startMarker then return (← s.leaveDocument).mark .documentStart 3
  else if s.place.atMarker endMarker then return (← s.leaveDocument).mark .documentEnd 3
  else if c = '[' then s.openBracket .openSequence
  else if c = '{' then s.openBracket .openMapping
  else if c = ']' then s.closeBracket .closeSequence
  else if c = '}' then s.closeBracket .closeMapping
  else if c = ',' then return { (← s.dropKey).mark .comma 1 with keyAllowed := true }
  else if c = '-' ∧ blankAhead cs then
    return { ← s.lineMark .blockSequence .item with keyAllowed := true }
  else if c = '?' ∧ (s.inBrackets ∨ blankAhead cs) then
    return { ← s.lineMark .blockMapping .key with keyAllowed := !s.inBrackets }
  else if c = ':' ∧ (s.inBrackets ∨ blankAhead cs) then s.valueMark
  else if c = '*' then s.inKey 1 (named .reference)
  else if c = '&' then s.inKey 1 (named .anchor)
  else if c = '!' then
    s.inKey 1 fun cs => do
      let (handle, rest) ← readTag s.inBrackets cs
      return (.tag handle, rest)
  else if c = '|' ∧ !s.inBrackets then s.blockText true
  else if c = '>' ∧ !s.inBrackets then s.blockText false
  else if c = '\'' then
    s.inKey 1 fun cs => do
      let (text, rest) ← readSingle .empty cs
      return (.text text false, rest)
  else if c = '"' then
    s.inKey 1 fun cs => do
      let (text, rest) ← readDouble .empty cs
      return (.text text false, rest)
  else if beginsPlain s.inBrackets c cs then s.plainText
  else throw .unexpected

/-- Reads at most `fuel` tokens, and then the end of the text. -/
def all : (fuel : Nat) → Scanner → Except Error Scanner
  | 0, s => .ok s
  | fuel + 1, s => do
    let s := (← s.toNext.dropStale).leaveBlocks
    match s.place.rest with
    | [] => s.leaveDocument
    | c :: cs => all fuel (← s.next c cs)

end Scanner

/-- The tokens of a text. -/
def tokens (cs : List Char) : Except Error (List Token) := do
  return (← Scanner.all (cs.length + 1) (.ofChars cs)).tokens.reverse

end ImagePipeline.Yaml
