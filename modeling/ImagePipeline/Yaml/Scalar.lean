import ImagePipeline.Yaml.Basic

/-!
# YAML texts

The four ways to write a text: plain, in single or double quotes, and as a block of lines. In all
but the literal block, a line break inside the text stands for a blank, and only the empty lines
after it are line breaks.

* `Lines.joined` says this once for the texts that run over several lines.
* Every reader starts behind the mark that announces its text, if there is one, and yields the
  text and what follows it.
-/

namespace ImagePipeline.Yaml

/-- What stands between two parts of a text, the last character first. -/
inductive Gap where
  | blanks (blanks : List Char)
  /-- Line breaks: the first, unless a backslash takes it back, and the others. -/
  | breaks (first : Option Char) (more : List Char)

/-- A text that runs over several lines, as far as it is read. -/
structure Lines where
  /-- The characters so far, the last first. -/
  text : List Char
  /-- What stands after them. -/
  gap : Gap

namespace Lines

/-- Nothing so far. -/
def empty : Lines := ⟨[], .blanks []⟩

/-- The characters so far with what the gap after them stands for. -/
def joined (l : Lines) : List Char :=
  match l.gap with
  | .blanks blanks => blanks ++ l.text
  | .breaks (some '\n') more => (if more.isEmpty then [' '] else more) ++ l.text
  | .breaks first more => more ++ first.toList ++ l.text

/-- The text with one more character. -/
def push (l : Lines) (c : Char) : Lines := ⟨c :: l.joined, .blanks []⟩

/-- The text with a blank or a line break. Blanks beside a break do not count. -/
def pushGap (l : Lines) (c : Char) : Lines :=
  { l with gap := match l.gap, isBreak c with
    | .blanks blanks, false => .blanks (c :: blanks)
    | .blanks _, true => .breaks (some c) []
    | .breaks first more, false => .breaks first more
    | .breaks first more, true => .breaks first (c :: more) }

/-- The text with a line break that a backslash takes back; the blanks before it stay. -/
def pushJoin (l : Lines) : Lines := ⟨l.joined, .breaks none []⟩

/-- Whether the text so far is followed by a line break. -/
def broken (l : Lines) : Bool :=
  match l.gap with
  | .blanks _ => false
  | .breaks _ _ => true

/-- The text so far, with the gap after it. -/
def quotedText (l : Lines) : String := String.ofList l.joined.reverse

/-- The text so far, without the gap after it. -/
def plainText (l : Lines) : String := String.ofList l.text.reverse

end Lines

/-- Whether a line begins with the mark of a document's beginning or end. -/
def markerLine (cs : List Char) : Bool := markerAhead startMarker cs || markerAhead endMarker cs

/-! ### Quoted texts -/

/-- Reads a text in single quotes. -/
def readSingle (l : Lines) : List Char → Except Error (String × List Char)
  | [] => .error .unclosed
  | '\'' :: '\'' :: cs => readSingle (l.push '\'') cs
  | '\'' :: cs => .ok (l.quotedText, cs)
  | c :: cs =>
    if isBreak c ∧ markerLine cs then .error .unexpected
    else if isInk c then readSingle (l.push c) cs
    else readSingle (l.pushGap c) cs

/-- The characters that a backslash and a letter stand for. -/
def shortEscape? (c : Char) : Option Char :=
  [('0', 0), ('a', 7), ('b', 8), ('t', 9), ('\t', 9), ('n', 10), ('v', 11), ('f', 12), ('r', 13),
    ('e', 27), (' ', 32), ('"', 34), ('/', 47), ('\\', 92), ('N', 0x85), ('_', 0xA0),
    ('L', 0x2028), ('P', 0x2029)].lookup c |>.map Char.ofNat

/-- The value of a hexadecimal digit. -/
def hexDigit? (c : Char) : Option Nat :=
  let n := c.toNat
  if 48 ≤ n ∧ n ≤ 57 then some (n - 48)
  else if 65 ≤ n ∧ n ≤ 70 then some (n - 55)
  else if 97 ≤ n ∧ n ≤ 102 then some (n - 87)
  else none

/-- The character with the code that hexadecimal digits write. -/
def hexChar? (ds : List Char) : Option Char := do
  let n := (← ds.mapM hexDigit?).foldl (fun n d => n * 16 + d) 0
  if n.isValidChar then some (Char.ofNat n) else none

/-- Reads a text in double quotes. -/
def readDouble (l : Lines) : List Char → Except Error (String × List Char)
  | [] => .error .unclosed
  | '"' :: cs => .ok (l.quotedText, cs)
  | '\\' :: 'x' :: a :: b :: cs =>
    match hexChar? [a, b] with
    | some c => readDouble (l.push c) cs
    | none => .error .badEscape
  | '\\' :: 'u' :: a :: b :: c :: d :: cs =>
    match hexChar? [a, b, c, d] with
    | some c => readDouble (l.push c) cs
    | none => .error .badEscape
  | '\\' :: 'U' :: a :: b :: c :: d :: e :: f :: g :: h :: cs =>
    match hexChar? [a, b, c, d, e, f, g, h] with
    | some c => readDouble (l.push c) cs
    | none => .error .badEscape
  | '\\' :: c :: cs =>
    if isBreak c then
      if markerLine cs then .error .unexpected else readDouble l.pushJoin cs
    else
      match shortEscape? c with
      | some c => readDouble (l.push c) cs
      | none => .error .badEscape
  | c :: cs =>
    if isBreak c ∧ markerLine cs then .error .unexpected
    else if isInk c then readDouble (l.push c) cs
    else readDouble (l.pushGap c) cs

/-! ### Plain texts -/

/-- Reads the characters of a plain text up to the next blank or mark. A colon in brackets must
not stand directly before a mark. -/
def readPart (inBrackets : Bool) (l : Lines) : List Char → Except Error (Lines × List Char)
  | [] => .ok (l, [])
  | c :: cs =>
    if !isInk c then .ok (l, c :: cs)
    else if inBrackets ∧ c = ':' ∧ cs.head?.any (fun d => isBracketMark d || d = '?') then
      .error .unexpected
    else if (c = ':' ∧ blankAhead cs) ∨ (inBrackets ∧ isBracketMark c) then .ok (l, c :: cs)
    else readPart inBrackets (l.push c) cs

/-- Reads the blanks and line breaks after a part of a plain text, and counts the columns of the
last line. A tab must not stand for indentation. -/
def readGap (indent : Nat) (l : Lines) : (column : Nat) → List Char →
    Except Error (Lines × Nat × List Char)
  | column, [] => .ok (l, column, [])
  | column, c :: cs =>
    if isInk c then .ok (l, column, c :: cs)
    else if c = '\t' ∧ l.broken ∧ column < indent then .error .tab
    else readGap indent (l.pushGap c) (if isBreak c then 0 else column + 1) cs

/-- Reads a plain text from a column. Outside brackets, further lines have to be indented by
`indent`. The gap after the text is read as well. `fuel` bounds the number of parts. -/
def readPlain (inBrackets : Bool) (indent : Nat) :
    (fuel : Nat) → Lines → (column : Nat) → List Char → Except Error (Lines × List Char)
  | 0, l, _, cs => .ok (l, cs)
  | fuel + 1, l, column, cs =>
    if (l.broken ∧ column = 0 ∧ markerLine cs) ∨ cs.head? = some '#' then .ok (l, cs)
    else do
      let (l, rest) ← readPart inBrackets l cs
      match rest with
      | [] => return (l, rest)
      | c :: _ =>
        if isInk c then return (l, rest)
        else
          let (l, column, rest) ← readGap indent l (column + (cs.length - rest.length)) rest
          if !inBrackets ∧ column < indent then return (l, rest)
          else readPlain inBrackets indent fuel l column rest

/-! ### Blocks of lines -/

/-- What the first line of a block says. -/
structure BlockHeader where
  /-- Whether the breaks at the end are all kept, or all dropped, or one is kept. -/
  keep : Option Bool
  /-- The indentation, if it is given. -/
  indent : Option Nat

/-- Reads what the end of a block is like. -/
def readKeep : List Char → Option Bool × List Char
  | '+' :: cs => (some true, cs)
  | '-' :: cs => (some false, cs)
  | cs => (none, cs)

/-- Reads an indentation, which is not zero. -/
def readIndent : List Char → Except Error (Option Nat × List Char)
  | c :: cs =>
    if c = '0' then .error .unexpected
    else if c.isDigit then .ok (some (c.toNat - 48), cs)
    else .ok (none, c :: cs)
  | [] => .ok (none, [])

/-- Reads the first line of a block, whose two marks may stand in either order. -/
def readHeader (cs : List Char) : Except Error (BlockHeader × List Char) := do
  let (before, cs) := readKeep cs
  let (indent, cs) ← readIndent cs
  let (after, cs) := if before.isNone && indent.isSome then readKeep cs else (none, cs)
  let cs := cs.dropWhile isBlank
  let cs := if cs.head? = some '#' then cs.dropWhile (!isBreak ·) else cs
  if !lineEndAhead cs then throw .unexpected
  return (⟨before.or after, indent⟩, cs.tail)

/-- The blanks and breaks before a line of a block. -/
structure BlockGap where
  /-- The breaks, the last first. -/
  breaks : List Char
  /-- The column at which the line begins. -/
  column : Nat
  /-- The highest column on the way. -/
  most : Nat
  /-- What follows. -/
  rest : List Char

/-- Reads the blanks and breaks before a line. An indentation that is not known yet is zero. -/
def readBlockGap (indent : Nat) (breaks : List Char) :
    (column most : Nat) → List Char → Except Error BlockGap
  | column, most, [] => .ok ⟨breaks, column, max most column, []⟩
  | column, most, c :: cs =>
    let open? := indent = 0 ∨ column < indent
    if c = ' ' ∧ open? then readBlockGap indent breaks (column + 1) most cs
    else if c = '\t' ∧ open? then .error .tab
    else if isBreak c then readBlockGap indent (c :: breaks) 0 (max most column) cs
    else .ok ⟨breaks, column, max most column, c :: cs⟩

/-- A block as far as it is read. -/
structure Block where
  /-- The characters so far, the last first. -/
  text : List Char
  /-- The break that ends the last line. -/
  first : Option Char
  /-- The breaks after it, the last first. -/
  more : List Char
  /-- Whether the last line begins with a blank. -/
  blank : Bool

/-- The block with one more line. -/
def Block.pushLine (literal : Bool) (b : Block) (line : List Char) (first : Option Char)
    (more : List Char) : Block :=
  let blank := line.head?.any isBlank
  let between :=
    if !literal ∧ b.first = some '\n' ∧ !b.blank ∧ !blank then
      if b.more.isEmpty then [' '] else b.more
    else b.more ++ b.first.toList
  ⟨line.reverse ++ between ++ b.text, first, more, blank⟩

/-- Reads the lines of a block. `fuel` bounds their number. -/
def readBlockLines (literal : Bool) (indent : Nat) :
    (fuel : Nat) → Block → (column : Nat) → List Char → Except Error (Block × List Char)
  | 0, b, _, cs => .ok (b, cs)
  | fuel + 1, b, column, cs =>
    if column ≠ indent ∨ cs.isEmpty then .ok (b, cs)
    else
      let line := cs.takeWhile (!isBreak ·)
      match cs.dropWhile (!isBreak ·) with
      | [] => .ok (b.pushLine literal line none [], [])
      | first :: rest => do
        let gap ← readBlockGap indent [] 0 0 rest
        readBlockLines literal indent fuel (b.pushLine literal line (some first) gap.breaks)
          gap.column gap.rest

/-- Reads a block. `parent` is the indentation of what is around it, if there is any. -/
def readBlock (literal : Bool) (parent : Option Nat) (cs : List Char) :
    Except Error (String × List Char) := do
  let (header, cs) ← readHeader cs
  let given := header.indent.map (parent.getD 0 + ·)
  let gap ← readBlockGap (given.getD 0) [] 0 0 cs
  let least := max 1 (match parent with
    | some n => n + 1
    | none => 0)
  let indent := given.getD (max least gap.most)
  let (b, rest) ← readBlockLines literal indent cs.length ⟨[], none, gap.breaks, false⟩ gap.column
    gap.rest
  let ending := match header.keep with
    | some false => []
    | none => b.first.toList
    | some true => b.more ++ b.first.toList
  return (String.ofList (ending ++ b.text).reverse, rest)

end ImagePipeline.Yaml
