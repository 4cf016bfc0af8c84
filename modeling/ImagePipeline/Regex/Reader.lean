import ImagePipeline.Decimal.Numeral
import ImagePipeline.Regex.Basic
import ImagePipeline.Text.Pieces

/-!
# Reading regular expressions

Expressions are written with characters, classes in brackets, groups in parentheses, `|` between
choices, and `*`, `+`, `?` and counts in braces after what they repeat, a further `?` making them
prefer fewer rounds. A backslash takes its meaning from any punctuation mark, and gives one to
some letters. A group may have a name, or no number, or say how its characters are compared.

The reader keeps the groups that are open, the innermost first. Each has its choices so far and
the parts of the current one.
-/

namespace ImagePipeline.Regex

/-- Why a text is no regular expression. -/
inductive SyntaxError where
  | unclosedGroup
  | unopenedGroup
  | badGroup
  | unclosedClass
  | badRange
  | nothingToRepeat
  | badCount
  | unknownEscape
deriving DecidableEq, Repr

/-- The text of an error. -/
def SyntaxError.message : SyntaxError → String
  | unclosedGroup => "unclosed group"
  | unopenedGroup => "unopened group"
  | badGroup => "unrecognized flag or invalid group name"
  | unclosedClass => "unclosed character class"
  | badRange => "invalid character class range"
  | nothingToRepeat => "repetition operator missing expression"
  | badCount => "invalid repetition count"
  | unknownEscape => "unrecognized escape sequence"

/-- How characters are compared. -/
structure Mode where
  /-- Whether lower and upper case are the same. -/
  folded : Bool := false
  /-- Whether lines have a start and an end of their own. -/
  lines : Bool := false
  /-- Whether a dot is also a line feed. -/
  dotAll : Bool := false
deriving DecidableEq, Repr

/-! ### Characters and classes -/

/-- What a backslash and something after it stand for. -/
inductive Escape where
  | char (c : Char)
  | kind (negated : Bool) (kind : CharKind)
  | anchor (a : Anchor)

/-- The character with a code in hexadecimal digits. -/
def codeChar? (ds : List Char) : Option Char := do
  let digit (c : Char) : Option Nat :=
    if c.isDigit then some (c.toNat - 48)
    else if 'a' ≤ c ∧ c ≤ 'f' then some (c.toNat - 87)
    else if 'A' ≤ c ∧ c ≤ 'F' then some (c.toNat - 55)
    else none
  let n := (← ds.mapM digit).foldl (fun n d => n * 16 + d) 0
  if ds ≠ [] ∧ n.isValidChar then some (Char.ofNat n) else none

/-- Reads a code: in braces, or with a fixed number of digits. -/
def readCode (width : Nat) (cs : List Char) : Except SyntaxError (Escape × List Char) :=
  let (digits, rest) :=
    match cs with
    | '{' :: inner => ((Text.cutChars '}' inner).getD ([], []))
    | _ => if cs.length < width then ([], []) else (cs.take width, cs.drop width)
  match codeChar? digits with
  | some c => .ok (.char c, rest)
  | none => .error .unknownEscape

/-- The letters that stand for a character after a backslash. -/
def letterChar? (c : Char) : Option Char :=
  [('n', 10), ('t', 9), ('r', 13), ('a', 7), ('f', 12), ('v', 11)].lookup c |>.map Char.ofNat

/-- The letters that stand for a kind of characters after a backslash. -/
def letterKind? (c : Char) : Option (Bool × CharKind) :=
  [('d', (false, CharKind.digit)), ('D', (true, .digit)), ('s', (false, .space)),
    ('S', (true, .space)), ('w', (false, .word)), ('W', (true, .word))].lookup c

/-- The letters that stand for a place after a backslash. -/
def letterAnchor? (c : Char) : Option Anchor :=
  [('A', Anchor.textStart), ('z', .textEnd), ('b', .wordEdge), ('B', .noWordEdge)].lookup c

/-- Whether a backslash before a character stands for the character. -/
def isEscapable (c : Char) : Bool :=
  c.toNat < 128 && !c.isAlphanum && c ≠ '<' && c ≠ '>'

/-- Reads what follows a backslash. -/
def readEscape : List Char → Except SyntaxError (Escape × List Char)
  | [] => .error .unknownEscape
  | 'x' :: cs => readCode 2 cs
  | 'u' :: cs => readCode 4 cs
  | 'U' :: cs => readCode 8 cs
  | c :: cs =>
    match letterChar? c, letterKind? c, letterAnchor? c with
    | some c, _, _ => .ok (.char c, cs)
    | _, some (negated, k), _ => .ok (.kind negated k, cs)
    | _, _, some a => .ok (.anchor a, cs)
    | _, _, _ => if isEscapable c then .ok (.char c, cs) else .error .unknownEscape

/-- Reads one character or kind of a class. -/
def readClassItem : List Char → Except SyntaxError (ClassItem × List Char)
  | [] => .error .unclosedClass
  | '\\' :: cs => do
    match ← readEscape cs with
    | (.char c, rest) => return (.range c c, rest)
    | (.kind negated k, rest) => return (.kind negated k, rest)
    | (.anchor _, _) => throw .unknownEscape
  | c :: cs => .ok (.range c c, cs)

/-- Reads a range, or what stands alone. -/
def readClassRange (cs : List Char) : Except SyntaxError (ClassItem × List Char) := do
  let (first, rest) ← readClassItem cs
  match rest with
  | '-' :: after =>
    if after.head? = some ']' ∨ after.head? = some '-' then return (first, rest)
    else
      let (last, rest) ← readClassItem after
      match first, last with
      | .range a _, .range _ b => if a ≤ b then return (.range a b, rest) else throw .badRange
      | _, _ => throw .badRange
  | _ => return (first, rest)

/-- The class that a name in brackets and colons stands for, and what follows it. -/
def readNamedClass? (cs : List Char) : Option (List ClassItem × List Char) := do
  let (name, rest) ← Text.cutChars ':' cs
  let items ← namedClasses.lookup (String.ofList name)
  match rest with
  | ']' :: rest => return (items, rest)
  | _ => none

/-- Reads the parts of a class in which `depth` more classes are open, to its end. -/
def readClassItems : (fuel depth : Nat) → List Char →
    Except SyntaxError (List ClassItem × List Char)
  | 0, _, _ => .error .unclosedClass
  | fuel + 1, depth, cs =>
    match cs with
    | ']' :: rest =>
      match depth with
      | 0 => .ok ([], rest)
      | depth + 1 => readClassItems fuel depth rest
    | '[' :: rest =>
      match (Text.afterPrefix? [':'] rest).bind readNamedClass? with
      | some (items, rest) => do
        let (more, rest) ← readClassItems fuel depth rest
        return (items ++ more, rest)
      | none => readClassItems fuel (depth + 1) rest
    | _ => do
      let (item, rest) ← readClassRange cs
      let (more, rest) ← readClassItems fuel depth rest
      return (item :: more, rest)

/-- Reads a class after its opening bracket. A closing one right after it, and hyphens, stand for
themselves. -/
def readClass (folded : Bool) (cs : List Char) : Except SyntaxError (CharClass × List Char) := do
  let negated := cs.head? = some '^'
  let cs := if negated then cs.tail else cs
  let hyphens := (cs.takeWhile (· = '-')).map fun c => ClassItem.range c c
  let cs := cs.dropWhile (· = '-')
  let (own, cs) :=
    if hyphens.isEmpty ∧ cs.head? = some ']' then ([ClassItem.range ']' ']'], cs.tail) else ([], cs)
  let (items, rest) ← readClassItems (cs.length + 1) 0 cs
  return (⟨negated, folded, hyphens ++ own ++ items⟩, rest)

/-! ### Groups -/

/-- What an opening parenthesis begins. -/
inductive Opening where
  /-- A group with a number. -/
  | numbered
  /-- A group without one. -/
  | plain (mode : Mode)
  /-- No group, but a change of the mode. -/
  | change (mode : Mode)

/-- Reads the letters of a mode up to the mark behind them. -/
def readMode (on any : Bool) (mode : Mode) : List Char → Except SyntaxError (Opening × List Char)
  | ')' :: cs => if any then .ok (.change mode, cs) else .error .badGroup
  | ':' :: cs => .ok (.plain mode, cs)
  | '-' :: cs => if on then readMode false false mode cs else .error .badGroup
  | 'i' :: cs => readMode on true { mode with folded := on } cs
  | 'm' :: cs => readMode on true { mode with lines := on } cs
  | 's' :: cs => readMode on true { mode with dotAll := on } cs
  | _ => .error .badGroup

/-- Reads the name of a group, to which nothing refers. -/
def readGroupName (cs : List Char) : Except SyntaxError (Opening × List Char) :=
  match Text.cutChars '>' cs with
  | some (first :: more, rest) =>
    if (first.isAlpha || first = '_') && more.all fun c => c.isAlphanum || c = '_' then
      .ok (.numbered, rest)
    else .error .badGroup
  | _ => .error .badGroup

/-- Reads what follows an opening parenthesis. -/
def readOpening (mode : Mode) : List Char → Except SyntaxError (Opening × List Char)
  | '?' :: 'P' :: '<' :: cs => readGroupName cs
  | '?' :: '<' :: cs => readGroupName cs
  | '?' :: cs => readMode true false mode cs
  | cs => .ok (.numbered, cs)

/-- A group that is open. -/
structure Open where
  /-- The number of the group, if it has one. -/
  number : Option Nat
  /-- How characters are compared behind it. -/
  mode : Mode
  /-- The choices before the current one, the latest first. -/
  choices : List Regex
  /-- The parts of the current choice, the latest first. -/
  parts : List Regex

namespace Open

/-- A group that has just been opened. -/
def start (number : Option Nat) (mode : Mode) : Open := ⟨number, mode, [], []⟩

/-- The current choice as an expression. -/
def current (o : Open) : Regex :=
  match o.parts with
  | [] => empty
  | part :: parts => parts.foldl (fun right left => sequence left right) part

/-- The group with one more part. -/
def push (o : Open) (part : Regex) : Open := { o with parts := part :: o.parts }

/-- The group with a further choice begun. -/
def nextChoice (o : Open) : Open := { o with choices := o.current :: o.choices, parts := [] }

/-- The group as an expression. -/
def close (o : Open) : Regex :=
  let body := o.choices.foldl (fun right left => choice left right) o.current
  match o.number with
  | some n => group n body
  | none => body

end Open

/-! ### Repetitions -/

/-- A part, or nothing. -/
def optional (greedy : Bool) (body : Regex) : Regex :=
  if greedy then choice body empty else choice empty body

/-- A part a number of times, and then something else. -/
def times (body : Regex) : Nat → Regex → Regex
  | 0, next => next
  | n + 1, next => sequence body (times body n next)

/-- A part at most a number of times. -/
def atMost (greedy : Bool) (body : Regex) : Nat → Regex
  | 0 => empty
  | n + 1 => optional greedy (sequence body (atMost greedy body n))

/-- How often a part is repeated: at least and at most. -/
structure Count where
  least : Nat
  most : Option Nat

/-- Reads a number in a count. -/
def readNumber (cs : List Char) : Except SyntaxError (Nat × List Char) :=
  match Decimal.readDigits (cs.dropWhile (· = ' ')) with
  | ([], _) => .error .badCount
  | (ds, rest) => .ok (Decimal.value ds, rest.dropWhile (· = ' '))

/-- Reads a count after its opening brace. -/
def readCount (cs : List Char) : Except SyntaxError (Count × List Char) := do
  let (least, rest) ← readNumber cs
  match rest with
  | '}' :: rest => return (⟨least, some least⟩, rest)
  | ',' :: '}' :: rest => return (⟨least, none⟩, rest)
  | ',' :: rest =>
    let (most, rest) ← readNumber rest
    match rest with
    | '}' :: rest => if least ≤ most then return (⟨least, some most⟩, rest) else throw .badCount
    | _ => throw .badCount
  | _ => throw .badCount

/-- Reads a mark of repetition, if there is one. -/
def readRepetition? : List Char → Option (Except SyntaxError (Count × List Char))
  | '*' :: cs => some (.ok (⟨0, none⟩, cs))
  | '+' :: cs => some (.ok (⟨1, none⟩, cs))
  | '?' :: cs => some (.ok (⟨0, some 1⟩, cs))
  | '{' :: cs => some (readCount cs)
  | _ => none

/-- A part repeated as a count says. -/
def repetition (count : Count) (greedy : Bool) (body : Regex) : Regex :=
  times body count.least (match count.most with
    | none => repeated greedy body
    | some most => atMost greedy body (most - count.least))

/-! ### Expressions -/

/-- A single character. -/
def char (mode : Mode) (c : Char) : Regex := chars ⟨false, mode.folded, [.range c c]⟩

/-- Any character, or any but a line feed. -/
def anyChar (mode : Mode) : Regex :=
  chars ⟨true, false, if mode.dotAll then [] else [.range '\n' '\n']⟩

/-- What an escape stands for. -/
def Escape.regex (mode : Mode) : Escape → Regex
  | .char c => Regex.char mode c
  | .kind negated k => chars ⟨negated, false, [.kind false k]⟩
  | .anchor a => Regex.anchor a

/-- Reads one part that is neither a group nor a choice, nor a repetition. -/
def readPart (mode : Mode) : List Char → Except SyntaxError (Regex × List Char)
  | '[' :: cs => do
    let (k, rest) ← readClass mode.folded cs
    return (chars k, rest)
  | '\\' :: cs => do
    let (escape, rest) ← readEscape cs
    return (escape.regex mode, rest)
  | '.' :: cs => .ok (anyChar mode, cs)
  | '^' :: cs => .ok (anchor (if mode.lines then .lineStart else .textStart), cs)
  | '$' :: cs => .ok (anchor (if mode.lines then .lineEnd else .textEnd), cs)
  | c :: cs => .ok (char mode c, cs)
  | [] => .ok (empty, [])

/-- Reads on with the groups that are open; `next` is the number of the next group. Each step
takes a character, so `fuel` need not be more than there are. -/
def readFrom : (fuel next : Nat) → (mode : Mode) → (innermost : Open) → (outer : List Open) →
    List Char → Except SyntaxError Regex
  | 0, _, _, innermost, outer, _ =>
    if outer.isEmpty then .ok innermost.close else .error .unclosedGroup
  | fuel + 1, next, mode, innermost, outer, cs =>
    match cs with
    | [] => if outer.isEmpty then .ok innermost.close else .error .unclosedGroup
    | '(' :: rest => do
      match ← readOpening mode rest with
      | (.numbered, rest) =>
        readFrom fuel (next + 1) mode (.start (some next) mode) (innermost :: outer) rest
      | (.plain inner, rest) =>
        readFrom fuel next inner (.start none mode) (innermost :: outer) rest
      | (.change mode, rest) => readFrom fuel next mode innermost outer rest
    | ')' :: rest =>
      match outer with
      | [] => .error .unopenedGroup
      | around :: outer =>
        readFrom fuel next innermost.mode (around.push innermost.close) outer rest
    | '|' :: rest => readFrom fuel next mode innermost.nextChoice outer rest
    | _ =>
      match readRepetition? cs with
      | none => do
        let (part, rest) ← readPart mode cs
        readFrom fuel next mode (innermost.push part) outer rest
      | some read =>
        match innermost.parts with
        | [] => .error .nothingToRepeat
        | part :: parts => do
          let (count, rest) ← read
          let greedy := rest.head? ≠ some '?'
          let rest := if greedy then rest else rest.tail
          readFrom fuel next mode { innermost with parts := repetition count greedy part :: parts }
            outer rest

/-- Reads a regular expression. -/
def read (text : String) : Except SyntaxError Regex :=
  readFrom text.length 1 {} (.start none {}) [] text.toList

end ImagePipeline.Regex
