import ImagePipeline.Yaml.Token

/-!
# Reading YAML documents

Values are put together from tokens. A value may have an anchor, which gives it a name for later,
and a tag, whose handle has to be known.

* `Yaml.parse` reads a text with at most one document. There is no value in a text without one.
* The readers call each other with `fuel`, which `parse` computes from the number of tokens: each
  value or entry takes at least one, and few calls.
-/

namespace ImagePipeline.Yaml

/-- What is left of the tokens, with what is known about names. -/
structure Reading where
  /-- The tokens left. -/
  tokens : List Token
  /-- The values with an anchor, the latest first. -/
  anchors : List (String × Yaml)
  /-- The handles of tags. -/
  handles : List String

/-- Reading from tokens. -/
abbrev Reader := StateT Reading (Except Error)

namespace Reader

/-- Fails. -/
def fail {α : Type} (e : Error) : Reader α := throw e

/-- The next token. -/
def peek : Reader (Option Token) := do return (← get).tokens.head?

/-- Passes the next token. -/
def pass : Reader Unit := modify fun r => { r with tokens := r.tokens.tail }

/-- The empty value. -/
def nothing : Yaml := scalar "" true

/-- Gives a name to a value. -/
def record (name : Option String) (value : Yaml) : Reader Unit :=
  modify fun r => { r with anchors := (name.map (·, value)).toList ++ r.anchors }

/-- Reads an anchor, if there is one. -/
def anchor? : Reader (Option String) := do
  match ← peek with
  | some (.anchor name) =>
    pass
    return some name
  | _ => return none

/-- Reads a tag, if there is one: its handle. -/
def tag? : Reader (Option String) := do
  match ← peek with
  | some (.tag handle) =>
    pass
    return some handle
  | _ => return none

/-- Reads an anchor and a tag in either order: the anchor, and whether there is either. -/
def properties : Reader (Option String × Bool) := do
  let before ← anchor?
  let tag ← tag?
  let name ← if before.isNone && tag.isSome then anchor? else pure before
  if let some handle := tag then
    if handle ≠ "" ∧ handle ∉ (← get).handles then fail .badTag
  return (name, name.isSome || tag.isSome)

/-- Whether an entry of a block is empty, as its next token tells. -/
def endsEntry : Option Token → Bool
  | some .key | some .value | some .blockEnd => true
  | _ => false

/-- Whether an item of a block is empty, as its next token tells. -/
def endsItem : Option Token → Bool
  | some .item | some .blockEnd => true
  | _ => false

/-- Whether a value in brackets is empty, as its next token tells. -/
def endsInBrackets (close : Token → Bool) : Option Token → Bool
  | some .comma => true
  | some t => close t
  | none => false

/-- Whether a key in brackets is empty, as its next token tells. -/
def endsKey (close : Token → Bool) : Option Token → Bool
  | some .value => true
  | next => endsInBrackets close next

/-- Whether a token closes a sequence. -/
def closesSequence : Token → Bool
  | .closeSequence => true
  | _ => false

/-- Whether a token closes a mapping. -/
def closesMapping : Token → Bool
  | .closeMapping => true
  | _ => false

mutual

/-- Reads a value. Whether it may be a block is given by `block`, and whether it may be the items
of a sequence without a block of their own by `items`. -/
def node : (fuel : Nat) → (block items : Bool) → Reader Yaml
  | 0, _, _ => fail .unexpected
  | fuel + 1, block, items => do
    if let some (.reference name) ← peek then
      pass
      match (← get).anchors.lookup name with
      | some value => return value
      | none => fail .unknownAnchor
    else
      let (name, any) ← properties
      record name (.within (name.getD ""))
      let value ← (do
        match ← peek, block, items with
        | some .item, _, true => return sequence (← looseItems fuel)
        | some (.text text plain), _, _ =>
          pass
          return scalar text plain
        | some .openSequence, _, _ =>
          pass
          return sequence (← bracketItems fuel true)
        | some .openMapping, _, _ =>
          pass
          return mapping (← bracketEntries fuel true)
        | some .blockSequence, true, _ =>
          pass
          return sequence (← blockItems fuel)
        | some .blockMapping, true, _ =>
          pass
          return mapping (← blockEntries fuel)
        | _, _, _ => if any then return nothing else fail .unexpected)
      record name value
      return value
termination_by structural fuel => fuel

/-- Reads the items of a block. -/
def blockItems : (fuel : Nat) → Reader (List Yaml)
  | 0 => fail .unexpected
  | fuel + 1 => do
    match ← peek with
    | some .item =>
      pass
      let value ← if endsItem (← peek) then pure nothing else node fuel true false
      return value :: (← blockItems fuel)
    | some .blockEnd =>
      pass
      return []
    | _ => fail .unexpected
termination_by structural fuel => fuel

/-- Reads items that stand in the block of the key before them. -/
def looseItems : (fuel : Nat) → Reader (List Yaml)
  | 0 => fail .unexpected
  | fuel + 1 => do
    match ← peek with
    | some .item =>
      pass
      let next ← peek
      let value ← if endsItem next || endsEntry next then pure nothing else node fuel true false
      return value :: (← looseItems fuel)
    | _ => return []
termination_by structural fuel => fuel

/-- Reads the entries of a block. -/
def blockEntries : (fuel : Nat) → Reader (List (Yaml × Yaml))
  | 0 => fail .unexpected
  | fuel + 1 => do
    match ← peek with
    | some .key =>
      pass
      let key ← if endsEntry (← peek) then pure nothing else node fuel true true
      match ← peek with
      | some .value =>
        pass
        let value ← if endsEntry (← peek) then pure nothing else node fuel true true
        return (key, value) :: (← blockEntries fuel)
      | _ => return (key, nothing) :: (← blockEntries fuel)
    | some .blockEnd =>
      pass
      return []
    | _ => fail .unexpected
termination_by structural fuel => fuel

/-- Reads the value after a key in brackets, if there is one. -/
def bracketValue : (fuel : Nat) → (close : Token → Bool) → Reader Yaml
  | 0, _ => fail .unexpected
  | fuel + 1, close => do
    match ← peek with
    | some .value =>
      pass
      if endsInBrackets close (← peek) then return nothing else node fuel false false
    | _ => return nothing
termination_by structural fuel => fuel

/-- Reads the items up to the closing bracket. A pair is a mapping of its own; where its key is
empty, the token that shows it is passed over. -/
def bracketItems : (fuel : Nat) → (first : Bool) → Reader (List Yaml)
  | 0, _ => fail .unexpected
  | fuel + 1, first => do
    if let some .closeSequence ← peek then
      pass
      return []
    else
      if !first then
        if let some .comma ← peek then pass else fail .unexpected
      match ← peek with
      | some .closeSequence =>
        pass
        return []
      | some .key =>
        pass
        let key ← (do
          let next ← peek
          if endsKey closesSequence next then
            pass
            return nothing
          else node fuel false false)
        let pair := (key, ← bracketValue fuel closesSequence)
        return mapping [pair] :: (← bracketItems fuel false)
      | _ =>
        let value ← node fuel false false
        return value :: (← bracketItems fuel false)
termination_by structural fuel => fuel

/-- Reads the entries up to the closing brace. -/
def bracketEntries : (fuel : Nat) → (first : Bool) → Reader (List (Yaml × Yaml))
  | 0, _ => fail .unexpected
  | fuel + 1, first => do
    if let some .closeMapping ← peek then
      pass
      return []
    else
      if !first then
        if let some .comma ← peek then pass else fail .unexpected
      match ← peek with
      | some .closeMapping =>
        pass
        return []
      | some .key =>
        pass
        let key ← if endsKey closesMapping (← peek) then pure nothing else node fuel false false
        let value ← bracketValue fuel closesMapping
        return (key, value) :: (← bracketEntries fuel false)
      | _ =>
        let key ← node fuel false false
        return (key, nothing) :: (← bracketEntries fuel false)
termination_by structural fuel => fuel

end

/-- Reads the directives in front of a document, given whether a version was among those before. -/
def directives : (fuel : Nat) → (version : Bool) → Reader Unit
  | 0, _ => return
  | fuel + 1, version => do
    match ← peek with
    | some (.directive (.version major minor)) =>
      if version ∨ major ≠ ['1'] ∨ (minor ≠ ['1'] ∧ minor ≠ ['2']) then fail .badDirective
      pass
      directives fuel true
    | some (.directive (.tagHandle handle)) =>
      if handle ∈ (← get).handles then fail .badDirective
      pass
      modify fun r => { r with handles := handle :: r.handles }
      directives fuel version
    | _ => return

/-- The handles that need no directive. -/
def usualHandles : List String := ["!", "!!"]

/-- Passes the marks behind a document. -/
def passEnds : (fuel : Nat) → Reader Unit
  | 0 => return
  | fuel + 1 => do
    if let some .documentEnd ← peek then
      pass
      passEnds fuel

/-- Whether a document is empty, as the token after its mark tells. -/
def endsDocument : Option Token → Bool
  | none | some .documentStart | some .documentEnd | some (.directive _) => true
  | _ => false

/-- Reads the only document, if there is one. -/
def document (fuel : Nat) : Reader (Option Yaml) := do
  match ← peek with
  | none => return none
  | some .documentStart | some (.directive _) =>
    directives fuel false
    modify fun r => { r with handles := usualHandles ++ r.handles }
    match ← peek with
    | some .documentStart => pass
    | _ => fail .unexpected
    let root ← if endsDocument (← peek) then pure nothing else node fuel true false
    finish root
  | some _ =>
    modify fun r => { r with handles := usualHandles }
    finish (← node fuel true false)
where
  /-- Nothing may follow a document. -/
  finish (root : Yaml) : Reader (Option Yaml) := do
    passEnds fuel
    match ← peek with
    | none => return some root
    | some .documentStart | some (.directive _) => fail .severalDocuments
    | some _ => fail .unexpected

end Reader

/-- Reads a text with at most one document. -/
def parse (text : String) : Except Error (Option Yaml) := do
  let cs := match text.toList with
    | c :: cs => if isByteOrderMark c then cs else c :: cs
    | [] => []
  let cs := normalizeBreaks cs
  if !cs.all isPrintable then throw .badCharacter
  let tokens ← tokens cs
  return (← (Reader.document (3 * (tokens.length + 1))).run ⟨tokens, [], []⟩).1

end ImagePipeline.Yaml
