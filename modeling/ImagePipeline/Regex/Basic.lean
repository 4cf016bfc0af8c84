import ImagePipeline.Regex.Class

/-!
# Regular expressions

Expressions with groups, and their matches in order of preference: the left branch of a choice
before the right one, one more round of a repetition before none. The search takes the leftmost
place with a match and there the preferred one.

* `Regex.run` tries the ways to match at a place in order, until one suits what comes after.
* `Regex.search` yields the text of the first group.
-/

namespace ImagePipeline

namespace Regex

/-- Conditions on the characters around a place. -/
inductive Anchor where
  | textStart
  | textEnd
  | lineStart
  | lineEnd
  /-- Between a character of a word and one that is none. -/
  | wordEdge
  | noWordEdge
deriving DecidableEq, Repr

/-- Whether a place suits an anchor, by the characters before and after it. -/
def Anchor.holds (before after : Option Char) : Anchor → Bool
  | textStart => before.isNone
  | textEnd => after.isNone
  | lineStart => before.all (· = '\n')
  | lineEnd => after.all (· = '\n')
  | wordEdge => before.any (CharKind.word.holds ·) != after.any (CharKind.word.holds ·)
  | noWordEdge => before.any (CharKind.word.holds ·) == after.any (CharKind.word.holds ·)

end Regex

/-- A regular expression. -/
inductive Regex where
  /-- The empty text. -/
  | empty
  /-- A character of a class. -/
  | chars (k : Regex.CharClass)
  | sequence (left right : Regex)
  | choice (left right : Regex)
  /-- Any number of rounds; a greedy repetition prefers more of them. -/
  | repeated (greedy : Bool) (body : Regex)
  /-- A part whose text is kept under a number. -/
  | group (number : Nat) (body : Regex)
  | anchor (a : Regex.Anchor)
deriving DecidableEq, Repr

namespace Regex

/-- How far a match has come. -/
structure Progress where
  /-- The characters before. -/
  position : Nat
  /-- The character before. -/
  before : Option Char
  /-- What follows. -/
  rest : List Char
  /-- The texts of the groups, the latest first. -/
  groups : List (Nat × List Char)

/-- Rounds of a repetition, then what comes after. A round that takes no character is the last, so
`fuel` need not be more than the characters there are and one. -/
def rounds {α : Type} (greedy : Bool)
    (step : Progress → (Progress → Option α) → Option α) (next : Progress → Option α) :
    (fuel : Nat) → Progress → Option α
  | 0, p => next p
  | fuel + 1, p =>
    let more (_ : Unit) : Option α :=
      step p fun q => if p.position < q.position then rounds greedy step next fuel q else next q
    if greedy then (more ()).orElse fun _ => next p else (next p).orElse more

/-- Matches here and goes on with `next`, in the first way that lets it succeed. -/
def run {α : Type} : Regex → Progress → (next : Progress → Option α) → Option α
  | empty, p, next => next p
  | chars k, p, next =>
    match p.rest with
    | c :: rest =>
      if k.holds c then next { p with position := p.position + 1, before := some c, rest } else none
    | [] => none
  | sequence left right, p, next => left.run p fun q => right.run q next
  | choice left right, p, next => (left.run p next).orElse fun _ => right.run p next
  | repeated greedy body, p, next => rounds greedy body.run next (p.rest.length + 1) p
  | group number body, p, next =>
    body.run p fun q =>
      next { q with groups := (number, p.rest.take (q.position - p.position)) :: q.groups }
  | anchor a, p, next => if a.holds p.before p.rest.head? then next p else none

/-- The groups of the preferred match at the leftmost place that has one. -/
def find (r : Regex) (before : Option Char) (cs : List Char) : Option (List (Nat × List Char)) :=
  match r.run ⟨0, before, cs, []⟩ fun p => some p.groups, cs with
  | some groups, _ => some groups
  | none, [] => none
  | none, c :: cs => r.find (some c) cs

/-- The text of the first group, if there is a match and the group takes part in it. -/
def search (r : Regex) (text : String) : Option String :=
  ((r.find none text.toList).bind (·.lookup 1)).map String.ofList

end Regex

end ImagePipeline
