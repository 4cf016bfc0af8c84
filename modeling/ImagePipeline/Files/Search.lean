import ImagePipeline.Files.Path
import ImagePipeline.Files.Pattern

/-!
# Searching a tree

The search for the paths that match a pattern keeps a list of what is still to be looked at, the
next item first. One step takes an item off the list; it may yield a path and put new items in
front. So the tree may change between two steps, as it does when every path found is removed;
what was a directory when the search came upon it still counts as one.

Names without wildcards are looked up and not matched. A link to a directory is searched like the
directory, and the way through links is as long as the limit on links in a path allows.

* `enter` puts what a directory holds for the rest of a pattern on the list.
* `advance` is the step.
-/

namespace ImagePipeline.Files.Search

/-- A path of a search. -/
structure Place where
  /-- The path. -/
  path : String
  /-- Whether it led to a directory when the search came upon it. -/
  directory : Bool
deriving DecidableEq

/-- An item of a search. -/
inductive Item where
  /-- A path that matches. -/
  | found (place : Place)
  /-- A path that matches as far as its last name, with that name and the patterns for it and
  for the names after it. -/
  | candidate (place : Place) (name : String) (pattern : NamePattern) (more : List NamePattern)
  | failed (error : FileError)

/-- A path as the search comes upon it. -/
def placeOf (t : Tree) (here : Location) (path : String) : Place :=
  ⟨path, t.isDirectory here path⟩

/-- The path of a name in a directory; names in the working directory stand alone. -/
def inside (path name : String) : String :=
  if path = "." then name else joinPath path name

/-- The names in the directory that a path leads to, in order. -/
def names (t : Tree) (here : Location) (path : String) : Except FileError (List String) := do
  let location ← t.locate here true path
  match t.find? location with
  | some .directory => .ok ((t.children location).mergeSort fun a b => decide (a ≤ b))
  | _ => .error .notADirectory

/-- What a path holds for the patterns of the names after it. -/
def enter (t : Tree) (here : Location) (place : Place) : List NamePattern → List Item
  | [] => [.found place]
  | .literal name :: more =>
    let next := inside place.path name
    let there :=
      if name = "." ∨ name = ".." then place.directory
      else (t.locate here true next).isOk || (t.locate here false next).isOk
    if there then enter t here (placeOf t here next) more else []
  | pattern :: more =>
    if place.directory then
      match names t here place.path with
      | .error error => [.failed error]
      | .ok found =>
        let dots :=
          if pattern.beginsWithDot then ["..", "."].filter fun name => pattern.accepts name else []
        dots.flatMap (fun name => enter t here (placeOf t here (joinPath place.path name)) more)
          ++ found.map fun name =>
            .candidate (placeOf t here (inside place.path name)) name pattern more
    else []

/-- The last of the patterns for any number of names in a row, and the patterns after it. -/
def lastOfRun (pattern : NamePattern) : List NamePattern → NamePattern × List NamePattern
  | .directories :: more =>
    if pattern = .directories then lastOfRun .directories more else (pattern, .directories :: more)
  | more => (pattern, more)

/-- Matches the last name of a path: the path that is yielded, if any, and the items to look at
after it. -/
def matchLast (t : Tree) (here : Location) (onlyDirectories : Bool) (place : Place) (name : String)
    (pattern : NamePattern) (more : List NamePattern) : Option String × List Item :=
  if !pattern.accepts name then (none, [])
  else if more.isEmpty then
    (if !onlyDirectories || place.directory then some place.path else none, [])
  else (none, enter t here place more)

/-- Looks at an item: the path it yields, if any, and the items in its place. -/
def advance (t : Tree) (here : Location) (onlyDirectories : Bool) :
    Item → Except FileError (Option String × List Item)
  | .failed error => .error error
  | .found place =>
    .ok (if !onlyDirectories || place.directory then some place.path else none, [])
  | .candidate place name pattern more =>
    .ok <|
      match lastOfRun pattern more with
      | (.directories, []) =>
        if place.directory then (some place.path, enter t here place [.directories])
        else (none, [])
      | (.directories, next :: rest) =>
        let (yielded, items) := matchLast t here onlyDirectories place name next rest
        (yielded, items ++ enter t here place (.directories :: next :: rest))
      | (pattern, more) => matchLast t here onlyDirectories place name pattern more

/-- The items with which a search begins. -/
def start (t : Tree) (here : Location) (pattern : PathPattern) : List Item :=
  enter t here ⟨if pattern.absolute then "/" else ".", true⟩ pattern.names

/-- A number of steps after which every search has ended. A path passes at most forty links, and
between two of them it goes down the tree, so this bounds the paths there are; each is looked at
once for every pattern of a name. -/
def bound (t : Tree) (pattern : PathPattern) : Nat :=
  Nat.pow (t.entries.length + 2) (linkLimit + 2) * (pattern.names.length + 2)

end ImagePipeline.Files.Search
