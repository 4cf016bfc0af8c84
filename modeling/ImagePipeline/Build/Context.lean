import ImagePipeline.Build.Error
import ImagePipeline.Files.Path

/-!
# Build contexts

The context of a build is an archive of the source tree: every entry below its root, and the root
itself. Links are put in as links and not followed, only the root may be given by a link.

* `Archive.ofTree` visits directories before what they hold.
* `buildContext` wants the root to be a directory and the recipe to be a file, in this order.
* Names and link targets stand in fields of a hundred bytes in their shortest form. One that is
  longer stands in a field of its own as it was given, which for a name means from `./` on.
-/

namespace ImagePipeline.Build

open Files (Tree Location Entry joinPath isAbsolute)

/-- What an archive holds under a name. -/
inductive ArchiveContent where
  | directory
  | file (bytes : List UInt8)
  | link (target : String)
deriving DecidableEq

/-- An entry of an archive. -/
structure ArchiveEntry where
  /-- The name. -/
  name : String
  /-- What the name stands for. -/
  content : ArchiveContent
deriving DecidableEq

/-- An archive. -/
abbrev Archive := List ArchiveEntry

namespace Archive

/-- The bytes that a name or a link target may have in its own field. -/
def fieldSize : Nat := 100

/-- The name of the root. -/
def rootName : String := "./"

/-- The name of an entry, given the names on the way from the root. -/
def entryName (names : List String) : String :=
  let name := "/".intercalate names
  if name.utf8ByteSize ≤ fieldSize then name else rootName ++ name

/-- A link target without the steps that lead nowhere. A dot in front stays, and after a slash at
the end one slash is written. -/
def shortTarget (target : String) : String :=
  let pieces := Text.split '/' target
  let front := if isAbsolute target then "/" else if pieces.head? = some "." then "." else ""
  let names := pieces.filter fun piece => piece ≠ "" && piece ≠ "."
  let path := "/".intercalate names
  let whole := if names.isEmpty then front else joinPath front path
  if pieces.getLast? = some "" then whole ++ "/" else whole

/-- A link target as the archive holds it. -/
def linkTarget (target : String) : String :=
  let short := shortTarget target
  if short.utf8ByteSize ≤ fieldSize then short else target

/-- What the archive holds for an entry of a tree. -/
def content : Entry → ArchiveContent
  | .directory => .directory
  | .file bytes => .file bytes
  | .link target => .link (linkTarget target)

/-- The names from a directory to a location below it. -/
def namesBelow (root place : Location) : List String :=
  (place.take (place.length - root.length)).reverse

/-- The archive of what a tree holds below a location, the root first. -/
def ofTree (t : Tree) (root : Location) : Archive :=
  ⟨rootName, .directory⟩ :: (t.below root).map fun (place, entry) =>
    ⟨entryName (namesBelow root place), content entry⟩

end Archive

/-- The context of a build from a recipe. -/
def buildContext (t : Tree) (here : Location) (root dockerfile : String) :
    Except ImageError Archive :=
  let recipe := joinPath root dockerfile
  match t.lookup here root, t.locate here true root with
  | .ok .directory, .ok place =>
    if t.isFile here recipe then .ok (Archive.ofTree t place)
    else .error (.dockerfileMissing recipe)
  | _, _ => .error (.contextMissing root)

end ImagePipeline.Build
