import ImagePipeline.Files.Error
import ImagePipeline.Files.Tree
import ImagePipeline.Text.Utf8

/-!
# Paths

A path is a text: names with slashes between them. It leads from the root if it begins with a
slash and from a working directory otherwise. Links on the way are followed, up to forty of
them.

* `Tree.locate` finds the entry that a path leads to; whether a link at its very end is followed
  is for the caller to say, but a slash after the link always follows it.
* `Tree.readBytes` and `Tree.readText` read a file by its path.
* `joinPath` appends one path to another; a path from the root replaces the first.
-/

namespace ImagePipeline.Files

/-- Whether a path leads from the root. -/
def isAbsolute (path : String) : Bool :=
  path.toList.head? == some '/'

/-- A path, continued by another. -/
def joinPath (base path : String) : String :=
  if isAbsolute path then path
  else if base = "" ∨ base.toList.getLast? = some '/' then base ++ path
  else base ++ "/" ++ path

/-- The steps of a path. A slash at the end is a step to the directory itself. -/
def steps (path : String) : List String :=
  let pieces := Text.split '/' path
  let names := pieces.filter (· ≠ "")
  if pieces.getLast? = some "" && !names.isEmpty then names ++ ["."] else names

/-- The most links that are followed on one way. -/
def linkLimit : Nat := 40

/-- Where following a path ends. -/
inductive Descent where
  /-- At an entry. -/
  | arrived (place : Location)
  /-- At a link to be followed, with the directory it stands in and the steps after it. -/
  | link (parent : Location) (target : String) (rest : List String)
  | failed (error : FileError)

namespace Tree

/-- Follows steps from a directory as far as the first link to be followed. -/
def descend (t : Tree) (followLast : Bool) (place : Location) : List String → Descent
  | [] => .arrived place
  | step :: rest =>
    if step = "." then t.descend followLast place rest
    else if step = ".." then t.descend followLast place.tail rest
    else
      match t.find? (step :: place) with
      | none => .failed .notFound
      | some .directory => t.descend followLast (step :: place) rest
      | some (.file _) => if rest.isEmpty then .arrived (step :: place) else .failed .notADirectory
      | some (.link target) =>
        if rest.isEmpty && !followLast then .arrived (step :: place)
        else .link place target rest

/-- Follows steps from a directory and up to `budget` links on the way. -/
def follow (t : Tree) (followLast : Bool) :
    (budget : Nat) → Location → List String → Except FileError Location
  | budget, place, todo =>
    match t.descend followLast place todo with
    | .arrived place => .ok place
    | .failed error => .error error
    | .link parent target rest =>
      match budget with
      | 0 => .error .tooManyLinks
      | budget + 1 =>
        t.follow followLast budget (if isAbsolute target then [] else parent) (steps target ++ rest)

/-- The entry that a path leads to from a working directory. -/
def locate (t : Tree) (here : Location) (followLast : Bool) (path : String) :
    Except FileError Location :=
  if path = "" then .error .notFound
  else t.follow followLast linkLimit (if isAbsolute path then [] else here) (steps path)

/-- What is at the end of a path, links followed. -/
def lookup (t : Tree) (here : Location) (path : String) : Except FileError Entry := do
  let place ← t.locate here true path
  match t.find? place with
  | some entry => .ok entry
  | none => .error .notFound

/-- Whether a path leads to an entry. -/
def reaches (t : Tree) (here : Location) (path : String) : Bool :=
  (t.lookup here path).isOk

/-- Whether a path leads to a directory. -/
def isDirectory (t : Tree) (here : Location) (path : String) : Bool :=
  match t.lookup here path with
  | .ok .directory => true
  | _ => false

/-- Whether a path leads to a file. -/
def isFile (t : Tree) (here : Location) (path : String) : Bool :=
  match t.lookup here path with
  | .ok (.file _) => true
  | _ => false

/-- The bytes of the file that a path leads to. -/
def readBytes (t : Tree) (here : Location) (path : String) : Except FileError (List UInt8) := do
  match ← t.lookup here path with
  | .file bytes => .ok bytes
  | _ => .error .isADirectory

/-- The text of the file that a path leads to. -/
def readText (t : Tree) (here : Location) (path : String) : Except FileError String := do
  match Text.decode (← t.readBytes here path) with
  | some text => .ok text
  | none => .error .notText

end Tree

end ImagePipeline.Files
