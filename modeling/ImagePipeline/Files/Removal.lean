import ImagePipeline.Files.Search

/-!
# Removing what matches a pattern

Every path that a search yields is removed before the search goes on. A directory goes with all
below it. A symbolic link is removed itself, and never what it leads to.

* `Tree.removePath` removes one path, `removeMatching` all that match a pattern, in order.
* A removal that fails ends the search; what was removed before stays removed.
-/

namespace ImagePipeline.Files

/-- Why paths could not be removed. -/
inductive RemovalError where
  | pattern (error : PatternError)
  | file (error : FileError)
deriving DecidableEq, Repr

/-- The text of an error. -/
def RemovalError.message : RemovalError → String
  | pattern error => error.message
  | file error => error.message

namespace Tree

/-- The tree without what is below a location. -/
def clear (t : Tree) (l : Location) : Tree :=
  (t.children l).foldl (fun t name => t.remove (name :: l)) t

/-- Removes the file, link or directory that a path leads to, a link at its end not followed. A
path that leads to a directory without naming it, in a dot or through a link, only empties it. -/
def removePath (t : Tree) (here : Location) (path : String) : Tree × Except FileError Unit :=
  match t.locate here false path, t.locate here false (Text.stripEnd '/' path) with
  | .error error, _ => (t, .error error)
  | .ok place, named =>
    match ((Text.split '/' path).filter (· ≠ "")).getLast? with
    | none => (t.clear place, .error (.other "Device or resource busy (os error 16)"))
    | some "." => (t.clear place, .error (.other "Invalid argument (os error 22)"))
    | some ".." => (t.clear place, .error .notFound)
    | some _ =>
      if named.toOption = some place then (t.remove place, .ok ())
      else (t.clear place, .error .notADirectory)

end Tree

namespace Removal

/-- Goes on with a search for at most `fuel` steps, removing what it yields. -/
def sweep (here : Location) (onlyDirectories : Bool) :
    (fuel : Nat) → Tree → List Search.Item → List String →
      Tree × Except FileError (List String)
  | 0, t, _, removed => (t, .ok removed.reverse)
  | _ + 1, t, [], removed => (t, .ok removed.reverse)
  | fuel + 1, t, item :: items, removed =>
    match Search.advance t here onlyDirectories item with
    | .error error => (t, .error error)
    | .ok (none, next) => sweep here onlyDirectories fuel t (next ++ items) removed
    | .ok (some path, next) =>
      match t.removePath here path with
      | (t, .error error) => (t, .error error)
      | (t, .ok ()) => sweep here onlyDirectories fuel t (next ++ items) (path :: removed)

end Removal

/-- Removes all paths that match a pattern and tells which, in order. -/
def removeMatching (t : Tree) (here : Location) (pattern : String) :
    Tree × Except RemovalError (List String) :=
  match PathPattern.read pattern with
  | .error error => (t, .error (.pattern error))
  | .ok p =>
    let (t, result) :=
      Removal.sweep here p.onlyDirectories (Search.bound t p) t (Search.start t here p) []
    (t, result.mapError .file)

end ImagePipeline.Files
