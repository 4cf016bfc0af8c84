import ImagePipeline.Build.Error
import ImagePipeline.Text.Pieces

/-!
# Tags and registries in image names

* `validateTag` accepts a letter, digit or underscore followed by at most 127 characters that may
  also be dots and hyphens.
* `registryOf` finds the registry in an image name: the part before the first slash, if it looks
  like a host.
-/

namespace ImagePipeline

/-- The most bytes of a tag. -/
def maxTagBytes : Nat := 128

/-- The characters of tags. -/
def isTagChar (c : Char) : Bool :=
  c.isAlphanum || c = '.' || c = '-' || c = '_'

/-- Checks a tag. Of several faults the first in the order of `TagFault` is reported. -/
def validateTag (tag : String) : Except ImageError Unit :=
  if tag.isEmpty then .error (.invalidTag .empty)
  else if maxTagBytes < tag.utf8ByteSize then .error (.invalidTag (.tooLong tag.utf8ByteSize))
  else if tag.toList.head? = some '.' ∨ tag.toList.head? = some '-' then
    .error (.invalidTag (.badStart tag))
  else
    match tag.toList.find? fun c => !isTagChar c with
    | some c => .error (.invalidTag (.badChar c tag))
    | none => .ok ()

/-- The registry of images whose name has none. -/
def defaultRegistry : String := "docker.io"

/-- The registry in an image name. -/
def registryOf (image : String) : String :=
  match Text.cut '/' image with
  | some (first, _) =>
    if first.toList.contains '.' || first.toList.contains ':' then first else defaultRegistry
  | none => defaultRegistry

end ImagePipeline
