import ImagePipeline.Build.Error
import ImagePipeline.Files.Path
import ImagePipeline.Sha1

/-!
# Build recipes

What a source tree says about the toolchain it needs: the digest of the recipe that builds the
image, and the commit that the clone script checks out.

* `fileDigestBy` takes a file in as its reads deliver it, and `fileDigest` with full pieces up to
  the last one; `Sha1` says that the pieces do not show.
* `extract` finds the first group of a pattern in a file. The file is read first, so one that
  cannot be read is reported whatever the pattern.
-/

namespace ImagePipeline.Build

open Files (Tree Location joinPath)

/-- The script that fetches the toolchain's sources. -/
def cloneScript : String := "utils/clone-mlir.sh"

/-- The pattern of the commit in that script. -/
def checkoutPattern : String := "git checkout ([0-9a-f]+)"

/-- The bytes of one piece of a file. -/
def pieceSize : Nat := 1024 * 1024

/-- A hasher after the reads of a file; the read of nothing is the end of the file. -/
def digestReads (h : Sha1.Hasher) : List (List UInt8) → Sha1.Hasher
  | [] => h
  | [] :: _ => h
  | piece :: rest => digestReads (h.push piece) rest

/-- Reads that deliver as many bytes as there is room for, while there are any. -/
def fullReads (size : Nat) (bytes : List UInt8) : List (List UInt8) :=
  if _h : size = 0 ∨ bytes = [] then []
  else bytes.take size :: fullReads size (bytes.drop size)
termination_by bytes.length
decreasing_by
  rw [not_or] at _h
  have := List.length_pos_iff.2 _h.2
  simp only [List.length_drop]
  omega

/-- The SHA-1 digest in hexadecimal digits of a file whose reads deliver its bytes in some way. -/
def fileDigestBy (deliver : List UInt8 → List (List UInt8)) (t : Tree) (here : Location)
    (path : String) : Except ImageError String :=
  match t.readBytes here path with
  | .ok bytes => .ok (digestReads .empty (deliver bytes)).finish.toHex
  | .error error => .error (.unreadable path error)

/-- The SHA-1 digest of a file in hexadecimal digits. -/
def fileDigest (t : Tree) (here : Location) (path : String) : Except ImageError String :=
  fileDigestBy (fullReads pieceSize) t here path

/-- What the first group of a pattern matches in a file. -/
def extract (t : Tree) (here : Location) (path pattern : String) : Except ImageError String :=
  match t.readText here path with
  | .error error => .error (.unreadable path error)
  | .ok text =>
    match Regex.read pattern with
    | .error reason => .error (.patternMissing path pattern (some reason))
    | .ok regex =>
      match regex.search text with
      | some found => .ok found
      | none => .error (.patternMissing path pattern none)

/-- The toolchain commit that a source tree checks out. -/
def toolchainCommit (t : Tree) (here : Location) (root : String) : Except ImageError String :=
  extract t here (joinPath root cloneScript) checkoutPattern

end ImagePipeline.Build
