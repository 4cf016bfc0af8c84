import ImagePipeline.Image.Labels

/-!
# Where a toolchain image comes from

A pull request fixes the toolchain it needs by the commit that its clone script checks out and by
the recipe that builds the image. Both are found again in the labels of an image.

* `Provenance.labelFilters` asks an engine for the images with both labels, `agreesWith` tests the
  labels of one image for them.
* `Provenance.buildArgs` and `productBuildArgs` are the arguments of the two kinds of builds; each
  refuses images of the other family.
-/

namespace ImagePipeline

/-- Named arguments of a build. -/
abbrev BuildArgs := List (String × String)

namespace Toolchain

/-- What a toolchain image has to be built from. -/
structure Provenance where
  /-- The source commit. -/
  commit : String
  /-- The author date of the commit as a text; empty where it could not be found out. -/
  commitDate : String
  /-- The hash of the build recipe. -/
  recipeHash : String
deriving DecidableEq, Repr

namespace Provenance

/-- The label keys of toolchain images. -/
def keys : LabelKeys := Family.toolchain.labelKeys

/-- The date of the commit, if the text is one. -/
def date? (p : Provenance) : Option Instant :=
  Instant.read? p.commitDate

/-- A label filter of the engine. -/
def labelFilter (key value : String) : String :=
  key ++ "=" ++ value

/-- The filters for images built from this commit by this recipe. -/
def labelFilters (p : Provenance) : List String :=
  [labelFilter keys.commit p.commit, labelFilter keys.recipeHash p.recipeHash]

/-- Whether an image with these labels was built from this commit by this recipe. -/
def agreesWith (p : Provenance) (labels : Labels) : Bool :=
  labels.get? keys.commit == some p.commit && labels.get? keys.recipeHash == some p.recipeHash

/-- The arguments of a toolchain build. -/
def buildArgs (p : Provenance) (kind : ImageKind) (pr : String) : Except Refusal BuildArgs :=
  match kind.buildSharedLibs with
  | none => .error (.notToolchain kind)
  | some sharedLibs =>
    .ok [("BUILD_SHARED_LIBS", sharedLibs), ("LLVM_PROJECT_SHA1", p.commit),
      ("LLVM_PROJECT_SHA1_DATE", p.commitDate), ("LLVM_PROJECT_DOCKERFILE_SHA1", p.recipeHash),
      ("ONNX_MLIR_PR_NUMBER", pr)]

end Provenance

end Toolchain

/-- The arguments of a product build, which names the toolchain image it stands on. -/
def productBuildArgs (kind : ImageKind) (user pr : String) : Except Refusal BuildArgs :=
  match kind.base with
  | none => .error (.notProduct kind)
  | some base => .ok [("BASE_IMAGE", base.reference user pr), ("ONNX_MLIR_PR_NUMBER", pr)]

/-- The filter for the images built for a pull request. -/
def prLabelFilter (pr : String) : String :=
  Toolchain.Provenance.labelFilter prNumberLabel pr

end ImagePipeline
