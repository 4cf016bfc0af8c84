import ImagePipeline.Json.Record
import ImagePipeline.Text.Case

/-!
# The image catalogue

The images that the pipeline builds and publishes. Two toolchain images hold the compiler
infrastructure, linked statically and as shared libraries; two product images are built on top
of them. Each family records the source it was built from under label keys of its own.

* `ImageKind.base_family`: product images stand on toolchain images, and only they have a base.
* `ImageKind.ofName_name`: the name of a kind denotes it.
-/

namespace ImagePipeline

/-- A family of images with the same label keys. -/
inductive Family where
  | toolchain
  | product
deriving DecidableEq, Repr

/-- The keys of the labels that record what an image was built from. -/
structure LabelKeys where
  /-- The source commit. -/
  commit : String
  /-- The author date of the commit. -/
  commitDate : String
  /-- The hash of the build recipe. -/
  recipeHash : String
deriving DecidableEq, Repr

/-- The three keys in the order of reports. -/
def LabelKeys.all (keys : LabelKeys) : List String :=
  [keys.commit, keys.commitDate, keys.recipeHash]

namespace Family

/-- The label keys of a family. -/
def labelKeys : Family → LabelKeys
  | toolchain =>
    ⟨"llvm_project_sha1", "llvm_project_sha1_date", "llvm_project_dockerfile_sha1"⟩
  | product => ⟨"onnx_mlir_sha1", "onnx_mlir_sha1_date", "onnx_mlir_dockerfile_sha1"⟩

/-- The name of a family. -/
def name : Family → String
  | toolchain => "toolchain"
  | product => "product"

/-- The family of a name. -/
def ofName? (s : String) : Option Family :=
  [toolchain, product].find? (·.name == s)

/-- The JSON form of a family. -/
def toJson (f : Family) : Json := .string f.name

/-- The family of a JSON form. -/
def ofJson? (j : Json) : Option Family := j.enumeration ofName?

end Family

/-- The kinds of images. -/
inductive ImageKind where
  | static
  | shared
  | dev
  | usr
deriving DecidableEq, Repr

/-- The label that records the pull request an image was built for. -/
def prNumberLabel : String := "onnx_mlir_pr_number"

namespace ImageKind

/-- All kinds in the order of publication. -/
def all : List ImageKind := [static, shared, dev, usr]

/-- The toolchain images. -/
def toolchain : List ImageKind := [static, shared]

/-- The product images. -/
def product : List ImageKind := [dev, usr]

/-- The short name of a kind. -/
def name : ImageKind → String
  | static => "static"
  | shared => "shared"
  | dev => "dev"
  | usr => "usr"

/-- The kind of a short name. -/
def ofName? (s : String) : Option ImageKind :=
  all.find? (·.name == s)

/-- The kind of a short name in any letter case. -/
def read? (s : String) : Option ImageKind :=
  ofName? (Text.lower s)

/-- The name of the image in a registry. -/
def imageName : ImageKind → String
  | static => "onnx-mlir-llvm-static"
  | shared => "onnx-mlir-llvm-shared"
  | dev => "onnx-mlir-dev"
  | usr => "onnx-mlir"

/-- The family of a kind. -/
def family : ImageKind → Family
  | static | shared => .toolchain
  | dev | usr => .product

/-- The build recipe, relative to the root of the source tree. -/
def dockerfile : ImageKind → String
  | static | shared => "docker/Dockerfile.llvm-project"
  | dev => "docker/Dockerfile.onnx-mlir-dev"
  | usr => "docker/Dockerfile.onnx-mlir"

/-- The toolchain image that a product image is built on. -/
def base : ImageKind → Option ImageKind
  | dev => some static
  | usr => some shared
  | static | shared => none

/-- Whether a toolchain image is built as shared libraries. -/
def buildSharedLibs : ImageKind → Option String
  | static => some "off"
  | shared => some "on"
  | dev | usr => none

/-- The JSON form of a kind. -/
def toJson (k : ImageKind) : Json := .string k.name

/-- The kind of a JSON form. -/
def ofJson? (j : Json) : Option ImageKind := j.enumeration ofName?

/-- The repository of an image under a user. -/
def repository (user : String) (k : ImageKind) : String :=
  user ++ "/" ++ k.imageName

/-- The image reference of a tag under a user. -/
def reference (user : String) (k : ImageKind) (tag : String) : String :=
  repository user k ++ ":" ++ tag

theorem mem_all (k : ImageKind) : k ∈ all := by
  cases k <;> decide

theorem ofName_name (k : ImageKind) : ofName? k.name = some k := by
  cases k <;> decide

theorem base_family {k b : ImageKind} (h : k.base = some b) :
    k.family = .product ∧ b.family = .toolchain := by
  cases k <;> cases h <;> exact ⟨rfl, rfl⟩

end ImageKind

end ImagePipeline
