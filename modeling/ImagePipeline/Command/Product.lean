import ImagePipeline.Command.Basic

/-!
# Building the product images

Each product image is built on the toolchain image with the tag of the pull request.
-/

namespace ImagePipeline.Command

open Program (writeLine)

/-- Builds one product image. -/
def buildProduct (e : EngineEndpoint) (env : Environment) (root user pr : String)
    (kind : ImageKind) : Command Unit := do
  let reference := kind.reference user pr
  let args ← allowed (productBuildArgs kind user pr)
  writeLine ""
  writeLine ("▶ " ++ reference ++ " (" ++ kind.dockerfile ++ ")")
  let id ← buildImage e env root kind reference args
  writeLine ("  ✓ " ++ reference ++ " (" ++ id ++ ")")

/-- Builds some product images, in order. -/
def buildProducts (e : EngineEndpoint) (env : Environment) (root user pr : String) :
    List ImageKind → Command Unit
  | [] => return
  | kind :: kinds => do
    buildProduct e env root user pr kind
    buildProducts e env root user pr kinds

/-- Builds the product images of a pull request. -/
def build (s : Settings) (env : Environment) (root : String) : Command Unit := do
  let user ← setting s.requireDockerhubUser
  let pr ← setting s.requirePrNumber
  let e ← connect s env
  writeLine "onnx-mlir イメージをビルド中..."
  buildProducts e env root user pr ImageKind.product

end ImagePipeline.Command
