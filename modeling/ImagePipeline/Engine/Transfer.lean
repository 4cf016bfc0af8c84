import ImagePipeline.Engine.Images

/-!
# Building and transferring images

A build, a pull and a push each answer with a stream of messages. The first error in it is the
result; without one the work is done.

* `Engine.publish` sends an image to the registry under another tag, which is there only for the
  time of the transfer: however that ends, the tag is removed again.
-/

namespace ImagePipeline.Engine

/-- The image with a tag. -/
def tagged (repository tag : String) : String := repository ++ ":" ++ tag

/-- Goes through the messages of a build: prints the output and stops at details of an error. -/
def showBuild : List EngineMessage → Program ImageError Unit
  | [] => return
  | m :: ms => do
    match m.errorDetail with
    | some detail => .fail (.buildFailed (detail.getD "Unknown build error"))
    | none =>
      if let some text := m.stream then Program.write text
      if let some text := m.status then Program.writeLine text
      showBuild ms

/-- Builds an image. -/
def build (e : EngineEndpoint) (dockerfile tag : String) (args : BuildArgs)
    (context : Build.Archive) : Program ImageError Unit := do
  let reply ← (call e (.build dockerfile tag args context)).mapError .engine
  let (messages, ending) := EngineMessage.ofReply reply
  showBuild messages
  match ending with
  | some error => .fail (.engine error)
  | none => return

/-- The credentials for an image. -/
def credentialsFor (source : CredentialSource) (env : Environment) (image : String) :
    Program ImageError (Option Credentials) := do
  let t ← Program.files
  .ofExcept (source.find t env.here image)

/-- Pulls an image from the registry. -/
def pull (e : EngineEndpoint) (source : CredentialSource) (env : Environment)
    (repository tag : String) : Program ImageError Unit := do
  let image := tagged repository tag
  let credentials ← credentialsFor source env image
  let reply ← (call e (.pull repository tag credentials)).mapError fun error =>
    .pullFailed image error.message
  let (messages, ending) := EngineMessage.ofReply reply
  match messages.findSome? (·.errorDetail) with
  | some detail => .fail (.pullFailed image (detail.getD "unknown error"))
  | none =>
    match ending with
    | some error => .fail (.pullFailed image error.message)
    | none => return

/-- Pushes an image to the registry: its name there. -/
def push (e : EngineEndpoint) (source : CredentialSource) (env : Environment)
    (repository tag : String) : Program ImageError String := do
  let image := tagged repository tag
  .ofExcept (validateTag tag)
  let credentials ← credentialsFor source env image
  Program.writeLine ("  → " ++ image)
  let reply ← (call e (.push repository tag credentials)).mapError fun error =>
    .pushFailed error.message
  match (EngineMessage.ofReply reply).2 with
  | some error => .fail (.pushFailed error.message)
  | none => return image

/-- Sends an image to the registry under the tag of the architecture: its name there. -/
def publish (e : EngineEndpoint) (source : CredentialSource) (env : Environment)
    (repository localTag arch : String) : Program ImageError String := do
  .ofExcept (validateTag localTag)
  .ofExcept (validateTag arch)
  Engine.tag e (tagged repository localTag) repository arch
  let pushed ← (push e source env repository arch).attempt
  let _ ← (remove e (tagged repository arch)).attempt
  .ofExcept pushed

end ImagePipeline.Engine
