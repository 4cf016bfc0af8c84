import ImagePipeline.Engine.Transfer
import ImagePipeline.Files.Removal
import ImagePipeline.Refusal
import ImagePipeline.Service.Registry
import ImagePipeline.Settings

/-!
# Commands

What all commands share: the ways in which they fail, the connection to the engine and the
credentials of a run.

* `Failure.userMessage` is what the person who started the run gets to see.
-/

namespace ImagePipeline

/-- Why a command failed. -/
inductive Failure where
  | settings (error : SettingsError)
  | refusal (error : Refusal)
  | image (error : ImageError)
  | service (error : ServiceError)
  | removal (error : Files.RemovalError)
  /-- A failure, with a text on what was being done. -/
  | during (text : String) (cause : Failure)
deriving DecidableEq, Repr

namespace Failure

/-- The text of a failure, the texts on what was being done in front. -/
def message : Failure → String
  | settings e => e.message
  | refusal e => e.message
  | image e => e.message
  | service e => e.message
  | removal e => e.message
  | during text cause => text ++ ": " ++ cause.message

/-- The error with an image that is behind a failure, if there is one. -/
def imageError? : Failure → Option ImageError
  | image e => some e
  | during _ cause => cause.imageError?
  | _ => none

/-- The text of a failure for the person who started the run. -/
def userMessage (f : Failure) : String :=
  match f.imageError? with
  | some e => e.userMessage
  | none => f.message

end Failure

/-- A program that is a command or a part of one. -/
abbrev Command := Program Failure

namespace Command

open Program (writeLine)

/-- A value that has to be set. -/
def setting {α : Type} (r : Except SettingsError α) : Command α := .ofExcept (r.mapError .settings)

/-- A decision that the rules of the pipeline may refuse. -/
def allowed {α : Type} (r : Except Refusal α) : Command α := .ofExcept (r.mapError .refusal)

/-- A work on images, as a part of a command. -/
def onImages {α : Type} (p : Program ImageError α) : Command α := p.mapError .image

/-- A request to a service, as a part of a command. -/
def onService {α : Type} (p : Program ServiceError α) : Command α := p.mapError .service

/-- What is being done while the engine is connected to. -/
def connecting (socket : Option String) : String :=
  "Dockerデーモンに接続できません: " ++ socket.getD "(デフォルト)"

/-- The engine of a run. -/
def connect (s : Settings) (env : Environment) : Command EngineEndpoint := do
  let t ← Program.files
  .ofExcept (((EngineAddress.read s.dockerSocket).connect t env).mapError fun error =>
    .during (connecting s.dockerSocket) (.image (.engine error)))

/-- Where the credentials of a run come from. -/
def credentials (s : Settings) (env : Environment) : CredentialSource :=
  .ofEnvironment env s.dockerhubUser s.dockerhubToken

/-- The action of a run; without one it is none of those with a name. -/
def action (s : Settings) : PullRequest.Action := s.pr.action.getD (.other "")

/-- Builds an image from the recipe of its kind in a source tree. -/
def buildImage (e : EngineEndpoint) (env : Environment) (root : String) (kind : ImageKind)
    (reference : String) (args : BuildArgs) : Command String := do
  let t ← Program.files
  let context ← onImages (.ofExcept (Build.buildContext t env.here root kind.dockerfile))
  onImages (Engine.build e kind.dockerfile reference args context)
  onImages (Engine.shortId e reference)

end Command

end ImagePipeline
