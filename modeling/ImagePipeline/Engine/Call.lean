import ImagePipeline.Build.Context
import ImagePipeline.Build.Credentials
import ImagePipeline.Engine.Address
import ImagePipeline.Engine.Query
import ImagePipeline.Json.Printer
import ImagePipeline.Toolchain.Provenance
import ImagePipeline.Web.Request

/-!
# Requests to the engine

What the pipeline asks of the engine, by meaning; and the form that goes over the wire: a method,
a path and parameters.

* `EngineCall.changes` holds of the calls that change images or containers.
-/

namespace ImagePipeline

/-- A request to the engine. -/
inductive EngineCall where
  /-- What the engine knows of an image. -/
  | inspect (reference : String)
  | listImages (query : ImageQuery)
  /-- One more name for an image. -/
  | tagImage (source repository tag : String)
  /-- Removes an image, or one of its names. -/
  | removeImage (reference : String)
  /-- The containers that come from an image. -/
  | listContainers (ancestor : String)
  | removeContainer (id : String)
  | pull (repository tag : String) (credentials : Option Credentials)
  | push (repository tag : String) (credentials : Option Credentials)
  | build (dockerfile tag : String) (args : BuildArgs) (context : Build.Archive)
deriving DecidableEq

namespace EngineCall

/-- The method of a call. -/
def method : EngineCall → Web.Method
  | inspect _ | listImages _ | listContainers _ => .get
  | tagImage _ _ _ | pull _ _ _ | push _ _ _ | build _ _ _ _ => .post
  | removeImage _ | removeContainer _ => .delete

/-- Whether a call changes images or containers. -/
def changes (c : EngineCall) : Bool := c.method ≠ .get

/-- The path of a call, as it is written before encoding. -/
def path : EngineCall → String
  | inspect reference => "/images/" ++ reference ++ "/json"
  | listImages _ => "/images/json"
  | tagImage source _ _ => "/images/" ++ source ++ "/tag"
  | removeImage reference => "/images/" ++ reference
  | listContainers _ => "/containers/json"
  | removeContainer id => "/containers/" ++ id
  | pull _ _ _ => "/images/create"
  | push repository _ _ => "/images/" ++ repository ++ "/push"
  | build _ _ _ _ => "/build"

/-- Filters as JSON. -/
def filtersJson (filters : List (String × List String)) : Json :=
  .object (filters.map fun (name, values) => (name, .array (values.map .string)))

/-- A truth value as a parameter. -/
def flag (b : Bool) : String := if b then "true" else "false"

/-- The parameters of a call. -/
def parameters : EngineCall → List (String × String)
  | inspect _ => []
  | listImages q => [("all", flag q.all), ("filters", (filtersJson q.filters).render)]
  | tagImage _ repository tag => [("repo", repository), ("tag", tag)]
  | removeImage _ => [("force", flag true)]
  | listContainers ancestor =>
    [("all", flag true), ("filters", (filtersJson [("ancestor", [ancestor])]).render)]
  | removeContainer _ => [("v", flag true), ("force", flag true)]
  | pull repository tag _ => [("fromImage", repository), ("tag", tag)]
  | push _ tag _ => [("tag", tag)]
  | build dockerfile tag args _ =>
    [("dockerfile", dockerfile), ("t", tag),
      ("buildargs", (Json.object (args.map fun (k, v) => (k, .string v))).render),
      ("rm", flag true), ("forcerm", flag true), ("pull", flag false)]

/-- The credentials of a call, as the engine takes them. A push without any says so. -/
def auth : EngineCall → Option Json
  | pull _ _ credentials => credentials.map credentialsJson
  | push _ _ credentials => some ((credentials.map credentialsJson).getD (.object []))
  | _ => none
where
  /-- Credentials as JSON. -/
  credentialsJson (c : Credentials) : Json :=
    .object [("username", .string c.user), ("password", .string c.password),
      ("serveraddress", .string c.registry)]

end EngineCall

end ImagePipeline
