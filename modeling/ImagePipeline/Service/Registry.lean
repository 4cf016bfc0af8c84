import ImagePipeline.Endpoints
import ImagePipeline.Image.Labels
import ImagePipeline.Service.Fetch

/-!
# The image registry

The labels of an image are asked for in two steps: a token for the repository, then the manifest
with that token. The manifest carries the labels in its first history entry, as JSON text inside
a JSON string.
-/

namespace ImagePipeline

/-- A registry. -/
structure Registry where
  /-- Where the tokens come from. -/
  authUrl : String
  /-- The registry itself. -/
  url : String
  /-- The name of the registry in requests for tokens. -/
  service : String
deriving DecidableEq, Repr

namespace Registry

/-- The registry at some endpoints. -/
def ofEndpoints (e : Endpoints) : Registry := ⟨e.registryAuthUrl, e.registryUrl, e.registryService⟩

/-- The form of manifest that carries labels. -/
def manifestType : String := "application/vnd.docker.distribution.manifest.v1+json"

/-- The token in an answer. -/
def readToken (j : Json) : Option String := do
  match ← j.fields? ["token"] with
  | [token] => token.required Json.text?
  | _ => none

/-- The text of a history entry. -/
def readEntry (j : Json) : Option String := do
  match ← j.fields? ["v1Compatibility"] with
  | [text] => text.required Json.text?
  | _ => none

/-- The texts of the history entries of a manifest. -/
def readHistory (j : Json) : Option (List String) := do
  match ← j.fields? ["history"] with
  | [history] => history.withDefault [] (Json.list readEntry)
  | _ => none

/-- The labels of a container configuration. -/
def readConfig (j : Json) : Option (Option Labels) := do
  match ← j.fields? ["Labels"] with
  | [labels] => labels.nullable Labels.ofJson?
  | _ => none

/-- The labels of an image, from the value in a history entry. -/
def readImage (j : Json) : Option Labels := do
  match ← j.fields? ["config"] with
  | [config] => return ((← config.nullable readConfig).join).getD .empty
  | _ => none

/-- The labels in a manifest's history. -/
def labelsOf (url : String) (history : List String) : Except ServiceError Labels :=
  match history with
  | [] => .error (.unexpectedResponse url "manifest has no history")
  | entry :: _ =>
    match (Json.parse? entry).bind readImage with
    | some labels => .ok labels
    | none => .error .json

/-- Asks for a token to pull from a repository. -/
def pullToken (r : Registry) (repository : String) : Program ServiceError String := do
  let request ← .ofExcept (Fetch.request .get r.authUrl)
  let url := request.url.addQuery
    [("scope", "repository:" ++ repository ++ ":pull"), ("service", r.service)]
  Fetch.json readToken { request with url }

/-- The address of a manifest. -/
def manifestUrl (r : Registry) (repository tag : String) : String :=
  Text.stripEnd '/' r.url ++ "/v2/" ++ repository ++ "/manifests/" ++ tag

/-- The labels of an image in the registry. -/
def labels (r : Registry) (repository tag : String) : Program ServiceError Labels := do
  let token ← r.pullToken repository
  let url := r.manifestUrl repository tag
  let request ← .ofExcept (Fetch.request .get url)
  let history ← Fetch.json readHistory
    ((request.withHeader "accept" manifestType).withHeader "authorization" ("Bearer " ++ token))
  .ofExcept (labelsOf url history)

end Registry

end ImagePipeline
