import ImagePipeline.Engine.Client

/-!
# Images of the engine

Looking up, finding, naming and removing images. That the engine does not know an image is an
error of its own wherever an image is named.
-/

namespace ImagePipeline.Engine

/-- What the engine tells about an image. -/
structure ImageDetails where
  id : Option String
  labels : Labels

/-- Reads the labels in a configuration. -/
def readConfig (j : Json) : Option (Option Labels) := do
  match ← j.fields? ["Labels"] with
  | [labels] => labels.nullable Labels.ofJson?
  | _ => none

/-- Reads what the engine tells about an image. -/
def readDetails (j : Json) : Option ImageDetails := do
  match ← j.fields? ["Id", "Config"] with
  | [id, config] =>
    return ⟨← id.nullable Json.text?, ((← config.nullable readConfig).join).getD .empty⟩
  | _ => none

/-- Reads the id of a listed image. -/
def readImageId (j : Json) : Option String := do
  match ← j.fields? ["Id"] with
  | [id] => id.required Json.text?
  | _ => none

/-- Reads the id of a listed container. -/
def readContainerId (j : Json) : Option (Option String) := do
  match ← j.fields? ["Id"] with
  | [id] => id.nullable Json.text?
  | _ => none

/-- An error of a call that names an image. -/
def missingOr (reference : String) (e : EngineError) : ImageError :=
  if e.isNotFound then .imageMissing reference else .engine e

/-- What the engine tells about an image. -/
def inspect (e : EngineEndpoint) (reference : String) : Program ImageError ImageDetails :=
  (value e (.inspect reference) readDetails).mapError (missingOr reference)

/-- The labels of an image. -/
def labels (e : EngineEndpoint) (reference : String) : Program ImageError Labels := do
  return (← inspect e reference).labels

/-- The characters of an id that are shown. -/
def shownIdLength : Nat := 19

/-- The beginning of an image's id. -/
def shortId (e : EngineEndpoint) (reference : String) : Program ImageError String := do
  let details ← inspect e reference
  return String.ofList ((details.id.getD "").toList.take shownIdLength)

/-- The ids of the images that a query asks for. -/
def find (e : EngineEndpoint) (query : ImageQuery) : Program ImageError (List String) :=
  (value e (.listImages query) (Json.list readImageId)).mapError .engine

/-- Gives an image one more name. -/
def tag (e : EngineEndpoint) (source repository tag : String) : Program ImageError Unit := do
  let _ ← (call e (.tagImage source repository tag)).mapError (missingOr source)

/-- Removes an image or one of its names. -/
def remove (e : EngineEndpoint) (reference : String) : Program ImageError Unit := do
  let _ ← (value e (.removeImage reference) Json.items?).mapError (missingOr reference)

end ImagePipeline.Engine
