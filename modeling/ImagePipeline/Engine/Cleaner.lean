import ImagePipeline.Engine.Images

/-!
# Removing images with their containers

An image can be removed only after the containers that come from it. What happens when a removal
fails is for the caller to say: the first failure ends everything, or it is counted and left.

* `Engine.removeAll` goes through the images in order.
-/

namespace ImagePipeline

/-- What a failed removal means. -/
inductive OnFailure where
  /-- The first one ends the cleanup. -/
  | abort
  /-- It is counted, for the engine may be cleaning up at the same time. -/
  | ignore
deriving DecidableEq, Repr

/-- What a cleanup has done. -/
structure CleanupReport where
  containersRemoved : Nat
  imagesRemoved : Nat
  failures : Nat
deriving DecidableEq, Repr

namespace CleanupReport

/-- Nothing yet. -/
def empty : CleanupReport := ⟨0, 0, 0⟩

def addContainer (r : CleanupReport) : CleanupReport :=
  { r with containersRemoved := r.containersRemoved + 1 }

def addImage (r : CleanupReport) : CleanupReport := { r with imagesRemoved := r.imagesRemoved + 1 }

def addFailure (r : CleanupReport) : CleanupReport := { r with failures := r.failures + 1 }

end CleanupReport

namespace Engine

/-- The ids of the images that were built for a pull request. -/
def prImages (e : EngineEndpoint) (pr : String) (dangling all : Bool) :
    Program ImageError (List String) :=
  find e { ImageQuery.ofLabel (prLabelFilter pr) with dangling, all }

/-- The containers that come from an image; none where a failure to list them is left. -/
def containersOf (e : EngineEndpoint) (onFailure : OnFailure) (image : String) :
    Program ImageError (List String) := do
  let listed ← (value e (.listContainers image) (Json.list readContainerId)).attempt
  match listed, onFailure with
  | .ok ids, _ => return ids.filterMap id
  | .error _, .ignore => return []
  | .error error, .abort => .fail (.engine error)

/-- Removes a container. -/
def removeContainer (e : EngineEndpoint) (id : String) : Program ImageError Unit := do
  let _ ← (call e (.removeContainer id)).mapError .engine

/-- Puts the outcome of a removal into a report. -/
def record (onFailure : OnFailure) (removed : CleanupReport → CleanupReport)
    (removal : Program ImageError Unit) (report : CleanupReport) :
    Program ImageError CleanupReport := do
  match ← removal.attempt, onFailure with
  | .ok (), _ => return removed report
  | .error _, .ignore => return report.addFailure
  | .error error, .abort => .fail error

/-- Removes containers in order. -/
def removeContainers (e : EngineEndpoint) (onFailure : OnFailure) :
    List String → CleanupReport → Program ImageError CleanupReport
  | [], report => return report
  | id :: ids, report => do
    removeContainers e onFailure ids
      (← record onFailure .addContainer (removeContainer e id) report)

/-- Removes images in order, each after the containers that come from it. -/
def removeImages (e : EngineEndpoint) (onFailure : OnFailure) :
    List String → CleanupReport → Program ImageError CleanupReport
  | [], report => return report
  | image :: images, report => do
    let containers ← containersOf e onFailure image
    let report ← removeContainers e onFailure containers report
    removeImages e onFailure images (← record onFailure .addImage (remove e image) report)

/-- Removes images with their containers. A name in place of an id only loses its image that
name. -/
def removeAll (e : EngineEndpoint) (onFailure : OnFailure) (images : List String) :
    Program ImageError CleanupReport :=
  removeImages e onFailure images .empty

end Engine

end ImagePipeline
