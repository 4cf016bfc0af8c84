import ImagePipeline.Decimal.Numeral

/-!
# Errors of the engine

What can go wrong between a request to the container engine and its answer.
-/

namespace ImagePipeline

/-- An error of a request to the engine. -/
inductive EngineError where
  /-- An answer that is no success. -/
  | responded (status : Nat) (message : String)
  /-- An error among the values of a stream. -/
  | stream (message : String)
  /-- There is no socket at the path. -/
  | socketMissing (path : String)
  /-- No connection could be made. -/
  | unreachable
  /-- The connection ended without an answer. -/
  | dropped
  /-- An answer of the wrong form. -/
  | unreadable
deriving DecidableEq, Repr

namespace EngineError

/-- The text of an error. -/
def message : EngineError → String
  | responded status text =>
    "Docker responded with status code " ++ Decimal.natText status ++ ": " ++ text
  | stream text => "Docker stream error: " ++ text
  | socketMissing path => "Socket not found: " ++ path
  | unreachable => "Error in the hyper legacy client: client error (Connect)"
  | dropped => "Error in the hyper legacy client: client error (SendRequest)"
  | unreadable => "Failed to deserialize JSON"

/-- Whether the engine has not found what was asked for. -/
def isNotFound : EngineError → Bool
  | responded status _ => status = 404
  | _ => false

end EngineError

end ImagePipeline
