import ImagePipeline.Json.Record
import ImagePipeline.Text.Blank
import ImagePipeline.Text.Case

/-!
# Outcomes of builds

The outcome of a build as the scheduler reports it. At the start of a build there is none yet,
and every text that names no outcome means the same.

* `BuildOutcome.ofName_name`: the name of an outcome denotes it.
-/

namespace ImagePipeline

/-- The outcome of a build. -/
inductive BuildOutcome where
  | success
  | failure
  | unstable
  | aborted
  | notBuilt
  /-- Not decided yet. -/
  | unknown
deriving DecidableEq, Repr, Inhabited

namespace BuildOutcome

/-- All outcomes. -/
def all : List BuildOutcome := [success, failure, unstable, aborted, notBuilt, unknown]

/-- The name of an outcome. -/
def name : BuildOutcome → String
  | success => "SUCCESS"
  | failure => "FAILURE"
  | unstable => "UNSTABLE"
  | aborted => "ABORTED"
  | notBuilt => "NOT_BUILT"
  | unknown => "UNKNOWN"

/-- The outcome of a name. -/
def ofName (s : String) : BuildOutcome :=
  (all.find? (·.name == s)).getD unknown

/-- The outcome of a text in any letter case, blanks around it aside. -/
def read (s : String) : BuildOutcome :=
  ofName (Text.upper (Text.trim s))

/-- The constructor name in the JSON form, which has no underscore. -/
def tag : BuildOutcome → String
  | notBuilt => "NOTBUILT"
  | o => o.name

/-- The JSON form of an outcome. -/
def toJson (o : BuildOutcome) : Json := .string o.tag

/-- The outcome of a JSON form; an unknown name is the unknown outcome. -/
def ofJson? (j : Json) : Option BuildOutcome :=
  j.enumeration fun s => some ((all.find? (·.tag == s)).getD unknown)

theorem ofName_name (o : BuildOutcome) : ofName o.name = o := by
  cases o <;> decide

end BuildOutcome

end ImagePipeline
