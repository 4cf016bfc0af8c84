import ImagePipeline.Decimal.Double
import ImagePipeline.Json.Record
import ImagePipeline.Text.Pieces

/-!
# Builds as the scheduler describes them

A build was started with parameters, which stand in its actions. Of the actions that hold
parameters, the first parameter of each tells what the build is for.

* `ParameterValue.text?` is the value as a text. Whole numbers keep their digits as far as 64 bits
  go; all others are doubles.
* `BuildInfo.startedFor` compares that text.
-/

namespace ImagePipeline

/-- A parameter of a build. -/
structure BuildParameter where
  name : String
  /-- The value, a null if there is none. -/
  value : Json

/-- An action of a build. -/
structure BuildAction where
  /-- The kind of the action. -/
  kind : Option String
  parameters : List BuildParameter

/-- What the scheduler tells about a build. -/
structure BuildInfo where
  number : Nat
  building : Bool
  actions : List BuildAction

/-- The text of a number: its digits if it is whole and has 64 bits, else that of a double. -/
def numeralText? (n : Decimal.Numeral) : Option String :=
  let magnitude := Decimal.value n.whole
  if n.isWhole && !n.negative && magnitude < UInt64.size then some (Decimal.natText magnitude)
  else if n.isWhole && n.negative && magnitude ≠ 0 && magnitude ≤ UInt64.size / 2 then
    some ("-" ++ Decimal.natText magnitude)
  else n.toDouble?.map Decimal.doubleText

namespace BuildParameter

/-- The value as a text; nulls, lists and objects have none. -/
def valueText? (p : BuildParameter) : Option String :=
  match p.value with
  | .string s => some s
  | .number n => numeralText? n
  | .bool true => some "true"
  | .bool false => some "false"
  | _ => none

/-- The deepest nesting of a value inside a parameter. -/
def depthLimit : Nat := 122

mutual

/-- Whether all of a value can be read: every number is one of the doubles, or a whole one. -/
def isSound : Json → Bool
  | .number n => (numeralText? n).isSome
  | .array items => areSound items
  | .object members => haveSound members
  | .illFormed => false
  | _ => true

/-- Whether all of some values can be read. -/
def areSound : List Json → Bool
  | [] => true
  | j :: js => isSound j && areSound js

/-- Whether all of some members can be read. -/
def haveSound : List (String × Json) → Bool
  | [] => true
  | (_, j) :: ms => isSound j && haveSound ms

end

/-- Reads a parameter. -/
def ofJson? (j : Json) : Option BuildParameter := do
  match ← j.fields? ["name", "value"] with
  | [name, value] =>
    let sound (j : Json) : Option Json :=
      if isSound j && j.depth ≤ depthLimit then some j else none
    return ⟨← name.required Json.text?, ← value.withDefault .null sound⟩
  | _ => none

end BuildParameter

namespace BuildAction

/-- The end of the names of the actions that hold parameters. -/
def parametersKind : String := "ParametersAction"

/-- Whether an action holds parameters. -/
def holdsParameters (a : BuildAction) : Bool :=
  a.kind.any (Text.endsWith parametersKind)

/-- Reads an action. -/
def ofJson? (j : Json) : Option BuildAction := do
  match ← j.fields? ["_class", "parameters"] with
  | [kind, parameters] =>
    return ⟨← kind.nullable Json.text?,
      ← parameters.withDefault [] (Json.list BuildParameter.ofJson?)⟩
  | _ => none

end BuildAction

namespace BuildInfo

/-- Reads what the scheduler tells about a build. -/
def ofJson? (j : Json) : Option BuildInfo := do
  match ← j.fields? ["number", "building", "actions"] with
  | [number, building, actions] =>
    return ⟨← number.withDefault 0 Json.natural?, ← building.withDefault false Json.bool?,
      ← actions.withDefault [] (Json.list BuildAction.ofJson?)⟩
  | _ => none

/-- The first parameters of the actions that hold parameters. -/
def firstParameters (b : BuildInfo) : List BuildParameter :=
  (b.actions.filter (·.holdsParameters)).filterMap (·.parameters.head?)

/-- Whether a build was started for a value of a parameter. -/
def startedFor (b : BuildInfo) (name value : String) : Bool :=
  b.firstParameters.any fun p => p.name = name && p.valueText? = some value

end BuildInfo

end ImagePipeline
