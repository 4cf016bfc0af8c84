import ImagePipeline.Json.Basic

/-!
# Records in JSON

A record with named fields is written as an object; fields it does not know are ignored, and
one that it knows may be given once only. It may also be written as an array of its fields in
the order of their declaration, the last ones left out.

* `fields?` finds the fields of a record, in order of declaration.
* `required`, `nullable` and `withDefault` are the three ways to read one. Leaving a nullable
  field out of an object means null; cutting it off an array is an error.
* `variant?` reads a constructor name: a string, or an object with the name for its only key.
-/

namespace ImagePipeline.Json

/-- What a record says about one of its fields. -/
inductive Field where
  | given (j : Json)
  /-- Not a member of the object. -/
  | omitted
  /-- Beyond the end of the array. -/
  | cutOff

/-- The value of the only member with a key; none when the key is repeated. -/
def uniqueMember (members : List (String × Json)) (key : String) : Option Field :=
  match members.filter (·.1 == key) with
  | [] => some .omitted
  | [(_, j)] => some (.given j)
  | _ => none

/-- The fields of a record in order of declaration. -/
def fields? (names : List String) : Json → Option (List Field)
  | object members => names.mapM (uniqueMember members)
  | array items =>
    if items.length ≤ names.length then
      some (items.map .given ++ List.replicate (names.length - items.length) .cutOff)
    else none
  | _ => none

namespace Field

variable {α : Type}

/-- A field that has to be given. -/
def required (read : Json → Option α) : Field → Option α
  | given j => read j
  | _ => none

/-- A field that may be null or left out of an object. -/
def nullable (read : Json → Option α) : Field → Option (Option α)
  | given .null => some none
  | given j => (read j).map some
  | omitted => some none
  | cutOff => none

/-- A field that may be left out but not null. -/
def withDefault (default : α) (read : Json → Option α) : Field → Option α
  | given j => read j
  | _ => some default

end Field

/-- A constructor name with its content: a string has none, an object its only value. -/
def variant? : Json → Option (String × Option Json)
  | string s => some (s, none)
  | object [(key, j)] => some (key, some j)
  | _ => none

/-- Reads an enumeration. The object form of a name has null for content. -/
def enumeration {α : Type} (read : String → Option α) (j : Json) : Option α := do
  let (name, content) ← variant? j
  match content with
  | none | some .null => read name
  | some _ => none

/-- Reads a list of values. -/
def list {α : Type} (read : Json → Option α) (j : Json) : Option (List α) := do
  (← j.items?).mapM read

/-- Reads an object whose members are all of one kind, in order. -/
def table {α : Type} (read : Json → Option α) (j : Json) : Option (List (String × α)) := do
  (← j.members?).mapM fun (key, j) => (read j).map (key, ·)

end ImagePipeline.Json
