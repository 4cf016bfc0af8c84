import ImagePipeline.Decimal.Numeral

/-!
# JSON values

A value keeps what the text says: numbers as numerals, the members of an object in order and
with their repetitions. What repetitions mean is decided by who reads the value.
-/

namespace ImagePipeline

open Decimal (Numeral)

/-- A JSON value. -/
inductive Json where
  | null
  | bool (b : Bool)
  | number (n : Numeral)
  | string (s : String)
  | array (items : List Json)
  | object (members : List (String × Json))
  /-- Well-formed as JSON text without denoting a value: a string with an unpaired surrogate,
  or an object with such a string for a key. -/
  | illFormed
deriving Inhabited

namespace Json

/-- The text of a string. -/
def text? : Json → Option String
  | string s => some s
  | _ => none

/-- The truth value of a literal. -/
def bool? : Json → Option Bool
  | bool b => some b
  | _ => none

/-- The number of a whole numeral of 64 bits. -/
def natural? : Json → Option Nat
  | number n => n.natural? UInt64.size
  | _ => none

/-- The items of an array. -/
def items? : Json → Option (List Json)
  | array items => some items
  | _ => none

/-- The members of an object. -/
def members? : Json → Option (List (String × Json))
  | object members => some members
  | _ => none

/-- The last member with a key. -/
def member? (key : String) : Json → Option Json
  | object members => members.reverse.lookup key
  | _ => none

mutual

/-- How deep arrays and objects are nested in a value. -/
def depth : Json → Nat
  | array items => depthItems items + 1
  | object members => depthMembers members + 1
  | _ => 0

/-- How deep arrays and objects are nested in a list of values. -/
def depthItems : List Json → Nat
  | [] => 0
  | j :: js => max j.depth (depthItems js)

/-- How deep arrays and objects are nested in a list of members. -/
def depthMembers : List (String × Json) → Nat
  | [] => 0
  | (_, j) :: ms => max j.depth (depthMembers ms)

end

end Json

end ImagePipeline
