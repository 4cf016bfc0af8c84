import ImagePipeline.Json.Record
import ImagePipeline.Text.Blank
import ImagePipeline.Text.Case

/-!
# Mergeability of pull requests

Whether the source host could merge a pull request. Every text that names no other state is the
unknown state.

* `Mergeability.ofName_name`: the name of a state denotes it.
* `Mergeability.allowsMerge` holds of exactly three states.
-/

namespace ImagePipeline.PullRequest

/-- The states of a pull request with respect to merging. -/
inductive Mergeability where
  | behind
  | blocked
  | clean
  | dirty
  | draft
  | hasHooks
  | unstable
  | unknown
deriving DecidableEq, Repr, Inhabited

namespace Mergeability

/-- All states. -/
def all : List Mergeability :=
  [behind, blocked, clean, dirty, draft, hasHooks, unstable, unknown]

/-- Whether the pull request can be merged. -/
def allowsMerge : Mergeability → Bool
  | clean | hasHooks | unstable => true
  | _ => false

/-- The name of a state. -/
def name : Mergeability → String
  | behind => "behind"
  | blocked => "blocked"
  | clean => "clean"
  | dirty => "dirty"
  | draft => "draft"
  | hasHooks => "has_hooks"
  | unstable => "unstable"
  | unknown => "unknown"

/-- A sentence on a state. -/
def description : Mergeability → String
  | behind => "the head ref is out of date"
  | blocked => "the merge is blocked"
  | clean => "mergeable and passing commit status"
  | dirty => "the merge commit cannot be cleanly created"
  | draft => "the merge is blocked due to the pull request being a draft"
  | hasHooks => "mergeable with passing commit status and pre-receive hooks"
  | unstable => "mergeable with non-passing commit status"
  | unknown => "the state cannot currently be determined"

/-- The state of a name; the unknown one for any other text. -/
def ofName (s : String) : Mergeability :=
  (all.find? (·.name == s)).getD unknown

/-- The state of a text in any letter case, blanks around it aside. -/
def read (s : String) : Mergeability :=
  ofName (Text.lower (Text.trim s))

/-- The JSON form of a state. -/
def toJson (m : Mergeability) : Json := .string m.name

/-- The state of a JSON form. -/
def ofJson? (j : Json) : Option Mergeability :=
  j.enumeration fun s => some (ofName s)

theorem ofName_name (m : Mergeability) : ofName m.name = m := by
  cases m <;> decide

end Mergeability

end ImagePipeline.PullRequest
