import ImagePipeline.Json.Record
import ImagePipeline.Text.Blank

/-!
# Actions on pull requests

What happened to a pull request, as the event that started a build names it. Names are compared
as they are written, blanks around them aside; any other text is kept.

* `Action.ofText_text_ofText`: the text of an action that comes out of a text denotes it again.
-/

namespace ImagePipeline.PullRequest

/-- An action on a pull request. -/
inductive Action where
  | opened
  | reopened
  | synchronize
  | closed
  /-- A push to the main branch. -/
  | push
  | other (text : String)
deriving DecidableEq, Repr

namespace Action

/-- The actions with a name of their own. -/
def known : List Action := [opened, reopened, synchronize, closed, push]

/-- The text of an action. -/
def text : Action → String
  | opened => "opened"
  | reopened => "reopened"
  | synchronize => "synchronize"
  | closed => "closed"
  | push => "push"
  | other text => text

/-- The action of a text without blanks around it. -/
def ofText (s : String) : Action :=
  (known.find? (·.text == s)).getD (other s)

/-- The action of a text. -/
def read (s : String) : Action :=
  ofText (Text.trim s)

/-- The constructor name in the JSON form. -/
def tag : Action → String
  | opened => "Opened"
  | reopened => "Reopened"
  | synchronize => "Synchronize"
  | closed => "Closed"
  | push => "Push"
  | other _ => "Other"

/-- The JSON form: a constructor name, with the text of an unknown action. -/
def toJson : Action → Json
  | other text => .object [("Other", .string text)]
  | a => .string a.tag

/-- The action of a JSON form. -/
def ofJson? (j : Json) : Option Action := do
  let (name, content) ← j.variant?
  match known.find? (·.tag == name), content with
  | some a, none => some a
  | some a, some .null => some a
  | none, some (.string text) => if name = "Other" then some (other text) else none
  | _, _ => none

theorem ofText_text_of_mem {a : Action} (h : a ∈ known) : ofText a.text = a := by
  simp only [known, List.mem_cons, List.not_mem_nil, or_false] at h
  rcases h with rfl | rfl | rfl | rfl | rfl <;> decide

/-- An action that comes out of a text is the action of its own text. -/
theorem ofText_text_ofText (s : String) : ofText (ofText s).text = ofText s := by
  unfold ofText
  cases h : known.find? (·.text == s) with
  | some a => exact ofText_text_of_mem (List.mem_of_find?_eq_some h)
  | none =>
    show (known.find? (·.text == s)).getD (other s) = other s
    rw [h]
    rfl

end Action

end ImagePipeline.PullRequest
