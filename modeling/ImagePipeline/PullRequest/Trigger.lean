import ImagePipeline.Json.Record
import ImagePipeline.Text.Blank

/-!
# Trigger phrases and local tags

The phrase that started a build decides two things: whether images are published whatever the
registry holds, and the tag under which the build left them.

* `Trigger.forces` holds of the publishing phrase alone.
* `localTag` is the main branch's tag for a push and the pull request's number otherwise.
-/

namespace ImagePipeline.PullRequest

/-- The phrase that started a build. -/
inductive Trigger where
  | publish
  /-- A push to the main branch. -/
  | push
  | other (text : String)
deriving DecidableEq, Repr

namespace Trigger

/-- The phrases with a meaning of their own. -/
def known : List Trigger := [publish, push]

/-- The text of a phrase. -/
def text : Trigger → String
  | publish => "publish"
  | push => "push"
  | other text => text

/-- The phrase of a text without blanks around it. -/
def ofText (s : String) : Trigger :=
  (known.find? (·.text == s)).getD (other s)

/-- The phrase of a text. -/
def read (s : String) : Trigger :=
  ofText (Text.trim s)

/-- Whether images are published without looking at the registry's. -/
def forces : Trigger → Bool
  | publish => true
  | _ => false

/-- The constructor name in the JSON form. -/
def tag : Trigger → String
  | publish => "Publish"
  | push => "Push"
  | other _ => "Other"

/-- The JSON form: a constructor name, with the text of an unknown phrase. -/
def toJson : Trigger → Json
  | other text => .object [("Other", .string text)]
  | t => .string t.tag

/-- The phrase of a JSON form. -/
def ofJson? (j : Json) : Option Trigger := do
  let (name, content) ← j.variant?
  match known.find? (·.tag == name), content with
  | some t, none => some t
  | some t, some .null => some t
  | none, some (.string text) => if name = "Other" then some (other text) else none
  | _, _ => none

theorem ofText_text_of_mem {t : Trigger} (h : t ∈ known) : ofText t.text = t := by
  simp only [known, List.mem_cons, List.not_mem_nil, or_false] at h
  rcases h with rfl | rfl <;> decide

/-- A phrase that comes out of a text is the phrase of its own text. -/
theorem ofText_text_ofText (s : String) : ofText (ofText s).text = ofText s := by
  unfold ofText
  cases h : known.find? (·.text == s) with
  | some t => exact ofText_text_of_mem (List.mem_of_find?_eq_some h)
  | none =>
    show (known.find? (·.text == s)).getD (other s) = other s
    rw [h]
    rfl

end Trigger

/-- The tag of the images that a push to the main branch builds. -/
def mainTag : String := "master"

/-- The tag under which a build leaves its images. -/
def localTag (t : Trigger) (pr : String) : String :=
  match t with
  | .push => mainTag
  | _ => pr

end ImagePipeline.PullRequest
