import ImagePipeline.Toolchain.Provenance

/-!
# How a toolchain image is made ready

An image that an earlier build left behind is used again. Otherwise the labels of the registry's
image decide: it is pulled if it is the one that is needed, and the build stops if it comes from
a later commit, for then the pull request is out of date. In every other case the image is built.

A pull that failed takes the registry out of the decision, so planning again after one ends.
-/

namespace ImagePipeline.Toolchain

/-- A way to make a toolchain image ready. -/
inductive Plan where
  /-- Use the image that is there. -/
  | reuse
  /-- Pull the registry's image. -/
  | pull
  /-- Build the image. -/
  | build
deriving DecidableEq, Repr

/-- Whether an image with these labels comes from a later commit than the expected one. Dates
that cannot be read are not later. -/
def Provenance.precedes (expected : Provenance) (labels : Labels) : Bool :=
  match (labels.get? Provenance.keys.commitDate).bind Instant.read?, expected.date? with
  | some remote, some expected => decide (expected < remote)
  | _, _ => false

/-- Plans for the expected image. `remote` holds the labels of the registry's image, if they
could be fetched. -/
def plan (expected : Provenance) (localMatch : Bool) (remote : Option Labels)
    (pullFailed : Bool) : Except Refusal Plan :=
  if localMatch then .ok .reuse
  else
    match remote with
    | none => .ok .build
    | some labels =>
      if labels.isEmpty || pullFailed then .ok .build
      else if expected.agreesWith labels then .ok .pull
      else if expected.precedes labels then .error .sourceOutOfDate
      else .ok .build

/-- After a pull that failed, an image that is not there is built. -/
theorem plan_pullFailed (expected : Provenance) (remote : Option Labels) :
    plan expected false remote true = .ok .build := by
  cases remote <;> simp [plan]

end ImagePipeline.Toolchain
