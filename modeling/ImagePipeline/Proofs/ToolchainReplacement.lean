import ImagePipeline.Proofs.GateDecision
import ImagePipeline.Proofs.ToolchainPlan
import Mathlib.Order.Lattice

/-!
# A toolchain is built only to replace the one in the registry

A run first plans how a toolchain image is made ready and, when the build is done, puts it before
the gate.  The plan looks at label texts, the gate at valid labels; neither knows of the other.
They agree as long as commits of one date are one commit, which the gate takes for granted.

* `Provenance.built`: the valid labels of an image built for a provenance, by
  `Provenance.validate_of_labelled`.
* `publish_built`, `not_publish_built`: what the gate makes of such an image.
* `plan_agrees_with_gate`: what is built passes the gate, what is refused as out of date would be
  held back, and what is pulled is not sent back.
-/

namespace ImagePipeline.Toolchain

section

variable {expected : Provenance} {remote labels : Labels} {v : ValidLabels} {date : Instant}
  {image : String}

namespace Provenance

/-- The labels that a build for a provenance gives to its image. -/
structure Labelled (expected : Provenance) (labels : Labels) : Prop where
  commit : labels.get? keys.commit = some expected.commit
  commitDate : labels.get? keys.commitDate = some expected.commitDate
  recipeHash : labels.get? keys.recipeHash = some expected.recipeHash

/-- The valid labels of an image built for a provenance whose date is `date`. -/
def built (expected : Provenance) (date : Instant) : ValidLabels :=
  ⟨keys, expected.commit, date, expected.recipeHash⟩

theorem validate_of_labelled (hcommit : expected.commit ≠ "") (hrecipe : expected.recipeHash ≠ "")
    (hdate : expected.date? = some date) (h : expected.Labelled labels) :
    labels.validate .toolchain image = .ok (expected.built date) := by
  have hlabel : (labels.get? keys.commitDate).bind Instant.read? = some date := by
    rw [h.commitDate]
    exact hdate
  exact Labels.validate_eq_ok_iff.2 ⟨rfl, h.commit, hcommit, hlabel, h.recipeHash, hrecipe⟩

end Provenance

/-! ## What was built before the gate -/

/-- What is of another commit or recipe than the registry's image, and not older, passes: of two
commits of one date only the recipes can differ. -/
theorem publish_built (hsame : date = v.commitDate → expected.commit = v.commit)
    (hdiffers : ¬ (v.commit = expected.commit ∧ v.recipeHash = expected.recipeHash))
    (hle : v.commitDate ≤ date) :
    (Gate.decide (expected.built date) (some v) false true).publish = true := by
  refine Gate.decide_publish_iff.2 ⟨rfl, ?_⟩
  rintro w ⟨rfl⟩
  rcases hle.lt_or_eq with hlater | hequal
  · exact .inr (.inl hlater)
  · have hother : expected.recipeHash ≠ v.recipeHash :=
      fun h => hdiffers ⟨(hsame hequal.symm).symm, h.symm⟩
    exact .inr (.inr ⟨hequal.symm, hother⟩)

/-- What is older does not pass. -/
theorem not_publish_built (hnewer : date < v.commitDate) :
    (Gate.decide (expected.built date) (some v) false true).publish = false := by
  refine Bool.eq_false_iff.2 fun hpublish => ?_
  obtain ⟨-, hover⟩ := Gate.decide_publish_iff.1 hpublish
  rcases hover v rfl with hforce | hlater | ⟨hequal, -⟩
  · cases hforce
  · exact lt_asymm hnewer hlater
  · exact hnewer.ne hequal

/-! ## The plan before the gate -/

/-- **The plan agrees with the gate.**  For an image that is neither there nor failed to be pulled,
where commits of one date are one commit: the plan is to build, to refuse or to pull.  The image
that is built has the valid labels of its provenance and passes the gate; the one that a refused
build would have made does not, for the registry's is newer; and the one that is pulled has the
labels of the registry's and does not pass either. -/
theorem plan_agrees_with_gate (hcommit : expected.commit ≠ "") (hrecipe : expected.recipeHash ≠ "")
    (hdate : expected.date? = some date) (hremote : remote.validate .toolchain image = .ok v)
    (hsame : date = v.commitDate → expected.commit = v.commit) :
    (plan expected false (some remote) false = .ok .build ∨
      plan expected false (some remote) false = .error .sourceOutOfDate ∨
      plan expected false (some remote) false = .ok .pull) ∧
    (∀ labels reference, expected.Labelled labels →
      labels.validate .toolchain reference = .ok (expected.built date)) ∧
    (plan expected false (some remote) false = .ok .build →
      (Gate.decide (expected.built date) (some v) false true).publish = true) ∧
    (plan expected false (some remote) false = .error .sourceOutOfDate →
      Gate.decide (expected.built date) (some v) false true = ⟨false, .remoteSameOrNewer⟩) ∧
    (plan expected false (some remote) false = .ok .pull →
      ∀ reference pulled, remote.validate .toolchain reference = .ok pulled →
        pulled = v ∧ (Gate.decide pulled (some v) false true).publish = false) := by
  rw [plan_of_validate hremote hdate]
  refine ⟨?_, fun _ _ h => Provenance.validate_of_labelled hcommit hrecipe hdate h, ?_, ?_, ?_⟩
  · split_ifs
    · exact .inr (.inr rfl)
    · exact .inr (.inl rfl)
    · exact .inl rfl
  · intro hbuild
    split_ifs at hbuild with hagrees hnewer
    · cases hbuild
    · exact publish_built hsame hagrees (not_lt.1 hnewer)
  · intro hrefuse
    split_ifs at hrefuse with hagrees hnewer
    exact Gate.decide_of_not_publish (not_publish_built hnewer)
  · intro _ reference pulled h
    obtain rfl := Labels.validate_unique hremote h
    exact ⟨rfl, Gate.not_publish_self⟩

end

/-! A toolchain, and what the registry may have of it. -/

namespace Registered

def expected : Provenance := ⟨"a1b2c3", "2024-03-01T00:00:00Z", "d0d0"⟩

/-- The date of the commit. -/
def date : Instant := ⟨1709251200, 0⟩

/-- Labels of the registry's image. -/
def labels (commit date recipe : String) : Labels :=
  Labels.ofList [("llvm_project_sha1", commit), ("llvm_project_sha1_date", date),
    ("llvm_project_dockerfile_sha1", recipe)]

/-- What such labels record. -/
def recorded (commit : String) (date : Instant) (recipe : String) : ValidLabels :=
  ⟨Provenance.keys, commit, date, recipe⟩

/-- The registry's image has the same commit, by another text of its date, and another recipe. -/
def otherRecipe : Labels := labels "a1b2c3" "2024-03-01T09:00:00+09:00" "beef"

/-- The registry's image has a later commit. -/
def laterCommit : Labels := labels "ffff" "2024-04-01T00:00:00Z" "d0d0"

/-- The registry's image is the one that is needed. -/
def same : Labels := labels "a1b2c3" "2024-03-01T00:00:00Z" "d0d0"

end Registered

open Registered in
/-- Another recipe at the same date is built and passes, a later commit is refused, and the image
that is needed is pulled. -/
theorem plan_agrees_with_gate_registered :
    (plan expected false (some otherRecipe) false = .ok .build ∧
      (Gate.decide (expected.built date) (some (recorded "a1b2c3" date "beef")) false
        true).publish = true) ∧
    (plan expected false (some laterCommit) false = .error .sourceOutOfDate ∧
      Gate.decide (expected.built date) (some (recorded "ffff" ⟨1711929600, 0⟩ "d0d0")) false
        true = ⟨false, .remoteSameOrNewer⟩) ∧
    (plan expected false (some same) false = .ok .pull ∧
      (Gate.decide (recorded "a1b2c3" date "d0d0") (some (recorded "a1b2c3" date "d0d0")) false
        true).publish = false) := by
  have hdate : expected.date? = some date := by decide +kernel
  have hbuild : plan expected false (some otherRecipe) false = .ok .build := by decide +kernel
  have hrefuse : plan expected false (some laterCommit) false = .error .sourceOutOfDate := by
    decide +kernel
  have hpull : plan expected false (some same) false = .ok .pull := by decide +kernel
  have hother : otherRecipe.validate .toolchain "" = .ok (recorded "a1b2c3" date "beef") := by
    decide +kernel
  have hlater :
      laterCommit.validate .toolchain "" = .ok (recorded "ffff" ⟨1711929600, 0⟩ "d0d0") := by
    decide +kernel
  have hsame : same.validate .toolchain "" = .ok (recorded "a1b2c3" date "d0d0") := by
    decide +kernel
  obtain ⟨-, -, hpasses, -, -⟩ :=
    plan_agrees_with_gate (by decide) (by decide) hdate hother (fun _ => rfl)
  obtain ⟨-, -, -, hbehind, -⟩ :=
    plan_agrees_with_gate (by decide) (by decide) hdate hlater (by decide)
  obtain ⟨-, -, -, -, hback⟩ :=
    plan_agrees_with_gate (by decide) (by decide) hdate hsame (fun _ => rfl)
  exact ⟨⟨hbuild, hpasses hbuild⟩, ⟨hrefuse, hbehind hrefuse⟩, ⟨hpull, (hback hpull _ _ hsame).2⟩⟩

end ImagePipeline.Toolchain
