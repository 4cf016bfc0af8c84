import ImagePipeline.Proofs.LabelValidation
import ImagePipeline.Toolchain.Plan

/-!
# Plans for toolchain images

The plan looks at the labels of the registry's image as texts.

* `plan_eq_pull`, `plan_eq_error`: what the two plans rest on that need the registry.
* `plan_of_validate`: where the labels are valid and the expected date is known, the plan is a
  matter of what the labels record.
-/

namespace ImagePipeline

namespace Toolchain

variable {expected : Provenance} {localMatch : Bool} {remote : Option Labels}

theorem Provenance.agreesWith_iff {labels : Labels} :
    expected.agreesWith labels = true ↔
      labels.get? Provenance.keys.commit = some expected.commit ∧
        labels.get? Provenance.keys.recipeHash = some expected.recipeHash := by
  rw [agreesWith, Bool.and_eq_true, beq_iff_eq, beq_iff_eq]

/-- To pull is the plan for the image that is needed, if it is not there. -/
theorem plan_eq_pull {pullFailed : Bool}
    (h : plan expected localMatch remote pullFailed = .ok .pull) :
    localMatch = false ∧ ∃ labels, remote = some labels ∧ expected.agreesWith labels = true := by
  unfold plan at h
  split at h
  · cases h
  next hlocal =>
    refine ⟨Bool.eq_false_iff.2 hlocal, ?_⟩
    split at h
    · cases h
    next labels =>
      refine ⟨labels, rfl, ?_⟩
      split at h
      · cases h
      split at h
      next hagrees => exact hagrees
      split at h <;> cases h

/-- The only refusal is that the pull request is out of date. -/
theorem plan_eq_error {pullFailed : Bool} {refusal : Refusal}
    (h : plan expected localMatch remote pullFailed = .error refusal) :
    refusal = .sourceOutOfDate := by
  unfold plan at h
  repeat' split at h
  all_goals cases h
  rfl

/-! ## Plans by valid labels -/

variable {labels : Labels} {v : ValidLabels} {image : String} {date : Instant}

theorem records_of_validate (h : labels.validate .toolchain image = .ok v) :
    v.keys = Provenance.keys ∧ labels.Records v :=
  Labels.validate_eq_ok_iff.1 h

theorem Provenance.agreesWith_iff_of_validate
    (h : labels.validate .toolchain image = .ok v) :
    expected.agreesWith labels = true ↔
      v.commit = expected.commit ∧ v.recipeHash = expected.recipeHash := by
  obtain ⟨hkeys, hrecords⟩ := records_of_validate h
  have hcommit : labels.get? keys.commit = some v.commit := hkeys ▸ hrecords.commit
  have hrecipe : labels.get? keys.recipeHash = some v.recipeHash := hkeys ▸ hrecords.recipeHash
  rw [agreesWith_iff, hcommit, hrecipe, Option.some_inj, Option.some_inj]

theorem Provenance.precedes_iff_of_validate (h : labels.validate .toolchain image = .ok v)
    (hdate : expected.date? = some date) :
    expected.precedes labels = true ↔ date < v.commitDate := by
  obtain ⟨hkeys, hrecords⟩ := records_of_validate h
  have hlabel : (labels.get? keys.commitDate).bind Instant.read? = some v.commitDate :=
    hkeys ▸ hrecords.commitDate
  rw [precedes, hlabel, hdate]
  exact decide_eq_true_iff

/-- Valid labels are planned with by what they record: an image of the expected commit and recipe
is pulled, another one that is newer makes the plan refuse, and any other one is built. -/
theorem plan_of_validate (h : labels.validate .toolchain image = .ok v)
    (hdate : expected.date? = some date) :
    plan expected false (some labels) false =
      if v.commit = expected.commit ∧ v.recipeHash = expected.recipeHash then .ok .pull
      else if date < v.commitDate then .error .sourceOutOfDate
      else .ok .build := by
  have hsome : labels.isEmpty = false := (records_of_validate h).2.isEmpty_eq_false
  simp only [plan, hsome, Bool.or_false, Bool.false_eq_true, if_false,
    Provenance.agreesWith_iff_of_validate h, Provenance.precedes_iff_of_validate h hdate]

end Toolchain

end ImagePipeline
