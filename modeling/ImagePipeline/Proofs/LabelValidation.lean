import ImagePipeline.Image.Labels

/-!
# What valid labels record

Labels are valid for a family if they have a commit, a date that can be read and the hash of a
recipe under the keys of the family, none of them empty.

* `Labels.Records`: labels record what an image was built from.
* `Labels.validate_eq_ok_iff`: validation accepts exactly the labels that record something, and
  yields what they record; the name of the image only shows in refusals (`validate_unique`).
-/

namespace ImagePipeline

namespace Labels

variable {ls : Labels} {family : Family} {image key : String} {v : ValidLabels}

/-- The labels record this commit, date and recipe, under these keys. -/
structure Records (ls : Labels) (v : ValidLabels) : Prop where
  commit : ls.get? v.keys.commit = some v.commit
  commit_ne_empty : v.commit ≠ ""
  commitDate : (ls.get? v.keys.commitDate).bind Instant.read? = some v.commitDate
  recipeHash : ls.get? v.keys.recipeHash = some v.recipeHash
  recipeHash_ne_empty : v.recipeHash ≠ ""

/-- Labels with a value are not empty. -/
theorem isEmpty_eq_false_of_get? {text : String} (h : ls.get? key = some text) :
    ls.isEmpty = false := by
  cases hlist : ls.toList with
  | nil =>
    rw [get?, hlist] at h
    cases h
  | cons entry entries => rw [isEmpty, hlist, List.isEmpty_cons]

theorem Records.isEmpty_eq_false (h : ls.Records v) : ls.isEmpty = false :=
  isEmpty_eq_false_of_get? h.commit

theorem hasValue_iff : ls.hasValue key = true ↔ ∃ text, ls.get? key = some text ∧ text ≠ "" := by
  unfold hasValue
  cases ls.get? key with
  | none => simp
  | some text => simp

theorem missing_eq_nil_iff {keys : LabelKeys} :
    ls.missing keys = [] ↔
      ls.hasValue keys.commit = true ∧ ls.hasValue keys.commitDate = true ∧
        ls.hasValue keys.recipeHash = true := by
  simp [missing, LabelKeys.all, List.filter_eq_nil_iff]

/-- Valid are the labels that record something. -/
theorem validate_eq_ok_iff :
    ls.validate family image = .ok v ↔ v.keys = family.labelKeys ∧ ls.Records v := by
  constructor
  · intro h
    unfold validate at h
    dsimp only at h
    split at h
    next hmissing =>
      obtain ⟨hcommit, hcommitDate, hrecipeHash⟩ := missing_eq_nil_iff.1 hmissing
      obtain ⟨commit, hcommit, hcommit'⟩ := hasValue_iff.1 hcommit
      obtain ⟨text, htext, -⟩ := hasValue_iff.1 hcommitDate
      obtain ⟨recipe, hrecipe, hrecipe'⟩ := hasValue_iff.1 hrecipeHash
      rw [hcommit, htext, hrecipe] at h
      simp only [Option.getD_some] at h
      split at h
      next date hdate =>
        cases h
        exact ⟨rfl, hcommit, hcommit', by rw [htext, Option.bind_some, hdate], hrecipe, hrecipe'⟩
      next => cases h
    next => cases h
  · rintro ⟨hkeys, h⟩
    obtain ⟨text, htext, hdate⟩ := Option.bind_eq_some_iff.1 h.commitDate
    have htext' : text ≠ "" := by
      rintro rfl
      cases hdate
    have hmissing : ls.missing v.keys = [] :=
      missing_eq_nil_iff.2 ⟨hasValue_iff.2 ⟨_, h.commit, h.commit_ne_empty⟩,
        hasValue_iff.2 ⟨_, htext, htext'⟩, hasValue_iff.2 ⟨_, h.recipeHash, h.recipeHash_ne_empty⟩⟩
    unfold validate
    simp only [← hkeys, hmissing, h.commit, htext, h.recipeHash, Option.getD_some, hdate]

/-- Under every name of the image the same labels are valid. -/
theorem validate_unique {image' : String} {v' : ValidLabels}
    (h : ls.validate family image = .ok v) (h' : ls.validate family image' = .ok v') : v' = v := by
  have hv : ls.validate family image' = .ok v := validate_eq_ok_iff.2 (validate_eq_ok_iff.1 h)
  cases h'.symm.trans hv
  rfl

end Labels

end ImagePipeline
