import ImagePipeline.Image.Labels

/-!
# The publication gate

Whether a local image replaces the one in the registry. The first rule that applies decides:

1. a pull request that cannot be merged publishes nothing;
2. an image that the registry lacks, or holds without valid labels, is published;
3. so is one that the trigger phrase forces;
4. so is one built from a later commit;
5. so is one built from a commit of the same instant by a changed recipe;
6. any other is not.

* `decide_publish`: the verdict is determined by its reason.
-/

namespace ImagePipeline.Gate

/-- The rule that decided. -/
inductive Reason where
  | unmergeableState
  | noValidRemote
  | explicitOverride
  | newerSourceCommit
  | changedBuildRecipe
  | remoteSameOrNewer
deriving DecidableEq, Repr

namespace Reason

/-- The name of a reason. -/
def name : Reason → String
  | unmergeableState => "unmergeable_state"
  | noValidRemote => "no_valid_remote"
  | explicitOverride => "explicit_override"
  | newerSourceCommit => "newer_source_commit"
  | changedBuildRecipe => "changed_build_recipe"
  | remoteSameOrNewer => "remote_same_or_newer"

/-- A reason in words. -/
def text : Reason → String
  | unmergeableState => "unmergeable state"
  | noValidRemote => "no valid remote image to compare against"
  | explicitOverride => "explicit override"
  | newerSourceCommit => "newer source commit"
  | changedBuildRecipe => "same commit, changed build recipe"
  | remoteSameOrNewer => "remote is same or newer"

/-- Whether a reason speaks for publication. -/
def publishes : Reason → Bool
  | unmergeableState | remoteSameOrNewer => false
  | _ => true

end Reason

/-- A decision with its reason. -/
structure Verdict where
  /-- Whether the image is published. -/
  publish : Bool
  /-- The rule that decided. -/
  reason : Reason
deriving DecidableEq, Repr

/-- Decides for a local image against the registry's, if that has one with valid labels. -/
def decide (localImage : ValidLabels) (remote : Option ValidLabels) (force mergeable : Bool) :
    Verdict :=
  if !mergeable then ⟨false, .unmergeableState⟩
  else
    match remote with
    | none => ⟨true, .noValidRemote⟩
    | some remote =>
      if force then ⟨true, .explicitOverride⟩
      else if remote.commitDate < localImage.commitDate then ⟨true, .newerSourceCommit⟩
      else if localImage.commitDate = remote.commitDate ∧
          localImage.recipeHash ≠ remote.recipeHash then
        ⟨true, .changedBuildRecipe⟩
      else ⟨false, .remoteSameOrNewer⟩

/-- The reason determines the decision. -/
theorem decide_publish (l : ValidLabels) (r : Option ValidLabels) (force mergeable : Bool) :
    (decide l r force mergeable).publish = (decide l r force mergeable).reason.publishes := by
  unfold decide
  split
  · rfl
  · split
    · rfl
    · split
      · rfl
      · split
        · rfl
        · split <;> rfl

end ImagePipeline.Gate
