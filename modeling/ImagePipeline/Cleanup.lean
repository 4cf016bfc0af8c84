import ImagePipeline.BuildOutcome
import ImagePipeline.Image.Kind
import ImagePipeline.PullRequest.Action

/-!
# What is cleaned up

A build removes images of its pull request twice: before it starts and after it has ended. At
both times the event decides how many: untagged leftovers only, or all. The scheduler's
workspaces of the pull request go when it is closed.

* `CleanupScope.beforeBuild` is never `skip`.
* `CleanupScope.afterBuild` keeps everything of a failed build for inspection, and keeps the
  tagged images of a merged pull request for the build of the push that follows.
-/

namespace ImagePipeline

/-- How much of a pull request's images is removed. -/
inductive CleanupScope where
  /-- Nothing. -/
  | skip
  /-- Images without a tag. -/
  | dangling
  /-- All images. -/
  | full
deriving DecidableEq, Repr

namespace CleanupScope

/-- Whether only images without a tag are removed. -/
def danglingOnly : CleanupScope → Bool
  | dangling => true
  | _ => false

/-- The scope of the cleanup before a build. -/
def beforeBuild (action : PullRequest.Action) : CleanupScope :=
  if action = .closed then full else dangling

/-- The scope of the cleanup after a build. While the outcome is unknown the build is only about
to start. -/
def afterBuild (outcome : BuildOutcome) (action : PullRequest.Action) (merged : Bool) :
    CleanupScope :=
  if outcome = .failure then skip
  else if outcome ≠ .unknown ∧ ((action = .closed ∧ !merged) ∨ action = .push) then full
  else dangling

end CleanupScope

/-- Whether the workspaces of a pull request are removed before a build. -/
def removesWorkspaces (action : PullRequest.Action) : Bool :=
  action = .closed

/-- The toolchain references of a pull request. They may be further tags on images that were
built for another one, which the label query does not find. -/
def toolchainReferences (user pr : String) : List String :=
  ImageKind.toolchain.map fun kind => kind.reference user pr

/-- The pattern of the scheduler's workspaces of a pull request. -/
def workspacePattern (home job pr : String) : String :=
  home ++ "/workspace/" ++ job ++ "@pr_" ++ pr ++ "*"

end ImagePipeline
