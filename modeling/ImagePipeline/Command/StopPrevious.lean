import ImagePipeline.Command.Basic
import ImagePipeline.Scheduler.Basic

/-!
# Stopping builds that are superseded

A new build for a pull request stops the builds for the same pull request that are still running.
-/

namespace ImagePipeline.Command

open Program (writeLine)

/-- Reports the builds that were stopped. -/
def reportStopped : List RunningBuild → Command Unit
  | [] => return
  | build :: builds => do
    writeLine ("✓ " ++ build.name ++ " #" ++ Decimal.natText build.number ++ " を停止しました ("
      ++ build.url ++ ")")
    reportStopped builds

/-- Stops the running builds for the same pull request. -/
def stopPrevious (s : Settings) : Command Unit := do
  let pr ← setting s.requirePrNumber
  let job ← setting s.requireJobName
  let number ← setting s.requireBuildNumber
  let token ← setting s.requireJenkinsToken
  let scheduler : Scheduler := ⟨s.endpoints.jenkinsUrl, s.endpoints.jenkinsUser, token⟩
  let stopped ← onService (scheduler.stopPrevious job number Variable.prNumber pr)
  if stopped.isEmpty then writeLine "- 停止するビルドはありません"
  reportStopped stopped

end ImagePipeline.Command
