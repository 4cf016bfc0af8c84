import ImagePipeline.Cleanup
import ImagePipeline.Command.Basic
import ImagePipeline.Engine.Cleaner

/-!
# Cleaning up before and after a build

Both commands remove images of the pull request, with the containers that come from them, as far
as the scope for their time says. Before a build a failure ends the command, and the workspaces
of a closed pull request go last; after it failures are only counted.
-/

namespace ImagePipeline.Command

open Program (writeLine)

/-- A number in a report. -/
def count (n : Nat) : String := Decimal.natText n

/-- Removes the workspaces that match a pattern: how many. -/
def removeWorkspaces (env : Environment) (pattern : String) : Command Nat := do
  let (t, result) := Files.removeMatching (← Program.files) env.here pattern
  Program.setFiles t
  return (← .ofExcept (result.mapError .removal)).length

/-- Cleans up before a build. -/
def prepare (s : Settings) (env : Environment) : Command Unit := do
  let pr ← setting s.requirePrNumber
  let action := action s
  let scope := CleanupScope.beforeBuild action
  writeLine ("▶ PR #" ++ pr ++ " (" ++ action.text ++ ") のイメージを掃除中...")
  let e ← connect s env
  let images ← onImages (Engine.prImages e pr scope.danglingOnly true)
  let report ← onImages (Engine.removeAll e .abort images)
  writeLine ("  ✓ コンテナ " ++ count report.containersRemoved ++ " 件、イメージ "
    ++ count report.imagesRemoved ++ " 件を削除")
  if removesWorkspaces action then
    let home ← setting s.requireJenkinsHome
    let job ← setting s.requireJobName
    let removed ← removeWorkspaces env (workspacePattern home job pr)
    writeLine ("  ✓ ワークスペース " ++ count removed ++ " 件を削除")

/-- Cleans up after a build. -/
def cleanup (s : Settings) (env : Environment) : Command Unit := do
  let pr ← setting s.requirePrNumber
  let scope := CleanupScope.afterBuild s.build.outcome (action s) s.pr.merged
  if scope = .skip then
    writeLine "- ビルド失敗のため掃除しません（デバッグ用に残します）"
  else
    let e ← connect s env
    let images ← onImages (Engine.prImages e pr scope.danglingOnly false)
    let further ←
      if scope = .full then do
        pure (toolchainReferences (← setting s.requireDockerhubUser) pr)
      else pure []
    let report ← onImages (Engine.removeAll e .ignore (images ++ further))
    writeLine ("✓ コンテナ " ++ count report.containersRemoved ++ " 件、イメージ "
      ++ count report.imagesRemoved ++ " 件を削除（失敗 " ++ count report.failures ++ " 件は無視）")

end ImagePipeline.Command
