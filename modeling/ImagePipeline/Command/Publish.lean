import ImagePipeline.Command.Basic
import ImagePipeline.Gate
import ImagePipeline.Service.SourceHost

/-!
# Publishing images

Every image that the builds left behind is put before the gate: with its own labels, which have
to be valid, those of the registry's image and the mergeability of the pull request. What passes
is sent to the registry.
-/

namespace ImagePipeline.Command

open Program (writeLine)

/-- The valid labels of the registry's image. An image whose labels cannot be fetched or are not
valid counts as none. -/
def remoteValidLabels (s : Settings) (kind : ImageKind) (repository : String) :
    Command (Option ValidLabels) := do
  let labels ← ((Registry.ofEndpoints s.endpoints).labels repository s.cpuArch).attempt
  let image := Engine.tagged repository s.cpuArch
  return labels.toOption.bind fun ls => (ls.validate kind.family image).toOption

/-- Whether the pull request can be merged. A push can; a state that cannot be found out says
no. -/
def mergeable (s : Settings) : Command Bool := do
  match s.pr.requestUrl with
  | none => return true
  | some url =>
    let host : SourceHost := ⟨s.githubToken⟩
    let state ← (host.mergeability url).attempt
    return (state.toOption.getD .unknown).allowsMerge

/-- Puts one image before the gate, and publishes it if it passes. -/
def publishImage (e : EngineEndpoint) (s : Settings) (env : Environment) (user pr : String)
    (kind : ImageKind) : Command Unit := do
  let repository := kind.repository user
  let tag := PullRequest.localTag s.pr.trigger pr
  let reference := Engine.tagged repository tag
  writeLine ""
  writeLine ("▶ " ++ reference)
  let labels ← onImages (Engine.labels e reference)
  let localLabels ← allowed (labels.validate kind.family reference)
  let remote ← remoteValidLabels s kind repository
  let mergeable ← mergeable s
  let verdict := Gate.decide localLabels remote s.pr.trigger.forces mergeable
  if verdict.publish then
    writeLine ("  ↑ 公開します: " ++ verdict.reason.text)
    let pushed ← onImages (Engine.publish e (credentials s env) env repository tag s.cpuArch)
    writeLine ("  ✓ " ++ pushed)
  else writeLine ("  - 公開しません: " ++ verdict.reason.text)

/-- Puts some images before the gate, in order. -/
def publishImages (e : EngineEndpoint) (s : Settings) (env : Environment) (user pr : String) :
    List ImageKind → Command Unit
  | [] => return
  | kind :: kinds => do
    publishImage e s env user pr kind
    publishImages e s env user pr kinds

/-- Publishes the images that pass the gate. -/
def publish (s : Settings) (env : Environment) : Command Unit := do
  let user ← setting s.requireDockerhubUser
  let pr ← setting s.requirePrNumber
  let e ← connect s env
  writeLine "イメージの公開を判定中..."
  publishImages e s env user pr ImageKind.all

end ImagePipeline.Command
