import ImagePipeline.Build.Recipe
import ImagePipeline.Command.Basic
import ImagePipeline.Service.SourceHost
import ImagePipeline.Toolchain.Plan

/-!
# Making the toolchain images ready

The source tree says which toolchain a pull request needs. For each toolchain image it is planned
whether to use the image that is there, to pull the registry's or to build it. A pull that fails
is followed by a second plan, which does not pull again.

A pull request that is out of date gets a comment; if that fails, nothing else comes of it.
-/

namespace ImagePipeline.Command

open Program (writeLine)

/-- The provenance that a source tree asks for. A date that cannot be found out stays empty. -/
def expectedProvenance (s : Settings) (env : Environment) (root : String) :
    Command Toolchain.Provenance := do
  let t ← Program.files
  let commit ← onImages (.ofExcept (Build.toolchainCommit t env.here root))
  let host : SourceHost := ⟨s.githubToken⟩
  let date ← (host.commitDate s.endpoints.toolchainRepoApi commit).attempt
  let recipe := Files.joinPath root ImageKind.static.dockerfile
  let recipeHash ← onImages (.ofExcept (Build.fileDigest t env.here recipe))
  return ⟨commit, date.toOption.getD "", recipeHash⟩

/-- The labels of the registry's image, if they can be fetched. -/
def remoteLabels (s : Settings) (repository : String) : Command (Option Labels) := do
  let labels ← ((Registry.ofEndpoints s.endpoints).labels repository s.cpuArch).attempt
  return labels.toOption

/-- Pulls the registry's image and gives it the tag of the pull request. -/
def pullAndTag (e : EngineEndpoint) (s : Settings) (env : Environment) (repository pr : String) :
    Program ImageError Unit := do
  Engine.pull e (credentials s env) env repository s.cpuArch
  Engine.tag e (Engine.tagged repository s.cpuArch) repository pr

/-- The comment on a pull request that is out of date. -/
def outOfDateComment : String := "PR source out of date, rebase then rebuild"

/-- Posts the comment, if there is a pull request to comment on. -/
def reportOutOfDate (s : Settings) : Command Unit := do
  match s.pr.requestUrl with
  | none => return
  | some url =>
    match SourceHost.commentsUrl url with
    | .error _ => return
    | .ok comments =>
      let host : SourceHost := ⟨s.githubToken⟩
      let _ ← (host.postComment comments outOfDateComment).attempt

/-- The plan for an image, after the attempt to pull it if that was the plan. -/
def settlePlan (e : EngineEndpoint) (s : Settings) (env : Environment)
    (expected : Toolchain.Provenance) (localMatch : Bool) (remote : Option Labels)
    (repository pr : String) : Command (Except Refusal Toolchain.Plan) := do
  match Toolchain.plan expected localMatch remote false with
  | .ok .pull =>
    match ← (pullAndTag e s env repository pr).attempt with
    | .ok () => return .ok .pull
    | .error _ => return Toolchain.plan expected localMatch remote true
  | plan => return plan

/-- The labels that the first plan looks at. An image that is there needs none. -/
def labelsToPlan (s : Settings) (localMatch : Bool) (repository : String) :
    Command (Option Labels) :=
  if localMatch then return none else remoteLabels s repository

/-- Carries out a plan for a toolchain image; `reference` is its name. -/
def carryOut (e : EngineEndpoint) (s : Settings) (env : Environment)
    (root repository pr reference : String) (expected : Toolchain.Provenance) (kind : ImageKind) :
    Except Refusal Toolchain.Plan → Command Unit
  | .ok .reuse => do
    let id ← onImages (Engine.shortId e reference)
    writeLine ("  ✓ ローカルイメージを再利用 (" ++ id ++ ")")
  | .ok .pull => do
    let id ← onImages (Engine.shortId e reference)
    writeLine ("  ✓ " ++ Engine.tagged repository s.cpuArch ++ " を pull して " ++ pr
      ++ " としてタグ付け (" ++ id ++ ")")
  | .ok .build => do
    let args ← allowed (expected.buildArgs kind pr)
    let id ← buildImage e env root kind reference args
    writeLine ("  ✓ " ++ reference ++ " をビルドしました (" ++ id ++ ")")
  | .error refusal => do
    if refusal = .sourceOutOfDate then reportOutOfDate s
    .fail (.refusal refusal)

/-- Makes one toolchain image ready. -/
def makeReady (e : EngineEndpoint) (s : Settings) (env : Environment) (root user pr : String)
    (expected : Toolchain.Provenance) (kind : ImageKind) : Command Unit := do
  let repository := kind.repository user
  let reference := Engine.tagged repository pr
  writeLine ""
  writeLine ("▶ " ++ reference)
  let query := (ImageQuery.ofReference reference).withLabels expected.labelFilters
  let found ← onImages (Engine.find e query)
  let localMatch := !found.isEmpty
  let remote ← labelsToPlan s localMatch repository
  let plan ← settlePlan e s env expected localMatch remote repository pr
  carryOut e s env root repository pr reference expected kind plan

/-- Makes some toolchain images ready, in order. -/
def makeAllReady (e : EngineEndpoint) (s : Settings) (env : Environment) (root user pr : String)
    (expected : Toolchain.Provenance) : List ImageKind → Command Unit
  | [] => return
  | kind :: kinds => do
    makeReady e s env root user pr expected kind
    makeAllReady e s env root user pr expected kinds

/-- Makes the toolchain images of a pull request ready. -/
def llvm (s : Settings) (env : Environment) (root : String) : Command Unit := do
  let user ← setting s.requireDockerhubUser
  let pr ← setting s.requirePrNumber
  let expected ← expectedProvenance s env root
  writeLine "ツールチェーンイメージを準備中..."
  writeLine ("  commit: " ++ expected.commit)
  writeLine ("  date:   " ++ if expected.commitDate = "" then "(不明)" else expected.commitDate)
  writeLine ("  recipe: " ++ expected.recipeHash)
  let e ← connect s env
  makeAllReady e s env root user pr expected ImageKind.toolchain

end ImagePipeline.Command
