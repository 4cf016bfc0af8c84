import ImagePipeline.BuildOutcome
import ImagePipeline.Decimal.Numeral
import ImagePipeline.Endpoints
import ImagePipeline.PullRequest.Action
import ImagePipeline.PullRequest.Trigger
import ImagePipeline.SettingsError
import ImagePipeline.Text.Case

/-!
# Settings of a run

The scheduler hands everything to a run in variables. A variable with a blank value counts as
one that is not set. Two variables can be wrong: the build number and the merged flag; all others
are taken as they are.

* `Settings.ofVariables` reads all variables at once, so a wrong one stops every command.
* The six `require` functions are asked where a command cannot go on without a value.
-/

namespace ImagePipeline

namespace Variable

def dockerSocket : String := "DOCKER_DAEMON_SOCKET"
def cpuArch : String := "CPU_ARCH"
def dockerhubUser : String := "DOCKERHUB_USER_NAME"
def dockerhubToken : String := "DOCKERHUB_USER_TOKEN"
def githubToken : String := "GITHUB_JENKINS_DROID_TOKEN"
def jenkinsToken : String := "JENKINS_REST_API_TOKEN"
def jenkinsHome : String := "JENKINS_HOME"
def jobName : String := "JOB_NAME"
def buildNumber : String := "BUILD_NUMBER"
def buildResult : String := "JENKINS_BUILD_RESULT"
def prNumber : String := "ONNX_MLIR_PR_NUMBER"
def prAction : String := "ONNX_MLIR_PR_ACTION"
def prMerged : String := "ONNX_MLIR_PR_MERGED"
def prPhrase : String := "ONNX_MLIR_PR_PHRASE"
def prRequestUrl : String := "ONNX_MLIR_PR_REQUEST_URL"

end Variable

/-- What the scheduler says about a build. -/
structure BuildContext where
  /-- The token for the scheduler. -/
  apiToken : Option String
  /-- The scheduler's home directory. -/
  home : Option String
  /-- The job. -/
  jobName : Option String
  /-- The number of the build. -/
  number : Option Nat
  /-- The outcome of the build. -/
  outcome : BuildOutcome
deriving DecidableEq, Repr

/-- What the scheduler says about the pull request. -/
structure PullRequestContext where
  /-- The number, as a text. -/
  number : Option String
  /-- What happened to it. -/
  action : Option PullRequest.Action
  /-- Whether it is merged. -/
  merged : Bool
  /-- The phrase that started the build. -/
  trigger : PullRequest.Trigger
  /-- Its address at the source host; a push has none. -/
  requestUrl : Option String
deriving DecidableEq, Repr

/-- The settings of a run. -/
structure Settings where
  /-- Where the engine listens. -/
  dockerSocket : Option String
  /-- The tag of this architecture in the registry. -/
  cpuArch : String
  /-- The user of the registry. -/
  dockerhubUser : Option String
  /-- The token of that user. -/
  dockerhubToken : Option String
  /-- The token for the source host. -/
  githubToken : Option String
  /-- The build. -/
  build : BuildContext
  /-- The pull request. -/
  pr : PullRequestContext
  /-- The services. -/
  endpoints : Endpoints
deriving DecidableEq, Repr

namespace Settings

/-- The tag of the architecture on which a run takes place unless a variable says otherwise. -/
def hostArch : String := "amd64"

/-- Reads a build number: decimal digits, a plus sign allowed in front, of 64 bits. -/
def readBuildNumber? (text : String) : Option Nat :=
  let cs := Text.trimChars text.toList
  let unsigned := (Text.afterPrefix? ['+'] cs).getD cs
  match Decimal.readDigits unsigned with
  | (d :: ds, []) =>
    let n := Decimal.value (d :: ds)
    if n < UInt64.size then some n else none
  | _ => none

/-- Reads a truth value in any letter case. -/
def readFlag? (text : String) : Option Bool :=
  let word := Text.lower (Text.trim text)
  if word ∈ ["true", "1", "yes"] then some true
  else if word ∈ ["false", "0", "no"] then some false
  else none

/-- Reads the value of a variable, if it is set, and names the variable if the value is wrong. -/
def checked {α : Type} (name : String) (read? : String → Option α) :
    Option String → Except SettingsError (Option α)
  | none => .ok none
  | some value =>
    match read? value with
    | some a => .ok (some a)
    | none => .error (.invalidVariable name value)

/-- The address of a pull request. The word `none` stands for none. -/
def requestUrl? (value : Option String) : Option String :=
  value.filter (· != "none")

/-- The settings in a source of variables. -/
def ofVariables (lookup : String → Option String) (endpoints : Endpoints) :
    Except SettingsError Settings := do
  let get name := (lookup name).filter fun value => !Text.isBlankText value
  let number ← checked Variable.buildNumber readBuildNumber? (get Variable.buildNumber)
  let merged ← checked Variable.prMerged readFlag? (get Variable.prMerged)
  return {
    dockerSocket := get Variable.dockerSocket
    cpuArch := (get Variable.cpuArch).getD hostArch
    dockerhubUser := get Variable.dockerhubUser
    dockerhubToken := get Variable.dockerhubToken
    githubToken := get Variable.githubToken
    build := {
      apiToken := get Variable.jenkinsToken
      home := get Variable.jenkinsHome
      jobName := get Variable.jobName
      number := number
      outcome := ((get Variable.buildResult).map BuildOutcome.read).getD .unknown }
    pr := {
      number := get Variable.prNumber
      action := (get Variable.prAction).map PullRequest.Action.read
      merged := merged.getD false
      trigger := ((get Variable.prPhrase).map PullRequest.Trigger.read).getD (.other "")
      requestUrl := requestUrl? (get Variable.prRequestUrl) }
    endpoints := endpoints }

/-- A value that has to be set. -/
def require {α : Type} (name : String) : Option α → Except SettingsError α
  | some a => .ok a
  | none => .error (.missingVariable name)

def requireDockerhubUser (s : Settings) : Except SettingsError String :=
  require Variable.dockerhubUser s.dockerhubUser

def requirePrNumber (s : Settings) : Except SettingsError String :=
  require Variable.prNumber s.pr.number

def requireJenkinsToken (s : Settings) : Except SettingsError String :=
  require Variable.jenkinsToken s.build.apiToken

def requireJobName (s : Settings) : Except SettingsError String :=
  require Variable.jobName s.build.jobName

def requireBuildNumber (s : Settings) : Except SettingsError Nat :=
  require Variable.buildNumber s.build.number

def requireJenkinsHome (s : Settings) : Except SettingsError String :=
  require Variable.jenkinsHome s.build.home

end Settings

end ImagePipeline
