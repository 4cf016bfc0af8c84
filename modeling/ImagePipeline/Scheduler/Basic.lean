import ImagePipeline.Scheduler.BuildInfo
import ImagePipeline.Service.Fetch

/-!
# The scheduler

The scheduler runs builds of jobs on executors. A job stands in folders, so its name is a path, and
every step of the path has a step of its own in addresses.

* `jobPath` and `jobNameOfUrl?` go between names of jobs and addresses.
* `Scheduler.stopPrevious` stops the running builds that were started for the same value, one by
  one, leaving out the build that asks.
-/

namespace ImagePipeline

/-- The scheduler, with a user to speak to it. -/
structure Scheduler where
  /-- The address. -/
  url : String
  user : String
  token : String
deriving DecidableEq, Repr

/-- A build on an executor. -/
structure RunningBuild where
  /-- The name of the job, its folders in front. -/
  name : String
  number : Nat
  /-- The address that the scheduler gives. -/
  url : String
deriving DecidableEq, Repr

namespace Scheduler

/-- The step in front of every name in addresses. -/
def jobStep : String := "job"

/-- The path of a job. Empty steps of its name do not count. -/
def jobPath (name : String) : String :=
  String.join (((Text.split '/' name).filter (· ≠ "")).map fun step => "/job/" ++ step)

/-- The steps after those that announce a name. -/
def namesAfterJob : List String → List String
  | a :: b :: rest =>
    if a = jobStep then b :: namesAfterJob (b :: rest) else namesAfterJob (b :: rest)
  | _ => []

/-- The job that an address of a build belongs to. -/
def jobNameOfUrl? (url : String) : Option String :=
  match namesAfterJob (Text.split '/' url) with
  | [] => none
  | names => some ("/".intercalate names)

/-- The address without slashes at its end. -/
def base (s : Scheduler) : String := Text.stripEnd '/' s.url

/-- The address of a build. -/
def buildUrl (s : Scheduler) (name : String) (number : Nat) : String :=
  s.base ++ jobPath name ++ "/" ++ Decimal.natText number

/-- The address of the list of executors. -/
def executorsUrl (s : Scheduler) : String :=
  s.base ++ "/computer/api/json?depth=2&tree=computer[executors[currentExecutable[number,url]],"
    ++ "oneOffExecutors[currentExecutable[number,url]]]"

/-- The address that stops a build. -/
def stopUrl (s : Scheduler) (name : String) (number : Nat) : String :=
  s.buildUrl name number ++ "/stop"

/-- A request to the scheduler. -/
def request (s : Scheduler) (method : Web.Method) (url : String) :
    Except ServiceError Web.Request := do
  return (← Fetch.request method url).withBasicAuth s.user s.token

/-- A build on an executor, as far as the executor tells. -/
structure Executable where
  number : Option Nat
  url : Option String

/-- Reads what runs on an executor. -/
def readExecutable (j : Json) : Option Executable := do
  match ← j.fields? ["number", "url"] with
  | [number, url] => return ⟨← number.nullable Json.natural?, ← url.nullable Json.text?⟩
  | _ => none

/-- Reads an executor. -/
def readExecutor (j : Json) : Option (Option Executable) := do
  match ← j.fields? ["currentExecutable"] with
  | [executable] => executable.nullable readExecutable
  | _ => none

/-- Reads the executors of a computer, the regular ones first. -/
def readComputer (j : Json) : Option (List (Option Executable)) := do
  match ← j.fields? ["executors", "oneOffExecutors"] with
  | [executors, oneOff] =>
    return (← executors.withDefault [] (Json.list readExecutor))
      ++ (← oneOff.withDefault [] (Json.list readExecutor))
  | _ => none

/-- Reads the executors of all computers. -/
def readComputers (j : Json) : Option (List (Option Executable)) := do
  match ← j.fields? ["computer"] with
  | [computers] => return (← computers.withDefault [] (Json.list readComputer)).flatten
  | _ => none

/-- The build on an executor, if all is known of it. -/
def runningBuild? (e : Executable) : Option RunningBuild := do
  let number ← e.number
  let url ← e.url
  return ⟨← jobNameOfUrl? url, number, url⟩

/-- The builds on the executors. -/
def runningBuilds (s : Scheduler) : Program ServiceError (List RunningBuild) := do
  let executables ← Fetch.json readComputers (← .ofExcept (s.request .get s.executorsUrl))
  return (executables.filterMap id).filterMap runningBuild?

/-- What is known about a build. -/
def buildInfo (s : Scheduler) (name : String) (number : Nat) : Program ServiceError BuildInfo := do
  let url := s.buildUrl name number ++ "/api/json"
  Fetch.json BuildInfo.ofJson? (← .ofExcept (s.request .get url))

/-- Reads a crumb: the name of a header and its value. -/
def readCrumb (j : Json) : Option (String × String) := do
  match ← j.fields? ["crumbRequestField", "crumb"] with
  | [name, crumb] => return (← name.required Json.text?, ← crumb.required Json.text?)
  | _ => none

/-- A crumb for a change, if the scheduler gives one. -/
def crumb (s : Scheduler) : Program ServiceError (Option (String × String)) := do
  let asked : Program ServiceError (String × String) := do
    let url := s.base ++ "/crumbIssuer/api/json"
    Fetch.json readCrumb (← .ofExcept (s.request .get url))
  return (← asked.attempt).toOption

/-- Stops a build. The scheduler answers with a page about it, or points to one. -/
def stopBuild (s : Scheduler) (name : String) (number : Nat) : Program ServiceError Unit := do
  let url := s.stopUrl name number
  let request := s.request .post url
  let crumb ← s.crumb
  let request ← .ofExcept request
  let request := match crumb with
    | some (name, value) => request.withHeader name value
    | none => request
  let response ← Fetch.send request
  if Fetch.isSuccess response.status || Fetch.isRedirection response.status then return
  else .fail (.status url response.status)

/-- Stops those of some builds that were started for a value, but for the build that asks. -/
def stopMatching (s : Scheduler) (job : String) (number : Nat) (name value : String) :
    List RunningBuild → Program ServiceError (List RunningBuild)
  | [] => return []
  | build :: builds => do
    if build.name = job && build.number = number then stopMatching s job number name value builds
    else
      let info ← s.buildInfo build.name build.number
      if info.startedFor name value then
        s.stopBuild build.name build.number
        return build :: (← stopMatching s job number name value builds)
      else stopMatching s job number name value builds

/-- Stops the running builds that were started for a value of a parameter, but for the build that
asks: which they were. -/
def stopPrevious (s : Scheduler) (job : String) (number : Nat) (name value : String) :
    Program ServiceError (List RunningBuild) := do
  stopMatching s job number name value (← s.runningBuilds)

end Scheduler

end ImagePipeline
