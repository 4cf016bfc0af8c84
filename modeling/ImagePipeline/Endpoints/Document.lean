import ImagePipeline.Endpoints
import ImagePipeline.Environment
import ImagePipeline.SettingsError
import ImagePipeline.Yaml.Reader

/-!
# The configuration document

A YAML mapping from the names of endpoints to texts. Names that are not given keep their
defaults, other names are left aside, and a name that is known may be given once only. A document
without a value gives the defaults.

* `Endpoints.ofYaml?` reads the document, `Endpoints.load` the file that holds it.
* `configPath?` tells which file that is: the first that exists. A file that exists but cannot be
  read is an error and not passed over.
-/

namespace ImagePipeline

open Files (Tree joinPath)

namespace Endpoints

/-- The text given for a name, or its default. -/
def given? (entries : List (String × Yaml)) (name default : String) : Option String :=
  match entries.filter (·.1 == name) with
  | [] => some default
  | [(_, value)] => value.text?
  | _ => none

/-- The endpoints of a mapping. -/
def ofEntries? (entries : List (String × Yaml)) : Option Endpoints := do
  let usual : Endpoints := {}
  return {
    registryAuthUrl := ← given? entries "registry_auth_url" usual.registryAuthUrl
    registryUrl := ← given? entries "registry_url" usual.registryUrl
    registryService := ← given? entries "registry_service" usual.registryService
    githubApiUrl := ← given? entries "github_api_url" usual.githubApiUrl
    jenkinsUrl := ← given? entries "jenkins_url" usual.jenkinsUrl
    jenkinsUser := ← given? entries "jenkins_user" usual.jenkinsUser
    toolchainRepo := ← given? entries "toolchain_repo" usual.toolchainRepo }

/-- The endpoints of a document. -/
def ofYaml? : Option Yaml → Option Endpoints
  | none => some {}
  | some (.scalar text plain) => if text.isEmpty && plain then some {} else none
  | some (.mapping entries) => do
    ofEntries? (← entries.mapM fun (key, value) => key.text?.map (·, value))
  | some (.sequence _) | some (.within _) => none

/-- The endpoints in the text of a document; `path` names it in errors. -/
def read (path text : String) : Except SettingsError Endpoints :=
  match Yaml.parse text with
  | .error error => .error (.malformed path error.message)
  | .ok document =>
    match ofYaml? document with
    | some endpoints => .ok endpoints
    | none => .error (.malformed path "expected a mapping from names to texts")

/-- The endpoints in a file. -/
def load (t : Tree) (env : Environment) (path : String) : Except SettingsError Endpoints :=
  match t.readText env.here path with
  | .ok text => read path text
  | .error error => .error (.unreadable path error.message)

/-- The name of the configuration file. -/
def configName : String := "mlirci.yaml"

/-- The paths at which a configuration file may be, the preferred one first. -/
def configPaths (env : Environment) : List String :=
  (env.value? "MLIRCI_CONFIG").toList
    ++ [joinPath env.directory configName,
      joinPath (joinPath env.directory ".mlirci") configName]
    ++ env.configHome?.toList.map fun home => joinPath (joinPath home "mlirci") configName

/-- The configuration file that a run uses, if there is any. -/
def configPath? (t : Tree) (env : Environment) : Option String :=
  (configPaths env).find? (t.reaches env.here)

/-- The endpoints that a run uses unless it is given a file. -/
def discover (t : Tree) (env : Environment) : Except SettingsError Endpoints :=
  match configPath? t env with
  | some path => load t env path
  | none => .ok {}

end Endpoints

end ImagePipeline
