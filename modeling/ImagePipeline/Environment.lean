import ImagePipeline.Files.Path

/-!
# The environment of a run

The working directory and the variables that a run starts with. Two directories are derived from
them: the home directory and the one for configuration files.
-/

namespace ImagePipeline

open Files (Location isAbsolute joinPath steps)

/-- What a run finds around it. -/
structure Environment where
  /-- The path of the working directory, without links. -/
  directory : String
  /-- The values of the variables. -/
  value? : String → Option String

namespace Environment

/-- The location of the working directory. -/
def here (env : Environment) : Location :=
  (steps env.directory).reverse

/-- The home directory. -/
def home? (env : Environment) : Option String :=
  (env.value? "HOME").filter (· ≠ "")

/-- The directory for configuration files: the given one, if its path leads from the root, else
one in the home directory. -/
def configHome? (env : Environment) : Option String :=
  match (env.value? "XDG_CONFIG_HOME").filter isAbsolute with
  | some path => some path
  | none => env.home?.map (joinPath · ".config")

/-- The configuration file of the engine's tools. -/
def dockerConfigPath (env : Environment) : String :=
  let directory :=
    match env.value? "DOCKER_CONFIG" with
    | some path => path
    | none => joinPath (env.home?.getD "") ".docker"
  joinPath directory "config.json"

end Environment

end ImagePipeline
