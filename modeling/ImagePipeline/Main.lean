import ImagePipeline.CommandLine

/-!
# The program

Reads the environment and the files of a call, makes it, and leaves what the call leaves. Files
are read beforehand: those of the working directory and of the workspaces, and those that
variables or arguments name. There is no connection to any service here, so every request comes
back as unreachable.
-/

namespace ImagePipeline

/-- The variables that a call looks at. -/
def variableNames : List String :=
  [Variable.dockerSocket, Variable.cpuArch, Variable.dockerhubUser, Variable.dockerhubToken,
    Variable.githubToken, Variable.jenkinsToken, Variable.jenkinsHome, Variable.jobName,
    Variable.buildNumber, Variable.buildResult, Variable.prNumber, Variable.prAction,
    Variable.prMerged, Variable.prPhrase, Variable.prRequestUrl, "HOME", "XDG_CONFIG_HOME",
    "MLIRCI_CONFIG", "DOCKER_CONFIG", "DOCKER_HOST"]

/-- The location of a path, as it is written. -/
def locationOf (env : Environment) (path : String) : Files.Location :=
  (Files.steps (Files.joinPath env.directory path)).reverse

/-- The tree with a file of the disk, if it can be read. -/
def addFile (env : Environment) (t : Files.Tree) (path : String) : IO Files.Tree := do
  match locationOf env path with
  | [] => return t
  | name :: parent =>
    try
      let bytes ← IO.FS.readBinFile (Files.joinPath env.directory path)
      return (t.makeDirectories parent).put parent name (.file bytes.data.toList)
    catch _ => return t

/-- The tree with a directory of the disk and what is below it, as far as it can be read. -/
partial def addDirectory (t : Files.Tree) (path : String) (place : Files.Location) :
    IO Files.Tree := do
  let mut t := t
  try
    let directory ← IO.FS.realPath path
    for entry in ← directory.readDir do
      t := t.makeDirectories place
      let name := entry.fileName
      let below := Files.joinPath path name
      match (← entry.path.symlinkMetadata).type with
      | .dir => t ← addDirectory (t.put place name .directory) below (name :: place)
      | .symlink => t := t.put place name (.link (toString (← IO.FS.realPath below)))
      | _ => t := t.put place name (.file (← IO.FS.readBinFile below).data.toList)
  catch _ => pure ()
  return t

/-- Removes from the disk what a call removed from a tree. -/
def applyRemovals (before after : Files.Tree) : IO Unit := do
  for (place, entry) in before.entries do
    if (after.find? place).isNone && (after.find? place.tail).isSome then
      let path := "/" ++ "/".intercalate place.reverse
      if entry = .directory then IO.FS.removeDirAll path else IO.FS.removeFile path

end ImagePipeline

open ImagePipeline in
/-- Makes the call that the arguments ask for. -/
def main (args : List String) : IO UInt32 := do
  let directory := toString (← IO.currentDir)
  let values ← variableNames.mapM fun name => return (name, ← IO.getEnv name)
  let env : Environment := ⟨directory, fun name => (values.lookup name).join⟩
  let workspaces := Files.joinPath ((env.value? Variable.jenkinsHome).getD "") "workspace"
  let tree ← addDirectory (Files.Tree.empty.makeDirectories env.here) directory env.here
  let tree ← addDirectory tree workspaces (locationOf env workspaces)
  let named := Endpoints.configPaths env ++ args ++ [env.dockerConfigPath]
  let tree ← named.foldlM (addFile env) tree
  let (outcome, world) := callWith (fun _ => .unreachable) env tree args
  applyRemovals tree world.tree
  (← IO.getStdout).putStr outcome.output
  (← IO.getStderr).putStr outcome.errors
  return UInt32.ofNat outcome.exit
