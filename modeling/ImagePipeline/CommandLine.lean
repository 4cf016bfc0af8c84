import ImagePipeline.Command.Cleanup
import ImagePipeline.Command.Product
import ImagePipeline.Command.Publish
import ImagePipeline.Command.StopPrevious
import ImagePipeline.Command.Toolchain
import ImagePipeline.Endpoints.Document

/-!
# The command line

A call names one command. Two options may stand before or after its name: the configuration file
and the socket of the engine. An option may be given once in each of the two places, and the
later place counts. A socket that is not given is taken from its variable.

* `CommandLine.parse` tells a run from a request for help and from a misuse.
* `Invocation.program` is the command with everything around it: it loads the configuration and
  the settings first.
-/

namespace ImagePipeline

/-- The commands. -/
inductive Verb where
  | llvm
  | build
  | publish
  | prepare
  | cleanup
  | stopPrevious
  | version
deriving DecidableEq, Repr

namespace Verb

/-- All commands. -/
def all : List Verb := [llvm, build, publish, prepare, cleanup, stopPrevious, version]

/-- The name of a command. -/
def name : Verb → String
  | llvm => "llvm"
  | build => "build"
  | publish => "publish"
  | prepare => "prepare"
  | cleanup => "cleanup"
  | stopPrevious => "stop-previous"
  | version => "version"

/-- The command of a name. -/
def ofName? (s : String) : Option Verb := all.find? (·.name == s)

end Verb

/-- The options in one place. -/
structure Options where
  /-- The configuration file. -/
  config : Option String := none
  /-- The socket of the engine. -/
  socket : Option String := none
deriving DecidableEq, Repr

/-- Options, and others where they say nothing. -/
def Options.over (inner outer : Options) : Options :=
  ⟨inner.config.or outer.config, inner.socket.or outer.socket⟩

/-- A call of a command. -/
structure Invocation where
  verb : Verb
  options : Options
deriving DecidableEq, Repr

/-- What the arguments of a call ask for. -/
inductive CommandLine where
  | run (invocation : Invocation)
  | help
  | misuse
deriving DecidableEq, Repr

namespace CommandLine

/-- Sets the option with a name. Each may be set once, and a path is not empty. -/
def set (o : Options) (name value : String) : Option Options :=
  if name = "config" then
    if o.config.isNone && value ≠ "" then some { o with config := some value } else none
  else if name = "docker-socket" then
    if o.socket.isNone then some { o with socket := some value } else none
  else none

/-- Whether an argument has the form of an option. -/
def isOption (arg : String) : Bool := Text.startsWith "-" arg && arg ≠ "-"

/-- What a request for help on some commands comes to. -/
def helpOn : List String → CommandLine
  | [] => help
  | [name] => if (Verb.ofName? name).isSome ∨ name = "help" then help else misuse
  | _ => misuse

/-- What is asked for when all arguments are read. -/
def finish (verb : Option Verb) (outer inner : Options) : CommandLine :=
  match verb with
  | some verb => run ⟨verb, inner.over outer⟩
  | none => misuse

/-- Reads arguments, before or after the name of the command. -/
def read (verb : Option Verb) (outer inner : Options) : List String → CommandLine
  | [] => finish verb outer inner
  | "--" :: rest => if rest.isEmpty then finish verb outer inner else misuse
  | arg :: rest =>
    if arg = "--help" ∨ Text.startsWith "-h" arg then help
    else
      match Text.afterPrefix? ['-', '-'] arg.toList with
      | some option =>
        match Text.cutChars '=' option with
        | some (name, value) =>
          match set inner (String.ofList name) (String.ofList value) with
          | some inner => read verb outer inner rest
          | none => misuse
        | none =>
          match rest with
          | value :: rest =>
            if isOption value then misuse
            else
              match set inner (String.ofList option) value with
              | some inner => read verb outer inner rest
              | none => misuse
          | [] => misuse
      | none =>
        if isOption arg ∨ verb.isSome then misuse
        else if arg = "help" then helpOn rest
        else
          match Verb.ofName? arg with
          | some verb => read (some verb) inner {} rest
          | none => misuse

/-- Reads the arguments of a call. -/
def parse (args : List String) : CommandLine := read none {} {} args

end CommandLine

/-- The name and version that the program gives itself. -/
def versionText : String := "mlirci 0.3.0"

namespace Invocation

/-- The settings of a call. -/
def settings (i : Invocation) (env : Environment) : Command Settings := do
  let t ← Program.files
  let endpoints ← Command.setting <|
    match i.options.config with
    | some path => Endpoints.load t env path
    | none => Endpoints.discover t env
  let s ← Command.setting (Settings.ofVariables env.value? endpoints)
  let socket := i.options.socket.or (env.value? Variable.dockerSocket)
  return if socket.isSome then { s with dockerSocket := socket } else s

/-- The command that a call asks for, in the working directory. -/
def program (i : Invocation) (env : Environment) : Command Unit := do
  if i.verb = .version then Program.writeLine versionText
  else
    let s ← i.settings env
    match i.verb with
    | .llvm => Command.llvm s env env.directory
    | .build => Command.build s env env.directory
    | .publish => Command.publish s env
    | .prepare => Command.prepare s env
    | .cleanup => Command.cleanup s env
    | .stopPrevious => Command.stopPrevious s
    | .version => return

end Invocation

/-- What a call leaves for the one who made it. -/
structure Outcome where
  exit : Nat
  output : String
  errors : String
deriving DecidableEq, Repr

/-- Makes a call, with a server and files. -/
def callWith (server : Server) (env : Environment) (tree : Files.Tree) (args : List String) :
    Outcome × World :=
  let start : World := ⟨[], "", tree⟩
  match CommandLine.parse args with
  | .help => (⟨0, "", ""⟩, start)
  | .misuse => (⟨2, "", ""⟩, start)
  | .run invocation =>
    match (invocation.program env).run server start with
    | (.ok (), w) => (⟨0, w.output, ""⟩, w)
    | (.error failure, w) => (⟨1, w.output, "✗ エラー: " ++ failure.userMessage ++ "\n"⟩, w)

end ImagePipeline
