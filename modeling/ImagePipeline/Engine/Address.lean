import ImagePipeline.Engine.Error
import ImagePipeline.Environment
import ImagePipeline.Text.Blank

/-!
# Where the engine listens

The engine is given by a socket path, by an address or not at all. Connecting makes no request;
it only checks that a socket is there.

* `EngineAddress.read` tells the three apart.
* `EngineAddress.connect` yields the endpoint for requests.
-/

namespace ImagePipeline

open Files (Tree)

/-- How the engine is given. -/
inductive EngineAddress where
  /-- The path of a socket. -/
  | socket (path : String)
  /-- An address to connect to. -/
  | http (url : String)
  /-- What the environment says, or the usual socket. -/
  | localDefaults
deriving DecidableEq, Repr

/-- What requests to the engine are sent to. -/
inductive EngineEndpoint where
  | socket (path : String)
  | http (url : String)
deriving DecidableEq, Repr

namespace EngineAddress

/-- The mark in front of socket paths. -/
def socketMark : String := "unix://"

/-- A text without a mark in front, if it has one. -/
def withoutMark (mark s : String) : String :=
  match Text.afterPrefix? mark.toList s.toList with
  | some rest => String.ofList rest
  | none => s

/-- Reads the setting. -/
def read (setting : Option String) : EngineAddress :=
  match (setting.map Text.trim).filter (· ≠ "") with
  | none => localDefaults
  | some s =>
    if Text.startsWith "tcp://" s || Text.startsWith "http://" s then http s
    else socket (withoutMark socketMark s)

/-- The usual socket. -/
def usualSocket : String := "/var/run/docker.sock"

/-- The socket of the environment: the one in its variable, if that names a socket. -/
def environmentSocket (env : Environment) : String :=
  match (env.value? "DOCKER_HOST").filter (Text.startsWith socketMark) with
  | some s => withoutMark socketMark s
  | none => usualSocket

/-- A path without any number of marks in front. -/
def withoutMarks (mark : List Char) : (fuel : Nat) → List Char → List Char
  | 0, cs => cs
  | fuel + 1, cs =>
    match Text.afterPrefix? mark cs with
    | some rest => withoutMarks mark fuel rest
    | none => cs

/-- The path that a socket setting stands for: further marks in front of it do not count. -/
def socketPath (path : String) : String :=
  let cs := withoutMarks socketMark.toList path.length path.toList
  String.ofList (withoutMarks "npipe://".toList cs.length cs)

/-- Connects to a socket, which has to be there. -/
def connectSocket (t : Tree) (env : Environment) (path : String) :
    Except EngineError EngineEndpoint :=
  if t.reaches env.here path then .ok (.socket path) else .error (.socketMissing path)

/-- Connects to the engine. -/
def connect (t : Tree) (env : Environment) : EngineAddress → Except EngineError EngineEndpoint
  | socket path => connectSocket t env (socketPath path)
  | http url => .ok (.http url)
  | localDefaults => connectSocket t env (environmentSocket env)

end EngineAddress

end ImagePipeline
