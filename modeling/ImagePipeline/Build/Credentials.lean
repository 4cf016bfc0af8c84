import ImagePipeline.Base64
import ImagePipeline.Build.Tag
import ImagePipeline.Environment
import ImagePipeline.Files.Path
import ImagePipeline.Json.Reader
import ImagePipeline.Json.Record
import ImagePipeline.Text.Blank

/-!
# Credentials for registries

A user and token that the run was given serve for the default registry. For all else the
credentials stored in the engine's configuration file are looked up by registry. The default
registry is known there under three names, tried in order.

* `CredentialSource.find` yields none when nothing is stored: access is then anonymous.
* `Credentials.decode` reads a stored pair: base64 of a user and a password with a colon between.
-/

namespace ImagePipeline

open Files (Tree Location)

/-- Credentials for a registry. -/
structure Credentials where
  user : String
  password : String
  /-- The registry they are for. -/
  registry : String
deriving DecidableEq, Repr

/-- Where credentials come from. -/
structure CredentialSource where
  /-- The user and token of the default registry. -/
  token : Option (String × String)
  /-- The engine's configuration file. -/
  configPath : String
deriving DecidableEq, Repr

namespace Credentials

/-- Reads a stored pair. A text without a colon is no pair. -/
def decode (registry auth : String) : Except ImageError (Option Credentials) :=
  match Base64.decode (Text.trimChars auth.toList) with
  | none => .error (.credentials registry .badEncoding)
  | some bytes =>
    match Text.decode bytes with
    | none => .error (.credentials registry .notText)
    | some pair => .ok ((Text.cut ':' pair).map fun (user, password) => ⟨user, password, registry⟩)

end Credentials

/-- The stored pairs of the configuration file, by key. -/
abbrev StoredAuths := List (String × Option String)

namespace StoredAuths

/-- The pair of an entry. -/
def readPair (j : Json) : Option (Option String) := do
  match ← j.fields? ["auth"] with
  | [auth] => auth.nullable Json.text?
  | _ => none

/-- The stored pairs in a configuration document. -/
def ofJson? (j : Json) : Option StoredAuths := do
  match ← j.fields? ["auths"] with
  | [auths] => auths.withDefault [] (Json.table readPair)
  | _ => none

/-- The pair under a key; of several entries with one key the last counts. -/
def get? (auths : StoredAuths) (key : String) : Option String :=
  (auths.reverse.lookup key).join

end StoredAuths

namespace CredentialSource

/-- The credentials of a run: the user and token, if both are given, and the configuration file
that the environment names. -/
def ofEnvironment (env : Environment) (user token : Option String) : CredentialSource :=
  ⟨user.bind fun u => token.map (u, ·), env.dockerConfigPath⟩

/-- The keys under which a registry's credentials may be stored. -/
def keysOf (registry : String) : List String :=
  if registry = defaultRegistry then ["https://index.docker.io/v1/", "index.docker.io", "docker.io"]
  else [registry]

/-- Reads the configuration file. -/
def load (s : CredentialSource) (t : Tree) (here : Location) : Except ImageError StoredAuths :=
  match t.readText here s.configPath with
  | .error error => .error (.credentials s.configPath (.unreadable error))
  | .ok text =>
    match (Json.parse? text).bind StoredAuths.ofJson? with
    | some auths => .ok auths
    | none => .error (.credentials s.configPath .malformed)

/-- The credentials under the first key that has any. -/
def pick (auths : StoredAuths) (registry : String) :
    List String → Except ImageError (Option Credentials)
  | [] => .ok none
  | key :: keys =>
    match auths.get? key with
    | none => pick auths registry keys
    | some auth =>
      match Credentials.decode registry auth with
      | .error error => .error error
      | .ok (some credentials) => .ok (some credentials)
      | .ok none => pick auths registry keys

/-- The credentials for an image. -/
def find (s : CredentialSource) (t : Tree) (here : Location) (image : String) :
    Except ImageError (Option Credentials) :=
  let registry := registryOf image
  match s.token with
  | some (user, token) =>
    if registry = defaultRegistry then .ok (some ⟨user, token, registry⟩) else stored registry
  | none => stored registry
where
  /-- The credentials that the configuration file holds for a registry. -/
  stored (registry : String) : Except ImageError (Option Credentials) :=
    if t.reaches here s.configPath then do
      pick (← s.load t here) registry (keysOf registry)
    else .ok none

end CredentialSource

end ImagePipeline
