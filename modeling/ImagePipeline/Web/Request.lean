import ImagePipeline.Base64
import ImagePipeline.Json.Basic
import ImagePipeline.Web.Url

/-!
# Requests to web services

A request is a method, an address, headers and a body. Header names are in lower case, and the
headers that every request has are left out.
-/

namespace ImagePipeline.Web

/-- The methods of requests. -/
inductive Method where
  | get
  | post
  | delete
deriving DecidableEq, Repr

/-- The name of a method. -/
def Method.name : Method → String
  | get => "GET"
  | post => "POST"
  | delete => "DELETE"

/-- A request to a web service. -/
structure Request where
  /-- The method. -/
  method : Method
  /-- The address. -/
  url : Url
  /-- The headers, in order. -/
  headers : List (String × String) := []
  /-- The body. -/
  body : Option Json := none

/-- Whether a text can be the name of a header. -/
def isHeaderName (s : String) : Bool :=
  !s.isEmpty && s.toList.all fun c => c.isAlphanum || "!#$%&'*+-.^_`|~".toList.contains c

/-- Whether a text can be the value of a header. -/
def isHeaderValue (s : String) : Bool :=
  s.toList.all fun c => c = '\t' || (0x20 ≤ c.toNat && c.toNat ≠ 0x7F)

namespace Request

/-- Whether the headers of a request can be sent. -/
def sendable (r : Request) : Bool :=
  r.headers.all fun (name, value) => isHeaderName name && isHeaderValue value

/-- The request with one more header. -/
def withHeader (r : Request) (name value : String) : Request :=
  { r with headers := r.headers ++ [(String.ofList (name.toList.map Char.toLower), value)] }

/-- The request with a user and password. -/
def withBasicAuth (r : Request) (user password : String) : Request :=
  let pair := Base64.encode (Text.encode (user ++ ":" ++ password))
  r.withHeader "authorization" ("Basic " ++ String.ofList pair)

end Request

end ImagePipeline.Web
