import ImagePipeline.Json.Reader
import ImagePipeline.Program
import ImagePipeline.Service.Error

/-!
# Fetching from web services

A request is sent, and sent again to where the answers point, up to ten times. A post that is
redirected becomes a get without a body, unless the status says to repeat it. The new request
names the address before in a header, and a token stays with its host.

* `Fetch.redirect?` is the rule for one answer; without a usable address to go to, the answer
  itself is the result.
* `json` wants a success and a body that a reader accepts.
-/

namespace ImagePipeline

/-- What a service answered in the end, and from which address. -/
structure Response where
  /-- The address. -/
  url : Web.Url
  /-- The status. -/
  status : Nat
  /-- The body. -/
  body : String

namespace Fetch

/-- The most redirections that are followed. -/
def redirectLimit : Nat := 10

/-- Whether a status is a success. -/
def isSuccess (status : Nat) : Bool := 200 ≤ status && status < 300

/-- Whether a status is a redirection. -/
def isRedirection (status : Nat) : Bool := 300 ≤ status && status < 400

/-- A request to an address. Its user and password become a header. -/
def request (method : Web.Method) (url : String) : Except ServiceError Web.Request :=
  match Web.Url.read? url with
  | none => .error (.http .unusableUrl)
  | some u =>
    let r : Web.Request := { method, url := { u with userInfo := none } }
    match u.userInfo with
    | none => .ok r
    | some info =>
      let (user, password) := (Text.cut ':' info).getD (info, "")
      let decode (s : String) := (Text.decode (Web.Url.percentDecode s.toList)).getD s
      .ok (r.withBasicAuth (decode user) (decode password))

/-- The headers of a request that goes on to another address. -/
def carryHeaders (r : Web.Request) (next : Web.Url) : List (String × String) :=
  let sameHost := r.url.host = next.host ∧
    r.url.tcpNumber.getD (if r.url.secure then 443 else 80)
      = next.tcpNumber.getD (if next.secure then 443 else 80)
  let kept := if sameHost then r.headers else r.headers.filter (·.1 ≠ "authorization")
  if r.url.secure && !next.secure then kept
  else
    let previous := { r.url with userInfo := none, fragment := none }
    kept.filter (·.1 ≠ "referer") ++ [("referer", previous.text)]

/-- The request that an answer asks for, if it asks for one. -/
def redirect? (r : Web.Request) (reply : Reply) : Option Web.Request := do
  guard (reply.status ∈ [301, 302, 303, 307, 308])
  let url ← r.url.join? (← reply.location)
  let headers := carryHeaders r url
  if reply.status ∈ [307, 308] then return { r with url, headers }
  else return { method := .get, url, headers, body := none }

/-- Takes an answer to a request: a redirection goes on with the request that it asks for. -/
def take (r : Web.Request) (goOn : Web.Request → Program ServiceError Response) :
    Answer → Program ServiceError Response
  | .unreachable => .fail (.http .unreachable)
  | .dropped => .fail (.http .dropped)
  | .reply reply =>
    match redirect? r reply with
    | none => pure ⟨r.url, reply.status, reply.body.toText⟩
    | some next => goOn next

/-- Sends a request and follows at most `budget` redirections. -/
def follow : (budget : Nat) → Web.Request → Program ServiceError Response
  | 0, r => .send (.web r) (take r fun _ => .fail (.http .tooManyRedirects))
  | budget + 1, r => .send (.web r) (take r (follow budget))

/-- Sends a request, if it can be sent at all. -/
def send (r : Web.Request) : Program ServiceError Response :=
  if r.sendable then follow redirectLimit r else .fail (.http .badHeader)

/-- Sends a request and wants a success. -/
def success (r : Web.Request) : Program ServiceError Response := do
  let response ← send r
  if isSuccess response.status then return response
  else .fail (.status response.url.text response.status)

/-- Sends a request and reads the body of a success. -/
def json {α : Type} (read : Json → Option α) (r : Web.Request) : Program ServiceError α := do
  let response ← success r
  match (Json.parse? response.body).bind read with
  | some a => return a
  | none => .fail (.http .badBody)

end Fetch

end ImagePipeline
