import ImagePipeline.PullRequest.Mergeability
import ImagePipeline.Service.Fetch

/-!
# The source host

Three things are asked of the host of the sources: whether a pull request could be merged, when a
commit was made, and to post a comment.

* `commentsUrl` turns the address of a pull request into that of its comments.
-/

namespace ImagePipeline

/-- The source host, with a token to speak to it. -/
structure SourceHost where
  /-- The token; without one requests are anonymous. -/
  token : Option String
deriving DecidableEq, Repr

/-- A comment as the host has recorded it. -/
structure Comment where
  url : String
  createdAt : String
  updatedAt : String
  body : String
deriving DecidableEq, Repr

namespace SourceHost

/-- How the pipeline presents itself. -/
def userAgent : String := "mlirci/0.3.0"

/-- A request to the host. -/
def request (h : SourceHost) (method : Web.Method) (url : String) :
    Except ServiceError Web.Request := do
  let r := (← Fetch.request method url).withHeader "accept" "application/json"
  let r := match h.token with
    | some token => r.withHeader "authorization" ("token " ++ token)
    | none => r
  return r.withHeader "user-agent" userAgent

/-- The mergeability in a pull request. -/
def readPullRequest (j : Json) : Option PullRequest.Mergeability := do
  match ← j.fields? ["mergeable_state"] with
  | [state] => state.withDefault .unknown PullRequest.Mergeability.ofJson?
  | _ => none

/-- Reads the only field of a record. -/
def readOnly {α : Type} (name : String) (read : Json → Option α) (j : Json) : Option α := do
  match ← j.fields? [name] with
  | [field] => field.required read
  | _ => none

/-- The author date in a commit. -/
def readCommit (j : Json) : Option String :=
  readOnly "commit" (readOnly "author" (readOnly "date" Json.text?)) j

/-- A comment. -/
def readComment (j : Json) : Option Comment := do
  match ← j.fields? ["url", "created_at", "updated_at", "body"] with
  | [url, createdAt, updatedAt, body] =>
    return ⟨← url.required Json.text?, ← createdAt.required Json.text?,
      ← updatedAt.required Json.text?, ← body.required Json.text?⟩
  | _ => none

/-- The mergeability of the pull request at an address. -/
def mergeability (h : SourceHost) (url : String) :
    Program ServiceError PullRequest.Mergeability := do
  Fetch.json readPullRequest (← .ofExcept (h.request .get url))

/-- The address of a commit in a repository. -/
def commitUrl (repository commit : String) : String :=
  Text.stripEnd '/' repository ++ "/commits/" ++ commit

/-- The author date of a commit. -/
def commitDate (h : SourceHost) (repository commit : String) : Program ServiceError String := do
  Fetch.json readCommit (← .ofExcept (h.request .get (commitUrl repository commit)))

/-- Posts a comment. -/
def postComment (h : SourceHost) (url body : String) : Program ServiceError Comment := do
  let request ← .ofExcept (h.request .post url)
  Fetch.json readComment { request with body := some (.object [("body", .string body)]) }

/-- The parts of a pull request's address: what stands before `/pulls/`, and the number after it.
Slashes at the end do not count. -/
def pullRequestParts? (url : String) : Option (List Char × List Char) :=
  let backwards := (Text.stripEndChars '/' url.toList).reverse
  let isDigit (c : Char) : Bool := (Decimal.digit? c).isSome
  let digits := backwards.takeWhile isDigit
  if digits.isEmpty then none
  else
    (Text.afterPrefix? "/pulls/".toList.reverse (backwards.dropWhile isDigit)).map fun rest =>
      (rest.reverse, digits.reverse)

/-- The address of the comments on a pull request. -/
def commentsUrl (url : String) : Except ServiceError String :=
  match pullRequestParts? url with
  | some (before, number) =>
    .ok (String.ofList before ++ "/issues/" ++ String.ofList number ++ "/comments")
  | none => .error (.invalidUrl url)

end SourceHost

end ImagePipeline
