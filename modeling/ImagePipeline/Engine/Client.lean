import ImagePipeline.Json.Reader
import ImagePipeline.Json.Record
import ImagePipeline.Program

/-!
# Answers of the engine

The engine answers with a status, and then with one value or with a stream of them. A value of a
stream with an error ends it: what comes after is not read.

* `Engine.call` sends a call and wants a success.
* `EngineMessage.ofReply` reads a stream: its messages and how it ended.
-/

namespace ImagePipeline

/-- A message in a stream of the engine. -/
structure EngineMessage where
  /-- The details of an error, with their text if they have one. -/
  errorDetail : Option (Option String)
  /-- A piece of output. -/
  stream : Option String
  /-- A line on the state of the work. -/
  status : Option String
deriving DecidableEq, Repr

namespace EngineMessage

/-- Reads the details of an error. -/
def readDetail (j : Json) : Option (Option String) := do
  match ← j.fields? ["message"] with
  | [message] => message.nullable Json.text?
  | _ => none

/-- Reads a message. -/
def ofJson? (j : Json) : Option EngineMessage := do
  match ← j.fields? ["errorDetail", "stream", "status"] with
  | [detail, stream, status] =>
    return ⟨← detail.nullable readDetail, ← stream.nullable Json.text?,
      ← status.nullable Json.text?⟩
  | _ => none

/-- The text of the error that a value of a stream reports. -/
def errorOf? (j : Json) : Option String := (j.member? "error").bind Json.text?

/-- Reads the values of a stream: the messages, and the error that ended it, if there is one. -/
def ofValues (complete : Bool) : List Json → List EngineMessage × Option EngineError
  | [] => ([], if complete then none else some .dropped)
  | j :: js =>
    match errorOf? j with
    | some text => ([], some (.stream text))
    | none =>
      match ofJson? j with
      | none => ([], some .unreadable)
      | some m =>
        let (ms, ending) := ofValues complete js
        (m :: ms, ending)

/-- Reads values that stand on lines of their own. -/
def ofLines : List String → List EngineMessage × Option EngineError
  | [] => ([], none)
  | line :: lines =>
    if line = "" then ofLines lines
    else
      match Json.parse? line with
      | none => ([], some .unreadable)
      | some j =>
        match errorOf? j with
        | some text => ([], some (.stream text))
        | none =>
          match ofJson? j with
          | none => ([], some .unreadable)
          | some m =>
            let (ms, ending) := ofLines lines
            (m :: ms, ending)

/-- Reads a stream. -/
def ofReply (r : Reply) : List EngineMessage × Option EngineError :=
  match r.body with
  | .stream values complete => ofValues complete values
  | .text s => ofLines (Text.split '\n' s)

end EngineMessage

namespace Engine

/-- Whether a status is a success: also that nothing had to be done. -/
def isSuccess (status : Nat) : Bool := (200 ≤ status && status < 300) || status = 304

/-- What an answer says about a failure: the message in an object, else all of the body. -/
def failureText (body : String) : String :=
  ((Json.parse? body).bind fun j => (j.member? "message").bind Json.text?).getD body

/-- Sends a call and wants a success. -/
def call (e : EngineEndpoint) (c : EngineCall) : Program EngineError Reply :=
  .send (.engine e c) fun answer =>
    match answer with
    | .unreachable => .fail .unreachable
    | .dropped => .fail .dropped
    | .reply r =>
      if isSuccess r.status then pure r
      else .fail (.responded r.status (failureText r.body.toText))

/-- Sends a call and reads the value in the answer. -/
def value {α : Type} (e : EngineEndpoint) (c : EngineCall) (read : Json → Option α) :
    Program EngineError α := do
  let r ← call e c
  match (Json.parse? r.body.toText).bind read with
  | some a => return a
  | none => .fail .unreadable

end Engine

end ImagePipeline
