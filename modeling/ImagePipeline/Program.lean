import ImagePipeline.Engine.Call

/-!
# Programs that talk to servers

A command of the pipeline is a program: a tree whose nodes are the requests it sends, the text it
prints and its looks at files, with a branch for every answer. Running one needs a server, which is
any function from the requests made so far to the next answer. So what a program does with every
server can be said and proved without one.

* `Program.run` runs a program; `World` keeps what it leaves behind.
* `Program.attempt` turns failure into a value, so that a program can go on after one.
* `run_bind`: running two programs in a row is running the second in the world the first leaves.
-/

namespace ImagePipeline

/-- A request to some server. -/
inductive Request where
  | web (request : Web.Request)
  | engine (endpoint : EngineEndpoint) (call : EngineCall)

/-- The body of an answer. -/
inductive Body where
  | text (text : String)
  /-- A stream of values; it may break off after them. -/
  | stream (values : List Json) (complete : Bool)

/-- An answer with a status. -/
structure Reply where
  /-- The status. -/
  status : Nat
  /-- Where the server points to. -/
  location : Option String
  /-- The body. -/
  body : Body

/-- What comes of a request. -/
inductive Answer where
  /-- No connection could be made. -/
  | unreachable
  /-- The connection ended without an answer. -/
  | dropped
  | reply (reply : Reply)

/-- The text of a body. -/
def Body.toText : Body → String
  | text s => s
  | stream values _ => String.join (values.map fun j => j.render ++ "\n")

/-- A program with errors `ε` and results `α`. -/
inductive Program (ε α : Type) where
  | done (result : Except ε α)
  | send (request : Request) (next : Answer → Program ε α)
  | print (text : String) (next : Program ε α)
  /-- Goes on with what the files are. -/
  | look (next : Files.Tree → Program ε α)
  /-- Leaves the files as given. -/
  | change (tree : Files.Tree) (next : Program ε α)

/-- A server: any function from the requests so far, the latest last, to an answer. -/
abbrev Server := List Request → Answer

/-- What a run leaves behind. -/
structure World where
  /-- The requests made, in order. -/
  requests : List Request
  /-- The text printed. -/
  output : String
  /-- The files. -/
  tree : Files.Tree

namespace Program

variable {ε δ α β : Type}

/-- A program, then another with its result. -/
protected def bind : Program ε α → (α → Program ε β) → Program ε β
  | done (.ok a), f => f a
  | done (.error e), _ => done (.error e)
  | send r next, f => send r fun answer => (next answer).bind f
  | print text next, f => print text (next.bind f)
  | look next, f => look fun t => (next t).bind f
  | change t next, f => change t (next.bind f)

instance : Monad (Program ε) where
  pure a := done (.ok a)
  bind := Program.bind

/-- The program that fails. -/
def fail (e : ε) : Program ε α := done (.error e)

/-- The program with the result given. -/
def ofExcept (r : Except ε α) : Program ε α := done r

/-- A program whose failure is a value. -/
def attempt : Program ε α → Program δ (Except ε α)
  | done result => done (.ok result)
  | send r next => send r fun answer => (next answer).attempt
  | print text next => print text next.attempt
  | look next => look fun t => (next t).attempt
  | change t next => change t next.attempt

/-- A program with its errors seen as others. -/
def mapError (f : ε → δ) (p : Program ε α) : Program δ α :=
  p.attempt.bind fun result => done (result.mapError f)

/-- Sends a request. -/
def request (r : Request) : Program ε Answer := send r pure

/-- Prints a text. -/
def write (text : String) : Program ε Unit := print text (pure ())

/-- Prints a line. -/
def writeLine (text : String) : Program ε Unit := write (text ++ "\n")

/-- The files. -/
def files : Program ε Files.Tree := look pure

/-- Leaves the files as given. -/
def setFiles (t : Files.Tree) : Program ε Unit := change t (pure ())

/-- Runs a program with a server from a world. -/
def run (server : Server) (w : World) : Program ε α → Except ε α × World
  | done result => (result, w)
  | send r next =>
    let requests := w.requests ++ [r]
    run server { w with requests } (next (server requests))
  | print text next => run server { w with output := w.output ++ text } next
  | look next => run server w (next w.tree)
  | change tree next => run server { w with tree } next

@[simp] theorem run_done (server : Server) (w : World) (r : Except ε α) :
    (done r).run server w = (r, w) := rfl

/-- Running two programs in a row. -/
theorem run_bind (server : Server) (w : World) (p : Program ε α) (f : α → Program ε β) :
    (p >>= f).run server w =
      match p.run server w with
      | (.ok a, w) => (f a).run server w
      | (.error e, w) => (.error e, w) := by
  show (p.bind f).run server w = _
  induction p generalizing w with
  | done r => cases r <;> rfl
  | send r next ih => exact ih _ _
  | print text next ih => exact ih _
  | look next ih => exact ih _ _
  | change t next ih => exact ih _

/-- Failure as a value changes nothing else. -/
theorem run_attempt (server : Server) (w : World) (p : Program ε α) :
    (p.attempt : Program δ _).run server w = (.ok (p.run server w).1, (p.run server w).2) := by
  induction p generalizing w with
  | done r => rfl
  | send r next ih => exact ih _ _
  | print text next ih => exact ih _
  | look next ih => exact ih _ _
  | change t next ih => exact ih _

end Program

end ImagePipeline
