import ImagePipeline.Proofs.EngineTranscript

/-!
# Runs of transfers

A build, a pull and a push each make one request at most, and what they come to is a function of
its answer.  For a publication the push is a program in the middle: what it comes to and what it
leaves behind are those of a run of its own, from the world in which the image has its tag.

* `World.logged`: a world with one more request in its log.
* `Program.run_congr`: a run depends only on the answers that it got.
* `run_build`, `run_pull`, `run_push`: runs of the three transfers.
* `run_publish_of_refused`, `run_publish_of_unnamed`, `run_publish`: the run of a publication that
  nothing comes of, of one that ends with the tag refused, and of one with a push.
-/

namespace ImagePipeline

open Program

/-- The world with one more request in the log. -/
def World.logged (w : World) (q : Request) : World := { w with requests := w.requests ++ [q] }

@[simp] theorem World.requests_logged (w : World) (q : Request) :
    (w.logged q).requests = w.requests ++ [q] := rfl

@[simp] theorem World.tree_logged (w : World) (q : Request) : (w.logged q).tree = w.tree := rfl

namespace Program

variable {ε δ α β : Type} {server : Server} {w : World}

@[simp] theorem run_ask (q : Request) (outcome : Answer → Except ε α) :
    (ask q outcome).run server w = (outcome (server (w.requests ++ [q])), w.logged q) := rfl

/-- After a success a program goes on with its value. -/
theorem run_bind_of_ok {p : Program ε α} {f : α → Program ε β} {a : α} {w' : World}
    (h : p.run server w = (.ok a, w')) : (p >>= f).run server w = (f a).run server w' := by
  rw [run_bind, h]

/-- A failure is the end of the programs in a row. -/
theorem run_bind_of_error {p : Program ε α} {f : α → Program ε β} {e : ε} {w' : World}
    (h : p.run server w = (.error e, w')) : (p >>= f).run server w = (.error e, w') := by
  rw [run_bind, h]

/-- After an attempt a program goes on in any case. -/
theorem run_attempt_bind {p : Program ε α} {f : Except ε α → Program δ β} :
    (p.attempt >>= f).run server w = (f (p.run server w).1).run server (p.run server w).2 :=
  run_bind_of_ok (run_attempt server w p)

theorem run_ofExcept_bind_of_ok {result : Except ε α} {f : α → Program ε β} {a : α}
    (h : result = .ok a) : (ofExcept result >>= f).run server w = (f a).run server w := by
  subst h
  exact run_bind_of_ok rfl

theorem run_ofExcept_bind_of_error {result : Except ε α} {f : α → Program ε β} {e : ε}
    (h : result = .error e) : (ofExcept result >>= f).run server w = (.error e, w) := by
  subst h
  exact run_bind_of_error rfl

theorem prefix_requests_run (p : Program ε α) : w.requests <+: (p.run server w).2.requests := by
  rw [requests_run]
  exact List.prefix_append _ _

/-- A run depends only on the answers that it got. -/
theorem run_congr {server' : Server} {p : Program ε α}
    (h : ∀ log, log <+: (p.run server w).2.requests → server' log = server log) :
    p.run server' w = p.run server w := by
  induction p generalizing w with
  | done result => rfl
  | send q next ih =>
    have hlog : w.requests ++ [q] <+: ((send q next).run server w).2.requests :=
      prefix_requests_run (w := w.logged q) (next _)
    show (next (server' (w.requests ++ [q]))).run server' (w.logged q) = _
    rw [h _ hlog]
    exact ih _ h
  | print text next ih => exact ih h
  | look next ih => exact ih _ h
  | change tree next ih => exact ih h

end Program

namespace Engine

variable {e : EngineEndpoint} {source : CredentialSource} {env : Environment}
  {repository tag localTag arch dockerfile : String} {args : BuildArgs} {context : Build.Archive}
  {server : Server} {w : World} {error : ImageError} {credentials : Option Credentials}

/-- An answer whose status is a success. -/
def Succeeds (answer : Answer) : Prop :=
  ∃ reply, answer = .reply reply ∧ isSuccess reply.status = true

theorem accept_eq_ok_iff {answer : Answer} {reply : Reply} :
    accept answer = .ok reply ↔ answer = .reply reply ∧ isSuccess reply.status = true := by
  constructor
  · intro h
    unfold accept at h
    cases answer with
    | unreachable => cases h
    | dropped => cases h
    | reply r =>
      dsimp only at h
      split at h
      next hsuccess =>
        cases h
        exact ⟨rfl, hsuccess⟩
      next => cases h
  · rintro ⟨rfl, hsuccess⟩
    rw [accept, if_pos hsuccess]

theorem run_credentialsFor {image : String} :
    (credentialsFor source env image).run server w = (source.find w.tree env.here image, w) := rfl

/-! ## Pulls and pushes -/

/-- A pull with credentials is one request. -/
theorem run_pull (h : source.find w.tree env.here (tagged repository tag) = .ok credentials) :
    (pull e source env repository tag).run server w =
      (pullOutcome (tagged repository tag)
          (server (w.requests ++ [.engine e (.pull repository tag credentials)])),
        w.logged (.engine e (.pull repository tag credentials))) := by
  rw [pull_eq, run_bind_of_ok (by rw [run_credentialsFor, h]), run_ask]

/-- A push under a valid tag is one request. -/
theorem run_push (htag : validateTag tag = .ok ())
    (h : source.find w.tree env.here (tagged repository tag) = .ok credentials) :
    (push e source env repository tag).run server w =
      (pushOutcome (tagged repository tag)
          (server (w.requests ++ [.engine e (.push repository tag credentials)])),
        { w with output := w.output ++ ("  → " ++ tagged repository tag ++ "\n") }.logged
          (.engine e (.push repository tag credentials))) := by
  rw [push_eq htag, run_bind_of_ok (by rw [run_credentialsFor, h])]
  rfl

theorem run_push_of_error (htag : validateTag tag = .ok ())
    (h : source.find w.tree env.here (tagged repository tag) = .error error) :
    (push e source env repository tag).run server w = (.error error, w) := by
  rw [push_eq htag, run_bind_of_error (by rw [run_credentialsFor, h])]

/-! ## Builds -/

/-- The end of a build, by the answer to it. -/
def buildOutcome (answer : Answer) : Except ImageError Unit :=
  ((accept answer).mapError .engine).bind fun reply =>
    match (EngineMessage.ofReply reply).1.findSome? (·.errorDetail),
        (EngineMessage.ofReply reply).2 with
    | some detail, _ => .error (.buildFailed (detail.getD "Unknown build error"))
    | none, some error => .error (.engine error)
    | none, none => .ok ()

/-- The messages of a build go well if none has details of an error. -/
theorem run_showBuild (messages : List EngineMessage) :
    ((showBuild messages).run server w).1 =
      match messages.findSome? (·.errorDetail) with
      | some detail => .error (.buildFailed (detail.getD "Unknown build error"))
      | none => .ok () := by
  induction messages generalizing w with
  | nil => rfl
  | cons m ms ih =>
    rw [List.findSome?_cons]
    unfold showBuild
    cases m.errorDetail with
    | some detail => rfl
    | none =>
      cases m.stream with
      | none =>
        cases m.status with
        | none => exact ih
        | some text => exact ih
      | some output =>
        cases m.status with
        | none => exact ih
        | some text => exact ih

theorem run_build :
    ((build e dockerfile tag args context).run server w).1 =
      buildOutcome (server (w.requests ++ [.engine e (.build dockerfile tag args context)])) := by
  unfold build buildOutcome
  rw [call_eq, ask_mapError]
  generalize hanswer : server (w.requests ++ [.engine e (.build dockerfile tag args context)]) =
    answer
  cases haccept : (accept answer).mapError ImageError.engine with
  | error error =>
    rw [run_bind_of_error (by rw [run_ask, hanswer, haccept])]
    rfl
  | ok reply =>
    rw [run_bind_of_ok (by rw [run_ask, hanswer, haccept])]
    rcases hstream : EngineMessage.ofReply reply with ⟨messages, ending⟩
    dsimp only [Except.bind]
    rw [hstream, run_bind]
    have hshow : ((showBuild messages).run server
        (w.logged (.engine e (.build dockerfile tag args context)))).1 = _ :=
      run_showBuild messages
    generalize (showBuild messages).run server
      (w.logged (.engine e (.build dockerfile tag args context))) = shown at hshow ⊢
    obtain ⟨result, w'⟩ := shown
    dsimp only at hshow
    subst hshow
    cases messages.findSome? (·.errorDetail) with
    | some detail => rfl
    | none => cases ending <;> rfl

/-! ## Publications -/

theorem tagOutcome_eq_ok_iff {image : String} {answer : Answer} :
    tagOutcome image answer = .ok () ↔ Succeeds answer := by
  unfold tagOutcome
  cases haccept : accept answer with
  | error error =>
    refine ⟨nofun, ?_⟩
    rintro ⟨reply, hreply⟩
    rw [accept_eq_ok_iff.2 hreply] at haccept
    cases haccept
  | ok reply => exact ⟨fun _ => ⟨reply, accept_eq_ok_iff.1 haccept⟩, fun _ => rfl⟩

/-- Under a tag that is none a publication does nothing. -/
theorem run_publish_of_refused
    (h : ¬ (validateTag localTag = .ok () ∧ validateTag arch = .ok ())) :
    ∃ error, (publish e source env repository localTag arch).run server w = (.error error, w) := by
  unfold publish
  cases hlocal : validateTag localTag with
  | error error => exact ⟨error, run_ofExcept_bind_of_error rfl⟩
  | ok =>
    rw [run_ofExcept_bind_of_ok rfl]
    cases harch : validateTag arch with
    | error error => exact ⟨error, run_ofExcept_bind_of_error rfl⟩
    | ok => exact absurd ⟨hlocal, harch⟩ h

section

variable (hlocal : validateTag localTag = .ok ()) (harch : validateTag arch = .ok ())

include hlocal harch

/-- If the image does not get the tag, that is all that a publication does. -/
theorem run_publish_of_unnamed
    (htag : tagOutcome (tagged repository localTag) (server (w.requests ++
      [.engine e (.tagImage (tagged repository localTag) repository arch)])) = .error error) :
    (publish e source env repository localTag arch).run server w = (.error error,
      w.logged (.engine e (.tagImage (tagged repository localTag) repository arch))) := by
  unfold publish
  rw [run_ofExcept_bind_of_ok hlocal, run_ofExcept_bind_of_ok harch, tag_eq,
    run_bind_of_error (by rw [run_ask, htag])]

/-- Otherwise it pushes, and asks for the removal of the tag however that has ended. -/
theorem run_publish
    (htag : tagOutcome (tagged repository localTag) (server (w.requests ++
      [.engine e (.tagImage (tagged repository localTag) repository arch)])) = .ok ()) :
    (publish e source env repository localTag arch).run server w =
      let pushed := (push e source env repository arch).run server
        (w.logged (.engine e (.tagImage (tagged repository localTag) repository arch)))
      (pushed.1, pushed.2.logged (.engine e (.removeImage (tagged repository arch)))) := by
  unfold publish
  rw [run_ofExcept_bind_of_ok hlocal, run_ofExcept_bind_of_ok harch, tag_eq, remove_eq,
    run_bind_of_ok (by rw [run_ask, htag]), run_attempt_bind, run_attempt_bind]
  rfl

end

end Engine

end ImagePipeline
