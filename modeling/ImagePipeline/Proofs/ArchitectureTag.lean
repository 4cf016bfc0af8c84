import ImagePipeline.Proofs.TransferRun

/-!
# The tag of the architecture

An image is published under the tag of its architecture, which it has for the time of the push
only.  So the request for the removal of the tag closes what the request for the tag has opened,
and the push between them is the only thing whose end matters.

* `exists_pushes`: a push adds one request to the log, or none if its credentials cannot be found
  out.
* `run_publish_congr`: the answer to the removal does not matter.
* `publish_brackets`: the log of a publication and its result.
-/

namespace ImagePipeline

open Program

namespace Engine

section

variable {e : EngineEndpoint} {source : CredentialSource} {env : Environment}
  {repository localTag arch : String} {server : Server} {w : World}

/-! ## The push in the middle -/

/-- A push that does not fail comes to the name of what it has sent. -/
theorem pushOutcome_eq_ok_or_error (image : String) (answer : Answer) :
    pushOutcome image answer = .ok image ∨ ∃ error, pushOutcome image answer = .error error := by
  unfold pushOutcome
  cases (accept answer).mapError fun error => ImageError.pushFailed error.message with
  | error error => exact .inr ⟨error, rfl⟩
  | ok reply =>
    dsimp only [Except.bind]
    cases (EngineMessage.ofReply reply).2 with
    | some error => exact .inr ⟨_, rfl⟩
    | none => exact .inl rfl

/-- The requests of a push under a valid tag, and what the push comes to. -/
theorem exists_pushes (e : EngineEndpoint) (source : CredentialSource) (env : Environment)
    (repository : String) (server : Server) (w : World) (harch : validateTag arch = .ok ()) :
    ∃ pushes, ((push e source env repository arch).run server w).2.requests =
        w.requests ++ pushes ∧
      ((∃ error, source.find w.tree env.here (tagged repository arch) = .error error ∧
          pushes = [] ∧
          ((push e source env repository arch).run server w).1 = .error error) ∨
        ∃ credentials,
          source.find w.tree env.here (tagged repository arch) = .ok credentials ∧
          pushes = [.engine e (.push repository arch credentials)] ∧
          ((push e source env repository arch).run server w).1 =
            pushOutcome (tagged repository arch) (server (w.requests ++ pushes))) := by
  cases hfind : source.find w.tree env.here (tagged repository arch) with
  | error error =>
    rw [run_push_of_error harch hfind]
    exact ⟨[], (List.append_nil _).symm, .inl ⟨error, rfl, rfl, rfl⟩⟩
  | ok credentials =>
    rw [run_push harch hfind]
    exact ⟨_, rfl, .inr ⟨credentials, rfl, rfl, rfl⟩⟩

/-! ## The removal at the end -/

/-- A server that answers differently only when the removal is asked for makes no difference. -/
theorem run_publish_congr {server' : Server} (hlocal : validateTag localTag = .ok ())
    (harch : validateTag arch = .ok ())
    (htag : tagOutcome (tagged repository localTag) (server (w.requests ++
      [.engine e (.tagImage (tagged repository localTag) repository arch)])) = .ok ())
    (h : ∀ log, log ≠ ((push e source env repository arch).run server (w.logged
        (.engine e (.tagImage (tagged repository localTag) repository arch)))).2.requests ++
        [.engine e (.removeImage (tagged repository arch))] → server' log = server log) :
    (publish e source env repository localTag arch).run server' w =
      (publish e source env repository localTag arch).run server w := by
  have hbefore : ∀ log, log <+: ((push e source env repository arch).run server (w.logged
      (.engine e (.tagImage (tagged repository localTag) repository arch)))).2.requests →
      server' log = server log := by
    intro log hlog
    refine h log fun hlast => ?_
    have hlength := hlog.length_le
    rw [hlast, List.length_append, List.length_singleton] at hlength
    omega
  have hnaming : server' (w.requests ++
      [.engine e (.tagImage (tagged repository localTag) repository arch)]) = server (w.requests ++
      [.engine e (.tagImage (tagged repository localTag) repository arch)]) :=
    hbefore _ (prefix_requests_run (w := w.logged _) _)
  rw [run_publish hlocal harch htag, run_publish hlocal harch (by rw [hnaming, htag]),
    run_congr hbefore]

end

/-! ## Publications -/

/-- **The tag of the architecture is bracketed.**  If one of the tags is none, a publication fails
and sends nothing; if the engine does not give the image the tag, it fails and has sent no more
than that request.  If the image gets the tag, then a push follows, which is one request at most,
and the forced removal of the tag closes the log, however the push ends.  The result is that of the
push and does not depend on the answer to the removal. -/
theorem publish_brackets (e : EngineEndpoint) (source : CredentialSource) (env : Environment)
    (repository localTag arch : String) (server : Server) (w : World) :
    let naming := Request.engine e (.tagImage (tagged repository localTag) repository arch)
    let removal := Request.engine e (.removeImage (tagged repository arch))
    let pushed := (push e source env repository arch).run server (w.logged naming)
    let published := (publish e source env repository localTag arch).run server w
    (¬ (validateTag localTag = .ok () ∧ validateTag arch = .ok ()) →
      ∃ error, published = (.error error, w)) ∧
    (validateTag localTag = .ok () ∧ validateTag arch = .ok () →
      (¬ Succeeds (server (w.requests ++ [naming])) →
        ∃ error, published = (.error error, w.logged naming)) ∧
      (Succeeds (server (w.requests ++ [naming])) →
        (∃ pushes, published.2.requests = w.requests ++ naming :: pushes ++ [removal] ∧
          ((∃ error, source.find w.tree env.here (tagged repository arch) = .error error ∧
              pushes = [] ∧ pushed.1 = .error error) ∨
            ∃ credentials,
              source.find w.tree env.here (tagged repository arch) = .ok credentials ∧
              pushes = [.engine e (.push repository arch credentials)] ∧
              pushed.1 = pushOutcome (tagged repository arch)
                (server (w.requests ++ naming :: pushes)))) ∧
        published.1 = pushed.1 ∧
        (pushed.1 = .ok (tagged repository arch) ∨ ∃ error, pushed.1 = .error error) ∧
        ∀ server' : Server,
          (∀ log, log ≠ pushed.2.requests ++ [removal] → server' log = server log) →
          (publish e source env repository localTag arch).run server' w = published)) := by
  intro naming removal pushed published
  refine ⟨run_publish_of_refused, ?_⟩
  rintro ⟨hlocal, harch⟩
  refine ⟨fun hrefused => ?_, fun hnamed => ?_⟩
  · cases htag : tagOutcome (tagged repository localTag) (server (w.requests ++ [naming])) with
    | error error => exact ⟨error, run_publish_of_unnamed hlocal harch htag⟩
    | ok => exact absurd (tagOutcome_eq_ok_iff.1 htag) hrefused
  · have htag : tagOutcome (tagged repository localTag) (server (w.requests ++ [naming])) =
        .ok () := tagOutcome_eq_ok_iff.2 hnamed
    have hrun : published = (pushed.1, pushed.2.logged removal) := run_publish hlocal harch htag
    obtain ⟨pushes, hpushes, hways⟩ :=
      exists_pushes e source env repository server (w.logged naming) harch
    have hlog : (w.logged naming).requests ++ pushes = w.requests ++ naming :: pushes := by
      rw [World.requests_logged, List.append_assoc, List.singleton_append]
    rw [hlog] at hpushes
    rw [World.tree_logged, hlog] at hways
    refine ⟨⟨pushes, ?_, hways⟩, by rw [hrun], ?_, fun server' hserver =>
      run_publish_congr hlocal harch htag hserver⟩
    · rw [hrun, World.requests_logged, hpushes]
    · rcases hways with ⟨error, -, -, hpushed⟩ | ⟨credentials, -, -, hpushed⟩
      · exact .inr ⟨error, hpushed⟩
      · rw [hpushed]
        exact pushOutcome_eq_ok_or_error _ _

/-! A push whose connection is lost. -/

namespace Lost

def engine : EngineEndpoint := .socket "/var/run/docker.sock"

/-- A run that was given a user and a token. -/
def source : CredentialSource := ⟨some ("user", "token"), "/config.json"⟩

def env : Environment := ⟨"/", fun _ => none⟩

def world : World := ⟨[], "", .empty⟩

/-- The image gets the tag; no other request is answered. -/
def server : Server
  | [_] => .reply ⟨201, none, .text ""⟩
  | _ => .dropped

/-- The publication of an image. -/
def published : Except ImageError String × World :=
  (publish engine source env "images/product" "1234" "amd64").run server world

end Lost

/-- The tag is removed all the same, and the error is that of the push. -/
theorem publish_brackets_lost :
    Lost.published.2.requests =
        [.engine Lost.engine
            (.tagImage (tagged "images/product" "1234") "images/product" "amd64"),
          .engine Lost.engine
            (.push "images/product" "amd64" (some ⟨"user", "token", "docker.io"⟩)),
          .engine Lost.engine (.removeImage (tagged "images/product" "amd64"))] ∧
      Lost.published.1 = .error (.pushFailed EngineError.dropped.message) := by
  have htags : validateTag "1234" = .ok () ∧ validateTag "amd64" = .ok () :=
    ⟨eq_ok_of_toOption (by decide), eq_ok_of_toOption (by decide)⟩
  have hfind : Lost.source.find Lost.world.tree Lost.env.here (tagged "images/product" "amd64") =
      .ok (some ⟨"user", "token", "docker.io"⟩) := eq_ok_of_toOption (by decide +kernel)
  obtain ⟨-, hvalid⟩ := publish_brackets Lost.engine Lost.source Lost.env "images/product" "1234"
    "amd64" Lost.server Lost.world
  obtain ⟨-, hnamed⟩ := hvalid htags
  obtain ⟨⟨pushes, hlog, hways⟩, hresult, -⟩ := hnamed ⟨_, rfl, by decide⟩
  rcases hways with ⟨error, herror, -⟩ | ⟨credentials, hcredentials, rfl, hpushed⟩
  · cases hfind.symm.trans herror
  · cases hfind.symm.trans hcredentials
    exact ⟨hlog, hresult.trans hpushed⟩

end Engine

end ImagePipeline
