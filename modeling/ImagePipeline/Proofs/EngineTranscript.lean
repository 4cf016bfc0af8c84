import ImagePipeline.Engine.Cleaner
import ImagePipeline.Engine.Transfer
import ImagePipeline.Proofs.Transcript

/-!
# Transcripts of work with the engine

What each operation on the engine asks, and what it makes of the answer.  Nearly all of them are
one exchange; the result is a function of its answer.

* `Engine.accept` and `Engine.readValue` are those functions for a call and for a call that wants
  a value; `yields_call` and `yields_value` say so.
* `yields_pull`, `yields_push`: a transfer makes no exchange if its credentials cannot be found
  out, and one otherwise.
* `yields_publish`: a publication ends before any exchange, after the attempt to name the image,
  or after a push that is followed by the removal of the name.
-/

namespace ImagePipeline

open Files (Tree)
open Program

variable {t t' : Tree} {es : List Exchange}

namespace Engine

/-- What an answer is to a call that wants a success. -/
def accept : Answer → Except EngineError Reply
  | .unreachable => .error .unreachable
  | .dropped => .error .dropped
  | .reply r =>
    if isSuccess r.status then .ok r
    else .error (.responded r.status (failureText r.body.toText))

/-- The value in the body of a success. -/
def readReply {α : Type} (read : Json → Option α) (reply : Reply) : Except EngineError α :=
  match (Json.parse? reply.body.toText).bind read with
  | some a => .ok a
  | none => .error .unreadable

/-- The value that an answer holds. -/
def readValue {α : Type} (read : Json → Option α) (answer : Answer) : Except EngineError α :=
  (accept answer).bind (readReply read)

/-- The labels in what the engine tells about an image. -/
def toldLabels (reference : String) (answer : Answer) : Except ImageError Labels :=
  ((readValue readDetails answer).map (·.labels)).mapError (missingOr reference)

/-- What is shown of an image's id. -/
def shownId (details : ImageDetails) : String :=
  String.ofList ((details.id.getD "").toList.take shownIdLength)

/-- The shown id in what the engine tells about an image. -/
def toldId (reference : String) (answer : Answer) : Except ImageError String :=
  ((readValue readDetails answer).map shownId).mapError (missingOr reference)

/-- The ids in a list of images. -/
def toldIds (answer : Answer) : Except ImageError (List String) :=
  (readValue (Json.list readImageId) answer).mapError .engine

/-- The end of the naming of an image, by the answer to it. -/
def tagOutcome (source : String) (answer : Answer) : Except ImageError Unit :=
  ((accept answer).mapError (missingOr source)).bind fun _ => .ok ()

/-- The end of a removal, by the answer to it. -/
def removalOutcome (reference : String) (answer : Answer) : Except ImageError Unit :=
  ((readValue Json.items? answer).mapError (missingOr reference)).bind fun _ => .ok ()

/-- The end of a pull, by the answer to it. -/
def pullOutcome (image : String) (answer : Answer) : Except ImageError Unit :=
  ((accept answer).mapError fun error => .pullFailed image error.message).bind fun reply =>
    match (EngineMessage.ofReply reply).1.findSome? (·.errorDetail),
        (EngineMessage.ofReply reply).2 with
    | some detail, _ => .error (.pullFailed image (detail.getD "unknown error"))
    | none, some error => .error (.pullFailed image error.message)
    | none, none => .ok ()

/-- The end of a push, by the answer to it. -/
def pushOutcome (image : String) (answer : Answer) : Except ImageError String :=
  ((accept answer).mapError fun error => .pushFailed error.message).bind fun reply =>
    match (EngineMessage.ofReply reply).2 with
    | some error => .error (.pushFailed error.message)
    | none => .ok image

variable {e : EngineEndpoint}

/-! ## Operations of one exchange -/

theorem call_eq (c : EngineCall) : call e c = ask (.engine e c) accept := by
  unfold call ask
  congr 1
  funext answer
  cases answer with
  | unreachable => rfl
  | dropped => rfl
  | reply reply =>
    show (if isSuccess reply.status then pure reply else _ : Program EngineError Reply) = _
    rw [accept]
    split <;> rfl

theorem value_eq {α : Type} (c : EngineCall) (read : Json → Option α) :
    value e c read = ask (.engine e c) (readValue read) := by
  have h : value e c read = call e c >>= fun reply => done (readReply read reply) := by
    unfold value
    congr 1
    funext reply
    rw [readReply]
    cases (Json.parse? reply.body.toText).bind read <;> rfl
  rw [h, call_eq, ask_bind_done]
  rfl

theorem inspect_eq (reference : String) :
    inspect e reference = ask (.engine e (.inspect reference)) fun answer =>
      (readValue readDetails answer).mapError (missingOr reference) := by
  rw [inspect, value_eq, ask_mapError]

theorem labels_eq (reference : String) :
    labels e reference = ask (.engine e (.inspect reference)) (toldLabels reference) := by
  show (inspect e reference >>= fun details => done (.ok details.labels)) = _
  rw [inspect_eq, ask_bind_done]
  congr 1
  funext answer
  rw [toldLabels]
  cases readValue readDetails answer <;> rfl

theorem shortId_eq (reference : String) :
    shortId e reference = ask (.engine e (.inspect reference)) (toldId reference) := by
  show (inspect e reference >>= fun details => done (.ok (shownId details))) = _
  rw [inspect_eq, ask_bind_done]
  congr 1
  funext answer
  rw [toldId]
  cases readValue readDetails answer <;> rfl

theorem find_eq (query : ImageQuery) :
    find e query = ask (.engine e (.listImages query)) (toldIds) := by
  rw [find, value_eq, ask_mapError]
  rfl

theorem tag_eq (source repository newTag : String) :
    tag e source repository newTag =
      ask (.engine e (.tagImage source repository newTag)) (tagOutcome source) := by
  show ((call e _).mapError _ >>= fun _ => done (.ok ())) = _
  rw [call_eq, ask_mapError, ask_bind_done]
  rfl

theorem remove_eq (reference : String) :
    remove e reference = ask (.engine e (.removeImage reference)) (removalOutcome reference) := by
  show ((value e _ _).mapError _ >>= fun _ => done (.ok ())) = _
  rw [value_eq, ask_mapError, ask_bind_done]
  rfl

/-! ## Transfers -/

theorem yields_credentialsFor {source : CredentialSource} {env : Environment} {image : String}
    {r : Except ImageError (Option Credentials)} :
    (credentialsFor source env image).Yields t es t' r ↔
      es = [] ∧ t' = t ∧ r = source.find t env.here image := by
  rw [credentialsFor, yields_files_bind, yields_ofExcept]

theorem pull_eq (source : CredentialSource) (env : Environment) (repository tag : String) :
    pull e source env repository tag =
      credentialsFor source env (tagged repository tag) >>= fun credentials =>
        ask (.engine e (.pull repository tag credentials))
          (pullOutcome (tagged repository tag)) := by
  refine bind_congr fun credentials => ?_
  unfold pullOutcome
  rw [call_eq, ask_mapError, ← ask_bind_done]
  refine bind_congr fun reply => ?_
  rcases EngineMessage.ofReply reply with ⟨messages, ending⟩
  simp only
  cases messages.findSome? (·.errorDetail) with
  | some detail => rfl
  | none => cases ending <;> rfl

/-- A pull sends nothing if its credentials cannot be found out, and is one exchange otherwise. -/
theorem yields_pull {source : CredentialSource} {env : Environment} {repository tag : String}
    {r : Except ImageError Unit} :
    (pull e source env repository tag).Yields t es t' r ↔ t' = t ∧
      ((∃ error, source.find t env.here (tagged repository tag) = .error error ∧
        es = [] ∧ r = .error error) ∨
      ∃ credentials answer, source.find t env.here (tagged repository tag) = .ok credentials ∧
        es = [⟨.engine e (.pull repository tag credentials), answer⟩] ∧
        r = pullOutcome (tagged repository tag) answer) := by
  rw [pull_eq, yields_bind]
  simp only [yields_credentialsFor, yields_ask]
  constructor
  · rintro (⟨error, ⟨rfl, rfl, h⟩, rfl⟩ |
      ⟨credentials, _, _, _, ⟨rfl, rfl, h⟩, ⟨answer, rfl, rfl, rfl⟩, rfl⟩)
    · exact ⟨rfl, .inl ⟨error, h.symm, rfl, rfl⟩⟩
    · exact ⟨rfl, .inr ⟨credentials, answer, h.symm, rfl, rfl⟩⟩
  · rintro ⟨rfl, ⟨error, h, rfl, rfl⟩ | ⟨credentials, answer, h, rfl, rfl⟩⟩
    · exact .inl ⟨error, ⟨rfl, rfl, h.symm⟩, rfl⟩
    · exact .inr ⟨credentials, [], t', _, ⟨rfl, rfl, h.symm⟩, ⟨answer, rfl, rfl, rfl⟩, rfl⟩

theorem push_eq {tag : String} (htag : validateTag tag = .ok ()) (source : CredentialSource)
    (env : Environment) (repository : String) :
    push e source env repository tag =
      credentialsFor source env (tagged repository tag) >>= fun credentials =>
        print ("  → " ++ tagged repository tag ++ "\n")
          (ask (.engine e (.push repository tag credentials))
            (pushOutcome (tagged repository tag))) := by
  have hpush : ∀ credentials, ((call e (.push repository tag credentials)).mapError
      (fun error => ImageError.pushFailed error.message) >>= fun reply =>
        match (EngineMessage.ofReply reply).2 with
        | some error => fail (.pushFailed error.message)
        | none => pure (tagged repository tag)) =
      ask (.engine e (.push repository tag credentials))
        (pushOutcome (tagged repository tag)) := by
    intro credentials
    unfold pushOutcome
    rw [call_eq, ask_mapError, ← ask_bind_done]
    refine bind_congr fun reply => ?_
    cases (EngineMessage.ofReply reply).2 <;> rfl
  simp only [← hpush]
  unfold push
  rw [htag]
  rfl

/-- A push under a valid tag sends nothing if its credentials cannot be found out, and is one
exchange otherwise. -/
theorem yields_push {source : CredentialSource} {env : Environment} {repository tag : String}
    {r : Except ImageError String} (htag : validateTag tag = .ok ()) :
    (push e source env repository tag).Yields t es t' r ↔ t' = t ∧
      ((∃ error, source.find t env.here (tagged repository tag) = .error error ∧
        es = [] ∧ r = .error error) ∨
      ∃ credentials answer, source.find t env.here (tagged repository tag) = .ok credentials ∧
        es = [⟨.engine e (.push repository tag credentials), answer⟩] ∧
        r = pushOutcome (tagged repository tag) answer) := by
  rw [push_eq htag, yields_bind]
  simp only [yields_credentialsFor, yields_print, yields_ask]
  constructor
  · rintro (⟨error, ⟨rfl, rfl, h⟩, rfl⟩ |
      ⟨credentials, _, _, _, ⟨rfl, rfl, h⟩, ⟨answer, rfl, rfl, rfl⟩, rfl⟩)
    · exact ⟨rfl, .inl ⟨error, h.symm, rfl, rfl⟩⟩
    · exact ⟨rfl, .inr ⟨credentials, answer, h.symm, rfl, rfl⟩⟩
  · rintro ⟨rfl, ⟨error, h, rfl, rfl⟩ | ⟨credentials, answer, h, rfl, rfl⟩⟩
    · exact .inl ⟨error, ⟨rfl, rfl, h.symm⟩, rfl⟩
    · exact .inr ⟨credentials, [], t', _, ⟨rfl, rfl, h.symm⟩, ⟨answer, rfl, rfl, rfl⟩, rfl⟩

/-! ## Builds -/

theorem only_false_showBuild (messages : List EngineMessage) :
    (showBuild messages).Only fun _ => False := by
  induction messages with
  | nil => exact only_pure _
  | cons m ms ih =>
    unfold showBuild
    cases m.errorDetail with
    | some detail => exact only_fail _
    | none =>
      cases m.stream with
      | none =>
        cases m.status with
        | none => exact ih
        | some text => exact (only_writeLine text).bind fun _ => ih
      | some output =>
        refine (only_write output).bind fun _ => ?_
        cases m.status with
        | none => exact ih
        | some text => exact (only_writeLine text).bind fun _ => ih

/-- A build is one exchange. -/
theorem build_of_yields {dockerfile tag : String} {args : BuildArgs} {context : Build.Archive}
    {r : Except ImageError Unit}
    (h : (build e dockerfile tag args context).Yields t es t' r) :
    t' = t ∧ ∃ answer, es = [⟨.engine e (.build dockerfile tag args context), answer⟩] := by
  unfold build at h
  rw [call_eq, ask_mapError] at h
  obtain ⟨answer, rest, rfl, ⟨_, -, rfl, rfl, -⟩ | ⟨reply, -, h₁⟩⟩ := yields_ask_bind.1 h
  · exact ⟨rfl, answer, rfl⟩
  · have hquiet : ((showBuild (EngineMessage.ofReply reply).1) >>= fun _ =>
        match (EngineMessage.ofReply reply).2 with
        | some error => fail (.engine error)
        | none => pure () : Program ImageError Unit).Only fun _ => False := by
      refine (only_false_showBuild _).bind fun _ => ?_
      cases (EngineMessage.ofReply reply).2 with
      | some error => exact only_fail _
      | none => exact only_pure _
    have hrest : rest = [] :=
      List.eq_nil_iff_forall_not_mem.2 fun x hx => h₁.forall_request hquiet x hx
    exact ⟨h₁.tree_eq hquiet, answer, by rw [hrest]⟩

/-! ## Publication -/

/-- The ways in which a publication can go: what is exchanged and how it ends. -/
inductive Publication (e : EngineEndpoint) (source : CredentialSource) (env : Environment)
    (repository localTag arch : String) (t : Tree) :
    List Exchange → Except ImageError String → Prop where
  /-- One of the tags is none. -/
  | refused {error : ImageError}
      (htags : (validateTag localTag >>= fun _ => validateTag arch) = .error error) :
      Publication e source env repository localTag arch t [] (.error error)
  /-- The image does not get the tag of the architecture. -/
  | unnamed {answer : Answer} {error : ImageError}
      (hlocal : validateTag localTag = .ok ()) (harch : validateTag arch = .ok ())
      (htag : tagOutcome (tagged repository localTag) answer = .error error) :
      Publication e source env repository localTag arch t
        [⟨.engine e (.tagImage (tagged repository localTag) repository arch), answer⟩]
        (.error error)
  /-- The image gets the tag, is pushed, and loses the tag. -/
  | sent {answer removal : Answer} {pushes : List Exchange} {r : Except ImageError String}
      (hlocal : validateTag localTag = .ok ()) (harch : validateTag arch = .ok ())
      (htag : tagOutcome (tagged repository localTag) answer = .ok ())
      (hpush : (push e source env repository arch).Yields t pushes t r) :
      Publication e source env repository localTag arch t
        (⟨.engine e (.tagImage (tagged repository localTag) repository arch), answer⟩ :: pushes
          ++ [⟨.engine e (.removeImage (tagged repository arch)), removal⟩]) r

theorem publication_of_yields {source : CredentialSource} {env : Environment}
    {repository localTag arch : String} {r : Except ImageError String}
    (h : (publish e source env repository localTag arch).Yields t es t' r) :
    t' = t ∧ Publication e source env repository localTag arch t es r := by
  unfold publish at h
  rw [tag_eq, remove_eq] at h
  rcases yields_ofExcept_bind.1 h with ⟨error, hlocal, rfl, rfl, rfl⟩ | ⟨⟨⟩, hlocal, h₁⟩
  · exact ⟨rfl, .refused (by rw [hlocal]; rfl)⟩
  rcases yields_ofExcept_bind.1 h₁ with ⟨error, harch, rfl, rfl, rfl⟩ | ⟨⟨⟩, harch, h₂⟩
  · exact ⟨rfl, .refused (by rw [hlocal, harch]; rfl)⟩
  obtain ⟨answer, rest, rfl, ⟨error, htag, rfl, rfl, rfl⟩ | ⟨⟨⟩, htag, h₃⟩⟩ := yields_ask_bind.1 h₂
  · exact ⟨rfl, .unnamed hlocal harch htag⟩
  obtain ⟨pushed, pushes, t₁, rest', hpush, h₄, rfl⟩ := yields_attempt_bind.1 h₃
  obtain ⟨removed, removals, t₂, rest, hremoval, h₅, rfl⟩ := yields_attempt_bind.1 h₄
  obtain ⟨rfl, rfl, rfl⟩ := yields_ofExcept.1 h₅
  obtain rfl := ((yields_push harch).1 hpush).1
  obtain ⟨removal, rfl, rfl, -⟩ := yields_ask.1 hremoval
  exact ⟨rfl, .sent hlocal harch htag hpush⟩

section Publication

variable {source : CredentialSource} {env : Environment} {repository localTag arch image : String}
  {x : Exchange}

/-- A publication pushes to its own repository only. -/
theorem Publication.repository_eq {r : Except ImageError String} {e' : EngineEndpoint}
    {repository' tag : String} {credentials : Option Credentials}
    (h : Publication e source env repository localTag arch t es r) (hx : x ∈ es)
    (hpush : x.request = .engine e' (.push repository' tag credentials)) :
    repository' = repository := by
  cases h with
  | refused => exact absurd hx List.not_mem_nil
  | unnamed =>
    obtain rfl := List.mem_singleton.1 hx
    cases hpush
  | sent _ harch _ hpushes =>
    rcases List.mem_append.1 hx with hx | hx
    · rcases List.mem_cons.1 hx with rfl | hx
      · cases hpush
      · obtain ⟨-, ⟨_, -, rfl, -⟩ | ⟨_, answer, -, rfl, -⟩⟩ := (yields_push harch).1 hpushes
        · exact absurd hx List.not_mem_nil
        · obtain rfl := List.mem_singleton.1 hx
          cases hpush
          rfl
    · obtain rfl := List.mem_singleton.1 hx
      cases hpush

/-- A publication that does not fail has pushed. -/
theorem Publication.exists_push
    (h : Publication e source env repository localTag arch t es (.ok image)) :
    ∃ y ∈ es, ∃ credentials, y.request = .engine e (.push repository arch credentials) := by
  cases h with
  | sent _ harch _ hpushes =>
    obtain ⟨-, ⟨_, -, -, hr⟩ | ⟨credentials, answer, -, rfl, -⟩⟩ := (yields_push harch).1 hpushes
    · cases hr
    · exact ⟨⟨_, answer⟩, by simp, credentials, rfl⟩

end Publication

/-! ## Cleanup -/

/-- The request is a call of the engine. -/
def IsCall (e : EngineEndpoint) (q : Request) : Prop := ∃ c, q = .engine e c

theorem only_prImages (pr : String) (dangling all : Bool) :
    (prImages e pr dangling all).Only (IsCall e) := by
  rw [prImages, find_eq]
  exact only_ask ⟨_, rfl⟩ _

theorem only_containersOf (onFailure : OnFailure) (image : String) :
    (containersOf e onFailure image).Only (IsCall e) := by
  rw [containersOf, value_eq]
  refine (only_ask ⟨_, rfl⟩ _).attempt.bind fun listed => ?_
  cases listed with
  | ok ids => exact only_pure _
  | error error =>
    cases onFailure with
    | abort => exact only_fail _
    | ignore => exact only_pure _

theorem only_removeContainer (id : String) : (removeContainer e id).Only (IsCall e) := by
  rw [removeContainer, call_eq]
  exact ((only_ask ⟨_, rfl⟩ _).mapError _).bind fun _ => only_pure _

theorem only_record {removal : Program ImageError Unit} {P : Request → Prop}
    (h : removal.Only P) (onFailure : OnFailure) (removed : CleanupReport → CleanupReport)
    (report : CleanupReport) : (record onFailure removed removal report).Only P := by
  refine h.attempt.bind fun outcome => ?_
  cases outcome with
  | ok => exact only_pure _
  | error error =>
    cases onFailure with
    | abort => exact only_fail _
    | ignore => exact only_pure _

theorem only_removeContainers (onFailure : OnFailure) (ids : List String)
    (report : CleanupReport) : (removeContainers e onFailure ids report).Only (IsCall e) := by
  induction ids generalizing report with
  | nil => exact only_pure _
  | cons id ids ih => exact (only_record (only_removeContainer id) _ _ _).bind ih

/-- A cleanup of images sends calls of the engine only. -/
theorem only_removeAll (onFailure : OnFailure) (images : List String) :
    (removeAll e onFailure images).Only (IsCall e) := by
  rw [removeAll]
  generalize CleanupReport.empty = report
  induction images generalizing report with
  | nil => exact only_pure _
  | cons image images ih =>
    refine (only_containersOf onFailure image).bind fun containers => ?_
    refine (only_removeContainers onFailure containers report).bind fun report' => ?_
    refine Only.bind ?_ ih
    rw [remove_eq]
    exact only_record (only_ask ⟨_, rfl⟩ _) _ _ _

end Engine

end ImagePipeline
