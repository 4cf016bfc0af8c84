import ImagePipeline.Proofs.Transcript
import ImagePipeline.Service.Registry
import ImagePipeline.Service.SourceHost

/-!
# Transcripts of requests to web services

A request to a service is one exchange, and one more for each redirection that is followed.  So a
transcript is a chain: every request after the first is the one that the answer before asks for.

* `Fetch.Followed`: the chains that begin with a request.
* `Fetch.Begun`: nothing if there is no request, or none that can be sent, and a chain otherwise;
  `begun_of_yields_json` says that fetching a value exchanges that.
* `Registry.Asked`: the lookup of labels, which is two of these, the second only with a token.
* `only_isWeb_labels`, `only_isWeb_mergeability`, `only_isWeb_commitDate`, `only_isWeb_postComment`:
  the services are asked for nothing but web requests, and files stay as they are.
-/

namespace ImagePipeline

open Files (Tree)
open Program

/-- A request to a web service. -/
def Request.IsWeb : Request → Prop
  | .web _ => True
  | .engine _ _ => False

variable {t t' : Tree} {es : List Exchange}

namespace Fetch

/-- The exchanges `es` begin with the request, and each of the others follows the redirection in
the answer before. -/
inductive Followed : Web.Request → List Exchange → Prop where
  | answered (r : Web.Request) (answer : Answer) : Followed r [⟨.web r, answer⟩]
  | redirected {r next : Web.Request} {reply : Reply} {es : List Exchange}
      (hnext : redirect? r reply = some next) (hes : Followed next es) :
      Followed r (⟨.web r, .reply reply⟩ :: es)

theorem Followed.forall_isWeb {r : Web.Request} (h : Followed r es) :
    ∀ x ∈ es, x.request.IsWeb := by
  induction h with
  | answered r answer =>
    intro x hx
    obtain rfl := List.mem_singleton.1 hx
    trivial
  | redirected _ _ ih =>
    intro x hx
    rcases List.mem_cons.1 hx with rfl | hx
    · trivial
    · exact ih x hx

theorem followed_of_yields_take {r : Web.Request}
    {goOn : Web.Request → Program ServiceError Response} {answer : Answer}
    {res : Except ServiceError Response}
    (hgoOn : ∀ next es res, (goOn next).Yields t es t' res → es = [] ∨ Followed next es)
    (h : (take r goOn answer).Yields t es t' res) : Followed r (⟨.web r, answer⟩ :: es) := by
  cases answer with
  | unreachable => rw [(yields_fail.1 h).1]; exact .answered r _
  | dropped => rw [(yields_fail.1 h).1]; exact .answered r _
  | reply reply =>
    rw [take] at h
    cases hnext : redirect? r reply with
    | none =>
      rw [hnext] at h
      rw [(yields_pure.1 h).1]
      exact .answered r _
    | some next =>
      rw [hnext] at h
      rcases hgoOn next es res h with rfl | hes
      · exact .answered r _
      · exact .redirected hnext hes

theorem followed_of_yields_follow {budget : Nat} {r : Web.Request}
    {res : Except ServiceError Response} (h : (follow budget r).Yields t es t' res) :
    Followed r es := by
  induction budget generalizing r es res with
  | zero =>
    obtain ⟨answer, rest, rfl, htake⟩ := yields_send.1 h
    exact followed_of_yields_take (fun next es res hnext => .inl (yields_fail.1 hnext).1) htake
  | succ budget ih =>
    obtain ⟨answer, rest, rfl, htake⟩ := yields_send.1 h
    exact followed_of_yields_take (fun next es res hnext => .inr (ih hnext)) htake

theorem only_isWeb_take (r : Web.Request) {goOn : Web.Request → Program ServiceError Response}
    (hgoOn : ∀ next, (goOn next).Only Request.IsWeb) (answer : Answer) :
    (take r goOn answer).Only Request.IsWeb := by
  cases answer with
  | unreachable => exact only_fail _
  | dropped => exact only_fail _
  | reply reply =>
    rw [take]
    split
    · exact only_pure _
    · exact hgoOn _

theorem only_isWeb_follow (budget : Nat) (r : Web.Request) :
    (follow budget r).Only Request.IsWeb := by
  induction budget generalizing r with
  | zero => exact only_send.2 ⟨trivial, only_isWeb_take r fun _ => only_fail _⟩
  | succ budget ih => exact only_send.2 ⟨trivial, only_isWeb_take r ih⟩

theorem only_isWeb_send (r : Web.Request) : (send r).Only Request.IsWeb := by
  unfold send
  split
  · exact only_isWeb_follow _ _
  · exact only_fail _

theorem only_isWeb_success (r : Web.Request) : (success r).Only Request.IsWeb := by
  refine (only_isWeb_send r).bind fun response => ?_
  split
  · exact only_pure _
  · exact only_fail _

theorem only_isWeb_json {α : Type} (read : Json → Option α) (r : Web.Request) :
    (json read r).Only Request.IsWeb := by
  refine (only_isWeb_success r).bind fun response => ?_
  split
  · exact only_pure _
  · exact only_fail _

/-- A request with a header that cannot be sent is not sent; any other begins a chain. -/
theorem followed_of_yields_send {r : Web.Request} {res : Except ServiceError Response}
    (h : (send r).Yields t es t' res) :
    (r.sendable = false ∧ es = []) ∨ (r.sendable = true ∧ Followed r es) := by
  unfold send at h
  cases hs : r.sendable with
  | false =>
    simp only [hs] at h
    exact .inl ⟨rfl, (yields_fail.1 h).1⟩
  | true =>
    simp only [hs, if_true] at h
    exact .inr ⟨rfl, followed_of_yields_follow h⟩

/-- What is exchanged for a request that may not come about: nothing if there is none or if one
of its headers cannot be sent, else a chain. -/
inductive Begun (q : Except ServiceError Web.Request) : List Exchange → Prop where
  | unsent (hq : ∀ r, q = .ok r → r.sendable = false) : Begun q []
  | sent {r : Web.Request} {es : List Exchange} (hq : q = .ok r) (hes : Followed r es) :
    Begun q es

theorem Begun.forall_isWeb {q : Except ServiceError Web.Request} (h : Begun q es) :
    ∀ x ∈ es, x.request.IsWeb := by
  cases h with
  | unsent => exact fun x hx => absurd hx List.not_mem_nil
  | sent _ hes => exact hes.forall_isWeb

theorem success_eq (r : Web.Request) : success r = send r >>= fun response => done
    (if isSuccess response.status then .ok response
      else .error (.status response.url.text response.status)) := by
  refine bind_congr fun response => ?_
  split <;> rfl

theorem json_eq {α : Type} (read : Json → Option α) (r : Web.Request) :
    json read r = success r >>= fun response => done
      (((Json.parse? response.body).bind read).elim (.error (.http .badBody)) .ok) := by
  refine bind_congr fun response => ?_
  cases (Json.parse? response.body).bind read <;> rfl

theorem begun_of_yields_json {α : Type} {read : Json → Option α} {r : Web.Request}
    {res : Except ServiceError α} (h : (json read r).Yields t es t' res) :
    Begun (.ok r) es := by
  rw [json_eq] at h
  obtain ⟨_, h₁, -⟩ := yields_bind_done.1 h
  rw [success_eq] at h₁
  obtain ⟨_, h₂, -⟩ := yields_bind_done.1 h₁
  rcases followed_of_yields_send h₂ with ⟨hr, rfl⟩ | ⟨-, hes⟩
  · refine .unsent fun r' hr' => ?_
    cases hr'
    exact hr
  · exact .sent rfl hes

theorem begun_of_yields_ofExcept_bind_json {α : Type} {read : Json → Option α}
    {q : Except ServiceError Web.Request} {res : Except ServiceError α}
    (h : (ofExcept q >>= json read).Yields t es t' res) : Begun q es := by
  rcases yields_ofExcept_bind.1 h with ⟨error, rfl, rfl, -, -⟩ | ⟨r, rfl, hr⟩
  · exact .unsent fun r hr => nomatch hr
  · exact begun_of_yields_json hr

end Fetch

/-! ## The registry -/

namespace Registry

variable {registry : Registry} {repository tag token : String}

theorem only_isWeb_pullToken (registry : Registry) (repository : String) :
    (registry.pullToken repository).Only Request.IsWeb := by
  unfold pullToken
  exact (only_ofExcept _).bind fun request => Fetch.only_isWeb_json _ _

theorem only_isWeb_labels (registry : Registry) (repository tag : String) :
    (registry.labels repository tag).Only Request.IsWeb := by
  unfold labels
  refine (only_isWeb_pullToken registry repository).bind fun token => ?_
  refine (only_ofExcept _).bind fun request => ?_
  exact (Fetch.only_isWeb_json _ _).bind fun history => only_ofExcept _

/-- The request for a token to pull from a repository, if the address of the tokens is one. -/
def tokenRequest (registry : Registry) (repository : String) : Except ServiceError Web.Request :=
  (Fetch.request .get registry.authUrl).map fun request =>
    let url := request.url.addQuery
      [("scope", "repository:" ++ repository ++ ":pull"), ("service", registry.service)]
    { request with url }

/-- The request for a manifest, if it has an address. -/
def manifestRequest (registry : Registry) (repository tag token : String) :
    Except ServiceError Web.Request :=
  (Fetch.request .get (registry.manifestUrl repository tag)).map fun request =>
    (request.withHeader "accept" manifestType).withHeader "authorization" ("Bearer " ++ token)

/-- What a lookup of labels exchanges: first for a token, then, with one, for the manifest. -/
inductive Asked (registry : Registry) (repository tag : String) (t : Tree) :
    List Exchange → Prop where
  | inVain {tokens : List Exchange} {error : ServiceError}
      (htokens : Fetch.Begun (registry.tokenRequest repository) tokens)
      (htoken : (registry.pullToken repository).Yields t tokens t (.error error)) :
      Asked registry repository tag t tokens
  | withToken {tokens manifests : List Exchange} {token : String}
      (htokens : Fetch.Begun (registry.tokenRequest repository) tokens)
      (htoken : (registry.pullToken repository).Yields t tokens t (.ok token))
      (hmanifests : Fetch.Begun (registry.manifestRequest repository tag token) manifests) :
      Asked registry repository tag t (tokens ++ manifests)

theorem pullToken_eq (registry : Registry) (repository : String) :
    registry.pullToken repository =
      ofExcept (registry.tokenRequest repository) >>= Fetch.json readToken := by
  unfold pullToken tokenRequest
  cases Fetch.request .get registry.authUrl <;> rfl

theorem labels_eq (registry : Registry) (repository tag : String) :
    registry.labels repository tag = registry.pullToken repository >>= fun token =>
      (ofExcept (registry.manifestRequest repository tag token) >>= Fetch.json readHistory) >>=
        fun history => done (labelsOf (registry.manifestUrl repository tag) history) := by
  unfold labels
  refine bind_congr fun token => ?_
  dsimp only
  unfold manifestRequest
  cases Fetch.request .get (registry.manifestUrl repository tag) <;> rfl

theorem begun_of_yields_pullToken {r : Except ServiceError String}
    (h : (registry.pullToken repository).Yields t es t' r) :
    t' = t ∧ Fetch.Begun (registry.tokenRequest repository) es := by
  refine ⟨h.tree_eq (only_isWeb_pullToken registry repository), ?_⟩
  rw [pullToken_eq] at h
  exact Fetch.begun_of_yields_ofExcept_bind_json h

theorem asked_of_yields_labels {r : Except ServiceError Labels}
    (h : (registry.labels repository tag).Yields t es t' r) :
    t' = t ∧ registry.Asked repository tag t es := by
  refine ⟨h.tree_eq (only_isWeb_labels registry repository tag), ?_⟩
  rw [labels_eq] at h
  rcases yields_bind.1 h with ⟨error, htoken, -⟩ | ⟨token, tokens, t₁, manifests, htoken, h₁, rfl⟩
  · obtain ⟨rfl, htokens⟩ := begun_of_yields_pullToken htoken
    exact .inVain htokens htoken
  · obtain ⟨rfl, htokens⟩ := begun_of_yields_pullToken htoken
    obtain ⟨_, hmanifests, -⟩ := yields_bind_done.1 h₁
    exact .withToken htokens htoken (Fetch.begun_of_yields_ofExcept_bind_json hmanifests)

end Registry

/-! ## The source host -/

namespace SourceHost

variable {host : SourceHost} {url : String}

theorem only_isWeb_mergeability (host : SourceHost) (url : String) :
    (host.mergeability url).Only Request.IsWeb := by
  unfold mergeability
  exact (only_ofExcept _).bind fun request => Fetch.only_isWeb_json _ _

theorem only_isWeb_commitDate (host : SourceHost) (repository commit : String) :
    (host.commitDate repository commit).Only Request.IsWeb := by
  unfold commitDate
  exact (only_ofExcept _).bind fun request => Fetch.only_isWeb_json _ _

theorem only_isWeb_postComment (host : SourceHost) (url body : String) :
    (host.postComment url body).Only Request.IsWeb := by
  unfold postComment
  exact (only_ofExcept _).bind fun request => Fetch.only_isWeb_json _ _

theorem begun_of_yields_mergeability {r : Except ServiceError PullRequest.Mergeability}
    (h : (host.mergeability url).Yields t es t' r) :
    t' = t ∧ Fetch.Begun (host.request .get url) es :=
  ⟨h.tree_eq (only_isWeb_mergeability host url), Fetch.begun_of_yields_ofExcept_bind_json h⟩

theorem begun_of_yields_commitDate {repository commit : String} {r : Except ServiceError String}
    (h : (host.commitDate repository commit).Yields t es t' r) :
    t' = t ∧ Fetch.Begun (host.request .get (commitUrl repository commit)) es :=
  ⟨h.tree_eq (only_isWeb_commitDate host repository commit),
    Fetch.begun_of_yields_ofExcept_bind_json h⟩

/-- The request that posts a comment, if it has an address. -/
def commentRequest (host : SourceHost) (url body : String) : Except ServiceError Web.Request :=
  (host.request .post url).map fun request =>
    { request with body := some (.object [("body", .string body)]) }

theorem begun_of_yields_postComment {body : String} {r : Except ServiceError Comment}
    (h : (host.postComment url body).Yields t es t' r) :
    t' = t ∧ Fetch.Begun (host.commentRequest url body) es := by
  refine ⟨h.tree_eq (only_isWeb_postComment host url body), ?_⟩
  have heq : host.postComment url body =
      ofExcept (host.commentRequest url body) >>= Fetch.json readComment := by
    unfold postComment commentRequest
    cases host.request .post url <;> rfl
  rw [heq] at h
  exact Fetch.begun_of_yields_ofExcept_bind_json h

end SourceHost

end ImagePipeline
